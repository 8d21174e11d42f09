import PipeScript.Digest
import PipeScript.Json.Reader
import PipeScript.Json.Writer
import PipeScript.Text.Letter
import PipeScript.Text.Utf8
import PipeScript.Validation

/-!
# Cache records

An entry of the cache is kept as one JSON record in a file of its own. The file's name holds the
letters, numbers, dashes and underscores of the entry's namespace and half the digest of namespace
and key. Bytes that are no record of an entry count as no entry.
-/

namespace PipeScript

/-- A cached result. -/
structure CacheEntry where
  data : String
  space : String
  key : String
  /-- When it was stored, in seconds. -/
  createdAt : Binary64
  /-- For how many seconds it counts. -/
  lifetime : Nat
deriving DecidableEq, Repr

namespace CacheEntry

/-- Is the number greater than the whole number? -/
def exceeds (x : Binary64) (n : Nat) : Bool :=
  match x with
  | .nan _ => false
  | .infinite negative => !negative
  | .finite negative units => (n * Binary64.unitsPerOne : Int) < Binary64.signedUnits negative units

/-- Has the entry outlived its lifetime? -/
def isExpired (e : CacheEntry) (now : Binary64) : Bool := exceeds (now - e.createdAt) e.lifetime

/-- The record of an entry. -/
def toJson (e : CacheEntry) : Json := .object [
  ("data", .string e.data),
  ("namespace", .string e.space),
  ("key", .string e.key),
  ("created_at", .number e.createdAt),
  ("ttl_seconds", .int e.lifetime)]

/-- Read an entry from the fields of a record. -/
def ofFields (origin : Rule.Origin) (fields : Json.Fields) : Checked CacheEntry :=
  Checked.ap (Checked.ap (Checked.ap (Checked.ap
    ((Rule.required "data" Rule.string fields).map CacheEntry.mk)
    (Rule.required "namespace" Rule.string fields))
    (Rule.required "key" Rule.string fields))
    (Rule.required "created_at" (Rule.number origin) fields))
    ((Rule.required "ttl_seconds" (Rule.integerIn [.atLeast 0]) fields).map Int.toNat)

/-- The entry of a value that is to be stored. -/
def ofValue (value : Json) (space key : String) (now : Binary64) (lifetime : Json) :
    Checked CacheEntry :=
  ofFields .data [("data", value), ("namespace", .string space), ("key", .string key),
    ("created_at", .number now), ("ttl_seconds", lifetime)]

/-- The bytes of an entry's record. -/
def encode (e : CacheEntry) : List UInt8 := Text.Utf8.encode e.toJson.write

/-- The entry whose record the bytes are. -/
def decode? (bytes : List UInt8) : Option CacheEntry := do
  let s ← (Text.Utf8.decode bytes).toOption
  let v ← (Json.read Json.recordDialect s).toOption
  (Rule.record "CacheEntry" (ofFields .record) v).toOption

/-- The first half of the digest of namespace and key, in hexadecimal digits. -/
def mark (space key : String) : List Char :=
  (Digest.hex (Text.Utf8.encode (space.toList ++ Char.ofNat 0 :: key.toList))).take 32

/-- The characters of a namespace that may stand in a file name, `default` if there are none. -/
def safeSpace (space : String) : List Char :=
  let kept := space.toList.filter fun c => Text.isAlphanumeric c || c == '-' || c == '_'
  if kept.isEmpty then "default".toList else kept

/-- The name of an entry's file. -/
def fileName (space key : String) : String :=
  String.ofList (safeSpace space ++ '_' :: mark space key ++ ".json".toList)

end CacheEntry

end PipeScript
