import PipeScript.Binary64.Fixed
import PipeScript.Cache.Entry
import PipeScript.Work

/-!
# The result cache

Results of commands are kept in a directory, one file per entry. Reading removes an entry that is no
longer valid, and the rest of the directory is left alone. Storing writes a temporary file and moves
it into place, so that a failure changes nothing.
-/

namespace PipeScript

/-- A cache directory and the time at which it is used. -/
structure Cache where
  directory : Path
  now : Binary64

namespace Cache

/-- The path of an entry's file. -/
def pathOf (c : Cache) (space key : String) : Path :=
  c.directory.child (CacheEntry.fileName space key)

/-- How messages show the temporary file. -/
def temporary : String := "<tmp>"

/-- The disk after a file is removed, if it can be. -/
def discard (d : Disk) (p : Path) : Disk := (d.remove p).toOption.getD d

/-- The value of an entry that is there and valid. -/
def lookup (c : Cache) (space key : String) : Work Disk (Option String) := .of fun d =>
  let p := c.pathOf space key
  match d.readBytes p with
  | .error (.disk e) => if e.problem = .notFound then (.ok none, d) else (.error (.disk e), d)
  | .error f => (.error f, d)
  | .ok bytes =>
    match CacheEntry.decode? bytes with
    | none => (.ok none, discard d p)
    | some entry =>
      if entry.isExpired c.now then (.ok none, discard d p) else (.ok (some entry.data), d)

/-- What may go wrong as an entry is stored, besides what the disk itself refuses. -/
inductive Mishap
  /-- The temporary file cannot be made. -/
  | making (f : Failure)
  /-- Only so many bytes can be written to it. -/
  | writing (written : Nat) (f : Failure)
  /-- It cannot be moved into place. -/
  | moving (f : Failure)

/-- The names of temporary files. -/
def temporaryName (n : Nat) : String := "tmp" ++ toString n ++ ".tmp"

/-- How a failure to make the temporary file is told. -/
def makingFailure : Failure → Failure
  | .disk e => .disk { e with path := temporary }
  | f => f

/-- How a failure to move the temporary file is told. -/
def movingFailure : Failure → Failure
  | .disk e => .disk { problem := e.problem, path := temporary, target := some e.path }
  | f => f

/-- Make a temporary file in the directory. -/
def makeTemporary (c : Cache) (mishap : Option Mishap) (d : Disk) : Except Failure (Location × Disk) :=
  match mishap with
  | some (.making f) => .error f
  | _ => (d.makeFresh c.directory temporaryName).mapError makingFailure

/-- Write bytes to the temporary file. -/
def fill (mishap : Option Mishap) (file : Location) (bytes : List UInt8) (d : Disk) :
    Except Failure Unit × Disk :=
  match mishap with
  | some (.writing written f) => (.error f, d.put file (.file (bytes.take written)))
  | _ => (.ok (), d.put file (.file bytes))

/-- Move the temporary file into place. -/
def moveInto (mishap : Option Mishap) (p : Path) (file : Location) (d : Disk) : Except Failure Disk :=
  match mishap with
  | some (.moving f) => .error f
  | _ => (d.move file p).mapError movingFailure

/-- Put bytes in place of an entry's file. A temporary file that cannot be written or moved is
removed. -/
def replace (c : Cache) (mishap : Option Mishap) (p : Path) (bytes : List UInt8) (d : Disk) :
    Except Failure Unit × Disk :=
  match c.makeTemporary mishap d with
  | .error f => (.error f, d)
  | .ok (file, made) =>
    let (outcome, filled) := fill mishap file bytes made
    (filled.erase file).after (outcome.bind fun _ => moveInto mishap p file filled)

/-- Store a value, with a mishap if there is one. -/
def storeWith (c : Cache) (mishap : Option Mishap) (space key : String) (value lifetime : Json) :
    Work Disk Unit := .of fun d =>
  match CacheEntry.ofValue value space key c.now lifetime with
  | .error es => (.error (.invalid "CacheEntry" es), d)
  | .ok entry => c.replace mishap (c.pathOf space key) entry.encode d

/-- Store a value. -/
def store (c : Cache) (space key : String) (value lifetime : Json) : Work Disk Unit :=
  c.storeWith none space key value lifetime

/-- Remove an entry, whether it is there or not. -/
def invalidate (c : Cache) (space key : String) : Work Disk Unit := .edit fun d =>
  match d.remove (c.pathOf space key) with
  | .error (.disk e) => if e.problem = .notFound then .ok d else .error (.disk e)
  | r => r

/-- The files of the directory whose name ends in the given one. -/
def filesEnding (c : Cache) (ending : String) (d : Disk) : List (String × Node) :=
  match d.list c.directory with
  | .ok entries => entries.filter fun e => ending.toList.isSuffixOf e.1.toList
  | .error _ => []

/-- Remove the files in turn, adding those that were there to a count. -/
def removeAll (c : Cache) (names : List String) (count : Nat) (d : Disk) :
    Except Failure Nat × Disk :=
  match names with
  | [] => (.ok count, d)
  | name :: rest =>
    match d.remove (c.directory.child name) with
    | .ok d' => removeAll c rest (count + 1) d'
    | .error (.disk e) =>
      if e.problem = .notFound then removeAll c rest count d else (.error (.disk e), d)
    | .error f => (.error f, d)

/-- The age in seconds above which a temporary file is a leftover. -/
def leftoverAge : Nat := 60

/-- Is the file a leftover of a write that did not end? -/
def isLeftover : Node → Bool
  | .file _ age => Binary64.le (.ofNat leftoverAge) age
  | .directory => false

/-- Remove every entry and all leftovers; the answer is the number of entries removed. -/
def clear (c : Cache) : Work Disk Nat := .of fun d =>
  match c.removeAll ((c.filesEnding ".json" d).map (·.1)) 0 d with
  | (.error f, d') => (.error f, d')
  | (.ok count, d') =>
    let leftovers := (c.filesEnding ".tmp" d').filter fun e => isLeftover e.2
    let (r, d'') := c.removeAll (leftovers.map (·.1)) 0 d'
    (r.map fun _ => count, d'')

/-- The bytes that a directory itself takes. -/
def directorySize : Nat := 4096

/-- The size of a node in bytes. -/
def sizeOf : Node → Nat
  | .file bytes _ => bytes.length
  | .directory => directorySize

/-- Is the file an entry that has outlived its lifetime? -/
def holdsExpired (c : Cache) : Node → Bool
  | .file bytes _ => (CacheEntry.decode? bytes).any (·.isExpired c.now)
  | .directory => false

/-- How many entries there are, how many of them are expired, and how much room they take. -/
def stats (c : Cache) (d : Disk) : String :=
  let entries := c.filesEnding ".json" d
  let expired := entries.countP fun e => c.holdsExpired e.2
  let size := entries.foldl (fun total e => total + sizeOf e.2) 0
  let kilobytes := Binary64.toFixed 1 (.ofRatio false size 1024)
  s!"Cache: {entries.length} entries ({expired} expired), {kilobytes} KB, "
    ++ s!"dir: {c.directory.toString}"

/-- The cached value, or the one that `fetch` gives, which is then stored. Without a cache the value
is always fetched. -/
def through {σ : Type} (onDisk : {α : Type} → Work Disk α → Work σ α) (cache : Option Cache)
    (space key : String) (lifetime : Json) (fetch : Work σ Json) : Work σ Json :=
  match cache with
  | none => fetch
  | some c => do
    match ← onDisk (c.lookup space key) with
    | some value => pure (.string value)
    | none =>
      let value ← fetch
      onDisk (c.store space key value lifetime)
      pure value

end Cache

end PipeScript
