import PipeScript.Validation.Numeral
import PipeScript.Validation.Problem

/-!
# Field rules

Data from outside is read into records by rules per field: which kinds of value a field takes, which
bounds it keeps, and what it is when absent. A record with several faults reports all of them, in
the order of its fields, each with the path that leads to it.

The rules are lenient where no information is lost: a whole number may come as a truth value, as a
number without a fractional part or as a numeral, and any number may come as a numeral.
-/

namespace PipeScript

namespace Rule

open Checked

variable {α : Type}

/-- Where a value comes from: parsed data, or the text of a record, whose whole numbers may lie
beyond the range of numbers. -/
inductive Origin
  | data
  | record
deriving DecidableEq, Repr

/-! ### Kinds of values -/

/-- A string. Texts hold whole characters only, so a half of a surrogate pair is replaced by the six
characters of its escape. -/
def string : Json → Checked String
  | .string s => .ok s
  | .broken points => .ok (Text.ofPoints points)
  | v => fail .notString v

/-- The whole number that a number without a fractional part is, if it has less than 64 bits. -/
def integerOf (x : Binary64) : Except FieldProblem Int :=
  match x with
  | .finite .. =>
    match x.toInt? with
    | some i => if i.natAbs < Binary64.twoPow 63 then .ok i else .error .integerSize
    | none => .error .fractional
  | _ => .error .notFinite

/-- What came of reading a value, or the problem with it. -/
def orProblem (found : Json) (r : Except FieldProblem α) : Checked α :=
  r.mapError fun p => [⟨[], p, found⟩]

/-- A whole number. -/
def integer (v : Json) : Checked Int :=
  match v with
  | .int i => .ok i
  | .bool b => .ok (if b then 1 else 0)
  | .number x => orProblem v (integerOf x)
  | .string s => orProblem v (readInteger s.toList)
  | .broken _ => fail .brokenString v
  | _ => fail .notInteger v

/-- A whole number as a number; in data it has to lie within the range of numbers. -/
def wholeNumber (origin : Origin) (i : Int) : Checked Binary64 :=
  if origin = .data ∧ (Binary64.ofInt i).isInfinite then fail .notNumber (.int i)
  else .ok (.ofInt i)

/-- A number. -/
def number (origin : Origin) (v : Json) : Checked Binary64 :=
  match v with
  | .int i => wholeNumber origin i
  | .number x => .ok x
  | .bool b => .ok (if b then 1 else 0)
  | .string s =>
    match readNumber? s.toList with
    | some x => .ok x
    | none => fail .numberText v
  | .broken _ => fail .brokenString v
  | _ => fail .notNumber v

/-- A value or nothing. -/
def optional (check : Json → Checked α) : Json → Checked (Option α)
  | .null => .ok none
  | v => (check v).map some

/-- A list of values. -/
def list (check : Json → Checked α) : Json → Checked (List α)
  | .array vs => Checked.list check 0 vs
  | v => fail .notList v

/-! ### Bounds -/

/-- Does a whole number keep a bound? -/
def keepsInt (i : Int) : Bound → Bool
  | .atLeast n => (n : Int) ≤ i
  | .above n => (n : Int) < i
  | .atMost n => i ≤ (n : Int)

/-- Does a number keep a bound? `nan` keeps none. -/
def keeps (x : Binary64) : Bound → Bool
  | .atLeast n => Binary64.le (.ofNat n) x
  | .above n => Binary64.lt (.ofNat n) x
  | .atMost n => Binary64.le x (.ofNat n)

/-- What was read from a value if all bounds hold, else the first bound that does not. -/
def bounded (holds : α → Bound → Bool) (bounds : List Bound) (found : Json) (a : α) : Checked α :=
  match bounds.find? fun b => !holds a b with
  | some b => fail (.outside b) found
  | none => .ok a

/-- A whole number within bounds. -/
def integerIn (bounds : List Bound) (v : Json) : Checked Int :=
  (integer v).bind (bounded keepsInt bounds v)

/-- A number within bounds. -/
def numberIn (origin : Origin) (bounds : List Bound) (v : Json) : Checked Binary64 :=
  (number origin v).bind (bounded keeps bounds v)

/-! ### Records -/

/-- A field that has to be there. -/
def required (name : String) (check : Json → Checked α) (fields : Json.Fields) :
    Checked α :=
  match Json.field? name fields with
  | some v => within (.field name) (check v)
  | none => .error [⟨[.field name], .missing, .object fields⟩]

/-- A field that may be left out. -/
def defaulted (name : String) (check : Json → Checked α) (default : α)
    (fields : Json.Fields) : Checked α :=
  match Json.field? name fields with
  | some v => within (.field name) (check v)
  | none => .ok default

/-- A record with a rule over its fields. -/
def record (name : String) (check : Json.Fields → Checked α) : Json → Checked α
  | .object fields => check fields
  | v => fail (.notRecord name) v

end Rule

end PipeScript
