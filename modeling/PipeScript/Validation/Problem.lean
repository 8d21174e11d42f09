import PipeScript.Json

/-!
# What is wrong with data

A field that breaks its rule is reported with the path that leads to it and with the value that was
found there. A check gives a value or all such reports.
-/

namespace PipeScript

/-- One step of a path into data. -/
inductive Segment
  | field (name : String)
  | index (i : Nat)
deriving DecidableEq, Repr

/-- A bound on a number. -/
inductive Bound
  | atLeast (n : Nat)
  | above (n : Nat)
  | atMost (n : Nat)
deriving DecidableEq, Repr

/-- What is wrong with a field. -/
inductive FieldProblem
  | missing
  | notRecord (name : String)
  | notList
  | notString
  | brokenString
  | notPath
  | notInteger
  | fractional
  | notFinite
  | integerSize
  | integerText
  | notNumber
  | numberText
  | outside (bound : Bound)
deriving DecidableEq, Repr

/-- The short name of the problem. -/
def FieldProblem.kind : FieldProblem → String
  | missing => "missing"
  | notRecord _ => "model_type"
  | notList => "list_type"
  | notString => "string_type"
  | brokenString => "string_unicode"
  | notPath => "path_type"
  | notInteger => "int_type"
  | fractional => "int_from_float"
  | notFinite => "finite_number"
  | integerSize => "int_parsing_size"
  | integerText => "int_parsing"
  | notNumber => "float_type"
  | numberText => "float_parsing"
  | outside (.atLeast _) => "greater_than_equal"
  | outside (.above _) => "greater_than"
  | outside (.atMost _) => "less_than_equal"

/-- The problem in words. -/
def FieldProblem.message : FieldProblem → String
  | missing => "Field required"
  | notRecord name => "Input should be a valid dictionary or instance of " ++ name
  | notList => "Input should be a valid list"
  | notString => "Input should be a valid string"
  | brokenString => "Input should be a valid string, unable to parse raw data as a unicode string"
  | notPath => "Input is not a valid path for <class 'pathlib.Path'>"
  | notInteger => "Input should be a valid integer"
  | fractional => "Input should be a valid integer, got a number with a fractional part"
  | notFinite => "Input should be a finite number"
  | integerSize => "Unable to parse input string as an integer, exceeded maximum size"
  | integerText => "Input should be a valid integer, unable to parse string as an integer"
  | notNumber => "Input should be a valid number"
  | numberText => "Input should be a valid number, unable to parse string as a number"
  | outside (.atLeast n) => s!"Input should be greater than or equal to {n}"
  | outside (.above n) => s!"Input should be greater than {n}"
  | outside (.atMost n) => s!"Input should be less than or equal to {n}"

/-- A problem, where it is, and the value with which it arose: of a field that is missing the record
around it. -/
structure FieldError where
  path : List Segment
  problem : FieldProblem
  found : Json

/-- A value that keeps the rules, or all the errors. -/
abbrev Checked (α : Type) := Except (List FieldError) α

namespace Checked

variable {α β : Type}

/-- One problem with a value as a whole. -/
def fail (p : FieldProblem) (found : Json) : Checked α := .error [⟨[], p, found⟩]

/-- The same errors one step further out. -/
def within (s : Segment) : Checked α → Checked α
  | .ok a => .ok a
  | .error es => .error (es.map fun e => { e with path := s :: e.path })

/-- Both values, or the errors of both. -/
def ap : Checked (α → β) → Checked α → Checked β
  | .ok f, .ok a => .ok (f a)
  | .ok _, .error es => .error es
  | .error es, .ok _ => .error es
  | .error es, .error fs => .error (es ++ fs)

/-- The elements, each checked with its position, or the errors of all. -/
def list (check : Json → Checked α) : Nat → List Json → Checked (List α)
  | _, [] => .ok []
  | i, v :: rest =>
    ap ((within (.index i) (check v)).map List.cons) (list check (i + 1) rest)

end Checked

end PipeScript
