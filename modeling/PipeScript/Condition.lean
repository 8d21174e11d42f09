import PipeScript.Binary64.Decimal
import PipeScript.Numeral
import PipeScript.Text.Blank
import PipeScript.Variables

/-!
# Conditions

A block may be guarded by a condition on the value that reaches it. The condition says that the
value contains a text or does not, compares a field with a literal, or names a field that must not
be empty. Values are prose, so a field is the value itself, a variable, one of the known fields of
reports, a number, or a word that the value mentions; anything else stands for itself.

Order comparisons are between numbers if both sides are numerals, else between texts.
-/

namespace PipeScript

open Text

/-- What a condition tests. -/
inductive Operator
  | contains
  | notContains
  | atLeast
  | atMost
  | notEqual
  | equal
  | greater
  | less
deriving DecidableEq, Repr

namespace Operator

/-- How the operator is written. -/
def symbol : Operator → String
  | contains => "contains"
  | notContains => "not_contains"
  | atLeast => ">="
  | atMost => "<="
  | notEqual => "!="
  | equal => "=="
  | greater => ">"
  | less => "<"

/-- The operators written between two sides, in the order in which a text is searched for them:
a longer one before those that it contains. -/
def infixes : List Operator := [atLeast, atMost, notEqual, equal, greater, less]

/-- All operators. -/
def all : List Operator := [contains, notContains] ++ infixes

/-- The operator of a symbol. -/
def ofSymbol? (s : String) : Option Operator := all.find? fun o => o.symbol == s

end Operator

/-- A condition: a field, an operator and a literal. -/
structure Condition where
  left : String
  operator : Operator
  right : String
deriving DecidableEq, Repr

/-- Why a text is no condition. -/
inductive ConditionError
  | empty
  | noLeftSide (text : String) (operator : Operator)
deriving DecidableEq, Repr

/-- The error in words. -/
def ConditionError.message : ConditionError → String
  | empty => "could not parse condition: empty condition"
  | noLeftSide text operator =>
    "could not parse condition " ++ quote text ++ ": missing left operand for "
      ++ quote operator.symbol

namespace Condition

/-- The field that is the value itself. -/
def inputField : String := "_input"

/-! ### Reading -/

/-- The literal after a leading operator, if the text starts with that operator and a space. -/
def leading? (s : List Char) (o : Operator) : Option Condition :=
  let start := o.symbol.toList ++ [' ']
  if start.isPrefixOf s then
    some ⟨inputField, o, String.ofList (bare (s.drop start.length))⟩
  else none

/-- The two sides of the first operator in search order that occurs in the text. -/
def sides? (s : List Char) : Option (Operator × List Char × List Char) :=
  Operator.infixes.findSome? fun o =>
    if occursIn o.symbol.toList s then (splitOnce? o.symbol.toList s).map (o, ·) else none

/-- The condition that a text is. -/
def parse (text : String) : Except ConditionError Condition :=
  let s := trim text.toList
  if s.isEmpty then .error .empty
  else
    match [Operator.contains, .notContains].findSome? (leading? s) with
    | some c => .ok c
    | none =>
      match sides? s with
      | some (o, left, right) =>
        if (trim left).isEmpty then .error (.noLeftSide text o)
        else .ok ⟨String.ofList (trim left), o, String.ofList (bare right)⟩
      | none => .ok ⟨String.ofList s, .notEqual, ""⟩

/-! ### Fields -/

/-- What reports call the quantities that conditions ask for: names of a field, and the texts of
which one stands on the quantity's line. -/
def knownFields : List (List String × List String) := [
  (["rain", "rain%", "rain_chance", "precipitation"],
    ["Rain%", "rain", "precipitation", "chance of rain"]),
  (["temp", "temperature"], ["Temperature:", "temperature", "°F", "°C"]),
  (["price"], ["Price:", "$", "price"]),
  (["change", "change%"], ["Change%", "change", "percent"]),
  (["score"], ["Score:", "score", "⬆"]),
  (["count", "total", "found"], ["found", "total", "count", "results"])]

/-- The anchors of a known field, named in any letter case. -/
def anchors? (field : List Char) : Option (List (List Char)) :=
  (knownFields.find? fun f => f.1.any fun name => name.toList == lower field).map
    fun f => f.2.map String.toList

/-- What a field stands for. -/
def resolve (field input : String) (vars : Variables) : String :=
  let f := field.toList
  let s := input.toList
  if field = inputField || field = "input" then input
  else
    match vars.get? field with
    | some v => v.display
    | none =>
      match anchors? f with
      | some anchors => String.ofList (Numeral.anchored s anchors)
      | none =>
        if (Binary64.read? f).isSome then field
        else if Numeral.mentions s f then String.ofList (Numeral.near s f)
        else field

/-! ### Truth -/

/-- Does the first text come before the second, character by character? -/
def textLess : List Char → List Char → Bool
  | [], [] => false
  | [], _ :: _ => true
  | _ :: _, [] => false
  | c :: s, d :: t => c.val < d.val || (c == d && textLess s t)

/-- How two sides compare: by the given orders of numbers if both are numerals, else by the orders
of texts. -/
def compareBy (numbers : Binary64 → Binary64 → Bool) (texts : List Char → List Char → Bool)
    (left right : List Char) : Bool :=
  match Binary64.read? left, Binary64.read? right with
  | some a, some b => numbers a b
  | _, _ => texts left right

/-- Does the operator hold between what the field stands for and the literal? -/
def holds (o : Operator) (left right : String) : Bool :=
  let l := left.toList
  let r := right.toList
  match o with
  | .contains => Numeral.mentions l r
  | .notContains => !Numeral.mentions l r
  | .equal => left == right
  | .notEqual => left != right
  | .less => compareBy Binary64.lt textLess l r
  | .greater => compareBy (fun a b => Binary64.lt b a) (fun a b => textLess b a) l r
  | .atMost => compareBy Binary64.le (fun a b => !textLess b a) l r
  | .atLeast => compareBy (fun a b => Binary64.le b a) (fun a b => !textLess a b) l r

/-- Is the condition true of the value? -/
def evaluate (c : Condition) (input : String) (vars : Variables) : Bool :=
  holds c.operator (resolve c.left input vars) c.right

/-- Is the comparison with an operator given by its symbol true of the value? A symbol of no
operator holds of nothing. -/
def evaluateWith (symbol left right input : String) (vars : Variables) : Bool :=
  (Operator.ofSymbol? symbol).any fun o => evaluate ⟨left, o, right⟩ input vars

end Condition

end PipeScript
