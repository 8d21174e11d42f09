import PipeScript.Binary64.Shortest
import PipeScript.Text.Point

/-!
# JSON values

The data that remote services answer with and that cache records hold. Whole numbers written without
a point or an exponent are kept apart from the others, because field rules and texts tell them
apart. So are strings in which half of a surrogate pair stands alone: they are no text, but data may
hold them, and where a text is wanted such a half is written as its escape. The fields of an object
keep their order, and of fields with one name the last one counts.
-/

namespace PipeScript

/-- The name of a field: a text, unless a half of a surrogate pair stands alone in it. -/
inductive FieldName
  | text (s : String)
  | broken (points : List Nat)
deriving DecidableEq, Repr

instance : Coe String FieldName := ⟨.text⟩

/-- The name as it is shown. -/
def FieldName.shown : FieldName → String
  | text s => Text.quote s
  | broken points => String.ofList (Text.quotedPoints points)

/-- A JSON value. -/
inductive Json
  | null
  | bool (b : Bool)
  | int (i : Int)
  | number (x : Binary64)
  | string (s : String)
  /-- A string with a half of a surrogate pair that stands alone, by its code points. -/
  | broken (points : List Nat)
  | array (items : List Json)
  | object (fields : List (FieldName × Json))
deriving Inhabited

namespace Json

/-- The fields of an object. -/
abbrev Fields := List (FieldName × Json)

/-- The value of a named field of an object: the last one of that name. -/
def field? (name : FieldName) (fields : Fields) : Option Json :=
  (fields.reverse.find? fun f => f.1 == name).map (·.2)

/-- The value of a named field, if the value is an object that has it. -/
def get? (name : FieldName) : Json → Option Json
  | object fields => field? name fields
  | _ => none

/-- Does the value count as true? Empty and zero values do not. -/
def isTruthy : Json → Bool
  | null => false
  | bool b => b
  | int i => i != 0
  | number x => !Binary64.eq x 0
  | string s => !s.isEmpty
  | broken points => !points.isEmpty
  | array items => !items.isEmpty
  | object fields => !fields.isEmpty

/-- The name of the value's type in messages. -/
def typeName : Json → String
  | null => "NoneType"
  | bool _ => "bool"
  | int _ => "int"
  | number _ => "float"
  | string _ => "str"
  | broken _ => "str"
  | array _ => "list"
  | object _ => "dict"

/-- The fields with the last value of each name, in the order in which the names first stand. -/
def distinctFields : Fields → Fields
  | [] => []
  | f :: rest =>
    (f.1, (field? f.1 (f :: rest)).getD f.2)
      :: (distinctFields rest).filter fun g => g.1 != f.1

mutual

/-- The value as it is shown inside another value. -/
def inner : Json → String
  | null => "None"
  | bool b => if b then "True" else "False"
  | int i => toString i
  | number x => Binary64.displayLayout.text x
  | string s => Text.quote s
  | broken points => String.ofList (Text.quotedPoints points)
  | array items => "[" ++ ", ".intercalate (innerItems items) ++ "]"
  | object fields => "\x7b" ++ ", ".intercalate (innerFields fields) ++ "\x7d"

/-- The items of an array, each shown. -/
def innerItems : List Json → List String
  | [] => []
  | v :: rest => inner v :: innerItems rest

/-- The fields of an object, each shown with its name. -/
def innerFields : Fields → List String
  | [] => []
  | (name, v) :: rest => (name.shown ++ ": " ++ inner v) :: innerFields rest

end

/-- The value as a text: a string stands for itself, and any other value is shown. A half of a surrogate
pair is no character of a text; the six characters of its escape stand for it. -/
def display : Json → String
  | string s => s
  | broken points => Text.ofPoints points
  | v => inner v

end Json

end PipeScript
