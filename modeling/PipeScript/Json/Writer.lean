import PipeScript.Json

/-!
# Compact JSON text

Values are written without blanks. In strings the quotation mark, the backslash and the control
characters below `U+0020` are escaped, by their short escapes where there is one; all other
characters stand for themselves.
-/

namespace PipeScript.Json

/-- One character of a string. -/
def escapeChar (c : Char) : List Char :=
  if c = '"' then ['\\', '"']
  else if c = '\\' then ['\\', '\\']
  else if c = '\n' then ['\\', 'n']
  else if c = '\r' then ['\\', 'r']
  else if c = '\t' then ['\\', 't']
  else if c.val.toNat = 0x08 then ['\\', 'b']
  else if c.val.toNat = 0x0c then ['\\', 'f']
  else if c.val.toNat < 0x20 then '\\' :: 'u' :: Text.hexDigits 4 c.val.toNat
  else [c]

/-- One code point of a string; a half of a surrogate pair is escaped. -/
def escapePoint (n : Nat) : List Char :=
  if Text.isHalf n then Text.pointEscape n else escapeChar (Char.ofNat n)

/-- A string between quotation marks. -/
def writeString (s : String) : List Char := '"' :: s.toList.flatMap escapeChar ++ ['"']

/-- A row of code points between quotation marks. -/
def writePoints (points : List Nat) : List Char := '"' :: points.flatMap escapePoint ++ ['"']

/-- The name of a field. -/
def writeName : FieldName → List Char
  | .text s => writeString s
  | .broken points => writePoints points

mutual

/-- The characters of a value. -/
def write : Json → List Char
  | null => "null".toList
  | bool b => if b then "true".toList else "false".toList
  | int i => (toString i).toList
  | number x => (Binary64.recordLayout.text x).toList
  | string s => writeString s
  | broken points => writePoints points
  | array items => '[' :: writeItems items ++ [']']
  | object fields => '\x7b' :: writeFields fields ++ ['\x7d']

/-- The items of an array, separated by commas. -/
def writeItems : List Json → List Char
  | [] => []
  | [v] => write v
  | v :: w :: rest => write v ++ ',' :: writeItems (w :: rest)

/-- The fields of an object, separated by commas. -/
def writeFields : Fields → List Char
  | [] => []
  | [(name, v)] => writeName name ++ ':' :: write v
  | (name, v) :: f :: rest => writeName name ++ ':' :: write v ++ ',' :: writeFields (f :: rest)

end

/-- The text of a value. -/
def render (v : Json) : String := String.ofList (write v)

end PipeScript.Json
