import PipeScript.Text.Printable

/-!
# Quoted text

Messages show a text between quotation marks: single ones, unless the text holds a single quote and
no double quote. The mark that was chosen and the backslash are preceded by a backslash, the
newline, carriage return and tab have short escapes, and any other character that cannot be shown as
itself is written with its code point in hexadecimal.
-/

namespace PipeScript.Text

/-- The last `width` hexadecimal digits of a number, in lower case. -/
def hexDigits (width n : Nat) : List Char :=
  match width with
  | 0 => []
  | w + 1 => hexDigits w (n / 16) ++ [Nat.digitChar (n % 16)]

/-- One character inside the given quotation marks. -/
def quotedChar (mark c : Char) : List Char :=
  let n := c.val.toNat
  if c = mark || c = '\\' then ['\\', c]
  else if c = '\n' then ['\\', 'n']
  else if c = '\r' then ['\\', 'r']
  else if c = '\t' then ['\\', 't']
  else if isPrintable c then [c]
  else if n < 0x100 then '\\' :: 'x' :: hexDigits 2 n
  else if n < 0x10000 then '\\' :: 'u' :: hexDigits 4 n
  else '\\' :: 'U' :: hexDigits 8 n

/-- The quotation mark that suits the text. -/
def markFor (s : List Char) : Char := if s.contains '\'' && !s.contains '"' then '"' else '\''

/-- The text between quotation marks. -/
def quoted (s : List Char) : List Char :=
  let mark := markFor s
  mark :: s.flatMap (quotedChar mark) ++ [mark]

/-- A string between quotation marks. -/
def quote (s : String) : String := String.ofList (quoted s.toList)

end PipeScript.Text
