import PipeScript.Text.Quoted

/-!
# Code points

A row of code points is a text unless a half of a surrogate pair stands among them. Such a row can
still be shown: a half that stands alone is written with its code point in hexadecimal, as any other
character is that cannot be shown as itself.
-/

namespace PipeScript.Text

/-- Is the code point a half of a surrogate pair? -/
def isHalf (n : Nat) : Bool := 0xd800 ≤ n && n < 0xe000

/-- The escape of a code point that is no character. -/
def pointEscape (n : Nat) : List Char := '\\' :: 'u' :: hexDigits 4 n

/-- The code points as a text, with the halves of pairs escaped. -/
def ofPoints (points : List Nat) : String :=
  String.ofList (points.flatMap fun n => if isHalf n then pointEscape n else [Char.ofNat n])

/-- The code points between quotation marks. -/
def quotedPoints (points : List Nat) : List Char :=
  let mark := markFor ((points.filter (!isHalf ·)).map Char.ofNat)
  mark :: points.flatMap (fun n =>
    if isHalf n then pointEscape n else quotedChar mark (Char.ofNat n)) ++ [mark]

end PipeScript.Text
