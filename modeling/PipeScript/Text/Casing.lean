import PipeScript.Text.Bounds
import PipeScript.Text.Casing.Table

/-!
# Upper and lower case

The full case mappings of Unicode. Lower-casing maps a character to one character, but for the
dotted capital I, which becomes `i` and a combining dot, and for the capital sigma, whose form
depends on its neighbours: after a cased letter and not before one it takes its final form.
Characters that carry no case of their own are passed over when a neighbour is looked for.
Upper-casing maps some characters to several.
-/

namespace PipeScript.Text

namespace Casing

/-- The image of a code point under a table of shifts, itself where no entry covers it. -/
def shift (table : List (Nat × Nat × Nat × Int)) (n : Nat) : Nat :=
  let covers : Nat × Nat × Nat × Int → Bool :=
    fun (first, last, step, _) => first ≤ n && n ≤ last && (n - first) % step == 0
  match table.find? covers with
  | some (_, _, _, delta) => (n + delta).toNat
  | none => n

/-- Does a neighbour search stop at the character and find a cased letter? -/
def isCased (c : Char) : Bool := inBounds casedBounds c.val.toNat

/-- Is the character passed over by a neighbour search? -/
def isIgnorable (c : Char) : Bool := inBounds ignorableBounds c.val.toNat

/-- Is the first character that is not passed over a cased letter? -/
def casedNext (s : List Char) : Bool :=
  match s.dropWhile isIgnorable with
  | [] => false
  | c :: _ => isCased c

/-- The lower-case form of one character other than the capital sigma. -/
def lowerChar (c : Char) : List Char :=
  let n := c.val.toNat
  if n < 128 then [c.toLower]
  else if n = 0x130 then ['i', Char.ofNat 0x307]
  else [Char.ofNat (shift lowerShifts n)]

/-- The upper-case form of one character. -/
def upperChar (c : Char) : List Char :=
  let n := c.val.toNat
  if n < 128 then [c.toUpper]
  else match upperExpansions.find? fun (k, _) => k == n with
    | some (_, image) => image.map Char.ofNat
    | none => [Char.ofNat (shift upperShifts n)]

/-- The capital sigma. -/
def capitalSigma : Char := Char.ofNat 0x3a3

/-- Lower-case the text that follows the characters `before`, given nearest first. -/
def lowerAfter (before : List Char) : List Char → List Char
  | [] => []
  | c :: rest =>
    (if c = capitalSigma then
      [Char.ofNat (if casedNext before && !casedNext rest then 0x3c2 else 0x3c3)]
    else lowerChar c) ++ lowerAfter (c :: before) rest

end Casing

/-- The text in lower case. -/
def lower (s : List Char) : List Char := Casing.lowerAfter [] s

/-- The text in upper case. -/
def upper (s : List Char) : List Char := s.flatMap Casing.upperChar

end PipeScript.Text
