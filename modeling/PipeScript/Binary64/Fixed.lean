import PipeScript.Binary64

/-!
# Fixed-point decimal text

A finite number with a fixed number of decimal places, rounded once from its exact value; a tie goes
to the even last digit. A negative number keeps its sign even when it rounds to zero.
-/

namespace PipeScript.Binary64

/-- How the sign and the whole part of a fixed-point numeral are written. -/
structure FixedStyle where
  /-- The number of decimal places. -/
  places : Nat
  /-- Whether a number that is not negative carries a plus sign. -/
  plusSign : Bool
  /-- Whether the digits of the whole part are grouped in threes with commas. -/
  grouped : Bool

/-- Digits in groups of three from the right, with commas between. -/
def groupThousands (ds : List Char) : List Char :=
  let rec go : Nat → List Char → List Char
    | _, [] => []
    | n, c :: rest =>
      if n != 0 && n % 3 == 0 then c :: ',' :: go (n - 1) rest else c :: go (n - 1) rest
  go (ds.length - 1) ds

/-- The digits of a rounded magnitude: `n` steps of `10^-places`. -/
def fixedDigits (style : FixedStyle) (n : Nat) : List Char :=
  let ds := Nat.toDigits 10 n
  let padded := List.replicate (style.places + 1 - ds.length) '0' ++ ds
  let whole := padded.take (padded.length - style.places)
  let fraction := padded.drop (padded.length - style.places)
  (if style.grouped then groupThousands whole else whole)
    ++ (if style.places = 0 then [] else '.' :: fraction)

/-- A number with a fixed number of places. -/
def fixed (style : FixedStyle) (x : Binary64) : String :=
  let body := match x with
    | nan _ => "nan".toList
    | infinite _ => "inf".toList
    | finite _ u => fixedDigits style (roundDiv (u * tenPow style.places) unitsPerOne)
  String.ofList (if x.isNegative then '-' :: body else if style.plusSign then '+' :: body else body)

/-- A number with the given number of places, a sign only if negative. -/
def toFixed (places : Nat) (x : Binary64) : String :=
  fixed { places := places, plusSign := false, grouped := false } x

/-- A number with the given number of places that always carries its sign. -/
def toSignedFixed (places : Nat) (x : Binary64) : String :=
  fixed { places := places, plusSign := true, grouped := false } x

/-- A number with the given number of places and the thousands grouped. -/
def toGroupedFixed (places : Nat) (x : Binary64) : String :=
  fixed { places := places, plusSign := false, grouped := true } x

end PipeScript.Binary64
