/-!
# Double-precision numbers

The numbers of the IEEE 754 format *binary64*, as exact values that a proof can compute with. Every
finite number of the format is a whole multiple of the least positive one, `2^-1074`; a number is
stored as its sign and that multiple, its *units*. Comparing two numbers is then comparing two
natural numbers, and each operation is the exact operation followed by one rounding to the nearest
number of the format, ties to the even neighbour.

## The model

A number has at most 53 significant bits. The distance between neighbours of a quantity of `n` units
is therefore `2^(log2 n - 52)`, one unit below `2^53`. Results of `2^1024` and more become infinite.
The sign of zero is kept.

Where an operation has no meaningful result, it gives `nan`, with a negative sign; where an operand
is `nan` already, that operand is the result. The sign of `nan` shows in its bits only.
-/

namespace PipeScript

/-- A double-precision number. -/
inductive Binary64
  | nan (negative : Bool)
  | infinite (negative : Bool)
  | finite (negative : Bool) (units : Nat)
deriving DecidableEq, Repr, Inhabited

namespace Binary64

/-- A power of two. -/
def twoPow (n : Nat) : Nat := Nat.pow 2 n

/-- A power of ten. -/
def tenPow (n : Nat) : Nat := Nat.pow 10 n

/-- The units in one. -/
def unitsPerOne : Nat := twoPow 1074

/-- Quantities of this many units and more are beyond the format. -/
def unitsLimit : Nat := twoPow 2098

/-! ### Rounding -/

/-- The quotient rounded to the nearest natural number, a tie to the even one. -/
def roundDiv (num den : Nat) : Nat :=
  let q := num / den
  let twice := 2 * (num % den)
  if twice < den then q else if den < twice then q + 1 else q + q % 2

/-- The number of low bits that a quantity of `n` units has to drop. -/
def surplusBits (n : Nat) : Nat := n.log2 - 52

/-- The units of the number nearest to the quotient. -/
def nearestUnits (num den : Nat) : Nat :=
  let shift := twoPow (surplusBits (num / den))
  roundDiv num (den * shift) * shift

/-- The number nearest to a quotient of units, with the given sign. -/
def ofUnitRatio (negative : Bool) (num den : Nat) : Binary64 :=
  let units := nearestUnits num den
  if units < unitsLimit then finite negative units else infinite negative

/-- The number nearest to a quotient. -/
def ofRatio (negative : Bool) (num den : Nat) : Binary64 :=
  ofUnitRatio negative (num * unitsPerOne) den

/-- The number nearest to an integer. -/
def ofInt (i : Int) : Binary64 := ofRatio (i < 0) i.natAbs 1

/-- The number nearest to a natural number. -/
def ofNat (n : Nat) : Binary64 := ofRatio false n 1

instance (n : Nat) : OfNat Binary64 n := ⟨ofNat n⟩

/-! ### Comparison -/

/-- Is the number written with a minus sign? `nan` is not. -/
def isNegative : Binary64 → Bool
  | nan _ => false
  | infinite negative => negative
  | finite negative _ => negative

/-- Is the number beyond all others? -/
def isInfinite : Binary64 → Bool
  | infinite _ => true
  | _ => false

/-- The signed number of units of a finite number. -/
def signedUnits (negative : Bool) (units : Nat) : Int := if negative then -units else units

/-- Is the first number less than the second? Nothing compares with `nan`. -/
def lt : Binary64 → Binary64 → Bool
  | nan _, _ => false
  | _, nan _ => false
  | infinite s, infinite t => s && !t
  | infinite s, finite .. => s
  | finite .., infinite t => !t
  | finite s a, finite t b => signedUnits s a < signedUnits t b

/-- Are the two numbers equal in value? Both zeros are equal, and `nan` equals nothing. -/
def eq : Binary64 → Binary64 → Bool
  | nan _, _ => false
  | _, nan _ => false
  | infinite s, infinite t => s == t
  | infinite _, finite .. => false
  | finite .., infinite _ => false
  | finite s a, finite t b => signedUnits s a == signedUnits t b

/-- Is the first number less than or equal to the second? -/
def le (x y : Binary64) : Bool := lt x y || eq x y

/-- The second number where it is less than the first, else the first. -/
def min (x y : Binary64) : Binary64 := if lt y x then y else x

/-! ### Arithmetic -/

/-- The number with the opposite sign; `nan` stays as it is. -/
def neg : Binary64 → Binary64
  | nan s => nan s
  | infinite s => infinite (!s)
  | finite s u => finite (!s) u

/-- The number without its sign. -/
def abs : Binary64 → Binary64
  | nan _ => nan false
  | infinite _ => infinite false
  | finite _ u => finite false u

/-- The rounded sum. An exact zero is negative only if both terms are. -/
def add : Binary64 → Binary64 → Binary64
  | nan s, _ => nan s
  | _, nan t => nan t
  | infinite s, infinite t => if s = t then infinite s else nan true
  | infinite s, finite .. => infinite s
  | finite .., infinite t => infinite t
  | finite s a, finite t b =>
    let sum := signedUnits s a + signedUnits t b
    if sum = 0 then finite (s && t) 0 else ofUnitRatio (sum < 0) sum.natAbs 1

/-- The rounded difference. -/
def sub (x y : Binary64) : Binary64 := add x (neg y)

/-- The rounded product. -/
def mul : Binary64 → Binary64 → Binary64
  | nan s, _ => nan s
  | _, nan t => nan t
  | infinite s, infinite t => infinite (s ^^ t)
  | infinite s, finite t b => if b = 0 then nan true else infinite (s ^^ t)
  | finite s a, infinite t => if a = 0 then nan true else infinite (s ^^ t)
  | finite s a, finite t b => ofUnitRatio (s ^^ t) (a * b) unitsPerOne

/-- The product and the term added to it, rounded once. An exact zero is negative only if both the
product and the term are. -/
def mulAdd : Binary64 → Binary64 → Binary64 → Binary64
  | finite s a, finite t b, finite r c =>
    let sum := signedUnits (s ^^ t) (a * b) + signedUnits r (c * unitsPerOne)
    if sum = 0 then finite ((s ^^ t) && r) 0 else ofUnitRatio (sum < 0) sum.natAbs unitsPerOne
  | finite .., finite .., z => z
  | x, y, z => add (mul x y) z

/-- The rounded quotient. -/
def div : Binary64 → Binary64 → Binary64
  | nan s, _ => nan s
  | _, nan t => nan t
  | infinite _, infinite _ => nan true
  | infinite s, finite t _ => infinite (s ^^ t)
  | finite s _, infinite t => finite (s ^^ t) 0
  | finite s a, finite t b =>
    if b = 0 then (if a = 0 then nan true else infinite (s ^^ t))
    else ofUnitRatio (s ^^ t) (a * unitsPerOne) b

instance : Neg Binary64 := ⟨neg⟩
instance : Add Binary64 := ⟨add⟩
instance : Sub Binary64 := ⟨sub⟩
instance : Mul Binary64 := ⟨mul⟩
instance : Div Binary64 := ⟨div⟩

/-- The number times a power of two, rounded. -/
def scale : Binary64 → Int → Binary64
  | finite s u, .ofNat n => ofUnitRatio s (u * twoPow n) 1
  | finite s u, .negSucc n => ofUnitRatio s u (twoPow (n + 1))
  | x, _ => x

/-- The whole number nearest to the exact product, a tie to the even one; zero where a factor is not
finite. -/
def nearestProduct : Binary64 → Binary64 → Int
  | finite s a, finite t b =>
    let n := roundDiv (a * b) (unitsPerOne * unitsPerOne)
    if s ^^ t then -n else n
  | _, _ => 0

/-- The integer that a finite number without a fractional part is. -/
def toInt? : Binary64 → Option Int
  | finite s u => if u % unitsPerOne = 0 then some (signedUnits s (u / unitsPerOne)) else none
  | _ => none

/-! ### The interchange format -/

/-- The 64 bits of the interchange format, as a natural number. -/
def toBits : Binary64 → Nat
  | nan s => (if s then twoPow 63 else 0) + 0x7ff8000000000000
  | infinite s => (if s then twoPow 63 else 0) + 0x7ff0000000000000
  | finite s u =>
    (if s then twoPow 63 else 0) +
      if u < twoPow 52 then u
      else
        let shift := surplusBits u
        shift * twoPow 52 + u / twoPow shift

/-- The number with the given 64 bits. -/
def ofBits (bits : Nat) : Binary64 :=
  let negative := bits / twoPow 63 % 2 = 1
  let shift := bits / twoPow 52 % twoPow 11
  let fraction := bits % twoPow 52
  if shift = 2047 then if fraction = 0 then infinite negative else nan negative
  else if shift = 0 then finite negative fraction
  else finite negative ((twoPow 52 + fraction) * twoPow (shift - 1))

end Binary64

end PipeScript
