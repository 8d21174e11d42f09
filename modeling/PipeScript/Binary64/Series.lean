import PipeScript.Binary64

/-!
# Logarithms and exponentials from series

Natural logarithms and exponentials of a few fixed quantities, to far more bits than a number of the
format holds. They are summed in fixed point: an integer `v` stands for `v · 2^-192`. Each term is
rounded down, so a sum of a hundred terms is off by less than `2^-185`, and the terms left out are
smaller still.
-/

namespace PipeScript.Binary64

namespace Series

/-- One, in fixed point. -/
def one : Int := twoPow 192

/-- The sum of `terms` powers, from `power` in steps of `square`, each divided by its exponent. -/
def oddPowers (square : Int) : Nat → Int → Int → Int
  | 0, _, _ => 0
  | terms + 1, power, exponent =>
    power / exponent + oddPowers square terms (power * square / one) (exponent + 2)

/-- The natural logarithm of `num / den`, for a quotient from a half to two. It is twice the area
tangent of `(num - den) / (num + den)`. -/
def log (num den : Int) : Int :=
  let t := (num - den) * one / (num + den)
  2 * oddPowers (t * t / one) 64 t 1

/-- The sum of `terms` terms of the exponential series of `x`, from the given one. -/
def expTerms (x : Int) : Nat → Int → Int → Int
  | 0, _, _ => 0
  | terms + 1, term, index => term + expTerms x terms (term * x / one / (index + 1)) (index + 1)

/-- The exponential of a quantity below one. -/
def exp (x : Int) : Int := expTerms x 50 one 0

/-- The natural logarithm of two. -/
def logTwo : Int := log 2 1

/-- A finite number in fixed point, rounded down in size. -/
def ofBinary64 : Binary64 → Int
  | finite s u => signedUnits s (u * one.natAbs / unitsPerOne)
  | _ => 0

/-- The number nearest to a fixed-point quantity. -/
def toBinary64 (v : Int) : Binary64 := ofRatio (v < 0) v.natAbs one.natAbs

end Series

/-- A quantity as the unevaluated sum of a number and a much smaller one. -/
structure Pair where
  high : Binary64
  low : Binary64
deriving DecidableEq, Repr

/-- Split a fixed-point quantity into the nearest multiple of `2^-bits` and the rest. -/
def Pair.split (v : Int) (bits : Nat) : Pair :=
  let step := (twoPow (192 - bits) : Int)
  let whole := (2 * v + step) / (2 * step) * step
  ⟨Series.toBinary64 whole, Series.toBinary64 (v - whole)⟩

end PipeScript.Binary64
