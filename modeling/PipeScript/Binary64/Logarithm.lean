import PipeScript.Binary64.Series

/-!
# The natural logarithm of a positive number

The logarithm as a `Pair`, good to about 68 bits. A number is `2^k · z` with `z` from about 0.7 to
about 1.4, and `z` lies in one of 128 intervals. Each interval has a divisor `c`, close to the
reciprocal of its middle, so that

  `log x = k · log 2 - log c + log (1 + r)`   with   `r = z · c - 1`,

where `r` is below `1/128` in size. The first two logarithms come from the series, the last one from
a polynomial in `r`. The terms are summed from the largest to the smallest, and what each sum loses
to rounding is carried along.
-/

namespace PipeScript.Binary64

namespace Logarithm

/-- The bits of the least `z`. -/
def anchor : Nat := 0x3fe6955500000000

/-- The place of a positive number of units on a scale that is linear between two powers of two,
which are `2^52` places apart. The places of normal numbers are their bits. -/
def place (units : Nat) : Int :=
  let exponent := (units.log2 : Int) - 52
  exponent * twoPow 52 + (units * twoPow 52 / twoPow units.log2 : Nat)

/-- The divisor of an interval, in steps of `1/256`: the reciprocal of the middle, to one part in
128 where the interval starts below one and to one part in 256 elsewhere. -/
def divisor (interval : Nat) : Int :=
  let start := anchor + interval * twoPow 45
  let middle := ofBits (start + twoPow 44)
  if lt (ofBits start) 1 then 2 * nearestProduct (128 / middle) 1
  else nearestProduct (256 / middle) 1

/-- The logarithm of two. Products of its high part with exponents are exact. -/
def two : Pair := .split Series.logTwo 42

/-- The logarithm of the reciprocal of an interval's divisor. -/
def offset (interval : Nat) : Pair := .split (Series.log 256 (divisor interval)) 43

/-- The logarithm of a positive number of units. -/
def ofUnits (units : Nat) : Pair :=
  let above := place units - anchor
  let k := ofInt (above / twoPow 52)
  let rest := (above % twoPow 52).toNat
  let interval := rest / twoPow 45
  let z := ofBits (anchor + rest)
  let r := mulAdd z (ofInt (divisor interval) / 256) (-1)
  -- The sum of the large logarithms, and of it and `r`.
  let table := mulAdd k two.high (offset interval).high
  let tableLow := mulAdd k two.low (offset interval).low
  let linear := table + r
  let linearLow := table - linear + r
  -- The square term, `-r²/2`.
  let half := r * ofBits 0xbfe0000000000000
  let square := r * half
  let cube := r * square
  let squareLow := mulAdd half r (-square)
  let sum := linear + square
  let sumLow := linear - sum + square
  -- The rest of the polynomial.
  let p := mulAdd r (ofBits 0x3fe0000000000006) (ofBits 0xbfe5555555555560)
  let q := mulAdd r (ofBits 0xbfe555555529a47a) (ofBits 0x3fe999999959554e)
  let s := mulAdd r (ofBits 0x3ff0002b8b263fc3) (ofBits 0xbff2495b9b4845e9)
  let higher := mulAdd square (mulAdd s square q) p
  let low := mulAdd cube higher (tableLow + linearLow + squareLow + sumLow)
  let high := sum + low
  ⟨high, sum - high + low⟩

end Logarithm

end PipeScript.Binary64
