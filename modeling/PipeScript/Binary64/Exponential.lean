import PipeScript.Binary64.Series

/-!
# The exponential of a pair

The exponential of the sum of a number and a small correction. With `log 2 / 128` taken out as often
as possible, what remains is below `1/256` in size:

  `exp x = 2^(n / 128) · exp r`   with   `r = x - n · log 2 / 128`.

The power of two comes from the series, and `exp r - 1` from a polynomial in `r`. The result is not
negative, and it is infinite where it lies beyond the format.
-/

namespace PipeScript.Binary64

namespace Exponential

/-- How often `log 2 / 128` is contained in one. -/
def stepsPerOne : Binary64 :=
  ofRatio false (128 * Series.one.natAbs) Series.logTwo.natAbs

/-- The step that is taken out, with the opposite sign. -/
def step : Pair := .split (-Series.logTwo / 128) 43

/-- The power `2^(fraction / 128)`. The low part is a share of the high one. -/
def root (fraction : Nat) : Pair :=
  let v := Series.exp (fraction * Series.logTwo / 128)
  let high := Series.toBinary64 v
  ⟨high, Series.toBinary64 (v * Series.one / Series.ofBinary64 high - Series.one)⟩

/-- The polynomial: `exp r - 1`, where `low` is a share to be added to it. -/
def growth (r low : Binary64) : Binary64 :=
  let square := r * r
  let p := mulAdd r (ofBits 0x3fc555555555543c) (ofBits 0x3fdffffffffffdbd)
  let q := mulAdd r (ofBits 0x3f81111167a4d017) (ofBits 0x3fa55555cf172b91)
  mulAdd q (square * square) (mulAdd p square (r + low))

/-- The product of a power of two and `root · (1 + growth)` where it may lie below the normal
numbers, whose significands are shorter: it is rounded where their last bits are. -/
def small (root growth : Binary64) (exponent : Int) : Binary64 :=
  let scaled := root.scale (exponent + 1022)
  let increase := growth * scaled
  let sum := scaled + increase
  let result :=
    if lt sum 1 then
      let low := scaled - sum + increase
      let high := 1 + sum
      high + (1 - high + sum + low) - 1
    else sum
  result.scale (-1022)

/-- The exponential of `x + low`. -/
def ofPair (x low : Binary64) : Binary64 :=
  let size := x.abs
  if size.lt (ofRatio false 1 (twoPow 54)) then 1 + x
  else if le 1024 size then if x.isNegative then 0 else infinite false
  else
    let n := nearestProduct x stepsPerOne
    let count := ofInt n
    let r := low + mulAdd count step.low (mulAdd count step.high x)
    let root := root (n % 128).toNat
    let growth := growth r root.low
    if n < 0 && le 512 size then small root.high growth (n / 128)
    else (mulAdd growth root.high root.high).scale (n / 128)

end Exponential

end PipeScript.Binary64
