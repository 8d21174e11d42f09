import PipeScript.Binary64.Logarithm
import PipeScript.Binary64.Exponential

/-!
# Powers

A number raised to an integer power, as the exponential of a multiple of its logarithm. The result
is within 0.54 of the distance between neighbours: nearly always, but not always, it is the number
nearest to the exact power.
-/

namespace PipeScript.Binary64

/-- The power of a positive number of units, infinite if it lies beyond the format. -/
def powerOfUnits (units : Nat) (exponent : Binary64) : Binary64 :=
  let log := Logarithm.ofUnits units
  let product := exponent * log.high
  Exponential.ofPair product (mulAdd exponent log.low (mulAdd log.high exponent (-product)))

/-- A number raised to an integer power; `none` where a finite number has a power beyond the format
or zero a negative power. -/
def pow? (x : Binary64) (n : Int) : Option Binary64 :=
  if n = 0 then some 1
  else
    let odd := n % 2 != 0
    match x with
    | nan s => some (nan s)
    | infinite s => some (if 0 < n then infinite (s && odd) else finite (s && odd) 0)
    | finite s 0 => if 0 < n then some (finite (s && odd) 0) else none
    | finite s units =>
      match powerOfUnits units (ofInt n) with
      | finite _ power => some (finite (s && odd) power)
      | _ => none

end PipeScript.Binary64
