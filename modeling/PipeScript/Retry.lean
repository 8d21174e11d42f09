import PipeScript.Binary64.Power
import PipeScript.Failure
import PipeScript.Validation

/-!
# Retrying

A remote command that fails for a passing reason is called again after a delay. The delay grows by a
factor from attempt to attempt up to a limit, and is then spread at random by a share of itself. A
failure is taken for passing when its message mentions one of the usual texts.
-/

namespace PipeScript

/-- How often a command is called, and how long to wait between two calls, in seconds. -/
structure RetryPolicy where
  maxAttempts : Nat := 3
  initialDelay : Binary64 := 1
  maxDelay : Binary64 := 30
  multiplier : Binary64 := 2
  /-- The greatest share of a delay that chance adds or takes away. -/
  jitter : Binary64 := .ofRatio false 1 4
deriving DecidableEq, Repr

namespace RetryPolicy

/-- The policy for commands without one of their own. -/
def standard : RetryPolicy := {}

/-- The policy for services that are known to limit their callers. -/
def patient : RetryPolicy where
  maxAttempts := 5
  initialDelay := 2
  maxDelay := 60
  multiplier := .ofRatio false 5 2
  jitter := .ofRatio false 3 10

/-- The commands with the patient policy. -/
def patientCommands : List String :=
  ["search", "ask", "summarize", "analyze", "translate", "image_generate", "video_generate", "tts"]

/-- The policy of a command that has none of its own. Coin prices are limited by the minute. -/
def forCommand (name : String) : RetryPolicy :=
  let key := String.ofList (Text.lower name.toList)
  if patientCommands.contains key then patient
  else if key = "crypto" then { standard with maxAttempts := 3, initialDelay := 5 }
  else standard

/-- Read a policy from data. -/
def ofFields (fields : Json.Fields) : Checked RetryPolicy :=
  let number (name : String) (bounds : List Bound) (default : Binary64) :=
    Rule.defaulted name (Rule.numberIn .data bounds) default fields
  Checked.ap (Checked.ap (Checked.ap (Checked.ap
    ((Rule.defaulted "max_attempts" (Rule.integerIn [.atLeast 1]) standard.maxAttempts fields).map
      fun n a b c d => ⟨n.toNat, a, b, c, d⟩)
    (number "initial_delay" [.atLeast 0] standard.initialDelay))
    (number "max_delay" [.atLeast 0] standard.maxDelay))
    (number "multiplier" [.atLeast 1] standard.multiplier))
    (number "jitter_pct" [.atMost 1, .atLeast 0] standard.jitter)

/-- The factor by which delays have grown after so many steps. The number of steps is first rounded
to a number, and the power has to lie within the range of numbers. -/
def growth (p : RetryPolicy) (steps : Int) : Except Failure Binary64 :=
  (Binary64.ofInt steps).toInt?.elim (.error .hugeInteger) fun n =>
    (p.multiplier.pow? n).elim (.error .outOfRange) .ok

/-- The delay after a failed attempt, counted from 1, where `draw` is the random number from 0 to
1. -/
def delayAfter (p : RetryPolicy) (attempt : Int) (draw : Binary64) : Except Failure Binary64 :=
  (p.growth (attempt - 1)).map fun growth =>
    let delay := Binary64.min (p.initialDelay * growth) p.maxDelay
    let spread := delay + delay * p.jitter * (draw * 2 - 1)
    if spread.lt 0 then p.initialDelay else spread

/-- A delay is told unless the number of steps or the power is too large. -/
theorem eq_of_delayAfter {p : RetryPolicy} {attempt : Int} {draw : Binary64} {f : Failure}
    (h : p.delayAfter attempt draw = .error f) : f = .hugeInteger ∨ f = .outOfRange := by
  rw [delayAfter, growth] at h
  cases hsteps : (Binary64.ofInt (attempt - 1)).toInt? with
  | none =>
    rw [hsteps] at h
    cases h
    exact .inl rfl
  | some n =>
    rw [hsteps, Option.elim_some] at h
    cases hpower : p.multiplier.pow? n with
    | none =>
      rw [hpower] at h
      cases h
      exact .inr rfl
    | some growth =>
      rw [hpower] at h
      cases h

end RetryPolicy

/-- Texts that messages of passing failures hold. -/
def passingSigns : List String :=
  ["429", "rate limit", "resource exhausted", "too many requests", "quota exceeded",
    "temporarily unavailable", "503", "502", "504", "timeout", "connection reset",
    "connection refused", "eof"]

/-- Does the message speak of a passing failure, in any letter case? -/
def isPassing (message : String) : Bool :=
  let m := Text.lower message.toList
  passingSigns.any fun sign => Text.occursIn sign.toList m

end PipeScript
