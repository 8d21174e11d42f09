import PipeScript.Binary64.Fixed
import PipeScript.Execution.Process
import PipeScript.Retry

/-!
# Attempts

A call is made again while it fails for a passing reason and attempts are left, with a nap between
two attempts. Any other failure, and a value, end the attempts at once. That a later attempt has succeeded
is not noted in the log.
-/

namespace PipeScript.Process

variable {σ : Type}

/-- The place of the naps between attempts. -/
def retryPlace (name : String) : String := "retry of " ++ name

/-- The warning about a failed attempt. -/
def retryWarning (policy : RetryPolicy) (name : String) (attempt : Nat) (f : Failure)
    (delay : Binary64) : String :=
  s!"[retry] {name} attempt {attempt}/{policy.maxAttempts} failed: {f.message}. "
    ++ s!"Retrying in {Binary64.toFixed 3 delay}s"

/-- One attempt, where `again` says how to go on after a passing failure. -/
def attempt (name : String) (call : Process σ) (again : Failure → Process σ) : Process σ :=
  checkpoint (retryPlace name) <|
    call.andThen fun
      | .ok value => ok value
      | .error f => if isPassing f.message then again f else fail f

/-- What comes between a failed attempt and the next one: a warning and a nap, if there is a delay to
nap for. -/
def between (policy : RetryPolicy) (name : String) (number : Nat) (f : Failure) (next : Process σ) :
    Except Failure Binary64 → Process σ
  | .error g => fail g
  | .ok delay =>
    log .warning (retryWarning policy name number f delay) <|
      sleep (retryPlace name) delay fun
        | true => fail (.cancelled (retryPlace name) [])
        | false => next

/-- Attempts from the one numbered `number` on, with so many left after it. What a call does and which
random number is drawn for a delay goes by the number of the attempt. -/
def attemptsFrom (policy : RetryPolicy) (name : String) (draws : Nat → Binary64)
    (calls : Nat → Process σ) : Nat → Nat → Process σ
  | 0, number => attempt name (calls number) fun f => fail (.exhausted name number f)
  | left + 1, number =>
    attempt name (calls number) fun f =>
      between policy name number f (attemptsFrom policy name draws calls left (number + 1))
        (policy.delayAfter number (draws number))

/-- Calls with the attempts that a policy allows. -/
def attempts (policy : RetryPolicy) (name : String) (draws : Nat → Binary64)
    (calls : Nat → Process σ) : Process σ :=
  attemptsFrom policy name draws calls (policy.maxAttempts - 1) 1

end PipeScript.Process
