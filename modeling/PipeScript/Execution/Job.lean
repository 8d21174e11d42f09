import PipeScript.Execution.World
import PipeScript.Work

/-!
# Jobs

What a command does when it is called: it looks at the world, changes its surroundings, sets
variables, cancels the run, waits, and in the end has an outcome. A wait goes on whatever happens; a
nap ends early when the run is cancelled, and tells so.
-/

namespace PipeScript

/-- The work of one call of a command. -/
inductive Job (σ : Type)
  | finish (outcome : Outcome)
  | look (next : World σ → Job σ)
  | alter (f : σ → σ) (next : Job σ)
  | cancel (next : Job σ)
  | assign (name : String) (value : Json) (next : Job σ)
  | log (line : LogLine) (next : Job σ)
  | wait (seconds : Binary64) (next : Job σ)
  | nap (place : String) (seconds : Binary64) (next : Bool → Job σ)

/-- What a command does with its two arguments and its input. -/
abbrev Collaborator (σ : Type) := String → String → String → Job σ

namespace Job

variable {σ τ : Type}

/-- End well. -/
def ok (value : String) : Job σ := finish (.ok value)

/-- End with a failure. -/
def fail (f : Failure) : Job σ := finish (.error f)

/-- Go on unless the run has been cancelled. -/
def checkpoint (place : String) (next : Job σ) : Job σ :=
  look fun w => if w.cancelled then fail (.cancelled place []) else next

/-- Nap, and go on unless the run has been cancelled. -/
def sleep (place : String) (seconds : Binary64) (next : Job σ) : Job σ :=
  nap place seconds fun cancelled => if cancelled then fail (.cancelled place []) else next

/-- Work on the surroundings, without waiting. -/
def ofWork (w : Work σ String) : Job σ :=
  look fun world =>
    let (outcome, s) := w.on world.surroundings
    alter (fun _ => s) (finish outcome)

/-- The same job in larger surroundings. -/
def within (get : τ → σ) (set : σ → τ → τ) : Job σ → Job τ
  | finish outcome => finish outcome
  | look next => look fun w => within get set (next { w with surroundings := get w.surroundings })
  | alter f next => alter (fun t => set (f (get t)) t) (within get set next)
  | cancel next => cancel (within get set next)
  | assign name value next => assign name value (within get set next)
  | log line next => log line (within get set next)
  | wait seconds next => wait seconds (within get set next)
  | nap place seconds next => nap place seconds fun c => within get set (next c)

end Job

end PipeScript
