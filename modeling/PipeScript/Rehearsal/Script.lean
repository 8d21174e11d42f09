import PipeScript.Execution.Attempts
import PipeScript.Execution.Iteration
import PipeScript.Execution.Scheduler
import PipeScript.Surroundings

/-!
# Scripted calls

Loops and attempts may be tried out without commands: what each call does is scripted. A call gives
a value or fails, and may cancel the run before it does so. The run may also be cancelled from
outside at a given time.
-/

namespace PipeScript.Rehearsal

/-- What a scripted call does. -/
inductive Action
  | give (value : String)
  | fail (text : String)
  | cancelAndGive (value : String)
  | cancelAndFail (text : String)
  /-- Cancel the run and notice it at a place. -/
  | cancelAndCheck (place : String)
deriving DecidableEq, Repr

/-- What scripted calls leave behind. -/
structure Script where
  /-- What is still to be played. -/
  actions : List Action := []
  /-- The item of each call, the latest one first. -/
  played : List String := []
  /-- What a loop made of its items. -/
  results : List (ItemResult Failure) := []

namespace Action

/-- The process of a call. -/
def process : Action → Process Script
  | give value => .ok value
  | fail text => .fail (.reported .connection text)
  | cancelAndGive value => .act .cancel (.ok value)
  | cancelAndFail text => .act .cancel (.fail (.reported .connection text))
  | cancelAndCheck place => .act .cancel (.fail (.cancelled place []))

end Action

namespace Script

/-- Record that an item is played. -/
def record (item : String) (next : Process Script) : Process Script :=
  .act (.alter fun s => { s with played := item :: s.played }) next

/-- A loop in which the actions say what to do with the items; an item without one is given back. -/
def loop (actions : List (Option Action)) (plan : Loop.Plan) (items : List String) :
    Process Script :=
  .iterate plan items
    (fun item i => record item ((actions[i]?).join.getD (.give item)).process)
    fun results =>
      .act (.alter fun s => { s with results }) (.ok (Loop.report results))

/-- A call that plays the next action in store, or else gives a value. -/
def call (value : String) : Process Script :=
  .look fun w =>
    let (action, rest) := nextOf w.surroundings.actions
    .act (.alter fun s => { s with actions := rest })
      (record "" (action.getD (.give value)).process)

/-- Such calls with the attempts that a policy allows. -/
def attempts (policy : RetryPolicy) (name : String) (draw : Binary64) (value : String) :
    Process Script :=
  .attempts policy name (fun _ => draw) (fun _ => call value)

/-- Play a process, with the actions for its calls. The run may be cancelled from the start, or from
outside after some seconds. -/
def play (cancelled : Bool) (cancelAt : Option Binary64) (actions : List Action)
    (p : Process Script) : Option (Outcome × World Script) :=
  let alarms : Alarms Turn := match cancelAt with
    | some time => Alarms.add {} { time, event := .interrupt }
    | none => {}
  Schedule.run false { cancelled, surroundings := { actions } } p alarms

end Script

end PipeScript.Rehearsal
