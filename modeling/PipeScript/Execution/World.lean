import PipeScript.Failure
import PipeScript.Variables

/-!
# The world of a run

What a run reads and changes: whether it has been cancelled, its variables, the counters, the time,
and records of what was done. Commands have surroundings of their own, of any type, which the run
passes on to them. Everything that changes the world is one of a few effects.

## The model

Time is virtual. It is a number of seconds since the start, and is rounded as any other number when
a delay is added to it. The log has the warnings and what is said at the start of commands, blocks and loops;
what is only said for the record at their ends, such as how long they have taken, is left out.
-/

namespace PipeScript

/-- Counters over all runs of a runtime. -/
structure Metrics where
  commands : Nat := 0
  parallels : Nat := 0
  guardsTrue : Nat := 0
  guardsFalse : Nat := 0
  loopItems : Nat := 0
  /-- How often each command ended well. -/
  calls : List (String × Nat) := []
deriving DecidableEq, Repr

/-- Something that is counted. -/
inductive Event
  | command (action : String)
  | parallel
  | guard (holds : Bool)
  | loop (items : Nat)
deriving DecidableEq, Repr

namespace Metrics

/-- One more call of a command. -/
def addCall (action : String) : List (String × Nat) → List (String × Nat)
  | [] => [(action, 1)]
  | c :: rest => if c.1 = action then (action, c.2 + 1) :: rest else c :: addCall action rest

/-- The counters after an event. -/
def count (m : Metrics) : Event → Metrics
  | .command action => { m with commands := m.commands + 1, calls := addCall action m.calls }
  | .parallel => { m with parallels := m.parallels + 1 }
  | .guard true => { m with guardsTrue := m.guardsTrue + 1 }
  | .guard false => { m with guardsFalse := m.guardsFalse + 1 }
  | .loop items => { m with loopItems := m.loopItems + items }

end Metrics

/-- How much a line of the log matters; a notice is for the user and no log line. -/
inductive Level
  | debug
  | warning
  | notice
deriving DecidableEq, Repr

/-- A line of the log. -/
structure LogLine where
  level : Level
  text : String
deriving DecidableEq, Repr

/-- A call of a command, with the value that it gets and the time at which it begins. -/
structure Call where
  action : String
  argument1 : String
  argument2 : String
  input : String
  time : Binary64
deriving DecidableEq, Repr

/-- What a run reads and changes. -/
structure World (σ : Type) where
  cancelled : Bool := false
  vars : Variables := []
  metrics : Metrics := {}
  now : Binary64 := 0
  /-- The calls that have begun, the latest one first. -/
  calls : List Call := []
  /-- What calls have come to, with the names of their commands, the latest one first. -/
  outcomes : List (String × Outcome) := []
  /-- The naps that were asked for, the latest one first: the place and the seconds. -/
  naps : List (String × Binary64) := []
  /-- The lines of the log, the latest one first. -/
  log : List LogLine := []
  surroundings : σ

/-- One change of the world. -/
inductive Effect (σ : Type)
  | cancel
  | assign (name : String) (value : Json)
  | begin (action argument1 argument2 input : String)
  | finish (action : String) (outcome : Outcome)
  | count (event : Event)
  | nap (place : String) (seconds : Binary64)
  | log (line : LogLine)
  | alter (f : σ → σ)

/-- The world after an effect. -/
def Effect.apply {σ : Type} (w : World σ) : Effect σ → World σ
  | cancel => { w with cancelled := true }
  | assign name value => { w with vars := w.vars.set name value }
  | begin action a b input => { w with calls := ⟨action, a, b, input, w.now⟩ :: w.calls }
  | finish action outcome => { w with outcomes := (action, outcome) :: w.outcomes }
  | count event => { w with metrics := w.metrics.count event }
  | nap place seconds => { w with naps := (place, seconds) :: w.naps }
  | log line => { w with log := line :: w.log }
  | alter f => { w with surroundings := f w.surroundings }

end PipeScript
