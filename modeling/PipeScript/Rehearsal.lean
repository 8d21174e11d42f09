import PipeScript.Command.Builtin
import PipeScript.Runtime

/-!
# Rehearsal commands

Small commands for trying out how programs run: they mark their input, fail, wait, or fail a number
of times before they succeed. They work beside the built-in ones in surroundings that also keep what
the waiting commands have done, and how often each failing key has been tried. No thread is used in a
rehearsal: every command is called directly.
-/

namespace PipeScript

/-- Surroundings with the records of rehearsal commands. -/
structure Rehearsal where
  outer : Surroundings
  /-- The labels of the waits that have ended, the latest one first. -/
  done : List String := []
  /-- How often each key has been tried. -/
  tries : List (String × Nat) := []

namespace Rehearsal

/-- The text, or another one if it is empty. -/
def orElse (s other : String) : String := if s.isEmpty then other else s

/-- A failure with a message of its own. -/
def failure (kind : ReportKind) (text : String) : Job Rehearsal := .fail (.reported kind text)

/-- The number of seconds that an argument is, or the failure to read it. -/
def seconds (argument : String) (next : Binary64 → Job Rehearsal) : Job Rehearsal :=
  match Binary64.ofString? argument with
  | some x => next x
  | none => .fail (.badNumber argument)

/-- Record that a wait has ended. -/
def record (label : String) (next : Job Rehearsal) : Job Rehearsal :=
  .alter (fun r => { r with done := label :: r.done }) next

/-- Put a text behind the input. -/
def append : Collaborator Rehearsal := fun a _ input => .ok (input ++ orElse a "!")

/-- Put the input between two texts. -/
def wrap : Collaborator Rehearsal := fun a b input => .ok (a ++ input ++ b)

/-- Fail with a text. -/
def fail : Collaborator Rehearsal := fun a _ _ => failure .value (orElse a "boom")

/-- Fail on one input and mark any other. -/
def picky : Collaborator Rehearsal := fun a _ input =>
  if input = orElse a "b" then failure .value ("no " ++ input ++ " allowed") else .ok (input ++ "+")

/-- Give no value. -/
def nothing : Collaborator Rehearsal := fun _ _ _ => .ok ""

/-- Give the length of the input. -/
def number : Collaborator Rehearsal := fun _ _ input => .ok (toString input.length)

/-- Cancel the run. -/
def stop : Collaborator Rehearsal := fun _ _ input => .cancel (.ok input)

/-- Mark the input. -/
def lazy : Collaborator Rehearsal := fun _ _ input => .ok (input ++ "~")

/-- Wait, whatever happens, and give the label. -/
def slow : Collaborator Rehearsal := fun a label _ =>
  seconds a fun s => .wait s (record label (.ok label))

/-- Nap, and pass the input on. -/
def nap : Collaborator Rehearsal := fun a label input =>
  seconds a fun s => .sleep "nap" s (record label (.ok input))

/-- Fail a number of times per key, then mark the input with the number of the try. -/
def flaky : Collaborator Rehearsal := fun a b input =>
  let key := orElse b "429 Too Many Requests"
  .alter (fun r => { r with tries := Metrics.addCall key r.tries }) <|
    match WholeNumber.read (orElse a "0").toList with
    | .error p => .fail (.ofWholeNumber a p)
    | .ok failures =>
      .look fun w =>
        let count := ((w.surroundings.tries.find? fun t => t.1 == key).map (·.2)).getD 0
        if (count : Int) ≤ failures then failure .connection key
        else .ok (input ++ s!"[{count}]")

/-- The policy of the command that has its own: short delays that chance does not change, apart from
what is given. -/
def policy (given : Json.Fields) : Checked RetryPolicy :=
  let usual : Json.Fields :=
    [("max_attempts", .int 3), ("initial_delay", .number (.ofRatio false 1 100)),
      ("max_delay", .number (.ofRatio false 1 20)), ("multiplier", .int 2), ("jitter_pct", .int 0)]
  RetryPolicy.ofFields (usual ++ given)

/-- A built-in command in these surroundings. -/
def adopt (s : CommandSpec (Collaborator Surroundings)) : CommandSpec (Collaborator Rehearsal) :=
  { name := s.name
    work := fun a b input =>
      (s.work a b input).within (·.outer) (fun outer r => { r with outer })
    style := s.style, remote := s.remote, policy := s.policy, help := s.help }

/-- The built-in commands. -/
def builtins : Registry (Collaborator Rehearsal) := ⟨Command.registry.specs.map adopt⟩

/-- A rehearsal command that is called once. -/
def once (name : String) (work : Collaborator Rehearsal) : CommandSpec (Collaborator Rehearsal) :=
  { name, work }

/-- A rehearsal command that is retried. -/
def retried (name : String) (work : Collaborator Rehearsal) (policy : Option RetryPolicy) :
    CommandSpec (Collaborator Rehearsal) :=
  { name, work, policy, remote := true }

/-- The built-in and the rehearsal commands, with a policy for the one that has its own. -/
def registry (policy : RetryPolicy) : Registry (Collaborator Rehearsal) :=
  [once "append" append, once "wrap" wrap, once "fail" fail, once "picky" picky,
    once "nothing" nothing, once "number" number, once "stop" stop, once "lazy" lazy,
    once "slow" slow, once "nap" nap, retried "flaky" flaky (some policy),
    retried "search" flaky none, retried "lookup" flaky none, once "localflaky" flaky].foldl
    Registry.add builtins

end Rehearsal

end PipeScript
