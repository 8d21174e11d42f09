import PipeScript.Proofs.Execution.Delays
import PipeScript.Proofs.Execution.Sequential

/-!
# The schedule does not matter

A program whose commands only answer comes to what its sequential evaluation comes to, whatever the
commands and the loops wait for, and whether or not the other branches of a parallel block are
cancelled when one fails. Only blocks with two failing branches are an exception: the failure that is
found first depends on the delays.

## The model

A run is given up after a number of rounds, as `Runtime.execute` does after very many. Its outcome is
compared with that of an `Evaluator`, which knows the answers of the commands and the variables of
the context.

Main result: a run that ends has the outcome of the evaluation, and it ends if its delays come to an
end (`Runtime.run_eq_program`).
-/

namespace PipeScript

open Binary64

variable {σ : Type}

namespace Runtime

/-- A run of a program, given up after some rounds. -/
def runWithin (rt : Runtime σ) (rounds : Nat) (c : Context) (s : σ) (p : Program) :
    Option (Outcome × World σ) :=
  Schedule.runFor rt.settings.cancelSiblings rounds (.start (rt.worldOf c s) (rt.process p))

/-- What programs evaluate to with these answers. -/
def evaluator (rt : Runtime σ) (answers : Answers) (c : Context) : Evaluator :=
  ⟨answers, c.vars, rt.settings.loopLimit⟩

variable {rt : Runtime σ} {answers : Answers} {c : Context} {p : Program}

theorem gives_process (hr : rt.registry.Performs answers) (hlone : (rt.evaluator answers c).Lone p) :
    (rt.process p).Gives c.vars ((rt.evaluator answers c).program p) := by
  have hrun : (rt.engine.run p).Gives c.vars ((rt.evaluator answers c).program p) :=
    Engine.gives_run hr rfl hlone
  refine hrun.andThen ?_
  cases (rt.evaluator answers c).program p with
  | ok value => exact Process.gives_log rfl
  | error f => exact rfl

/-- A run that ends has the outcome of the evaluation, and leaves the context as it was. -/
theorem outcome_of_runWithin (hc : c.cancelled = false) (hr : rt.registry.Performs answers)
    (hlone : (rt.evaluator answers c).Lone p) {s : σ} {rounds : Nat} {o : Outcome} {w : World σ}
    (hrun : rt.runWithin rounds c s p = some (o, w)) :
    o = (rt.evaluator answers c).program p ∧ w.Calm c.vars :=
  Schedule.outcome_of_runFor (fun _ _ h => ⟨h.running, h.vars_eq⟩) ⟨hc, rfl⟩
    (gives_process hr hlone) (by simp [Alarms.all]) (by simp [Alarms.all]) hrun

/-- What a program answers is what it evaluates to. -/
theorem outcome_of_execute (hc : c.cancelled = false) (hr : rt.registry.Performs answers)
    (hlone : (rt.evaluator answers c).Lone p) {s : σ} {o : Outcome} {w : World σ}
    (hrun : rt.execute c s p = some (o, w)) :
    o = (rt.evaluator answers c).program p ∧ w.Calm c.vars :=
  outcome_of_runWithin hc hr hlone hrun

/-- A run ends, if its delays come to an end. -/
theorem exists_runWithin (hr : rt.registry.Timely) (hdelay : Elapses rt.settings.loopDelay)
    (c : Context) (s : σ) (p : Program) :
    ∃ rounds r, ∀ more ≥ rounds, rt.runWithin more c s p = some r :=
  exists_runFor (timely_engine hr hdelay) c s p

/-- **The outcome of a program does not depend on the schedule**: it is the outcome of the sequential
evaluation, if each parallel block that this reaches has one failing branch at most. The run ends if its
delays do, which is more than to be finite: the slices of a nap of more than `2^49` seconds are lost in
rounding, and it is never over. -/
theorem run_eq_program (rt : Runtime σ) (c : Context) (hc : c.cancelled = false)
    (hr : rt.registry.Performs answers) (hlone : (rt.evaluator answers c).Lone p) (s : σ) :
    (∀ rounds o w, rt.runWithin rounds c s p = some (o, w) →
      o = (rt.evaluator answers c).program p) ∧
    (rt.registry.Timely → Elapses rt.settings.loopDelay →
      ∃ rounds, ∀ more ≥ rounds, ∃ w,
        rt.runWithin more c s p = some ((rt.evaluator answers c).program p, w)) := by
  refine ⟨fun rounds o w hrun => (outcome_of_runWithin hc hr hlone hrun).1, fun htimely hdelay => ?_⟩
  obtain ⟨rounds, ⟨o, w⟩, hrun⟩ := exists_runWithin htimely hdelay c s p
  obtain ⟨rfl, -⟩ := outcome_of_runWithin hc hr hlone (hrun rounds (Nat.le_refl rounds))
  exact ⟨rounds, fun more hmore => ⟨w, hrun more hmore⟩⟩

/-! ### A block with one failing branch -/

/-- Commands that take their time: one answers its first argument, the first call after a longer wait,
and one trips over it. -/
def slowCommands : Registry (Collaborator Nat) :=
  let say : Collaborator Nat := fun a _ _ =>
    .look fun w => .alter (· + 1) (.wait (if w.surroundings = 0 then 2 else 1) (.ok a))
  let trip : Collaborator Nat := fun a _ _ => .nap "trip" 1 fun _ => .fail (.reported .value a)
  (Registry.add {} { name := "say", work := say }).add { name := "trip", work := trip }

/-- What the slow commands answer. -/
def slowAnswers : Answers := fun action =>
  if Registry.key action = "trip" then some fun a _ _ => .error (.reported .value a)
  else if Registry.key action = "say" then some fun a _ _ => .ok a
  else none

/-- A runtime with the slow commands. -/
def slow : Runtime Nat :=
  { settings := { cacheDirectory := .ofString "" }, registry := slowCommands }

/-- A parallel block of two slow commands. -/
def sayAndTrip : Program := ⟨[[.parallel [[.command "say" "a" ""], [.command "trip" "b" ""]]]]⟩

theorem performs_slowCommands : slowCommands.Performs slowAnswers := by
  intro action
  rw [slowCommands, Registry.get?_add, Registry.get?_add, slowAnswers]
  split
  · refine .some ⟨rfl, fun a b input => ⟨rfl, fun f hf => ?_⟩⟩
    cases hf
    rfl
  · split
    · exact .some ⟨rfl, fun a b input => ⟨fun w _ => rfl, notCancelled_ok a⟩⟩
    · exact .none

theorem timely_slowCommands : slowCommands.Timely := by
  intro action s hs
  rw [slowCommands, Registry.get?_add, Registry.get?_add] at hs
  split at hs
  · obtain rfl := Option.some.inj hs
    exact ⟨rfl, fun a b input => ⟨elapses_of_le (by decide +kernel), fun _ => trivial⟩⟩
  · split at hs
    · obtain rfl := Option.some.inj hs
      refine ⟨rfl, fun a b input w => ⟨?_, trivial⟩⟩
      split
      · exact passes_of_lt (by decide +kernel)
      · exact passes_of_lt (by decide +kernel)
    · cases hs

theorem slowAnswers_say : slowAnswers "say" = some fun a _ _ => .ok a := by
  have hkey : Registry.key "say" = "say" := by decide +kernel
  simp [slowAnswers, hkey]

theorem slowAnswers_trip : slowAnswers "trip" = some fun a _ _ => .error (.reported .value a) := by
  have hkey : Registry.key "trip" = "trip" := by decide +kernel
  simp [slowAnswers, hkey]

theorem branches_sayAndTrip (input : String) : (slow.evaluator slowAnswers {}).branches
    [[.command "say" "a" ""], [.command "trip" "b" ""]] input =
      [.ok "a", .error (.command "trip" (.reported .value "b"))] := by
  simp [Evaluator.branches, Evaluator.chain, Evaluator.stage, evaluator, slowAnswers_say,
    slowAnswers_trip, Except.bind, Except.mapError]

theorem program_sayAndTrip : (slow.evaluator slowAnswers {}).program sayAndTrip =
    .error (.branch 1 (.command "trip" (.reported .value "b"))) := by
  simp [Evaluator.program, sayAndTrip, Evaluator.block, Evaluator.chain, Evaluator.stage,
    branches_sayAndTrip, Evaluator.merged, joinOutcomes, Except.bind]

theorem lone_sayAndTrip : (slow.evaluator slowAnswers {}).Lone sayAndTrip := by
  simp [Evaluator.Lone, sayAndTrip, Evaluator.BlockLone, Evaluator.ChainLone, Evaluator.StageLone,
    Evaluator.BranchesLone, branches_sayAndTrip, LoneFailure, isFailure, Evaluator.chain,
    Evaluator.stage, Evaluator.merged, joinOutcomes, Except.bind]

theorem run_sayAndTrip : ∃ rounds, ∀ more ≥ rounds, ∃ w, slow.runWithin more {} 0 sayAndTrip =
    some (.error (.branch 1 (.command "trip" (.reported .value "b"))), w) := by
  have hdelay : Elapses slow.settings.loopDelay := elapses_of_le (by decide +kernel)
  have hrun := (slow.run_eq_program {} rfl performs_slowCommands lone_sayAndTrip 0).2
    timely_slowCommands hdelay
  rwa [program_sayAndTrip] at hrun

end Runtime

end PipeScript
