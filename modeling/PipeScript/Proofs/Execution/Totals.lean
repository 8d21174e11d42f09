import PipeScript.Proofs.Execution.Counters
import PipeScript.Proofs.Execution.Independence
import PipeScript.Proofs.Execution.Ledger

/-!
# The counters do not depend on the schedule

The counters of a runtime go on from run to run until they are reset. After any number of runs in which
nothing fails they are the totals of what the sequential evaluations of the programs count, whatever the
commands and the loops wait for.

## The model

The runs follow each other in one runtime (`Runtime.runAllWithin`), each in a context and in surroundings
of its own. Each is given up after a number of rounds, as in `Runtime.runWithin`. The commands answer, in
whatever time, and the evaluation of each program meets no error (`Evaluator.Clean`).

Main result: if all runs end, the counters are the totals of all evaluations, and all runs end if their
delays come to an end (`Runtime.totals_of_runs`).
-/

namespace PipeScript

open Binary64

variable {σ : Type}

/-- A program, with the context and the surroundings in which it is run. -/
structure Launch (σ : Type) where
  context : Context
  surroundings : σ
  program : Program

namespace Runtime

/-- The runtime with its counters reset. -/
def resetMetrics (rt : Runtime σ) : Runtime σ := { rt with metrics := {} }

/-- Run programs one after the other, each of them given up after some rounds. The counters go on from
run to run. -/
def runAllWithin (rounds : Nat) : List (Launch σ) → Runtime σ → Option (Runtime σ)
  | [], rt => some rt
  | x :: rest, rt =>
    match rt.runWithin rounds x.context x.surroundings x.program with
    | some (_, w) => runAllWithin rounds rest { rt with metrics := w.metrics }
    | none => none

variable {rt : Runtime σ} {answers : Answers}

/-- Is the context not cancelled, and does the evaluation of the program meet no error? -/
def Untroubled (rt : Runtime σ) (answers : Answers) (x : Launch σ) : Prop :=
  x.context.cancelled = false ∧ (rt.evaluator answers x.context).Clean x.program

/-- What the sequential evaluations of the programs count, one after the other. -/
def eventsOf (rt : Runtime σ) (answers : Answers) (xs : List (Launch σ)) : List Event :=
  xs.flatMap fun x => (rt.evaluator answers x.context).events x.program

/-- The process of a clean program counts what the evaluation counts. -/
theorem counts_process {c : Context} {p : Program} (hr : rt.registry.Performs answers)
    (hclean : (rt.evaluator answers c).Clean p) : ∃ v, (rt.evaluator answers c).program p = .ok v ∧
      (rt.process p).Counts c.vars v ((rt.evaluator answers c).events p) := by
  obtain ⟨v, hv, hcounts⟩ := Engine.counts_run (e := rt.engine) (v := rt.evaluator answers c) hr rfl hclean
  refine ⟨v, hv, ?_⟩
  rw [← add_zero (((rt.evaluator answers c).events p : List Event) : Multiset Event)]
  exact hcounts.bind (Process.counts_log (Process.counts_ok v))

/-- **A run adds to the counters** what the evaluation of its program counts. -/
theorem totals_of_runWithin (hr : rt.registry.Performs answers) {x : Launch σ}
    (hx : rt.Untroubled answers x) {es : List Event} (hes : rt.metrics.Totals es) {rounds : Nat}
    {o : Outcome} {w : World σ} (hrun : rt.runWithin rounds x.context x.surroundings x.program = some (o, w)) :
    w.metrics.Totals (es ++ (rt.evaluator answers x.context).events x.program) := by
  obtain ⟨hc, hclean⟩ := hx
  obtain ⟨v, -, hcounts⟩ := counts_process hr hclean
  have hcalm : (rt.worldOf x.context x.surroundings).Calm x.context.vars := ⟨hc, rfl⟩
  obtain ⟨counted, hcounted, hmetrics⟩ := Schedule.counted_of_runFor hcalm hcounts hrun
  rw [hmetrics]
  exact (hes.counts counted).perm ((Multiset.coe_eq_coe.mp hcounted).append_left es)

/-- Runs one after the other add to the counters what the evaluations count. -/
theorem totals_of_runAllWithin (rt : Runtime σ) (hr : rt.registry.Performs answers) {xs : List (Launch σ)}
    (hxs : ∀ x ∈ xs, rt.Untroubled answers x) {es : List Event} (hes : rt.metrics.Totals es) {rounds : Nat}
    {rt' : Runtime σ} (hrun : runAllWithin rounds xs rt = some rt') :
    rt'.metrics.Totals (es ++ rt.eventsOf answers xs) := by
  induction xs generalizing rt es with
  | nil =>
    obtain rfl := Option.some.inj hrun
    rwa [eventsOf, List.flatMap_nil, List.append_nil]
  | cons x rest ih =>
    rw [runAllWithin] at hrun
    split at hrun
    · rename_i o w hx
      have hw := totals_of_runWithin hr (hxs x (List.mem_cons_self ..)) hes hx
      rw [eventsOf, List.flatMap_cons, ← List.append_assoc]
      exact ih { rt with metrics := w.metrics } hr
        (fun y hy => hxs y (List.mem_cons_of_mem x hy)) hw hrun
    · cases hrun

/-- Runs one after the other end, if their delays come to an end. -/
theorem exists_runAllWithin (rt : Runtime σ) (hr : rt.registry.Timely)
    (hdelay : Elapses rt.settings.loopDelay) (xs : List (Launch σ)) :
    ∃ rounds rt', ∀ more ≥ rounds, runAllWithin more xs rt = some rt' := by
  induction xs generalizing rt with
  | nil => exact ⟨0, rt, fun _ _ => rfl⟩
  | cons x rest ih =>
    obtain ⟨rounds, ⟨o, w⟩, hx⟩ := exists_runWithin hr hdelay x.context x.surroundings x.program
    obtain ⟨rounds', rt', hrest⟩ := ih { rt with metrics := w.metrics } hr hdelay
    refine ⟨max rounds rounds', rt', fun more hmore => ?_⟩
    rw [runAllWithin, hx more (le_trans (le_max_left ..) hmore)]
    exact hrest more (le_trans (le_max_right ..) hmore)

/-- **The counters do not depend on the schedule**, and no update is lost: after runs of programs of which
the evaluation meets no error, they are the totals of what the evaluations count. The runs end if their
delays do, which naps of more than `2^49` seconds do not, finite as they are. -/
theorem totals_of_runs (rt : Runtime σ) (hr : rt.registry.Performs answers) (xs : List (Launch σ))
    (hxs : ∀ x ∈ xs, rt.Untroubled answers x) :
    (∀ rounds rt', runAllWithin rounds xs rt.resetMetrics = some rt' →
      rt'.metrics.Totals (rt.eventsOf answers xs)) ∧
    (rt.registry.Timely → Elapses rt.settings.loopDelay →
      ∃ rounds rt', ∀ more ≥ rounds, runAllWithin more xs rt.resetMetrics = some rt') := by
  refine ⟨fun rounds rt' hrun => ?_, fun htimely hdelay => ?_⟩
  · exact totals_of_runAllWithin rt.resetMetrics hr hxs Metrics.totals_nil hrun
  · exact exists_runAllWithin rt.resetMetrics htimely hdelay xs

/-! ### Two programs of slow commands -/

/-- A loop over two items, each of them said. -/
def sayEach : Program :=
  ⟨[[.command "say" "a,b" "", .forEach "csv" [[.command "say" "c" ""]]]]⟩

/-- Two branches, one of which says more if what it has said is worth it. -/
def sayMore : Program :=
  ⟨[[.parallel [[.command "say" "x" ""],
    [.command "say" "y" "", .guarded "contains y" [[.command "say" "z" ""]]]]]]⟩

/-- The two programs, the second one after the first. -/
def sayings : List (Launch Nat) := [⟨{}, 0, sayEach⟩, ⟨{}, 0, sayMore⟩]

theorem parse_contains : Condition.parse "contains y" = .ok ⟨Condition.inputField, .contains, "y"⟩ := by
  decide +kernel

theorem stage_say (a b input : String) :
    (slow.evaluator slowAnswers {}).stage (.command "say" a b) input = .ok a := by
  simp [Evaluator.stage, evaluator, slowAnswers_say, Except.mapError]

theorem untroubled_sayings : ∀ x ∈ sayings, slow.Untroubled slowAnswers x := by
  have heach : (slow.evaluator slowAnswers {}).Clean sayEach := by
    simp [Evaluator.Clean, sayEach, Evaluator.BlockClean, Evaluator.ChainClean,
      Evaluator.StageClean, stage_say]
  have hmore : (slow.evaluator slowAnswers {}).Clean sayMore := by
    simp [Evaluator.Clean, sayMore, Evaluator.BlockClean, Evaluator.ChainClean,
      Evaluator.StageClean, Evaluator.BranchesClean, stage_say, parse_contains]
  intro x hx
  rcases List.mem_pair.mp hx with rfl | rfl
  · exact ⟨rfl, heach⟩
  · exact ⟨rfl, hmore⟩

theorem eventsOf_sayings : slow.eventsOf slowAnswers sayings =
    [.command "say", .command "say", .command "say", .loop 2, .parallel, .command "say", .command "say",
      .guard true, .command "say"] := by
  decide +kernel

theorem totals_of_sayings : ∃ rounds rt', ∀ more ≥ rounds,
    runAllWithin more sayings slow.resetMetrics = some rt' ∧
      rt'.metrics.Totals [.command "say", .command "say", .command "say", .loop 2, .parallel,
        .command "say", .command "say", .guard true, .command "say"] := by
  have hdelay : Elapses slow.settings.loopDelay := elapses_of_le (by decide +kernel)
  obtain ⟨htotals, hends⟩ :=
    slow.totals_of_runs performs_slowCommands sayings untroubled_sayings
  obtain ⟨rounds, rt', hrun⟩ := hends timely_slowCommands hdelay
  rw [eventsOf_sayings] at htotals
  exact ⟨rounds, rt', fun more hmore => ⟨hrun more hmore, htotals more rt' (hrun more hmore)⟩⟩

end Runtime

end PipeScript
