import PipeScript.Proofs.Execution.Programs
import PipeScript.Proofs.Execution.Termination

/-!
# Programs of timely commands

A program waits where its commands do, between the attempts of a command, and between the items of its
loops. If all of these delays come to an end then its process is timely, whatever the commands answer,
and a run of it ends.

## The model

`Job.Timely` is about all that a job may come to do, in whatever world it looks at. A loop takes its
naps from the settings of the runtime, and a command that is retried from its policy.

Main results: the process of a program is timely (`Runtime.timely_process`), and its run comes to an end
(`Runtime.exists_runFor`).
-/

namespace PipeScript

open Binary64

variable {σ : Type}

/-- Does each wait of the job pass, and does each nap elapse? -/
def Job.Timely : Job σ → Prop
  | finish _ => True
  | look next => ∀ w, (next w).Timely
  | alter _ next => next.Timely
  | cancel next => next.Timely
  | assign _ _ next => next.Timely
  | log _ next => next.Timely
  | wait seconds next => Passes seconds ∧ next.Timely
  | nap _ seconds next => Elapses seconds ∧ ∀ c, (next c).Timely

/-- Are the commands local, and is each call of them timely? -/
def Registry.Timely (r : Registry (Collaborator σ)) : Prop :=
  ∀ action s, r.get? action = some s → s.remote = false ∧ ∀ a b input, (s.work a b input).Timely

namespace Process

theorem Timely.andThen {p : Process σ} {k : Outcome → Process σ} (h : p.Timely)
    (hk : ∀ o, (k o).Timely) : (p.andThen k).Timely := by
  induction p with
  | done o => exact hk o
  | look next ih => exact fun w => ih w (h w)
  | act e next ih => exact ih h
  | wait seconds next ih => exact ⟨h.1, ih h.2⟩
  | nap place r next ih => exact ⟨h.1, fun c => ih c (h.2 c)⟩
  | fork kind count branch next _ ih => exact ⟨h.1, fun j => ih j (h.2 j)⟩

/-- A process that ends at once if the run has been cancelled. -/
theorem timely_unless {f : Failure} {p : Process σ} (h : p.Timely) :
    (look fun w => if w.cancelled then fail f else p).Timely := by
  intro w
  show (if w.cancelled then fail f else p).Timely
  split
  · exact trivial
  · exact h

theorem timely_ofJob {j : Job σ} (h : j.Timely) : (ofJob j).Timely := by
  induction j with
  | finish o => exact trivial
  | look next ih => exact fun w => ih w (h w)
  | alter f next ih => exact ih h
  | cancel next ih => exact ih h
  | assign name value next ih => exact ih h
  | log line next ih => exact ih h
  | wait seconds next ih => exact ⟨h.1, ih h.2⟩
  | nap place seconds next ih => exact ⟨h.1, fun c => ih c (h.2 c)⟩

end Process

namespace Engine

/-- Is each call of a command timely, and does each nap elapse, between attempts and between the items
of loops? -/
structure Timely (e : Engine σ) : Prop where
  work : ∀ {action s}, e.registry.get? action = some s → ∀ a b input, (s.work a b input).Timely
  retry : ∀ {action s policy}, e.registry.get? action = some s → s.effectivePolicy = some policy →
    ∀ {calls number : Nat} {delay}, 0 < number → number < policy.maxAttempts →
      policy.delayAfter number (e.draw.share calls number) = .ok delay → Elapses delay
  loop : Elapses e.loopDelay

theorem Timely.rules {e : Engine σ} (h : e.Timely) : e.Rules (fun _ p => p.Timely) Elapses where
  weaken h := h
  done _ := trivial
  afterLook h := Process.timely_unless h
  look h := h
  log h := h
  count h := h
  sleep hnap htrue hfalse := by
    refine ⟨hnap, fun c => ?_⟩
    cases c with
    | true => exact htrue
    | false => exact hfalse
  fork _ hbranch hnext := ⟨hbranch, hnext⟩
  andThen h hk := h.andThen hk
  begin h := h
  finish h := h
  work hs a b input := Process.timely_ofJob (h.work hs a b input)
  thread h := ⟨fun _ => h, fun _ => trivial⟩
  retry := h.retry
  loop := h.loop

end Engine

namespace Runtime

/-- Local commands are not retried. -/
theorem timely_engine {rt : Runtime σ} (hr : rt.registry.Timely)
    (hdelay : Elapses rt.settings.loopDelay) : rt.engine.Timely where
  work hs := (hr _ _ hs).2
  retry hs hpolicy := by simp [CommandSpec.effectivePolicy, (hr _ _ hs).1] at hpolicy
  loop := hdelay

/-- **The process of a program is timely** where everything is that it goes by. -/
theorem timely_process {rt : Runtime σ} (h : rt.engine.Timely) (p : Program) :
    (rt.process p).Timely :=
  holds_of_rules h.rules p

/-- **A run ends**, if everything is timely that it goes by. -/
theorem exists_runFor {rt : Runtime σ} (h : rt.engine.Timely) (c : Context) (s : σ) (p : Program) :
    ∃ rounds r, ∀ more ≥ rounds,
      Schedule.runFor rt.settings.cancelSiblings more (rt.schedule c s p none {}) = some r := by
  have hzero : IsTime (rt.worldOf c s).now := ⟨0, Nat.zero_le _, zero_eq⟩
  have htidy : Schedule.Tidy none [] (rt.schedule c s p none {}) :=
    Schedule.Tidy.start _ _ (by simp [Alarms.all])
  have htimed : Schedule.Timed (rt.schedule c s p none {}) :=
    Schedule.Timed.start hzero (timely_process h p) (by simp [Alarms.all])
  obtain ⟨rounds, r, hrun⟩ := Schedule.exists_runFor rt.settings.cancelSiblings htidy htimed
  exact ⟨rounds, r, fun more hmore => Schedule.runFor_mono hrun hmore⟩

end Runtime

end PipeScript
