import PipeScript.Proofs.Execution.Programs
import PipeScript.Proofs.Execution.Yields

/-!
# What runs keep

Only commands change their surroundings. What each command of a registry keeps true of them, in any
world, a run keeps true, in whatever order its tasks go on.

Main result: the surroundings in which a run ends have a property that those have in which it starts, if
all commands keep it (`Runtime.keeps_of_runFor`).
-/

namespace PipeScript

variable {σ : Type} {P : σ → Prop}

/-- Does the job keep the property of the surroundings? -/
def Job.Keeps (P : σ → Prop) : Job σ → Prop
  | finish _ => True
  | look next => ∀ w, P w.surroundings → (next w).Keeps P
  | alter f next => (∀ s, P s → P (f s)) ∧ next.Keeps P
  | cancel next => next.Keeps P
  | assign _ _ next => next.Keeps P
  | log _ next => next.Keeps P
  | wait _ next => next.Keeps P
  | nap _ _ next => ∀ c, (next c).Keeps P

/-- Work on the surroundings keeps what it leaves as it is. -/
theorem Job.keeps_ofWork {w : Work σ String} (h : ∀ s, P s → P (w.on s).2) : (ofWork w).Keeps P :=
  fun world hw => ⟨fun _ _ => h world.surroundings hw, trivial⟩

/-- Do all commands of the registry keep the property of their surroundings? -/
def Registry.Keeps (P : σ → Prop) (r : Registry (Collaborator σ)) : Prop :=
  ∀ action s, r.get? action = some s → ∀ a b input, (s.work a b input).Keeps P

namespace Process

/-- Does the process keep the property of the surroundings? -/
def Keeps (P : σ → Prop) (p : Process σ) : Prop := p.Yields (fun w => P w.surroundings) fun _ => True

theorem keeps_ofJob {j : Job σ} (h : j.Keeps P) : (ofJob j).Keeps P := by
  induction j with
  | finish o => exact trivial
  | look next ih => exact fun w hw => ih w (h w hw)
  | alter f next ih => exact ⟨fun w hw => h.1 w.surroundings hw, ih h.2⟩
  | cancel next ih => exact ⟨fun _ hw => hw, ih h⟩
  | assign name value next ih => exact ⟨fun _ hw => hw, ih h⟩
  | log line next ih => exact ⟨fun _ hw => hw, ih h⟩
  | wait seconds next ih => exact ih h
  | nap place seconds next ih => exact ⟨fun _ hw => hw, fun _ _ => ih _ (h _)⟩

end Process

theorem Engine.rules_keeps {e : Engine σ} (h : e.registry.Keeps P) :
    e.Rules (fun _ p => p.Keeps P) fun _ => True where
  weaken h := h
  done _ := trivial
  afterLook h := by
    intro w _
    show Process.Keeps P (if w.cancelled then _ else _)
    split
    · exact trivial
    · exact h
  look h := fun w _ => h w
  log h := ⟨fun _ hw => hw, h⟩
  count h := ⟨fun _ hw => hw, h⟩
  sleep _ htrue hfalse := by
    refine ⟨fun _ hw => hw, fun w _ => ?_⟩
    cases w.cancelled with
    | true => exact htrue
    | false => exact hfalse
  fork _ hbranch hnext := ⟨fun _ _ => True, hbranch, fun j _ => hnext j⟩
  andThen h hk := h.andThen fun o _ => hk o
  begin h := ⟨fun _ hw => hw, h⟩
  finish h := ⟨fun _ hw => hw, h⟩
  work hs a b input := Process.keeps_ofJob (h _ _ hs a b input)
  thread h := ⟨fun _ _ => True, fun _ => h, fun _ _ => trivial⟩
  retry _ _ _ _ _ _ _ _ := trivial
  loop := trivial

/-- **A run keeps what its commands keep.** -/
theorem Runtime.keeps_of_runFor {rt : Runtime σ} (h : rt.registry.Keeps P) {c : Context} {s : σ}
    (hs : P s) {p : Program} {rounds : Nat} {o : Outcome} {w : World σ}
    (hrun : Schedule.runFor rt.settings.cancelSiblings rounds (rt.schedule c s p none {}) =
      some (o, w)) : P w.surroundings := by
  have hkeeps : (rt.process p).Keeps P := holds_of_rules (Engine.rules_keeps h) p
  have hend := Schedule.outcome_of_runFor (fun _ _ hw => hw) hs hkeeps (by simp [Alarms.all])
    (by simp [Alarms.all]) hrun
  exact hend.2

end PipeScript
