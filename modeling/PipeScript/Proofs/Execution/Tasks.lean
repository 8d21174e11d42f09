import PipeScript.Execution.Scheduler
import PipeScript.Proofs.Execution.Alarm

/-!
# No task is forgotten

Whatever the processes do, in whatever order the alarms ring and whichever tasks are abandoned, a
task that can go on has the turn for it in the queue, and a task that waits for a time or for its
branches will get one.

## The model

A turn may be in the queue or still to be taken in the round that is going on; `Tidy` speaks of both,
with the list of the latter. One task can be exempt: the one that is just taking its turn.

Main results: taking a turn keeps a schedule tidy (`Tidy.take`), and so does a whole round
(`Tidy.round`); and a tidy schedule in which no turn and no alarm is left has only tasks that have
ended or have been dropped (`Tidy.ended_of_idle`).
-/

namespace PipeScript.Schedule

variable {σ : Type}

/-! ### Reading a changed schedule -/

theorem modify_append {α : Type} {xs : List α} {i : Nat} (h : i < xs.length) (ys : List α)
    (f : α → α) : (xs ++ ys).modify i f = xs.modify i f ++ ys := by
  rw [List.modify_eq_take_cons_drop h, List.modify_eq_take_cons_drop (by simp; omega),
    List.take_append_of_le_length (Nat.le_of_lt h), List.drop_append_of_le_length h]
  simp [List.getElem_append_left h]

/-- The task that is told of the end of a task. -/
def parent? (s : Schedule σ) (task : Nat) : Option Nat := (s.tasks[task]?).bind (·.parent)

/-- The schedule with the branches of a task added. -/
def addBranches (s : Schedule σ) (task : Nat) (kind : Fork) (count : Nat)
    (branch : Fin count → Process σ) : Schedule σ :=
  { s with tasks := s.tasks ++
      (List.finRange count).map fun i => ⟨.ready (branch i), some task, kind⟩ }

theorem state?_setState (s : Schedule σ) (t u : Nat) (st : TaskState σ) :
    (s.setState t st).state? u = if u = t then (s.state? u).map fun _ => st else s.state? u := by
  simp only [state?, setState, List.getElem?_modify]
  by_cases h : u = t
  · subst h
    simp
    rfl
  · simp [h, Ne.symm h]

theorem state?_setState_of_ne (s : Schedule σ) {t u : Nat} (st : TaskState σ) (h : u ≠ t) :
    (s.setState t st).state? u = s.state? u := by
  simp [state?_setState, h]

/-- A task has the new state or the one that it had. -/
theorem state?_setState_cases {s : Schedule σ} {t u : Nat} {st st' : TaskState σ}
    (h : (s.setState t st).state? u = some st') :
    u = t ∧ st' = st ∨ u ≠ t ∧ s.state? u = some st' := by
  by_cases hu : u = t
  · rw [state?_setState, if_pos hu] at h
    obtain ⟨_, -, rfl⟩ := Option.map_eq_some_iff.mp h
    exact .inl ⟨hu, rfl⟩
  · rw [state?_setState_of_ne s st hu] at h
    exact .inr ⟨hu, h⟩

@[simp] theorem parent?_setState (s : Schedule σ) (t u : Nat) (st : TaskState σ) :
    (s.setState t st).parent? u = s.parent? u := by
  simp only [parent?, setState, List.getElem?_modify]
  cases s.tasks[u]? <;> simp
  split <;> rfl

theorem outcome?_eq_some_iff {s : Schedule σ} {t : Nat} {o : Outcome} :
    s.outcome? t = some o ↔ s.state? t = some (.ended o) := by
  unfold outcome?
  split <;> simp_all

theorem outcome?_eq_none_iff {s : Schedule σ} {t : Nat} :
    s.outcome? t = none ↔ ∀ o, s.state? t ≠ some (.ended o) := by
  unfold outcome?
  split <;> simp_all

theorem lt_length_of_state? {s : Schedule σ} {t : Nat} {st : TaskState σ}
    (h : s.state? t = some st) : t < s.tasks.length := by
  by_contra hlt
  simp [state?, List.getElem?_eq_none (Nat.le_of_not_lt hlt)] at h

theorem exists_state?_of_parent? {s : Schedule σ} {t u : Nat} (h : s.parent? t = some u) :
    ∃ st, s.state? t = some st := by
  unfold parent? at h
  unfold state?
  cases ht : s.tasks[t]? with
  | none => simp [ht] at h
  | some e => exact ⟨e.state, rfl⟩

section AddBranches

variable (s : Schedule σ) (t : Nat) (kind : Fork) (count : Nat) (branch : Fin count → Process σ)

theorem state?_addBranches_of_lt {u : Nat} (h : u < s.tasks.length) :
    (s.addBranches t kind count branch).state? u = s.state? u := by
  simp [state?, addBranches, List.getElem?_append_left h]

theorem parent?_addBranches_of_lt {u : Nat} (h : u < s.tasks.length) :
    (s.addBranches t kind count branch).parent? u = s.parent? u := by
  simp [parent?, addBranches, List.getElem?_append_left h]

theorem state?_addBranches (i : Fin count) :
    (s.addBranches t kind count branch).state? (s.tasks.length + i) = some (.ready (branch i)) := by
  simp [state?, addBranches]

theorem parent?_addBranches (i : Fin count) :
    (s.addBranches t kind count branch).parent? (s.tasks.length + i) = some t := by
  simp [parent?, addBranches]

/-- Each task is one that was there before or a branch. -/
theorem lt_or_exists_of_addBranches {u : Nat} {st : TaskState σ}
    (h : (s.addBranches t kind count branch).state? u = some st) :
    u < s.tasks.length ∨ ∃ i : Fin count, u = s.tasks.length + i := by
  have hlt := lt_length_of_state? h
  simp only [addBranches, List.length_append, List.length_map, List.length_finRange] at hlt
  by_cases hu : u < s.tasks.length
  · exact .inl hu
  · exact .inr ⟨⟨u - s.tasks.length, by omega⟩, by simp only; omega⟩

theorem record_forked {next : Joined → Process σ} (h : t < s.tasks.length) :
    s.record t (.forked kind count branch next) =
      ((s.addBranches t kind count branch).enqueue
        (((List.range count).map (s.tasks.length + ·)).map .resume)).setState t
          (.joining s.tasks.length count ((List.range count).map (s.tasks.length + ·)) false
            next) := by
  simp [record, setState, enqueue, addBranches, modify_append h]

end AddBranches

@[simp] theorem state?_release (s : Schedule σ) (t u : Nat) :
    (s.release t).state? u = s.state? u := by
  simp only [state?, release, List.getElem?_map, Option.map_map]
  congr 1
  funext e
  simp only [Function.comp]
  split <;> rfl

theorem parent?_release_of_ne {s : Schedule σ} {t u v : Nat} (h : s.parent? u = some v)
    (hv : v ≠ t) : (s.release t).parent? u = some v := by
  simp only [parent?, release, List.getElem?_map] at h ⊢
  cases hu : s.tasks[u]? with
  | none => simp [hu] at h
  | some e =>
    have he : e.parent = some v := by simpa [hu] using h
    simp [he, hv]

theorem parent?_release_of_none {s : Schedule σ} {t u : Nat} (h : s.parent? u = none) :
    (s.release t).parent? u = none := by
  simp only [parent?, release, List.getElem?_map] at h ⊢
  cases hu : s.tasks[u]? with
  | none => simp
  | some e =>
    have he : e.parent = none := by simpa [hu] using h
    simp [he]

/-! ### Tidy schedules -/

/-- Is `b` a branch that the task `t` still waits for, one of those from the first on? -/
structure IsBranch (s : Schedule σ) (t first count b : Nat) : Prop where
  above : t < b
  first_le : first ≤ b
  lt_end : b < first + count
  parent : s.parent? b = some t
  kept : s.state? b ≠ some .dropped

/-- The turns that a task in a state cannot do without. -/
inductive Needs (s : Schedule σ) (t : Nat) : TaskState σ → Turn → Prop
  | resume {p : Process σ} : Needs s t (.ready p) (.resume t)
  /-- No alarm will ring for the task. -/
  | wake {p : Process σ} (h : ∀ a ∈ s.alarms.all, a.event = .wake t → a.off = true) :
      Needs s t (.asleep p) (.wake t)
  | gather {first count : Nat} {awaited : List Nat} {next : Joined → Process σ} :
      Needs s t (.joining first count awaited true next) (.gather t)
  | announce {first count b : Nat} {awaited : List Nat} {next : Joined → Process σ} {o : Outcome}
      (hb : b ∈ awaited) (ho : s.outcome? b = some o) :
      Needs s t (.joining first count awaited false next) (.announce b)

namespace Needs

variable {s : Schedule σ} {t v : Nat} {st : TaskState σ}

theorem eq_of_resume (h : s.Needs v st (.resume t)) : v = t ∧ ∃ p, st = .ready p := by
  cases h
  exact ⟨rfl, _, rfl⟩

theorem eq_of_wake (h : s.Needs v st (.wake t)) : v = t ∧ ∃ p, st = .asleep p := by
  cases h
  exact ⟨rfl, _, rfl⟩

theorem eq_of_gather (h : s.Needs v st (.gather t)) :
    v = t ∧ ∃ first count awaited next, st = .joining first count awaited true next := by
  cases h
  exact ⟨rfl, _, _, _, _, rfl⟩

theorem eq_of_announce {b : Nat} (h : s.Needs v st (.announce b)) :
    ∃ first count awaited next, b ∈ awaited ∧ st = .joining first count awaited false next := by
  cases h with
  | announce hb => exact ⟨_, _, _, _, hb, rfl⟩

end Needs

/-- Is each task taken care of, apart from the exempt one, by the turns of the round and the queue? -/
structure Tidy (exempt : Option Nat) (turns : List Turn) (s : Schedule σ) : Prop where
  orphan : s.parent? 0 = none
  kept : s.state? 0 ≠ some .dropped
  released : ∀ t, .release t ∈ turns ++ s.queue → s.state? t = some .dropped
  bells : ∀ a ∈ s.alarms.all, ∀ t, a.event ≠ .release t
  needed : ∀ t st u, some t ≠ exempt → s.state? t = some st → s.Needs t st u → u ∈ turns ++ s.queue
  branches : ∀ t first count awaited due next, some t ≠ exempt →
    s.state? t = some (.joining first count awaited due next) →
      (∀ b ∈ awaited, s.IsBranch t first count b) ∧ (due = false → awaited ≠ [])

namespace Tidy

variable {s : Schedule σ} {turns : List Turn} {t : Nat} {x : Option Nat}

/-- A turn that no other task needs may go. -/
theorem pass {u : Turn} (h : Tidy none (u :: turns) s)
    (hu : ∀ t st, some t ≠ x → s.state? t = some st → ¬ s.Needs t st u) : Tidy x turns s where
  orphan := h.orphan
  kept := h.kept
  released t ht := h.released t (List.mem_cons_of_mem _ ht)
  bells := h.bells
  needed t st v hx hst hv := by
    rcases List.mem_cons.mp (h.needed t st v (by simp) hst hv) with rfl | hmem
    · exact absurd hv (hu t st hx hst)
    · exact hmem
  branches t _ _ _ _ _ _ hst := h.branches t _ _ _ _ _ (by simp) hst

/-- A schedule with the same tasks is tidy as well if the turns that they need are still there, or the
alarms for them. -/
theorem of_tasks_eq (h : Tidy x turns s) {s' : Schedule σ} {turns' : List Turn}
    (htasks : s'.tasks = s.tasks)
    (hreleased : ∀ t, .release t ∈ turns' ++ s'.queue → .release t ∈ turns ++ s.queue)
    (hbells : ∀ a ∈ s'.alarms.all, ∀ t, a.event ≠ .release t)
    (hmem : ∀ u ∈ turns ++ s.queue, u ∈ turns' ++ s'.queue)
    (hwake : ∀ t, (∀ a ∈ s'.alarms.all, a.event = .wake t → a.off = true) →
      (∀ a ∈ s.alarms.all, a.event = .wake t → a.off = true) ∨ .wake t ∈ turns' ++ s'.queue) :
    Tidy x turns' s' := by
  obtain ⟨world, tasks, queue, alarms⟩ := s'
  obtain rfl : tasks = s.tasks := htasks
  refine ⟨h.orphan, h.kept, fun t ht => h.released t (hreleased t ht), hbells, ?_, ?_⟩
  · intro t st u hx hst hu
    have hold (hn : s.Needs t st u) : u ∈ turns' ++ queue := hmem u (h.needed t st u hx hst hn)
    cases hu with
    | resume => exact hold .resume
    | wake ha =>
      rcases hwake t ha with ha | hrung
      · exact hold (.wake ha)
      · exact hrung
    | gather => exact hold .gather
    | announce hb ho => exact hold (.announce hb ho)
  · intro t first count awaited due next hx hst
    obtain ⟨hb, hne⟩ := h.branches t _ _ _ _ _ hx hst
    refine ⟨?_, hne⟩
    intro b hmem
    obtain ⟨above, first_le, lt_end, parent, kept⟩ := hb b hmem
    exact ⟨above, first_le, lt_end, parent, kept⟩

/-- The world does not matter, nor in which order the turns are taken. -/
theorem congr (h : Tidy x turns s) {s' : Schedule σ} {turns' : List Turn} (htasks : s'.tasks = s.tasks)
    (halarms : s'.alarms = s.alarms) (hmem : ∀ u, u ∈ turns' ++ s'.queue ↔ u ∈ turns ++ s.queue) :
    Tidy x turns' s' := by
  refine h.of_tasks_eq htasks (fun t => (hmem _).mp) ?_ (fun u => (hmem u).mpr) ?_
  · rw [halarms]
    exact h.bells
  · intro t ha
    rw [halarms] at ha
    exact .inl ha

theorem enqueue (h : Tidy x turns s) (more : List Turn) (hmore : ∀ t, .release t ∉ more) :
    Tidy x turns (s.enqueue more) := by
  have hqueue : turns ++ (s.enqueue more).queue = (turns ++ s.queue) ++ more :=
    (List.append_assoc ..).symm
  refine h.of_tasks_eq rfl ?_ h.bells ?_ fun t ha => .inl ha
  · intro t ht
    rw [hqueue] at ht
    exact (List.mem_append.mp ht).resolve_right (hmore t)
  · intro u hu
    rw [hqueue]
    exact List.mem_append_left _ hu

theorem withWorld (h : Tidy x turns s) (w : World σ) : Tidy x turns { s with world := w } :=
  h.congr rfl rfl fun _ => Iff.rfl

/-- The exempt task takes a new state, and gets the turn that it needs then. -/
theorem setState (h : Tidy (some t) turns s) {st : TaskState σ} (hlive : s.state? t ≠ some .dropped)
    (hst : st ≠ .dropped)
    (hended : ∀ o u, st = .ended o → s.parent? t = some u → .announce t ∈ turns ++ s.queue)
    (hneeds : ∀ u, (s.setState t st).Needs t st u → u ∈ turns ++ s.queue)
    (hbranches : ∀ first count awaited due next, st = .joining first count awaited due next →
      (∀ b ∈ awaited, s.IsBranch t first count b) ∧ (due = false → awaited ≠ [])) :
    Tidy none turns (s.setState t st) := by
  have hkept {b : Nat} (hb : s.state? b ≠ some .dropped) :
      (s.setState t st).state? b ≠ some .dropped := by
    intro hd
    rcases state?_setState_cases hd with ⟨-, heq⟩ | ⟨-, hd⟩
    · exact hst heq.symm
    · exact hb hd
  have hbranch {u first count b : Nat} (hb : s.IsBranch u first count b) :
      (s.setState t st).IsBranch u first count b :=
    ⟨hb.above, hb.first_le, hb.lt_end, by simpa using hb.parent, hkept hb.kept⟩
  refine ⟨by simpa using h.orphan, hkept h.kept, ?_, h.bells, ?_, ?_⟩
  · intro u hu
    have hd := h.released u hu
    have hne : u ≠ t := by
      rintro rfl
      exact hlive hd
    rwa [state?_setState_of_ne s st hne]
  · intro u st' v _ hst' hv
    rcases state?_setState_cases hst' with ⟨rfl, rfl⟩ | ⟨hu, hold⟩
    · exact hneeds v hv
    · have hx : some u ≠ some t := by simpa using hu
      cases hv with
      | resume => exact h.needed u _ _ hx hold .resume
      | wake ha => exact h.needed u _ _ hx hold (.wake ha)
      | gather => exact h.needed u _ _ hx hold .gather
      | @announce first count b awaited next o hb ho =>
        rcases state?_setState_cases (outcome?_eq_some_iff.mp ho) with ⟨rfl, heq⟩ | ⟨-, ho⟩
        · -- the task has ended just now, and its end is announced
          exact hended o u heq.symm ((h.branches u _ _ _ _ _ hx hold).1 _ hb).parent
        · exact h.needed u _ _ hx hold (.announce hb (outcome?_eq_some_iff.mpr ho))
  · intro u first count awaited due next _ hst'
    rcases state?_setState_cases hst' with ⟨rfl, rfl⟩ | ⟨hu, hold⟩
    · obtain ⟨hb, hne⟩ := hbranches _ _ _ _ _ rfl
      exact ⟨fun b hmem => hbranch (hb b hmem), hne⟩
    · obtain ⟨hb, hne⟩ := h.branches u _ _ _ _ _ (by simpa using hu) hold
      exact ⟨fun b hmem => hbranch (hb b hmem), hne⟩

theorem setAlarm (h : Tidy x turns s) (seconds : Binary64) : Tidy x turns (s.setAlarm seconds t) := by
  refine h.of_tasks_eq rfl (fun _ hu => hu) ?_ (fun _ hu => hu) ?_
  · intro a ha u
    rcases Alarms.mem_add.mp ha with rfl | ha
    · simp
    · exact h.bells a ha u
  · intro u ha
    exact .inl fun a hmem => ha a (Alarms.mem_add.mpr (.inr hmem))

/-- Branches are added, each with a turn to begin. -/
theorem addBranches (h : Tidy x turns s) (ht : t < s.tasks.length) (kind : Fork) (count : Nat)
    (branch : Fin count → Process σ) :
    Tidy x turns ((s.addBranches t kind count branch).enqueue
      (((List.range count).map (s.tasks.length + ·)).map .resume)) := by
  have hlt {u : Nat} (hu : u < s.tasks.length) : ((s.addBranches t kind count branch).enqueue
      (((List.range count).map (s.tasks.length + ·)).map .resume)).state? u = s.state? u :=
    state?_addBranches_of_lt s t kind count branch hu
  have hqueue {u : Turn} (hu : u ∈ turns ++ s.queue) : u ∈ turns ++ ((s.addBranches t kind count
      branch).enqueue (((List.range count).map (s.tasks.length + ·)).map .resume)).queue := by
    rw [Schedule.enqueue, ← List.append_assoc]
    exact List.mem_append_left _ hu
  refine ⟨?_, ?_, ?_, h.bells, ?_, ?_⟩
  · exact (parent?_addBranches_of_lt s t kind count branch (by omega)).trans h.orphan
  · rw [hlt (by omega)]
    exact h.kept
  · intro u hu
    rw [Schedule.enqueue, ← List.append_assoc] at hu
    have hd := h.released u ((List.mem_append.mp hu).resolve_right (by simp))
    rwa [hlt (lt_length_of_state? hd)]
  · intro u st v hx hst hv
    rcases lt_or_exists_of_addBranches s t kind count branch hst with hu | ⟨i, rfl⟩
    · rw [hlt hu] at hst
      cases hv with
      | resume => exact hqueue (h.needed u _ _ hx hst .resume)
      | wake ha => exact hqueue (h.needed u _ _ hx hst (.wake ha))
      | gather => exact hqueue (h.needed u _ _ hx hst .gather)
      | @announce first count' b awaited next o hb ho =>
        -- an awaited branch was there before
        have hp := ((h.branches u _ _ _ _ _ hx hst).1 b hb).parent
        obtain ⟨st', hst'⟩ := exists_state?_of_parent? hp
        rw [outcome?_eq_some_iff, hlt (lt_length_of_state? hst')] at ho
        exact hqueue (h.needed u _ _ hx hst (.announce hb (outcome?_eq_some_iff.mpr ho)))
    · have hready : st = .ready (branch i) :=
        Option.some.inj (hst.symm.trans (state?_addBranches s t kind count branch i))
      subst hready
      cases hv with
      | resume =>
        simp only [Schedule.enqueue, List.mem_append, List.mem_map, List.mem_range]
        exact .inr (.inr ⟨_, ⟨i, i.isLt, rfl⟩, rfl⟩)
  · intro u first count' awaited due next hx hst
    rcases lt_or_exists_of_addBranches s t kind count branch hst with hu | ⟨i, rfl⟩
    · rw [hlt hu] at hst
      obtain ⟨hb, hne⟩ := h.branches u _ _ _ _ _ hx hst
      refine ⟨?_, hne⟩
      intro b hmem
      obtain ⟨above, first_le, lt_end, parent, kept⟩ := hb b hmem
      obtain ⟨st', hst'⟩ := exists_state?_of_parent? parent
      have hblt := lt_length_of_state? hst'
      exact ⟨above, first_le, lt_end,
        (parent?_addBranches_of_lt s t kind count branch hblt).trans parent, by rwa [hlt hblt]⟩
    · have hready := hst.symm.trans (state?_addBranches s t kind count branch i)
      simp at hready

/-- The exempt task waits for branches that it has just forked. -/
theorem fork (h : Tidy (some t) turns s) {st : TaskState σ} (hst : s.state? t = some st)
    (hlive : st ≠ .dropped) {kind : Fork} {count : Nat} (hcount : count ≠ 0)
    (branch : Fin count → Process σ) (next : Joined → Process σ) :
    Tidy none turns (s.record t (.forked kind count branch next)) := by
  have hlt := lt_length_of_state? hst
  have hready (i : Nat) (hi : i < count) := state?_addBranches s t kind count branch ⟨i, hi⟩
  rw [record_forked s t kind count branch hlt]
  refine (h.addBranches hlt kind count branch).setState ?_ (by simp) (by simp) ?_ ?_
  · intro hd
    have hold := (state?_addBranches_of_lt s t kind count branch hlt).symm.trans hd
    exact hlive (Option.some.inj (hst.symm.trans hold))
  · intro u hu
    cases hu with
    | @announce _ _ b _ _ o hb ho =>
      -- the branches have not ended
      obtain ⟨i, hi, rfl⟩ := List.mem_map.mp hb
      rw [outcome?_eq_some_iff, state?_setState_of_ne _ _ (by omega)] at ho
      have := ho.symm.trans (hready i (List.mem_range.mp hi))
      simp at this
  · intro first count' awaited due next' heq
    simp only [TaskState.joining.injEq] at heq
    obtain ⟨rfl, rfl, rfl, rfl, rfl⟩ := heq
    refine ⟨?_, by simpa using hcount⟩
    intro b hb
    obtain ⟨i, hi, rfl⟩ := List.mem_map.mp hb
    have hi := List.mem_range.mp hi
    refine ⟨by omega, by omega, by omega, parent?_addBranches s t kind count branch ⟨i, hi⟩, ?_⟩
    intro hd
    have := hd.symm.trans (hready i hi)
    simp at this

/-- Noting why the exempt task pauses leaves it with the turn, the alarm or the branches that it
waits for. -/
theorem record (h : Tidy (some t) turns s) {st : TaskState σ} (hst : s.state? t = some st)
    (hlive : st ≠ .dropped) {pause : Pause σ}
    (hpause : ∀ kind branch next, pause ≠ .forked kind 0 branch next) :
    Tidy none turns (s.record t pause) := by
  have hnot : s.state? t ≠ some .dropped := by simpa [hst] using hlive
  cases pause with
  | ended o =>
    have hneeds (s' : Schedule σ) (u : Turn) : ¬ s'.Needs t (.ended o) u := by
      intro hu
      cases hu
    have hparent : ((s.setState t (.ended o)).tasks[t]?).bind (·.parent) = s.parent? t :=
      parent?_setState s t t _
    simp only [Schedule.record, hparent]
    cases hp : s.parent? t with
    | none =>
      exact h.setState hnot (by simp) (by simp [hp]) (fun u hu => absurd hu (hneeds _ u)) (by simp)
    | some u =>
      refine (h.enqueue [.announce t] (by simp)).setState hnot (by simp) ?_
        (fun u hu => absurd hu (hneeds _ u)) (by simp)
      intro _ _ _ _
      simp [Schedule.enqueue]
  | yielded rest =>
    refine (h.enqueue [.resume t] (by simp)).setState hnot (by simp) (by simp) ?_ (by simp)
    intro u hu
    cases hu with
    | resume => simp [Schedule.enqueue]
  | asleep seconds rest =>
    refine (h.setAlarm (t := t) seconds).setState hnot (by simp) (by simp) ?_ (by simp)
    intro u hu
    cases hu with
    | wake ha =>
      -- the alarm has just been set
      exact absurd (ha _ (Alarms.mem_add.mpr (.inl rfl)) rfl) (by simp)
  | forked kind count branch next =>
    refine h.fork hst hlive ?_ branch next
    rintro rfl
    exact hpause kind branch next rfl

end Tidy

/-! ### Letting go -/

theorem state?_drop (s : Schedule σ) (b u : Nat) : (s.drop b).state? u =
    if u = b then (s.state? u).map fun _ => .dropped else s.state? u := by
  unfold drop
  split <;> exact state?_setState s b u _

theorem state?_drop_of_ne (s : Schedule σ) {b u : Nat} (h : u ≠ b) :
    (s.drop b).state? u = s.state? u := by
  rw [state?_drop, if_neg h]

/-- A task that is not dropped was in the same state before. -/
theorem state?_of_drop {s : Schedule σ} {b u : Nat} {st : TaskState σ}
    (h : (s.drop b).state? u = some st) (hst : st ≠ .dropped) : s.state? u = some st := by
  by_cases hu : u = b
  · rw [state?_drop, if_pos hu] at h
    obtain ⟨_, _, rfl⟩ := Option.map_eq_some_iff.mp h
    exact absurd rfl hst
  · rwa [state?_drop_of_ne s hu] at h

@[simp] theorem length_drop (s : Schedule σ) (b : Nat) :
    (s.drop b).tasks.length = s.tasks.length := by
  unfold drop
  split <;> simp [setState, enqueue]

@[simp] theorem parent?_drop (s : Schedule σ) (b u : Nat) : (s.drop b).parent? u = s.parent? u := by
  unfold drop
  split <;> exact parent?_setState s b u _

@[simp] theorem alarms_drop (s : Schedule σ) (b : Nat) : (s.drop b).alarms = s.alarms := by
  unfold drop
  split <;> rfl

@[simp] theorem world_drop (s : Schedule σ) (b : Nat) : (s.drop b).world = s.world := by
  unfold drop
  split <;> rfl

/-- A dropped task is released in a turn of its own, if in any. -/
theorem mem_queue_drop {s : Schedule σ} {b : Nat} {u : Turn} :
    u ∈ (s.drop b).queue → u ∈ s.queue ∨ u = .release b := by
  unfold drop
  split <;> simp_all [Schedule.enqueue, Schedule.setState]

theorem queue_subset_drop (s : Schedule σ) (b : Nat) {u : Turn} (h : u ∈ s.queue) :
    u ∈ (s.drop b).queue := by
  unfold drop
  split <;> simp_all [Schedule.enqueue, Schedule.setState]

/-- What holds of a schedule, and is kept as branches are dropped, holds when they are abandoned. -/
theorem abandon_induction {P : Schedule σ → Prop} {s : Schedule σ} {tasks : List Nat} (cancel : Bool)
    (h : P s) (hdrop : ∀ s, P s → ∀ b ∈ tasks, P (s.drop b)) : P (s.abandon cancel tasks) := by
  unfold abandon
  split
  · induction tasks generalizing s with
    | nil => exact h
    | cons b tasks ih =>
      exact ih (hdrop s h b (List.mem_cons_self ..))
        fun s hs c hc => hdrop s hs c (List.mem_cons_of_mem _ hc)
  · exact h

theorem state?_abandon_of_not_mem (s : Schedule σ) (cancel : Bool) {tasks : List Nat} {u : Nat}
    (h : u ∉ tasks) : (s.abandon cancel tasks).state? u = s.state? u := by
  refine abandon_induction (P := fun s' => s'.state? u = s.state? u) cancel rfl ?_
  intro s' hs' b hb
  rw [state?_drop_of_ne s' (by rintro rfl; exact h hb), hs']

namespace Tidy

variable {s : Schedule σ} {turns : List Turn} {t : Nat} {x : Option Nat}

/-- A branch of the exempt task may be dropped. -/
theorem drop (h : Tidy (some t) turns s) {b : Nat} (hb : s.parent? b = some t) :
    Tidy (some t) turns (s.drop b) := by
  have hne {u v : Nat} (hv : some v ≠ some t) (hu : s.parent? u = some v) : u ≠ b := by
    rintro rfl
    exact hv (hu.symm.trans hb)
  refine ⟨by simpa using h.orphan, ?_, ?_, by simpa using h.bells, ?_, ?_⟩
  · have h0 : 0 ≠ b := by
      rintro rfl
      simp [h.orphan] at hb
    rw [state?_drop_of_ne s h0]
    exact h.kept
  · intro u hu
    by_cases hub : u = b
    · obtain ⟨st, hst⟩ := exists_state?_of_parent? hb
      rw [state?_drop, if_pos hub, hub, hst]
      rfl
    · rw [state?_drop_of_ne s hub]
      refine h.released u ?_
      rcases List.mem_append.mp hu with hu | hu
      · exact List.mem_append_left _ hu
      · rcases mem_queue_drop hu with hu | hu
        · exact List.mem_append_right _ hu
        · exact absurd (Turn.release.inj hu) hub
  · intro u st v hx hst hv
    have hmem : v ∈ turns ++ s.queue := by
      cases hv with
      | resume => exact h.needed u _ _ hx (state?_of_drop hst (by simp)) .resume
      | wake ha => exact h.needed u _ _ hx (state?_of_drop hst (by simp)) (.wake (by simpa using ha))
      | gather => exact h.needed u _ _ hx (state?_of_drop hst (by simp)) .gather
      | @announce first count c awaited next o hc ho =>
        rw [outcome?_eq_some_iff] at ho
        exact h.needed u _ _ hx (state?_of_drop hst (by simp))
          (.announce hc (outcome?_eq_some_iff.mpr (state?_of_drop ho (by simp))))
    rcases List.mem_append.mp hmem with hmem | hmem
    · exact List.mem_append_left _ hmem
    · exact List.mem_append_right _ (queue_subset_drop s b hmem)
  · intro u first count awaited due next hx hst
    obtain ⟨hbr, hempty⟩ := h.branches u _ _ _ _ _ hx (state?_of_drop hst (by simp))
    refine ⟨?_, hempty⟩
    intro c hc
    obtain ⟨above, first_le, lt_end, parent, kept⟩ := hbr c hc
    exact ⟨above, first_le, lt_end, by simpa using parent,
      by rwa [state?_drop_of_ne s (hne hx parent)]⟩

theorem abandon (h : Tidy (some t) turns s) (cancel : Bool) {tasks : List Nat}
    (hb : ∀ b ∈ tasks, s.parent? b = some t) : Tidy (some t) turns (s.abandon cancel tasks) := by
  have hall : Tidy (some t) turns (s.abandon cancel tasks) ∧
      ∀ b ∈ tasks, (s.abandon cancel tasks).parent? b = some t := by
    refine abandon_induction
      (P := fun s' => Tidy (some t) turns s' ∧ ∀ b ∈ tasks, s'.parent? b = some t) cancel ⟨h, hb⟩ ?_
    intro s' hs' b hmem
    exact ⟨hs'.1.drop (hs'.2 b hmem), fun c hc => by simpa using hs'.2 c hc⟩
  exact hall.1

/-- A dropped task may let go. -/
theorem release (h : Tidy none turns s) (ht : s.state? t = some .dropped) :
    Tidy none turns (s.release t) := by
  refine ⟨parent?_release_of_none h.orphan, by simpa using h.kept,
    fun u hu => (state?_release s t u).trans (h.released u hu), ?_, ?_, ?_⟩
  · intro a ha u
    obtain ⟨b, hb, rfl⟩ := Alarms.mem_callOff.mp ha
    have := h.bells b hb u
    split <;> exact this
  · intro u st v hx hst hv
    rw [state?_release] at hst
    refine h.needed u st v hx hst ?_
    cases hv with
    | resume => exact .resume
    | wake ha =>
      have hne : u ≠ t := by
        rintro rfl
        simp [ht] at hst
      refine .wake fun a hmem heq => ha a (Alarms.mem_callOff.mpr ⟨a, hmem, ?_⟩) heq
      rw [if_neg (by simpa [heq] using hne)]
    | gather => exact .gather
    | announce hb ho =>
      rw [outcome?_eq_some_iff, state?_release] at ho
      exact .announce hb (outcome?_eq_some_iff.mpr ho)
  · intro u first count awaited due next hx hst
    rw [state?_release] at hst
    have hne : u ≠ t := by
      rintro rfl
      simp [ht] at hst
    obtain ⟨hb, hempty⟩ := h.branches u _ _ _ _ _ hx hst
    refine ⟨?_, hempty⟩
    intro b hmem
    obtain ⟨above, first_le, lt_end, parent, kept⟩ := hb b hmem
    exact ⟨above, first_le, lt_end, parent?_release_of_ne parent hne, by simpa using kept⟩

end Tidy

/-! ### Turns and rounds -/

/-- A process never pauses for no branches. -/
theorem advance_ne_forked (p : Process σ) (w : World σ) (kind : Fork) (branch : Fin 0 → Process σ)
    (next : Joined → Process σ) : (p.advance w).2 ≠ .forked kind 0 branch next := by
  induction p generalizing w with
  | done o => simp [Process.advance]
  | look next ih => exact ih w w
  | act e next ih => exact ih _
  | wait seconds next ih =>
    rw [Process.advance]
    split <;> simp
  | nap place r next ih =>
    rw [Process.advance]
    split
    · exact ih true w
    · split
      · simp
      · exact ih false w
  | fork kind' count branch' next' _ ih =>
    rw [Process.advance]
    split
    · exact ih (.ok []) w
    · rename_i hne
      intro heq
      simp only [Pause.forked.injEq] at heq
      exact hne heq.2.1

/-- The failure of the first branch that is gathered and has failed. -/
theorem firstFailure?_eq_some {s : Schedule σ} {tasks : List Nat} {t : Nat} {f : Failure}
    (h : s.firstFailure? tasks = some (t, f)) :
    t ∈ tasks ∧ s.state? t = some (.ended (.error f)) := by
  obtain ⟨u, hu, heq⟩ := List.exists_of_findSome?_eq_some h
  split at heq
  · rename_i g hg
    obtain ⟨rfl, rfl⟩ : u = t ∧ g = f := by simpa using heq
    exact ⟨hu, outcome?_eq_some_iff.mp hg⟩
  · simp at heq

theorem firstFailure?_eq_none {s : Schedule σ} {tasks : List Nat}
    (h : s.firstFailure? tasks = none) {t : Nat} (ht : t ∈ tasks) {o : Outcome}
    (ho : s.outcome? t = some o) : ∃ v, o = .ok v := by
  have := List.findSome?_eq_none_iff.mp h t ht
  cases o with
  | ok v => exact ⟨v, rfl⟩
  | error f => simp [ho] at this

/-- What holds of a schedule with turns that are still to be taken, and is kept by each turn, holds
when all of them have been taken. -/
theorem foldl_take_induction {P : List Turn → Schedule σ → Prop} (cancel : Bool)
    (htake : ∀ u turns s, P (u :: turns) s → P turns (s.take cancel u)) {turns : List Turn}
    {s : Schedule σ} (h : P turns s) : P [] (turns.foldl (take cancel) s) := by
  induction turns generalizing s with
  | nil => exact h
  | cons u turns ih => exact ih (htake u turns s h)

/-- A task that joins its branches gathers them, and either goes on or waits for the others. -/
theorem gather_cases (s : Schedule σ) (cancel : Bool) (t first count : Nat) (awaited : List Nat)
    (next : Joined → Process σ) :
    (∃ b f, b ∈ awaited ∧ s.state? b = some (.ended (.error f)) ∧
      s.gather cancel t first count awaited next =
        (s.abandon cancel (awaited.filter fun t => (s.outcome? t).isNone)).proceed t
          (next (.error (b - first, f)))) ∨
    ((∀ b ∈ awaited, ∃ v, s.state? b = some (.ended (.ok v))) ∧
      s.gather cancel t first count awaited next =
        s.proceed t (next (.ok (s.valuesOf ((List.range count).map (first + ·)))))) ∨
    (∃ pending, pending ≠ [] ∧ (∀ b, b ∈ pending ↔ b ∈ awaited ∧ s.outcome? b = none) ∧
      (∀ b ∈ awaited, b ∉ pending → ∃ v, s.state? b = some (.ended (.ok v))) ∧
      s.gather cancel t first count awaited next =
        s.setState t (.joining first count pending false next)) := by
  unfold gather
  have hended {b : Nat} (hf : s.firstFailure? awaited = none) (hb : b ∈ awaited)
      (ho : s.outcome? b ≠ none) : ∃ v, s.state? b = some (.ended (.ok v)) := by
    obtain ⟨o, ho⟩ := Option.ne_none_iff_exists'.mp ho
    obtain ⟨v, rfl⟩ := firstFailure?_eq_none hf hb ho
    exact ⟨v, outcome?_eq_some_iff.mp ho⟩
  cases hf : s.firstFailure? awaited with
  | some bf =>
    obtain ⟨b, f⟩ := bf
    obtain ⟨hb, hst⟩ := firstFailure?_eq_some hf
    exact .inl ⟨b, f, hb, hst, rfl⟩
  | none =>
    refine .inr ?_
    simp only
    split
    · rename_i hnil
      refine .inl ⟨fun b hb => hended hf hb ?_, rfl⟩
      intro ho
      have := List.filter_eq_nil_iff.mp (List.isEmpty_iff.mp hnil) b hb
      simp [ho] at this
    · rename_i hne
      refine .inr ⟨_, by simpa using hne, fun b => by simp, fun b hb hnot => hended hf hb ?_, rfl⟩
      intro ho
      exact hnot (by simp [hb, ho])

namespace Tidy

variable {s : Schedule σ} {turns : List Turn} {t : Nat}

theorem proceed (h : Tidy (some t) turns s) {st : TaskState σ} (hst : s.state? t = some st)
    (hlive : st ≠ .dropped) (p : Process σ) : Tidy none turns (s.proceed t p) :=
  (h.withWorld (p.advance s.world).1).record hst hlive (advance_ne_forked p s.world)

theorem gather (h : Tidy (some t) turns s) (cancel : Bool) {first count : Nat} {awaited : List Nat}
    {due : Bool} {next : Joined → Process σ}
    (hst : s.state? t = some (.joining first count awaited due next))
    (hb : ∀ b ∈ awaited, s.IsBranch t first count b) :
    Tidy none turns (s.gather cancel t first count awaited next) := by
  rcases gather_cases s cancel t first count awaited next with
    ⟨b, f, -, -, heq⟩ | ⟨-, heq⟩ | ⟨pending, hne, hmem, -, heq⟩
  · rw [heq]
    have hparent : ∀ c ∈ awaited.filter (fun t => (s.outcome? t).isNone), s.parent? c = some t :=
      fun c hc => (hb c (List.mem_of_mem_filter hc)).parent
    have hnot : t ∉ awaited.filter (fun t => (s.outcome? t).isNone) :=
      fun hc => Nat.lt_irrefl t (hb t (List.mem_of_mem_filter hc)).above
    have hst' := (state?_abandon_of_not_mem s cancel hnot).trans hst
    exact (h.abandon cancel hparent).proceed hst' (by simp) _
  · rw [heq]
    exact h.proceed hst (by simp) _
  · rw [heq]
    refine h.setState (by simp [hst]) (by simp) (by simp) ?_ ?_
    · intro u hu
      cases hu with
      | @announce _ _ b _ _ o hb' ho =>
        -- what is pending has not ended
        obtain ⟨hba, hnone⟩ := (hmem b).mp hb'
        have hbt := (hb b hba).above
        rw [outcome?_eq_some_iff, state?_setState_of_ne s _ (by omega), ← outcome?_eq_some_iff,
          hnone] at ho
        cases ho
    · intro first' count' awaited' due' next' heq'
      simp only [TaskState.joining.injEq] at heq'
      obtain ⟨rfl, rfl, rfl, rfl, rfl⟩ := heq'
      exact ⟨fun b hp => hb b ((hmem b).mp hp).1, fun _ => hne⟩

/-- The task takes the turn that it needs, or the turn is void. -/
theorem take_resume (cancel : Bool) (h : Tidy none (.resume t :: turns) s) :
    Tidy none turns (s.take cancel (.resume t)) := by
  simp only [Schedule.take]
  split
  · rename_i p hst
    refine (h.pass fun v st hv _ hn => ?_).proceed hst (by simp) p
    exact hv (congrArg some hn.eq_of_resume.1)
  · rename_i hno
    apply h.pass
    intro v st _ hst hn
    obtain ⟨rfl, p, rfl⟩ := hn.eq_of_resume
    exact hno p hst

/-- An alarm wakes its task, which needs a turn to go on then. -/
theorem take_wake (cancel : Bool) (h : Tidy none (.wake t :: turns) s) :
    Tidy none turns (s.take cancel (.wake t)) := by
  simp only [Schedule.take]
  split
  · rename_i p hst
    have hpass : Tidy (some t) turns s :=
      h.pass fun v st hv _ hn => hv (congrArg some hn.eq_of_wake.1)
    refine (hpass.enqueue [.resume t] (by simp)).setState ?_ (by simp) (by simp) ?_ (by simp)
    · show s.state? t ≠ some .dropped
      simp [hst]
    · intro u hu
      cases hu
      simp [Schedule.enqueue]
  · rename_i hno
    apply h.pass
    intro v st _ hst hn
    obtain ⟨rfl, p, rfl⟩ := hn.eq_of_wake
    exact hno p hst

/-- The end of a branch is announced to the task that waits for it, which needs a turn to gather it
then. -/
theorem take_announce (cancel : Bool) {b : Nat} (h : Tidy none (.announce b :: turns) s) :
    Tidy none turns (s.take cancel (.announce b)) := by
  have hparent {v : Nat} {first count : Nat} {awaited : List Nat} {next : Joined → Process σ}
      (hst : s.state? v = some (.joining first count awaited false next)) (hb : b ∈ awaited) :
      s.parent? b = some v := ((h.branches v _ _ _ _ _ (by simp) hst).1 b hb).parent
  have hvoid (hno : ∀ v, s.parent? b = some v → ∀ first count awaited next, b ∈ awaited →
      s.state? v ≠ some (.joining first count awaited false next)) : Tidy none turns s := by
    apply h.pass
    intro v st _ hst hn
    obtain ⟨first, count, awaited, next, hb, rfl⟩ := hn.eq_of_announce
    exact hno v (hparent hst hb) _ _ _ _ hb hst
  simp only [Schedule.take]
  split
  · rename_i t hp
    have hp : s.parent? b = some t := hp
    split
    · rename_i first count awaited next hst
      split
      · have hpass : Tidy (some t) turns s := by
          refine h.pass fun v st hv hst hn => hv ?_
          obtain ⟨_, _, _, _, hb, rfl⟩ := hn.eq_of_announce
          exact (hparent hst hb).symm.trans hp
        obtain ⟨hbr, -⟩ := h.branches t _ _ _ _ _ (by simp) hst
        refine (hpass.enqueue [.gather t] (by simp)).setState ?_ (by simp) (by simp) ?_ ?_
        · show s.state? t ≠ some .dropped
          simp [hst]
        · intro u hu
          cases hu
          simp [Schedule.enqueue]
        · intro first' count' awaited' due' next' heq
          simp only [TaskState.joining.injEq] at heq
          obtain ⟨rfl, rfl, rfl, rfl, rfl⟩ := heq
          refine ⟨?_, by simp⟩
          intro c hc
          obtain ⟨above, first_le, lt_end, parent, kept⟩ := hbr c hc
          exact ⟨above, first_le, lt_end, parent, kept⟩
      · rename_i hnot
        refine hvoid fun v hv first' count' awaited' next' hb hst' => hnot ?_
        obtain rfl : t = v := Option.some.inj (hp.symm.trans hv)
        simp only [hst, Option.some.injEq, TaskState.joining.injEq] at hst'
        obtain ⟨-, -, rfl, -, -⟩ := hst'
        simpa using hb
    · rename_i hno
      apply hvoid
      intro v hv first' count' awaited' next' _ hst'
      obtain rfl : t = v := Option.some.inj (hp.symm.trans hv)
      exact hno _ _ _ _ hst'
  · rename_i hp
    have hp : s.parent? b = none := hp
    exact hvoid fun v hv => by simp [hp] at hv

/-- A task gathers its branches, or lets them go if it has been dropped meanwhile. -/
theorem take_gather (cancel : Bool) (h : Tidy none (.gather t :: turns) s) :
    Tidy none turns (s.take cancel (.gather t)) := by
  simp only [Schedule.take]
  split
  · rename_i first count awaited next hst
    obtain ⟨hbr, -⟩ := h.branches t _ _ _ _ _ (by simp) hst
    refine (h.pass fun v st hv _ hn => ?_).gather cancel hst hbr
    exact hv (congrArg some hn.eq_of_gather.1)
  · rename_i hst
    refine Tidy.release (h.pass fun v st _ hst' hn => ?_) hst
    obtain ⟨rfl, _, _, _, _, rfl⟩ := hn.eq_of_gather
    simp [hst] at hst'
  · rename_i hno hno'
    apply h.pass
    intro v st _ hst hn
    obtain ⟨rfl, _, _, _, _, rfl⟩ := hn.eq_of_gather
    exact hno _ _ _ _ hst

/-- **Taking a turn** keeps a schedule tidy. -/
theorem take (cancel : Bool) {u : Turn} (h : Tidy none (u :: turns) s) :
    Tidy none turns (s.take cancel u) := by
  cases u with
  | resume t => exact h.take_resume cancel
  | wake t => exact h.take_wake cancel
  | announce b => exact h.take_announce cancel
  | gather t => exact h.take_gather cancel
  | release t =>
    have hd := h.released t (List.mem_append_left _ (List.mem_cons_self ..))
    exact Tidy.release (h.pass fun v st _ _ hn => by cases hn) hd
  | interrupt => exact (h.pass fun v st _ _ hn => by cases hn).withWorld _

theorem takeAll (h : Tidy none [] s) (cancel : Bool) : Tidy none [] (s.takeAll cancel) := by
  refine foldl_take_induction (P := Tidy none) cancel (fun u turns s hs => hs.take cancel) ?_
  exact h.congr rfl rfl fun u => by simp

/-- An alarm that has rung is a turn in the queue. -/
theorem ring (h : Tidy none [] s) : Tidy none [] s.ring := by
  obtain ⟨rung, hevents, hperm⟩ := s.alarms.exists_due (isToCome s.world.now)
  have hqueue : s.ring.queue = s.queue ++ rung.map (·.event) := by rw [← hevents]; rfl
  refine h.of_tasks_eq rfl ?_ ?_ ?_ ?_
  · intro t ht
    rw [hqueue, List.nil_append, List.mem_append, List.mem_map] at ht
    rcases ht with ht | ⟨a, ha, heq⟩
    · exact ht
    · exact absurd heq (h.bells a (hperm.mem_iff.mpr (List.mem_append_left _ ha)) t)
  · intro a ha
    exact h.bells a (hperm.mem_iff.mpr (List.mem_append_right _ ha))
  · intro u hu
    rw [hqueue, List.nil_append]
    exact List.mem_append_left _ hu
  · intro t ha
    rw [hqueue, List.nil_append]
    by_cases hr : ∃ a ∈ rung, a.event = .wake t
    · obtain ⟨a, hmem, heq⟩ := hr
      exact .inr (List.mem_append_right _ (List.mem_map.mpr ⟨a, hmem, heq⟩))
    · refine .inl ?_
      intro a hmem heq
      rcases List.mem_append.mp (hperm.mem_iff.mp hmem) with hmem | hmem
      · exact absurd ⟨a, hmem, heq⟩ hr
      · exact ha a hmem heq

theorem round (h : Tidy none [] s) (cancel : Bool) : Tidy none [] (s.round cancel) :=
  h.ring.takeAll cancel

/-- Only alarms that have been called off are forgotten. -/
theorem dropCalledOff (h : Tidy none [] s) :
    Tidy none [] { s with alarms := s.alarms.dropCalledOff } := by
  obtain ⟨gone, hoff, hperm⟩ := s.alarms.exists_dropCalledOff
  refine h.of_tasks_eq rfl (fun _ hu => hu) ?_ (fun _ hu => hu) ?_
  · intro a ha
    exact h.bells a (hperm.mem_iff.mpr (List.mem_append_right _ ha))
  · intro t ha
    refine .inl ?_
    intro a hmem heq
    rcases List.mem_append.mp (hperm.mem_iff.mp hmem) with hmem | hmem
    · exact hoff a hmem
    · exact ha a hmem heq

theorem advance (h : Tidy none [] s) {s' : Schedule σ} (heq : s.advance = some s') :
    Tidy none [] s' := by
  have hd := h.dropCalledOff
  unfold Schedule.advance at heq
  simp only at heq
  split at heq
  · split at heq
    · cases heq
    · cases heq
    · obtain rfl := Option.some.inj heq
      unfold atTime
      split
      · exact hd.withWorld _
      · exact hd
  · obtain rfl := Option.some.inj heq
    exact hd

/-- **A schedule in which nothing is left to happen** has only tasks that have ended or have been
dropped: the last of the others would need a turn, or an alarm, or a branch after it. -/
theorem ended_of_idle (h : Tidy none [] s) (hqueue : s.queue = []) (halarms : s.alarms.all = [])
    (t : Nat) (st : TaskState σ) (hst : s.state? t = some st) (hlive : st ≠ .dropped) :
    ∃ o, st = .ended o := by
  have hnone {st : TaskState σ} {u : Turn} (hst : s.state? t = some st) (hn : s.Needs t st u) :
      False := by
    have := h.needed t st u (by simp) hst hn
    simp [hqueue] at this
  cases st with
  | ready p => exact (hnone hst .resume).elim
  | asleep p => exact (hnone hst (.wake (by simp [halarms]))).elim
  | joining first count awaited due next =>
    cases due with
    | true => exact (hnone hst .gather).elim
    | false =>
      obtain ⟨hb, hne⟩ := h.branches t _ _ _ _ _ (by simp) hst
      obtain ⟨b, hmem⟩ := List.exists_mem_of_ne_nil _ (hne rfl)
      obtain ⟨above, -, -, parent, kept⟩ := hb b hmem
      obtain ⟨st', hst'⟩ := exists_state?_of_parent? parent
      have hlt := lt_length_of_state? hst'
      obtain ⟨o, rfl⟩ := ended_of_idle h hqueue halarms b st' hst' (by rintro rfl; exact kept hst')
      exact (hnone hst (.announce hmem (outcome?_eq_some_iff.mpr hst'))).elim
  | ended o => exact ⟨o, rfl⟩
  | dropped => exact absurd rfl hlive
termination_by s.tasks.length - t

/-- A run starts tidy. -/
theorem start (w : World σ) (p : Process σ) {alarms : Alarms Turn}
    (h : ∀ a ∈ alarms.all, ∀ t, a.event ≠ .release t) : Tidy none [] (start w p alarms) := by
  have hstate {t : Nat} {st : TaskState σ} (hst : (Schedule.start w p alarms).state? t = some st) :
      t = 0 ∧ st = .ready p := by
    have hlt := lt_length_of_state? hst
    obtain rfl : t = 0 := by simpa [Schedule.start] using hlt
    exact ⟨rfl, (Option.some.inj hst).symm⟩
  refine ⟨rfl, by simp [state?, Schedule.start], by simp [Schedule.start], h, ?_, ?_⟩
  · intro t st u _ hst hu
    obtain ⟨rfl, rfl⟩ := hstate hst
    cases hu
    simp [Schedule.start]
  · intro t first count awaited due next _ hst
    obtain ⟨-, hst⟩ := hstate hst
    cases hst

end Tidy

end PipeScript.Schedule
