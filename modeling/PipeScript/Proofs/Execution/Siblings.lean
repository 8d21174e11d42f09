import Mathlib.Logic.Relation
import PipeScript.Proofs.Execution.Threads

/-!
# The other branches of a block that raises

Where siblings are cancelled, a parallel block that raises the failure of a branch drops its other
branches. What has been dropped never goes on. A dropped branch that waits for branches of its own lets
go of them, but does not drop them: they go on by themselves, and may begin calls. So does the thread that
a dropped branch waits for: it finishes its work, and may still set variables, but begins no call.

## The model

A task is gone if it has ended or has been dropped (`Schedule.Gone`). The branches of a task are those
that it has waited for (`Schedule.Waits`, `Forks`), and theirs descend from it as well (`Descends`).
What is below a task that was dropped while it waited is spared (`Spared`): it is, or is below, a branch of a
block, or it is a thread.

Main results: what is gone stays as it is, and does nothing more (`Course.stays`); a task that is waited
for is gone with the wait, or spared (`Course.waits`, `spared_of_descends`); so the branches of a block
that has raised do nothing more, nor does what descends from them, unless it is spared, and only what is
spared with a block begins a call or counts anything (`Runtime.branches_stop_when_block_raises`), as some does
(`Runtime.spared_branch_calls`).
-/

namespace PipeScript

variable {σ : Type}

/-- Does a task in this state never go on? -/
def TaskState.isGone : TaskState σ → Bool
  | ended _ => true
  | dropped => true
  | _ => false

/-- The number of branches that are forked. -/
def Pause.forks : Pause σ → Nat
  | forked _ count .. => count
  | _ => 0

theorem Pause.length_kinds (pause : Pause σ) : pause.kinds.length = pause.forks := by
  cases pause <;> simp [kinds, forks]

/-- A task that waits as it pauses has forked its branches. -/
theorem Pause.eq_of_state {pause : Pause σ} {n first count : Nat} {awaited : List Nat} {due : Bool}
    {next : Joined → Process σ} (h : .joining first count awaited due next = pause.state n) :
    ∃ kind branch, pause = .forked kind count branch next ∧ first = n ∧
      awaited = (List.range count).map (n + ·) := by
  cases pause with
  | forked kind count branch next =>
    cases h
    exact ⟨kind, branch, rfl, rfl, rfl⟩
  | _ => cases h

namespace Schedule

variable {s : Schedule σ} {cancel : Bool} {u : Turn} {t v : Nat}

/-! ### Tasks that are gone -/

/-- Has the task ended, or has it been dropped? -/
def Gone (s : Schedule σ) (t : Nat) : Prop := ∃ st, s.state? t = some st ∧ st.isGone = true

theorem Gone.isGone (h : s.Gone t) {st : TaskState σ} (hst : s.state? t = some st) :
    st.isGone = true := by
  obtain ⟨st', hst', hgone⟩ := h
  obtain rfl := Option.some.inj (hst.symm.trans hst')
  exact hgone

theorem Gone.lt_length (h : s.Gone t) : t < s.tasks.length := by
  obtain ⟨st, hst, -⟩ := h
  exact lt_length_of_state? hst

theorem not_gone_of_work? {p : Process σ} (hw : s.work? u = some (t, p)) : ¬ s.Gone t := by
  intro h
  rcases work?_cases hw with hst | ⟨_, _, _, _, _, -, hst, -, -⟩
  · cases h.isGone hst
  · cases h.isGone hst

/-- What is gone does nothing. -/
theorem not_gone_of_mem_moments {m : Moment σ} (hm : m ∈ s.moments u) (ht : m.task = some t) :
    ¬ s.Gone t :=
  let ⟨_, hw, _⟩ := exists_work?_of_mem_moments hm ht
  not_gone_of_work? hw

/-- A branch that is awaited has not ended, or is gone. -/
theorem mem_pending_or_gone {awaited : List Nat} (h : t ∈ awaited) :
    t ∈ s.pending awaited ∨ s.Gone t := by
  cases ho : s.outcome? t with
  | none => exact .inl (List.mem_filter.mpr ⟨h, by simp [ho]⟩)
  | some o => exact .inr ⟨_, outcome?_eq_some_iff.mp ho, rfl⟩

theorem exists_state?_of_lt (h : t < s.tasks.length) : ∃ st, s.state? t = some st :=
  ⟨_, by rw [state?, List.getElem?_eq_getElem h]; rfl⟩

/-- A task that pauses adds the branches that it forks. -/
theorem length_record (s : Schedule σ) (t : Nat) (pause : Pause σ) :
    (s.record t pause).tasks.length = s.tasks.length + pause.forks := by
  rw [← length_kinds, kinds_record, List.length_append, length_kinds, Pause.length_kinds]

theorem length_take_of_work? {p : Process σ} (hw : s.work? u = some (t, p)) (cancel : Bool) :
    (s.take cancel u).tasks.length = s.tasks.length + (p.advance s.world).2.forks := by
  rw [← length_kinds, kinds_take, hw, List.length_append, length_kinds]
  exact congrArg (s.tasks.length + ·) (Pause.length_kinds _)

theorem length_le_take (s : Schedule σ) (cancel : Bool) (u : Turn) :
    s.tasks.length ≤ (s.take cancel u).tasks.length := by
  rw [← length_kinds, ← length_kinds, kinds_take, List.length_append]
  exact Nat.le_add_right _ _

theorem exists_state?_take (ht : t < s.tasks.length) (cancel : Bool) (u : Turn) :
    ∃ st, (s.take cancel u).state? t = some st :=
  exists_state?_of_lt (Nat.lt_of_lt_of_le ht (s.length_le_take cancel u))

/-- **What is gone stays as it is.** -/
theorem state?_take_of_isGone {st : TaskState σ} (hst : s.state? t = some st) (hgone : st.isGone = true)
    (cancel : Bool) (u : Turn) : (s.take cancel u).state? t = some st := by
  have h : s.Gone t := ⟨st, hst, hgone⟩
  obtain ⟨st', hst'⟩ := exists_state?_take h.lt_length cancel u
  rw [hst']
  cases becomes_of_take hst' with
  | same hold => exact hold.symm.trans hst
  | dropped ho =>
    cases st with
    | ended o => exact absurd hst (outcome?_eq_none_iff.mp ho o)
    | dropped => rfl
    | _ => cases hgone
  | woken hold => cases h.isGone hold
  | told _ hold => cases h.isGone hold
  | gathers _ hold => cases h.isGone hold
  | paused hw => exact absurd h (not_gone_of_work? hw)
  | branch _ _ i ht => exact absurd h.lt_length (by omega)

theorem Gone.take (h : s.Gone t) (cancel : Bool) (u : Turn) : (s.take cancel u).Gone t := by
  obtain ⟨st, hst, hgone⟩ := h
  exact ⟨st, state?_take_of_isGone hst hgone cancel u, hgone⟩

/-! ### Tasks that wait for their branches -/

/-- Are the branches that a task has not gathered yet among those that it has forked, after itself, and
have the others ended? -/
def Family (s : Schedule σ) : Prop :=
  ∀ t first count awaited due next, s.state? t = some (.joining first count awaited due next) →
    t < first ∧ first + count ≤ s.tasks.length ∧ (∀ b ∈ awaited, first ≤ b ∧ b < first + count) ∧
      ∀ b, first ≤ b → b < first + count → b ∈ awaited ∨ s.Gone b

namespace Family

/-- The tasks are all that matters. -/
theorem congr (h : s.Family) {s' : Schedule σ} (htasks : s'.tasks = s.tasks) : s'.Family := by
  obtain ⟨world, tasks, queue, alarms⟩ := s'
  obtain rfl : tasks = s.tasks := htasks
  exact h

theorem take (h : s.Family) (cancel : Bool) (u : Turn) : (s.take cancel u).Family := by
  intro t first count awaited due next hst
  have hlength := s.length_le_take cancel u
  -- a task that waited before, perhaps for more branches
  have hkept {awaited₀ : List Nat} {due₀ : Bool}
      (hold : s.state? t = some (.joining first count awaited₀ due₀ next))
      (hsub : ∀ b ∈ awaited, b ∈ awaited₀) (hrest : ∀ b ∈ awaited₀, b ∈ awaited ∨ s.Gone b) :
      t < first ∧ first + count ≤ (s.take cancel u).tasks.length ∧
        (∀ b ∈ awaited, first ≤ b ∧ b < first + count) ∧
        ∀ b, first ≤ b → b < first + count → b ∈ awaited ∨ (s.take cancel u).Gone b := by
    obtain ⟨hlt, hle, hbounds, hgone⟩ := h t _ _ _ _ _ hold
    refine ⟨hlt, Nat.le_trans hle hlength, fun b hb => hbounds b (hsub b hb), fun b hb hb' => ?_⟩
    rcases hgone b hb hb' with hmem | hgone
    · exact (hrest b hmem).imp id fun hgone => hgone.take cancel u
    · exact .inr (hgone.take cancel u)
  generalize hstate : TaskState.joining first count awaited due next = st at hst
  cases becomes_of_take hst with
  | same hold =>
    subst hstate
    exact hkept hold (fun _ hb => hb) fun _ hb => .inl hb
  | dropped => cases hstate
  | woken => cases hstate
  | told _ hold =>
    cases hstate
    exact hkept hold (fun _ hb => hb) fun _ hb => .inl hb
  | gathers _ hold =>
    cases hstate
    exact hkept hold (fun _ hb => List.mem_of_mem_filter hb) fun _ hb => mem_pending_or_gone hb
  | @paused p hw =>
    -- the branches are forked just now
    obtain ⟨kind, branch, hp, rfl, rfl⟩ := Pause.eq_of_state hstate
    have htasks : (s.take cancel u).tasks.length = s.tasks.length + count := by
      rw [length_take_of_work? hw cancel, hp, Pause.forks]
    refine ⟨lt_length_of_work? hw, Nat.le_of_eq htasks.symm, fun b hb => ?_, fun b hb hb' => ?_⟩
    · obtain ⟨i, hi, rfl⟩ := List.mem_map.mp hb
      exact ⟨Nat.le_add_right _ _, Nat.add_lt_add_left (List.mem_range.mp hi) _⟩
    · exact .inl (List.mem_map.mpr ⟨b - s.tasks.length, List.mem_range.mpr (by omega), by omega⟩)
  | branch => cases hstate

end Family

/-! ### A block that raises -/

theorem state?_abandon_of_mem {tasks : List Nat} {b : Nat} (hb : b ∈ tasks)
    (hlt : b < s.tasks.length) : (s.abandon true tasks).state? b = some .dropped := by
  show (tasks.foldl drop s).state? b = some .dropped
  induction tasks generalizing s with
  | nil => cases hb
  | cons c rest ih =>
    by_cases hc : b = c
    · subst hc
      obtain ⟨st, hst⟩ := exists_state?_of_lt hlt
      have hdropped : (s.drop b).state? b = some .dropped := by
        rw [state?_drop, if_pos rfl, hst, Option.map_some]
      show ((s.drop b).abandon true rest).state? b = some .dropped
      refine abandon_induction (P := fun s' => s'.state? b = some .dropped) true hdropped ?_
      intro s' hs' x _
      rw [state?_drop, hs', Option.map_some, ite_self]
    · exact ih ((List.mem_cons.mp hb).resolve_left hc) (by rwa [length_drop])

theorem state?_proceed_of_ne {p : Process σ} (ht : t < s.tasks.length) (hv : v < s.tasks.length)
    (hne : v ≠ t) : (s.proceed t p).state? v = s.state? v := by
  have hlt : v < (s.proceed t p).tasks.length := by
    rw [proceed_eq, length_record]
    exact Nat.lt_of_lt_of_le hv (Nat.le_add_right _ _)
  obtain ⟨st, hst⟩ := exists_state?_of_lt hlt
  rw [hst]
  rw [proceed_eq] at hst
  rcases state?_record_cases (by exact ht) hst with ⟨rfl, -⟩ | ⟨-, h⟩ | ⟨_, _, _, _, i, -, -, h⟩
  · exact absurd rfl hne
  · exact h.symm
  · have hge : s.tasks.length ≤ v := by
      rw [h]
      exact Nat.le_add_right _ _
    exact absurd hv (Nat.not_lt.mpr hge)

/-- **A task that goes on leaves none of the branches** that it waited for: those that have not ended are
dropped. -/
theorem gone_of_joined? {first count : Nat} {awaited : List Nat} {next : Joined → Process σ}
    (hst : s.state? t = some (.joining first count awaited true next)) {j : Joined}
    (hj : s.joined? first count awaited = some j) {b : Nat} (hb : b ∈ awaited)
    (hlt : b < s.tasks.length) (hne : b ≠ t) : (s.take true (.gather t)).Gone b := by
  rcases mem_pending_or_gone hb with hpending | hgone
  · have htake : s.take true (.gather t) =
        (s.abandon true (s.pending awaited)).proceed t (next j) := by
      simp only [Schedule.take, hst]
      exact gather_of_joined? true t next hj
    refine ⟨.dropped, ?_, rfl⟩
    rw [htake, state?_proceed_of_ne _ _ hne, state?_abandon_of_mem hpending hlt]
    · rw [length_abandon]
      exact lt_length_of_state? hst
    · rwa [length_abandon]
  · exact hgone.take true _

/-- Does the task wait for the branch? -/
def Waits (s : Schedule σ) (t b : Nat) : Prop :=
  ∃ first count awaited due next,
    s.state? t = some (.joining first count awaited due next) ∧ b ∈ awaited

/-- What a task waits for: the number of the first branch, how many there are, those not gathered yet,
and whether its turn to gather is due. -/
def waiting? (s : Schedule σ) (t : Nat) : Option (Nat × Nat × List Nat × Bool) :=
  match s.state? t with
  | some (.joining first count awaited due _) => some (first, count, awaited, due)
  | _ => none

theorem exists_state?_of_waiting? {first count : Nat} {awaited : List Nat} {due : Bool}
    (h : s.waiting? t = some (first, count, awaited, due)) :
    ∃ next, s.state? t = some (.joining first count awaited due next) := by
  unfold waiting? at h
  split at h
  · rename_i next hst
    cases h
    exact ⟨next, hst⟩
  · cases h

/-- A task that is waited for is there. -/
theorem Waits.lt_length {b : Nat} (hfamily : s.Family) (h : s.Waits t b) : b < s.tasks.length := by
  obtain ⟨first, count, awaited, due, next, hst, hb⟩ := h
  obtain ⟨-, hlength, hbounds, -⟩ := hfamily t _ _ _ _ _ hst
  exact Nat.lt_of_lt_of_le (hbounds b hb).2 hlength

/-- A task that is waited for is gone after a turn, or still waited for, or the one that waited for it
has been dropped. -/
theorem Waits.take {b : Nat} (hfamily : s.Family) (h : s.Waits t b) (u : Turn) :
    (s.take true u).Gone b ∨ (s.take true u).Waits t b ∨ (s.take true u).state? t = some .dropped := by
  have hlt : b < s.tasks.length := h.lt_length hfamily
  obtain ⟨first, count, awaited, due, next, hst, hb⟩ := h
  obtain ⟨hfirst, -, hbounds, -⟩ := hfamily t _ _ _ _ _ hst
  have hne : b ≠ t := Nat.ne_of_gt (Nat.lt_of_lt_of_le hfirst (hbounds b hb).1)
  obtain ⟨st, hst'⟩ := exists_state?_take (lt_length_of_state? hst) true u
  have hsame {st' : TaskState σ} (hold : s.state? t = some st') :
      st' = .joining first count awaited due next := Option.some.inj (hold.symm.trans hst)
  cases becomes_of_take hst' with
  | same hold =>
    cases hsame hold
    exact .inr (.inl ⟨_, _, _, _, _, hst', hb⟩)
  | dropped => exact .inr (.inr hst')
  | woken hold => cases hsame hold
  | told _ hold =>
    cases hsame hold
    exact .inr (.inl ⟨_, _, _, _, _, hst', hb⟩)
  | gathers _ hold =>
    cases hsame hold
    rcases mem_pending_or_gone hb with hpending | hgone
    · exact .inr (.inl ⟨_, _, _, _, _, hst', hpending⟩)
    · exact .inl (hgone.take true u)
  | paused hw =>
    rcases work?_cases hw with hold | ⟨_, _, _, _, j, rfl, hold, hj, -⟩
    · cases hsame hold
    · cases hsame hold
      exact .inl (gone_of_joined? hst hj hb hlt hne)
  | branch _ _ i ht => exact absurd (lt_length_of_state? hst) (by omega)

end Schedule

/-! ### Courses -/

namespace Point.Step

variable {cancel : Bool} {q q' : Point σ} {ms : List (Moment σ)} {t b : Nat}

theorem stays (h : Step cancel q ms q') {st : TaskState σ} (hst : q.schedule.state? t = some st)
    (hgone : st.isGone = true) :
    q'.schedule.state? t = some st ∧ ∀ m ∈ ms, m.task ≠ some t := by
  cases h with
  | turn u turns s =>
    refine ⟨Schedule.state?_take_of_isGone hst hgone cancel u, fun m hm hmt => ?_⟩
    exact Schedule.not_gone_of_mem_moments hm hmt ⟨st, hst, hgone⟩
  | round s => exact ⟨hst, by simp⟩
  | advance h =>
    refine ⟨?_, by simp⟩
    rwa [Schedule.state?, of, Schedule.tasks_of_advance h]

theorem family (h : Step cancel q ms q') (hq : q.schedule.Family) : q'.schedule.Family := by
  cases h with
  | turn u turns s => exact hq.take cancel u
  | round s => exact hq.congr rfl
  | advance h => exact hq.congr (Schedule.tasks_of_advance h)

theorem waits (h : Step true q ms q') (hq : q.schedule.Family) (hb : q.schedule.Waits t b) :
    q'.schedule.Gone b ∨ q'.schedule.Waits t b ∨ q'.schedule.state? t = some .dropped := by
  cases h with
  | turn u turns s => exact hb.take hq u
  | round s => exact .inr (.inl hb)
  | advance h =>
    refine .inr (.inl ?_)
    rwa [Schedule.Waits, Schedule.state?, of, Schedule.tasks_of_advance h]

end Point.Step

namespace Course

variable {cancel : Bool} {q q' : Point σ} {ms : List (Moment σ)} {t b : Nat}

/-- **What is gone stays as it is, and does nothing more**, in any course. -/
theorem stays (h : Course cancel q ms q') {st : TaskState σ} (hst : q.schedule.state? t = some st)
    (hgone : st.isGone = true) :
    q'.schedule.state? t = some st ∧ ∀ m ∈ ms, m.task ≠ some t := by
  induction h with
  | refl => exact ⟨hst, by simp⟩
  | step _ hstep ih =>
    obtain ⟨hst', hms⟩ := ih
    obtain ⟨hst'', hns⟩ := hstep.stays hst' hgone
    refine ⟨hst'', fun m hm => ?_⟩
    rcases List.mem_append.mp hm with hm | hm
    · exact hms m hm
    · exact hns m hm

theorem family (h : Course cancel q ms q') (hq : q.schedule.Family) : q'.schedule.Family := by
  induction h with
  | refl => exact hq
  | step _ hstep ih => exact hstep.family ih

theorem waits (h : Course true q ms q') (hq : q.schedule.Family) (hb : q.schedule.Waits t b) :
    q'.schedule.Gone b ∨ q'.schedule.Waits t b ∨ q'.schedule.state? t = some .dropped := by
  induction h with
  | refl => exact .inr (.inl hb)
  | step hcourse hstep ih =>
    rcases ih with ⟨st, hst, hgone⟩ | hwaits | hdropped
    · exact .inl ⟨st, (hstep.stays hst hgone).1, hgone⟩
    · exact hstep.waits (hcourse.family hq) hwaits
    · exact .inr (.inr (hstep.stays hdropped rfl).1)

end Course

/-! ### Branches and their branches -/

/-- Is the second task a branch of the first one: has that waited for it at some point of a run from one
point to another? -/
def Forks (cancel : Bool) (p q : Point σ) (t b : Nat) : Prop :=
  ∃ ms ns r, Course cancel p ms r ∧ Course cancel r ns q ∧ r.schedule.Waits t b

/-- Is the second task the first one, or a branch of it, or of a branch, at any depth? -/
def Descends (cancel : Bool) (p q : Point σ) : Nat → Nat → Prop :=
  Relation.ReflTransGen (Forks cancel p q)

/-- Is the second task below one that was dropped while it waited for branches, and was the first task
or below it? The branch by which it is below that one has been forked as the given kind. -/
def Spared (kind : Fork) (cancel : Bool) (p q : Point σ) (t b : Nat) : Prop :=
  ∃ v w, Descends cancel p q t v ∧ q.schedule.state? v = some .dropped ∧ Forks cancel p q v w ∧
    ¬ q.schedule.Gone w ∧ q.schedule.kind? w = some kind ∧ Descends cancel p q w b

/-- **Below a task that is gone** nothing goes on but what is spared. -/
theorem spared_of_descends {p q : Point σ} (hp : p.schedule.Family) {t b : Nat}
    (h : Descends true p q t b) (ht : q.schedule.Gone t) (hb : ¬ q.schedule.Gone b) :
    ∃ kind, Spared kind true p q t b := by
  induction h with
  | refl => exact absurd ht hb
  | @tail x b hx hforks ih =>
    obtain ⟨ms, ns, r, hpast, hcourse, hwaits⟩ := hforks
    have hfamily : r.schedule.Family := hpast.family hp
    rcases hcourse.waits hfamily hwaits with hgone | hstill | hdropped
    · exact absurd hgone hb
    · -- the task above still waits, so it is not gone either
      have hlive : ¬ q.schedule.Gone x := by
        obtain ⟨first, count, awaited, due, next, hst, -⟩ := hstill
        intro hgone
        cases hgone.isGone hst
      obtain ⟨kind, v, w, hv, hdropped, hvw, hw, hkind, hrest⟩ := ih hlive
      exact ⟨kind, v, w, hv, hdropped, hvw, hw, hkind, hrest.tail ⟨ms, ns, r, hpast, hcourse, hwaits⟩⟩
    · obtain ⟨kind, hkind⟩ := Schedule.exists_kind?_of_lt (hwaits.lt_length hfamily)
      exact ⟨kind, x, b, hx, hdropped, ⟨ms, ns, r, hpast, hcourse, hwaits⟩, hb, hcourse.kind?_eq hkind,
        .refl⟩

/-- **Nothing is below a thread** but itself. -/
theorem Descends.eq_of_thread {cancel : Bool} {p q : Point σ} (hall : p.schedule.All (·.HandsWork))
    (hp : p.schedule.Threads) {t b : Nat} (h : Descends cancel p q t b)
    (ht : q.schedule.kind? t = some .thread) : b = t := by
  rcases h.cases_head with rfl | ⟨x, ⟨ms, ns, r, hpast, hcourse, _, _, _, _, _, hst, -⟩, -⟩
  · rfl
  · obtain ⟨kind, hkind⟩ := Schedule.exists_kind?_of_lt (Schedule.lt_length_of_state? hst)
    obtain rfl : kind = .thread := Option.some.inj ((hcourse.kind?_eq hkind).symm.trans ht)
    exact (hpast.threads hall hp t _ hkind hst).elim

/-- A run starts with a task that waits for none. -/
theorem Schedule.family_start (w : World σ) (p : Process σ) (alarms : Alarms Turn) :
    (start w p alarms).Family := by
  intro t first count awaited due next hst
  have hlt := lt_length_of_state? hst
  obtain rfl : t = 0 := by simpa [start] using hlt
  cases hst

namespace Runtime

/-- **The branches of a block that raises do nothing more** where siblings are cancelled: from the turn
on in which the task gathers the failure of a branch, whatever is done in the run is done by other
tasks. What descends from the branches does nothing more either, unless it is spared; and it begins no
call, nor does it end one or count anything, unless it is spared with a branch of a block. So what a thread
still does for a dropped branch may change variables at most, and what there is around the run. -/
theorem branches_stop_when_block_raises (rt : Runtime σ) (hcancel : rt.settings.cancelSiblings = true)
    (c : Context) (s : σ) (p : Program) (linger : Option Binary64) (alarms : Alarms Turn)
    {before after : List (Moment σ)} {turns : List Turn} {s₁ : Schedule σ} {q : Point σ}
    {k first count b : Nat} {awaited : List Nat} {next : Joined → Process σ} {f : Failure}
    (hbefore : Course rt.settings.cancelSiblings (.of (rt.schedule c s p linger alarms)) before
      ⟨.gather k :: turns, s₁⟩)
    (hwaits : s₁.state? k = some (.joining first count awaited true next))
    (hfails : s₁.firstFailure? awaited = some (b, f))
    (hafter : Course rt.settings.cancelSiblings
      ⟨turns, s₁.take rt.settings.cancelSiblings (.gather k)⟩ after q) :
    (∀ m ∈ after, ∀ x, first ≤ x → x < first + count → m.task ≠ some x) ∧
    ∀ u, ∀ m ∈ q.schedule.moments u, ∀ x y, first ≤ x → x < first + count → m.task = some y →
      Descends rt.settings.cancelSiblings (.of (rt.schedule c s p linger alarms)) q x y →
        ∃ kind, Spared kind rt.settings.cancelSiblings (.of (rt.schedule c s p linger alarms)) q x y ∧
          (m.deed.isProgram = true → kind = .block) := by
  rw [hcancel] at hbefore hafter ⊢
  have hstart : (rt.schedule c s p linger alarms).Family := Schedule.family_start _ _ _
  have hfamily : s₁.Family := hbefore.family hstart
  have hgone {x : Nat} (hx : first ≤ x) (hx' : x < first + count) :
      (s₁.take true (.gather k)).Gone x := by
    obtain ⟨hk, hlength, -, hrest⟩ := hfamily k _ _ _ _ _ hwaits
    rcases hrest x hx hx' with hmem | hgone
    · have hjoined : s₁.joined? first count awaited = some (.error (b - first, f)) := by
        unfold Schedule.joined?
        rw [hfails]
      exact Schedule.gone_of_joined? hwaits hjoined hmem (Nat.lt_of_lt_of_le hx' hlength)
        (Nat.ne_of_gt (Nat.lt_of_lt_of_le hk hx))
    · exact hgone.take true _
  refine ⟨fun m hm x hx hx' => ?_, fun u m hm x y hx hx' hy hdescends => ?_⟩
  · obtain ⟨st, hst, hst'⟩ := hgone hx hx'
    exact (hafter.stays hst hst').2 m hm
  · obtain ⟨st, hst, hst'⟩ := hgone hx hx'
    obtain ⟨kind, hspared⟩ := spared_of_descends hstart hdescends ⟨st, (hafter.stays hst hst').1, hst'⟩
      (Schedule.not_gone_of_mem_moments hm hy)
    refine ⟨kind, hspared, fun hprogram => ?_⟩
    cases kind with
    | block => rfl
    | thread =>
      obtain ⟨v, w, -, -, -, -, hkind, hbelow⟩ := hspared
      have hwork : (rt.schedule c s p linger alarms).All (·.HandsWork) :=
        .start _ (rt.handsWork_process p linger) alarms
      have hthreads : (rt.schedule c s p linger alarms).Threads := .start _ _ alarms
      have hraises : Course true ⟨.gather k :: turns, s₁⟩ _ ⟨turns, s₁.take true (.gather k)⟩ :=
        .single (.turn (.gather k) turns s₁)
      have hq : q.schedule.Threads := ((hbefore.trans hraises).trans hafter).threads hwork hthreads
      obtain rfl := hbelow.eq_of_thread hwork hthreads hkind
      cases hprogram.symm.trans (hq.isProgram_eq_false hm hy hkind)

/-- A runtime that cancels siblings, with commands that pass their input on a little later, that set a
variable in a thread, and that fail. -/
def strict : Runtime Unit where
  settings := { cacheDirectory := .ofString "", cancelSiblings := true }
  registry := ⟨[{ name := "pass", work := fun _ _ input => .wait 0 (.ok input) },
    { name := "mark", work := fun a _ input => .wait 0 (.wait 0 (.assign a (.string input) (.ok input))),
      style := .threaded },
    { name := "fail", work := fun a _ _ => .fail (.reported .value a) }]⟩

/-- A block of which one branch fails, while another one waits for a block of its own and a third one for
a thread. -/
def nested : Program :=
  let pass : Stage := .command "pass" "" ""
  ⟨[[.parallel [[.parallel [[pass, pass, pass]]], [.command "mark" "x" ""], [.command "fail" "" ""]]]]⟩

/-- The block raises in the fourth round of the run. In the next one the branch of the branch that has
been dropped begins a call, and the thread sets its variable. -/
theorem nested_raises : ∃ (before : List (Moment Unit)) (s₁ s₂ : Schedule Unit) (turns : List Turn)
    (next next₁ next₂ : Joined → Process Unit) (f : Failure),
    Course strict.settings.cancelSiblings (.of (strict.schedule {} () nested none {})) before
      ⟨[.gather 0], s₁⟩ ∧
    s₁.state? 0 = some (.joining 1 3 [1, 2, 3] true next) ∧
    s₁.firstFailure? [1, 2, 3] = some (3, f) ∧
    s₁.state? 1 = some (.joining 4 1 [4] false next₁) ∧
    s₁.state? 2 = some (.joining 5 1 [5] false next₂) ∧
    Course strict.settings.cancelSiblings
      ⟨[], s₁.take strict.settings.cancelSiblings (.gather 0)⟩ [] ⟨turns, s₂⟩ ∧
    (∃ m ∈ s₂.moments (.resume 4), m.task = some 4 ∧ m.call?.map (·.action) = some "pass") ∧
    ∃ m ∈ s₂.moments (.resume 5), m.task = some 5 ∧ m.world.vars.map Prod.fst = [] ∧
      m.after.vars.map Prod.fst = ["x"] := by
  let cancel := strict.settings.cancelSiblings
  let s₀ : Schedule Unit := strict.schedule {} () nested none {}
  let s : Schedule Unit := ((s₀.round cancel).round cancel).round cancel
  let s₁ : Schedule Unit := [.resume 4, .resume 5].foldl (Schedule.take cancel) { s.ring with queue := [] }
  let s₂ : Schedule Unit := s₁.take cancel (.gather 0)
  have hround : Point.Step cancel (.of s) [] _ := .round s
  have hqueue : s.ring.queue = [.resume 4, .resume 5, .gather 0] := by decide +kernel
  rw [hqueue] at hround
  have hturns : Course cancel _ _ ⟨[.gather 0], s₁⟩ := .takes cancel [.resume 4, .resume 5] [.gather 0] _
  have hrounds := ((Course.round cancel s₀).trans (.round cancel _)).trans (.round cancel _)
  have hbefore := (hrounds.step hround).trans hturns
  have hmain : s₁.waiting? 0 = some (1, 3, [1, 2, 3], true) := by decide +kernel
  have hnested : s₁.waiting? 1 = some (4, 1, [4], false) := by decide +kernel
  have hthread : s₁.waiting? 2 = some (5, 1, [5], false) := by decide +kernel
  have hfails : (s₁.firstFailure? [1, 2, 3]).map (·.1) = some 3 := by decide +kernel
  have hcalls : (Schedule.moments { s₂.ring with queue := [] } (.resume 4)).any
      (fun m => m.task = some 4 && m.call?.map (·.action) = some "pass") = true := by decide +kernel
  have hassigns : (Schedule.moments { s₂.ring with queue := [] } (.resume 5)).any
      (fun m => m.task = some 5 && (m.world.vars.map Prod.fst = [] && m.after.vars.map Prod.fst = ["x"]))
      = true := by decide +kernel
  obtain ⟨next, hmain⟩ := Schedule.exists_state?_of_waiting? hmain
  obtain ⟨next₁, hnested⟩ := Schedule.exists_state?_of_waiting? hnested
  obtain ⟨next₂, hthread⟩ := Schedule.exists_state?_of_waiting? hthread
  obtain ⟨⟨b, f⟩, hfails, rfl⟩ := Option.map_eq_some_iff.mp hfails
  simp only [List.any_eq_true, Bool.and_eq_true, decide_eq_true_eq] at hcalls hassigns
  exact ⟨_, s₁, _, _, next, next₁, next₂, f, hbefore, hmain, hfails, hnested, hthread,
    .single (.round s₂), hcalls, hassigns⟩

/-- What a task waits for as the block of the first task raises descends from it. -/
theorem descends_of_raises {p : Point Unit} {before : List (Moment Unit)} {s₁ s₂ : Schedule Unit}
    {turns : List Turn} {t b : Nat} {next : Joined → Process Unit} {cancel : Bool}
    (hbefore : Course cancel p before ⟨[.gather 0], s₁⟩)
    (hwaits : s₁.state? t = some (.joining b 1 [b] false next))
    (hafter : Course cancel ⟨[], s₁.take cancel (.gather 0)⟩ [] ⟨turns, s₂⟩) :
    Descends cancel p ⟨turns, s₂⟩ t b := by
  have hgather : Course cancel ⟨[.gather 0], s₁⟩ _ ⟨[], s₁.take cancel (.gather 0)⟩ :=
    .single (.turn (.gather 0) [] s₁)
  exact .single ⟨before, _, _, hbefore, hgather.trans hafter, b, 1, [b], false, next, hwaits,
    List.mem_singleton_self b⟩

/-- What the branch of a dropped branch still does is spared with a block, and what the thread of another one
does is spared as well. -/
theorem nested_is_spared : ∃ (before : List (Moment Unit)) (s₁ s₂ : Schedule Unit) (turns : List Turn)
    (next : Joined → Process Unit) (f : Failure),
    strict.settings.cancelSiblings = true ∧
    Course strict.settings.cancelSiblings (.of (strict.schedule {} () nested none {})) before
      ⟨[.gather 0], s₁⟩ ∧
    s₁.state? 0 = some (.joining 1 3 [1, 2, 3] true next) ∧
    s₁.firstFailure? [1, 2, 3] = some (3, f) ∧
    Course strict.settings.cancelSiblings
      ⟨[], s₁.take strict.settings.cancelSiblings (.gather 0)⟩ [] ⟨turns, s₂⟩ ∧
    Spared .block strict.settings.cancelSiblings (.of (strict.schedule {} () nested none {}))
      ⟨turns, s₂⟩ 1 4 ∧
    ∃ kind, Spared kind strict.settings.cancelSiblings (.of (strict.schedule {} () nested none {}))
      ⟨turns, s₂⟩ 2 5 := by
  obtain ⟨before, s₁, s₂, turns, next, next₁, next₂, f, hbefore, hmain, hfails, hnested, hthread, hafter,
    ⟨m, hm, hmt, hcall⟩, ⟨m', hm', hmt', -, -⟩⟩ := nested_raises
  obtain ⟨c, hcall, -⟩ := Option.map_eq_some_iff.mp hcall
  have hstop := (strict.branches_stop_when_block_raises rfl {} () nested none {} hbefore hmain hfails
    hafter).2
  obtain ⟨kind, hspared, hkind⟩ := hstop (.resume 4) m hm 1 4 (by decide) (by decide) hmt
    (descends_of_raises hbefore hnested hafter)
  obtain rfl : kind = .block := hkind (Moment.isProgram_of_call? hcall)
  obtain ⟨kind', hspared', -⟩ := hstop (.resume 5) m' hm' 2 5 (by decide) (by decide) hmt'
    (descends_of_raises hbefore hthread hafter)
  exact ⟨before, s₁, s₂, turns, next, f, rfl, hbefore, hmain, hfails, hafter, hspared, kind', hspared'⟩

/-- **A branch of a dropped branch begins a call** after the block above has raised, and the thread of
another dropped branch sets a variable. -/
theorem spared_branch_calls : ∃ (before : List (Moment Unit)) (s₁ s₂ : Schedule Unit)
    (turns : List Turn) (next : Joined → Process Unit) (f : Failure),
    strict.settings.cancelSiblings = true ∧
    Course strict.settings.cancelSiblings (.of (strict.schedule {} () nested none {})) before
      ⟨[.gather 0], s₁⟩ ∧
    s₁.state? 0 = some (.joining 1 3 [1, 2, 3] true next) ∧
    s₁.firstFailure? [1, 2, 3] = some (3, f) ∧
    Course strict.settings.cancelSiblings
      ⟨[], s₁.take strict.settings.cancelSiblings (.gather 0)⟩ [] ⟨turns, s₂⟩ ∧
    Descends strict.settings.cancelSiblings (.of (strict.schedule {} () nested none {})) ⟨turns, s₂⟩
      1 4 ∧
    (∃ m ∈ s₂.moments (.resume 4), m.task = some 4 ∧ m.call?.map (·.action) = some "pass") ∧
    Descends strict.settings.cancelSiblings (.of (strict.schedule {} () nested none {})) ⟨turns, s₂⟩
      2 5 ∧
    ∃ m ∈ s₂.moments (.resume 5), m.task = some 5 ∧ m.world.vars.map Prod.fst = [] ∧
      m.after.vars.map Prod.fst = ["x"] := by
  obtain ⟨before, s₁, s₂, turns, next, next₁, next₂, f, hbefore, hmain, hfails, hnested, hthread, hafter,
    hcalls, hassigns⟩ := nested_raises
  exact ⟨before, s₁, s₂, turns, next, f, rfl, hbefore, hmain, hfails, hafter,
    descends_of_raises hbefore hnested hafter, hcalls, descends_of_raises hbefore hthread hafter, hassigns⟩

end Runtime

end PipeScript
