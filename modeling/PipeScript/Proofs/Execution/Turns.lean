import PipeScript.Proofs.Execution.Course
import PipeScript.Proofs.Execution.Siblings

/-!
# The order of turns

Turns are taken in the order in which they are queued. What a turn queues comes after all that is due
already, and so do the turns of the alarms that ring as a round begins. The order of what happens at one
instant can therefore be read off the turns that are due.

## The model

The turns that are due at a point are those of its round and those of the queue, in this order
(`Point.due`). `Schedule.Queued` lists why a turn is queued as another one is taken: the task that goes
on yields, forks or ends, an alarm wakes a task, a task is told of the end of a branch, or a task is
dropped.

Main results: taking a turn removes it from those that are due, and adds turns of these kinds behind the
others (`Schedule.exists_queue_take`, `Point.Step.due`); a turn that is not about a task queues none in
which that task goes on (`Schedule.not_queued`), so a task that has not begun stays as it is until its
own turn (`Schedule.Unbegun.takes`); tasks that there are not yet are in none of the turns
(`Course.untouched`); and time does not pass while a turn is due (`Schedule.exists_eq_of_advance`).
-/

namespace PipeScript

variable {σ : Type}

/-- The turns of a task: those in which it goes on, is woken to do so, or announces its end. -/
def Turn.ofTask (t : Nat) : List Turn := [.resume t, .wake t, .gather t, .announce t]

/-- The turns in which branches begin, one after the other. -/
def Turn.openings (first count : Nat) : List Turn := ((List.range count).map (first + ·)).map .resume

/-- The turns that a task queues as it pauses: its own one, or those of the branches that it forks, of
which the first one gets the given number, or the announcement of its end to the task that waits. -/
def Pause.turns (t first : Nat) (told : Bool) : Pause σ → List Turn
  | ended _ => if told then [.announce t] else []
  | yielded _ => [.resume t]
  | asleep _ _ => []
  | forked _ count _ _ => Turn.openings first count

namespace Schedule

/-! ### What a turn queues -/

/-- Why a turn is queued as another one is taken. -/
inductive Queued (s : Schedule σ) (u : Turn) : Turn → Prop
  | again {t : Nat} {p rest : Process σ} (hw : s.work? u = some (t, p))
      (hp : (p.advance s.world).2 = .yielded rest) : Queued s u (.resume t)
  | woken {t : Nat} {p : Process σ} (hu : u = .wake t) (hst : s.state? t = some (.asleep p)) :
      Queued s u (.resume t)
  | branch {t count : Nat} {kind : Fork} {p : Process σ} {branch : Fin count → Process σ}
      {next : Joined → Process σ} (hw : s.work? u = some (t, p))
      (hp : (p.advance s.world).2 = .forked kind count branch next) (i : Fin count) :
      Queued s u (.resume (s.tasks.length + i))
  | ended {t : Nat} {p : Process σ} {o : Outcome} (hw : s.work? u = some (t, p))
      (hp : (p.advance s.world).2 = .ended o) : Queued s u (.announce t)
  | told {b t first count : Nat} {awaited : List Nat} {next : Joined → Process σ}
      (hu : u = .announce b) (hst : s.state? t = some (.joining first count awaited false next))
      (hparent : s.parent? b = some t) (hb : b ∈ awaited) : Queued s u (.gather t)
  | dropped {b : Nat} (ho : s.outcome? b = none) : Queued s u (.release b)

theorem queue_record (s : Schedule σ) (t : Nat) (pause : Pause σ) :
    (s.record t pause).queue = s.queue ++ pause.turns t s.tasks.length (s.parent? t).isSome := by
  cases pause with
  | ended o =>
    have hparent : ((s.setState t (.ended o)).tasks[t]?).bind (·.parent) = s.parent? t :=
      parent?_setState s t t _
    simp only [record, hparent, Pause.turns]
    cases s.parent? t with
    | none => exact (List.append_nil _).symm
    | some u => rfl
  | yielded rest => rfl
  | asleep seconds rest => exact (List.append_nil _).symm
  | forked kind count branch next => rfl

theorem exists_queue_abandon (s : Schedule σ) (cancel : Bool) (tasks : List Nat) :
    ∃ new, (s.abandon cancel tasks).queue = s.queue ++ new ∧ ∀ v ∈ new, ∃ b ∈ tasks, v = .release b := by
  refine abandon_induction (P := fun s' => ∃ new, s'.queue = s.queue ++ new ∧
    ∀ v ∈ new, ∃ b ∈ tasks, v = .release b) cancel ⟨[], (List.append_nil _).symm, by simp⟩ ?_
  rintro s' ⟨new, hnew, hreleases⟩ b hb
  unfold drop
  split
  all_goals try exact ⟨new, hnew, hreleases⟩
  all_goals
    refine ⟨new ++ [.release b], ?_, ?_⟩
    · rw [enqueue, ← List.append_assoc, ← hnew]
      rfl
    · intro v hv
      rcases List.mem_append.mp hv with hv | hv
      · exact hreleases v hv
      · exact ⟨b, hb, List.mem_singleton.mp hv⟩

/-- **What a turn queues** comes behind what is due already. -/
theorem exists_queue_take (s : Schedule σ) (cancel : Bool) (u : Turn) :
    ∃ new, (s.take cancel u).queue = s.queue ++ new ∧ ∀ v ∈ new, s.Queued u v := by
  generalize hs' : s.take cancel u = s'
  cases hs' ▸ s.taken_take cancel u with
  | @works _ t p hw tasks htasks =>
    obtain ⟨releases, hqueue, hreleases⟩ := s.exists_queue_abandon cancel tasks
    refine ⟨releases ++ (p.advance s.world).2.turns t s.tasks.length
      ((s.abandon cancel tasks).parent? t).isSome, ?_, fun v hv => ?_⟩
    · rw [proceed_eq, world_abandon, queue_record, ← List.append_assoc, ← hqueue]
      exact congrArg (fun n => _ ++ Pause.turns t n _ _) (length_abandon s cancel tasks)
    · rcases List.mem_append.mp hv with hv | hv
      · obtain ⟨b, hb, rfl⟩ := hreleases v hv
        exact .dropped (htasks b hb)
      · cases hp : (p.advance s.world).2 with
        | ended o =>
          rw [hp, Pause.turns] at hv
          split at hv
          · obtain rfl := List.mem_singleton.mp hv
            exact .ended hw hp
          · cases hv
        | yielded rest =>
          rw [hp] at hv
          obtain rfl := List.mem_singleton.mp hv
          exact .again hw hp
        | asleep seconds rest =>
          rw [hp] at hv
          cases hv
        | forked kind count branch next =>
          rw [hp] at hv
          simp only [Pause.turns, Turn.openings, List.mem_map, List.mem_range] at hv
          obtain ⟨_, ⟨i, hi, rfl⟩, rfl⟩ := hv
          exact .branch hw hp ⟨i, hi⟩
  | void _ _ => exact ⟨[], (List.append_nil _).symm, by simp⟩
  | @woken t p hst =>
    exact ⟨[.resume t], rfl, List.forall_mem_singleton.mpr (.woken rfl hst)⟩
  | @told b t _ _ _ _ hst hparent hb =>
    exact ⟨[.gather t], rfl, List.forall_mem_singleton.mpr (.told rfl hst hparent hb)⟩
  | waits _ _ => exact ⟨[], (List.append_nil _).symm, by simp⟩
  | released _ _ t => exact ⟨[], (List.append_nil _).symm, by simp⟩
  | interrupted => exact ⟨[], (List.append_nil _).symm, by simp⟩

/-! ### What a turn leaves of alarms and parents -/

theorem alarms_abandon (s : Schedule σ) (cancel : Bool) (tasks : List Nat) :
    (s.abandon cancel tasks).alarms = s.alarms :=
  abandon_induction (P := fun s' => s'.alarms = s.alarms) cancel rfl
    fun s' hs' b _ => (alarms_drop s' b).trans hs'

theorem parent?_abandon (s : Schedule σ) (cancel : Bool) (tasks : List Nat) (c : Nat) :
    (s.abandon cancel tasks).parent? c = s.parent? c :=
  abandon_induction (P := fun s' => s'.parent? c = s.parent? c) cancel rfl
    fun s' hs' b _ => (parent?_drop s' b c).trans hs'

variable {s : Schedule σ} {cancel : Bool} {u v : Turn} {t b c x : Nat} {p : Process σ}

/-- A task that pauses sets an alarm for itself if it sleeps. -/
theorem event_of_record {pause : Pause σ} {a : Alarm Turn} (h : a ∈ (s.record t pause).alarms.all) :
    a ∈ s.alarms.all ∨ a.event = .wake t := by
  cases pause with
  | ended o =>
    simp only [record] at h
    split at h <;> exact .inl h
  | yielded rest => exact .inl h
  | asleep seconds rest =>
    rcases Alarms.mem_add.mp h with rfl | h
    · exact .inr rfl
    · exact .inl h
  | forked kind count branch next => exact .inl h

/-- An alarm is one that was set before, or that of the task that goes on. -/
theorem event_of_take {a : Alarm Turn} (h : a ∈ (s.take cancel u).alarms.all) :
    (∃ a' ∈ s.alarms.all, a'.event = a.event) ∨
      ∃ t p, s.work? u = some (t, p) ∧ a.event = .wake t := by
  generalize hs' : s.take cancel u = s' at h
  cases hs' ▸ s.taken_take cancel u with
  | @works _ t p hw tasks htasks =>
    rw [proceed_eq] at h
    rcases event_of_record h with h | h
    · have h : a ∈ (s.abandon cancel tasks).alarms.all := h
      rw [alarms_abandon] at h
      exact .inl ⟨a, h, rfl⟩
    · exact .inr ⟨t, p, hw, h⟩
  | released _ _ t =>
    obtain ⟨a', ha', rfl⟩ := Alarms.mem_callOff.mp h
    refine .inl ⟨a', ha', ?_⟩
    split <;> rfl
  | void _ _ => exact .inl ⟨a, h, rfl⟩
  | woken _ => exact .inl ⟨a, h, rfl⟩
  | told _ _ _ => exact .inl ⟨a, h, rfl⟩
  | waits _ _ => exact .inl ⟨a, h, rfl⟩
  | interrupted => exact .inl ⟨a, h, rfl⟩

theorem parent?_of_record (ht : t < s.tasks.length) {pause : Pause σ}
    (h : (s.record t pause).parent? c = some x) :
    s.parent? c = some x ∨ x = t ∧ s.tasks.length ≤ c := by
  cases pause with
  | ended o =>
    simp only [record] at h
    split at h <;> exact .inl ((parent?_setState s t c _).symm.trans h)
  | yielded rest => exact .inl ((parent?_setState s t c _).symm.trans h)
  | asleep seconds rest => exact .inl ((parent?_setState s t c _).symm.trans h)
  | forked kind count branch next =>
    rw [record_forked s t kind count branch ht, parent?_setState] at h
    have h : (s.addBranches t kind count branch).parent? c = some x := h
    obtain ⟨st, hst⟩ := exists_state?_of_parent? h
    rcases lt_or_exists_of_addBranches s t kind count branch hst with hlt | ⟨i, rfl⟩
    · rw [parent?_addBranches_of_lt s t kind count branch hlt] at h
      exact .inl h
    · rw [parent?_addBranches] at h
      exact .inr ⟨(Option.some.inj h).symm, Nat.le_add_right _ _⟩

/-- A task keeps its parent, or is a new branch of the task that goes on. -/
theorem parent?_of_take (h : (s.take cancel u).parent? c = some x) :
    s.parent? c = some x ∨ s.tasks.length ≤ c ∧ ∃ p, s.work? u = some (x, p) := by
  generalize hs' : s.take cancel u = s' at h
  cases hs' ▸ s.taken_take cancel u with
  | @works _ t p hw tasks htasks =>
    have hlt : t < (s.abandon cancel tasks).tasks.length := by
      rw [length_abandon]
      exact lt_length_of_work? hw
    rw [proceed_eq] at h
    rcases parent?_of_record (by exact hlt) h with h | ⟨rfl, hle⟩
    · exact .inl ((parent?_abandon s cancel tasks c).symm.trans h)
    · have hle : (s.abandon cancel tasks).tasks.length ≤ c := hle
      rw [length_abandon] at hle
      exact .inr ⟨hle, p, hw⟩
  | released _ _ t =>
    refine .inl ?_
    cases hparent : s.parent? c with
    | none =>
      rw [parent?_release_of_none hparent] at h
      cases h
    | some y =>
      by_cases hy : y = t
      · simp only [parent?, release, List.getElem?_map] at h hparent
        cases hc : s.tasks[c]? with
        | none => simp [hc] at h
        | some e =>
          have he : e.parent = some t := by simpa [hc, hy] using hparent
          simp [hc, he] at h
      · rwa [parent?_release_of_ne hparent hy] at h
  | void _ _ => exact .inl h
  | woken _ => exact .inl ((parent?_setState s _ c _).symm.trans h)
  | told _ _ _ => exact .inl ((parent?_setState s _ c _).symm.trans h)
  | waits _ _ => exact .inl ((parent?_setState s _ c _).symm.trans h)
  | interrupted => exact .inl h

/-! ### A task that goes on -/

/-- A task goes on in its own turn, or as it gathers its branches. -/
theorem eq_of_work? (hw : s.work? u = some (t, p)) : u = .resume t ∨ u = .gather t := by
  cases u with
  | resume task =>
    simp only [work?] at hw
    split at hw
    · exact .inl (congrArg _ (Prod.mk.inj (Option.some.inj hw)).1)
    · cases hw
  | gather task =>
    simp only [work?] at hw
    split at hw
    · obtain ⟨j, -, heq⟩ := Option.map_eq_some_iff.mp hw
      exact .inr (congrArg _ (Prod.mk.inj heq).1)
    · cases hw
  | _ => cases hw

theorem mem_ofTask_of_work? (hw : s.work? u = some (t, p)) : u ∈ Turn.ofTask t := by
  rcases eq_of_work? hw with rfl | rfl <;> simp [Turn.ofTask]

theorem work?_of_ready (hst : s.state? t = some (.ready p)) : s.work? (.resume t) = some (t, p) := by
  simp only [work?, hst]

/-- A task that goes on pauses. -/
theorem state?_take_of_work? (hw : s.work? u = some (t, p)) (cancel : Bool) :
    (s.take cancel u).state? t = some ((p.advance s.world).2.state s.tasks.length) := by
  have hlt := lt_length_of_work? hw
  generalize hs' : s.take cancel u = s'
  cases hs' ▸ s.taken_take cancel u with
  | @works _ v p' hw' tasks htasks =>
    obtain ⟨rfl, rfl⟩ := Prod.mk.inj (Option.some.inj (hw.symm.trans hw'))
    have hlt' : t < (s.abandon cancel tasks).tasks.length := by rwa [length_abandon]
    obtain ⟨st, hst⟩ : ∃ st, ((s.abandon cancel tasks).proceed t p).state? t = some st :=
      exists_state?_of_lt (by rw [proceed_eq, length_record]; exact Nat.lt_add_right _ hlt')
    rw [hst]
    rw [proceed_eq, world_abandon] at hst
    rcases state?_record_cases (by exact hlt') hst with
      ⟨-, rfl⟩ | ⟨hne, -⟩ | ⟨_, _, _, _, i, -, -, heq⟩
    · rw [length_abandon]
    · exact absurd rfl hne
    · have hle : (s.abandon cancel tasks).tasks.length ≤ t := Nat.le.intro heq.symm
      exact absurd hlt' (Nat.not_lt.mpr hle)
  | void _ h => rw [hw] at h; cases h
  | woken => cases hw
  | told => cases hw
  | waits h => rw [hw] at h; cases h
  | released _ h => rw [hw] at h; cases h
  | interrupted => cases hw

/-- A task that waits is told of the end of a branch. -/
theorem state?_take_announce {first count : Nat} {awaited : List Nat} {next : Joined → Process σ}
    (hst : s.state? t = some (.joining first count awaited false next)) (hparent : s.parent? b = some t)
    (hb : b ∈ awaited) (cancel : Bool) :
    (s.take cancel (.announce b)).state? t = some (.joining first count awaited true next) := by
  have htake : s.take cancel (.announce b) =
      (s.setState t (.joining first count awaited true next)).enqueue [.gather t] := by
    have hparent : (s.tasks[b]?).bind (·.parent) = some t := hparent
    simp only [take, hparent, hst]
    exact if_pos (by simpa using hb)
  rw [htake]
  exact (state?_setState s t t _).trans (by simp [hst])

/-! ### Turns that are not about a task -/

/-- **A turn that is not about a task**, nor announces the end of a branch of it, queues none in which
the task goes on; the task may be one that there is not yet. -/
theorem not_queued (hb : b < s.tasks.length ∨ (s.take cancel u).tasks.length ≤ b)
    (hu : u ∉ Turn.ofTask b) (hchild : ∀ c, u = .announce c → s.parent? c ≠ some b)
    (h : s.Queued u v) : v ∉ Turn.ofTask b := by
  intro hv
  cases h with
  | again hw _ =>
    obtain rfl : _ = b := by simpa [Turn.ofTask] using hv
    exact hu (mem_ofTask_of_work? hw)
  | woken hw _ =>
    obtain rfl : _ = b := by simpa [Turn.ofTask] using hv
    exact hu (by simp [Turn.ofTask, hw])
  | branch hw hp i =>
    have heq : s.tasks.length + i = b := by simpa [Turn.ofTask] using hv
    rw [length_take_of_work? hw, hp, Pause.forks] at hb
    omega
  | ended hw _ =>
    obtain rfl : _ = b := by simpa [Turn.ofTask] using hv
    exact hu (mem_ofTask_of_work? hw)
  | told hw _ hparent _ =>
    obtain rfl : _ = b := by simpa [Turn.ofTask] using hv
    exact hchild _ hw hparent
  | dropped _ => simp [Turn.ofTask] at hv

/-- A task gets branches only as it goes on. -/
theorem parent?_ne_of_take (hu : ∀ p, s.work? u ≠ some (b, p)) (h : s.parent? c ≠ some b) :
    (s.take cancel u).parent? c ≠ some b := by
  intro hparent
  rcases parent?_of_take hparent with hold | ⟨-, p, hw⟩
  · exact h hold
  · exact hu p hw

/-- A task ends only as it goes on. -/
theorem outcome?_take_of_not_work (hu : ∀ p, s.work? u ≠ some (b, p)) (ho : s.outcome? b = none) :
    (s.take cancel u).outcome? b = none := by
  rw [outcome?_eq_none_iff] at ho ⊢
  intro o hst
  generalize hend : TaskState.ended o = st at hst
  cases becomes_of_take hst with
  | same hold =>
    subst hend
    exact ho o hold
  | paused hw => exact hu _ hw
  | _ => cases hend

/-- A task that can go on does so in a turn of its own only. -/
theorem state?_take_of_ready (hu : u ∉ Turn.ofTask b) (hst : s.state? b = some (.ready p)) :
    (s.take cancel u).state? b = some (.ready p) ∨ (s.take cancel u).state? b = some .dropped := by
  obtain ⟨st, hst'⟩ := exists_state?_take (lt_length_of_state? hst) cancel u
  have hsame {st' : TaskState σ} (hold : s.state? b = some st') : st' = .ready p :=
    Option.some.inj (hold.symm.trans hst)
  cases becomes_of_take hst' with
  | same hold => exact .inl (hst'.trans (congrArg some (hsame hold)))
  | dropped _ => exact .inr hst'
  | woken hold => cases hsame hold
  | told _ hold => cases hsame hold
  | gathers _ hold _ => cases hsame hold
  | paused hw => exact absurd (mem_ofTask_of_work? hw) hu
  | branch _ _ i hb => exact absurd (lt_length_of_state? hst) (by omega)

/-! ### Tasks that have not begun -/

/-- Has the task done nothing yet: is none of the turns its own, is no alarm set for it, and has it no
branches? -/
structure Untouched (s : Schedule σ) (b : Nat) (turns : List Turn) : Prop where
  turns : ∀ v ∈ turns, v ∉ Turn.ofTask b
  alarms : ∀ a ∈ s.alarms.all, a.event ∉ Turn.ofTask b
  childless : ∀ c, s.parent? c ≠ some b

namespace Untouched

variable {turns new : List Turn}

/-- What has not begun does not begin in a turn of another task. -/
theorem take (h : s.Untouched b turns) (hb : b < s.tasks.length ∨ (s.take cancel u).tasks.length ≤ b)
    (hu : u ∉ Turn.ofTask b) (hnew : ∀ v ∈ new, s.Queued u v) :
    (s.take cancel u).Untouched b (turns ++ new) where
  turns v hv := by
    rcases List.mem_append.mp hv with hv | hv
    · exact h.turns v hv
    · exact not_queued hb hu (fun c _ => h.childless c) (hnew v hv)
  alarms a ha := by
    rcases event_of_take ha with ⟨a', ha', heq⟩ | ⟨t, p, hw, heq⟩
    · rw [← heq]
      exact h.alarms a' ha'
    · intro hmem
      obtain rfl : t = b := by simpa [heq, Turn.ofTask] using hmem
      exact hu (mem_ofTask_of_work? hw)
  childless c :=
    parent?_ne_of_take (fun _ hw => hu (mem_ofTask_of_work? hw)) (h.childless c)

end Untouched

/-- Is the task about to begin with the process, unless it has been dropped before? -/
structure Unbegun (s : Schedule σ) (b : Nat) (p : Process σ) (turns : List Turn) : Prop extends
    s.Untouched b turns where
  state : s.state? b = some (.ready p) ∨ s.state? b = some .dropped

namespace Unbegun

theorem lt_length {turns : List Turn} (h : s.Unbegun b p turns) : b < s.tasks.length :=
  h.state.elim lt_length_of_state? lt_length_of_state?

theorem outcome? {turns : List Turn} (h : s.Unbegun b p turns) : s.outcome? b = none := by
  rw [outcome?_eq_none_iff]
  intro o hst
  rcases h.state with hready | hdropped
  · cases hst.symm.trans hready
  · cases hst.symm.trans hdropped

/-- Fewer turns matter less, and the world and the queue do not. -/
theorem congr {turns turns' : List Turn} (h : s.Unbegun b p turns) {s' : Schedule σ}
    (htasks : s'.tasks = s.tasks) (halarms : ∀ a ∈ s'.alarms.all, a ∈ s.alarms.all)
    (hturns : ∀ v ∈ turns', v ∉ Turn.ofTask b) : s'.Unbegun b p turns' := by
  obtain ⟨world, tasks, queue, alarms⟩ := s'
  obtain rfl : tasks = s.tasks := htasks
  exact ⟨⟨hturns, fun a ha => h.alarms a (halarms a ha), h.childless⟩, h.state⟩

theorem take {turns new : List Turn} (h : s.Unbegun b p turns) (hu : u ∉ Turn.ofTask b)
    (hnew : ∀ v ∈ new, s.Queued u v) : (s.take cancel u).Unbegun b p (turns ++ new) := by
  refine ⟨h.toUntouched.take (.inl h.lt_length) hu hnew, ?_⟩
  rcases h.state with hready | hdropped
  · exact state?_take_of_ready hu hready
  · exact .inr (state?_take_of_isGone hdropped rfl cancel u)

/-- What has not begun has not after some turns of other tasks. -/
theorem takes {ι : Type} {task : ι → Nat} {process : ι → Process σ} (cancel : Bool)
    {turns : List Turn} (rest : List Turn)
    (h : ∀ i, s.Unbegun (task i) (process i) (turns ++ rest)) :
    ∃ new, (turns.foldl (Schedule.take cancel) s).queue = s.queue ++ new ∧
      ∀ i, (turns.foldl (Schedule.take cancel) s).Unbegun (task i) (process i) (rest ++ new) := by
  induction turns generalizing s rest with
  | nil => exact ⟨[], (List.append_nil _).symm, by simpa using h⟩
  | cons u turns ih =>
    obtain ⟨new, hqueue, hnew⟩ := s.exists_queue_take cancel u
    have hu (i : ι) : u ∉ Turn.ofTask (task i) := (h i).turns u (List.mem_cons_self ..)
    have htake (i : ι) : (s.take cancel u).Unbegun (task i) (process i) (turns ++ (rest ++ new)) := by
      have hafter : (s.take cancel u).Unbegun (task i) (process i) (u :: turns ++ rest ++ new) :=
        (h i).take (hu i) hnew
      refine hafter.congr rfl (fun a ha => ha) fun v hv => hafter.turns v ?_
      exact List.mem_cons_of_mem _ (by simpa using hv)
    obtain ⟨more, hmore, hunbegun⟩ := ih (rest ++ new) htake
    refine ⟨new ++ more, ?_, ?_⟩
    · rw [List.foldl_cons, hmore, hqueue, List.append_assoc]
    · simpa using hunbegun

end Unbegun

/-! ### Alarms and time -/

theorem exists_queue_ring (s : Schedule σ) : ∃ rung : List Turn, s.ring.queue = s.queue ++ rung ∧
    ∀ v ∈ rung, ∃ a ∈ s.alarms.all, a.event = v := by
  obtain ⟨rung, hevents, hperm⟩ := s.alarms.exists_due (isToCome s.world.now)
  refine ⟨rung.map (·.event), by rw [← hevents]; rfl, fun v hv => ?_⟩
  obtain ⟨a, ha, rfl⟩ := List.mem_map.mp hv
  exact ⟨a, hperm.mem_iff.mpr (List.mem_append_left _ ha), rfl⟩

theorem mem_alarms_of_ring {a : Alarm Turn} (h : a ∈ s.ring.alarms.all) : a ∈ s.alarms.all := by
  obtain ⟨rung, -, hperm⟩ := s.alarms.exists_due (isToCome s.world.now)
  exact hperm.mem_iff.mpr (List.mem_append_right _ h)

/-- **Time passes only when no turn is due.** Nothing else happens then but that alarms are forgotten
that have been called off. -/
theorem exists_eq_of_advance {s' : Schedule σ} (h : s.advance = some s') : ∃ w alarms,
    s' = { s with world := w, alarms } ∧ (∀ a ∈ alarms.all, a ∈ s.alarms.all) ∧
      (s.queue ≠ [] → w = s.world) := by
  obtain ⟨gone, -, hperm⟩ := s.alarms.exists_dropCalledOff
  have hkept (a : Alarm Turn) (ha : a ∈ s.alarms.dropCalledOff.all) : a ∈ s.alarms.all :=
    hperm.mem_iff.mpr (List.mem_append_right _ ha)
  unfold advance at h
  simp only at h
  split at h
  · rename_i hempty
    have hnil : s.queue = [] := List.isEmpty_iff.mp hempty
    split at h
    · cases h
    · cases h
    · obtain rfl := Option.some.inj h
      unfold atTime
      split
      · exact ⟨_, _, rfl, hkept, fun hne => absurd hnil hne⟩
      · exact ⟨_, _, rfl, hkept, fun _ => rfl⟩
  · obtain rfl := Option.some.inj h
    exact ⟨_, _, rfl, hkept, fun _ => rfl⟩

/-- A run goes on while a turn is due. -/
theorem exists_advance_of_queue (h : s.queue ≠ []) :
    ∃ alarms, s.advance = some { s with alarms } ∧ ∀ a ∈ alarms.all, a ∈ s.alarms.all := by
  have hadvance : s.advance = some { s with alarms := s.alarms.dropCalledOff } := by
    unfold advance
    exact if_neg (by simpa using h)
  obtain ⟨gone, -, hperm⟩ := s.alarms.exists_dropCalledOff
  exact ⟨_, hadvance, fun a ha => hperm.mem_iff.mpr (List.mem_append_right _ ha)⟩

end Schedule

theorem Process.now_advance (w : World σ) (p : Process σ) : (p.advance w).1.now = w.now := by
  induction p generalizing w with
  | done o => rfl
  | look next ih => exact ih w w
  | act e next ih => exact (ih _).trans (by cases e <;> rfl)
  | wait seconds next ih =>
    rw [advance]
    split <;> rfl
  | nap place r next ih =>
    rw [advance]
    split
    · exact ih true w
    · split
      · rfl
      · exact ih false w
  | fork kind count branch next _ ih =>
    rw [advance]
    split
    · exact ih (.ok []) w
    · rfl

/-- A turn takes no time. -/
theorem Schedule.now_take (s : Schedule σ) (cancel : Bool) (u : Turn) :
    (s.take cancel u).world.now = s.world.now := by
  generalize hs' : s.take cancel u = s'
  cases hs' ▸ s.taken_take cancel u with
  | @works _ t p hw tasks htasks =>
    rw [proceed_eq, world_record, world_abandon]
    exact Process.now_advance s.world p
  | _ => rfl

/-! ### Courses -/

/-- The turns that are due. -/
def Point.due (q : Point σ) : List Turn := q.turns ++ q.schedule.queue

namespace Point.Step

variable {cancel : Bool} {q q' : Point σ} {ms : List (Moment σ)}

/-- What is due after a step: the turn that is taken is due no more, and others are, behind the rest;
else alarms may have rung. -/
theorem due (h : Step cancel q ms q') :
    (∃ u turns new, q.turns = u :: turns ∧ q'.schedule = q.schedule.take cancel u ∧
      q'.due = turns ++ q.schedule.queue ++ new ∧ ∀ v ∈ new, q.schedule.Queued u v) ∨
    (∃ rung, q'.schedule.tasks = q.schedule.tasks ∧ q'.due = q.due ++ rung ∧
      (∀ a ∈ q'.schedule.alarms.all, a ∈ q.schedule.alarms.all) ∧
      (∀ v ∈ rung, ∃ a ∈ q.schedule.alarms.all, a.event = v) ∧
      (q.due ≠ [] → q'.schedule.world = q.schedule.world)) := by
  cases h with
  | turn u turns s =>
    obtain ⟨new, hqueue, hnew⟩ := s.exists_queue_take cancel u
    refine .inl ⟨u, turns, new, rfl, rfl, ?_, hnew⟩
    rw [Point.due, hqueue, List.append_assoc]
  | round s =>
    obtain ⟨rung, hqueue, hrung⟩ := s.exists_queue_ring
    refine .inr ⟨rung, rfl, ?_, fun a ha => Schedule.mem_alarms_of_ring ha, hrung, fun _ => rfl⟩
    exact (List.append_nil _).trans hqueue
  | @advance s s' h =>
    obtain ⟨w, alarms, rfl, halarms, hw⟩ := Schedule.exists_eq_of_advance h
    exact .inr ⟨[], rfl, (List.append_nil _).symm, halarms, by simp, hw⟩

theorem tidy (h : Step cancel q ms q') (hq : Schedule.Tidy none q.turns q.schedule) :
    Schedule.Tidy none q'.turns q'.schedule := by
  cases h with
  | turn u turns s => exact hq.take cancel
  | round s => exact hq.ring.congr rfl rfl fun u => by simp [of]
  | advance h => exact hq.advance h

/-- Tasks that there are not yet are untouched. -/
theorem untouched (h : Step cancel q ms q')
    (hq : ∀ b, q.schedule.tasks.length ≤ b → q.schedule.Untouched b q.due) {b : Nat}
    (hb : q'.schedule.tasks.length ≤ b) : q'.schedule.Untouched b q'.due := by
  rcases h.due with ⟨u, turns, new, hturns, hs', hdue, hnew⟩ | ⟨rung, htasks, hdue, halarms, hrung, -⟩
  · have hle := q.schedule.length_le_take cancel u
    rw [hs'] at hb ⊢
    have hold := hq b (Nat.le_trans hle hb)
    rw [Point.due, hturns] at hold
    have htake := hold.take (.inr hb) (hold.turns u (List.mem_cons_self ..)) hnew
    refine ⟨fun v hv => htake.turns v ?_, htake.alarms, htake.childless⟩
    rw [hdue] at hv
    exact List.mem_cons_of_mem _ hv
  · have hold := hq b (by rwa [htasks] at hb)
    refine ⟨fun v hv => ?_, fun a ha => hold.alarms a (halarms a ha), fun c => ?_⟩
    · rw [hdue] at hv
      rcases List.mem_append.mp hv with hv | hv
      · exact hold.turns v hv
      · obtain ⟨a, ha, rfl⟩ := hrung v hv
        exact hold.alarms a ha
    · rw [Schedule.parent?, htasks]
      exact hold.childless c

end Point.Step

namespace Course

variable {cancel : Bool} {q q' : Point σ} {ms : List (Moment σ)}

theorem tidy (h : Course cancel q ms q') (hq : Schedule.Tidy none q.turns q.schedule) :
    Schedule.Tidy none q'.turns q'.schedule := by
  induction h with
  | refl => exact hq
  | step _ hstep ih => exact hstep.tidy ih

/-- **Tasks that there are not yet are untouched**, at every point of a course. -/
theorem untouched (h : Course cancel q ms q')
    (hq : ∀ b, q.schedule.tasks.length ≤ b → q.schedule.Untouched b q.due) {b : Nat}
    (hb : q'.schedule.tasks.length ≤ b) : q'.schedule.Untouched b q'.due := by
  induction h generalizing b with
  | refl => exact hq b hb
  | step _ hstep ih => exact hstep.untouched (fun _ => ih) hb

/-- **The turns of a round are taken in a row**: a course ends before the last of them, or leads on
from there. -/
theorem through {turns rest : List Turn} {s : Schedule σ} (h : Course cancel ⟨turns ++ rest, s⟩ ms q) :
    (∃ taken left, turns = taken ++ left ∧ left ≠ [] ∧
      q = ⟨left ++ rest, taken.foldl (Schedule.take cancel) s⟩) ∨
    ∃ ns, Course cancel ⟨rest, turns.foldl (Schedule.take cancel) s⟩ ns q := by
  induction h with
  | refl =>
    cases turns with
    | nil => exact .inr ⟨[], .refl⟩
    | cons u turns => exact .inl ⟨[], u :: turns, rfl, List.cons_ne_nil _ _, rfl⟩
  | @step _ _ q' q'' _ hstep ih =>
    rcases ih with ⟨taken, left, rfl, hne, rfl⟩ | ⟨ns, hcourse⟩
    · obtain ⟨u, left, rfl⟩ := List.exists_cons_of_ne_nil hne
      generalize hq : Point.mk (u :: left ++ rest) _ = q' at hstep
      cases hstep with
      | turn v turns s' =>
        obtain ⟨hturns, rfl⟩ := Point.mk.inj hq
        obtain ⟨rfl, rfl⟩ := List.cons.inj hturns
        cases left with
        | nil => exact .inr ⟨[], by rw [List.foldl_concat]; exact .refl⟩
        | cons v left =>
          refine .inl ⟨taken ++ [u], v :: left, by simp, List.cons_ne_nil _ _, ?_⟩
          rw [List.foldl_concat]
          rfl
      | round => cases hq
      | advance => cases hq
    · exact .inr ⟨_, hcourse.step hstep⟩

end Course

end PipeScript
