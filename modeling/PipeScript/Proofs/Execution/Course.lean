import PipeScript.Proofs.Execution.Tasks

/-!
# The course of a run

What a run does, one thing after the other, each with the task that does it and the world that it
finds. A run may be looked at between any two turns, so what is said of every course holds at every
instant of every run, also of one that never ends.

## The model

`Process.moments` lists what a process does until it pauses, beside `Process.advance`, which says where
that leads. A `Point` is a schedule with the turns of the round that are still to be taken; a `Course`
leads from one point to another and gathers the moments in between. Time passes between turns only.

Main results: the moments of a course account for all that happens to the world (`Course.linked`), so
the calls of a run are those that begin in its course (`Moment.Linked.calls`); each state of a task
comes from an earlier one in one of seven ways (`Schedule.becomes_of_take`), so a property of processes
that is inherited by what they leave to do is one of all tasks (`Course.all`); and what a run comes to
is the end of a course (`Schedule.exists_course_of_runFor`).
-/

namespace PipeScript

variable {σ : Type}

/-! ### Moments -/

/-- Something that a process does between two pauses, or as it pauses. -/
inductive Deed (σ : Type)
  /-- It changes the world. -/
  | change (effect : Effect σ)
  /-- It takes the next slice of a nap. -/
  | slice (place : String) (seconds : Binary64)

namespace Deed

/-- The world after a deed. -/
def apply (w : World σ) : Deed σ → World σ
  | change e => e.apply w
  | slice .. => w

/-- Does a call of a command begin with it, or a slice of a nap? -/
def begins : Deed σ → Bool
  | change (.begin ..) => true
  | change _ => false
  | slice .. => true

end Deed

/-- A deed, with the task that does it, unless it comes from outside, and the world that it finds. -/
structure Moment (σ : Type) where
  task : Option Nat
  world : World σ
  deed : Deed σ

/-- Is the second world the first one, at whatever time? -/
def World.Lasts (w w' : World σ) : Prop := w' = { w with now := w'.now }

theorem World.Lasts.refl (w : World σ) : w.Lasts w := rfl

namespace Moment

/-- The world that a moment leaves. -/
def after (m : Moment σ) : World σ := m.deed.apply m.world

/-- The call that begins, if one does. -/
def call? (m : Moment σ) : Option Call :=
  match m.deed with
  | .change (.begin action a b input) => some ⟨action, a, b, input, m.world.now⟩
  | _ => none

/-- Does each moment find the world that the one before leaves, apart from the time, and does the last
one leave the given world? -/
def Linked : World σ → List (Moment σ) → World σ → Prop
  | w, [], w' => w.Lasts w'
  | w, m :: ms, w' => w.Lasts m.world ∧ Linked m.after ms w'

namespace Linked

variable {w w' w'' : World σ} {ms ns : List (Moment σ)}

theorem of_lasts (hw : w.Lasts w') (h : Linked w' ms w'') : Linked w ms w'' := by
  have htrans {u : World σ} (hu : w'.Lasts u) : w.Lasts u := by
    rw [World.Lasts, hu, hw]
  cases ms with
  | nil => exact htrans h
  | cons m ms => exact ⟨htrans h.1, h.2⟩

theorem append (h : Linked w ms w') (h' : Linked w' ns w'') : Linked w (ms ++ ns) w'' := by
  induction ms generalizing w with
  | nil => exact h'.of_lasts h
  | cons m ms ih => exact ⟨h.1, ih h.2⟩

/-- **A run that has been cancelled stays so.** -/
theorem cancelled (h : Linked w ms w') (hw : w.cancelled = true) :
    (∀ m ∈ ms, m.world.cancelled = true) ∧ w'.cancelled = true := by
  have hlasts {u v : World σ} (hv : u.Lasts v) (hu : u.cancelled = true) : v.cancelled = true := by
    rw [hv]
    exact hu
  induction ms generalizing w with
  | nil => exact ⟨by simp, hlasts h hw⟩
  | cons m ms ih =>
    have hm := hlasts h.1 hw
    have hafter : m.after.cancelled = true := by
      obtain ⟨task, world, deed⟩ := m
      cases deed with
      | change e => cases e <;> first | exact hm | rfl
      | slice place seconds => exact hm
    obtain ⟨hms, hw'⟩ := ih h.2 hafter
    exact ⟨by simpa using ⟨hm, hms⟩, hw'⟩

/-- The calls in the world are those that have begun, the latest one first. -/
theorem calls (h : Linked w ms w') : w'.calls = (ms.filterMap call?).reverse ++ w.calls := by
  induction ms generalizing w with
  | nil =>
    have hcalls : w'.calls = w.calls := by rw [show w' = _ from h]
    simpa using hcalls
  | cons m ms ih =>
    have hcalls : m.world.calls = w.calls := by rw [h.1]
    rw [ih h.2]
    obtain ⟨task, world, deed⟩ := m
    cases deed with
    | slice place seconds => exact congrArg _ hcalls
    | change e =>
      cases e with
      | begin action a b input =>
        simp only [List.filterMap_cons, call?, List.reverse_cons, List.append_assoc]
        exact congrArg (fun calls => _ ++ _ :: calls) hcalls
      | _ => exact congrArg _ hcalls

end Linked

end Moment

/-- What a task does as it goes on with a process, until it pauses. -/
def Process.moments (task : Nat) (w : World σ) : Process σ → List (Moment σ)
  | done _ => []
  | look next => (next w).moments task w
  | act effect next => ⟨some task, w, .change effect⟩ :: next.moments task (effect.apply w)
  | wait _ _ => []
  | nap place remaining next =>
    if w.cancelled then (next true).moments task w
    else if Binary64.lt 0 remaining then
      [⟨some task, w, .slice place (Binary64.min napSlice remaining)⟩]
    else (next false).moments task w
  | fork _ count _ next => if count = 0 then (next (.ok [])).moments task w else []

theorem Process.linked_moments (task : Nat) (p : Process σ) (w : World σ) :
    Moment.Linked w (p.moments task w) (p.advance w).1 := by
  induction p generalizing w with
  | done o => exact .refl w
  | look next ih => exact ih w w
  | act e next ih => exact ⟨.refl w, ih _⟩
  | wait seconds next ih =>
    rw [Process.advance]
    split <;> exact .refl w
  | nap place r next ih =>
    rw [Process.advance, Process.moments]
    by_cases hc : w.cancelled = true
    · simp only [if_pos hc]
      exact ih true w
    · by_cases hr : Binary64.lt 0 r = true
      · simp only [if_neg hc, if_pos hr]
        exact ⟨.refl w, .refl w⟩
      · simp only [if_neg hc, if_neg hr]
        exact ih false w
  | fork kind count branch next _ ih =>
    rw [Process.advance, Process.moments]
    split
    · exact ih (.ok []) w
    · exact .refl w

theorem Process.task_of_mem_moments {task : Nat} {p : Process σ} {w : World σ} {m : Moment σ}
    (h : m ∈ p.moments task w) : m.task = some task := by
  induction p generalizing w with
  | done o => cases h
  | look next ih => exact ih w h
  | act e next ih =>
    rcases List.mem_cons.mp h with rfl | h
    · rfl
    · exact ih h
  | wait seconds next ih => cases h
  | nap place r next ih =>
    rw [Process.moments] at h
    split at h
    · exact ih true h
    · split at h
      · obtain rfl := List.mem_singleton.mp h
        rfl
      · exact ih false h
  | fork kind count branch next _ ih =>
    rw [Process.moments] at h
    split at h
    · exact ih (.ok []) h
    · cases h

namespace Schedule

/-! ### What a turn does -/

/-- The branches among some that have not ended. -/
def pending (s : Schedule σ) (awaited : List Nat) : List Nat :=
  awaited.filter fun t => (s.outcome? t).isNone

/-- What a task that gathers its branches goes on with: the failure of the first one that has failed,
or the values of all when none is left to wait for. -/
def joined? (s : Schedule σ) (first count : Nat) (awaited : List Nat) : Option Joined :=
  match s.firstFailure? awaited with
  | some (b, f) => some (.error (b - first, f))
  | none =>
    if (s.pending awaited).isEmpty then
      some (.ok (s.valuesOf ((List.range count).map (first + ·))))
    else none

/-- The task that goes on in a turn, with the process that it goes on with. -/
def work? (s : Schedule σ) : Turn → Option (Nat × Process σ)
  | .resume task =>
    match s.state? task with
    | some (.ready p) => some (task, p)
    | _ => none
  | .gather task =>
    match s.state? task with
    | some (.joining first count awaited true next) =>
      (s.joined? first count awaited).map fun j => (task, next j)
    | _ => none
  | _ => none

/-- What is done in a turn. -/
def moments (s : Schedule σ) : Turn → List (Moment σ)
  | .interrupt => [⟨none, s.world, .change .cancel⟩]
  | u => (s.work? u).elim [] fun (task, p) => p.moments task s.world

/-- The schedules that a turn can lead to. -/
inductive Taken (cancel : Bool) (s : Schedule σ) : Turn → Schedule σ → Prop
  /-- A task goes on, and may first abandon some tasks that have not ended. -/
  | works {u : Turn} {t : Nat} {p : Process σ} (h : s.work? u = some (t, p)) {tasks : List Nat}
      (htasks : ∀ b ∈ tasks, s.outcome? b = none) :
      Taken cancel s u ((s.abandon cancel tasks).proceed t p)
  | void {u : Turn} (hu : u ≠ .interrupt) (h : s.work? u = none) : Taken cancel s u s
  | woken {t : Nat} {p : Process σ} (hst : s.state? t = some (.asleep p)) :
      Taken cancel s (.wake t) ((s.setState t (.ready p)).enqueue [.resume t])
  | told {b t first count : Nat} {awaited : List Nat} {next : Joined → Process σ}
      (hst : s.state? t = some (.joining first count awaited false next))
      (hparent : s.parent? b = some t) (hb : b ∈ awaited) :
      Taken cancel s (.announce b)
        ((s.setState t (.joining first count awaited true next)).enqueue [.gather t])
  | waits {t first count : Nat} {awaited : List Nat} {next : Joined → Process σ}
      (h : s.work? (.gather t) = none)
      (hst : s.state? t = some (.joining first count awaited true next)) :
      Taken cancel s (.gather t)
        (s.setState t (.joining first count (s.pending awaited) false next))
  | released {u : Turn} (hu : u ≠ .interrupt) (h : s.work? u = none) (t : Nat) :
      Taken cancel s u (s.release t)
  | interrupted : Taken cancel s .interrupt { s with world := { s.world with cancelled := true } }

theorem outcome?_of_mem_pending (s : Schedule σ) {awaited : List Nat} :
    ∀ b ∈ s.pending awaited, s.outcome? b = none := by
  intro b hb
  simpa using (List.mem_filter.mp hb).2

theorem abandon_nil (s : Schedule σ) (cancel : Bool) : s.abandon cancel [] = s := by
  unfold abandon
  split <;> rfl

/-- A task that has a failure to go on with, or all values, goes on without its other branches. -/
theorem gather_of_joined? {s : Schedule σ} (cancel : Bool) (t : Nat) {first count : Nat}
    {awaited : List Nat} (next : Joined → Process σ) {j : Joined}
    (h : s.joined? first count awaited = some j) :
    s.gather cancel t first count awaited next =
      (s.abandon cancel (s.pending awaited)).proceed t (next j) := by
  rw [joined?] at h
  rw [gather]
  cases hf : s.firstFailure? awaited with
  | some bf =>
    rw [hf] at h
    obtain rfl := Option.some.inj h
    rfl
  | none =>
    rw [hf] at h
    by_cases hempty : (s.pending awaited).isEmpty = true
    · obtain rfl := Option.some.inj ((if_pos hempty).symm.trans h)
      rw [List.isEmpty_iff.mp hempty, abandon_nil]
      exact if_pos hempty
    · cases (if_neg hempty).symm.trans h

theorem gather_of_not_joined {s : Schedule σ} (cancel : Bool) (t : Nat) {first count : Nat}
    {awaited : List Nat} (next : Joined → Process σ) (h : s.joined? first count awaited = none) :
    s.gather cancel t first count awaited next =
      s.setState t (.joining first count (s.pending awaited) false next) := by
  rw [joined?] at h
  rw [gather]
  cases hf : s.firstFailure? awaited with
  | some bf =>
    rw [hf] at h
    cases h
  | none =>
    rw [hf] at h
    by_cases hempty : (s.pending awaited).isEmpty = true
    · cases (if_pos hempty).symm.trans h
    · exact if_neg hempty

/-- **A turn leads** to one of these schedules. -/
theorem taken_take (s : Schedule σ) (cancel : Bool) (u : Turn) : Taken cancel s u (s.take cancel u) := by
  cases u with
  | resume t =>
    simp only [take]
    split
    · rename_i p hst
      have hwork : s.work? (.resume t) = some (t, p) := by simp only [work?, hst]
      have hworks : Taken cancel s (.resume t) ((s.abandon cancel []).proceed t p) :=
        .works hwork (by simp)
      rwa [abandon_nil] at hworks
    · rename_i hno
      refine .void (by simp) ?_
      simp only [work?]
  | wake t =>
    simp only [take]
    split
    · rename_i p hst
      exact .woken hst
    · exact .void (by simp) rfl
  | announce b =>
    simp only [take]
    split
    · rename_i hparent
      split
      · rename_i hst
        split
        · rename_i hb
          exact .told hst hparent (by simpa using hb)
        · exact .void (by simp) rfl
      · exact .void (by simp) rfl
    · exact .void (by simp) rfl
  | gather t =>
    simp only [take]
    split
    · rename_i first count awaited next hst
      cases hj : s.joined? first count awaited with
      | some j =>
        have hwork : s.work? (.gather t) = some (t, next j) := by
          simp only [work?, hst, hj, Option.map_some]
        rw [gather_of_joined? cancel t next hj]
        exact .works hwork (outcome?_of_mem_pending s)
      | none =>
        have hwork : s.work? (.gather t) = none := by
          simp only [work?, hst, hj, Option.map_none]
        rw [gather_of_not_joined cancel t next hj]
        exact .waits hwork hst
    · rename_i hst
      exact .released (by simp) (by simp only [work?, hst]) t
    · rename_i hno _
      refine .void (by simp) ?_
      simp only [work?]
  | release t => exact .released (by simp) rfl t
  | interrupt => exact .interrupted

theorem world_record (s : Schedule σ) (t : Nat) (pause : Pause σ) :
    (s.record t pause).world = s.world := by
  cases pause with
  | ended o =>
    simp only [record]
    split <;> rfl
  | _ => rfl

theorem world_abandon (s : Schedule σ) (cancel : Bool) (tasks : List Nat) :
    (s.abandon cancel tasks).world = s.world :=
  abandon_induction (P := fun s' => s'.world = s.world) cancel rfl
    fun s' hs' b _ => (world_drop s' b).trans hs'

theorem moments_of_work? {s : Schedule σ} {u : Turn} {t : Nat} {p : Process σ}
    (h : s.work? u = some (t, p)) : s.moments u = p.moments t s.world := by
  cases u <;> simp [moments, work?] at h ⊢ <;> simp [h]

theorem moments_of_not_work {s : Schedule σ} {u : Turn} (hu : u ≠ .interrupt)
    (h : s.work? u = none) : s.moments u = [] := by
  cases u <;> simp [moments, h] at hu ⊢

/-- What a task does in a turn, it does as it goes on. -/
theorem exists_work?_of_mem_moments {s : Schedule σ} {u : Turn} {m : Moment σ} (hm : m ∈ s.moments u)
    {t : Nat} (ht : m.task = some t) :
    ∃ p, s.work? u = some (t, p) ∧ m ∈ p.moments t s.world := by
  cases hw : s.work? u with
  | some tp =>
    rw [moments_of_work? hw] at hm
    obtain rfl : tp.1 = t := Option.some.inj ((Process.task_of_mem_moments hm).symm.trans ht)
    exact ⟨tp.2, rfl, hm⟩
  | none =>
    by_cases hu : u = .interrupt
    · subst hu
      obtain rfl := List.mem_singleton.mp hm
      cases ht
    · rw [moments_of_not_work hu hw] at hm
      cases hm

/-- **A turn does what is listed**, and nothing else happens to the world. -/
theorem linked_take (s : Schedule σ) (cancel : Bool) (u : Turn) :
    Moment.Linked s.world (s.moments u) (s.take cancel u).world := by
  have hvoid : Moment.Linked s.world [] s.world := rfl
  generalize hs' : s.take cancel u = s'
  cases hs' ▸ s.taken_take cancel u with
  | @works _ t p h tasks htasks =>
    rw [moments_of_work? h, proceed, world_record, world_abandon]
    exact p.linked_moments t s.world
  | void hu h => rwa [moments_of_not_work hu h]
  | woken hst => exact hvoid
  | told => exact hvoid
  | waits h hst => rwa [moments_of_not_work (by simp) h]
  | released hu h t => rwa [moments_of_not_work hu h]
  | interrupted => exact ⟨rfl, rfl⟩

end Schedule

/-! ### Where states come from -/

/-- What is forked, if something is. -/
def Pause.kind? : Pause σ → Option Fork
  | forked kind .. => some kind
  | _ => none

/-- The state of a task that pauses; the branches that it forks are numbered from the given one on. -/
def Pause.state (first : Nat) : Pause σ → TaskState σ
  | ended o => .ended o
  | yielded rest => .ready rest
  | asleep _ rest => .asleep rest
  | forked _ count _ next => .joining first count ((List.range count).map (first + ·)) false next

namespace Schedule

/-- Each task of a schedule in which another one has paused is that one, or as it was, or one of the
branches that it has forked. -/
theorem state?_record_cases {s : Schedule σ} {t u : Nat} {pause : Pause σ} {st : TaskState σ}
    (ht : t < s.tasks.length) (h : (s.record t pause).state? u = some st) :
    u = t ∧ st = pause.state s.tasks.length ∨ u ≠ t ∧ s.state? u = some st ∨
      ∃ kind count branch next i, pause = .forked kind count branch next ∧ st = .ready (branch i) ∧
        u = s.tasks.length + i := by
  have hset {st' : TaskState σ} (h : (s.setState t st').state? u = some st) :
      u = t ∧ st = st' ∨ u ≠ t ∧ s.state? u = some st := state?_setState_cases h
  cases pause with
  | ended o =>
    have hend : (s.setState t (.ended o)).state? u = some st := by
      simp only [record] at h
      split at h <;> exact h
    exact (hset hend).imp id .inl
  | yielded rest => exact (hset h).imp id .inl
  | asleep seconds rest => exact (hset h).imp id .inl
  | forked kind count branch next =>
    rw [record_forked s t kind count branch ht] at h
    rcases state?_setState_cases h with ⟨rfl, rfl⟩ | ⟨hu, h⟩
    · exact .inl ⟨rfl, rfl⟩
    · have h : (s.addBranches t kind count branch).state? u = some st := h
      rcases lt_or_exists_of_addBranches s t kind count branch h with hlt | ⟨i, rfl⟩
      · rw [state?_addBranches_of_lt s t kind count branch hlt] at h
        exact .inr (.inl ⟨hu, h⟩)
      · rw [state?_addBranches] at h
        exact .inr (.inr ⟨kind, count, branch, next, i, rfl, (Option.some.inj h).symm, rfl⟩)

theorem state?_abandon_cases {s : Schedule σ} {cancel : Bool} {tasks : List Nat} {u : Nat}
    {st : TaskState σ} (htasks : ∀ b ∈ tasks, s.outcome? b = none)
    (h : (s.abandon cancel tasks).state? u = some st) :
    s.state? u = some st ∨ st = .dropped ∧ s.outcome? u = none := by
  by_cases hu : u ∈ tasks
  · by_cases hst : st = .dropped
    · exact .inr ⟨hst, htasks u hu⟩
    · refine .inl ?_
      refine abandon_induction (P := fun s' => s'.state? u = some st → s.state? u = some st) cancel
        id ?_ h
      intro s' hs' b _ hdrop
      exact hs' (state?_of_drop hdrop hst)
  · rw [state?_abandon_of_not_mem s cancel hu] at h
    exact .inl h

/-- How a task has come to a state in a turn. -/
inductive Becomes (s : Schedule σ) (u : Turn) (t : Nat) : TaskState σ → Prop
  | same {st : TaskState σ} (h : s.state? t = some st) : Becomes s u t st
  | dropped (h : s.outcome? t = none) : Becomes s u t .dropped
  | woken {p : Process σ} (h : s.state? t = some (.asleep p)) : Becomes s u t (.ready p)
  | told {b first count : Nat} {awaited : List Nat} {next : Joined → Process σ} (hu : u = .announce b)
      (h : s.state? t = some (.joining first count awaited false next)) :
      Becomes s u t (.joining first count awaited true next)
  | gathers {first count : Nat} {awaited : List Nat} {next : Joined → Process σ} (hu : u = .gather t)
      (h : s.state? t = some (.joining first count awaited true next))
      (hj : s.joined? first count awaited = none) :
      Becomes s u t (.joining first count (s.pending awaited) false next)
  | paused {p : Process σ} (h : s.work? u = some (t, p)) :
      Becomes s u t ((p.advance s.world).2.state s.tasks.length)
  | branch {parent count : Nat} {kind : Fork} {p : Process σ} {branch : Fin count → Process σ}
      {next : Joined → Process σ} (h : s.work? u = some (parent, p))
      (hp : (p.advance s.world).2 = .forked kind count branch next) (i : Fin count)
      (ht : t = s.tasks.length + i) : Becomes s u t (.ready (branch i))

/-- A task that goes on is ready, or has gathered its branches. -/
theorem work?_cases {s : Schedule σ} {u : Turn} {t : Nat} {p : Process σ} (h : s.work? u = some (t, p)) :
    s.state? t = some (.ready p) ∨ ∃ first count awaited next j, u = .gather t ∧
      s.state? t = some (.joining first count awaited true next) ∧
      s.joined? first count awaited = some j ∧ p = next j := by
  cases u with
  | resume task =>
    simp only [work?] at h
    split at h
    · rename_i hst
      obtain ⟨rfl, rfl⟩ := Prod.mk.inj (Option.some.inj h)
      exact .inl hst
    · cases h
  | gather task =>
    simp only [work?] at h
    split at h
    · rename_i hst
      obtain ⟨j, hj, heq⟩ := Option.map_eq_some_iff.mp h
      obtain ⟨rfl, rfl⟩ := Prod.mk.inj heq
      exact .inr ⟨_, _, _, _, j, rfl, hst, hj, rfl⟩
    · cases h
  | _ => cases h

theorem lt_length_of_work? {s : Schedule σ} {u : Turn} {t : Nat} {p : Process σ}
    (h : s.work? u = some (t, p)) : t < s.tasks.length := by
  rcases work?_cases h with hst | ⟨_, _, _, _, _, -, hst, -, -⟩
  · exact lt_length_of_state? hst
  · exact lt_length_of_state? hst

theorem proceed_eq (s : Schedule σ) (t : Nat) (p : Process σ) :
    s.proceed t p = { s with world := (p.advance s.world).1 }.record t (p.advance s.world).2 := rfl

@[simp] theorem length_abandon (s : Schedule σ) (cancel : Bool) (tasks : List Nat) :
    (s.abandon cancel tasks).tasks.length = s.tasks.length :=
  abandon_induction (P := fun s' => s'.tasks.length = s.tasks.length) cancel rfl
    fun s' hs' b _ => (length_drop s' b).trans hs'

/-- **Each state comes from an earlier one** in one of seven ways. -/
theorem becomes_of_take {s : Schedule σ} {cancel : Bool} {u : Turn} {t : Nat} {st : TaskState σ}
    (h : (s.take cancel u).state? t = some st) : s.Becomes u t st := by
  generalize hs' : s.take cancel u = s' at h
  cases hs' ▸ s.taken_take cancel u with
  | @works _ v p hwork tasks htasks =>
    have hlt : v < (s.abandon cancel tasks).tasks.length := by
      rw [length_abandon]
      exact lt_length_of_work? hwork
    rw [proceed_eq, world_abandon] at h
    rcases state?_record_cases (by exact hlt) h with
      ⟨rfl, rfl⟩ | ⟨-, h⟩ | ⟨kind, count, branch, next, i, hp, rfl, ht⟩
    · rw [length_abandon]
      exact .paused hwork
    · rcases state?_abandon_cases htasks h with h | ⟨rfl, hnone⟩
      · exact .same h
      · exact .dropped hnone
    · rw [length_abandon] at ht
      exact .branch hwork hp i ht
  | void _ _ => exact .same h
  | woken hst =>
    rcases state?_setState_cases h with ⟨rfl, rfl⟩ | ⟨-, h⟩
    · exact .woken hst
    · exact .same h
  | told hst _ _ =>
    rcases state?_setState_cases h with ⟨rfl, rfl⟩ | ⟨-, h⟩
    · exact .told rfl hst
    · exact .same h
  | waits hwork hst =>
    rcases state?_setState_cases h with ⟨rfl, rfl⟩ | ⟨-, h⟩
    · exact .gathers rfl hst (by simpa [work?, hst] using hwork)
    · exact .same h
  | released _ _ v =>
    rw [state?_release] at h
    exact .same h
  | interrupted => exact .same h

end Schedule

/-! ### Properties of all that is left to do -/

/-- Has each process the property that a task goes on with after a pause? -/
def Pause.All (P : Process σ → Prop) : Pause σ → Prop
  | ended _ => True
  | yielded rest => P rest
  | asleep _ rest => P rest
  | forked _ _ branch next => (∀ i, P (branch i)) ∧ ∀ j, P (next j)

/-- Has each process the property that a task in a state goes on with? -/
def TaskState.All (P : Process σ → Prop) : TaskState σ → Prop
  | ready p => P p
  | asleep p => P p
  | joining _ _ _ _ next => ∀ j, P (next j)
  | ended _ => True
  | dropped => True

/-- Do processes with the property leave only such ones to do? -/
def Process.Inherited (P : Process σ → Prop) : Prop := ∀ p w, P p → (p.advance w).2.All P

namespace Schedule

/-- Has each process of the schedule the property? -/
def All (P : Process σ → Prop) (s : Schedule σ) : Prop := ∀ t st, s.state? t = some st → st.All P

namespace All

variable {P : Process σ → Prop} {s : Schedule σ}

theorem work (h : s.All P) {u : Turn} {t : Nat} {p : Process σ} (hw : s.work? u = some (t, p)) :
    P p := by
  rcases work?_cases hw with hst | ⟨_, _, _, _, j, -, hst, -, rfl⟩
  · exact h _ _ hst
  · exact h _ _ hst j

/-- **A turn keeps** what is inherited. -/
theorem take (hP : Process.Inherited P) (h : s.All P) (cancel : Bool) (u : Turn) :
    (s.take cancel u).All P := by
  intro t st hst
  cases becomes_of_take hst with
  | same hold => exact h t st hold
  | dropped => trivial
  | woken hold =>
    have hasleep := h t _ hold
    exact hasleep
  | told _ hold =>
    have hjoining := h t _ hold
    exact hjoining
  | gathers _ hold _ =>
    have hjoining := h t _ hold
    exact hjoining
  | @paused p hw =>
    have hall := hP p s.world (h.work hw)
    generalize (p.advance s.world).2 = pause at hall
    cases pause with
    | ended o => trivial
    | yielded rest => exact hall
    | asleep seconds rest => exact hall
    | forked kind count branch next => exact hall.2
  | @branch _ _ _ p _ _ hw hp i =>
    have hall := hP p s.world (h.work hw)
    rw [hp] at hall
    exact hall.1 i

theorem start (w : World σ) {p : Process σ} (hp : P p) (alarms : Alarms Turn) :
    (start w p alarms).All P := by
  intro t st hst
  have hlt := lt_length_of_state? hst
  obtain rfl : t = 0 := by simpa [Schedule.start] using hlt
  obtain rfl : TaskState.ready p = st := Option.some.inj hst
  exact hp

end All

end Schedule

/-! ### Courses -/

/-- A schedule, with the turns that are still to be taken in the round that is going on. -/
structure Point (σ : Type) where
  turns : List Turn
  schedule : Schedule σ

namespace Point

/-- A schedule between two rounds. -/
def of (s : Schedule σ) : Point σ := ⟨[], s⟩

/-- The next thing to happen, with what is done in it: a turn is taken, a round begins, or time passes
because no turn is due. -/
inductive Step (cancel : Bool) : Point σ → List (Moment σ) → Point σ → Prop
  | turn (u : Turn) (turns : List Turn) (s : Schedule σ) :
      Step cancel ⟨u :: turns, s⟩ (s.moments u) ⟨turns, s.take cancel u⟩
  | round (s : Schedule σ) : Step cancel (of s) [] ⟨s.ring.queue, { s.ring with queue := [] }⟩
  | advance {s s' : Schedule σ} (h : s.advance = some s') : Step cancel (of s) [] (of s')

end Point

/-- The course of a run from one point to another, with all that is done in between. -/
inductive Course (cancel : Bool) (q : Point σ) : List (Moment σ) → Point σ → Prop
  | refl : Course cancel q [] q
  | step {ms ns : List (Moment σ)} {q' q'' : Point σ} (h : Course cancel q ms q')
      (hstep : Point.Step cancel q' ns q'') : Course cancel q (ms ++ ns) q''

namespace Schedule

theorem lasts_of_advance {s s' : Schedule σ} (h : s.advance = some s') : s.world.Lasts s'.world := by
  unfold advance at h
  simp only at h
  split at h
  · split at h
    · cases h
    · cases h
    · obtain rfl := Option.some.inj h
      unfold atTime
      split
      · rfl
      · exact .refl _
  · obtain rfl := Option.some.inj h
    exact .refl _

theorem tasks_of_advance {s s' : Schedule σ} (h : s.advance = some s') : s'.tasks = s.tasks := by
  unfold advance at h
  simp only at h
  split at h
  · split at h
    · cases h
    · cases h
    · obtain rfl := Option.some.inj h
      unfold atTime
      split <;> rfl
  · obtain rfl := Option.some.inj h
    rfl

end Schedule

namespace Schedule

/-- What is done in turns that are taken one after the other. -/
def momentsOf (cancel : Bool) (s : Schedule σ) : List Turn → List (Moment σ)
  | [] => []
  | u :: turns => s.moments u ++ (s.take cancel u).momentsOf cancel turns

/-- What is done in a round. -/
def roundMoments (cancel : Bool) (s : Schedule σ) : List (Moment σ) :=
  { s.ring with queue := [] }.momentsOf cancel s.ring.queue

/-- What is done in so many rounds, or until nothing is due any more, and the schedule after them. -/
def rounds (cancel : Bool) : Nat → Schedule σ → List (Moment σ) × Schedule σ
  | 0, s => ([], s)
  | n + 1, s =>
    match s.advance with
    | none => ([], s)
    | some s' =>
      let (ms, end') := rounds cancel n (s'.round cancel)
      (s'.roundMoments cancel ++ ms, end')

end Schedule

namespace Point.Step

variable {cancel : Bool} {q q' : Point σ} {ms : List (Moment σ)}

theorem linked (h : Step cancel q ms q') :
    Moment.Linked q.schedule.world ms q'.schedule.world := by
  cases h with
  | turn u turns s => exact s.linked_take cancel u
  | round s => exact .refl s.world
  | advance h => exact Schedule.lasts_of_advance h

theorem all {P : Process σ → Prop} (hP : Process.Inherited P) (hq : q.schedule.All P)
    (h : Step cancel q ms q') : q'.schedule.All P := by
  cases h with
  | turn u turns s => exact hq.take hP cancel u
  | round s => exact hq
  | advance h =>
    intro t st hst
    rw [Schedule.state?, of, Schedule.tasks_of_advance h] at hst
    exact hq t st hst

end Point.Step

namespace Course

variable {cancel : Bool} {q q' q'' : Point σ} {ms ns : List (Moment σ)}

theorem single (h : Point.Step cancel q ms q') : Course cancel q ms q' :=
  .step .refl h

theorem trans (h : Course cancel q ms q') (h' : Course cancel q' ns q'') :
    Course cancel q (ms ++ ns) q'' := by
  induction h' with
  | refl => rwa [List.append_nil]
  | step _ hstep ih =>
    rw [← List.append_assoc]
    exact ih.step hstep

/-- **The moments of a course** account for all that happens to the world. -/
theorem linked (h : Course cancel q ms q') :
    Moment.Linked q.schedule.world ms q'.schedule.world := by
  induction h with
  | refl => exact .refl _
  | step _ hstep ih => exact ih.append hstep.linked

/-- **What is inherited holds of all tasks** at every point of a course. -/
theorem all {P : Process σ → Prop} (hP : Process.Inherited P) (hq : q.schedule.All P)
    (h : Course cancel q ms q') : q'.schedule.All P := by
  induction h with
  | refl => exact hq
  | step _ hstep ih => exact hstep.all hP ih

/-- Turns are taken one after the other. -/
theorem takes (cancel : Bool) (turns rest : List Turn) (s : Schedule σ) :
    Course cancel ⟨turns ++ rest, s⟩ (s.momentsOf cancel turns)
      ⟨rest, turns.foldl (Schedule.take cancel) s⟩ := by
  induction turns generalizing s with
  | nil => exact .refl
  | cons u turns ih => exact (single (.turn u (turns ++ rest) s)).trans (ih (s.take cancel u))

theorem exists_takes (cancel : Bool) (turns rest : List Turn) (s : Schedule σ) :
    ∃ ms, Course cancel ⟨turns ++ rest, s⟩ ms ⟨rest, turns.foldl (Schedule.take cancel) s⟩ :=
  ⟨_, takes cancel turns rest s⟩

theorem round (cancel : Bool) (s : Schedule σ) :
    Course cancel (.of s) (s.roundMoments cancel) (.of (s.round cancel)) := by
  have h := takes cancel s.ring.queue [] { s.ring with queue := [] }
  rw [List.append_nil] at h
  exact (single (.round s)).trans h

theorem exists_round (cancel : Bool) (s : Schedule σ) :
    ∃ ms, Course cancel (.of s) ms (.of (s.round cancel)) :=
  ⟨_, round cancel s⟩

/-- **Rounds are a course**, with the time that passes between them. -/
theorem rounds (cancel : Bool) (n : Nat) (s : Schedule σ) :
    Course cancel (.of s) (s.rounds cancel n).1 (.of (s.rounds cancel n).2) := by
  induction n generalizing s with
  | zero => exact .refl
  | succ n ih =>
    rw [Schedule.rounds]
    split
    · exact .refl
    · rename_i s' hs'
      exact ((single (.advance hs')).trans (round cancel s')).trans (ih _)

end Course

/-- **What a run comes to** is the end of a course. -/
theorem Schedule.exists_course_of_runFor {cancel : Bool} {rounds : Nat} {s : Schedule σ} {o : Outcome}
    {w : World σ} (h : runFor cancel rounds s = some (o, w)) :
    ∃ ms s', Course cancel (.of s) ms (.of s') ∧ s'.world = w := by
  induction rounds generalizing s with
  | zero => cases h
  | succ rounds ih =>
    rw [runFor] at h
    split at h
    · rename_i o' ho
      obtain ⟨-, rfl⟩ : o' = o ∧ (s.round cancel).world = w := by simpa using h
      obtain ⟨ms, hround⟩ := Course.exists_round cancel s
      exact ⟨ms, _, hround, rfl⟩
    · split at h
      · rename_i s' hs'
        obtain ⟨ms, hround⟩ := Course.exists_round cancel s'
        obtain ⟨ns, s'', hrest, hw⟩ := ih h
        exact ⟨_, s'', ((Course.single (.advance hs')).trans hround).trans hrest, hw⟩
      · cases h

end PipeScript
