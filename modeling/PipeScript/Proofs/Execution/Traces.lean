import PipeScript.Proofs.Execution.Blocks

/-!
# What a task does by itself

The turns of a task come up between those of the others, which change the world meanwhile. What the
task does, one turn after the other, is still what its own process says, so it can be told without the
other tasks.

## The model

`Process.Goes` says that a process can do some deeds, one after the other, and have another process left
to do. The worlds that it looks at are of some kind, here called seen, and its branches may come to
anything. A part of a process that has been gone through is a `Visit`: what was done in it, what it has
come to, and what was done after it, before the next one.

Main results: what a process with a continuation does falls into two parts
(`Process.Goes.exists_of_andThen`), so does what comes with a nap (`Process.Goes.exists_of_sleep`); and
in every course of a run a task does what its process can do (`Course.goes`), however its turns lie
between those of the others.
-/

namespace PipeScript

variable {σ : Type}

/-- Is what is true of a world true of all worlds before it? -/
structure World.Receding (seen : World σ → Prop) : Prop where
  lasts : ∀ {w w' : World σ}, w.Lasts w' → seen w' → seen w
  deed : ∀ {w : World σ} (d : Deed σ), seen (d.apply w) → seen w

theorem World.receding_true : Receding fun _ : World σ => True :=
  ⟨fun _ h => h, fun _ h => h⟩

/-- A run that has not been cancelled had not been cancelled before. -/
theorem World.receding_uncancelled : Receding fun w : World σ => w.cancelled = false where
  lasts h hw' := by
    rw [h] at hw'
    exact hw'
  deed d hw := by
    cases d with
    | slice place seconds => exact hw
    | change e =>
      cases e with
      | cancel => cases hw
      | _ => exact hw

theorem World.Receding.of_linked {seen : World σ → Prop} (hseen : Receding seen) {w w' : World σ}
    {ms : List (Moment σ)} (h : Moment.Linked w ms w') (hw' : seen w') : seen w := by
  induction ms generalizing w with
  | nil => exact hseen.lasts h hw'
  | cons m ms ih => exact hseen.lasts h.1 (hseen.deed m.deed (ih h.2))

/-! ### Processes -/

namespace Process

/-- Can the process do this and have that left to do, in worlds that are seen? -/
inductive Goes (seen : World σ → Prop) : Process σ → List (Deed σ) → Process σ → Prop
  | stay (p : Process σ) : Goes seen p [] p
  | look {next : World σ → Process σ} {ds : List (Deed σ)} {q : Process σ} {w : World σ} (hw : seen w)
      (h : Goes seen (next w) ds q) : Goes seen (look next) ds q
  | act (e : Effect σ) {next : Process σ} {ds : List (Deed σ)} {q : Process σ}
      (h : Goes seen next ds q) : Goes seen (act e next) (.change e :: ds) q
  | wait (seconds : Binary64) {next : Process σ} {ds : List (Deed σ)} {q : Process σ}
      (h : Goes seen next ds q) : Goes seen (wait seconds next) ds q
  | slice {place : String} {r : Binary64} {next : Bool → Process σ} {ds : List (Deed σ)} {q : Process σ}
      (h : Goes seen (nap place (r - napSlice) next) ds q) :
      Goes seen (nap place r next) (.slice place (Binary64.min napSlice r) :: ds) q
  | wake {place : String} {r : Binary64} {next : Bool → Process σ} {ds : List (Deed σ)} {q : Process σ}
      {w : World σ} (hw : seen w) (h : Goes seen (next w.cancelled) ds q) :
      Goes seen (nap place r next) ds q
  | join {kind : Fork} {count : Nat} (branch : Fin count → Process σ) {next : Joined → Process σ}
      {ds : List (Deed σ)} {q : Process σ} (j : Joined) (h : Goes seen (next j) ds q) :
      Goes seen (fork kind count branch next) ds q

namespace Goes

variable {seen : World σ → Prop}

theorem trans {p p' q : Process σ} {ds ds' : List (Deed σ)} (h : p.Goes seen ds p')
    (h' : p'.Goes seen ds' q) : p.Goes seen (ds ++ ds') q := by
  induction h with
  | stay => exact h'
  | look hw _ ih => exact .look hw (ih h')
  | act e _ ih => exact .act e (ih h')
  | wait s _ ih => exact .wait s (ih h')
  | slice _ ih => exact .slice (ih h')
  | wake hw _ ih => exact .wake hw (ih h')
  | join branch j _ ih => exact .join branch j (ih h')

/-- A process that has ended does nothing more. -/
theorem eq_of_done {o o' : Outcome} {ds : List (Deed σ)} (h : (done o).Goes seen ds (done o')) :
    ds = [] ∧ o' = o := by
  cases h
  exact ⟨rfl, rfl⟩

/-- A nap is gone through in slices, whatever comes after it. -/
theorem exists_of_nap {place : String} {r : Binary64} {next : Bool → Process σ} {ds : List (Deed σ)}
    {o : Outcome} (h : (nap place r next).Goes seen ds (done o)) :
    ∃ slices w rest, ds = slices ++ rest ∧ (∀ d ∈ slices, ∃ s, d = .slice place s) ∧ seen w ∧
      (next w.cancelled).Goes seen rest (done o) ∧
      ∀ {k : Bool → Process σ} {ds' : List (Deed σ)} {q : Process σ},
        (k w.cancelled).Goes seen ds' q → (nap place r k).Goes seen (slices ++ ds') q := by
  generalize hp : nap place r next = p at h
  generalize hq : done o = q at h
  induction h generalizing r with
  | slice _ ih =>
    obtain ⟨rfl, rfl, rfl⟩ := Process.nap.inj hp
    obtain ⟨slices, w, rest, rfl, hslices, hw, hrest, hgo⟩ := ih rfl hq
    refine ⟨_ :: slices, w, rest, rfl, ?_, hw, hrest, fun h => .slice (hgo h)⟩
    intro d hd
    rcases List.mem_cons.mp hd with rfl | hd
    · exact ⟨_, rfl⟩
    · exact hslices d hd
  | @wake _ _ _ ds _ w hw h =>
    obtain ⟨rfl, rfl, rfl⟩ := Process.nap.inj hp
    subst hq
    exact ⟨[], w, ds, rfl, by simp, hw, h, fun h => .wake hw h⟩
  | stay =>
    subst hp
    cases hq
  | _ => cases hp

/-- **A process with a continuation** goes first, and then its continuation. -/
theorem exists_of_andThen {p : Process σ} {k : Outcome → Process σ} {ds : List (Deed σ)} {o : Outcome}
    (h : (p.andThen k).Goes seen ds (done o)) :
    ∃ first o' rest, ds = first ++ rest ∧ p.Goes seen first (done o') ∧
      (k o').Goes seen rest (done o) := by
  induction p generalizing ds with
  | done o' => exact ⟨[], o', ds, rfl, .stay _, h⟩
  | look next ih =>
    cases h with
    | @look _ _ _ w hw h =>
      obtain ⟨first, o', rest, rfl, hfirst, hrest⟩ := ih w h
      exact ⟨first, o', rest, rfl, .look hw hfirst, hrest⟩
  | act e next ih =>
    cases h with
    | act _ h =>
      obtain ⟨first, o', rest, rfl, hfirst, hrest⟩ := ih h
      exact ⟨_ :: first, o', rest, rfl, .act e hfirst, hrest⟩
  | wait s next ih =>
    cases h with
    | wait _ h =>
      obtain ⟨first, o', rest, rfl, hfirst, hrest⟩ := ih h
      exact ⟨first, o', rest, rfl, .wait s hfirst, hrest⟩
  | nap place r next ih =>
    obtain ⟨slices, w, rest, rfl, -, -, hrest, hgo⟩ := exists_of_nap h
    obtain ⟨first, o', rest, rfl, hfirst, hrest⟩ := ih w.cancelled hrest
    exact ⟨slices ++ first, o', rest, (List.append_assoc ..).symm, hgo hfirst, hrest⟩
  | fork kind n branch next _ ih =>
    cases h with
    | join _ j h =>
      obtain ⟨first, o', rest, rfl, hfirst, hrest⟩ := ih j h
      exact ⟨first, o', rest, rfl, .join branch j hfirst, hrest⟩

/-- A process that may end at once if the run has been cancelled does so, or goes on. -/
theorem exists_of_unless {f : World σ → Process σ} {p : Process σ} {ds : List (Deed σ)} {o : Outcome}
    (h : (Process.look fun w => if w.cancelled then f w else p).Goes seen ds (done o)) :
    (∃ w, seen w ∧ w.cancelled = true ∧ (f w).Goes seen ds (done o)) ∨ p.Goes seen ds (done o) := by
  cases h with
  | @look _ _ _ w hw h =>
    have h : Goes seen (if w.cancelled then f w else p) ds (done o) := h
    by_cases hc : w.cancelled = true
    · rw [if_pos hc] at h
      exact .inl ⟨w, hw, hc, h⟩
    · rw [if_neg hc] at h
      exact .inr h

end Goes

end Process

/-! ### Naps and visits -/

/-- Is it a nap of so many seconds that is asked for, and the slices that are taken of it? -/
def Deed.IsNap (place : String) (seconds : Binary64) (ds : List (Deed σ)) : Prop :=
  ∃ slices, ds = .change (.nap place seconds) :: slices ∧ ∀ d ∈ slices, ∃ s, d = .slice place s

theorem Process.Goes.exists_of_sleep {seen : World σ → Prop} {place : String} {seconds : Binary64}
    {next : Bool → Process σ} {ds : List (Deed σ)} {o : Outcome}
    (h : (sleep place seconds next).Goes seen ds (done o)) :
    ∃ nap w rest, ds = nap ++ rest ∧ Deed.IsNap place seconds nap ∧ seen w ∧
      (next w.cancelled).Goes seen rest (done o) := by
  cases h with
  | act _ h =>
    obtain ⟨slices, w, rest, rfl, hslices, hw, hrest, -⟩ := exists_of_nap h
    exact ⟨_ :: slices, w, rest, rfl, ⟨slices, rfl, hslices⟩, hw, hrest⟩

/-- A part of a process that has been gone through: what was done in it, what it has come to, and what
was done after it, before the next one. -/
structure Visit (σ : Type) where
  deeds : List (Deed σ)
  outcome : Outcome
  after : List (Deed σ)

/-- All that was done in visits, one after the other. -/
def Visit.trace (visits : List (Visit σ)) : List (Deed σ) := visits.flatMap fun v => v.deeds ++ v.after

@[simp] theorem Visit.trace_nil : trace ([] : List (Visit σ)) = [] := rfl

@[simp] theorem Visit.trace_cons (v : Visit σ) (visits : List (Visit σ)) :
    trace (v :: visits) = v.deeds ++ v.after ++ trace visits := rfl

/-! ### Tasks in a run -/

/-- Is this what a task in a state has left to do? -/
inductive TaskState.Left : TaskState σ → Process σ → Prop
  | ready (p : Process σ) : Left (.ready p) p
  | asleep (p : Process σ) : Left (.asleep p) p
  | joining {first count : Nat} {awaited : List Nat} {due : Bool} {next : Joined → Process σ}
      (kind : Fork) (branch : Fin count → Process σ) :
      Left (.joining first count awaited due next) (.fork kind count branch next)
  | ended (o : Outcome) : Left (.ended o) (.done o)

/-- What a task does in some moments. -/
def Moment.deedsOf (t : Nat) (ms : List (Moment σ)) : List (Deed σ) :=
  (ms.filter fun m => m.task = some t).map (·.deed)

namespace Moment

@[simp] theorem deedsOf_nil (t : Nat) : deedsOf t ([] : List (Moment σ)) = [] := rfl

@[simp] theorem deedsOf_append (t : Nat) (ms ns : List (Moment σ)) :
    deedsOf t (ms ++ ns) = deedsOf t ms ++ deedsOf t ns := by
  simp [deedsOf]

theorem deedsOf_moments (t : Nat) (w : World σ) (p : Process σ) :
    deedsOf t (p.moments t w) = (p.moments t w).map (·.deed) := by
  unfold deedsOf
  rw [List.filter_eq_self.mpr]
  intro m hm
  simpa using Process.task_of_mem_moments hm

end Moment

variable {seen : World σ → Prop}

/-- **A task that goes on** does what its process can do, and has the rest of it left as it pauses. -/
theorem Process.exists_goes_advance (hseen : World.Receding seen) (t first : Nat) {p : Process σ}
    {w : World σ} (hw : seen (p.advance w).1) :
    ∃ rest, ((p.advance w).2.state first).Left rest ∧
      p.Goes seen ((p.moments t w).map (·.deed)) rest := by
  have hfound {p : Process σ} {w : World σ} (hw : seen (p.advance w).1) : seen w :=
    hseen.of_linked (p.linked_moments t w) hw
  induction p generalizing w with
  | done o => exact ⟨_, .ended o, .stay _⟩
  | look next ih =>
    obtain ⟨rest, hleft, hgoes⟩ := ih w hw
    exact ⟨rest, hleft, .look (hfound hw) hgoes⟩
  | act e next ih =>
    obtain ⟨rest, hleft, hgoes⟩ := ih hw
    exact ⟨rest, hleft, .act e hgoes⟩
  | wait seconds next ih =>
    refine ⟨next, ?_, .wait seconds (.stay next)⟩
    rw [advance]
    split
    · exact .ready next
    · exact .asleep next
  | nap place r next ih =>
    have hw' := hfound hw
    rw [advance] at hw ⊢
    rw [moments]
    by_cases hc : w.cancelled = true
    · simp only [if_pos hc] at hw ⊢
      obtain ⟨rest, hleft, hgoes⟩ := ih true hw
      exact ⟨rest, hleft, .wake hw' (hc.symm ▸ hgoes)⟩
    · by_cases hr : Binary64.lt 0 r = true
      · simp only [if_neg hc, if_pos hr]
        exact ⟨_, .asleep _, .slice (.stay _)⟩
      · simp only [if_neg hc, if_neg hr] at hw ⊢
        obtain ⟨rest, hleft, hgoes⟩ := ih false hw
        rw [Bool.not_eq_true] at hc
        exact ⟨rest, hleft, .wake hw' (hc.symm ▸ hgoes)⟩
  | fork kind count branch next _ ih =>
    rw [advance] at hw ⊢
    rw [moments]
    by_cases hzero : count = 0
    · simp only [if_pos hzero] at hw ⊢
      obtain ⟨rest, hleft, hgoes⟩ := ih (.ok []) hw
      exact ⟨rest, hleft, .join branch _ hgoes⟩
    · simp only [if_neg hzero]
      exact ⟨_, .joining kind branch, .stay _⟩

namespace Schedule

variable {s : Schedule σ} {t : Nat} {u : Turn} {cancel : Bool}

theorem world_take_of_work? {p : Process σ} (hw : s.work? u = some (t, p)) :
    (s.take cancel u).world = (p.advance s.world).1 := by
  generalize hs' : s.take cancel u = s'
  cases hs' ▸ s.taken_take cancel u with
  | @works _ v p' hw' tasks htasks =>
    obtain ⟨rfl, rfl⟩ := Prod.mk.inj (Option.some.inj (hw.symm.trans hw'))
    rw [proceed_eq, world_record, world_abandon]
  | void _ h => rw [hw] at h; cases h
  | woken => cases hw
  | told => cases hw
  | waits h => rw [hw] at h; cases h
  | released _ h => rw [hw] at h; cases h
  | interrupted => cases hw

/-- A task does nothing in a turn in which it does not go on. -/
theorem deedsOf_moments_of_not_work (h : ∀ p, s.work? u ≠ some (t, p)) :
    Moment.deedsOf t (s.moments u) = [] := by
  by_cases hu : u = .interrupt
  · subst hu
    rfl
  · cases hw : s.work? u with
    | none => rw [moments_of_not_work hu hw, Moment.deedsOf_nil]
    | some vp =>
      obtain ⟨v, p⟩ := vp
      have hne : v ≠ t := fun heq => h p (heq ▸ hw)
      rw [moments_of_work? hw, Moment.deedsOf, List.filter_eq_nil_iff.mpr, List.map_nil]
      intro m hm
      simpa [Process.task_of_mem_moments hm] using hne

/-- **In a turn a task does** what it can do of what it had left. -/
theorem exists_left_of_take (hseen : World.Receding seen) (ht : t < s.tasks.length)
    {st' : TaskState σ} (h : (s.take cancel u).state? t = some st')
    (hleft : st' ≠ .dropped) (hw : seen (s.take cancel u).world) :
    ∃ st, s.state? t = some st ∧ st ≠ .dropped ∧ ∀ p, st.Left p → ∃ rest, st'.Left rest ∧
      p.Goes seen (Moment.deedsOf t (s.moments u)) rest := by
  by_cases hwork : ∃ p, s.work? u = some (t, p)
  · obtain ⟨p, hp⟩ := hwork
    obtain rfl : _ = st' := Option.some.inj ((state?_take_of_work? hp cancel).symm.trans h)
    rw [world_take_of_work? hp] at hw
    obtain ⟨rest, hrest, hgoes⟩ := Process.exists_goes_advance hseen t s.tasks.length hw
    rw [moments_of_work? hp, Moment.deedsOf_moments]
    rcases work?_cases hp with hst | ⟨first, count, awaited, next, j, -, hst, -, rfl⟩
    · refine ⟨_, hst, by simp, ?_⟩
      rintro _ ⟨⟩
      exact ⟨rest, hrest, hgoes⟩
    · refine ⟨_, hst, by simp, ?_⟩
      rintro _ ⟨⟩
      exact ⟨rest, hrest, .join _ j hgoes⟩
  · rw [not_exists] at hwork
    rw [deedsOf_moments_of_not_work hwork]
    -- the task is where it was, or has been woken, or told of the end of a branch
    cases becomes_of_take h with
    | same hst => exact ⟨st', hst, hleft, fun p hp => ⟨p, hp, .stay p⟩⟩
    | dropped => exact absurd rfl hleft
    | @woken p hst =>
      refine ⟨_, hst, by simp, ?_⟩
      rintro _ ⟨⟩
      exact ⟨p, .ready p, .stay p⟩
    | told _ hst =>
      refine ⟨_, hst, by simp, fun p hp => ?_⟩
      cases hp with
      | joining kind branch => exact ⟨_, .joining kind branch, .stay _⟩
    | gathers _ hst =>
      refine ⟨_, hst, by simp, fun p hp => ?_⟩
      cases hp with
      | joining kind branch => exact ⟨_, .joining kind branch, .stay _⟩
    | paused hw => exact absurd hw (hwork _)
    | branch _ _ i heq => omega

end Schedule

namespace Course

variable {cancel : Bool} {q q' : Point σ} {ms : List (Moment σ)} {t : Nat}

/-- **In every course a task does** what its process can do. -/
theorem exists_left (hseen : World.Receding seen) (h : Course cancel q ms q') {st₀ st : TaskState σ}
    {p : Process σ} (hst₀ : q.schedule.state? t = some st₀) (hp : st₀.Left p)
    (hst : q'.schedule.state? t = some st) (hleft : st ≠ .dropped) (hw : seen q'.schedule.world) :
    ∃ rest, st.Left rest ∧ p.Goes seen (Moment.deedsOf t ms) rest := by
  induction h generalizing st with
  | refl =>
    obtain rfl : st₀ = st := Option.some.inj (hst₀.symm.trans hst)
    exact ⟨p, hp, .stay p⟩
  | @step ms ns q' q'' hcourse hstep ih =>
    rw [Moment.deedsOf_append]
    have hw' : seen q'.schedule.world := hseen.of_linked hstep.linked hw
    cases hstep with
    | turn u turns s =>
      have ht : t < s.tasks.length :=
        Nat.lt_of_lt_of_le (Schedule.lt_length_of_state? hst₀) hcourse.length_le
      obtain ⟨st', hst', hleft', hgo⟩ := Schedule.exists_left_of_take hseen ht hst hleft hw
      obtain ⟨p', hp', hgoes⟩ := ih hst' hleft' hw'
      obtain ⟨rest, hrest, hgoes'⟩ := hgo p' hp'
      exact ⟨rest, hrest, hgoes.trans hgoes'⟩
    | round s =>
      rw [Moment.deedsOf_nil, List.append_nil]
      exact ih hst hleft hw'
    | advance hs =>
      rw [Moment.deedsOf_nil, List.append_nil]
      refine ih ?_ hleft hw'
      rwa [Point.of, Schedule.state?, Schedule.tasks_of_advance hs] at hst

/-- **A run that has ended** has done what its process can do. -/
theorem goes (hseen : World.Receding seen) {w : World σ} {p : Process σ} {alarms : Alarms Turn}
    (h : Course cancel (.of (.start w p alarms)) ms q) {o : Outcome}
    (ho : q.schedule.outcome? 0 = some o) (hw : seen q.schedule.world) :
    p.Goes seen (Moment.deedsOf 0 ms) (.done o) := by
  have hst₀ : (Schedule.start w p alarms).state? 0 = some (.ready p) := rfl
  obtain ⟨rest, hleft, hgoes⟩ :=
    h.exists_left hseen hst₀ (.ready p) (Schedule.outcome?_eq_some_iff.mp ho) (by simp) hw
  cases hleft
  exact hgoes

end Course

/-- **A run that ends** has come to a point at which its main task has ended. -/
theorem Schedule.exists_course_to_end {cancel : Bool} {rounds : Nat} {s : Schedule σ} {o : Outcome}
    {w : World σ} (h : runFor cancel rounds s = some (o, w)) :
    ∃ ms s', Course cancel (.of s) ms (.of s') ∧ s'.outcome? 0 = some o ∧
      w = (s'.round cancel).world := by
  induction rounds generalizing s with
  | zero => cases h
  | succ rounds ih =>
    rw [runFor] at h
    split at h
    · rename_i o' ho
      obtain ⟨rfl, rfl⟩ : o' = o ∧ (s.round cancel).world = w := by simpa using h
      exact ⟨[], s, .refl, ho, rfl⟩
    · split at h
      · rename_i s' hs'
        obtain ⟨ms, hround⟩ := Course.exists_round cancel s'
        obtain ⟨ns, s'', hrest, hend⟩ := ih h
        exact ⟨_, s'', ((Course.single (.advance hs')).trans hround).trans hrest, hend⟩
      · cases h

end PipeScript
