import PipeScript.Proofs.Execution.Programs
import PipeScript.Proofs.Execution.Turns

/-!
# When a parallel block ends

A block ends as soon as it is decided: when a branch fails, or when the last one ends. No time passes
from then on until the task goes on with what the block comes to, and it goes on within two rounds.

## The model

A task is in a block while it waits for the branches (`Schedule.InBlock`). The block is decided when one
of the branches has failed or all have ended (`Schedule.Decided`), and `blockOutcome` is what it comes to.
The task notices the end of branches one turn after the other, and keeps those that have not ended
(`Schedule.Gathered`).

Main results: what a task goes on with after a block is a function of `blockOutcome` alone
(`Process.JoinsBlocks.exists_next`), which stands for the values of all branches in order, or for the
failure of the first one that has failed (`Schedule.values_of_joined?`, `Schedule.failure_of_joined?`);
time does not pass while a task is in a block that is decided (`Course.now_eq_of_decided`), and it leaves
such a block (`Schedule.exists_beats`).
-/

namespace PipeScript

variable {σ : Type}

/-! ### What a block comes to -/

/-- What a block comes to: the values of its branches under a heading each, or the failure of a branch
with its position, unless the failure is a cancellation. -/
def blockOutcome : Joined → Outcome
  | .ok values => .ok (Engine.merge values)
  | .error (index, f) => .error (if f.isCancelled then f else .branch index f)

theorem joinBranches_eq (j : Joined) : Engine.joinBranches (σ := σ) j = .done (blockOutcome j) := by
  cases j <;> rfl

namespace Process

/-- Does the process go on after each block with what the block comes to, and do so its branches? -/
def JoinsBlocks : Process σ → Prop
  | done _ => True
  | look next => ∀ w, (next w).JoinsBlocks
  | act _ next => next.JoinsBlocks
  | wait _ next => next.JoinsBlocks
  | nap _ _ next => ∀ c, (next c).JoinsBlocks
  | fork kind _ branch next =>
      (kind = .block → ∃ k : Outcome → Process σ, ∀ j, next j = k (blockOutcome j)) ∧
      (∀ i, (branch i).JoinsBlocks) ∧ ∀ j, (next j).JoinsBlocks

theorem joinsBlocks_ofJob (j : Job σ) : (ofJob j).JoinsBlocks := by
  induction j with
  | finish o => exact trivial
  | look next ih => exact ih
  | alter f next ih => exact ih
  | cancel next ih => exact ih
  | assign name value next ih => exact ih
  | log line next ih => exact ih
  | wait seconds next ih => exact ih
  | nap place seconds next ih => exact ih

namespace JoinsBlocks

theorem andThen {p : Process σ} {k : Outcome → Process σ} (h : p.JoinsBlocks)
    (hk : ∀ o, (k o).JoinsBlocks) : (p.andThen k).JoinsBlocks := by
  induction p with
  | done o => exact hk o
  | look next ih => exact fun w => ih w (h w)
  | act e next ih => exact ih h
  | wait seconds next ih => exact ih h
  | nap place r next ih => exact fun c => ih c (h c)
  | fork kind count branch next _ ih =>
    obtain ⟨hjoin, hbranch, hnext⟩ := h
    refine ⟨fun hkind => ?_, hbranch, fun j => ih j (hnext j)⟩
    obtain ⟨j, hj⟩ := hjoin hkind
    exact ⟨fun o => (j o).andThen k, fun x => congrArg (·.andThen k) (hj x)⟩

/-- What such a process leaves to do is of the same kind. -/
theorem inherited : Inherited fun p : Process σ => p.JoinsBlocks := by
  intro p w h
  induction p generalizing w with
  | done o => exact trivial
  | look next ih => exact ih w w (h w)
  | act e next ih => exact ih _ h
  | wait seconds next ih =>
    have hnext : next.JoinsBlocks := h
    rw [advance]
    split
    · exact hnext
    · exact hnext
  | nap place r next ih =>
    have hrest : (nap place (r - napSlice) next).JoinsBlocks := h
    rw [advance]
    by_cases hc : w.cancelled = true
    · rw [if_pos hc]
      exact ih true w (h true)
    · rw [if_neg hc]
      cases Binary64.lt 0 r with
      | true => exact hrest
      | false => exact ih false w (h false)
  | fork kind count branch next _ ih =>
    rw [advance]
    split
    · exact ih (.ok []) w (h.2.2 _)
    · exact h.2

/-- **What follows a block** depends on what it comes to, and on nothing else. -/
theorem exists_next {p : Process σ} (h : p.JoinsBlocks) {w : World σ} {count : Nat}
    {branch : Fin count → Process σ} {next : Joined → Process σ}
    (hp : (p.advance w).2 = .forked .block count branch next) :
    ∃ k : Outcome → Process σ, ∀ j, next j = k (blockOutcome j) := by
  induction p generalizing w with
  | done o => cases hp
  | look next ih => exact ih w (h w) hp
  | act e next ih => exact ih h hp
  | wait seconds next ih =>
    rw [advance] at hp
    split at hp <;> cases hp
  | nap place r next ih =>
    rw [advance] at hp
    split at hp
    · exact ih true (h true) hp
    · split at hp
      · cases hp
      · exact ih false (h false) hp
  | fork kind count branch next _ ih =>
    rw [advance] at hp
    split at hp
    · exact ih (.ok []) (h.2.2 _) hp
    · cases hp
      exact h.1 rfl

end JoinsBlocks

end Process

theorem Engine.rules_joinsBlocks (e : Engine σ) :
    e.Rules (fun _ p => p.JoinsBlocks) fun _ => True where
  weaken h := h
  done _ := trivial
  afterLook h := by
    intro w
    show Process.JoinsBlocks (if w.cancelled then _ else _)
    split
    · exact trivial
    · exact h
  look h := h
  log h := h
  count h := h
  sleep _ htrue hfalse := by
    intro c
    cases c with
    | true => exact htrue
    | false => exact hfalse
  fork hjoin hbranch hnext := by
    subst hjoin
    exact ⟨fun _ => ⟨.done, joinBranches_eq⟩, hbranch, hnext⟩
  andThen h hk := h.andThen hk
  begin h := h
  finish h := h
  work _ a b input := Process.joinsBlocks_ofJob _
  thread h := ⟨fun hkind => (nomatch hkind), fun _ => h, fun _ => trivial⟩
  retry _ _ _ _ _ _ _ _ := trivial
  loop := trivial

theorem Runtime.joinsBlocks_schedule (rt : Runtime σ) (c : Context) (s : σ) (p : Program)
    (linger : Option Binary64) (alarms : Alarms Turn) :
    (rt.schedule c s p linger alarms).All fun p => p.JoinsBlocks := by
  have hprocess : (rt.process p).JoinsBlocks := holds_of_rules (Engine.rules_joinsBlocks rt.engine) p
  refine Schedule.All.start _ ?_ alarms
  cases linger with
  | none => exact hprocess
  | some x => exact hprocess.andThen fun _ => trivial

/-! ### What a task in a block knows -/

namespace Schedule

variable {s : Schedule σ} {cancel : Bool} {u : Turn} {t first count : Nat} {awaited : List Nat}
  {due : Bool} {next : Joined → Process σ}

/-- Is the task in a block of so many branches, of which the first one has the given number? -/
def InBlock (s : Schedule σ) (t first count : Nat) (next : Joined → Process σ) : Prop :=
  ∃ awaited due, s.state? t = some (.joining first count awaited due next)

/-- Has one of the branches failed, or have all of them ended? -/
def Decided (s : Schedule σ) (first count : Nat) : Prop :=
  (∃ b f, first ≤ b ∧ b < first + count ∧ s.outcome? b = some (.error f)) ∨
    ∀ b, first ≤ b → b < first + count → ∃ o, s.outcome? b = some o

/-- Are the branches that a task has not gathered yet listed in order, and have the others ended well? -/
def Gathered (s : Schedule σ) : Prop :=
  ∀ t first count awaited due next, s.state? t = some (.joining first count awaited due next) →
    awaited.Pairwise (· < ·) ∧
      ∀ b, first ≤ b → b < first + count → b ∉ awaited → ∃ v, s.outcome? b = some (.ok v)

theorem outcome?_take {b : Nat} {o : Outcome} (h : s.outcome? b = some o) (cancel : Bool) (u : Turn) :
    (s.take cancel u).outcome? b = some o :=
  outcome?_eq_some_iff.mpr (state?_take_of_isGone (outcome?_eq_some_iff.mp h) rfl cancel u)

theorem outcome?_of_not_mem_pending {b : Nat} (hb : b ∈ awaited) (hp : b ∉ s.pending awaited) :
    ∃ o, s.outcome? b = some o := by
  cases ho : s.outcome? b with
  | none => exact absurd (List.mem_filter.mpr ⟨hb, by simp [ho]⟩) hp
  | some o => exact ⟨o, rfl⟩

theorem firstFailure?_of_not_joined (hj : s.joined? first count awaited = none) :
    s.firstFailure? awaited = none := by
  unfold joined? at hj
  split at hj
  · cases hj
  · assumption

namespace Gathered

/-- The tasks are all that matters. -/
theorem congr (h : s.Gathered) {s' : Schedule σ} (htasks : s'.tasks = s.tasks) : s'.Gathered := by
  obtain ⟨world, tasks, queue, alarms⟩ := s'
  obtain rfl : tasks = s.tasks := htasks
  exact h

theorem take (h : s.Gathered) (cancel : Bool) (u : Turn) : (s.take cancel u).Gathered := by
  intro t first count awaited due next hst
  -- a task that was in the block before, perhaps with more branches to wait for
  have hkept {awaited₀ : List Nat} {due₀ : Bool}
      (hold : s.state? t = some (.joining first count awaited₀ due₀ next)) {b : Nat}
      (hb : first ≤ b) (hb' : b < first + count) (hnot : b ∉ awaited₀) :
      ∃ v, (s.take cancel u).outcome? b = some (.ok v) := by
    obtain ⟨v, hv⟩ := (h t _ _ _ _ _ hold).2 b hb hb' hnot
    exact ⟨v, outcome?_take hv cancel u⟩
  generalize hstate : TaskState.joining first count awaited due next = st at hst
  cases becomes_of_take hst with
  | same hold =>
    subst hstate
    exact ⟨(h t _ _ _ _ _ hold).1, fun b => hkept hold⟩
  | told _ hold =>
    cases hstate
    exact ⟨(h t _ _ _ _ _ hold).1, fun b => hkept hold⟩
  | @gathers _ _ awaited₀ _ _ hold hj =>
    cases hstate
    refine ⟨(h t _ _ _ _ _ hold).1.filter _, fun b hb hb' hnot => ?_⟩
    by_cases hmem : b ∈ awaited₀
    · obtain ⟨o, ho⟩ := outcome?_of_not_mem_pending hmem hnot
      obtain ⟨v, rfl⟩ := firstFailure?_eq_none (firstFailure?_of_not_joined hj) hmem ho
      exact ⟨v, outcome?_take ho cancel u⟩
    · exact hkept hold hb hb' hmem
  | paused hw =>
    obtain ⟨_, branch, -, rfl, rfl⟩ := Pause.eq_of_state hstate
    refine ⟨List.pairwise_lt_range.map _ fun _ _ h => Nat.add_lt_add_left h _, fun b hb hb' hnot => ?_⟩
    refine absurd (List.mem_map.mpr ⟨b - s.tasks.length, List.mem_range.mpr ?_, ?_⟩) hnot <;> omega
  | dropped => cases hstate
  | woken => cases hstate
  | branch => cases hstate

theorem start (w : World σ) (p : Process σ) (alarms : Alarms Turn) : (start w p alarms).Gathered := by
  intro t first count awaited due next hst
  have hlt := lt_length_of_state? hst
  obtain rfl : t = 0 := by simpa [Schedule.start] using hlt
  cases hst

/-- A branch that has failed has not been gathered. -/
theorem mem_of_error (h : s.Gathered) (hst : s.state? t = some (.joining first count awaited due next))
    {b : Nat} (hb : first ≤ b) (hb' : b < first + count) {f : Failure}
    (ho : s.outcome? b = some (.error f)) : b ∈ awaited := by
  by_contra hnot
  obtain ⟨v, hv⟩ := (h t _ _ _ _ _ hst).2 b hb hb' hnot
  cases ho.symm.trans hv

end Gathered

theorem Decided.take (h : s.Decided first count) (cancel : Bool) (u : Turn) :
    (s.take cancel u).Decided first count := by
  rcases h with ⟨b, f, hb, hb', ho⟩ | hall
  · exact .inl ⟨b, f, hb, hb', outcome?_take ho cancel u⟩
  · refine .inr fun b hb hb' => ?_
    obtain ⟨o, ho⟩ := hall b hb hb'
    exact ⟨o, outcome?_take ho cancel u⟩

/-! ### What the branches come to -/

/-- A task in a block that is decided has something to go on with. -/
theorem exists_joined? (hfamily : s.Family) (hgathered : s.Gathered)
    (hst : s.state? t = some (.joining first count awaited due next))
    (hdecided : s.Decided first count) : ∃ j, s.joined? first count awaited = some j := by
  refine Option.ne_none_iff_exists'.mp fun hnone => ?_
  have hfails := firstFailure?_of_not_joined hnone
  rcases hdecided with ⟨b, f, hb, hb', ho⟩ | hall
  · obtain ⟨v, hv⟩ := firstFailure?_eq_none hfails (hgathered.mem_of_error hst hb hb' ho) ho
    cases hv
  · have hpending : s.pending awaited = [] := by
      refine List.filter_eq_nil_iff.mpr fun b hb => ?_
      obtain ⟨hle, hlt⟩ := (hfamily t _ _ _ _ _ hst).2.2.1 b hb
      obtain ⟨o, ho⟩ := hall b hle hlt
      simp [ho]
    simp [joined?, hfails, hpending] at hnone

theorem valuesOf_eq {tasks : List Nat} (h : ∀ b ∈ tasks, ∃ v, s.outcome? b = some (.ok v)) :
    List.Forall₂ (fun b v => s.outcome? b = some (.ok v)) tasks (s.valuesOf tasks) := by
  induction tasks with
  | nil => exact .nil
  | cons b tasks ih =>
    obtain ⟨v, hv⟩ := h b (List.mem_cons_self ..)
    have hvalues : s.valuesOf (b :: tasks) = v :: s.valuesOf tasks := by
      simp [valuesOf, hv]
    rw [hvalues]
    exact .cons hv (ih fun c hc => h c (List.mem_cons_of_mem b hc))

/-- **The values of a block** are those of all its branches, in order. -/
theorem values_of_joined? (hgathered : s.Gathered)
    (hst : s.state? t = some (.joining first count awaited due next)) {values : List String}
    (hj : s.joined? first count awaited = some (.ok values)) :
    List.Forall₂ (fun b v => s.outcome? b = some (.ok v)) ((List.range count).map (first + ·))
      values := by
  unfold joined? at hj
  split at hj
  · cases hj
  · rename_i hfails
    split at hj
    · rename_i hempty
      cases hj
      refine valuesOf_eq fun b hb => ?_
      obtain ⟨i, hi, rfl⟩ := List.mem_map.mp hb
      have hi := List.mem_range.mp hi
      by_cases hmem : first + i ∈ awaited
      · have hnot : first + i ∉ s.pending awaited := by
          rw [List.isEmpty_iff.mp hempty]
          exact List.not_mem_nil
        obtain ⟨o, ho⟩ := outcome?_of_not_mem_pending hmem hnot
        obtain ⟨v, rfl⟩ := firstFailure?_eq_none hfails hmem ho
        exact ⟨v, ho⟩
      · exact (hgathered t _ _ _ _ _ hst).2 _ (Nat.le_add_right _ _) (Nat.add_lt_add_left hi _) hmem
    · cases hj

/-- **The failure of a block** is that of the first branch that has failed. -/
theorem failure_of_joined? (hfamily : s.Family) (hgathered : s.Gathered)
    (hst : s.state? t = some (.joining first count awaited due next)) {i : Nat} {f : Failure}
    (hj : s.joined? first count awaited = some (.error (i, f))) :
    i < count ∧ s.outcome? (first + i) = some (.error f) ∧
      ∀ k < i, ∀ g, s.outcome? (first + k) ≠ some (.error g) := by
  obtain ⟨b, hfails, rfl⟩ : ∃ b, s.firstFailure? awaited = some (b, f) ∧ i = b - first := by
    unfold joined? at hj
    split at hj
    · rename_i hfails
      cases hj
      exact ⟨_, hfails, rfl⟩
    · split at hj <;> cases hj
  obtain ⟨hb, hstb⟩ := firstFailure?_eq_some hfails
  obtain ⟨hle, hlt⟩ := (hfamily t _ _ _ _ _ hst).2.2.1 b hb
  obtain ⟨hsorted, -⟩ := hgathered t _ _ _ _ _ hst
  refine ⟨by omega, ?_, fun k hk g ho => ?_⟩
  · rw [Nat.add_sub_cancel' hle]
    exact outcome?_eq_some_iff.mpr hstb
  · -- a branch before it that had failed would have been found first
    have hmem : first + k ∈ awaited :=
      hgathered.mem_of_error hst (Nat.le_add_right _ _) (by omega) ho
    obtain ⟨before, c, after, rfl, hc, hbefore⟩ := List.findSome?_eq_some_iff.mp hfails
    obtain rfl : c = b := by
      split at hc
      · exact congrArg Prod.fst (Option.some.inj hc)
      · cases hc
    rcases List.mem_append.mp hmem with hmem | hmem
    · simpa [ho] using hbefore _ hmem
    · rcases List.mem_cons.mp hmem with heq | hmem
      · omega
      · have := List.rel_of_pairwise_cons (List.pairwise_append.mp hsorted).2.1 hmem
        omega

/-! ### Going on and off with a block -/

/-- A task is in the block already before a turn, if the block was there. -/
theorem InBlock.of_take (h : (s.take cancel u).InBlock t first count next)
    (hlt : first < s.tasks.length) : s.InBlock t first count next := by
  obtain ⟨awaited, due, hst⟩ := h
  generalize hstate : TaskState.joining first count awaited due next = st at hst
  cases becomes_of_take hst with
  | same hold =>
    subst hstate
    exact ⟨_, _, hold⟩
  | told _ hold =>
    cases hstate
    exact ⟨_, _, hold⟩
  | gathers _ hold _ =>
    cases hstate
    exact ⟨_, _, hold⟩
  | paused hw =>
    obtain ⟨_, _, -, rfl, -⟩ := Pause.eq_of_state hstate
    exact absurd hlt (Nat.lt_irrefl _)
  | dropped => cases hstate
  | woken => cases hstate
  | branch => cases hstate

/-- A task that has gathered what it waits for leaves the block. -/
theorem not_inBlock_take_gather (hst : s.state? t = some (.joining first count awaited true next))
    (hlt : first < s.tasks.length) {j : Joined} (hj : s.joined? first count awaited = some j) :
    ¬ (s.take cancel (.gather t)).InBlock t first count next := by
  rintro ⟨awaited', due', hst'⟩
  have hwork : s.work? (.gather t) = some (t, next j) := by
    simp only [work?, hst, hj, Option.map_some]
  rw [state?_take_of_work? hwork] at hst'
  obtain ⟨_, _, -, rfl, -⟩ := Pause.eq_of_state (Option.some.inj hst').symm
  exact Nat.lt_irrefl _ hlt

/-- A task that stays in a block that is decided goes on waiting for the same branches, and for its turn
to gather them. -/
theorem exists_state?_of_inBlock (hfamily : s.Family) (hgathered : s.Gathered)
    (hst : s.state? t = some (.joining first count awaited due next))
    (hlt : first < s.tasks.length) (hdecided : s.Decided first count)
    (hin : (s.take cancel u).InBlock t first count next) : ∃ due',
      (s.take cancel u).state? t = some (.joining first count awaited due' next) ∧
        (due = true → due' = true) := by
  obtain ⟨awaited', due', hst'⟩ := hin
  generalize hstate : TaskState.joining first count awaited' due' next = st at hst'
  cases becomes_of_take hst' with
  | same hold => exact ⟨due, hst'.trans (hold.symm.trans hst), id⟩
  | told _ hold =>
    cases Option.some.inj (hold.symm.trans hst)
    exact ⟨true, hst', fun _ => rfl⟩
  | gathers _ hold hnone =>
    cases Option.some.inj (hold.symm.trans hst)
    obtain ⟨j, hj⟩ := exists_joined? hfamily hgathered hst hdecided
    cases hnone.symm.trans hj
  | paused hw =>
    obtain ⟨_, _, -, rfl, -⟩ := Pause.eq_of_state hstate
    exact absurd hlt (Nat.lt_irrefl _)
  | dropped => cases hstate
  | woken => cases hstate
  | branch => cases hstate

/-- **The end of a block that is decided is on its way**: the turn in which the task gathers its branches
is due, or one in which it is told of the end of a branch. -/
theorem Tidy.gather_or_announce_due {turns : List Turn} (htidy : Tidy none turns s)
    (hfamily : s.Family) (hgathered : s.Gathered)
    (hst : s.state? t = some (.joining first count awaited due next))
    (hdecided : s.Decided first count) :
    due = true ∧ .gather t ∈ turns ++ s.queue ∨
      due = false ∧ ∃ b ∈ awaited, .announce b ∈ turns ++ s.queue := by
  cases due with
  | true => exact .inl ⟨rfl, htidy.needed t _ _ (by simp) hst .gather⟩
  | false =>
    obtain ⟨b, hb, o, ho⟩ : ∃ b ∈ awaited, ∃ o, s.outcome? b = some o := by
      rcases hdecided with ⟨b, f, hb, hb', ho⟩ | hall
      · exact ⟨b, hgathered.mem_of_error hst hb hb' ho, _, ho⟩
      · have hne := (htidy.branches t _ _ _ _ _ (by simp) hst).2 rfl
        obtain ⟨b, hb⟩ := List.exists_mem_of_ne_nil _ hne
        obtain ⟨hle, hlt⟩ := (hfamily t _ _ _ _ _ hst).2.2.1 b hb
        exact ⟨b, hb, hall b hle hlt⟩
    exact .inr ⟨rfl, b, hb, htidy.needed t _ _ (by simp) hst (.announce hb ho)⟩

end Schedule

/-! ### Courses -/

/-- What holds at every point of a run. -/
structure Point.Orderly (q : Point σ) : Prop where
  tidy : Schedule.Tidy none q.turns q.schedule
  family : q.schedule.Family
  gathered : q.schedule.Gathered
  untouched : ∀ b, q.schedule.tasks.length ≤ b → q.schedule.Untouched b q.due
  bells : ∀ a ∈ q.schedule.alarms.all, a.event = .interrupt ∨ ∃ t, a.event = .wake t

/-- A run starts in order, if nothing has been set up but its cancellation. -/
theorem Schedule.orderly_start (w : World σ) (p : Process σ) {alarms : Alarms Turn}
    (h : ∀ a ∈ alarms.all, a.event = .interrupt) : (Point.of (start w p alarms)).Orderly where
  tidy := Tidy.start w p fun a ha t => by simp [h a ha]
  family := family_start w p alarms
  gathered := .start w p alarms
  bells a ha := .inl (h a ha)
  untouched b hb := by
    have hb : 1 ≤ b := hb
    refine ⟨fun v hv => ?_, fun a ha => by simp [h a ha, Turn.ofTask], fun c hc => ?_⟩
    · obtain rfl : v = .resume 0 := by simpa [Point.due, Point.of, start] using hv
      simp only [Turn.ofTask, List.mem_cons, Turn.resume.injEq]
      simp
      omega
    · obtain ⟨st, hst⟩ := exists_state?_of_parent? hc
      have hlt := lt_length_of_state? hst
      obtain rfl : c = 0 := by simpa [Point.of, start] using hlt
      cases hc

namespace Point.Step

variable {cancel : Bool} {q q' : Point σ} {ms : List (Moment σ)} {t first count : Nat}
  {next : Joined → Process σ}

theorem orderly (h : Step cancel q ms q') (hq : q.Orderly) : q'.Orderly where
  tidy := h.tidy hq.tidy
  family := h.family hq.family
  gathered := by
    cases h with
    | turn u turns s => exact hq.gathered.take cancel u
    | round s => exact hq.gathered.congr rfl
    | advance h => exact hq.gathered.congr (Schedule.tasks_of_advance h)
  untouched _ hb := h.untouched hq.untouched hb
  bells a ha := by
    cases h with
    | turn u turns s =>
      rcases Schedule.event_of_take ha with ⟨a', ha', heq⟩ | ⟨t, _, -, heq⟩
      · rw [← heq]
        exact hq.bells a' ha'
      · exact .inr ⟨t, heq⟩
    | round s => exact hq.bells a (Schedule.mem_alarms_of_ring ha)
    | advance h =>
      obtain ⟨w, alarms, rfl, halarms, -⟩ := Schedule.exists_eq_of_advance h
      exact hq.bells a (halarms a ha)

theorem length_le (h : Step cancel q ms q') :
    q.schedule.tasks.length ≤ q'.schedule.tasks.length := by
  cases h with
  | turn u turns s => exact s.length_le_take cancel u
  | round s => exact Nat.le_refl _
  | advance h => exact Nat.le_of_eq (congrArg _ (Schedule.tasks_of_advance h)).symm

theorem decided (h : Step cancel q ms q') (hq : q.schedule.Decided first count) :
    q'.schedule.Decided first count := by
  cases h with
  | turn u turns s => exact hq.take cancel u
  | round s => exact hq
  | advance h => simpa only [Schedule.Decided, Schedule.outcome?, Schedule.state?, of,
      Schedule.tasks_of_advance h] using hq

theorem inBlock_of (h : Step cancel q ms q') (hlt : first < q.schedule.tasks.length)
    (hq' : q'.schedule.InBlock t first count next) : q.schedule.InBlock t first count next := by
  cases h with
  | turn u turns s => exact hq'.of_take hlt
  | round s => exact hq'
  | advance h => rwa [Schedule.InBlock, Schedule.state?, of, Schedule.tasks_of_advance h] at hq'

/-- **Time does not pass** while a task is in a block that is decided. -/
theorem now_eq_of_decided (h : Step cancel q ms q') (hq : q.Orderly)
    (hdecided : q.schedule.Decided first count) (hin : q.schedule.InBlock t first count next) :
    q'.schedule.world.now = q.schedule.world.now := by
  obtain ⟨awaited, due, hst⟩ := hin
  rcases h.due with ⟨u, turns, new, -, hs', -, -⟩ | ⟨rung, -, -, -, -, hworld⟩
  · rw [hs']
    exact q.schedule.now_take cancel u
  · refine congrArg World.now (hworld ?_)
    rcases hq.tidy.gather_or_announce_due hq.family hq.gathered hst hdecided with
      ⟨-, hmem⟩ | ⟨-, b, -, hmem⟩
    · exact List.ne_nil_of_mem hmem
    · exact List.ne_nil_of_mem hmem

end Point.Step

namespace Course

variable {cancel : Bool} {q q' : Point σ} {ms : List (Moment σ)} {t first count : Nat}
  {next : Joined → Process σ}

theorem orderly (h : Course cancel q ms q') (hq : q.Orderly) : q'.Orderly := by
  induction h with
  | refl => exact hq
  | step _ hstep ih => exact hstep.orderly ih

theorem length_le (h : Course cancel q ms q') :
    q.schedule.tasks.length ≤ q'.schedule.tasks.length := by
  induction h with
  | refl => exact Nat.le_refl _
  | step _ hstep ih => exact Nat.le_trans ih hstep.length_le

theorem decided (h : Course cancel q ms q') (hq : q.schedule.Decided first count) :
    q'.schedule.Decided first count := by
  induction h with
  | refl => exact hq
  | step _ hstep ih => exact hstep.decided ih

theorem inBlock_of (h : Course cancel q ms q') (hlt : first < q.schedule.tasks.length)
    (hq' : q'.schedule.InBlock t first count next) : q.schedule.InBlock t first count next := by
  induction h with
  | refl => exact hq'
  | step hcourse hstep ih =>
    exact ih (hstep.inBlock_of (Nat.lt_of_lt_of_le hlt hcourse.length_le) hq')

/-- **Time does not pass** while a task is in a block that is decided. -/
theorem now_eq_of_decided (h : Course cancel q ms q') (hq : q.Orderly)
    (hlt : first < q.schedule.tasks.length) (hdecided : q.schedule.Decided first count)
    (hin : q'.schedule.InBlock t first count next) :
    q'.schedule.world.now = q.schedule.world.now := by
  induction h with
  | refl => rfl
  | step hcourse hstep ih =>
    have hin' := hstep.inBlock_of (Nat.lt_of_lt_of_le hlt hcourse.length_le) hin
    exact (hstep.now_eq_of_decided (hcourse.orderly hq) (hcourse.decided hdecided) hin').trans
      (ih hin')

end Course

/-! ### Leaving a block -/

/-- Is the task about to leave its block, to go on with what its branches come to? -/
def Point.Leaves (q : Point σ) (t first count : Nat) (next : Joined → Process σ) (j : Joined) : Prop :=
  ∃ turns awaited, q.turns = .gather t :: turns ∧
    q.schedule.state? t = some (.joining first count awaited true next) ∧
    q.schedule.joined? first count awaited = some j

section Leaving

variable {cancel : Bool} {q q' : Point σ} {ms : List (Moment σ)} {t first count : Nat}
  {next : Joined → Process σ}

theorem Point.Leaves.inBlock {j : Joined} (h : q.Leaves t first count next j) :
    q.schedule.InBlock t first count next := by
  obtain ⟨_, awaited, -, hst, -⟩ := h
  exact ⟨awaited, true, hst⟩

theorem Point.Step.inBlock_or_leaves (h : Step cancel q ms q')
    (hin : q.schedule.InBlock t first count next) :
    q'.schedule.InBlock t first count next ∨ q'.schedule.state? t = some .dropped ∨
      ∃ j, q.Leaves t first count next j := by
  cases h with
  | turn u turns s =>
    obtain ⟨awaited, due, hst⟩ := hin
    have hst : s.state? t = some (.joining first count awaited due next) := hst
    obtain ⟨st, hst'⟩ := Schedule.exists_state?_take (Schedule.lt_length_of_state? hst) cancel u
    have hsame {st' : TaskState σ} (hold : s.state? t = some st') :
        st' = .joining first count awaited due next := Option.some.inj (hold.symm.trans hst)
    cases Schedule.becomes_of_take hst' with
    | same hold =>
      cases hsame hold
      exact .inl ⟨_, _, hst'⟩
    | dropped => exact .inr (.inl hst')
    | woken hold => cases hsame hold
    | told _ hold =>
      cases hsame hold
      exact .inl ⟨_, _, hst'⟩
    | gathers _ hold _ =>
      cases hsame hold
      exact .inl ⟨_, _, hst'⟩
    | paused hw =>
      rcases Schedule.work?_cases hw with hold | ⟨_, _, _, _, j, rfl, hold, hj, -⟩
      · cases hsame hold
      · cases hsame hold
        exact .inr (.inr ⟨j, turns, awaited, rfl, hst, hj⟩)
    | branch _ _ i ht => exact absurd (Schedule.lt_length_of_state? hst) (by omega)
  | round s => exact .inl hin
  | advance h =>
    refine .inl ?_
    rwa [Schedule.InBlock, Schedule.state?, of, Schedule.tasks_of_advance h]

/-- **A task leaves its block** with what the branches come to, unless it is dropped. -/
theorem Course.inBlock_or_leaves (h : Course cancel q ms q')
    (hin : q.schedule.InBlock t first count next) :
    q'.schedule.InBlock t first count next ∨ q'.schedule.state? t = some .dropped ∨
      ∃ ms₁ r ms₂ j, Course cancel q ms₁ r ∧ Course cancel r ms₂ q' ∧
        r.Leaves t first count next j := by
  induction h with
  | refl => exact .inl hin
  | step hcourse hstep ih =>
    rcases ih with hin' | hdropped | ⟨ms₁, r, ms₂, j, hbefore, hafter, hleaves⟩
    · rcases hstep.inBlock_or_leaves hin' with hin'' | hdropped | ⟨j, hleaves⟩
      · exact .inl hin''
      · exact .inr (.inl hdropped)
      · exact .inr (.inr ⟨_, _, _, j, hcourse, .single hstep, hleaves⟩)
    · exact .inr (.inl (hstep.stays hdropped rfl).1)
    · exact .inr (.inr ⟨_, r, _, j, hbefore, hafter.step hstep, hleaves⟩)

end Leaving

/-! ### Rounds -/

namespace Schedule

variable {s : Schedule σ} {cancel : Bool} {t first count : Nat} {next : Joined → Process σ}

/-- The schedule after the time has advanced, if no turn is due, and the turns have been taken that are
due then. -/
def beat (cancel : Bool) (s : Schedule σ) : Option (Schedule σ) := s.advance.map (round cancel)

/-- A run goes on from beat to beat until its main task has ended. -/
theorem runFor_eq_beat (h : s.outcome? 0 = none) (rounds : Nat) :
    runFor cancel (rounds + 1) s = (s.beat cancel).bind (runFor cancel rounds) := by
  rw [runFor, h, beat]
  cases s.advance <;> rfl

/-- Where a turn is due, a beat is a round at the same time, in which all that is due is done. -/
theorem exists_beat (h : s.queue ≠ []) (cancel : Bool) : ∃ ms turns s',
    Course cancel (.of s) ms ⟨turns, s'⟩ ∧ s.beat cancel = some (turns.foldl (take cancel) s') ∧
      s'.tasks = s.tasks ∧ s'.world = s.world ∧ ∀ v ∈ s.queue, v ∈ turns := by
  obtain ⟨alarms, hadvance, -⟩ := exists_advance_of_queue h
  obtain ⟨rung, hqueue, -⟩ := exists_queue_ring { s with alarms }
  have hcourse : Course cancel (.of s) _ _ :=
    (Course.single (.advance hadvance)).step (.round { s with alarms })
  refine ⟨_, _, _, hcourse, ?_, rfl, rfl, fun v hv => ?_⟩
  · rw [beat, hadvance]
    rfl
  · rw [hqueue]
    exact List.mem_append_left _ hv

theorem now_takes (turns : List Turn) (s : Schedule σ) (cancel : Bool) :
    (turns.foldl (take cancel) s).world.now = s.world.now := by
  refine foldl_take_induction (P := fun _ s' => s'.world.now = s.world.now) cancel ?_ rfl
  intro u turns s' hs'
  rw [now_take, hs']

/-- A task leaves a block that is decided in a round in which it takes the turn to gather its branches. -/
theorem not_inBlock_of_gather_due {turns : List Turn} (hq : (Point.mk turns s).Orderly)
    (hlt : first < s.tasks.length) (hdecided : s.Decided first count)
    (h : s.InBlock t first count next →
      .gather t ∈ turns ∧ ∃ awaited, s.state? t = some (.joining first count awaited true next)) :
    ¬ (turns.foldl (take cancel) s).InBlock t first count next := by
  induction turns generalizing s with
  | nil =>
    intro hin
    cases (h hin).1
  | cons u turns ih =>
    refine ih ((Point.Step.turn u turns s).orderly hq)
      (Nat.lt_of_lt_of_le hlt (s.length_le_take cancel u)) (hdecided.take cancel u) fun hin => ?_
    obtain ⟨hmem, awaited, hst⟩ := h (hin.of_take hlt)
    obtain ⟨j, hj⟩ := exists_joined? hq.family hq.gathered hst hdecided
    have hne : .gather t ≠ u := by
      rintro rfl
      exact not_inBlock_take_gather hst hlt hj hin
    obtain ⟨due', hst', hdue⟩ :=
      exists_state?_of_inBlock hq.family hq.gathered hst hlt hdecided hin
    rw [hdue rfl] at hst'
    exact ⟨(List.mem_cons.mp hmem).resolve_left hne, awaited, hst'⟩

/-- A task in a block that is decided gets the turn to gather its branches in a round in which it is told
of the end of one. -/
theorem gather_due_of_announce_due {turns : List Turn} (hq : (Point.mk turns s).Orderly)
    (hlt : first < s.tasks.length) (hdecided : s.Decided first count)
    (h : ∀ awaited due, s.state? t = some (.joining first count awaited due next) →
      due = true ∨ ∃ b ∈ awaited, .announce b ∈ turns)
    {awaited : List Nat} {due : Bool}
    (hst : (turns.foldl (take cancel) s).state? t = some (.joining first count awaited due next)) :
    due = true := by
  induction turns generalizing s with
  | nil => exact (h _ _ hst).resolve_right (by simp)
  | cons u turns ih =>
    refine ih ((Point.Step.turn u turns s).orderly hq)
      (Nat.lt_of_lt_of_le hlt (s.length_le_take cancel u)) (hdecided.take cancel u) ?_ hst
    intro awaited₁ due₁ hst₁
    obtain ⟨awaited₀, due₀, hst₀⟩ := InBlock.of_take ⟨_, _, hst₁⟩ hlt
    obtain ⟨due', hst', hdue⟩ :=
      exists_state?_of_inBlock hq.family hq.gathered hst₀ hlt hdecided ⟨_, _, hst₁⟩
    cases Option.some.inj (hst₁.symm.trans hst')
    rcases h _ _ hst₀ with htrue | ⟨b, hb, hmem⟩
    · exact .inl (hdue htrue)
    · rcases List.mem_cons.mp hmem with rfl | hmem
      · -- the task is told just now, unless it has been before
        cases due₀ with
        | true => exact .inl (hdue rfl)
        | false =>
          have hparent := ((hq.tidy.branches t _ _ _ _ _ (by simp) hst₀).1 b hb).parent
          have htold := state?_take_announce hst₀ hparent hb cancel
          cases Option.some.inj (htold.symm.trans hst₁)
          exact .inl rfl
      · exact .inr ⟨b, hb, hmem⟩

/-- A beat of a run in which a task is in a block that is decided takes no time. After it the task has
left the block, or it gets the turn to do so; and it has left it if it had got that turn before. -/
theorem beat_of_decided (hq : (Point.of s).Orderly) (hlt : first < s.tasks.length)
    (hdecided : s.Decided first count) {awaited : List Nat} {due : Bool}
    (hst : s.state? t = some (.joining first count awaited due next)) (cancel : Bool) :
    ∃ ms s', s.beat cancel = some s' ∧ Course cancel (.of s) ms (.of s') ∧
      s'.world.now = s.world.now ∧
      (∀ awaited' due', s'.state? t = some (.joining first count awaited' due' next) →
        due' = true) ∧
      (due = true → ¬ s'.InBlock t first count next) := by
  have hdue := hq.tidy.gather_or_announce_due hq.family hq.gathered hst hdecided
  have hne : s.queue ≠ [] := by
    rcases hdue with ⟨-, hmem⟩ | ⟨-, b, -, hmem⟩
    · exact List.ne_nil_of_mem hmem
    · exact List.ne_nil_of_mem hmem
  obtain ⟨ms, turns, s', hcourse, hbeat, htasks, hworld, hturns⟩ := exists_beat hne cancel
  obtain ⟨ns, htakes⟩ := Course.exists_takes cancel turns [] s'
  rw [List.append_nil] at htakes
  have hq' := hcourse.orderly hq
  have hlt' : first < s'.tasks.length := htasks ▸ hlt
  have hdecided' : s'.Decided first count := hcourse.decided hdecided
  have hst' : s'.state? t = some (.joining first count awaited due next) := by
    rw [state?, htasks]
    exact hst
  refine ⟨_, _, hbeat, hcourse.trans htakes, ?_, fun awaited' due' => ?_, ?_⟩
  · rw [now_takes, hworld]
  · refine gather_due_of_announce_due hq' hlt' hdecided' fun awaited₀ due₀ hst₀ => ?_
    cases Option.some.inj (hst'.symm.trans hst₀)
    rcases hdue with ⟨htrue, -⟩ | ⟨-, b, hb, hmem⟩
    · exact .inl htrue
    · exact .inr ⟨b, hb, hturns _ hmem⟩
  · rintro rfl
    rcases hdue with ⟨-, hmem⟩ | ⟨hfalse, -⟩
    · exact not_inBlock_of_gather_due hq' hlt' hdecided' fun _ => ⟨hturns _ hmem, awaited, hst'⟩
    · cases hfalse

/-- **A task leaves a block that is decided** within two beats, which take no time. -/
theorem exists_beats (hq : (Point.of s).Orderly) (hlt : first < s.tasks.length)
    (hdecided : s.Decided first count) (hin : s.InBlock t first count next) (cancel : Bool) :
    ∃ s₁, s.beat cancel = some s₁ ∧ s₁.world.now = s.world.now ∧
      (s₁.InBlock t first count next → ∃ s₂, s₁.beat cancel = some s₂ ∧
        s₂.world.now = s.world.now ∧ ¬ s₂.InBlock t first count next) := by
  obtain ⟨awaited, due, hst⟩ := hin
  obtain ⟨ms, s₁, hbeat, hcourse, hnow, hdue, -⟩ := beat_of_decided hq hlt hdecided hst cancel
  refine ⟨s₁, hbeat, hnow, fun hin => ?_⟩
  obtain ⟨awaited₁, due₁, hst₁⟩ := hin
  obtain ⟨_, s₂, hbeat₂, -, hnow₂, -, hout⟩ := beat_of_decided (hcourse.orderly hq)
    (Nat.lt_of_lt_of_le hlt hcourse.length_le) (hcourse.decided hdecided) hst₁ cancel
  exact ⟨s₂, hbeat₂, hnow₂.trans hnow, hout (hdue _ _ hst₁)⟩

end Schedule

end PipeScript
