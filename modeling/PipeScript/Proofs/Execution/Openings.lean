import PipeScript.Proofs.Execution.Blocks

/-!
# How the branches of a block begin

The branches of a block take their first turns in a row, in the order in which they are written, before
the task that has forked them takes another one. So all of them have paused or ended when it gathers them
for the first time. A branch that pauses for some time, or for branches of its own, ends too late to be
gathered together with one that has failed right away.

## The model

`Turn.openings` are the first turns of the branches, and `Schedule.firstPause` says how a branch pauses
in its own. A branch lags while the turn in which the task gathers its branches is due, or the turn from
which that follows, and no turn before it lets the branch go on (`Point.Lags`).

Main results: the branches begin in a row (`Point.exists_opening`), and one that pauses for some time or
for branches of its own (`Schedule.quiet_of_firstPause`) lags behind one that has failed right away
(`Point.Orderly.lags_of_quiet`) until the task leaves the block (`Course.lags`).
-/

namespace PipeScript

variable {σ : Type}

/-! ### The fork -/

namespace Schedule

variable {s : Schedule σ} {cancel : Bool} {u : Turn} {t b count : Nat} {kind : Fork} {p : Process σ}
  {branch : Fin count → Process σ} {next : Joined → Process σ}

/-- A task that forks queues the first turns of its branches, behind all that is due. -/
theorem exists_queue_of_forked (hw : s.work? u = some (t, p))
    (hp : (p.advance s.world).2 = .forked kind count branch next) (cancel : Bool) : ∃ before,
    (s.take cancel u).queue = before ++ Turn.openings s.tasks.length count ∧
      (∀ v ∈ before, v ∈ s.queue ∨ ∃ b, v = .release b) ∧
      (∀ i : Fin count, (s.take cancel u).state? (s.tasks.length + i) = some (.ready (branch i))) ∧
      (s.take cancel u).InBlock t s.tasks.length count next := by
  have hstate := state?_take_of_work? hw cancel
  rw [hp] at hstate
  generalize hs' : s.take cancel u = s' at hstate ⊢
  cases hs' ▸ s.taken_take cancel u with
  | @works _ v p' hw' tasks htasks =>
    obtain ⟨rfl, rfl⟩ := Prod.mk.inj (Option.some.inj (hw.symm.trans hw'))
    have hlt : t < (s.abandon cancel tasks).tasks.length := by
      rw [length_abandon]
      exact lt_length_of_work? hw
    obtain ⟨releases, hqueue, hreleases⟩ := s.exists_queue_abandon cancel tasks
    refine ⟨s.queue ++ releases, ?_, fun v hv => ?_, fun i => ?_, ⟨_, _, hstate⟩⟩
    · rw [proceed_eq, world_abandon, hp, queue_record, ← hqueue]
      exact congrArg (fun n => _ ++ Turn.openings n count) (length_abandon s cancel tasks)
    · rcases List.mem_append.mp hv with hv | hv
      · exact .inl hv
      · obtain ⟨b, -, rfl⟩ := hreleases v hv
        exact .inr ⟨b, rfl⟩
    · rw [proceed_eq, world_abandon, hp, record_forked _ _ _ _ _ (by exact hlt),
        state?_setState_of_ne _ _ (by rw [length_abandon] at hlt; omega), ← length_abandon s cancel tasks]
      exact state?_addBranches _ t kind count branch i
  | void _ h => rw [hw] at h; cases h
  | woken => cases hw
  | told => cases hw
  | waits h => rw [hw] at h; cases h
  | released _ h => rw [hw] at h; cases h
  | interrupted => cases hw

theorem pos_of_forked (hp : (p.advance s.world).2 = .forked kind count branch next) : 0 < count := by
  refine Nat.pos_of_ne_zero ?_
  rintro rfl
  exact advance_ne_forked p s.world kind branch next hp

theorem lt_length_of_forked (hw : s.work? u = some (t, p))
    (hp : (p.advance s.world).2 = .forked kind count branch next) :
    s.tasks.length < (s.take cancel u).tasks.length := by
  rw [length_take_of_work? hw, hp]
  exact Nat.lt_add_of_pos_right (pos_of_forked hp)

/-- The branches of a task that forks have not begun, and only their first turns are due for them. -/
theorem exists_unbegun_of_forked {turns : List Turn} (hq : (Point.mk (u :: turns) s).Orderly)
    (hw : s.work? u = some (t, p)) (hp : (p.advance s.world).2 = .forked kind count branch next)
    (cancel : Bool) : ∃ before,
    (s.take cancel u).queue = before ++ Turn.openings s.tasks.length count ∧
      (∀ i : Fin count, (s.take cancel u).Unbegun (s.tasks.length + i) (branch i) (turns ++ before)) ∧
      (s.take cancel u).InBlock t s.tasks.length count next := by
  obtain ⟨before, hqueue, hbefore, hready, hin⟩ := exists_queue_of_forked hw hp cancel
  refine ⟨before, hqueue, fun i => ?_, hin⟩
  have hold := hq.untouched (s.tasks.length + i) (Nat.le_add_right _ _)
  have hlt : t < s.tasks.length + i := Nat.lt_add_right _ (lt_length_of_work? hw)
  refine ⟨⟨fun v hv => ?_, fun a ha => ?_, fun c => ?_⟩, .inl (hready i)⟩
  · rcases List.mem_append.mp hv with hv | hv
    · exact hold.turns v (List.mem_append_left _ (List.mem_cons_of_mem _ hv))
    · rcases hbefore v hv with hv | ⟨b, rfl⟩
      · exact hold.turns v (List.mem_append_right _ hv)
      · simp [Turn.ofTask]
  · rcases event_of_take ha with ⟨a', ha', heq⟩ | ⟨t', p', hw', heq⟩
    · rw [← heq]
      exact hold.alarms a' ha'
    · obtain ⟨rfl, -⟩ := Prod.mk.inj (Option.some.inj (hw.symm.trans hw'))
      rw [heq]
      simp only [Turn.ofTask, List.mem_cons]
      simp
      omega
  · refine parent?_ne_of_take (fun p' hw' => ?_) (hold.childless c)
    have heq := (Prod.mk.inj (Option.some.inj (hw.symm.trans hw'))).1
    omega

/-- What a task has gathered includes the end of a branch. -/
theorem exists_outcome_of_joined? (hfamily : s.Family) (hgathered : s.Gathered) {first : Nat}
    {awaited : List Nat} {due : Bool}
    (hst : s.state? t = some (.joining first count awaited due next)) (hcount : 0 < count) {j : Joined}
    (hj : s.joined? first count awaited = some j) : ∃ i < count, ∃ o, s.outcome? (first + i) = some o := by
  cases j with
  | ok values =>
    have hvalues := values_of_joined? hgathered hst hj
    obtain ⟨m, rfl⟩ : ∃ m, count = m + 1 := ⟨count - 1, by omega⟩
    rw [List.range_succ_eq_map] at hvalues
    cases hvalues with
    | cons hv _ => exact ⟨0, hcount, _, hv⟩
  | error e =>
    obtain ⟨hi, ho, -⟩ := failure_of_joined? (i := e.1) (f := e.2) hfamily hgathered hst hj
    exact ⟨e.1, hi, _, ho⟩

end Schedule

/-! ### All branches begin -/

/-- No task leaves a block whose branches have not begun. -/
theorem Point.Orderly.not_leaves {q : Point σ} (hq : q.Orderly) {t first count : Nat}
    {branch : Fin count → Process σ} {next : Joined → Process σ} (hcount : 0 < count)
    {turns : List Turn} (h : ∀ i : Fin count, q.schedule.Unbegun (first + i) (branch i) turns)
    {j : Joined} : ¬ q.Leaves t first count next j := by
  rintro ⟨_, awaited, -, hst, hj⟩
  obtain ⟨i, hi, o, ho⟩ := Schedule.exists_outcome_of_joined? hq.family hq.gathered hst hcount hj
  cases ho.symm.trans (h ⟨i, hi⟩).outcome?

/-- A course that ends as a task leaves its block leads past the turns before those of its branches. -/
theorem Course.through_unbegun {cancel : Bool} {turns rest kept : List Turn} {s : Schedule σ}
    {ms : List (Moment σ)} {q : Point σ} (h : Course cancel ⟨turns ++ rest, s⟩ ms q) (hend : q.Orderly)
    {t first count : Nat} {branch : Fin count → Process σ} {next : Joined → Process σ}
    (hcount : 0 < count)
    (hunbegun : ∀ i : Fin count, s.Unbegun (first + i) (branch i) (turns ++ kept)) {j : Joined}
    (hleaves : q.Leaves t first count next j) : ∃ s₁ new ms₁ ms₂, s₁.queue = s.queue ++ new ∧
      (∀ i : Fin count, s₁.Unbegun (first + i) (branch i) (kept ++ new)) ∧
      Course cancel ⟨turns ++ rest, s⟩ ms₁ ⟨rest, s₁⟩ ∧ Course cancel ⟨rest, s₁⟩ ms₂ q := by
  rcases h.through with ⟨taken, left, rfl, -, rfl⟩ | ⟨_, hrest⟩
  · obtain ⟨_, -, hleft⟩ := Schedule.Unbegun.takes cancel (left ++ kept)
      (by simpa only [List.append_assoc] using hunbegun)
    exact absurd hleaves (hend.not_leaves hcount hleft)
  · obtain ⟨new, hqueue, hafter⟩ := Schedule.Unbegun.takes cancel kept hunbegun
    obtain ⟨_, htakes⟩ := exists_takes cancel turns rest s
    exact ⟨_, new, _, _, hqueue, hafter, htakes, hrest⟩

/-- A course from the end of a round, after which a turn is due, leads to the next round and on from
there, unless that has not begun. -/
theorem Course.through_round {cancel : Bool} {s : Schedule σ} {ms : List (Moment σ)} {q : Point σ}
    (h : Course cancel (.of s) ms q) (hqueue : s.queue ≠ []) :
    q.turns = [] ∧ (∃ alarms, q.schedule = { s with alarms } ∧ ∀ a ∈ alarms.all, a ∈ s.alarms.all) ∨
    ∃ alarms rung ms₁ ms₂, (∀ a ∈ alarms.all, a ∈ s.alarms.all) ∧
      (∀ v ∈ rung, ∃ a ∈ s.alarms.all, a.event = v) ∧
      Course cancel (.of s) ms₁ ⟨s.queue ++ rung, { s with queue := [], alarms }⟩ ∧
      Course cancel ⟨s.queue ++ rung, { s with queue := [], alarms }⟩ ms₂ q := by
  induction h with
  | refl => exact .inl ⟨rfl, s.alarms, rfl, fun a ha => ha⟩
  | @step _ _ q' q'' hcourse hstep ih =>
    rcases ih with ⟨hturns, alarms, hs', halarms⟩ | ⟨alarms, rung, ms₁, ms₂, halarms, hrung, h₁, h₂⟩
    · cases hstep with
      | turn u turns s' => cases hturns
      | round s' =>
        obtain rfl : s' = { s with alarms } := hs'
        obtain ⟨rung, hring, hrung⟩ := Schedule.exists_queue_ring { s with alarms }
        have hround := hcourse.step (.round { s with alarms })
        rw [hring] at hround ⊢
        refine .inr ⟨Schedule.alarms (Schedule.ring { s with alarms }), rung, _, [], fun a ha => ?_,
          fun v hv => ?_, hround, .refl⟩
        · exact halarms a (Schedule.mem_alarms_of_ring ha)
        · obtain ⟨a, ha, heq⟩ := hrung v hv
          exact ⟨a, halarms a ha, heq⟩
      | @advance s' s'' hadvance =>
        obtain rfl : s' = { s with alarms } := hs'
        obtain ⟨w, alarms', rfl, halarms', hw⟩ := Schedule.exists_eq_of_advance hadvance
        obtain rfl := hw hqueue
        exact .inl ⟨rfl, alarms', rfl, fun a ha => halarms a (halarms' a ha)⟩
    · exact .inr ⟨alarms, rung, ms₁, _, halarms, hrung, h₁, h₂.step hstep⟩

/-- **The branches of a block begin in a row**, before the task that has forked them leaves it. -/
theorem Point.exists_opening {cancel : Bool} {u : Turn} {turns : List Turn} {s : Schedule σ}
    (hq : (Point.mk (u :: turns) s).Orderly) {t count : Nat} {kind : Fork} {p : Process σ}
    {branch : Fin count → Process σ} {next : Joined → Process σ} (hw : s.work? u = some (t, p))
    (hp : (p.advance s.world).2 = .forked kind count branch next) {ms : List (Moment σ)} {q : Point σ}
    (h : Course cancel ⟨turns, s.take cancel u⟩ ms q) {j : Joined}
    (hleaves : q.Leaves t s.tasks.length count next j) : ∃ ms₁ rest s₁ ms₂,
      Course cancel ⟨turns, s.take cancel u⟩ ms₁ ⟨Turn.openings s.tasks.length count ++ rest, s₁⟩ ∧
      (∀ i : Fin count, s₁.Unbegun (s.tasks.length + i) (branch i) (rest ++ s₁.queue)) ∧
      Course cancel ⟨rest, (Turn.openings s.tasks.length count).foldl (Schedule.take cancel) s₁⟩
        ms₂ q := by
  have hq' : (Point.mk turns (s.take cancel u)).Orderly := (Point.Step.turn u turns s).orderly hq
  have hend := h.orderly hq'
  have hcount := Schedule.pos_of_forked hp
  obtain ⟨gathering, awaited, hturns, -⟩ := id hleaves
  obtain ⟨before, hqueue, hunbegun, -⟩ := Schedule.exists_unbegun_of_forked hq hw hp cancel
  generalize s.take cancel u = s' at *
  generalize s.tasks.length = first at *
  -- the rest of the round in which the task has forked
  rw [← List.append_nil turns] at h ⊢
  obtain ⟨s₂, new, _, _, hqueue₂, hunbegun₂, hpast₂, h₂⟩ :=
    h.through_unbegun hend hcount hunbegun hleaves
  rw [hqueue] at hqueue₂
  have hne : s₂.queue ≠ [] := by
    rw [hqueue₂]
    simp [Turn.openings]
    omega
  rcases h₂.through_round hne with ⟨hnil, -⟩ | ⟨alarms, rung, _, _, halarms, hrung, hround, h₃⟩
  · cases hnil.symm.trans hturns
  -- the turns of the next round that come before those of the branches
  have hunbegun₃ (i : Fin count) : Schedule.Unbegun { s₂ with queue := [], alarms } (first + i)
      (branch i) (before ++ (new ++ rung)) := by
    refine (hunbegun₂ i).congr rfl halarms fun v hv => ?_
    rw [← List.append_assoc] at hv
    rcases List.mem_append.mp hv with hv | hv
    · exact (hunbegun₂ i).turns v hv
    · obtain ⟨a, ha, rfl⟩ := hrung v hv
      exact (hunbegun₂ i).alarms a ha
  have hturns₂ : s₂.queue ++ rung = before ++ (Turn.openings first count ++ (new ++ rung)) := by
    rw [hqueue₂]
    simp only [List.append_assoc]
  rw [hturns₂] at hround h₃
  obtain ⟨s₄, new', _, _, hqueue₄, hunbegun₄, hpast₄, h₄⟩ :=
    h₃.through_unbegun hend hcount hunbegun₃ hleaves
  rw [List.nil_append] at hqueue₄
  -- none of the first turns is the one in which the task leaves the block
  rcases h₄.through with ⟨taken, left, heq, hleft, rfl⟩ | ⟨_, h₅⟩
  · obtain ⟨v, left, rfl⟩ := List.exists_cons_of_ne_nil hleft
    obtain rfl : v = .gather t := (List.cons.inj hturns).1
    have hmem : .gather t ∈ Turn.openings first count := by
      rw [heq]
      simp
    simp [Turn.openings] at hmem
  · refine ⟨_, new ++ rung, s₄, _, (hpast₂.trans hround).trans hpast₄, fun i => ?_, h₅⟩
    rw [hqueue₄]
    exact hunbegun₄ i

/-! ### The first turn of a branch -/

/-- The first turns of branches, with one of them set apart. -/
theorem Turn.openings_eq_append {first count i : Nat} (h : i < count) :
    openings first count =
      openings first i ++ .resume (first + i) :: openings (first + i + 1) (count - i - 1) := by
  obtain ⟨m, rfl⟩ : ∃ m, count = i + (m + 1) := ⟨count - i - 1, by omega⟩
  have hrest : i + (m + 1) - i - 1 = m := by omega
  rw [hrest]
  simp only [openings, ← List.range'_eq_map_range]
  rw [← List.range'_append_1, List.range'_succ, List.map_append, List.map_cons]

/-- A branch that has not begun is about to, while the task that has forked it is in the block. -/
theorem Point.Orderly.ready_of_unbegun {q : Point σ} (hq : q.Orderly) {t first count b : Nat}
    {next : Joined → Process σ} (hin : q.schedule.InBlock t first count next) (hb : first ≤ b)
    (hb' : b < first + count) {p : Process σ} {turns : List Turn} (h : q.schedule.Unbegun b p turns) :
    q.schedule.state? b = some (.ready p) := by
  obtain ⟨awaited, due, hst⟩ := hin
  have hmem : b ∈ awaited := by
    by_contra hnot
    obtain ⟨v, hv⟩ := (hq.gathered t _ _ _ _ _ hst).2 b hb hb' hnot
    cases hv.symm.trans h.outcome?
  exact h.state.resolve_right ((hq.tidy.branches t _ _ _ _ _ (by simp) hst).1 b hmem).kept

/-- Is it a pause for some time, or for branches? -/
def Pause.lasts : Pause σ → Bool
  | ended _ => false
  | yielded _ => false
  | asleep _ _ => true
  | forked .. => true

namespace Schedule

/-- How a branch pauses in its first turn, or ends, where the branches of a block begin in a row. -/
def firstPause (cancel : Bool) (s : Schedule σ) (first : Nat) {count : Nat}
    (branch : Fin count → Process σ) (i : Fin count) : Pause σ :=
  ((branch i).advance ((Turn.openings first i).foldl (take cancel) s).world).2

/-! ### Branches that pause -/

/-- Is nothing that lets the task go on among the turns, neither a turn of its own nor one in which it is
told of the end of a branch? -/
structure Quiet (s : Schedule σ) (b : Nat) (turns : List Turn) : Prop where
  own : ∀ v ∈ turns, v ∉ Turn.ofTask b
  children : ∀ c, .announce c ∈ turns → s.parent? c ≠ some b

section Quiet

variable {s : Schedule σ} {u : Turn} {b : Nat} {p : Process σ} {turns new : List Turn}

/-- A task that pauses for some time, or for its branches, is quiet after its first turn. -/
theorem Unbegun.quiet_take (h : s.Unbegun b p turns) (hw : s.work? u = some (b, p))
    (hlasts : (p.advance s.world).2.lasts = true)
    (hknown : ∀ c, .announce c ∈ turns → c < s.tasks.length) (hnew : ∀ v ∈ new, s.Queued u v)
    (cancel : Bool) : (s.take cancel u).Quiet b (turns ++ new) ∧ (s.take cancel u).outcome? b = none := by
  have hworker {c : Nat} {p' : Process σ} (hw' : s.work? u = some (c, p')) : p' = p :=
    (Prod.mk.inj (Option.some.inj (hw'.symm.trans hw))).2
  refine ⟨⟨fun v hv => ?_, fun c hc hparent => ?_⟩, ?_⟩
  · rcases List.mem_append.mp hv with hv | hv
    · exact h.turns v hv
    · intro hown
      cases hnew v hv with
      | again hw' hp =>
        obtain rfl := hworker hw'
        rw [hp] at hlasts
        cases hlasts
      | woken hu _ =>
        subst hu
        cases hw
      | branch _ _ i =>
        have heq : s.tasks.length + i = b := by simpa [Turn.ofTask] using hown
        exact absurd h.lt_length (by omega)
      | ended hw' hp =>
        obtain rfl := hworker hw'
        rw [hp] at hlasts
        cases hlasts
      | told hu _ _ _ =>
        subst hu
        cases hw
      | dropped _ => simp [Turn.ofTask] at hown
  · rcases List.mem_append.mp hc with hc | hc
    · rcases parent?_of_take hparent with hold | ⟨hle, -⟩
      · exact h.childless c hold
      · exact absurd (hknown c hc) (Nat.not_lt.mpr hle)
    · generalize hv : Turn.announce c = v at hc
      cases hnew v hc with
      | ended hw' hp =>
        obtain rfl := hworker hw'
        rw [hp] at hlasts
        cases hlasts
      | _ => cases hv
  · rw [outcome?_eq_none_iff, state?_take_of_work? hw]
    intro o ho
    generalize (p.advance s.world).2 = pause at hlasts ho
    cases pause with
    | ended o => cases hlasts
    | _ => cases ho

/-- What is quiet stays so in a turn of a task that is no branch of it. -/
theorem Quiet.take (h : s.Quiet b turns) (hb : b < s.tasks.length) (hu : u ∉ Turn.ofTask b)
    (hchild : ∀ c, u = .announce c → s.parent? c ≠ some b)
    (hworker : ∀ c p, s.work? u = some (c, p) → s.parent? c ≠ some b)
    (hnew : ∀ v ∈ new, s.Queued u v) (cancel : Bool) :
    (s.take cancel u).Quiet b (turns ++ new) where
  own v hv := by
    rcases List.mem_append.mp hv with hv | hv
    · exact h.own v hv
    · exact not_queued (.inl hb : _ ∨ (s.take cancel u).tasks.length ≤ b) hu hchild (hnew v hv)
  children c hc := by
    refine parent?_ne_of_take (fun p hw => hu (mem_ofTask_of_work? hw)) ?_
    rcases List.mem_append.mp hc with hc | hc
    · exact h.children c hc
    · generalize hv : Turn.announce c = v at hc
      cases hnew v hc with
      | ended hw _ =>
        obtain rfl := Turn.announce.inj hv
        exact hworker _ _ hw
      | _ => cases hv

/-- What is quiet stays so as tasks go on that are no branches of it. -/
theorem Quiet.takes {tasks : List Nat} (h : s.Quiet b turns) (hb : b < s.tasks.length)
    (ho : s.outcome? b = none) (htasks : ∀ c ∈ tasks, c ≠ b ∧ s.parent? c ≠ some b) (cancel : Bool) :
    ∃ new, ((tasks.map Turn.resume).foldl (Schedule.take cancel) s).queue = s.queue ++ new ∧
      ((tasks.map Turn.resume).foldl (Schedule.take cancel) s).Quiet b (turns ++ new) ∧
      ((tasks.map Turn.resume).foldl (Schedule.take cancel) s).outcome? b = none := by
  induction tasks generalizing s turns with
  | nil => exact ⟨[], (List.append_nil _).symm, by simpa using h, ho⟩
  | cons c tasks ih =>
    obtain ⟨⟨hne, hparent⟩, hrest⟩ := List.forall_mem_cons.mp htasks
    obtain ⟨new, hqueue, hnew⟩ := s.exists_queue_take cancel (.resume c)
    have hown : Turn.resume c ∉ Turn.ofTask b := by simpa [Turn.ofTask] using hne
    have hwork {p : Process σ} : s.work? (.resume c) ≠ some (b, p) :=
      fun hw => hown (mem_ofTask_of_work? hw)
    have hquiet : (s.take cancel (.resume c)).Quiet b (turns ++ new) := by
      refine h.take hb hown (fun c' heq => by cases heq) (fun c' p hw => ?_) hnew cancel
      rcases eq_of_work? hw with heq | heq
      · exact Turn.resume.inj heq ▸ hparent
      · cases heq
    obtain ⟨more, hmore, hafter, ho'⟩ := ih hquiet
      (Nat.lt_of_lt_of_le hb (s.length_le_take cancel _))
      (outcome?_take_of_not_work (fun _ => hwork) ho)
      fun c' hc' => ⟨(hrest c' hc').1, parent?_ne_of_take (fun _ => hwork) (hrest c' hc').2⟩
    refine ⟨new ++ more, ?_, ?_, ho'⟩
    · rw [List.map_cons, List.foldl_cons, hmore, hqueue, List.append_assoc]
    · rw [← List.append_assoc]
      exact hafter

end Quiet

section Openings

variable {cancel : Bool} {s : Schedule σ} {rest : List Turn} {t first count : Nat}
  {branch : Fin count → Process σ} {next : Joined → Process σ}

/-- **Each branch begins in its turn**, and has done nothing before. -/
theorem unbegun_of_openings (hq : (Point.mk (Turn.openings first count ++ rest) s).Orderly)
    (h : ∀ i : Fin count, s.Unbegun (first + i) (branch i) (rest ++ s.queue))
    (hin : ((Turn.openings first count).foldl (take cancel) s).InBlock t first count next)
    (i : Fin count) : ∃ s' turns,
      (Turn.openings first i).foldl (take cancel) s = s' ∧
      turns = Turn.openings (first + i + 1) (count - i - 1) ∧
      (Point.mk (.resume (first + i) :: (turns ++ rest)) s').Orderly ∧
      s'.InBlock t first count next ∧
      s'.Unbegun (first + i) (branch i) (rest ++ s'.queue) ∧
      s'.state? (first + i) = some (.ready (branch i)) ∧
      (Turn.openings first count).foldl (take cancel) s =
        turns.foldl (take cancel) (s'.take cancel (.resume (first + i))) := by
  have hsplit : Turn.openings first count = _ := Turn.openings_eq_append i.isLt
  rw [hsplit, List.append_assoc] at hq
  rw [hsplit, List.foldl_append] at hin
  obtain ⟨_, hcourse⟩ := Course.exists_takes cancel (Turn.openings first i)
    (.resume (first + i) :: Turn.openings (first + i + 1) (count - i - 1) ++ rest) s
  obtain ⟨_, hafter⟩ := Course.exists_takes cancel
    (.resume (first + i) :: Turn.openings (first + i + 1) (count - i - 1)) rest
    ((Turn.openings first i).foldl (take cancel) s)
  have hq' := hcourse.orderly hq
  have hbefore : ∀ _ : Unit, s.Unbegun (first + i) (branch i)
      (Turn.openings first i ++ (rest ++ s.queue)) := by
    refine fun _ => (h i).congr rfl (fun a ha => ha) fun v hv => ?_
    rcases List.mem_append.mp hv with hv | hv
    · simp only [Turn.openings, List.mem_map, List.mem_range] at hv
      obtain ⟨_, ⟨k, hk, rfl⟩, rfl⟩ := hv
      simp [Turn.ofTask]
      omega
    · exact (h i).turns v hv
  obtain ⟨new, hqueue, hunbegun⟩ := Unbegun.takes cancel (rest ++ s.queue) hbefore
  have hunbegun := hunbegun ()
  rw [List.append_assoc, ← hqueue] at hunbegun
  have hlt : first < ((Turn.openings first i).foldl (take cancel) s).tasks.length :=
    Nat.lt_of_le_of_lt (Nat.le_add_right _ _) hunbegun.lt_length
  have hin' := hafter.inBlock_of hlt hin
  have hready := hq'.ready_of_unbegun hin' (Nat.le_add_right _ _) (Nat.add_lt_add_left i.isLt _)
    hunbegun
  refine ⟨_, _, rfl, rfl, hq', hin', hunbegun, hready, ?_⟩
  rw [hsplit, List.foldl_append]
  rfl

/-- A branch that ends in its first turn has ended when all have begun. -/
theorem outcome?_of_firstPause (hq : (Point.mk (Turn.openings first count ++ rest) s).Orderly)
    (h : ∀ i : Fin count, s.Unbegun (first + i) (branch i) (rest ++ s.queue))
    (hin : ((Turn.openings first count).foldl (take cancel) s).InBlock t first count next)
    {i : Fin count} {o : Outcome} (hpause : s.firstPause cancel first branch i = .ended o) :
    ((Turn.openings first count).foldl (take cancel) s).outcome? (first + i) = some o := by
  obtain ⟨s', turns, hs', -, -, -, -, hready, hall⟩ := unbegun_of_openings hq h hin i
  have hend : (s'.take cancel (.resume (first + i))).outcome? (first + i) = some o := by
    rw [firstPause, hs'] at hpause
    rw [outcome?_eq_some_iff, state?_take_of_work? (work?_of_ready hready), hpause]
    rfl
  rw [hall]
  exact foldl_take_induction (P := fun _ s' => s'.outcome? (first + i) = some o) cancel
    (fun u _ _ ho => outcome?_take ho cancel u) hend

/-- A branch whose first pause lasts is quiet when all have begun. -/
theorem quiet_of_firstPause (hq : (Point.mk (Turn.openings first count ++ rest) s).Orderly)
    (h : ∀ i : Fin count, s.Unbegun (first + i) (branch i) (rest ++ s.queue))
    (hin : ((Turn.openings first count).foldl (take cancel) s).InBlock t first count next)
    {i : Fin count} (hlasts : (s.firstPause cancel first branch i).lasts = true) :
    ((Turn.openings first count).foldl (take cancel) s).Quiet (first + i)
      (rest ++ ((Turn.openings first count).foldl (take cancel) s).queue) ∧
    ((Turn.openings first count).foldl (take cancel) s).outcome? (first + i) = none := by
  obtain ⟨s', turns, hs', hturns, hq', hin', hunbegun, hready, hall⟩ :=
    unbegun_of_openings hq h hin i
  rw [firstPause, hs'] at hlasts
  obtain ⟨new, hqueue, hnew⟩ := s'.exists_queue_take cancel (.resume (first + i))
  have hknown (c : Nat) (hc : .announce c ∈ rest ++ s'.queue) : c < s'.tasks.length := by
    by_contra hle
    refine (hq'.untouched c (Nat.not_lt.mp hle)).turns (.announce c) ?_ (by simp [Turn.ofTask])
    simp only [Point.due, List.cons_append, List.append_assoc]
    exact List.mem_cons_of_mem _ (List.mem_append_right _ hc)
  obtain ⟨hquiet, ho⟩ := hunbegun.quiet_take (work?_of_ready hready) hlasts hknown hnew cancel
  obtain ⟨awaited, due, hst⟩ := hin'
  have hlength : first + count ≤ s'.tasks.length := (hq'.family t _ _ _ _ _ hst).2.1
  have htasks : ∀ c ∈ (List.range (count - i - 1)).map (first + i + 1 + ·),
      c ≠ first + i ∧ (s'.take cancel (.resume (first + i))).parent? c ≠ some (first + i) := by
    intro c hc
    obtain ⟨k, hk, rfl⟩ := List.mem_map.mp hc
    have hk := List.mem_range.mp hk
    refine ⟨by omega, fun hparent => ?_⟩
    rcases parent?_of_take hparent with hold | ⟨hle, -⟩
    · exact hunbegun.childless _ hold
    · omega
  obtain ⟨more, hmore, hafter, ho'⟩ := hquiet.takes
    (Nat.lt_of_lt_of_le hunbegun.lt_length (s'.length_le_take cancel _)) ho htasks cancel
  rw [hall, hturns]
  refine ⟨?_, ho'⟩
  have heq : rest ++ s'.queue ++ new ++ more = rest ++
      ((Turn.openings (first + i + 1) (count - i - 1)).foldl (take cancel)
        (s'.take cancel (.resume (first + i)))).queue := by
    rw [Turn.openings, hmore, hqueue]
    simp only [List.append_assoc]
  rw [← heq]
  exact hafter

end Openings

end Schedule

/-! ### Branches that lag -/

/-- Does the branch lag behind the end of the block? The turn is due in which the task gathers its
branches, or else one in which it is told of the end of one, and no turn before lets the branch go on. -/
inductive Point.Lags (q : Point σ) (t first count : Nat) (next : Joined → Process σ) (b : Nat) : Prop
  | untold {awaited : List Nat} {a : Nat} {o : Outcome} {before after : List Turn}
      (ho : q.schedule.outcome? b = none)
      (hst : q.schedule.state? t = some (.joining first count awaited false next))
      (ha : a ∈ awaited) (hend : q.schedule.outcome? a = some o)
      (hdue : q.due = before ++ .announce a :: after) (hbefore : q.schedule.Quiet b before)
      (hafter : ∀ v ∈ after, v ≠ .resume b ∧ v ≠ .gather b)
  | told {awaited : List Nat} {before after : List Turn} (ho : q.schedule.outcome? b = none)
      (hst : q.schedule.state? t = some (.joining first count awaited true next))
      (hdue : q.due = before ++ .gather t :: after)
      (hbefore : ∀ v ∈ before, v ≠ .resume b ∧ v ≠ .gather b)

section Lagging

variable {cancel : Bool} {q q' : Point σ} {ms : List (Moment σ)} {t first count b : Nat}
  {next : Joined → Process σ}

theorem Point.Lags.outcome? (h : q.Lags t first count next b) : q.schedule.outcome? b = none := by
  cases h with
  | untold ho => exact ho
  | told ho => exact ho

theorem Turn.ne_of_not_mem_ofTask {v : Turn} (h : v ∉ Turn.ofTask b) :
    v ≠ .resume b ∧ v ≠ .gather b := by
  constructor <;> rintro rfl <;> simp [Turn.ofTask] at h

/-- A branch lags if no turn that is due lets it go on, and the task is to gather its branches. -/
theorem Point.Orderly.lags_of_told (hq : q.Orderly) (ho : q.schedule.outcome? b = none)
    {awaited : List Nat} (hst : q.schedule.state? t = some (.joining first count awaited true next))
    (hdue : ∀ v ∈ q.due, v ≠ .resume b ∧ v ≠ .gather b) : q.Lags t first count next b := by
  have hmem : .gather t ∈ q.due := hq.tidy.needed t _ _ (by simp) hst .gather
  obtain ⟨before, after, heq⟩ := List.append_of_mem hmem
  refine .told ho hst heq fun v hv => hdue v ?_
  rw [heq]
  exact List.mem_append_left _ hv

/-- A branch lags if it is quiet, and another one has failed. -/
theorem Point.Orderly.lags_of_quiet (hq : q.Orderly) (hin : q.schedule.InBlock t first count next)
    (hquiet : q.schedule.Quiet b q.due) (ho : q.schedule.outcome? b = none) {c : Nat}
    (hc : first ≤ c) (hc' : c < first + count) {f : Failure}
    (hfail : q.schedule.outcome? c = some (.error f)) : q.Lags t first count next b := by
  obtain ⟨awaited, due, hst⟩ := hin
  cases due with
  | true => exact hq.lags_of_told ho hst fun v hv => Turn.ne_of_not_mem_ofTask (hquiet.own v hv)
  | false =>
    have hmem : c ∈ awaited := hq.gathered.mem_of_error hst hc hc' hfail
    have hdue : .announce c ∈ q.due := hq.tidy.needed t _ _ (by simp) hst (.announce hmem hfail)
    obtain ⟨before, after, heq⟩ := List.append_of_mem hdue
    rw [heq] at hquiet
    refine .untold ho hst hmem hfail heq ⟨fun v hv => ?_, fun c' hc' => ?_⟩ fun v hv => ?_
    · exact hquiet.own v (List.mem_append_left _ hv)
    · exact hquiet.children c' (List.mem_append_left _ hc')
    · exact Turn.ne_of_not_mem_ofTask
        (hquiet.own v (List.mem_append_right _ (List.mem_cons_of_mem _ hv)))

/-- A branch that lags does so as alarms ring. -/
theorem Point.Lags.of_rung (h : q.Lags t first count next b) (hq : q.Orderly)
    (htasks : q'.schedule.tasks = q.schedule.tasks) {rung : List Turn} (hdue : q'.due = q.due ++ rung)
    (hrung : ∀ v ∈ rung, ∃ a ∈ q.schedule.alarms.all, a.event = v) : q'.Lags t first count next b := by
  have hstate (c : Nat) : q'.schedule.state? c = q.schedule.state? c := by
    rw [Schedule.state?, htasks]
    rfl
  have houtcome (c : Nat) : q'.schedule.outcome? c = q.schedule.outcome? c := by
    rw [Schedule.outcome?, hstate]
    rfl
  cases h with
  | @untold _ a o before after ho hst ha hend hdue₀ hbefore hafter =>
    refine .untold ((houtcome b).trans ho) ((hstate t).trans hst) ha ((houtcome a).trans hend)
      (by rw [hdue, hdue₀, List.append_assoc, List.cons_append]) ⟨hbefore.own, fun c hc => ?_⟩ ?_
    · rw [Schedule.parent?, htasks]
      exact hbefore.children c hc
    · intro v hv
      rcases List.mem_append.mp hv with hv | hv
      · exact hafter v hv
      · obtain ⟨a', ha', rfl⟩ := hrung v hv
        rcases hq.bells a' ha' with heq | ⟨x, heq⟩ <;> simp [heq]
  | told ho hst hdue₀ hbefore =>
    exact .told ((houtcome b).trans ho) ((hstate t).trans hst)
      (by rw [hdue, hdue₀, List.append_assoc, List.cons_append]) hbefore

/-- A branch that lags does so in each turn in which the task does not leave the block. -/
theorem Point.Lags.of_turn (h : q.Lags t first count next b) (hq : q.Orderly) (hq' : q'.Orderly)
    (hb : first ≤ b) (hb' : b < first + count) (hdecided : q.schedule.Decided first count)
    (hin : q'.schedule.InBlock t first count next) {u : Turn} {rest new : List Turn}
    (hdue : q.due = u :: rest) (hs' : q'.schedule = q.schedule.take cancel u)
    (hdue' : q'.due = rest ++ new) (hnew : ∀ v ∈ new, q.schedule.Queued u v) :
    q'.Lags t first count next b := by
  obtain ⟨awaited₀, due₀, hst₀⟩ : ∃ awaited due, q.schedule.state? t =
      some (.joining first count awaited due next) := by
    cases h with
    | untold _ hst => exact ⟨_, _, hst⟩
    | told _ hst => exact ⟨_, _, hst⟩
  obtain ⟨ht, hlength, -, -⟩ := hq.family t _ _ _ _ _ hst₀
  have hlt : first < q.schedule.tasks.length := by omega
  have hblt : b < q.schedule.tasks.length := by omega
  rw [hs'] at hin
  cases h with
  | @untold awaited a o before after ho hst ha hend hdue₀ hbefore hafter =>
    have hnot (hu : u ∉ Turn.ofTask b) (hchild : ∀ c, u = .announce c →
        q.schedule.parent? c ≠ some b) : ∀ v ∈ after ++ new, v ≠ .resume b ∧ v ≠ .gather b := by
      intro v hv
      rcases List.mem_append.mp hv with hv | hv
      · exact hafter v hv
      · exact Turn.ne_of_not_mem_ofTask (Schedule.not_queued
          (.inl hblt : _ ∨ (q.schedule.take cancel u).tasks.length ≤ b) hu hchild (hnew v hv))
    cases before with
    | nil =>
      -- the task is told of the end of the branch
      obtain ⟨rfl, rfl⟩ := List.cons.inj (hdue.symm.trans hdue₀)
      have hparent := ((hq.tidy.branches t _ _ _ _ _ (by simp) hst).1 a ha).parent
      have hne : a ≠ b := by
        rintro rfl
        cases ho.symm.trans hend
      have htold := Schedule.state?_take_announce hst hparent ha cancel
      rw [← hs'] at htold
      refine hq'.lags_of_told ?_ htold ?_
      · rw [hs']
        exact Schedule.outcome?_take_of_not_work (fun p hw => by cases hw) ho
      · rw [hdue']
        refine hnot (by simpa [Turn.ofTask] using hne) fun c hc => ?_
        obtain rfl := Turn.announce.inj hc
        rw [hparent]
        simp
        omega
    | cons x before =>
      rw [List.cons_append] at hdue₀
      obtain ⟨rfl, rfl⟩ := List.cons.inj (hdue.symm.trans hdue₀)
      have hown : u ∉ Turn.ofTask b := hbefore.own u (List.mem_cons_self ..)
      have hchild (c : Nat) (hc : u = .announce c) : q.schedule.parent? c ≠ some b :=
        hbefore.children c (hc ▸ List.mem_cons_self ..)
      have hwork (p : Process σ) : q.schedule.work? u ≠ some (b, p) :=
        fun hw => hown (Schedule.mem_ofTask_of_work? hw)
      have ho' : q'.schedule.outcome? b = none := by
        rw [hs']
        exact Schedule.outcome?_take_of_not_work hwork ho
      obtain ⟨due', hst', -⟩ :=
        Schedule.exists_state?_of_inBlock hq.family hq.gathered hst hlt hdecided hin
      rw [← hs'] at hst'
      cases due' with
      | true =>
        refine hq'.lags_of_told ho' hst' fun v hv => ?_
        rw [hdue', List.append_assoc, List.cons_append] at hv
        rcases List.mem_append.mp hv with hv | hv
        · exact Turn.ne_of_not_mem_ofTask (hbefore.own v (List.mem_cons_of_mem _ hv))
        · rcases List.mem_cons.mp hv with rfl | hv
          · simp
          · exact hnot hown hchild v hv
      | false =>
        have hend' : q'.schedule.outcome? a = some o := by
          rw [hs']
          exact Schedule.outcome?_take hend cancel u
        refine .untold ho' hst' ha hend' (by rw [hdue', List.append_assoc, List.cons_append])
          ⟨fun v hv => hbefore.own v (List.mem_cons_of_mem _ hv), fun c hc => ?_⟩ (hnot hown hchild)
        rw [hs']
        exact Schedule.parent?_ne_of_take hwork (hbefore.children c (List.mem_cons_of_mem _ hc))
  | @told awaited before after ho hst hdue₀ hbefore =>
    cases before with
    | nil =>
      -- the task leaves the block
      obtain ⟨rfl, rfl⟩ := List.cons.inj (hdue.symm.trans hdue₀)
      obtain ⟨j, hj⟩ := Schedule.exists_joined? hq.family hq.gathered hst hdecided
      exact absurd hin (Schedule.not_inBlock_take_gather hst hlt hj)
    | cons x before =>
      rw [List.cons_append] at hdue₀
      obtain ⟨rfl, rfl⟩ := List.cons.inj (hdue.symm.trans hdue₀)
      obtain ⟨hresume, hgather⟩ := hbefore u (List.mem_cons_self ..)
      obtain ⟨due', hst', htrue⟩ :=
        Schedule.exists_state?_of_inBlock hq.family hq.gathered hst hlt hdecided hin
      rw [← hs', htrue rfl] at hst'
      refine .told ?_ hst' (by rw [hdue', List.append_assoc, List.cons_append])
        fun v hv => hbefore v (List.mem_cons_of_mem _ hv)
      rw [hs']
      refine Schedule.outcome?_take_of_not_work (fun p hw => ?_) ho
      rcases Schedule.eq_of_work? hw with heq | heq
      · exact hresume heq
      · exact hgather heq

/-- **A branch that lags** does so until the task leaves the block. -/
theorem Course.lags (h : Course cancel q ms q') (hq : q.Orderly) (hb : first ≤ b)
    (hb' : b < first + count) (hlt : first < q.schedule.tasks.length)
    (hdecided : q.schedule.Decided first count) (hlags : q.Lags t first count next b)
    (hin : q'.schedule.InBlock t first count next) : q'.Lags t first count next b := by
  induction h with
  | refl => exact hlags
  | @step _ _ q' q'' hcourse hstep ih =>
    have hq' := hcourse.orderly hq
    have hlags' := ih (hstep.inBlock_of (Nat.lt_of_lt_of_le hlt hcourse.length_le) hin)
    rcases hstep.due with ⟨u, turns, new, hturns, hs', hdue', hnew⟩ | ⟨rung, htasks, hdue', -, hrung, -⟩
    · refine hlags'.of_turn hq' (hstep.orderly hq') hb hb' (hcourse.decided hdecided) hin ?_ hs' hdue'
        hnew
      rw [Point.due, hturns]
      rfl
    · exact hlags'.of_rung hq' htasks hdue' hrung

end Lagging

end PipeScript
