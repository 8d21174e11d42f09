import PipeScript.Proofs.Execution.Openings

/-!
# How parallel blocks end

A parallel block ends in one way only, wherever it stands in a program and whatever its branches do. When
no branch fails, it ends at the time at which the last one does, and comes to the values of all. When one
fails, it ends at that time, and raises for a branch that has failed by then.

If branches fail right away, the block raises for the first of these, or for one before it that has
failed at the same time after it had only let the others go first.

## The model

A block begins at a point at which a task forks, and ends at one at which that task leaves the block
(`Point.Leaves`). `Point.Ends` says what holds there. The task may also be dropped in the block, or the
run be over before the block ends.

Main result: `Runtime.block_ends`.
-/

namespace PipeScript

variable {σ : Type}

/-- How a block ends at the second point that has begun at the first one. -/
structure Point.Ends (cancel : Bool) (p q : Point σ) (t first : Nat) {count : Nat}
    (branch : Fin count → Process σ) (next : Joined → Process σ) (j : Joined) : Prop where
  /-- The task goes on with what the branches come to. -/
  goesOn : q.schedule.work? (.gather t) = some (t, next j)
  /-- No time has passed since a branch has failed, or else since all have ended. -/
  prompt : ∀ ms r ns, Course cancel p ms r → Course cancel r ns q →
    r.schedule.Decided first count → r.schedule.world.now = q.schedule.world.now
  /-- The values are those of all branches, in order. -/
  values : ∀ values, j = .ok values → List.Forall₂ (fun b v => q.schedule.outcome? b = some (.ok v))
    ((List.range count).map (first + ·)) values
  /-- The failure is that of the branch. -/
  failure : ∀ i f, j = .error (i, f) → i < count ∧ q.schedule.outcome? (first + i) = some (.error f)
  /-- The branches have begun in a row. If one has failed in its first turn, the block raises for the
  first such branch, or for one before it that has only yielded in its first turn. -/
  opening : ∃ ms rest s ns, Course cancel p ms ⟨Turn.openings first count ++ rest, s⟩ ∧
    Course cancel ⟨rest, (Turn.openings first count).foldl (Schedule.take cancel) s⟩ ns q ∧
    (∀ i : Fin count, ((Turn.openings first i).foldl (Schedule.take cancel) s).state? (first + i) =
      some (.ready (branch i))) ∧
    ∀ (k : Fin count) g, s.firstPause cancel first branch k = .ended (.error g) →
      ∃ (i : Fin count) (f : Failure), j = .error (i.val, f) ∧ i ≤ k ∧
        (s.firstPause cancel first branch i = .ended (.error f) ∨
          ∃ rest, s.firstPause cancel first branch i = .yielded rest)

namespace Point.Leaves

variable {cancel : Bool} {q : Point σ} {ms : List (Moment σ)} {t first count : Nat} {kind : Fork}
  {branch : Fin count → Process σ} {next : Joined → Process σ} {j : Joined}

theorem work? (h : q.Leaves t first count next j) :
    q.schedule.work? (.gather t) = some (t, next j) := by
  obtain ⟨_, awaited, -, hst, hj⟩ := h
  simp only [Schedule.work?, hst, hj, Option.map_some]

theorem values (h : q.Leaves t first count next j) (hq : q.Orderly) {values : List String}
    (hj : j = .ok values) : List.Forall₂ (fun b v => q.schedule.outcome? b = some (.ok v))
      ((List.range count).map (first + ·)) values := by
  obtain ⟨_, awaited, -, hst, hjoined⟩ := h
  exact Schedule.values_of_joined? hq.gathered hst (hj ▸ hjoined)

theorem failure (h : q.Leaves t first count next j) (hq : q.Orderly) {i : Nat} {f : Failure}
    (hj : j = .error (i, f)) : i < count ∧ q.schedule.outcome? (first + i) = some (.error f) ∧
      ∀ k < i, ∀ g, q.schedule.outcome? (first + k) ≠ some (.error g) := by
  obtain ⟨_, awaited, -, hst, hjoined⟩ := h
  exact Schedule.failure_of_joined? hq.family hq.gathered hst (hj ▸ hjoined)

/-- A block of which a branch has failed raises. -/
theorem exists_failure (h : q.Leaves t first count next j) (hq : q.Orderly) {k : Nat} (hk : k < count)
    {g : Failure} (hfail : q.schedule.outcome? (first + k) = some (.error g)) :
    ∃ i f, j = .error (i, f) ∧ i ≤ k := by
  cases j with
  | ok values =>
    have hvalues := h.values hq rfl
    have hlength := hvalues.length_eq
    have hv := hvalues.get (by simpa using hk) (by simpa [← hlength] using hk)
    simp [hfail] at hv
  | error e =>
    refine ⟨e.1, e.2, rfl, ?_⟩
    by_contra hlt
    exact (h.failure hq (i := e.1) (f := e.2) rfl).2.2 k (Nat.not_le.mp hlt) g hfail

/-- **A block of which a branch has failed right away** raises for the first such branch, or for one
before it that has only yielded first: a branch that pauses longer lags. -/
theorem failure_of_firstPause {rest : List Turn} {s : Schedule σ}
    (hq : (Point.mk (Turn.openings first count ++ rest) s).Orderly)
    (hunbegun : ∀ i : Fin count, s.Unbegun (first + i) (branch i) (rest ++ s.queue))
    (hcourse : Course cancel
      ⟨rest, (Turn.openings first count).foldl (Schedule.take cancel) s⟩ ms q)
    (hleaves : q.Leaves t first count next j) {k : Fin count} {g : Failure}
    (hk : s.firstPause cancel first branch k = .ended (.error g)) :
    ∃ (i : Fin count) (f : Failure), j = .error (i.val, f) ∧ i ≤ k ∧
      (s.firstPause cancel first branch i = .ended (.error f) ∨
        ∃ rest, s.firstPause cancel first branch i = .yielded rest) := by
  obtain ⟨_, htakes⟩ := Course.exists_takes cancel (Turn.openings first count) rest s
  have hq' := htakes.orderly hq
  have hlt : first < ((Turn.openings first count).foldl (Schedule.take cancel) s).tasks.length :=
    Nat.lt_of_le_of_lt (Nat.le_add_right _ _)
      (Nat.lt_of_lt_of_le (hunbegun k).lt_length htakes.length_le)
  have hin := hcourse.inBlock_of hlt hleaves.inBlock
  -- what has ended in its first turn has still ended
  have hended {i : Fin count} {o : Outcome}
      (hi : s.firstPause cancel first branch i = .ended o) :
      q.schedule.outcome? (first + i) = some o := by
    have ho := Schedule.outcome?_of_firstPause hq hunbegun hin hi
    exact Schedule.outcome?_eq_some_iff.mpr
      (hcourse.stays (Schedule.outcome?_eq_some_iff.mp ho) rfl).1
  have hfail := Schedule.outcome?_of_firstPause hq hunbegun hin hk
  obtain ⟨i, f, rfl, hle⟩ := hleaves.exists_failure (hcourse.orderly hq') k.isLt (hended hk)
  obtain ⟨hi, ho, -⟩ := hleaves.failure (hcourse.orderly hq') rfl
  refine ⟨⟨i, hi⟩, f, rfl, hle, ?_⟩
  have hlasts (hlasts : (s.firstPause cancel first branch ⟨i, hi⟩).lasts = true) : False := by
    obtain ⟨hquiet, hnone⟩ := Schedule.quiet_of_firstPause hq hunbegun hin hlasts
    have hdecided : Schedule.Decided _ first count :=
      .inl ⟨_, _, Nat.le_add_right _ _, Nat.add_lt_add_left k.isLt _, hfail⟩
    have hlags := hq'.lags_of_quiet hin hquiet hnone (Nat.le_add_right _ _)
      (Nat.add_lt_add_left k.isLt _) hfail
    have hend := (hcourse.lags hq' (Nat.le_add_right _ _) (Nat.add_lt_add_left hi _) hlt hdecided
      hlags hleaves.inBlock).outcome?
    cases hend.symm.trans ho
  cases hp : s.firstPause cancel first branch ⟨i, hi⟩ with
  | ended o =>
    obtain rfl := Option.some.inj ((hended hp).symm.trans ho)
    exact .inl rfl
  | yielded rest => exact .inr ⟨rest, rfl⟩
  | asleep seconds rest => exact absurd (by rw [hp]; rfl) hlasts
  | forked _ n branch' next' => exact absurd (by rw [hp]; rfl) hlasts

/-- **A block ends** in this way. -/
theorem ends {u : Turn} {turns : List Turn} {s₀ : Schedule σ}
    (hq : (Point.mk (u :: turns) s₀).Orderly) {p₀ : Process σ} (hw : s₀.work? u = some (t, p₀))
    (hp : (p₀.advance s₀.world).2 = .forked kind count branch next)
    (h : Course cancel ⟨turns, s₀.take cancel u⟩ ms q)
    (hleaves : q.Leaves t s₀.tasks.length count next j) :
    Ends cancel ⟨turns, s₀.take cancel u⟩ q t s₀.tasks.length branch next j := by
  have hq' : (Point.mk turns (s₀.take cancel u)).Orderly := (Point.Step.turn u turns s₀).orderly hq
  have hend := h.orderly hq'
  have hlt : s₀.tasks.length < (s₀.take cancel u).tasks.length := Schedule.lt_length_of_forked hw hp
  obtain ⟨ms₁, rest, s, ms₂, hpast, hunbegun, hcourse⟩ := Point.exists_opening hq hw hp h hleaves
  have hopen := hpast.orderly hq'
  obtain ⟨_, htakes⟩ := Course.exists_takes cancel (Turn.openings s₀.tasks.length count) rest s
  refine ⟨hleaves.work?, fun _ r _ hbefore hafter hdecided => ?_, fun values => hleaves.values hend,
    fun i f hj => ?_, ms₁, rest, s, ms₂, hpast, hcourse, fun i => ?_, fun k g hk => ?_⟩
  · exact (hafter.now_eq_of_decided (hbefore.orderly hq')
      (Nat.lt_of_lt_of_le hlt hbefore.length_le) hdecided hleaves.inBlock).symm
  · obtain ⟨hi, ho, -⟩ := hleaves.failure hend hj
    exact ⟨hi, ho⟩
  · have hlt' := Nat.lt_of_lt_of_le hlt (hpast.trans htakes).length_le
    have hin := hcourse.inBlock_of hlt' hleaves.inBlock
    obtain ⟨_, _, rfl, -, -, -, -, hready, -⟩ := Schedule.unbegun_of_openings hopen hunbegun hin i
    exact hready
  · exact failure_of_firstPause hopen hunbegun hcourse hleaves hk

end Point.Leaves

/-- A task that is about to gather the failure of a branch leaves the block that it has forked. -/
theorem Course.leaves_of_failure {cancel : Bool} {u : Turn} {turns rest : List Turn}
    {s₀ s : Schedule σ} {t count b : Nat} {kind : Fork} {p₀ : Process σ} {branch : Fin count → Process σ}
    {next : Joined → Process σ} (hw : s₀.work? u = some (t, p₀))
    (hp : (p₀.advance s₀.world).2 = .forked kind count branch next) {ms : List (Moment σ)}
    (h : Course cancel ⟨turns, s₀.take cancel u⟩ ms ⟨.gather t :: rest, s⟩) {awaited : List Nat}
    (hwaits : s.waiting? t = some (s₀.tasks.length, count, awaited, true)) {f : Failure}
    (hfails : s.firstFailure? awaited = some (b, f)) :
    (Point.mk (.gather t :: rest) s).Leaves t s₀.tasks.length count next
      (.error (b - s₀.tasks.length, f)) := by
  obtain ⟨next', hst⟩ := Schedule.exists_state?_of_waiting? hwaits
  obtain ⟨_, -, -, -, _, _, hforked⟩ := Schedule.exists_queue_of_forked hw hp cancel
  obtain ⟨_, _, hsame⟩ := h.inBlock_of (Schedule.lt_length_of_forked hw hp) ⟨_, _, hst⟩
  cases Option.some.inj (hforked.symm.trans hsame)
  refine ⟨rest, awaited, rfl, hst, ?_⟩
  simp only [Schedule.joined?, hfails]

/-- A task that forks has branches. -/
theorem Pause.exists_of_forks {pause : Pause σ} {kind : Fork} {count : Nat} (h : pause.forks = count)
    (hkind : pause.kind? = some kind) : ∃ branch next, pause = .forked kind count branch next := by
  subst h
  cases pause with
  | forked kind' count branch next =>
    cases hkind
    exact ⟨branch, next, rfl⟩
  | _ => cases hkind

namespace Runtime

/-- **How a parallel block ends**, wherever it begins in a run: that is, where a task forks. What follows
depends on what the block comes to alone. The task is in the block until it leaves it with what the
branches come to, as `Point.Ends` says, or is dropped in it. Once the block is decided, at any point
between two rounds, the task leaves it within two rounds that take no time. -/
theorem block_ends (rt : Runtime σ) (c : Context) (s : σ) (p : Program) (linger : Option Binary64)
    {alarms : Alarms Turn} (halarms : ∀ a ∈ alarms.all, a.event = .interrupt)
    {before : List (Moment σ)} {u : Turn} {turns : List Turn} {s₀ : Schedule σ} {t count : Nat}
    {p₀ : Process σ} {branch : Fin count → Process σ} {next : Joined → Process σ}
    (hbefore : Course rt.settings.cancelSiblings (.of (rt.schedule c s p linger alarms)) before
      ⟨u :: turns, s₀⟩)
    (hwork : s₀.work? u = some (t, p₀))
    (hforks : (p₀.advance s₀.world).2 = .forked .block count branch next) :
    (∃ k : Outcome → Process σ, ∀ j, next j = k (blockOutcome j)) ∧
    (∀ ms q, Course rt.settings.cancelSiblings ⟨turns, s₀.take rt.settings.cancelSiblings u⟩ ms q →
      (q.schedule.InBlock t s₀.tasks.length count next ∨ q.schedule.state? t = some .dropped ∨
        ∃ ms₁ r ms₂ j,
          Course rt.settings.cancelSiblings ⟨turns, s₀.take rt.settings.cancelSiblings u⟩ ms₁ r ∧
          Course rt.settings.cancelSiblings r ms₂ q ∧
          r.Leaves t s₀.tasks.length count next j) ∧
      ∀ j, q.Leaves t s₀.tasks.length count next j →
        Point.Ends rt.settings.cancelSiblings ⟨turns, s₀.take rt.settings.cancelSiblings u⟩ q t
          s₀.tasks.length branch next j) ∧
    ∀ ms s₁, Course rt.settings.cancelSiblings
        ⟨turns, s₀.take rt.settings.cancelSiblings u⟩ ms (.of s₁) →
      s₁.InBlock t s₀.tasks.length count next → s₁.Decided s₀.tasks.length count →
      ∃ s₂, s₁.beat rt.settings.cancelSiblings = some s₂ ∧ s₂.world.now = s₁.world.now ∧
        (s₂.InBlock t s₀.tasks.length count next →
          ∃ s₃, s₂.beat rt.settings.cancelSiblings = some s₃ ∧ s₃.world.now = s₁.world.now ∧
            ¬ s₃.InBlock t s₀.tasks.length count next) := by
  have hq : (Point.mk (u :: turns) s₀).Orderly :=
    hbefore.orderly (Schedule.orderly_start _ _ halarms)
  have hq' : (Point.mk turns (s₀.take rt.settings.cancelSiblings u)).Orderly :=
    (Point.Step.turn u turns s₀).orderly hq
  obtain ⟨_, -, -, -, hin⟩ := Schedule.exists_queue_of_forked hwork hforks rt.settings.cancelSiblings
  refine ⟨?_, fun ms q hcourse => ⟨hcourse.inBlock_or_leaves hin, fun j hleaves => ?_⟩,
    fun ms s₁ hcourse hin₁ hdecided => ?_⟩
  · have hall := hbefore.all Process.JoinsBlocks.inherited
      (rt.joinsBlocks_schedule c s p linger alarms)
    exact (hall.work hwork).exists_next hforks
  · exact hleaves.ends hq hwork hforks hcourse
  · exact Schedule.exists_beats (hcourse.orderly hq')
      (Nat.lt_of_lt_of_le (Schedule.lt_length_of_forked hwork hforks) hcourse.length_le) hdecided hin₁ _

/-- A block of which the second branch fails right away, and the first one after it has only let the
other one go first. -/
def tied : Program :=
  ⟨[[.parallel [[.command "pass" "" "", .command "fail" "a" ""], [.command "fail" "b" ""]]]]⟩

/-- The block begins in the first turn of the run. When its branches have begun, in the second round, the
second one has failed; but the first one has as well when the task leaves the block in the fourth. -/
theorem tied_raises : ∃ (before ms ns : List (Moment Unit)) (s₀ s₁ s₂ : Schedule Unit)
    (p₀ : Process Unit) (branch : Fin 2 → Process Unit) (next : Joined → Process Unit) (f g : Failure),
    Course strict.settings.cancelSiblings (.of (strict.schedule {} () tied none {})) before
      ⟨[.resume 0], s₀⟩ ∧
    s₀.work? (.resume 0) = some (0, p₀) ∧ (p₀.advance s₀.world).2 = .forked .block 2 branch next ∧
    s₀.tasks.length = 1 ∧
    Course strict.settings.cancelSiblings ⟨[], s₀.take strict.settings.cancelSiblings (.resume 0)⟩ ms
      ⟨Turn.openings 1 2, s₁⟩ ∧
    Course strict.settings.cancelSiblings
      ⟨[], (Turn.openings 1 2).foldl (Schedule.take strict.settings.cancelSiblings) s₁⟩ ns
      ⟨[.gather 0], s₂⟩ ∧
    ((Turn.openings 1 2).foldl (Schedule.take strict.settings.cancelSiblings) s₁).outcome? 1 = none ∧
    ((Turn.openings 1 2).foldl (Schedule.take strict.settings.cancelSiblings) s₁).outcome? 2 =
      some (.error g) ∧
    (Point.mk [.gather 0] s₂).Leaves 0 1 2 next (.error (0, f)) := by
  let cancel := strict.settings.cancelSiblings
  let start : Schedule Unit := strict.schedule {} () tied none {}
  let s₀ : Schedule Unit := { start.ring with queue := [] }
  let forked : Schedule Unit := s₀.take cancel (.resume 0)
  let s₁ : Schedule Unit := { forked.ring with queue := [] }
  let opened : Schedule Unit := (Turn.openings 1 2).foldl (Schedule.take cancel) s₁
  let third : Schedule Unit := opened.round cancel
  let s₂ : Schedule Unit := Schedule.take cancel { third.ring with queue := [] } (.announce 1)
  have hstart : Point.Step cancel (.of start) [] _ := .round start
  have hqueue₀ : start.ring.queue = [.resume 0] := by decide +kernel
  rw [hqueue₀] at hstart
  have hforked : Point.Step cancel (.of forked) [] _ := .round forked
  have hqueue₁ : forked.ring.queue = Turn.openings 1 2 := by decide +kernel
  rw [hqueue₁] at hforked
  obtain ⟨_, hround⟩ := Course.exists_round cancel opened
  have hthird : Point.Step cancel (.of third) [] _ := .round third
  have hqueue₂ : third.ring.queue = [.announce 1, .gather 0] := by decide +kernel
  rw [hqueue₂] at hthird
  have hturn : Point.Step cancel _ _ ⟨[.gather 0], s₂⟩ :=
    .turn (.announce 1) [.gather 0] { third.ring with queue := [] }
  have hwork : (s₀.work? (.resume 0)).map (fun w => (w.1, (w.2.advance s₀.world).2.kind?)) =
      some (0, some .block) := by decide +kernel
  obtain ⟨⟨t, p₀⟩, hwork, hkind⟩ := Option.map_eq_some_iff.mp hwork
  obtain ⟨rfl, hkind⟩ := Prod.mk.inj hkind
  have hforks : (p₀.advance s₀.world).2.forks = 2 := by
    have hlength : forked.tasks.length = s₀.tasks.length + 2 := by decide +kernel
    exact Nat.add_left_cancel ((Schedule.length_take_of_work? hwork cancel).symm.trans hlength)
  obtain ⟨branch, next, hforks⟩ := Pause.exists_of_forks hforks hkind
  -- what the branches have come to when they have begun
  have hfirst : (opened.outcome? 1).isNone = true := by decide +kernel
  have hsecond : (opened.outcome? 2).map (·.toBool) = some false := by decide +kernel
  obtain ⟨o, hsecond, ho⟩ := Option.map_eq_some_iff.mp hsecond
  obtain ⟨g, rfl⟩ : ∃ g, o = .error g := by
    cases o with
    | ok v => cases ho
    | error g => exact ⟨g, rfl⟩
  -- what the task gathers
  have hlength : s₀.tasks.length = 1 := by decide +kernel
  have hwaits : s₂.waiting? 0 = some (s₀.tasks.length, 2, [1, 2], true) := by decide +kernel
  have hfails : (s₂.firstFailure? [1, 2]).map (·.1) = some 1 := by decide +kernel
  obtain ⟨⟨b, f⟩, hfails, rfl⟩ := Option.map_eq_some_iff.mp hfails
  obtain ⟨_, htakes⟩ := Course.exists_takes cancel (Turn.openings 1 2) [] s₁
  rw [List.append_nil] at htakes
  have hopening := Course.single hforked
  have hafter := (hround.step hthird).step hturn
  have hleaves := ((hopening.trans htakes).trans hafter).leaves_of_failure hwork hforks hwaits hfails
  rw [hlength] at hleaves
  exact ⟨_, _, _, s₀, s₁, s₂, p₀, branch, next, f, g, .single hstart, hwork, hforks, hlength, hopening,
    hafter, Option.isNone_iff_eq_none.mp hfirst, hsecond, hleaves⟩

/-- The block of `tied` ends in this way. -/
theorem tied_block_ends : ∃ (before ms : List (Moment Unit)) (s₀ s₁ : Schedule Unit)
    (p₀ : Process Unit) (branch : Fin 2 → Process Unit) (next : Joined → Process Unit) (f : Failure),
    (∀ a ∈ Alarms.all (α := Turn) {}, a.event = .interrupt) ∧
    Course strict.settings.cancelSiblings (.of (strict.schedule {} () tied none {})) before
      ⟨[.resume 0], s₀⟩ ∧
    s₀.work? (.resume 0) = some (0, p₀) ∧ (p₀.advance s₀.world).2 = .forked .block 2 branch next ∧
    (∃ k : Outcome → Process Unit, ∀ j, next j = k (blockOutcome j)) ∧
    Course strict.settings.cancelSiblings ⟨[], s₀.take strict.settings.cancelSiblings (.resume 0)⟩ ms
      ⟨[.gather 0], s₁⟩ ∧
    Point.Ends strict.settings.cancelSiblings
      ⟨[], s₀.take strict.settings.cancelSiblings (.resume 0)⟩ ⟨[.gather 0], s₁⟩ 0 s₀.tasks.length
      branch next (.error (0, f)) := by
  obtain ⟨before, ms, ns, s₀, s, s₁, p₀, branch, next, f, g, hbefore, hwork, hforks, hlength, hopening,
    hafter, -, -, hleaves⟩ := tied_raises
  have halarms : ∀ a ∈ Alarms.all (α := Turn) {}, a.event = .interrupt := by simp [Alarms.all]
  obtain ⟨_, htakes⟩ := Course.exists_takes strict.settings.cancelSiblings (Turn.openings 1 2) [] s
  rw [List.append_nil] at htakes
  have hcourse := (hopening.trans htakes).trans hafter
  rw [← hlength] at hleaves
  obtain ⟨hnext, hends, -⟩ := strict.block_ends {} () tied none halarms hbefore hwork hforks
  exact ⟨before, _, s₀, s₁, p₀, branch, next, f, halarms, hbefore, hwork, hforks, hnext, hcourse,
    (hends _ _ hcourse).2 _ hleaves⟩

/-- The position of the branch for which a run raises. -/
def branch? : Outcome × World Unit → Option Nat
  | (.error (.branch i _), _) => some i
  | _ => none

/-- **A block need not raise for the first branch that fails right away**: in `tied` this is the second
one, and the run raises for the first. -/
theorem tied_raises_for_other : ∃ (before : List (Moment Unit)) (s : Schedule Unit) (g : Failure),
    Course strict.settings.cancelSiblings (.of (strict.schedule {} () tied none {})) before
      ⟨Turn.openings 1 2, s⟩ ∧
    ((Turn.openings 1 2).foldl (Schedule.take strict.settings.cancelSiblings) s).outcome? 1 = none ∧
    ((Turn.openings 1 2).foldl (Schedule.take strict.settings.cancelSiblings) s).outcome? 2 =
      some (.error g) ∧
    (strict.execute {} () tied).bind branch? = some 0 := by
  obtain ⟨before, _, _, s₀, s, _, _, _, _, _, g, hbefore, _, _, _, hopening, _, hfirst, hsecond, _⟩ :=
    tied_raises
  have hcourse := (hbefore.step (.turn (.resume 0) [] s₀)).trans hopening
  exact ⟨_, s, g, hcourse, hfirst, hsecond, by decide +kernel⟩

end Runtime

end PipeScript
