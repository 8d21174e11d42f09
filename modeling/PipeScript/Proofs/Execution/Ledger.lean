import PipeScript.Proofs.Execution.Counting
import PipeScript.Proofs.Execution.Traces

/-!
# No count is lost

The tasks of a run count in turns, in the same counters. What has been counted and what the tasks have
still to count is the same all along, so at the end of a run in which nothing fails each event has been
counted exactly once, whatever the order of the turns.

## The model

A `Ledger` says of each task what it comes to and what it has still to count. It balances at a point of a
run if each task does what is said of it, and if what has been counted and what is left together are the
events of the whole run (`Ledger.Balances`). A task other than the main one either has ended or is waited
for by an earlier one (`Schedule.Attended`), as nothing is dropped where nothing fails; so no task is left
when the main task has ended.

Main results: the ledger goes on balancing as a turn is taken (`Ledger.Balances.take`), hence at every
point of a course (`Course.accounted`), and a run that ends has counted what its process counts
(`Schedule.counted_of_runFor`).
-/

namespace PipeScript

variable {σ : Type} {vars : Variables}

/-! ### What has been counted -/

/-- What a deed counts. -/
def Deed.events : Deed σ → List Event
  | change e => e.events
  | slice .. => []

/-- What is counted at some moments. -/
def Moment.counted (ms : List (Moment σ)) : List Event := ms.flatMap fun m => m.deed.events

theorem Moment.counted_append (ms ns : List (Moment σ)) :
    Moment.counted (ms ++ ns) = Moment.counted ms ++ Moment.counted ns :=
  List.flatMap_append

theorem Deed.metrics_apply (d : Deed σ) (w : World σ) :
    (d.apply w).metrics = d.events.foldl Metrics.count w.metrics := by
  cases d with
  | slice place seconds => rfl
  | change e => cases e <;> rfl

/-- **The counters are what has been counted**, in the order of the moments. -/
theorem Moment.Linked.metrics {w w' : World σ} {ms : List (Moment σ)} (h : Linked w ms w') :
    w'.metrics = (counted ms).foldl Metrics.count w.metrics := by
  induction ms generalizing w with
  | nil =>
    rw [show w' = _ from h]
    rfl
  | cons m ms ih =>
    have hafter : m.after.metrics = m.deed.events.foldl Metrics.count w.metrics := by
      rw [Moment.after, m.deed.metrics_apply, h.1]
    rw [ih h.2, hafter, ← List.foldl_append]
    rfl

/-- Does a pausing task come to the value, and count these events until then? -/
def Pause.Counts (vars : Variables) : Pause σ → String → Multiset Event → Prop
  | .ended o, v, es => o = .ok v ∧ es = 0
  | .yielded rest, v, es => rest.Counts vars v es
  | .asleep _ rest, v, es => rest.Counts vars v es
  | .forked kind count branch next, v, es => (Process.fork kind count branch next).Counts vars v es

/-- **What a process counts** is what it counts until it pauses, and what it counts later. -/
theorem Process.Counts.advance {p : Process σ} {v : String} {es : Multiset Event} {w : World σ}
    (h : p.Counts vars v es) (hw : w.Calm vars) (t : Nat) :
    (p.advance w).1.Calm vars ∧ ∃ later, (p.advance w).2.Counts vars v later ∧
      es = Moment.counted (p.moments t w) + later := by
  induction p generalizing w es with
  | done o => exact ⟨hw, es, h, (zero_add es).symm⟩
  | look next ih => exact ih w (h w hw) hw
  | act e next ih =>
    obtain ⟨hcalm, rest, hrest, rfl⟩ := h
    obtain ⟨hw', later, hlater, rfl⟩ := ih hrest (hcalm w hw)
    refine ⟨hw', later, hlater, ?_⟩
    rw [← add_assoc, Multiset.coe_add]
    rfl
  | wait seconds next ih =>
    rw [Process.advance]
    split
    · exact ⟨hw, es, h, (zero_add es).symm⟩
    · exact ⟨hw, es, h, (zero_add es).symm⟩
  | nap place r next ih =>
    rw [Process.advance, Process.moments]
    simp only [hw.running, Bool.false_eq_true, if_false]
    split
    · exact ⟨hw, es, h, (zero_add es).symm⟩
    · exact ih false h hw
  | fork kind count branch next _ ih =>
    rw [Process.advance, Process.moments]
    split
    · rename_i hzero
      subst hzero
      obtain ⟨values, parts, rest, -, hnext, rfl⟩ := h
      rw [Finset.univ_eq_empty, Finset.sum_empty, zero_add]
      rw [List.ofFn_zero] at hnext
      exact ih (.ok []) hnext hw
    · exact ⟨hw, es, h, (zero_add es).symm⟩

/-- Where all branches have values, none is left to wait for. -/
theorem Schedule.pending_of_joined? {s : Schedule σ} {first count : Nat} {awaited : List Nat}
    {values : List String} (hj : s.joined? first count awaited = some (.ok values)) :
    s.pending awaited = [] := by
  unfold Schedule.joined? at hj
  split at hj
  · cases hj
  · split at hj
    · rename_i hempty
      exact List.isEmpty_iff.mp hempty
    · cases hj

/-! ### The ledger -/

/-- The value that each task comes to, and the events that it has still to count. -/
structure Ledger where
  value : Nat → String
  left : Nat → Multiset Event

namespace Ledger

/-- The ledger in which a task has these events left. -/
def settle (l : Ledger) (t : Nat) (rest : Multiset Event) : Ledger :=
  { l with left := Function.update l.left t rest }

/-- The ledger with new tasks, of which the first one gets the given number. -/
def extend (l : Ledger) (n : Nat) {count : Nat} (values : Fin count → String)
    (parts : Fin count → Multiset Event) : Ledger where
  value t := if h : n ≤ t ∧ t < n + count then values ⟨t - n, by omega⟩ else l.value t
  left t := if h : n ≤ t ∧ t < n + count then parts ⟨t - n, by omega⟩ else l.left t

/-- What the first so many tasks have still to count. -/
def total (l : Ledger) (n : Nat) : Multiset Event := ∑ t ∈ Finset.range n, l.left t

section

variable (l : Ledger) {t n count : Nat} (rest : Multiset Event) (values : Fin count → String)
  (parts : Fin count → Multiset Event)

theorem left_settle : (l.settle t rest).left t = rest := by
  simp [settle]

theorem left_settle_of_ne {u : Nat} (h : u ≠ t) : (l.settle t rest).left u = l.left u := by
  simp [settle, h]

theorem value_extend (i : Fin count) : (l.extend n values parts).value (n + i) = values i := by
  simp [extend]

theorem left_extend (i : Fin count) : (l.extend n values parts).left (n + i) = parts i := by
  simp [extend]

theorem value_extend_of_lt (h : t < n) : (l.extend n values parts).value t = l.value t :=
  dif_neg (by omega)

theorem left_extend_of_lt (h : t < n) : (l.extend n values parts).left t = l.left t :=
  dif_neg (by omega)

/-- What a task counts is taken off what is left. -/
theorem add_total_settle (h : t < n) {part : Multiset Event} (hleft : l.left t = part + rest) :
    part + (l.settle t rest).total n = l.total n := by
  have hmem : t ∈ Finset.range n := Finset.mem_range.mpr h
  rw [total, total, settle, Finset.sum_update_of_mem hmem, ← Finset.add_sum_erase _ l.left hmem,
    Finset.sdiff_singleton_eq_erase, hleft, add_assoc]

theorem total_extend : (l.extend n values parts).total (n + count) = l.total n + ∑ i, parts i := by
  rw [total, total, Finset.sum_range_add, Finset.sum_range (n := count)]
  congr 1
  · exact Finset.sum_congr rfl fun t ht => l.left_extend_of_lt values parts (Finset.mem_range.mp ht)
  · exact Finset.sum_congr rfl fun i _ => l.left_extend values parts i

end

/-- Does a task in this state do what the ledger says of it? A task that waits goes on with the values of
its branches. -/
def Fits (vars : Variables) (l : Ledger) (t : Nat) : TaskState σ → Prop
  | .ready p => p.Counts vars (l.value t) (l.left t)
  | .asleep p => p.Counts vars (l.value t) (l.left t)
  | .joining first count _ _ next =>
      (next (.ok (List.ofFn fun i : Fin count => l.value (first + i)))).Counts vars (l.value t)
        (l.left t)
  | .ended o => o = .ok (l.value t) ∧ l.left t = 0
  | .dropped => False

/-- Do the tasks do what the ledger says, apart from the exempt one, and are all events either counted or
left to count? -/
structure Balances (l : Ledger) (vars : Variables) (exempt : Option Nat) (counted : List Event)
    (all : Multiset Event) (s : Schedule σ) : Prop where
  calm : s.world.Calm vars
  fits : ∀ t st, some t ≠ exempt → s.state? t = some st → l.Fits vars t st
  total : counted + l.total s.tasks.length = all

theorem Fits.settle {l : Ledger} {t u : Nat} {st : TaskState σ} (h : l.Fits vars u st) (hu : u ≠ t)
    (rest : Multiset Event) : (l.settle t rest).Fits vars u st := by
  have hleft := l.left_settle_of_ne rest hu
  cases st <;> simp only [Fits, hleft] <;> exact h

/-- What the ledger says of a task stays as it is when there are new tasks. -/
theorem Fits.extend {l : Ledger} {s : Schedule σ} {t count : Nat} {st : TaskState σ}
    (h : l.Fits vars t st) (hfamily : s.Family) (hst : s.state? t = some st)
    (values : Fin count → String) (parts : Fin count → Multiset Event) :
    (l.extend s.tasks.length values parts).Fits vars t st := by
  have ht := Schedule.lt_length_of_state? hst
  have hvalue := l.value_extend_of_lt values parts ht
  have hleft := l.left_extend_of_lt values parts ht
  cases st with
  | joining first waits awaited due next =>
    -- the branches that it waits for were there before
    obtain ⟨-, hbranches, -, -⟩ := hfamily t _ _ _ _ _ hst
    have hvalues : (fun i : Fin waits => (l.extend s.tasks.length values parts).value (first + i)) =
        fun i : Fin waits => l.value (first + i) := by
      funext i
      exact l.value_extend_of_lt values parts (by omega)
    simp only [Fits, hvalues, hvalue, hleft]
    exact h
  | _ =>
    simp only [Fits, hvalue, hleft]
    exact h

namespace Balances

variable {l : Ledger} {x : Option Nat} {counted : List Event} {all : Multiset Event} {s : Schedule σ}
  {t : Nat}

/-- The states of the tasks, how many there are, and the world are all that matters. -/
theorem congr (h : l.Balances vars none counted all s) {s' : Schedule σ} (hworld : s'.world = s.world)
    (hlength : s'.tasks.length = s.tasks.length)
    (hfits : ∀ u st, s'.state? u = some st → l.Fits vars u st) :
    l.Balances vars none counted all s' where
  calm := hworld ▸ h.calm
  fits u st _ := hfits u st
  total := hlength ▸ h.total

theorem enqueue {turns : List Turn} (h : l.Balances vars x counted all s) :
    l.Balances vars x counted all (s.enqueue turns) :=
  ⟨h.calm, h.fits, h.total⟩

theorem fits_of_state (h : l.Balances vars none counted all s) {st : TaskState σ}
    (hst : s.state? t = some st) : l.Fits vars t st :=
  h.fits t st (by simp) hst

/-! ### A task pauses -/

/-- A task that pauses without branches does what the ledger says. -/
theorem record_plain (h : l.Balances vars (some t) counted all s) (ht : t < s.tasks.length)
    {pause : Pause σ} (hforks : pause.forks = 0)
    (hfits : l.Fits vars t (pause.state s.tasks.length)) :
    l.Balances vars none counted all (s.record t pause) where
  calm := by
    rw [Schedule.world_record]
    exact h.calm
  fits u st _ hst := by
    rcases Schedule.state?_record_cases ht hst with ⟨rfl, rfl⟩ | ⟨hu, hst⟩ | ⟨_, _, _, _, i, rfl, -, -⟩
    · exact hfits
    · exact h.fits u st (by simpa using hu) hst
    · obtain rfl : _ = 0 := hforks
      exact i.elim0
  total := by
    rw [Schedule.length_record, hforks]
    exact h.total

/-- A task that forks shares what it has left to count with its branches. -/
theorem record_forked (h : l.Balances vars (some t) counted all s) (hfamily : s.Family)
    (ht : t < s.tasks.length) {kind : Fork} {count : Nat} {branch : Fin count → Process σ}
    {next : Joined → Process σ} {values : Fin count → String} {parts : Fin count → Multiset Event}
    {rest : Multiset Event} (hb : ∀ i, (branch i).Counts vars (values i) (parts i))
    (hnext : (next (.ok (List.ofFn values))).Counts vars (l.value t) rest)
    (hleft : l.left t = ∑ i, parts i + rest) :
    ((l.settle t rest).extend s.tasks.length values parts).Balances vars none counted all
      (s.record t (.forked kind count branch next)) where
  calm := by
    rw [Schedule.world_record]
    exact h.calm
  fits u st _ hst := by
    rcases Schedule.state?_record_cases ht hst with
      ⟨rfl, rfl⟩ | ⟨hu, hst⟩ | ⟨_, _, _, _, i, heq, rfl, rfl⟩
    · have hvalues : (fun i : Fin count => ((l.settle u rest).extend s.tasks.length values parts).value
          (s.tasks.length + i)) = values := by
        funext i
        exact value_extend _ values parts i
      simp only [Pause.state, Fits, hvalues, value_extend_of_lt _ values parts ht,
        left_extend_of_lt _ values parts ht, left_settle]
      exact hnext
    · exact ((h.fits u st (by simpa using hu) hst).settle hu rest).extend hfamily hst values parts
    · cases heq
      simp only [Fits, value_extend, left_extend]
      exact hb i
  total := by
    rw [Schedule.length_record, Pause.forks, total_extend, add_comm (Ledger.total _ _),
      l.add_total_settle rest ht hleft]
    exact h.total

theorem record (h : l.Balances vars (some t) counted all s) (hfamily : s.Family)
    (ht : t < s.tasks.length) {pause : Pause σ} (hpause : pause.Counts vars (l.value t) (l.left t)) :
    ∃ l' : Ledger, l'.Balances vars none counted all (s.record t pause) := by
  cases pause with
  | ended o => exact ⟨l, h.record_plain ht rfl hpause⟩
  | yielded rest => exact ⟨l, h.record_plain ht rfl hpause⟩
  | asleep seconds rest => exact ⟨l, h.record_plain ht rfl hpause⟩
  | forked kind count branch next =>
    obtain ⟨values, parts, rest, hb, hnext, hleft⟩ := hpause
    exact ⟨_, h.record_forked hfamily ht hb hnext hleft⟩

/-- A task that goes on counts part of what it has left to count. -/
theorem proceed (h : l.Balances vars none counted all s) (hfamily : s.Family) (ht : t < s.tasks.length)
    {p : Process σ} (hp : p.Counts vars (l.value t) (l.left t)) :
    ∃ l' : Ledger, l'.Balances vars none (counted ++ Moment.counted (p.moments t s.world)) all
      (s.proceed t p) := by
  obtain ⟨hcalm, later, hpause, hleft⟩ := hp.advance h.calm t
  have hadvanced : (l.settle t later).Balances vars (some t)
      (counted ++ Moment.counted (p.moments t s.world)) all
      { s with world := (p.advance s.world).1 } := by
    refine ⟨hcalm, fun u st hu hst => ?_, ?_⟩
    · exact (h.fits_of_state hst).settle (by simpa using hu) later
    · rw [← Multiset.coe_add, add_assoc, l.add_total_settle later ht hleft]
      exact h.total
  rw [Schedule.proceed_eq]
  refine hadvanced.record (hfamily.congr rfl) ht ?_
  rw [left_settle]
  exact hpause

/-! ### A turn is taken -/

/-- The branches of a task have the values that the ledger says. -/
theorem eq_of_joined? (h : l.Balances vars none counted all s) (hfamily : s.Family)
    (hgathered : s.Gathered) {first count : Nat} {awaited : List Nat} {due : Bool}
    {next : Joined → Process σ} (hst : s.state? t = some (.joining first count awaited due next))
    {j : Joined} (hj : s.joined? first count awaited = some j) :
    j = .ok (List.ofFn fun i : Fin count => l.value (first + i)) := by
  have hvalue {b : Nat} {o : Outcome} (ho : s.outcome? b = some o) : o = .ok (l.value b) :=
    (h.fits_of_state (Schedule.outcome?_eq_some_iff.mp ho)).1
  cases j with
  | error g =>
    obtain ⟨i, f⟩ := g
    obtain ⟨-, ho, -⟩ := Schedule.failure_of_joined? hfamily hgathered hst hj
    cases hvalue ho
  | ok values =>
    have hall := Schedule.values_of_joined? hgathered hst hj
    have hlength : count = values.length := by simpa using hall.length_eq
    congr 1
    apply List.ext_getElem (by simp [hlength])
    intro i h₁ h₂
    have ho := hall.get (i := i) (by simpa [hlength] using h₁) h₁
    simpa using hvalue ho

/-- A task goes on as the ledger says. -/
theorem counts_of_work? (h : l.Balances vars none counted all s) (hfamily : s.Family)
    (hgathered : s.Gathered) {u : Turn} {p : Process σ} (hw : s.work? u = some (t, p)) :
    p.Counts vars (l.value t) (l.left t) := by
  rcases Schedule.work?_cases hw with hst | ⟨first, count, awaited, next, j, rfl, hst, hj, rfl⟩
  · exact h.fits_of_state hst
  · rw [h.eq_of_joined? hfamily hgathered hst hj]
    exact h.fits_of_state hst

/-- Where no branch fails, none is abandoned. -/
theorem take_eq_proceed (h : l.Balances vars none counted all s) (hfamily : s.Family)
    (hgathered : s.Gathered) (cancel : Bool) {u : Turn} {p : Process σ}
    (hw : s.work? u = some (t, p)) : s.take cancel u = s.proceed t p := by
  rcases Schedule.work?_cases hw with hst | ⟨first, count, awaited, next, j, rfl, hst, hj, rfl⟩
  · rcases Schedule.eq_of_work? hw with rfl | rfl
    · simp only [Schedule.take, hst]
    · simp only [Schedule.work?, hst] at hw
      cases hw
  · have hgather := Schedule.gather_of_joined? cancel t next hj
    obtain rfl := h.eq_of_joined? hfamily hgathered hst hj
    rw [Schedule.pending_of_joined? hj, Schedule.abandon_nil] at hgather
    simp only [Schedule.take, hst, hgather]

/-- **Taking a turn** keeps the balance. -/
theorem take (h : l.Balances vars none counted all s) (hfamily : s.Family) (hgathered : s.Gathered)
    (cancel : Bool) {u : Turn} (hu : u ≠ .interrupt) :
    ∃ l' : Ledger, l'.Balances vars none (counted ++ Moment.counted (s.moments u)) all
      (s.take cancel u) := by
  cases hw : s.work? u with
  | some tp =>
    obtain ⟨t, p⟩ := tp
    rw [h.take_eq_proceed hfamily hgathered cancel hw, Schedule.moments_of_work? hw]
    exact h.proceed hfamily (Schedule.lt_length_of_work? hw) (h.counts_of_work? hfamily hgathered hw)
  | none =>
    rw [Schedule.moments_of_not_work hu hw, Moment.counted, List.flatMap_nil, List.append_nil]
    refine ⟨l, ?_⟩
    -- the state of one task may change, but not what it goes on with
    have hset {v : Nat} {old new : TaskState σ} (hst : s.state? v = some old)
        (hfits : l.Fits vars v old → l.Fits vars v new) :
        l.Balances vars none counted all (s.setState v new) := by
      refine h.congr rfl (by simp [Schedule.setState]) fun w st hw => ?_
      rcases Schedule.state?_setState_cases hw with ⟨rfl, rfl⟩ | ⟨-, hold⟩
      · exact hfits (h.fits_of_state hst)
      · exact h.fits_of_state hold
    generalize hs' : s.take cancel u = s'
    cases hs' ▸ s.taken_take cancel u with
    | works hw' =>
      rw [hw] at hw'
      cases hw'
    | void => exact h
    | woken hst => exact enqueue (hset hst fun hfits => hfits)
    | told hst => exact enqueue (hset hst fun hfits => hfits)
    | waits _ hst => exact hset hst fun hfits => hfits
    | released _ _ v =>
      refine h.congr rfl (by simp [Schedule.release]) fun w st hst => ?_
      rw [Schedule.state?_release] at hst
      exact h.fits_of_state hst
    | interrupted => exact absurd rfl hu

end Balances

end Ledger

/-! ### No task is left -/

/-- Is each task but the main one waited for by an earlier one, unless it has ended? -/
def Schedule.Attended (s : Schedule σ) : Prop :=
  ∀ b, 0 < b → b < s.tasks.length → (∃ o, s.outcome? b = some o) ∨
    ∃ t first count next, t < b ∧ first ≤ b ∧ b < first + count ∧ s.InBlock t first count next

/-- If the main task has ended, all have. -/
theorem Schedule.Attended.exists_outcome {s : Schedule σ} (h : s.Attended) {o : Outcome}
    (ho : s.outcome? 0 = some o) {b : Nat} (hb : b < s.tasks.length) :
    ∃ o, s.outcome? b = some o := by
  induction b using Nat.strong_induction_on with
  | _ b ih =>
    by_cases hzero : b = 0
    · exact ⟨o, hzero ▸ ho⟩
    · rcases h b (Nat.pos_of_ne_zero hzero) hb with hended | ⟨t, _, _, _, ht, -, -, _, _, hst⟩
      · exact hended
      · obtain ⟨o', ho'⟩ := ih t ht (Nat.lt_trans ht hb)
        cases (Schedule.outcome?_eq_some_iff.mp ho').symm.trans hst

/-- Is nothing set up to cancel the run? -/
structure Point.Quiet (q : Point σ) : Prop where
  due : .interrupt ∉ q.due
  alarms : ∀ a ∈ q.schedule.alarms.all, a.event ≠ .interrupt

/-- Is every event of the run counted or left to count, at a point at which so much has been counted? -/
structure Point.Accounted (vars : Variables) (all : Multiset Event) (counted : List Event)
    (q : Point σ) : Prop where
  orderly : q.Orderly
  quiet : q.Quiet
  attended : q.schedule.Attended
  balanced : ∃ l : Ledger, l.Balances vars none counted all q.schedule

namespace Point.Step

variable {cancel : Bool} {q q' : Point σ} {ms : List (Moment σ)} {counted : List Event}
  {all : Multiset Event}

theorem quiet (h : Step cancel q ms q') (hq : q.Quiet) : q'.Quiet := by
  rcases h.due with ⟨u, turns, new, hturns, hs', hdue, hnew⟩ | ⟨rung, -, hdue, halarms, hrung, -⟩
  · refine ⟨fun hmem => ?_, fun a ha => ?_⟩
    · rw [hdue] at hmem
      rcases List.mem_append.mp hmem with hmem | hmem
      · refine hq.due ?_
        rw [Point.due, hturns]
        exact List.mem_cons_of_mem u hmem
      · cases hnew _ hmem
    · rw [hs'] at ha
      rcases Schedule.event_of_take ha with ⟨a', ha', heq⟩ | ⟨t, p, -, heq⟩
      · rw [← heq]
        exact hq.alarms a' ha'
      · simp [heq]
  · refine ⟨fun hmem => ?_, fun a ha => hq.alarms a (halarms a ha)⟩
    rw [hdue] at hmem
    rcases List.mem_append.mp hmem with hmem | hmem
    · exact hq.due hmem
    · obtain ⟨a, ha, heq⟩ := hrung _ hmem
      exact hq.alarms a ha heq

theorem balanced (h : Step cancel q ms q') (hq : q.Accounted vars all counted) :
    ∃ l : Ledger, l.Balances vars none (counted ++ Moment.counted ms) all q'.schedule := by
  obtain ⟨horderly, hquiet, -, l, hl⟩ := hq
  cases h with
  | turn u turns s =>
    refine hl.take horderly.family horderly.gathered cancel ?_
    rintro rfl
    exact hquiet.due (List.mem_cons_self ..)
  | round s =>
    rw [Moment.counted, List.flatMap_nil, List.append_nil]
    exact ⟨l, hl.calm, hl.fits, hl.total⟩
  | @advance s s' h =>
    rw [Moment.counted, List.flatMap_nil, List.append_nil]
    have hlasts := Schedule.lasts_of_advance h
    have htasks := Schedule.tasks_of_advance h
    refine ⟨l, ?_, fun t st hx hst => ?_, ?_⟩
    · have hcalm : s.world.Calm vars := hl.calm
      rw [World.Lasts] at hlasts
      rw [of, hlasts]
      exact ⟨hcalm.running, hcalm.vars_eq⟩
    · rw [of, Schedule.state?, htasks] at hst
      exact hl.fits t st hx hst
    · rw [of, htasks]
      exact hl.total

/-- A task that has just been forked is waited for. -/
theorem attended_of_new (h : Step cancel q ms q') {l : Ledger}
    (hl : l.Balances vars none counted all q'.schedule) {b : Nat}
    (hnew : q.schedule.tasks.length ≤ b) (hb : b < q'.schedule.tasks.length) :
    ∃ t first count next, t < b ∧ first ≤ b ∧ b < first + count ∧
      q'.schedule.InBlock t first count next := by
  have hnone {s : Schedule σ} (hs : s.tasks.length ≤ b) {st : TaskState σ} : s.state? b ≠ some st :=
    fun hst => absurd (Schedule.lt_length_of_state? hst) (Nat.not_lt.mpr hs)
  obtain ⟨st, hst⟩ := Schedule.exists_state?_of_lt hb
  cases h with
  | turn u turns s =>
    cases Schedule.becomes_of_take hst with
    | same hold => exact absurd hold (hnone hnew)
    | dropped => exact (hl.fits_of_state hst).elim
    | woken hold => exact absurd hold (hnone hnew)
    | told _ hold => exact absurd hold (hnone hnew)
    | gathers _ hold => exact absurd hold (hnone hnew)
    | paused hw => exact absurd (Schedule.lt_length_of_work? hw) (Nat.not_lt.mpr hnew)
    | @branch t count _ p _ next hw hp i heq =>
      have hlt := Schedule.lt_length_of_work? hw
      have hin := Schedule.state?_take_of_work? hw cancel
      rw [hp] at hin
      refine ⟨t, s.tasks.length, count, next, by omega, by omega, by omega, ?_⟩
      exact ⟨_, _, hin⟩
  | round s => exact absurd hb (Nat.not_lt.mpr hnew)
  | advance h =>
    rw [of, Schedule.tasks_of_advance h] at hb
    exact absurd hb (Nat.not_lt.mpr hnew)

/-- **No task is left unattended.** -/
theorem attended (h : Step cancel q ms q') (hq : q.Accounted vars all counted) {l : Ledger}
    (hl : l.Balances vars none (counted ++ Moment.counted ms) all q'.schedule) :
    q'.schedule.Attended := by
  intro b hpos hb
  have hended {o : Outcome} (ho : q.schedule.outcome? b = some o) :
      ∃ o, q'.schedule.outcome? b = some o :=
    ⟨o, Schedule.outcome?_eq_some_iff.mpr (h.stays (Schedule.outcome?_eq_some_iff.mp ho) rfl).1⟩
  by_cases hold : b < q.schedule.tasks.length
  · rcases hq.attended b hpos hold with ⟨o, ho⟩ | ⟨t, first, count, next, ht, hfirst, hcount, hin⟩
    · exact .inl (hended ho)
    · rcases h.inBlock_or_leaves hin with hin' | hdropped | ⟨j, turns, awaited, hturns, hst, hj⟩
      · exact .inr ⟨t, first, count, next, ht, hfirst, hcount, hin'⟩
      · exact (hl.fits_of_state hdropped).elim
      · -- the task goes on only when all its branches have ended
        obtain ⟨l₀, hl₀⟩ := hq.balanced
        obtain rfl := hl₀.eq_of_joined? hq.orderly.family hq.orderly.gathered hst hj
        have hall := Schedule.values_of_joined? hq.orderly.gathered hst hj
        have ho := hall.get (i := b - first) (by simp; omega) (by simp; omega)
        have heq : first + (b - first) = b := Nat.add_sub_cancel' hfirst
        simp only [List.get_eq_getElem, List.getElem_map, List.getElem_range, heq] at ho
        exact .inl (hended ho)
  · exact .inr (h.attended_of_new hl (Nat.not_lt.mp hold) hb)

/-- **A step keeps the account.** -/
theorem accounted (h : Step cancel q ms q') (hq : q.Accounted vars all counted) :
    q'.Accounted vars all (counted ++ Moment.counted ms) := by
  obtain ⟨l, hl⟩ := h.balanced hq
  exact ⟨h.orderly hq.orderly, h.quiet hq.quiet, h.attended hq hl, l, hl⟩

end Point.Step

/-- **At every point of a course** each event has been counted or is left to count. -/
theorem Course.accounted {cancel : Bool} {q q' : Point σ} {ms : List (Moment σ)}
    {counted : List Event} {all : Multiset Event} (h : Course cancel q ms q')
    (hq : q.Accounted vars all counted) : q'.Accounted vars all (counted ++ Moment.counted ms) := by
  induction h with
  | refl =>
    rw [Moment.counted, List.flatMap_nil, List.append_nil]
    exact hq
  | step _ hstep ih =>
    rw [Moment.counted_append, ← List.append_assoc]
    exact hstep.accounted ih

namespace Schedule

variable {w w' : World σ} {p : Process σ} {v : String} {es : Multiset Event}

/-- At the start nothing has been counted. -/
theorem accounted_start (hw : w.Calm vars) (hp : p.Counts vars v es) :
    (Point.of (start w p)).Accounted vars es [] where
  orderly := orderly_start w p (by simp [Alarms.all])
  quiet := ⟨by simp [Point.due, Point.of, start], by simp [Point.of, start, Alarms.all]⟩
  attended b hpos hb := by
    have hlt : b < 1 := hb
    omega
  balanced := by
    refine ⟨⟨fun _ => v, fun _ => es⟩, hw, fun t st _ hst => ?_, ?_⟩
    · have hlt := lt_length_of_state? hst
      obtain rfl : t = 0 := by simpa [Point.of, start] using hlt
      obtain rfl : TaskState.ready p = st := Option.some.inj hst
      exact hp
    · have htotal : Ledger.total ⟨fun _ => v, fun _ => es⟩ 1 = es := Finset.sum_range_one _
      exact (zero_add _).trans htotal

/-- Where the main task has ended, all events have been counted. -/
theorem eq_of_accounted {s : Schedule σ} {counted : List Event} (h : (Point.of s).Accounted vars es counted)
    {o : Outcome} (ho : s.outcome? 0 = some o) : (counted : Multiset Event) = es := by
  obtain ⟨l, hl⟩ := h.balanced
  have hzero : l.total s.tasks.length = 0 := by
    refine Finset.sum_eq_zero fun t ht => ?_
    obtain ⟨o', ho'⟩ := h.attended.exists_outcome ho (Finset.mem_range.mp ht)
    exact (hl.fits_of_state (outcome?_eq_some_iff.mp ho')).2
  have htotal : counted + l.total s.tasks.length = es := hl.total
  rwa [hzero, add_zero] at htotal

/-- **A run counts what its process counts**, each event once, whatever the order of the turns. -/
theorem counted_of_runFor (hw : w.Calm vars) (hp : p.Counts vars v es) {cancel : Bool} {rounds : Nat}
    {o : Outcome} (hrun : runFor cancel rounds (start w p) = some (o, w')) :
    ∃ counted : List Event, (counted : Multiset Event) = es ∧
      w'.metrics = counted.foldl Metrics.count w.metrics := by
  obtain ⟨ms, s, hcourse, ho, rfl⟩ := exists_course_to_end hrun
  obtain ⟨ns, hround⟩ := Course.exists_round cancel s
  -- in the last round nothing is counted any more, but the main task has ended after it as well
  have hend := hcourse.trans hround
  have ho' := (hround.stays (outcome?_eq_some_iff.mp ho) rfl).1
  refine ⟨Moment.counted (ms ++ ns), ?_, hend.linked.metrics⟩
  exact eq_of_accounted (hend.accounted (accounted_start hw hp)) (outcome?_eq_some_iff.mpr ho')

end Schedule

end PipeScript
