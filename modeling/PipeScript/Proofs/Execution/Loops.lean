import PipeScript.Proofs.Execution.Sequential
import PipeScript.Proofs.Execution.Traces

/-!
# The items of a loop

Which items a loop calls its body for, what it records, and where it naps, whatever the body does and
whenever the run is cancelled, by the body or from outside.

## The model

The body is any process for each item and its index, and what comes after the loop is any process that
goes by the records. `Process.Looped` lists the calls of the body that a loop consists of: each of them
is recorded, unless it has ended with a cancellation, which ends the loop. A loop may also be cancelled
before any of its items, which is where a nap that is cut short leads to.

Main results: what a loop does is such a list (`Process.exists_looped`); it calls the body for the items
in their order (`Process.Looped.call`) and ends in one of three ways (`Process.Looped.ends`); and so
every run of a loop goes through its items in order and accounts for those it has gone through
(`Process.iterate_in_order`).
-/

namespace PipeScript

variable {σ : Type}

/-- How many of some items a plan goes through. -/
def Loop.Plan.count (plan : Plan) (items : List String) : Nat :=
  if 0 < plan.maxItems then min items.length plan.maxItems.toNat else items.length

theorem Loop.Plan.limit_eq (plan : Plan) (items : List String) :
    plan.limit items = items.take (plan.count items) := by
  unfold limit count
  split
  · rw [Nat.min_comm, List.take_eq_take_min]
  · rw [List.take_length]

theorem Loop.Plan.length_limit (plan : Plan) (items : List String) :
    (plan.limit items).length = plan.count items := by
  rw [limit_eq, List.length_take, Nat.min_eq_left]
  unfold count
  split
  · exact Nat.min_le_left ..
  · exact Nat.le_refl _

/-- The records of calls for items, numbered from the index on. -/
def Visit.records (index : Nat) : List String → List (Visit σ) → List (ItemResult Failure)
  | item :: items, v :: calls => ⟨index, item, v.outcome⟩ :: records (index + 1) items calls
  | _, _ => []

@[simp] theorem Visit.records_nil (index : Nat) (items : List String) :
    records index items ([] : List (Visit σ)) = [] := by
  cases items <;> rfl

/-- Only the items that there are calls for matter. -/
theorem Visit.records_take {items : List String} {calls : List (Visit σ)} {n : Nat}
    (h : calls.length ≤ n) (index : Nat) :
    records index (items.take n) calls = records index items calls := by
  induction calls generalizing items index n with
  | nil => rw [records_nil, records_nil]
  | cons v calls ih =>
    obtain ⟨n, rfl⟩ : ∃ m, n = m + 1 := ⟨n - 1, by simp at h; omega⟩
    cases items with
    | nil => rfl
    | cons item items =>
      rw [List.take_succ_cons, records, records, ih (Nat.le_of_succ_le_succ h)]

/-- The warning about an item that has failed. -/
def Deed.itemWarnings (index : Nat) : Outcome → List (Deed σ)
  | .ok _ => []
  | .error f => [.change (.log ⟨.warning, Process.itemWarning index f⟩)]

/-- Is this what is done after the call for an item, with so many items left: a warning if it has
failed, and a nap if there are items left and a delay to nap for? -/
def IsGap (delay : Binary64) (left index : Nat) (o : Outcome) (ds : List (Deed σ)) : Prop :=
  ∃ nap, ds = Deed.itemWarnings index o ++ nap ∧
    if 0 < left ∧ Binary64.lt 0 delay = true then Deed.IsNap Process.loopPlace delay nap else nap = []

namespace Process

/-- Can the process do this and come to that, whatever happens to the world? -/
abbrev MayDo (p : Process σ) (ds : List (Deed σ)) (o : Outcome) : Prop :=
  p.Goes (fun _ => True) ds (done o)

/-- How a loop ends that has so many items: by the calls of its body and how they are recorded, what it
does after them, and what it comes to. -/
inductive LoopEnds (count : Nat) (records : List (Visit σ) → List (ItemResult Failure))
    (next : List (ItemResult Failure) → Process σ) (calls : List (Visit σ)) :
    List (Deed σ) → Outcome → Prop
  /-- It has gone through all items, and goes on with the records. -/
  | finished {rest : List (Deed σ)} {o : Outcome} (hcount : calls.length = count)
      (hplain : ∀ v ∈ calls, NotCancelled v.outcome) (h : (next (records calls)).MayDo rest o) :
      LoopEnds count records next calls rest o
  /-- It has been cancelled, and not all items have had their call. -/
  | stopped (hcount : calls.length < count) (hplain : ∀ v ∈ calls, NotCancelled v.outcome) :
      LoopEnds count records next calls [] (.error (.cancelled loopPlace (records calls)))
  /-- The last call has ended with a cancellation, and the others are recorded. -/
  | within {before : List (Visit σ)} {v : Visit σ} {place : String}
      {inner : List (ItemResult Failure)} (hcalls : calls = before ++ [v])
      (hplain : ∀ v ∈ before, NotCancelled v.outcome)
      (hv : v.outcome = .error (.cancelled place inner)) :
      LoopEnds count records next calls [] (.error (.cancelled place (records before)))

/-- A call that is recorded may come first. -/
theorem LoopEnds.cons {count : Nat} {records records' : List (Visit σ) → List (ItemResult Failure)}
    {next : List (ItemResult Failure) → Process σ} {v : Visit σ} {calls : List (Visit σ)}
    {rest : List (Deed σ)} {o : Outcome} (h : LoopEnds count records' next calls rest o)
    (hv : NotCancelled v.outcome) (hrecords : ∀ calls, records (v :: calls) = records' calls) :
    LoopEnds (count + 1) records next (v :: calls) rest o := by
  have hall {calls : List (Visit σ)} (hplain : ∀ v ∈ calls, NotCancelled v.outcome) :
      ∀ u ∈ v :: calls, NotCancelled u.outcome := by
    intro u hu
    rcases List.mem_cons.mp hu with rfl | hu
    · exact hv
    · exact hplain u hu
  cases h with
  | finished hcount hplain h =>
    rw [← hrecords] at h
    exact .finished (congrArg _ hcount) (hall hplain) h
  | stopped hcount hplain =>
    rw [← hrecords]
    exact .stopped (Nat.succ_lt_succ hcount) (hall hplain)
  | within hcalls hplain hlast =>
    rw [← hrecords]
    exact .within (congrArg (v :: ·) hcalls) (hall hplain) hlast

/-- Only the records of as many calls as there are items matter. -/
theorem LoopEnds.congr {count : Nat} {records records' : List (Visit σ) → List (ItemResult Failure)}
    {next : List (ItemResult Failure) → Process σ} {calls : List (Visit σ)} {rest : List (Deed σ)}
    {o : Outcome} (h : LoopEnds count records next calls rest o) (hlength : calls.length ≤ count)
    (hrecords : ∀ calls, calls.length ≤ count → records calls = records' calls) :
    LoopEnds count records' next calls rest o := by
  cases h with
  | finished hcount hplain h =>
    rw [hrecords calls hlength] at h
    exact .finished hcount hplain h
  | stopped hcount hplain =>
    rw [hrecords calls hlength]
    exact .stopped hcount hplain
  | @within before _ _ _ hcalls hplain hlast =>
    have hbefore : before.length ≤ count := by
      rw [hcalls, List.length_append] at hlength
      omega
    rw [hrecords before hbefore]
    exact .within hcalls hplain hlast

/-- What a loop does and comes to, from the item of an index on, with the records so far: the calls of
its body, and what is done after the loop. -/
inductive Looped (process : String → Nat → Process σ) (delay : Binary64)
    (next : List (ItemResult Failure) → Process σ) :
    List String → Nat → List (ItemResult Failure) → List (Visit σ) → List (Deed σ) → Outcome → Prop
  | finished {index : Nat} {results : List (ItemResult Failure)} {rest : List (Deed σ)} {o : Outcome}
      (h : (next results).MayDo rest o) : Looped process delay next [] index results [] rest o
  | stopped (item : String) (items : List String) (index : Nat) (results : List (ItemResult Failure)) :
      Looped process delay next (item :: items) index results [] []
        (.error (.cancelled loopPlace results))
  | within {item : String} (items : List String) {index : Nat} (results : List (ItemResult Failure))
      {ds : List (Deed σ)} {place : String} {inner : List (ItemResult Failure)}
      (h : (process item index).MayDo ds (.error (.cancelled place inner))) :
      Looped process delay next (item :: items) index results
        [⟨ds, .error (.cancelled place inner), []⟩] [] (.error (.cancelled place results))
  | next {item : String} {items : List String} {index : Nat} {results : List (ItemResult Failure)}
      {ds after rest : List (Deed σ)} {o o' : Outcome} {calls : List (Visit σ)}
      (h : (process item index).MayDo ds o') (ho : NotCancelled o')
      (hgap : IsGap delay items.length index o' after)
      (hrest : Looped process delay next items (index + 1) (results ++ [⟨index, item, o'⟩]) calls rest o) :
      Looped process delay next (item :: items) index results (⟨ds, o', after⟩ :: calls) rest o

section

variable {process : String → Nat → Process σ} {delay : Binary64}
  {next : List (ItemResult Failure) → Process σ} {items : List String} {index : Nat}
  {results : List (ItemResult Failure)} {calls : List (Visit σ)} {ds rest : List (Deed σ)} {o : Outcome}

/-- After an item the loop naps if there are items left and a delay to nap for, and goes on, or has been
cancelled meanwhile. -/
theorem MayDo.exists_of_goOn {k : Bool → Process σ}
    (h : (if items.isEmpty || !Binary64.lt 0 delay then k false else sleep loopPlace delay k).MayDo ds o) :
    ∃ nap rest, ds = nap ++ rest ∧
      (if 0 < items.length ∧ Binary64.lt 0 delay = true then Deed.IsNap loopPlace delay nap
        else nap = []) ∧
      ((k false).MayDo rest o ∨ items ≠ [] ∧ (k true).MayDo rest o) := by
  by_cases hnap : 0 < items.length ∧ Binary64.lt 0 delay = true
  · have hne : items ≠ [] := List.ne_nil_of_length_pos hnap.1
    rw [if_neg (by simp [hne, hnap.2])] at h
    obtain ⟨nap, w, rest, rfl, hisNap, -, hrest⟩ := Goes.exists_of_sleep h
    refine ⟨nap, rest, rfl, by rwa [if_pos hnap], ?_⟩
    cases hc : w.cancelled with
    | false =>
      rw [hc] at hrest
      exact .inl hrest
    | true =>
      rw [hc] at hrest
      exact .inr ⟨hne, hrest⟩
  · rw [if_pos (by simpa [or_iff_not_imp_left, List.length_pos_iff] using hnap)] at h
    exact ⟨[], ds, rfl, by rw [if_neg hnap], .inl h⟩

/-- **What a loop does** is call after call, and then what comes after it. -/
theorem exists_looped (h : (iterateFrom process delay next items index results).MayDo ds o) :
    ∃ calls rest, ds = Visit.trace calls ++ rest ∧
      Looped process delay next items index results.reverse calls rest o := by
  induction items generalizing index results ds with
  | nil => exact ⟨[], ds, rfl, .finished h⟩
  | cons item items ih =>
    rw [iterateFrom] at h
    rcases Goes.exists_of_unless h with ⟨w, -, -, h⟩ | h
    · obtain ⟨rfl, rfl⟩ := Goes.eq_of_done h
      exact ⟨[], [], rfl, .stopped item items index _⟩
    · obtain ⟨first, o', after, rfl, hfirst, hafter⟩ := Goes.exists_of_andThen h
      -- after a call that is recorded the loop goes on with the other items
      have hgoOn {ds : List (Deed σ)} (ho : NotCancelled o') {k : Bool → Process σ} (hfalse :
            k false = iterateFrom process delay next items (index + 1) (⟨index, item, o'⟩ :: results))
          (htrue : k true = fail (.cancelled loopPlace (List.reverse (⟨index, item, o'⟩ :: results))))
          (h : (if items.isEmpty || !Binary64.lt 0 delay then k false
            else sleep loopPlace delay k).MayDo ds o) :
          ∃ calls rest, first ++ (Deed.itemWarnings index o' ++ ds) = Visit.trace calls ++ rest ∧
            Looped process delay next (item :: items) index results.reverse calls rest o := by
        obtain ⟨nap, rest, rfl, hnap, h⟩ := h.exists_of_goOn
        have hgap : IsGap delay items.length index o' (Deed.itemWarnings index o' ++ nap) :=
          ⟨nap, rfl, hnap⟩
        rw [hfalse, htrue] at h
        rcases h with h | ⟨hne, h⟩
        · obtain ⟨calls, rest, rfl, hcalls⟩ := ih h
          rw [List.reverse_cons] at hcalls
          exact ⟨_, rest, by simp, .next hfirst ho hgap hcalls⟩
        · obtain ⟨rfl, rfl⟩ := Goes.eq_of_done h
          obtain ⟨item', items, rfl⟩ := List.exists_cons_of_ne_nil hne
          rw [List.reverse_cons]
          exact ⟨_, [], by simp, .next hfirst ho hgap (.stopped item' items (index + 1) _)⟩
      cases o' with
      | ok value => exact hgoOn (notCancelled_ok value) rfl rfl hafter
      | error f =>
        cases f with
        | cancelled place inner =>
          obtain ⟨rfl, rfl⟩ := Goes.eq_of_done hafter
          exact ⟨_, [], by simp, .within items _ hfirst⟩
        | _ =>
          cases hafter with
          | act _ h =>
            refine hgoOn ?_ rfl rfl h
            rintro _ ⟨⟩
            rfl

namespace Looped

theorem length_le (h : Looped process delay next items index results calls rest o) :
    calls.length ≤ items.length := by
  induction h with
  | finished | stopped => exact Nat.zero_le _
  | within => exact Nat.succ_le_succ (Nat.zero_le _)
  | next _ _ _ _ ih => exact Nat.succ_le_succ ih

/-- **Each call** is that for the item with its number. -/
theorem call (h : Looped process delay next items index results calls rest o) {i : Nat} {v : Visit σ}
    (hv : calls[i]? = some v) :
    ∃ item, items[i]? = some item ∧ (process item (index + i)).MayDo v.deeds v.outcome ∧
      (NotCancelled v.outcome →
        IsGap delay (items.length - (i + 1)) (index + i) v.outcome v.after) ∧
      (¬ NotCancelled v.outcome → v.after = []) := by
  induction h generalizing i with
  | finished | stopped => cases hv
  | @within item items _ _ ds place inner h =>
    obtain ⟨rfl, rfl⟩ : i = 0 ∧ _ = v := by simpa [List.getElem?_singleton] using hv
    have hcancelled : ¬ NotCancelled (.error (.cancelled place inner)) := by
      intro hplain
      cases hplain _ rfl
    exact ⟨item, rfl, h, fun hplain => absurd hplain hcancelled, fun _ => rfl⟩
  | @next item items _ _ _ _ _ _ _ _ h ho hgap _ ih =>
    cases i with
    | zero =>
      obtain rfl := Option.some.inj hv
      exact ⟨item, rfl, h, fun _ => hgap, fun hcancelled => absurd ho hcancelled⟩
    | succ i =>
      obtain ⟨item', hitem, hmay, hgap, hafter⟩ := ih hv
      rw [Nat.add_right_comm, Nat.add_assoc] at hmay hgap
      refine ⟨item', hitem, hmay, ?_, hafter⟩
      rwa [List.length_cons, Nat.add_sub_add_right]

/-- **A loop ends** in one of three ways. -/
theorem ends (h : Looped process delay next items index results calls rest o) :
    LoopEnds items.length (fun calls => results ++ Visit.records index items calls) next calls rest o := by
  induction h with
  | finished h => exact .finished rfl (by simp) (by simpa using h)
  | stopped item items index results =>
    have hstopped : LoopEnds (items.length + 1)
        (fun calls => results ++ Visit.records index (item :: items) calls) next [] [] _ :=
      .stopped (Nat.succ_pos _) (by simp)
    simpa using hstopped
  | @within item items index results ds place inner h =>
    have hwithin : LoopEnds (items.length + 1)
        (fun calls => results ++ Visit.records index (item :: items) calls) next
        [⟨ds, .error (.cancelled place inner), []⟩] [] _ :=
      .within (List.nil_append _).symm (by simp) rfl
    simpa using hwithin
  | next _ ho _ _ ih =>
    refine ih.cons ho fun calls => ?_
    rw [Visit.records, List.append_assoc]
    rfl

end Looped

end

/-- **A loop goes through its items in order.** Whatever the body does, and whenever the run is cancelled,
a run of a loop that has ended has called the body for the first items of those that the plan allows, for
each of them once and with its own index. Between two of these calls there is a nap if there is a delay
to nap for, and at no other time. If all items have had their call and none has been cancelled, the run
goes on with the record of each; else it ends with a cancellation that carries the records of the calls,
apart from the last one if that has been cancelled itself. -/
theorem iterate_in_order (plan : Loop.Plan) (items : List String)
    (process : String → Nat → Process σ) (next : List (ItemResult Failure) → Process σ) (cancel : Bool)
    (w : World σ) (alarms : Alarms Turn) {ms : List (Moment σ)} {q : Point σ} {o : Outcome}
    (h : Course cancel (.of (.start w (iterate plan items process next) alarms)) ms q)
    (ho : q.schedule.outcome? 0 = some o) :
    ∃ (calls : List (Visit σ)) (rest : List (Deed σ)),
      Moment.deedsOf 0 ms = Visit.trace calls ++ rest ∧ calls.length ≤ plan.count items ∧
      (∀ i v, calls[i]? = some v → ∃ item, items[i]? = some item ∧
        (process item i).MayDo v.deeds v.outcome ∧
        (NotCancelled v.outcome →
          IsGap plan.delay (plan.count items - (i + 1)) i v.outcome v.after) ∧
        (¬ NotCancelled v.outcome → v.after = [])) ∧
      LoopEnds (plan.count items) (Visit.records 0 items) next calls rest o := by
  obtain ⟨calls, rest, htrace, hlooped⟩ := exists_looped (h.goes World.receding_true ho trivial)
  have hlength := hlooped.length_le
  rw [plan.length_limit] at hlength
  refine ⟨calls, rest, htrace, hlength, fun i v hv => ?_, ?_⟩
  · obtain ⟨item, hitem, hmay, hgap, hafter⟩ := hlooped.call hv
    rw [Nat.zero_add] at hmay hgap
    rw [plan.length_limit] at hgap
    rw [plan.limit_eq, List.getElem?_take] at hitem
    exact ⟨item, by simpa using (Option.ite_none_right_eq_some.mp hitem).2, hmay, hgap, hafter⟩
  · have hends := hlooped.ends
    rw [plan.length_limit] at hends
    refine hends.congr hlength fun calls hcalls => ?_
    rw [List.reverse_nil, List.nil_append, plan.limit_eq, Visit.records_take hcalls]

/-- Give an item back, and cancel the run at the second one. -/
def cancelsAtSecond (item : String) (index : Nat) : Process Unit :=
  if index = 1 then act .cancel (ok item) else ok item

theorem MayDo.eq_of_cancelsAtSecond {item : String} {index : Nat} {ds : List (Deed Unit)} {o : Outcome}
    (h : (cancelsAtSecond item index).MayDo ds o) : o = .ok item := by
  unfold cancelsAtSecond at h
  split at h
  · cases h with
    | act _ h => exact (Goes.eq_of_done h).2
  · exact (Goes.eq_of_done h).2

/-- All items, with a nap of two slices between them. -/
def shortNaps : Loop.Plan := { delay := .ofRatio false 1 10, maxItems := 0 }

/-- What is done in a run of a loop over three items that is cancelled at the second one, and the schedule
in the end. -/
def untilCancelled : List (Moment Unit) × Schedule Unit :=
  (Schedule.start { surroundings := () } (iterate shortNaps ["a", "b", "c"] cancelsAtSecond
    fun results => ok (Loop.report results))).rounds false 5

/-- How many results a loop that has been cancelled carries. -/
def recorded? : Outcome → Option Nat
  | .error (.cancelled _ results) => some results.length
  | _ => none

/-- **Two calls** are made, with a nap of two slices between them and one that is asked for after the second
one, which has cancelled the run; and both are recorded. -/
theorem iterate_untilCancelled : ∃ (ms : List (Moment Unit)) (s : Schedule Unit) (first second : Visit Unit),
    Course false (.of (.start { surroundings := () } (iterate shortNaps ["a", "b", "c"] cancelsAtSecond
      fun results => ok (Loop.report results)))) ms (.of s) ∧
    (ms.filter (·.deed.begins)).length = 2 ∧
    Moment.deedsOf 0 ms = Visit.trace [first, second] ∧
    first.outcome = .ok "a" ∧ second.outcome = .ok "b" ∧
    Deed.IsNap loopPlace shortNaps.delay first.after ∧ Deed.IsNap loopPlace shortNaps.delay second.after ∧
    s.outcome? 0 = some (.error (.cancelled loopPlace [⟨0, "a", .ok "a"⟩, ⟨1, "b", .ok "b"⟩])) := by
  have hcourse : Course false _ untilCancelled.1 (.of untilCancelled.2) := .rounds false 5 _
  have hslices : (untilCancelled.1.filter (·.deed.begins)).length = 2 := by decide +kernel
  have hrecorded : (untilCancelled.2.outcome? 0).map recorded? = some (some 2) := by decide +kernel
  generalize untilCancelled.1 = ms at hcourse hslices
  generalize untilCancelled.2 = s at hcourse hrecorded
  obtain ⟨o, ho, hrecorded⟩ := Option.map_eq_some_iff.mp hrecorded
  obtain ⟨calls, rest, htrace, -, hcalls, hends⟩ :=
    iterate_in_order shortNaps ["a", "b", "c"] cancelsAtSecond (fun results => ok (Loop.report results))
      false { surroundings := () } {} hcourse ho
  -- each call gives its item back, and is followed by a nap unless it is the last of three
  have hcall {i : Nat} {v : Visit Unit} (hv : calls[i]? = some v) : ∃ item,
      ["a", "b", "c"][i]? = some item ∧ v.outcome = .ok item ∧
        (i < 2 → Deed.IsNap loopPlace shortNaps.delay v.after) := by
    obtain ⟨item, hitem, hmay, hgap, -⟩ := hcalls i v hv
    have hvalue : v.outcome = .ok item := hmay.eq_of_cancelsAtSecond
    refine ⟨item, hitem, hvalue, fun hi => ?_⟩
    obtain ⟨nap, hafter, hnap⟩ := hgap (hvalue ▸ notCancelled_ok item)
    have hdelay : Binary64.lt 0 shortNaps.delay = true := by decide +kernel
    have hleft : shortNaps.count ["a", "b", "c"] = 3 := rfl
    rw [if_pos ⟨by omega, hdelay⟩] at hnap
    rw [hvalue] at hafter
    exact hafter ▸ hnap
  cases hends with
  | finished _ _ h =>
    obtain ⟨-, rfl⟩ := Goes.eq_of_done h
    cases hrecorded
  | @within before v _ _ hbefore _ hv =>
    -- such a call would be the third one, which is not cancelled
    obtain ⟨item, -, hvalue, -⟩ := hcall (i := before.length) (v := v) (by simp [hbefore])
    rw [hv] at hvalue
    cases hvalue
  | stopped =>
    have hlength : (Visit.records 0 ["a", "b", "c"] calls).length = 2 := Option.some.inj hrecorded
    match calls, hlength with
    | [first, second], _ =>
      obtain ⟨_, ⟨⟩, hfirst, hnap⟩ := hcall (i := 0) rfl
      obtain ⟨_, ⟨⟩, hsecond, hnap'⟩ := hcall (i := 1) rfl
      rw [List.append_nil] at htrace
      refine ⟨ms, s, first, second, hcourse, hslices, htrace, hfirst, hsecond, hnap (by decide),
        hnap' (by decide), ?_⟩
      rw [ho, Visit.records, Visit.records, Visit.records_nil, hfirst, hsecond]
      rfl

end Process

end PipeScript
