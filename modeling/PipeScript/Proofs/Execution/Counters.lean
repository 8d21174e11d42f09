import PipeScript.Execution.World
import PipeScript.Keyed
import Mathlib.Algebra.BigOperators.Group.List.Basic
import Mathlib.Algebra.Ring.Nat

/-!
# What the counters say

The counters of a runtime are totals of the events that have been counted, whatever the order in which
they were.

## The model

`Metrics.Totals` compares the counters with a list of events. The calls are counted under the name of
each command; a name that has never been called is not among them.

Main results: counting one more event keeps the totals (`Metrics.Totals.count`), hence so does counting
any number of them (`Metrics.Totals.counts`), and the order of the events does not matter
(`Metrics.Totals.perm`).
-/

namespace PipeScript

/-- Is it the end of a call? -/
def Event.isCommand : Event → Bool
  | command _ => true
  | _ => false

/-- The items of a loop that has ended. -/
def Event.items : Event → Nat
  | loop items => items
  | _ => 0

namespace Metrics

/-- How often a command has ended well, if it ever has. -/
def callsOf? (calls : List (String × Nat)) (action : String) : Option Nat :=
  (Keyed.find? Prod.fst action calls).map Prod.snd

/-- Are the counters the totals of these events? -/
structure Totals (m : Metrics) (es : List Event) : Prop where
  commands : m.commands = es.countP Event.isCommand
  parallels : m.parallels = es.count .parallel
  guardsTrue : m.guardsTrue = es.count (.guard true)
  guardsFalse : m.guardsFalse = es.count (.guard false)
  loopItems : m.loopItems = (es.map Event.items).sum
  /-- Each command that has been called is listed with the number of its calls, and no other one. -/
  calls : ∀ action, callsOf? m.calls action =
    if es.count (.command action) = 0 then none else some (es.count (.command action))
  /-- No command is listed twice. -/
  distinct : (m.calls.map Prod.fst).Nodup
  /-- The calls of all commands are all calls. -/
  together : m.commands = (m.calls.map Prod.snd).sum

/-! ### One more call -/

theorem callsOf?_addCall (action other : String) (calls : List (String × Nat)) :
    callsOf? (addCall action calls) other =
      if other = action then some ((callsOf? calls action).getD 0 + 1) else callsOf? calls other := by
  induction calls with
  | nil =>
    by_cases h : other = action
    · simp [addCall, callsOf?, Keyed.find?, h]
    · simp [addCall, callsOf?, Keyed.find?, h, Ne.symm h]
  | cons c rest ih =>
    simp only [callsOf?, Keyed.find?] at ih ⊢
    rw [addCall]
    by_cases hc : c.1 = action
    · rw [if_pos hc]
      by_cases h : other = action
      · simp [h, hc]
      · simp [h, hc, Ne.symm h]
    · rw [if_neg hc]
      by_cases h : other = c.1
      · simp [h, hc]
      · rw [List.find?_cons_of_neg (by simpa using Ne.symm h), ih,
          List.find?_cons_of_neg (by simpa using hc),
          List.find?_cons_of_neg (by simpa using Ne.symm h)]

theorem mem_names_addCall {action name : String} {calls : List (String × Nat)} :
    name ∈ (addCall action calls).map Prod.fst ↔ name = action ∨ name ∈ calls.map Prod.fst := by
  induction calls with
  | nil => simp [addCall]
  | cons c rest ih =>
    rw [addCall]
    by_cases hc : c.1 = action
    · rw [if_pos hc, List.map_cons, List.map_cons, List.mem_cons, List.mem_cons, hc]
      tauto
    · rw [if_neg hc, List.map_cons, List.map_cons, List.mem_cons, List.mem_cons, ih]
      tauto

theorem nodup_addCall {calls : List (String × Nat)} (h : (calls.map Prod.fst).Nodup)
    (action : String) : ((addCall action calls).map Prod.fst).Nodup := by
  induction calls with
  | nil => simp [addCall]
  | cons c rest ih =>
    obtain ⟨hnot, hrest⟩ := List.nodup_cons.mp h
    rw [addCall]
    by_cases hc : c.1 = action
    · rw [if_pos hc, ← hc]
      exact h
    · rw [if_neg hc, List.map_cons, List.nodup_cons, mem_names_addCall]
      exact ⟨not_or.mpr ⟨hc, hnot⟩, ih hrest⟩

theorem sum_addCall (action : String) (calls : List (String × Nat)) :
    ((addCall action calls).map Prod.snd).sum = (calls.map Prod.snd).sum + 1 := by
  induction calls with
  | nil => rfl
  | cons c rest ih =>
    rw [addCall]
    split
    · simp only [List.map_cons, List.sum_cons]
      omega
    · simp only [List.map_cons, List.sum_cons, ih]
      omega

/-! ### Totals -/

theorem totals_nil : Totals {} [] := ⟨rfl, rfl, rfl, rfl, rfl, fun _ => rfl, List.nodup_nil, rfl⟩

namespace Totals

variable {m : Metrics} {es es' : List Event}

/-- **The order of the events does not matter.** -/
theorem perm (h : m.Totals es) (hperm : es.Perm es') : m.Totals es' where
  commands := h.commands.trans (hperm.countP_eq _)
  parallels := h.parallels.trans (hperm.count_eq _)
  guardsTrue := h.guardsTrue.trans (hperm.count_eq _)
  guardsFalse := h.guardsFalse.trans (hperm.count_eq _)
  loopItems := h.loopItems.trans (hperm.map _).sum_eq
  calls action := by rw [h.calls action, hperm.count_eq]
  distinct := h.distinct
  together := h.together

/-- **Counting an event** keeps the totals. -/
theorem count (h : m.Totals es) (e : Event) : (m.count e).Totals (es ++ [e]) := by
  obtain ⟨hcommands, hparallels, htrue, hfalse, hitems, hcalls, hdistinct, htogether⟩ := h
  cases e with
  | command action =>
    refine ⟨?_, ?_, ?_, ?_, ?_, fun other => ?_, nodup_addCall hdistinct action, ?_⟩
    · simp [Metrics.count, Event.isCommand, hcommands]
    · simp [Metrics.count, hparallels]
    · simp [Metrics.count, htrue]
    · simp [Metrics.count, hfalse]
    · simp [Metrics.count, Event.items, hitems]
    · rw [Metrics.count, callsOf?_addCall, hcalls, hcalls, List.count_append]
      by_cases heq : other = action
      · subst heq
        by_cases hzero : es.count (.command other) = 0
        · simp [hzero]
        · simp [hzero]
      · have hne : Event.command action ≠ .command other := by simpa using Ne.symm heq
        rw [if_neg heq, List.count_singleton, beq_eq_false_iff_ne.mpr hne]
        rfl
    · rw [Metrics.count, sum_addCall, ← htogether]
  | parallel =>
    refine ⟨?_, ?_, ?_, ?_, ?_, fun other => ?_, hdistinct, htogether⟩
    all_goals simp [Metrics.count, Event.isCommand, Event.items, *]
  | guard holds =>
    cases holds
    all_goals
      refine ⟨?_, ?_, ?_, ?_, ?_, fun other => ?_, hdistinct, htogether⟩
      all_goals simp [Metrics.count, Event.isCommand, Event.items, *]
  | loop items =>
    refine ⟨?_, ?_, ?_, ?_, ?_, fun other => ?_, hdistinct, htogether⟩
    all_goals simp [Metrics.count, Event.isCommand, Event.items, *]

/-- **Counting events** one after the other keeps the totals. -/
theorem counts (h : m.Totals es) (new : List Event) : (new.foldl Metrics.count m).Totals (es ++ new) := by
  induction new generalizing m es with
  | nil => rwa [List.append_nil]
  | cons e new ih =>
    rw [← List.singleton_append, ← List.append_assoc]
    exact ih (h.count e)

end Totals

end Metrics

end PipeScript
