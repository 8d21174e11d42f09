import PipeScript.Execution.Alarm
import Mathlib.Data.List.Perm.Basic

/-!
# No alarm is lost

Moving alarms within the heap changes their order only. What is added is found among the alarms
until it rings or is dropped, and nothing else is.

Main results: the first alarm is removed and no other one (`perm_removeFirst`), the alarms that are
due and the ones that are left are those that were set (`exists_due`), and only what has been called
off is dropped (`exists_dropCalledOff`).
-/

namespace PipeScript.Alarms

variable {α : Type}

/-- The alarms, in the order of the heap. -/
def all (s : Alarms α) : List (Alarm α) := s.row.toList

theorem rise_perm (row : Array (Alarm α)) (i : Nat) : (rise row i).Perm row := by
  fun_induction rise row i with
  | case1 row i h above hlt hp ih => exact ih.trans (Array.swap_perm _ _)
  | case2 => exact .refl _
  | case3 => exact .refl _

theorem sink_perm (row : Array (Alarm α)) (i : Nat) : (sink row i).Perm row := by
  fun_induction sink row i with
  | case1 row i h ih => exact ih.trans (Array.swap_perm _ _)
  | case2 row i h => exact rise_perm row i

theorem perm_add (s : Alarms α) (a : Alarm α) : (s.add a).all.Perm (a :: s.all) := by
  have hrise := Array.perm_iff_toList_perm.mp (rise_perm (s.row.push a) s.row.size)
  rw [Array.toList_push] at hrise
  exact hrise.trans (List.perm_append_singleton a s.row.toList)

theorem mem_add {s : Alarms α} {a b : Alarm α} : b ∈ (s.add a).all ↔ b = a ∨ b ∈ s.all := by
  rw [(perm_add s a).mem_iff, List.mem_cons]

theorem first?_eq (s : Alarms α) : s.first? = s.all.head? := by
  rw [first?, all, List.head?_eq_getElem?, Array.getElem?_toList]

/-- The last alarm takes the place of the first, and sinks. -/
theorem perm_removeFirst {s : Alarms α} (h : 0 < s.row.size) :
    s.all.Perm (s.row[0] :: s.removeFirst.all) := by
  obtain ⟨rest, last, hrow⟩ := Array.eq_push_of_size_ne_zero (Nat.ne_of_gt h)
  have hback : s.row.back? = some last := by rw [hrow, Array.back?_push]
  have hpop : s.row.pop = rest := by rw [hrow, Array.pop_push]
  simp only [all, removeFirst, hback, hpop]
  by_cases hr : 0 < rest.size
  · rw [dif_pos hr]
    obtain ⟨first, others, hrest⟩ : ∃ first others, rest.toList = first :: others :=
      List.exists_cons_of_ne_nil (by simpa using Array.ne_empty_of_size_pos hr)
    have hfirst : s.row[0] = first := by
      simp [hrow, ← Array.getElem_toList, hrest]
    have hsunk := Array.perm_iff_toList_perm.mp (sink_perm (rest.set 0 last) 0)
    rw [Array.toList_set, hrest, List.set_cons_zero] at hsunk
    rw [hfirst]
    refine .trans ?_ (hsunk.symm.cons first)
    simp only [hrow, Array.toList_push, hrest, List.cons_append]
    exact (List.perm_append_singleton last others).cons first
  · rw [dif_neg hr]
    have hnil : rest = #[] := Array.eq_empty_of_size_eq_zero (by omega)
    subst hnil
    simp [hrow]

/-- What rings and what is left are the alarms that were set. -/
theorem exists_due (s : Alarms α) (toCome : Binary64 → Bool) :
    ∃ rung : List (Alarm α), (s.due toCome).1 = rung.map (·.event) ∧
      s.all.Perm (rung ++ (s.due toCome).2.all) := by
  fun_induction due s toCome with
  | case1 s h hc => exact ⟨[], rfl, .refl _⟩
  | case2 s h hc events rest heq ih =>
    obtain ⟨rung, hevents, hperm⟩ := ih
    rw [heq] at hevents hperm
    exact ⟨s.row[0] :: rung, by rw [List.map_cons, ← hevents],
      (perm_removeFirst h).trans (hperm.cons _)⟩
  | case3 s h => exact ⟨[], rfl, .refl _⟩

/-- An alarm rings if the time of the first one is not still to come. -/
theorem due_ne_nil {s : Alarms α} {toCome : Binary64 → Bool} {a : Alarm α} (ha : s.first? = some a)
    (hc : toCome a.time = false) : (s.due toCome).1 ≠ [] := by
  obtain ⟨h, rfl⟩ := Array.getElem?_eq_some_iff.mp ha
  rw [due, dif_pos h, if_neg (by simp [hc])]
  exact List.cons_ne_nil _ _

/-- What is dropped has been called off. -/
theorem exists_dropCalledOff (s : Alarms α) :
    ∃ gone : List (Alarm α), (∀ a ∈ gone, a.off = true) ∧
      s.all.Perm (gone ++ s.dropCalledOff.all) := by
  fun_induction dropCalledOff s with
  | case1 s h hoff ih =>
    obtain ⟨gone, hgone, hperm⟩ := ih
    exact ⟨s.row[0] :: gone, List.forall_mem_cons.mpr ⟨hoff, hgone⟩,
      (perm_removeFirst h).trans (hperm.cons _)⟩
  | case2 s h hoff => exact ⟨[], by simp, .refl _⟩
  | case3 s h => exact ⟨[], by simp, .refl _⟩

variable [DecidableEq α]

theorem mem_callOff {s : Alarms α} {event : α} {b : Alarm α} :
    b ∈ (s.callOff event).all ↔
      ∃ a ∈ s.all, (if a.event = event then { a with off := true } else a) = b := by
  simp only [all, callOff, Array.toList_map, List.mem_map]

theorem length_callOff (s : Alarms α) (event : α) :
    (s.callOff event).all.length = s.all.length := by
  simp only [all, callOff, Array.toList_map, List.length_map]

end PipeScript.Alarms
