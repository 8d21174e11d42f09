/-!
# Lists searched by a key

Several collections are lists whose elements are found by a key, with at most one element of each
key that counts. Leaving out the elements of one key hides that key and no other.
-/

namespace PipeScript.Keyed

variable {α κ : Type} [DecidableEq κ]

/-- The first element of a key. -/
def find? (key : α → κ) (k : κ) (xs : List α) : Option α := xs.find? fun x => key x == k

/-- The elements of other keys. -/
def without (key : α → κ) (k : κ) (xs : List α) : List α := xs.filter fun x => key x != k

/-- The list with one element of its key, at the end. -/
def put (key : α → κ) (x : α) (xs : List α) : List α := without key (key x) xs ++ [x]

theorem find?_without (key : α → κ) (k m : κ) (xs : List α) :
    find? key m (without key k xs) = if m = k then none else find? key m xs := by
  induction xs with
  | nil => simp [find?, without]
  | cons x rest ih =>
    simp only [find?, without] at ih ⊢
    by_cases hx : key x = k
    · simp only [List.filter_cons, hx, bne_self_eq_false, Bool.false_eq_true, ite_false, ih,
        List.find?_cons]
      by_cases h : m = k
      · simp [h]
      · have : (k == m) = false := by simp [Ne.symm h]
        simp [h, this]
    · have : (key x != k) = true := by simp [hx]
      simp only [List.filter_cons, this, ite_true, List.find?_cons, ih]
      by_cases h : m = k
      · have : (key x == k) = false := by simp [hx]
        simp only [h, ite_true, this]
      · simp only [h, ite_false]

theorem find?_put (key : α → κ) (x : α) (m : κ) (xs : List α) :
    find? key m (put key x xs) = if m = key x then some x else find? key m xs := by
  have h := find?_without key (key x) m xs
  by_cases hm : m = key x
  · simp only [put, find?, List.find?_append] at h ⊢
    subst hm
    rw [if_pos rfl] at h ⊢
    simp [h]
  · simp only [put, find?, List.find?_append] at h ⊢
    rw [if_neg hm] at h ⊢
    simp [h, Ne.symm hm]

theorem without_of_find?_eq_none {key : α → κ} {k : κ} {xs : List α} (h : find? key k xs = none) :
    without key k xs = xs := by
  apply List.filter_eq_self.mpr
  intro x hx
  simpa using List.find?_eq_none.mp h x hx

@[simp] theorem without_without (key : α → κ) (k : κ) (xs : List α) :
    without key k (without key k xs) = without key k xs := by
  simp [without, List.filter_filter]

@[simp] theorem without_put (key : α → κ) (x : α) (xs : List α) :
    without key (key x) (put key x xs) = without key (key x) xs := by
  simp [put, without, List.filter_filter]

theorem put_put {key : α → κ} {x y : α} (h : key y = key x) (xs : List α) :
    put key y (put key x xs) = put key y xs := by
  rw [put, h, without_put, put, h]

end PipeScript.Keyed
