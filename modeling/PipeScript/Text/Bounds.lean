/-!
# Character classes given by their boundaries

A class of characters is stored as the increasing list of code points at which membership changes.
A code point belongs to the class exactly when an odd number of boundaries lie at or below it.
-/

namespace PipeScript.Text

/-- Does the code point lie inside the class? The flag says whether the class holds below the first
boundary left. -/
def inBoundsFrom (inside : Bool) : List Nat → Nat → Bool
  | [], _ => inside
  | b :: rest, n => if n < b then inside else inBoundsFrom (!inside) rest n

/-- Does the code point lie inside the class that starts outside? -/
def inBounds (bounds : List Nat) (n : Nat) : Bool := inBoundsFrom false bounds n

/-- An odd number of boundaries at or below a code point puts it inside. -/
theorem inBoundsFrom_append (inside : Bool) (before rest : List Nat) (n : Nat)
    (h : ∀ b ∈ before, b ≤ n) :
    inBoundsFrom inside (before ++ rest) n
      = inBoundsFrom (inside ^^ (before.length % 2 == 1)) rest n := by
  induction before generalizing inside with
  | nil => simp
  | cons b bs ih =>
    have hb : ¬ n < b := Nat.not_lt.2 (h b (by simp))
    have ht := ih (!inside) (fun c hc => h c (by simp [hc]))
    simp only [List.cons_append, inBoundsFrom, hb, ite_false, ht, List.length_cons]
    congr 1
    rcases Nat.mod_two_eq_zero_or_one bs.length with he | he
    · have : (bs.length + 1) % 2 = 1 := by omega
      cases inside <;> simp [he, this]
    · have : (bs.length + 1) % 2 = 0 := by omega
      cases inside <;> simp [he, this]

end PipeScript.Text
