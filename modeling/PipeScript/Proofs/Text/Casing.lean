import PipeScript.Text.Blank
import PipeScript.Text.Casing
import Mathlib.Data.List.Basic

/-!
# What lower case does not bring in

Lower case writes one character as another, and what comes of a text could hold characters that the text
does not: separators, say, between which it is cut later. That no separator comes out of a letter is read off
the case tables.

`Casing.Uncased` says of a code point that no other character is written like it in lower case. It holds of
everything before the capital letters and of all blanks (`Casing.uncased_of_le`, `Casing.uncased_of_isBlank`).

Main result: an uncased character that stands in the lower case of a text stands in the text
(`mem_of_mem_lower`).
-/

namespace PipeScript.Text

variable {s : List Char} {c d : Char} {n m : Nat}

namespace Casing

/-! ### Uncased characters -/

/-- Does no entry of the table lead to the code point? -/
def Unreached (n : Nat) : Prop :=
  ∀ e ∈ lowerShifts, (n : Int) < e.1 + e.2.2.2 ∨ e.2.1 + e.2.2.2 < (n : Int)

instance : DecidablePred Unreached := fun n =>
  inferInstanceAs (Decidable (∀ e ∈ lowerShifts, (n : Int) < e.1 + e.2.2.2 ∨ e.2.1 + e.2.2.2 < (n : Int)))

/-- Is no other character written like this one in lower case? Besides the table there are the letters of
ASCII, the dot of the dotted capital I, and the forms of the small sigma. -/
def Uncased (n : Nat) : Prop :=
  0 < n ∧ (n ≤ 0x40 ∨ 0x80 ≤ n) ∧ n ∉ [0x307, 0x3c2, 0x3c3] ∧ Unreached n

instance : DecidablePred Uncased := fun _ => inferInstanceAs (Decidable (_ ∧ _ ∧ _ ∧ _))

/-- No entry of the table leads to the characters before the letters. -/
theorem lowerShifts_above : ∀ e ∈ lowerShifts, 0x40 < (e.1 : Int) + e.2.2.2 := by
  decide +kernel

theorem uncased_of_le (hpos : 0 < n) (h : n ≤ 0x40) : Uncased n := by
  have hnot : n ∉ [0x307, 0x3c2, 0x3c3] := by
    simp only [List.mem_cons, List.not_mem_nil, or_false, not_or]
    omega
  refine ⟨hpos, .inl h, hnot, ?_⟩
  intro e he
  have habove := lowerShifts_above e he
  omega

/-- The blanks behind the letters of ASCII. -/
def wideBlanks : List Nat :=
  [0x85, 0xa0, 0x1680, 0x2000, 0x2001, 0x2002, 0x2003, 0x2004, 0x2005, 0x2006, 0x2007, 0x2008, 0x2009,
    0x200a, 0x2028, 0x2029, 0x202f, 0x205f, 0x3000]

/-- **Blanks** are uncased. -/
theorem uncased_of_isBlank (h : isBlank c = true) : Uncased c.toNat := by
  have hwide : ∀ n ∈ wideBlanks, Uncased n := by decide +kernel
  have hcases : 0 < c.toNat ∧ c.toNat ≤ 0x20 ∨ c.toNat ∈ wideBlanks := by
    have hval : c.val.toNat = c.toNat := rfl
    simp only [isBlank, hval, Bool.or_eq_true, Bool.and_eq_true, decide_eq_true_eq, beq_iff_eq] at h
    simp only [wideBlanks, List.mem_cons, List.not_mem_nil, or_false]
    omega
  rcases hcases with ⟨hpos, hle⟩ | hmem
  · exact uncased_of_le hpos (by omega)
  · exact hwide _ hmem

/-! ### Characters in lower case -/

/-- An unreached code point is led to from nowhere but itself. -/
theorem eq_of_shift (hpos : 0 < m) (hm : Unreached m) (h : shift lowerShifts n = m) : n = m := by
  simp only [shift] at h
  split at h
  · rename_i first last step delta hfind
    have hcovers := List.find?_some hfind
    simp only [Bool.and_eq_true, decide_eq_true_eq] at hcovers
    have hout := hm _ (List.mem_of_find?_eq_some hfind)
    simp only at hout
    omega
  · exact h

theorem eq_toNat_of_ofNat (hpos : 0 < d.toNat) (h : d = Char.ofNat n) : n = d.toNat := by
  unfold Char.ofNat at h
  by_cases hvalid : n.isValidChar
  · rw [dif_pos hvalid] at h
    exact (congrArg Char.toNat h).symm
  · rw [dif_neg hvalid] at h
    rw [h] at hpos
    exact absurd hpos (by decide)

theorem eq_of_toLower (hc : c.toNat < 128) (hd : d.toNat ≤ 0x40 ∨ 0x80 ≤ d.toNat) (h : d = c.toLower) :
    d = c := by
  have htable : ∀ n < 128, (Char.ofNat n).toLower.toNat ≤ 0x7f ∧
      (0x40 < (Char.ofNat n).toLower.toNat ∨ (Char.ofNat n).toLower = Char.ofNat n) := by
    decide
  have hlower := htable _ hc
  rw [Char.ofNat_toNat, ← h] at hlower
  rcases hlower.2 with hletter | hsame
  · omega
  · exact hsame

/-- An uncased character is the lower case of nothing else. -/
theorem eq_of_mem_lowerChar (hd : Uncased d.toNat) (h : d ∈ lowerChar c) : d = c := by
  obtain ⟨hpos, hascii, hnot, hunreached⟩ := hd
  simp only [lowerChar] at h
  split_ifs at h with hc hdotted
  · exact eq_of_toLower hc hascii (List.mem_singleton.mp h)
  · rw [List.mem_cons, List.mem_singleton] at h
    rcases h with rfl | rfl
    · exact absurd hascii (by decide)
    · exact absurd hnot (by decide)
  · have hshift := eq_toNat_of_ofNat hpos (List.mem_singleton.mp h)
    exact Char.toNat_inj.mp (eq_of_shift hpos hunreached hshift).symm

theorem mem_of_mem_lowerAfter (hd : Uncased d.toNat) (before : List Char) (h : d ∈ lowerAfter before s) :
    d ∈ s := by
  induction s generalizing before with
  | nil => exact h
  | cons c s ih =>
    rw [lowerAfter, List.mem_append] at h
    rcases h with hc | hs
    · have hsigma (final : Bool) : d ≠ Char.ofNat (if final then 0x3c2 else 0x3c3) := by
        rintro rfl
        exact hd.2.2.1 (by cases final <;> decide)
      split at hc
      · exact absurd (List.mem_singleton.mp hc) (hsigma _)
      · exact List.mem_cons.mpr (.inl (eq_of_mem_lowerChar hd hc))
    · exact List.mem_cons_of_mem c (ih _ hs)

end Casing

/-- **An uncased character** stands in the lower case of a text only if it stands in the text. -/
theorem mem_of_mem_lower (hd : Casing.Uncased d.toNat) (h : d ∈ lower s) : d ∈ s :=
  Casing.mem_of_mem_lowerAfter hd [] h

end PipeScript.Text
