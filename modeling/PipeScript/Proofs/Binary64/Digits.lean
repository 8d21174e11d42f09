import PipeScript.Binary64.Decimal
import Mathlib.Data.Nat.Digits.Defs

/-!
# Rows of digits

What a row of decimal digits spells, and the digits that a natural number is written with.
-/

namespace PipeScript.Binary64

open Text

theorem tenPow_add (m n : Nat) : tenPow (m + n) = tenPow m * tenPow n := Nat.pow_add 10 m n

theorem tenPow_pos (n : Nat) : 0 < tenPow n := Nat.pow_pos (by decide)

/-! ### The digits of a number -/

theorem digitsValue_toDigits (n : Nat) : digitsValue (Nat.toDigits 10 n) = n := by
  have h := Nat.ofDigitChars_ten_toDigits (n := n)
  simp only [Nat.ofDigitChars_eq_foldl, Nat.mul_comm 10] at h
  exact h

theorem isAsciiDigit_of_mem_toDigits {n : Nat} {c : Char} (h : c ∈ Nat.toDigits 10 n) :
    isAsciiDigit c = true := by
  have := Nat.isDigit_of_mem_toDigits (by decide) (by decide) h
  simpa [Char.isDigit, isAsciiDigit, Char.le_def] using this

/-- Only zero is written with a zero in front. -/
theorem head?_toDigits (n : Nat) : (Nat.toDigits 10 n).head? = some '0' → n = 0 := by
  induction n using Nat.strongRecOn with
  | _ n ih =>
    intro h
    rcases Nat.lt_or_ge n 10 with hlt | hge
    · rw [Nat.toDigits_of_lt_base hlt] at h
      have : ∀ n < 10, [n.digitChar].head? = some '0' → n = 0 := by decide
      exact this n hlt h
    · rw [Nat.toDigits_of_base_le (by decide) hge, List.head?_append] at h
      have hne : (Nat.toDigits 10 (n / 10)).head? ≠ none := by
        rw [Ne, List.head?_eq_none_iff]
        exact Nat.toDigits_ne_nil
      obtain ⟨c, hc⟩ := Option.ne_none_iff_exists'.mp hne
      rw [hc, Option.some_or] at h
      have := ih (n / 10) (by omega) (hc.trans h)
      omega

/-! ### Rows put together -/

theorem digitsValue_append (ds es : List Char) :
    digitsValue (ds ++ es) = digitsValue ds * tenPow es.length + digitsValue es := by
  have hfrom (n : Nat) : es.foldl (fun n d => n * 10 + (d.toNat - 48)) n =
      n * tenPow es.length + digitsValue es := by
    unfold digitsValue
    induction es generalizing n with
    | nil => simp [tenPow]
    | cons e es ih =>
      have hten : tenPow 1 = 10 := rfl
      rw [List.foldl_cons, List.foldl_cons, ih, ih (0 * 10 + _), List.length_cons, tenPow_add, hten]
      ring
  rw [digitsValue, List.foldl_append]
  exact hfrom _

theorem isAsciiDigit_zeros (n : Nat) : ∀ c ∈ List.replicate n '0', isAsciiDigit c = true := by
  intro c hc
  rw [List.eq_of_mem_replicate hc]
  decide

theorem digitsValue_zeros (n : Nat) : digitsValue (List.replicate n '0') = 0 := by
  induction n with
  | zero => rfl
  | succ n ih => rwa [List.replicate_succ]

/-- Zeros in front change nothing. -/
theorem digitsValue_zeros_append (n : Nat) (ds : List Char) :
    digitsValue (List.replicate n '0' ++ ds) = digitsValue ds := by
  rw [digitsValue_append, digitsValue_zeros, Nat.zero_mul, Nat.zero_add]

/-- Zeros at the end multiply by a power of ten. -/
theorem digitsValue_append_zeros (ds : List Char) (n : Nat) :
    digitsValue (ds ++ List.replicate n '0') = digitsValue ds * tenPow n := by
  rw [digitsValue_append, digitsValue_zeros, List.length_replicate, Nat.add_zero]

end PipeScript.Binary64
