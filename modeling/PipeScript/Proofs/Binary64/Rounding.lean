import PipeScript.Binary64
import Mathlib.Data.Nat.Log

/-!
# Rounding

What rounding does to the order of quantities, and to those that are numbers of the format already.

## The model

A quantity is a quotient of two natural numbers, in units. It `Fits` if it is a whole number of units
that rounding leaves alone.

Main results: rounding depends on the quotient alone (`nearestUnits_mul`), it is monotone
(`nearestUnits_mono`), and what it gives fits (`fits_nearestUnits`). So a quantity that is not above one
that fits does not come to lie above it by rounding (`nearestUnits_le_of_fits`), which is how bounds are
kept throughout a computation.
-/

namespace PipeScript.Binary64

/-! ### Powers of two -/

theorem twoPow_add (m n : Nat) : twoPow (m + n) = twoPow m * twoPow n := Nat.pow_add 2 m n

theorem twoPow_pos (n : Nat) : 0 < twoPow n := Nat.pow_pos (by decide)

theorem twoPow_le {m n : Nat} (h : m ≤ n) : twoPow m ≤ twoPow n := Nat.pow_le_pow_right (by decide) h

theorem log2_lt_iff {n k : Nat} (hn : n ≠ 0) : n.log2 < k ↔ n < twoPow k := Nat.log2_lt hn

theorem surplusBits_le {n k : Nat} (h : n < twoPow (k + 53)) : surplusBits n ≤ k := by
  by_cases hn : n = 0
  · subst hn
    exact Nat.zero_le k
  · have hlog : n.log2 < k + 53 := (log2_lt_iff hn).mpr h
    unfold surplusBits
    omega

/-- The bits that a quantity drops are those beyond its 53 highest ones. -/
theorem lt_twoPow_surplusBits (n : Nat) : n < twoPow (surplusBits n + 53) := by
  by_cases hn : n = 0
  · subst hn
    exact twoPow_pos _
  · rw [← log2_lt_iff hn]
    unfold surplusBits
    omega

theorem twoPow_le_of_surplusBits {n : Nat} (h : surplusBits n ≠ 0) :
    twoPow (surplusBits n + 52) ≤ n := by
  have hn : n ≠ 0 := by
    rintro rfl
    exact h rfl
  by_contra hlt
  have hlog := (log2_lt_iff hn).mpr (Nat.lt_of_not_le hlt)
  unfold surplusBits at h hlog
  omega

theorem surplusBits_mono {m n : Nat} (h : m ≤ n) : surplusBits m ≤ surplusBits n :=
  surplusBits_le (Nat.lt_of_le_of_lt h (lt_twoPow_surplusBits n))

/-! ### Rounding to whole numbers -/

theorem div_le_roundDiv (n d : Nat) : n / d ≤ roundDiv n d := by
  unfold roundDiv
  simp only
  split_ifs <;> omega

theorem roundDiv_le_succ (n d : Nat) : roundDiv n d ≤ n / d + 1 := by
  unfold roundDiv
  simp only
  split_ifs <;> omega

theorem roundDiv_mul_le {n d : Nat} (h : 0 < d) : 2 * (roundDiv n d * d) ≤ 2 * n + d := by
  have hn := Nat.div_add_mod' n d
  have hlt := Nat.mod_lt n h
  have hsucc : (n / d + 1) * d = n / d * d + d := Nat.succ_mul _ _
  unfold roundDiv
  simp only
  split
  · omega
  · split
    · omega
    · rcases Nat.mod_two_eq_zero_or_one (n / d) with htwo | htwo
      · rw [htwo, Nat.add_zero]
        omega
      · rw [htwo]
        omega

/-- Rounding is monotone. -/
theorem roundDiv_mono {m n : Nat} (h : m ≤ n) (d : Nat) : roundDiv m d ≤ roundDiv n d := by
  rcases Nat.lt_or_eq_of_le (Nat.div_le_div_right h : m / d ≤ n / d) with hlt | heq
  · exact (roundDiv_le_succ m d).trans (hlt.trans_le (div_le_roundDiv n d))
  · -- between the same whole numbers the remainders decide
    have hm := Nat.div_add_mod m d
    have hn := Nat.div_add_mod n d
    rw [heq] at hm
    have hmod : m % d ≤ n % d := by omega
    unfold roundDiv
    simp only [heq]
    split_ifs <;> omega

/-- Rounding depends on the quotient alone. -/
theorem roundDiv_mul {c : Nat} (hc : 0 < c) (n d : Nat) : roundDiv (n * c) (d * c) = roundDiv n d := by
  unfold roundDiv
  simp only [Nat.mul_div_mul_right _ _ hc, Nat.mul_mod_mul_right, ← Nat.mul_assoc,
    Nat.mul_lt_mul_right hc]

theorem roundDiv_mul_self {d : Nat} (hd : 0 < d) (n : Nat) : roundDiv (n * d) d = n := by
  unfold roundDiv
  simp [Nat.mul_div_cancel _ hd, hd]

/-! ### Rounding to numbers of the format -/

theorem nearestUnits_one (n : Nat) : nearestUnits n 1 =
    roundDiv n (twoPow (surplusBits n)) * twoPow (surplusBits n) := by
  simp only [nearestUnits, Nat.div_one, Nat.one_mul]

/-- Rounding goes up by half the distance of two neighbours at most. -/
theorem nearestUnits_le {n k : Nat} (h : surplusBits n ≤ k) :
    2 * nearestUnits n 1 ≤ 2 * n + twoPow k := by
  rw [nearestUnits_one]
  have := roundDiv_mul_le (n := n) (twoPow_pos (surplusBits n))
  have := twoPow_le h
  omega

/-- Rounding depends on the quotient alone. -/
theorem nearestUnits_mul {c : Nat} (hc : 0 < c) (n d : Nat) :
    nearestUnits (n * c) (d * c) = nearestUnits n d := by
  unfold nearestUnits
  simp only [Nat.mul_div_mul_right _ _ hc, Nat.mul_right_comm d c, roundDiv_mul hc]

theorem nearestUnits_mul_self {d : Nat} (hd : 0 < d) (n : Nat) :
    nearestUnits (n * d) d = nearestUnits n 1 := by
  rw [← nearestUnits_mul hd n 1, Nat.one_mul]

/-- A quotient rounds to at most the least power of two with more bits. -/
theorem roundDiv_le_twoPow (n d : Nat) :
    roundDiv n (d * twoPow (surplusBits (n / d))) ≤ twoPow 53 := by
  refine (roundDiv_le_succ _ _).trans ?_
  rw [Nat.succ_le_iff, ← Nat.div_div_eq_div_mul, Nat.div_lt_iff_lt_mul (twoPow_pos _), ← twoPow_add,
    Nat.add_comm]
  exact lt_twoPow_surplusBits (n / d)

/-- A quotient that drops bits keeps 53 of them. -/
theorem twoPow_le_roundDiv {n d : Nat} (h : surplusBits (n / d) ≠ 0) :
    twoPow 52 ≤ roundDiv n (d * twoPow (surplusBits (n / d))) := by
  refine le_trans ?_ (div_le_roundDiv _ _)
  rw [← Nat.div_div_eq_div_mul, Nat.le_div_iff_mul_le (twoPow_pos _), ← twoPow_add, Nat.add_comm]
  exact twoPow_le_of_surplusBits h

/-- **Rounding is monotone.** -/
theorem nearestUnits_mono {m n : Nat} (h : m ≤ n) (d : Nat) : nearestUnits m d ≤ nearestUnits n d := by
  have hquot : m / d ≤ n / d := Nat.div_le_div_right h
  unfold nearestUnits
  rcases Nat.lt_or_eq_of_le (surplusBits_mono hquot) with hlt | heq
  · -- a power of two lies between the two
    have hne : surplusBits (n / d) ≠ 0 := Nat.ne_zero_of_lt hlt
    calc roundDiv m (d * twoPow (surplusBits (m / d))) * twoPow (surplusBits (m / d))
        ≤ twoPow 53 * twoPow (surplusBits (m / d)) :=
          Nat.mul_le_mul_right _ (roundDiv_le_twoPow m d)
      _ = twoPow 52 * twoPow (surplusBits (m / d) + 1) := by
          rw [← twoPow_add, ← twoPow_add, Nat.add_comm _ 1, ← Nat.add_assoc]
      _ ≤ twoPow 52 * twoPow (surplusBits (n / d)) := Nat.mul_le_mul_left _ (twoPow_le hlt)
      _ ≤ roundDiv n (d * twoPow (surplusBits (n / d))) * twoPow (surplusBits (n / d)) :=
          Nat.mul_le_mul_right _ (twoPow_le_roundDiv hne)
  · simp only [heq]
    exact Nat.mul_le_mul_right _ (roundDiv_mono h _)

/-- Does rounding leave a number of units alone? -/
def Fits (n : Nat) : Prop := nearestUnits n 1 = n

theorem fits_of_dvd {n k : Nat} (h : surplusBits n ≤ k) (hdvd : twoPow k ∣ n) : Fits n := by
  have hdiv : twoPow (surplusBits n) ∣ n := Nat.dvd_trans (Nat.pow_dvd_pow 2 h) hdvd
  have hround := roundDiv_mul_self (twoPow_pos (surplusBits n)) (n / twoPow (surplusBits n))
  rw [Nat.div_mul_cancel hdiv] at hround
  rw [Fits, nearestUnits_one, hround, Nat.div_mul_cancel hdiv]

/-- **What rounding gives** fits. -/
theorem fits_nearestUnits (n d : Nat) : Fits (nearestUnits n d) := by
  unfold nearestUnits
  simp only
  have hle := roundDiv_le_twoPow n d
  generalize roundDiv n (d * twoPow (surplusBits (n / d))) = r at hle
  generalize surplusBits (n / d) = s
  rcases Nat.lt_or_eq_of_le hle with hlt | rfl
  · refine fits_of_dvd (k := s) (surplusBits_le ?_) (Nat.dvd_mul_left _ _)
    rw [Nat.add_comm, twoPow_add]
    exact Nat.mul_lt_mul_of_pos_right hlt (twoPow_pos s)
  · rw [← twoPow_add]
    refine fits_of_dvd (k := s + 1) (surplusBits_le (Nat.pow_lt_pow_right (by decide) ?_)) ?_
    · omega
    · exact Nat.pow_dvd_pow 2 (by omega)

/-- A quantity that is not above a number of the format does not come to lie above it. -/
theorem nearestUnits_le_of_fits {n d bound : Nat} (hd : 0 < d) (hbound : Fits bound)
    (h : n ≤ bound * d) : nearestUnits n d ≤ bound := by
  have hmono := nearestUnits_mono h d
  rwa [nearestUnits_mul_self hd, hbound] at hmono

end PipeScript.Binary64
