import PipeScript.Binary64.Shortest
import PipeScript.Proofs.Binary64.Arithmetic
import PipeScript.Proofs.Binary64.Digits
import Mathlib.Data.List.TakeWhile
import Mathlib.Tactic.Ring

/-!
# The shortest decimal is read back

A positive number is written as the decimal that `shortest` finds, and the number nearest to that
decimal is the number itself.

## The model

`Shortest.readsBack` asks whether a quantity lies between the midpoints on both sides of a number.
What lies there rounds to the number (`nearestUnits_of_readsBack`), whether or not the spacing of the
numbers changes there. `Reads` says so of a decimal.

The search looks at grids of more and more digits. On the grid of seventeen digits the step is less
than the distance of the two midpoints, so of the two grid points beside the number one lies between
them (`onGrid?_ne_none`), and the search ends with a hit (`exists_search`). Zeros at the end of the
digits are dropped without changing the value.

Main results: `shortest_reads`, with `shortest_proper` for the digits, and `ofDecimal_of_reads`, by which
a decimal that reads back is read as the number.
-/

namespace PipeScript.Binary64

/-! ### Rounding a quantity near a number -/

/-- A quotient rounds to the whole number that it is within a half of; at a half, to an even one. -/
theorem roundDiv_eq {n d m : Nat} (hd : 0 < d) (hlow : 2 * (m * d) ≤ 2 * n + d)
    (hhigh : 2 * n ≤ 2 * (m * d) + d)
    (htie : m % 2 = 1 → 2 * (m * d) ≠ 2 * n + d ∧ 2 * n ≠ 2 * (m * d) + d) : roundDiv n d = m := by
  have hn := Nat.div_add_mod' n d
  have hr := Nat.mod_lt n hd
  have hlt : n / d < m + 1 := by
    rw [Nat.div_lt_iff_lt_mul hd, Nat.succ_mul]
    omega
  have hle : m < n / d + 2 := by
    refine Nat.lt_of_mul_lt_mul_right (a := d) ?_
    rw [Nat.add_mul]
    omega
  unfold roundDiv
  simp only
  generalize n / d = q, n % d = r at *
  obtain rfl | rfl : q = m ∨ m = q + 1 := by omega
  · split_ifs <;> omega
  · have hsucc : (q + 1) * d = q * d + d := Nat.succ_mul q d
    split_ifs <;> omega

theorem surplusBits_eq {n k : Nat} (hlow : k = 0 ∨ twoPow (k + 52) ≤ n) (hhigh : n < twoPow (k + 53)) :
    surplusBits n = k := by
  refine Nat.le_antisymm (surplusBits_le hhigh) ?_
  rcases hlow with rfl | hlow
  · exact Nat.zero_le _
  · by_contra hlt
    have hn := lt_twoPow_surplusBits n
    have hpow := twoPow_le (show surplusBits n + 53 ≤ k + 52 by omega)
    omega

/-- A number of the format is a whole number of steps between neighbours. -/
theorem Fits.exists_steps {u : Nat} (h : Fits u) : ∃ m, u = m * twoPow (surplusBits u) := by
  rw [Fits, nearestUnits_one] at h
  exact ⟨_, h.symm⟩

/-- A quantity within half a step of a number rounds to it; half a step away, if the number has an
even number of steps. -/
theorem nearestUnits_eq {num den m k : Nat} (hden : 0 < den)
    (hbits : k = 0 ∨ twoPow (k + 52) * den ≤ num) (hlimit : num < twoPow (k + 53) * den)
    (hlow : 2 * (m * (den * twoPow k)) ≤ 2 * num + den * twoPow k)
    (hhigh : 2 * num ≤ 2 * (m * (den * twoPow k)) + den * twoPow k)
    (htie : m % 2 = 1 → 2 * (m * (den * twoPow k)) ≠ 2 * num + den * twoPow k ∧
      2 * num ≠ 2 * (m * (den * twoPow k)) + den * twoPow k) :
    nearestUnits num den = m * twoPow k := by
  have hk : surplusBits (num / den) = k := by
    refine surplusBits_eq (hbits.imp_right ?_) ((Nat.div_lt_iff_lt_mul hden).mpr hlimit)
    exact (Nat.le_div_iff_mul_le hden).mpr
  simp only [nearestUnits, hk]
  rw [roundDiv_eq (Nat.mul_pos hden (twoPow_pos k)) hlow hhigh htie]

namespace Shortest

/-! ### The midpoints beside a number -/

/-- The numbers below a number are as far away as those above, unless it is a power of two: then they
are half as far away. -/
theorem gaps_cases (u : Nat) :
    (∃ k, surplusBits u = k + 1 ∧ u = twoPow (k + 53) ∧ gaps u = (twoPow k, twoPow (k + 1))) ∨
    (gaps u = (twoPow (surplusBits u), twoPow (surplusBits u)) ∧
      (surplusBits u = 0 ∨ twoPow (surplusBits u + 52) < u)) := by
  by_cases hs : surplusBits u = 0
  · refine .inr ⟨?_, .inl hs⟩
    simp [gaps, hs, twoPow]
  obtain ⟨k, hk⟩ := Nat.exists_eq_succ_of_ne_zero hs
  have hlog : u.log2 = k + 53 := by
    unfold surplusBits at hk
    omega
  have hstep : 1 < twoPow (k + 1) := Nat.one_lt_two_pow (Nat.succ_ne_zero k)
  have hhalf : twoPow (k + 1) / 2 = twoPow k := by
    rw [twoPow_add]
    exact Nat.mul_div_cancel _ (by decide)
  by_cases hu : u = twoPow (k + 53)
  · refine .inl ⟨k, hk, hu, ?_⟩
    have hpow : u = twoPow u.log2 := by rw [hlog, ← hu]
    simp [gaps, hk, ← hpow, hstep, hhalf]
  · refine .inr ⟨?_, .inr ?_⟩
    · have hpow : u ≠ twoPow u.log2 := by rwa [hlog]
      simp [gaps, hpow]
    · have hle := twoPow_le_of_surplusBits hs
      have hexp : surplusBits u + 52 = k + 53 := by omega
      rw [hexp] at hle ⊢
      omega

/-- The neighbours of a positive number are no further away than zero. -/
theorem gaps_le {u : Nat} (hu : u ≠ 0) : (gaps u).1 ≤ u ∧ (gaps u).2 ≤ u := by
  rcases gaps_cases u with ⟨k, -, hpow, hgaps⟩ | ⟨hgaps, h0 | hlt⟩
  · rw [hgaps, hpow]
    exact ⟨twoPow_le (by omega), twoPow_le (by omega)⟩
  · rw [hgaps, h0]
    have hone : twoPow 0 ≤ u := Nat.pos_of_ne_zero hu
    exact ⟨hone, hone⟩
  · rw [hgaps]
    have hle := (twoPow_le (Nat.le_add_right (surplusBits u) 52)).trans hlt.le
    exact ⟨hle, hle⟩

/-- A quantity reads back if it lies between the midpoints, or on one of them if the number is even. -/
theorem readsBack_iff {u num den : Nat} (hu : u ≠ 0) : readsBack u num den = true ↔
    2 * (u * den) ≤ 2 * num + (gaps u).1 * den ∧ 2 * num ≤ 2 * (u * den) + (gaps u).2 * den ∧
      (u / twoPow (surplusBits u) % 2 = 1 →
        2 * (u * den) ≠ 2 * num + (gaps u).1 * den ∧ 2 * num ≠ 2 * (u * den) + (gaps u).2 * den) := by
  have hbelow : (gaps u).1 * den ≤ u * den := Nat.mul_le_mul_right den (gaps_le hu).1
  unfold readsBack
  simp only [Nat.sub_mul, Nat.add_mul, Nat.mul_assoc, beq_iff_eq]
  split_ifs with heven
  · simp only [Bool.and_eq_true, decide_eq_true_eq]
    omega
  · simp only [Bool.and_eq_true, decide_eq_true_eq]
    omega

/-- What lies between the midpoints of a number with neighbours at one distance rounds to the number. -/
theorem nearestUnits_of_even_gaps {num den m k : Nat} (hden : 0 < den)
    (hbits : k = 0 ∨ twoPow (k + 52) < m * twoPow k) (hlimit : m * twoPow k < twoPow (k + 53))
    (hlow : 2 * (m * twoPow k * den) ≤ 2 * num + twoPow k * den)
    (hhigh : 2 * num ≤ 2 * (m * twoPow k * den) + twoPow k * den)
    (htie : m % 2 = 1 → 2 * (m * twoPow k * den) ≠ 2 * num + twoPow k * den ∧
      2 * num ≠ 2 * (m * twoPow k * den) + twoPow k * den) :
    nearestUnits num den = m * twoPow k := by
  have hstep (n : Nat) : n * twoPow k * den = n * (den * twoPow k) := by
    rw [Nat.mul_assoc, Nat.mul_comm (twoPow k)]
  have hpow (n : Nat) : twoPow (k + n) * den = twoPow n * (den * twoPow k) := by
    rw [Nat.add_comm, twoPow_add, hstep]
  have hpos : 0 < den * twoPow k := Nat.mul_pos hden (twoPow_pos k)
  rw [hstep, Nat.mul_comm (twoPow k)] at hlow hhigh htie
  have hm : m + 1 ≤ twoPow 53 := by
    rw [Nat.add_comm k, twoPow_add] at hlimit
    exact Nat.lt_of_mul_lt_mul_right hlimit
  have htop := Nat.mul_le_mul_right (den * twoPow k) hm
  rw [Nat.succ_mul] at htop
  refine nearestUnits_eq hden (hbits.imp_right fun hlt => ?_) ?_ hlow hhigh htie
  · have hm' : twoPow 52 + 1 ≤ m := by
      rw [Nat.add_comm k, twoPow_add] at hlt
      exact Nat.lt_of_mul_lt_mul_right hlt
    have hbottom := Nat.mul_le_mul_right (den * twoPow k) hm'
    rw [Nat.succ_mul] at hbottom
    rw [hpow]
    omega
  · rw [hpow]
    omega

/-- What lies between the midpoints of a power of two rounds to it, on either side. -/
theorem nearestUnits_of_twoPow {num den k : Nat} (hden : 0 < den)
    (hlow : 2 * (twoPow (k + 53) * den) ≤ 2 * num + twoPow k * den)
    (hhigh : 2 * num ≤ 2 * (twoPow (k + 53) * den) + twoPow (k + 1) * den) :
    nearestUnits num den = twoPow (k + 53) := by
  have hstep (n : Nat) : twoPow (k + n) * den = twoPow n * (den * twoPow k) := by
    rw [Nat.add_comm, twoPow_add, Nat.mul_assoc, Nat.mul_comm (twoPow k)]
  have hpos : 0 < den * twoPow k := Nat.mul_pos hden (twoPow_pos k)
  have hle : den * twoPow k ≤ twoPow 52 * (den * twoPow k) :=
    Nat.le_mul_of_pos_left _ (twoPow_pos 52)
  have h1 : twoPow 1 * (den * twoPow k) = 2 * (den * twoPow k) := rfl
  have h53 : twoPow 53 * (den * twoPow k) = 2 * (twoPow 52 * (den * twoPow k)) :=
    Nat.mul_assoc 2 (twoPow 52) _
  have h54 : twoPow 54 * (den * twoPow k) = 4 * (twoPow 52 * (den * twoPow k)) :=
    Nat.mul_assoc 4 (twoPow 52) _
  rw [Nat.mul_comm (twoPow k), hstep, h53] at hlow
  rw [hstep, hstep, h53, h1] at hhigh
  by_cases hbelow : num < twoPow (k + 53) * den
  · -- the numbers below are at half the distance
    have hbound := hbelow
    rw [hstep, h53] at hbound
    have hround : nearestUnits num den = twoPow 53 * twoPow k := by
      refine nearestUnits_eq hden (.inr ?_) hbelow ?_ ?_ (fun hodd => absurd hodd (by decide))
      · rw [hstep]
        omega
      · rw [h53]
        omega
      · rw [h53]
        omega
    rw [hround, ← twoPow_add, Nat.add_comm]
  · have hbound := Nat.le_of_not_lt hbelow
    rw [hstep, h53] at hbound
    have hdouble : den * twoPow (k + 1) = 2 * (den * twoPow k) := by
      rw [Nat.mul_comm, hstep, h1]
    have hround : nearestUnits num den = twoPow 52 * twoPow (k + 1) := by
      refine nearestUnits_eq hden (.inr (Nat.le_of_not_lt hbelow)) ?_ ?_ ?_
        (fun hodd => absurd hodd (by decide))
      · rw [Nat.add_assoc, hstep, h54]
        omega
      · rw [hdouble, Nat.mul_left_comm (twoPow 52)]
        omega
      · rw [hdouble, Nat.mul_left_comm (twoPow 52)]
        omega
    rw [hround, ← twoPow_add, Nat.add_comm, Nat.add_assoc]

/-- **What lies between the midpoints rounds to the number.** -/
theorem nearestUnits_of_readsBack {u num den : Nat} (hfits : Fits u) (hu : u ≠ 0) (hden : 0 < den)
    (h : readsBack u num den = true) : nearestUnits num den = u := by
  obtain ⟨hlow, hhigh, htie⟩ := (readsBack_iff hu).mp h
  obtain ⟨m, hm⟩ := hfits.exists_steps
  have hlimit := lt_twoPow_surplusBits u
  rcases gaps_cases u with ⟨k, -, hpow, hgaps⟩ | ⟨hgaps, hbits⟩
  · rw [hgaps] at hlow hhigh
    rw [hpow] at hlow hhigh ⊢
    exact nearestUnits_of_twoPow hden hlow hhigh
  · rw [hgaps] at hlow hhigh htie
    generalize surplusBits u = k at hm hlimit hbits hlow hhigh htie
    subst hm
    rw [Nat.mul_div_cancel m (twoPow_pos k)] at htie
    exact nearestUnits_of_even_gaps hden hbits hlimit hlow hhigh htie

/-- Whether a quantity reads back depends on the quotient alone. -/
theorem readsBack_mul {u c : Nat} (hu : u ≠ 0) (hc : 0 < c) (num den : Nat) :
    readsBack u (num * c) (den * c) = readsBack u num den := by
  have hcancel {a b : Nat} : a * c ≤ b * c ↔ a ≤ b := Nat.mul_le_mul_right_iff hc
  rw [Bool.eq_iff_iff, readsBack_iff hu, readsBack_iff hu]
  simp only [← Nat.mul_assoc, ← Nat.add_mul, hcancel, Ne, Nat.mul_left_inj hc.ne']

theorem readsBack_congr {u num den num' den' : Nat} (hu : u ≠ 0) (hden : 0 < den) (hden' : 0 < den')
    (h : num * den' = num' * den) : readsBack u num den = readsBack u num' den' := by
  rw [← readsBack_mul hu hden' num den, h, Nat.mul_comm den den', readsBack_mul hu hden]

/-! ### Decimals that read back -/

/-- The quotient of units that the decimal `m · 10^e` is. -/
def quotient (m : Nat) (e : Int) : Nat × Nat :=
  if e < 0 then (m * unitsPerOne, tenPow e.natAbs) else (m * unitsPerOne * tenPow e.toNat, 1)

/-- Does the decimal `m · 10^e` read back as `u` units? -/
def Reads (u m : Nat) (e : Int) : Prop := readsBack u (quotient m e).1 (quotient m e).2 = true

theorem quotient_pos (m : Nat) (e : Int) : 0 < (quotient m e).2 := by
  unfold quotient
  split_ifs
  · exact tenPow_pos _
  · exact Nat.one_pos

/-- Zeros may move from the digits to the exponent. -/
theorem reads_mul_tenPow {u : Nat} (hu : u ≠ 0) (m j : Nat) (e : Int) :
    Reads u (m * tenPow j) e ↔ Reads u m (e + j) := by
  unfold Reads
  rw [readsBack_congr hu (quotient_pos _ _) (quotient_pos _ _)]
  unfold quotient
  split_ifs with h₁ h₂ h₂
  · have hpow : tenPow e.natAbs = tenPow j * tenPow (e + j).natAbs := by
      rw [← tenPow_add, show e.natAbs = j + (e + j).natAbs by omega]
    rw [hpow]
    ring
  · have hpow : tenPow j = tenPow (e + j).toNat * tenPow e.natAbs := by
      rw [← tenPow_add, ← show j = (e + j).toNat + e.natAbs by omega]
    rw [hpow]
    ring
  · omega
  · have hpow : tenPow (e + j).toNat = tenPow j * tenPow e.toNat := by
      rw [← tenPow_add, show (e + j).toNat = j + e.toNat by omega]
    rw [hpow]
    ring

/-- A quotient that reads back is at least half the number and at most twice the number. -/
theorem Reads.bounds {u m : Nat} {e : Int} (hu : u ≠ 0) (h : Reads u m e) :
    u * (quotient m e).2 ≤ 2 * (quotient m e).1 ∧ (quotient m e).1 ≤ 2 * (u * (quotient m e).2) := by
  obtain ⟨hlow, hhigh, -⟩ := (readsBack_iff hu).mp h
  have hbelow := Nat.mul_le_mul_right (quotient m e).2 (gaps_le hu).1
  have habove := Nat.mul_le_mul_right (quotient m e).2 (gaps_le hu).2
  omega

/-- A decimal that reads back as a positive number is not zero. -/
theorem Reads.ne_zero {u m : Nat} {e : Int} (hu : u ≠ 0) (h : Reads u m e) : m ≠ 0 := by
  rintro rfl
  have hpos : 0 < u * (quotient 0 e).2 := Nat.mul_pos (Nat.pos_of_ne_zero hu) (quotient_pos 0 e)
  have hzero : (quotient 0 e).1 = 0 := by
    unfold quotient
    split_ifs <;> simp
  have hbounds := h.bounds hu
  omega

theorem twoPow_one : twoPow 1 = 2 := rfl

theorem lt_of_twoPow_lt {m n : Nat} (h : twoPow m < twoPow n) : m < n :=
  (Nat.pow_lt_pow_iff_right (by decide)).mp h

theorem twoPow_le_tenPow (k : Nat) : twoPow (3 * k) ≤ tenPow k := by
  have hpow : twoPow (3 * k) = 8 ^ k := Nat.pow_mul 2 3 k
  rw [hpow]
  exact Nat.pow_le_pow_left (by decide) k

/-- A decimal that reads back as a positive number is not so small that it is taken for zero. -/
theorem Reads.le_log2 {u m : Nat} {e : Int} (hu : u ≠ 0) (h : Reads u m e) (he : e < 0) :
    3 * e.natAbs ≤ m.log2 + 1080 := by
  have hlow := (h.bounds hu).1
  simp only [quotient, if_pos he] at hlow
  have hm : m < twoPow (m.log2 + 1) := (log2_lt_iff (h.ne_zero hu)).mp (Nat.lt_succ_self _)
  have hlt : twoPow (3 * e.natAbs) < twoPow (1 + (m.log2 + 1 + 1074)) := by
    calc twoPow (3 * e.natAbs) ≤ tenPow e.natAbs := twoPow_le_tenPow _
      _ ≤ u * tenPow e.natAbs := Nat.le_mul_of_pos_left _ (Nat.pos_of_ne_zero hu)
      _ ≤ 2 * (m * unitsPerOne) := hlow
      _ < 2 * (twoPow (m.log2 + 1) * unitsPerOne) := by
        have := Nat.mul_lt_mul_of_pos_right hm unitsPerOne_pos
        omega
      _ = twoPow (1 + (m.log2 + 1 + 1074)) := by
        rw [twoPow_add 1, twoPow_add (m.log2 + 1), twoPow_one, unitsPerOne]
  have := lt_of_twoPow_lt hlt
  omega

/-- A decimal that reads back as a number is not so great that it is taken for an infinite one. -/
theorem Reads.exponent_le {u m : Nat} {e : Int} (hu : u ≠ 0) (hlimit : u < unitsLimit) (h : Reads u m e) :
    e ≤ 400 := by
  by_contra hgt
  have hhigh := (h.bounds hu).2
  simp only [quotient, if_neg (show ¬ e < 0 by omega), Nat.mul_one] at hhigh
  have hlt : twoPow (1074 + 3 * e.toNat) < twoPow (1 + 2098) := by
    calc twoPow (1074 + 3 * e.toNat) = unitsPerOne * twoPow (3 * e.toNat) := by
          rw [twoPow_add, unitsPerOne]
      _ ≤ unitsPerOne * tenPow e.toNat := Nat.mul_le_mul_left _ (twoPow_le_tenPow _)
      _ ≤ m * (unitsPerOne * tenPow e.toNat) :=
        Nat.le_mul_of_pos_left _ (Nat.pos_of_ne_zero (h.ne_zero hu))
      _ = m * unitsPerOne * tenPow e.toNat := (Nat.mul_assoc _ _ _).symm
      _ ≤ 2 * u := hhigh
      _ < 2 * unitsLimit := by omega
      _ = twoPow (1 + 2098) := by
        rw [twoPow_add, twoPow_one, unitsLimit]
  have := lt_of_twoPow_lt hlt
  omega

/-! ### The search -/

/-- The quotient of grid steps of `10^k` that `u` units are. -/
def steps (u : Nat) (k : Int) : Nat × Nat :=
  if k < 0 then (u * tenPow k.natAbs, unitsPerOne) else (u, unitsPerOne * tenPow k.toNat)

/-- The grid point below `u` units. -/
def gridBelow (u : Nat) (k : Int) : Nat := (steps u k).1 / (steps u k).2

theorem onGrid?_eq (u : Nat) (k : Int) : onGrid? u k =
    let q := gridBelow u k
    let low := q != 0 && readsBack u (quotient q k).1 (quotient q k).2
    let high := readsBack u (quotient (q + 1) k).1 (quotient (q + 1) k).2
    if low && high then
      let r := 2 * ((steps u k).1 % (steps u k).2)
      some (if r < (steps u k).2 then q else if (steps u k).2 < r then q + 1 else q + q % 2)
    else if low then some q
    else if high then some (q + 1)
    else none := by
  by_cases hk : k < 0
  · simp only [onGrid?, gridBelow, steps, quotient, if_pos hk]
  · simp only [onGrid?, gridBelow, steps, quotient, if_neg hk]

/-- What the search finds on a grid reads back. -/
theorem reads_of_onGrid? {u n : Nat} {k : Int} (h : onGrid? u k = some n) : n ≠ 0 ∧ Reads u n k := by
  simp only [onGrid?_eq, Bool.and_eq_true, bne_iff_ne] at h
  generalize gridBelow u k = q at h
  have hparity := Nat.mod_two_eq_zero_or_one q
  split_ifs at h with hboth hless hgreater hlow hhigh <;> simp only [Option.some.injEq] at h
  · exact h ▸ hboth.1
  · exact h ▸ ⟨Nat.succ_ne_zero q, hboth.2⟩
  · rcases hparity with heven | hodd
    · rw [heven, Nat.add_zero] at h
      exact h ▸ hboth.1
    · rw [hodd] at h
      exact h ▸ ⟨Nat.succ_ne_zero q, hboth.2⟩
  · exact h ▸ hlow
  · exact h ▸ ⟨Nat.succ_ne_zero q, hhigh⟩

/-- The search has a hit on a grid if one of the two points beside the number reads back. -/
theorem onGrid?_ne_none {u : Nat} {k : Int} (hq : gridBelow u k ≠ 0)
    (h : Reads u (gridBelow u k) k ∨ Reads u (gridBelow u k + 1) k) : onGrid? u k ≠ none := by
  simp only [onGrid?_eq, Bool.and_eq_true, bne_iff_ne]
  generalize gridBelow u k = q at hq h
  intro hnone
  split_ifs at hnone with hboth hlow hhigh
  exact absurd h (not_or.mpr ⟨fun h => hlow ⟨hq, h⟩, hhigh⟩)

/-- The numbers beside a number are not so close that a step of one in `10^16` could pass over both
midpoints. -/
theorem lt_gaps {u : Nat} : 2 * u < tenPow 16 * ((gaps u).1 + (gaps u).2) := by
  have hten : tenPow 16 = 10000000000000000 := rfl
  have h53 : twoPow 53 = 9007199254740992 := rfl
  rcases gaps_cases u with ⟨k, -, hpow, hgaps⟩ | ⟨hgaps, -⟩
  · have hk := twoPow_pos k
    rw [Nat.add_comm, twoPow_add, h53] at hpow
    rw [hgaps, Nat.add_comm k, twoPow_add, twoPow_one, hten]
    omega
  · have hu := lt_twoPow_surplusBits u
    rw [Nat.add_comm, twoPow_add, h53] at hu
    rw [hgaps, hten]
    omega

/-- The steps of a grid and the quotients of its points have one scale. -/
theorem steps_eq (u : Nat) (k : Int) : ∃ scale, 0 < scale ∧ (steps u k).1 = u * scale ∧
    0 < (steps u k).2 ∧ ∀ n, quotient n k = (n * (steps u k).2, scale) := by
  by_cases hk : k < 0
  · simp only [steps, quotient, if_pos hk]
    exact ⟨_, tenPow_pos _, rfl, unitsPerOne_pos, fun _ => rfl⟩
  · simp only [steps, quotient, if_neg hk]
    exact ⟨1, Nat.one_pos, (Nat.mul_one u).symm, Nat.mul_pos unitsPerOne_pos (tenPow_pos _),
      fun n => by rw [Nat.mul_assoc]⟩

/-- **On a grid that is fine enough** one of the two points beside the number reads back. -/
theorem reads_gridBelow {u : Nat} {k : Int} (hu : u ≠ 0)
    (hfine : tenPow 16 * (steps u k).2 ≤ (steps u k).1) :
    Reads u (gridBelow u k) k ∨ Reads u (gridBelow u k + 1) k := by
  obtain ⟨scale, hscale, hnum, hden, hquotient⟩ := steps_eq u k
  have hbelow : gridBelow u k * (steps u k).2 ≤ u * scale := by
    rw [← hnum]
    exact Nat.div_mul_le_self _ _
  have habove : u * scale < (gridBelow u k + 1) * (steps u k).2 := by
    rw [← hnum]
    exact (Nat.div_lt_iff_lt_mul hden).mp (Nat.lt_succ_self _)
  rw [hnum] at hfine
  generalize gridBelow u k = q, (steps u k).2 = step at *
  have hsucc : (q + 1) * step = q * step + step := Nat.succ_mul q step
  have habove' : 0 < (gaps u).2 * scale := Nat.mul_pos (twoPow_pos (surplusBits u)) hscale
  have hwide : 2 * step < ((gaps u).1 + (gaps u).2) * scale := by
    refine Nat.lt_of_mul_lt_mul_left (a := tenPow 16) ?_
    calc tenPow 16 * (2 * step) = 2 * (tenPow 16 * step) := Nat.mul_left_comm _ _ _
      _ ≤ 2 * (u * scale) := Nat.mul_le_mul_left 2 hfine
      _ = 2 * u * scale := (Nat.mul_assoc _ _ _).symm
      _ < tenPow 16 * ((gaps u).1 + (gaps u).2) * scale := Nat.mul_lt_mul_of_pos_right lt_gaps hscale
      _ = tenPow 16 * (((gaps u).1 + (gaps u).2) * scale) := Nat.mul_assoc _ _ _
  rw [Nat.add_mul] at hwide
  simp only [Reads, readsBack_iff hu, hquotient, hsucc]
  omega

/-- A positive number has no fewer digits than it is written with. -/
theorem tenPow_le_of_length {n len : Nat} (hn : 0 < n) (h : (Nat.toDigits 10 n).length = len + 1) :
    tenPow len ≤ n := by
  by_cases hlen : len = 0
  · subst hlen
    exact hn
  · have hiff := Nat.length_toDigits_le_iff (b := 10) (n := n) (by decide) (Nat.pos_of_ne_zero hlen)
    exact Nat.le_of_not_lt (mt hiff.mpr (by omega))

/-- The grid of seventeen digits is fine enough. -/
theorem le_steps {u : Nat} (hu : u ≠ 0) : tenPow 16 * (steps u (leadingExponent u - 16)).2 ≤
    (steps u (leadingExponent u - 16)).1 := by
  have hone : unitsPerOne ≤ u * tenPow 400 := by
    calc unitsPerOne ≤ twoPow (3 * 400) := twoPow_le (by decide)
      _ ≤ tenPow 400 := twoPow_le_tenPow 400
      _ ≤ u * tenPow 400 := Nat.le_mul_of_pos_left _ (Nat.pos_of_ne_zero hu)
  have hpos : 0 < u * tenPow 400 / unitsPerOne := Nat.div_pos hone unitsPerOne_pos
  obtain ⟨len, hlen⟩ : ∃ len, (Nat.toDigits 10 (u * tenPow 400 / unitsPerOne)).length = len + 1 :=
    Nat.exists_eq_succ_of_ne_zero (by simp)
  have hlead : tenPow len * unitsPerOne ≤ u * tenPow 400 :=
    (Nat.le_div_iff_mul_le unitsPerOne_pos).mp (tenPow_le_of_length hpos hlen)
  have hk : leadingExponent u - 16 = (len : Int) - 416 := by
    rw [leadingExponent, hlen]
    omega
  rw [hk]
  unfold steps
  split_ifs with hneg <;> dsimp only
  · have hsum : tenPow 16 * tenPow 400 = tenPow len * tenPow ((len : Int) - 416).natAbs := by
      rw [← tenPow_add, ← tenPow_add, show len + ((len : Int) - 416).natAbs = 16 + 400 by omega]
    refine Nat.le_of_mul_le_mul_left ?_ (tenPow_pos len)
    calc tenPow len * (tenPow 16 * unitsPerOne) = tenPow 16 * (tenPow len * unitsPerOne) :=
          Nat.mul_left_comm _ _ _
      _ ≤ tenPow 16 * (u * tenPow 400) := Nat.mul_le_mul_left _ hlead
      _ = u * (tenPow 16 * tenPow 400) := Nat.mul_left_comm _ _ _
      _ = tenPow len * (u * tenPow ((len : Int) - 416).natAbs) := by rw [hsum, Nat.mul_left_comm]
  · have hsum : tenPow len = tenPow 400 * (tenPow 16 * tenPow ((len : Int) - 416).toNat) := by
      rw [← tenPow_add, ← tenPow_add, show 400 + (16 + ((len : Int) - 416).toNat) = len by omega]
    refine Nat.le_of_mul_le_mul_left ?_ (tenPow_pos 400)
    calc tenPow 400 * (tenPow 16 * (unitsPerOne * tenPow ((len : Int) - 416).toNat))
        = tenPow len * unitsPerOne := by
          rw [hsum, Nat.mul_comm unitsPerOne, ← Nat.mul_assoc (tenPow 16), ← Nat.mul_assoc]
      _ ≤ u * tenPow 400 := hlead
      _ = tenPow 400 * u := Nat.mul_comm _ _

/-- A search that comes to a grid with a hit ends with one. -/
theorem exists_search {u : Nat} {lead : Int} {count tries : Nat}
    (h : ∃ i < tries, onGrid? u (lead - (count + i : Nat) + 1) ≠ none) :
    ∃ n k, search u lead count tries = ⟨Nat.toDigits 10 n, k⟩ ∧ onGrid? u k = some n := by
  induction tries generalizing count with
  | zero =>
    obtain ⟨i, hi, -⟩ := h
    exact absurd hi (Nat.not_lt_zero i)
  | succ tries ih =>
    rw [search]
    cases hgrid : onGrid? u (lead - count + 1) with
    | some n => exact ⟨n, _, rfl, hgrid⟩
    | none =>
      obtain ⟨i, hi, hhit⟩ := h
      cases i with
      | zero => exact absurd hgrid hhit
      | succ i =>
        have hnext : count + (i + 1) = count + 1 + i := by omega
        exact ih ⟨i, Nat.lt_of_succ_lt_succ hi, hnext ▸ hhit⟩

/-- Only zeros are dropped, and the exponent tells how many. -/
theorem exists_zeros (d : Decimal) : ∃ zeros, d.digits =
    (dropZeros d).digits ++ List.replicate zeros '0' ∧ (dropZeros d).exponent = d.exponent + zeros := by
  obtain ⟨digits, e⟩ := d
  have hzeros : digits.reverse.takeWhile (· == '0') =
      List.replicate (digits.reverse.takeWhile (· == '0')).length '0' :=
    List.eq_replicate_of_mem fun c hc =>
      beq_iff_eq.mp (List.mem_takeWhile_imp (p := (· == '0')) hc)
  have hdigits : digits = (digits.reverse.dropWhile (· == '0')).reverse ++
      List.replicate (digits.reverse.takeWhile (· == '0')).length '0' := by
    rw [← List.reverse_replicate, ← hzeros, ← List.reverse_append, List.takeWhile_append_dropWhile,
      List.reverse_reverse]
  refine ⟨_, ?_, rfl⟩
  simp only [dropZeros]
  generalize (digits.reverse.takeWhile (· == '0')).length = zeros at hdigits ⊢
  rw [hdigits, List.length_append, List.length_replicate, Nat.add_sub_cancel, List.take_left]

end Shortest

/-! ### The shortest decimal -/

/-- The digits of a positive decimal: there are some, and no zero in front. -/
structure Decimal.Proper (d : Decimal) : Prop where
  digits : ∀ c ∈ d.digits, Text.isAsciiDigit c = true
  leads : ∃ c rest, d.digits = c :: rest ∧ c ≠ '0'

open Shortest

/-- What the search finds, with the zeros at its end dropped, is the shortest decimal. -/
theorem exists_shortest {u : Nat} (hu : u ≠ 0) :
    ∃ n k, n ≠ 0 ∧ Reads u n k ∧ shortest u = dropZeros ⟨Nat.toDigits 10 n, k⟩ := by
  have hfine := le_steps hu
  obtain ⟨scale, hscale, hnum, hden, -⟩ := steps_eq u (leadingExponent u - 16)
  have hbelow : gridBelow u (leadingExponent u - 16) ≠ 0 := by
    have hle : (steps u (leadingExponent u - 16)).2 ≤ (steps u (leadingExponent u - 16)).1 :=
      (Nat.le_mul_of_pos_left _ (tenPow_pos 16)).trans hfine
    exact (Nat.div_pos hle hden).ne'
  have hlast : leadingExponent u - (1 + 16 : Nat) + 1 = leadingExponent u - 16 := by omega
  have hhit : ∃ i < 17, onGrid? u (leadingExponent u - (1 + i : Nat) + 1) ≠ none :=
    ⟨16, by decide, hlast ▸ onGrid?_ne_none hbelow (reads_gridBelow hu hfine)⟩
  obtain ⟨n, k, hsearch, hgrid⟩ := exists_search hhit
  obtain ⟨hn, hreads⟩ := reads_of_onGrid? hgrid
  exact ⟨n, k, hn, hreads, by rw [shortest, hsearch]⟩

/-- **The shortest decimal** reads back. -/
theorem shortest_reads {u : Nat} (hu : u ≠ 0) :
    Reads u (digitsValue (shortest u).digits) (shortest u).exponent := by
  obtain ⟨n, k, -, hreads, hshortest⟩ := exists_shortest hu
  obtain ⟨zeros, hdigits, hexponent⟩ := exists_zeros ⟨Nat.toDigits 10 n, k⟩
  rw [← hshortest] at hdigits hexponent
  rw [hexponent, ← reads_mul_tenPow hu, ← digitsValue_append_zeros, ← hdigits]
  rwa [digitsValue_toDigits]

theorem shortest_proper {u : Nat} (hu : u ≠ 0) : (shortest u).Proper := by
  obtain ⟨n, k, hn, -, hshortest⟩ := exists_shortest hu
  obtain ⟨zeros, hdigits, -⟩ := exists_zeros ⟨Nat.toDigits 10 n, k⟩
  rw [← hshortest] at hdigits
  have hdigits : Nat.toDigits 10 n = (shortest u).digits ++ List.replicate zeros '0' := hdigits
  have hhead : (Nat.toDigits 10 n).head? ≠ some '0' := mt (head?_toDigits n) hn
  refine ⟨fun c hc => isAsciiDigit_of_mem_toDigits (hdigits ▸ List.mem_append_left _ hc), ?_⟩
  cases hds : (shortest u).digits with
  | cons c rest =>
    refine ⟨c, rest, rfl, ?_⟩
    rintro rfl
    rw [hdigits, hds] at hhead
    exact hhead rfl
  | nil =>
    -- only zeros would be left
    rw [hds, List.nil_append] at hdigits
    rw [hdigits] at hhead
    cases zeros with
    | zero => exact absurd hdigits Nat.toDigits_ne_nil
    | succ zeros => exact absurd rfl hhead

/-- **A decimal that reads back as a number is read as the number.** -/
theorem ofDecimal_of_reads {s : Bool} {u m : Nat} {e : Int} (hu : u ≠ 0) (hx : IsNumber (finite s u))
    (h : Reads u m e) : ofDecimal s m e = finite s u := by
  obtain ⟨hfits, hlimit⟩ := hx
  have hround : ofUnitRatio s (quotient m e).1 (quotient m e).2 = finite s u := by
    rw [ofUnitRatio, nearestUnits_of_readsBack hfits hu (quotient_pos m e) h]
    exact if_pos hlimit
  simp only [ofDecimal, if_neg (h.ne_zero hu)]
  split_ifs with hneg hsmall hgreat
  · have := h.le_log2 hu hneg
    omega
  · rwa [quotient, if_pos hneg] at hround
  · have := h.exponent_le hu hlimit
    omega
  · rw [quotient, if_neg hneg, Nat.mul_right_comm] at hround
    exact hround

/-- What a decimal is read as is a number of the format, unless it is infinite. -/
theorem isNumber_of_ofDecimal {s t : Bool} {m u : Nat} {e : Int} (h : ofDecimal s m e = finite t u) :
    IsNumber (finite t u) := by
  have hzero : IsNumber (finite s 0) := by cases s <;> decide +kernel
  have hratio {num den : Nat} (h : ofRatio s num den = finite t u) : IsNumber (finite t u) := by
    simp only [ofRatio, ofUnitRatio] at h
    split_ifs at h with hlimit
    cases h
    exact ⟨fits_nearestUnits _ _, hlimit⟩
  simp only [ofDecimal] at h
  split_ifs at h
  · exact h ▸ hzero
  · exact h ▸ hzero
  · exact hratio h
  · exact hratio h

end PipeScript.Binary64
