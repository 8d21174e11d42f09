import PipeScript.Proofs.Binary64.Rounding
import Mathlib.Algebra.Order.Ring.Int
import Mathlib.Algebra.Order.Group.Int

/-!
# Bounds of sums and products

What can be said of computed numbers by what is known of the numbers that they are computed from.

## The model

A finite number is told by its signed units (`HasUnits`), whichever sign a zero has. A sum or a product
is the exact one, rounded (`rounded`), as long as that is within the range of numbers.

Main results: a product of which one factor is at most one in size is at most the other factor
(`HasUnits.mul_le`), and sums keep the order of exact sums, also where they are beyond the range
(`add_le_add`).
-/

namespace PipeScript.Binary64

variable {x y z w : Binary64} {i j k l : Int} {d : Nat}

/-! ### Signed units -/

/-- Is it a finite number of so many units? -/
def HasUnits (x : Binary64) (i : Int) : Prop := ∃ s u, x = finite s u ∧ signedUnits s u = i

theorem hasUnits_finite (s : Bool) (u : Nat) : HasUnits (finite s u) (signedUnits s u) := ⟨s, u, rfl, rfl⟩

theorem natAbs_signedUnits (s : Bool) (u : Nat) : (signedUnits s u).natAbs = u := by
  cases s <;> simp [signedUnits]

theorem HasUnits.lt_iff (hx : HasUnits x i) (hy : HasUnits y j) : lt x y = true ↔ i < j := by
  obtain ⟨s, u, rfl, rfl⟩ := hx
  obtain ⟨t, v, rfl, rfl⟩ := hy
  simp [lt]

theorem HasUnits.le_iff (hx : HasUnits x i) (hy : HasUnits y j) : le x y = true ↔ i ≤ j := by
  obtain ⟨s, u, rfl, rfl⟩ := hx
  obtain ⟨t, v, rfl, rfl⟩ := hy
  simp only [le, lt, eq, Bool.or_eq_true, decide_eq_true_eq, beq_iff_eq]
  omega

/-- The signed units nearest to a quotient. -/
def rounded (i : Int) (d : Nat) : Int := signedUnits (i < 0) (nearestUnits i.natAbs d)

theorem natAbs_rounded (i : Int) (d : Nat) : (rounded i d).natAbs = nearestUnits i.natAbs d :=
  natAbs_signedUnits _ _

theorem nearestUnits_zero (d : Nat) : nearestUnits 0 d = 0 := by
  simp [nearestUnits, roundDiv]

theorem rounded_signedUnits (s : Bool) (n d : Nat) :
    rounded (signedUnits s n) d = signedUnits s (nearestUnits n d) := by
  rw [rounded, natAbs_signedUnits]
  by_cases hn : n = 0
  · subst hn
    rw [nearestUnits_zero]
    cases s <;> rfl
  · have hsign : decide (signedUnits s n < 0) = s := by
      cases s with
      | false => simp [signedUnits]
      | true => simp [signedUnits, Nat.pos_of_ne_zero hn]
    rw [hsign]

theorem rounded_nonneg (h : 0 ≤ i) (d : Nat) : 0 ≤ rounded i d := by
  rw [rounded, decide_eq_false (not_lt.mpr h)]
  exact Int.natCast_nonneg _

theorem rounded_mono (hi : 0 ≤ i) (h : i ≤ j) (d : Nat) : rounded i d ≤ rounded j d := by
  have habs : i.natAbs ≤ j.natAbs := by omega
  have hle := nearestUnits_mono habs d
  rw [← natAbs_rounded, ← natAbs_rounded] at hle
  have hi' := rounded_nonneg hi d
  have hj' := rounded_nonneg (hi.trans h) d
  omega

/-- Rounding does not go beyond a number of the format. -/
theorem natAbs_rounded_le {bound : Nat} (hd : 0 < d) (hbound : Fits bound) (h : i.natAbs ≤ bound * d) :
    (rounded i d).natAbs ≤ bound := by
  rw [natAbs_rounded]
  exact nearestUnits_le_of_fits hd hbound h

theorem fits_natAbs_rounded (i : Int) (d : Nat) : Fits (rounded i d).natAbs := by
  rw [natAbs_rounded]
  exact fits_nearestUnits _ _

theorem hasUnits_ofUnitRatio (s : Bool) (n d : Nat) (h : nearestUnits n d < unitsLimit) :
    HasUnits (ofUnitRatio s n d) (rounded (signedUnits s n) d) := by
  rw [ofUnitRatio, if_pos h, rounded_signedUnits]
  exact hasUnits_finite s _

/-! ### Some numbers -/

theorem unitsPerOne_pos : 0 < unitsPerOne := twoPow_pos 1074

theorem unitsLimit_pos : 0 < unitsLimit := by
  rw [unitsLimit]
  exact twoPow_pos 2098

theorem zero_eq : (0 : Binary64) = finite false 0 := by decide +kernel

theorem one_eq : (1 : Binary64) = finite false unitsPerOne := by decide +kernel

theorem two_eq : (2 : Binary64) = finite false (2 * unitsPerOne) := by decide +kernel

theorem fits_unitsPerOne : Fits unitsPerOne := by
  unfold Fits
  decide +kernel

theorem fits_two : Fits (2 * unitsPerOne) := by
  unfold Fits
  decide +kernel

theorem hasUnits_zero : HasUnits 0 0 := ⟨false, 0, zero_eq, rfl⟩

theorem hasUnits_one : HasUnits 1 unitsPerOne := ⟨false, unitsPerOne, one_eq, rfl⟩

theorem hasUnits_two : HasUnits 2 (2 * unitsPerOne : Nat) := ⟨false, 2 * unitsPerOne, two_eq, rfl⟩

/-- Is it a finite number of the format? -/
def IsNumber : Binary64 → Prop
  | finite _ u => Fits u ∧ u < unitsLimit
  | _ => False

instance : DecidablePred IsNumber
  | finite _ u => inferInstanceAs (Decidable (nearestUnits u 1 = u ∧ u < unitsLimit))
  | nan _ => isFalse id
  | infinite _ => isFalse id

theorem IsNumber.exists_eq (h : IsNumber x) :
    ∃ s u, x = finite s u ∧ Fits u ∧ u < unitsLimit := by
  cases x with
  | finite s u => exact ⟨s, u, rfl, h⟩
  | _ => exact h.elim

/-- A finite number that is not negative. -/
theorem IsNumber.exists_units (h : IsNumber x) (hpos : le 0 x = true) :
    ∃ i, HasUnits x i ∧ 0 ≤ i ∧ Fits i.natAbs ∧ i.natAbs < unitsLimit := by
  obtain ⟨s, u, rfl, hfits, hlimit⟩ := h.exists_eq
  have hunits := hasUnits_finite s u
  refine ⟨_, hunits, (hasUnits_zero.le_iff hunits).mp hpos, ?_⟩
  rw [natAbs_signedUnits]
  exact ⟨hfits, hlimit⟩

/-- A number between two bounds is finite. -/
theorem exists_units_of_between {lower upper : Int} {a b : Binary64} (ha : HasUnits a lower)
    (hb : HasUnits b upper) (hlower : le a x = true) (hupper : le x b = true) :
    ∃ i, HasUnits x i ∧ lower ≤ i ∧ i ≤ upper := by
  obtain ⟨s, u, rfl, rfl⟩ := ha
  obtain ⟨t, v, rfl, rfl⟩ := hb
  cases x with
  | nan r => cases hlower
  | infinite r =>
    cases r with
    | false => cases hupper
    | true => cases hlower
  | finite r w =>
    have hx := hasUnits_finite r w
    exact ⟨_, hx, ((hasUnits_finite s u).le_iff hx).mp hlower, (hx.le_iff (hasUnits_finite t v)).mp hupper⟩

theorem le_of_lt (h : lt x y = true) : le x y = true := by
  rw [le, h]
  rfl

theorem lt_of_lt_of_le (h : lt x y = true) {z : Binary64} (h' : le y z = true) : lt x z = true := by
  rcases Bool.or_eq_true_iff.mp h' with hlt | heq
  · cases x <;> cases y <;> cases z <;> simp_all [lt]
    omega
  · cases x <;> cases y <;> cases z <;> simp_all [lt, eq]

/-! ### Sums -/

theorem HasUnits.neg (h : HasUnits x i) : HasUnits (-x) (-i) := by
  obtain ⟨s, u, rfl, rfl⟩ := h
  refine ⟨!s, u, rfl, ?_⟩
  cases s <;> simp [signedUnits]

/-- A sum is a zero or the exact sum, rounded. -/
theorem HasUnits.add_cases (hx : HasUnits x i) (hy : HasUnits y j) :
    (i + j = 0 ∧ ∃ s, x + y = finite s 0) ∨ x + y = ofUnitRatio (i + j < 0) (i + j).natAbs 1 := by
  obtain ⟨s, u, rfl, rfl⟩ := hx
  obtain ⟨t, v, rfl, rfl⟩ := hy
  have hadd : finite s u + finite t v = Binary64.add (finite s u) (finite t v) := rfl
  rw [hadd, Binary64.add]
  by_cases hsum : signedUnits s u + signedUnits t v = 0
  · rw [if_pos hsum]
    exact .inl ⟨hsum, s && t, rfl⟩
  · rw [if_neg hsum]
    exact .inr rfl

theorem HasUnits.add (hx : HasUnits x i) (hy : HasUnits y j)
    (h : (rounded (i + j) 1).natAbs < unitsLimit) : HasUnits (x + y) (rounded (i + j) 1) := by
  rcases hx.add_cases hy with ⟨hsum, s, hxy⟩ | hxy
  · rw [hsum, hxy]
    exact ⟨s, 0, rfl, by cases s <;> rfl⟩
  · rw [natAbs_rounded] at h
    have hunits := hasUnits_ofUnitRatio (i + j < 0) (i + j).natAbs 1 h
    rw [hxy]
    have hsign : signedUnits (i + j < 0) (i + j).natAbs = i + j := by
      rw [signedUnits]
      split_ifs with hneg
      · simp at hneg
        omega
      · simp at hneg
        omega
    rwa [hsign] at hunits

/-- Is it what a quotient that is not negative rounds to, which may be beyond the range? -/
inductive IsRounded (x : Binary64) (i : Int) (d : Nat) : Prop
  | within (hrange : (rounded i d).natAbs < unitsLimit) (h : HasUnits x (rounded i d))
  | beyond (hrange : unitsLimit ≤ (rounded i d).natAbs) (h : x = infinite false)

theorem HasUnits.lt_infinite (hx : HasUnits x i) : lt x (infinite false) = true := by
  obtain ⟨s, u, rfl, rfl⟩ := hx
  rfl

theorem HasUnits.le_infinite (hx : HasUnits x i) : le x (infinite false) = true := by
  obtain ⟨s, u, rfl, rfl⟩ := hx
  rfl

/-- Rounding keeps the order, also where it leads beyond the range. -/
theorem IsRounded.le (hx : IsRounded x i d) (hy : IsRounded y j d) (hi : 0 ≤ i) (h : i ≤ j) :
    le x y = true := by
  have hle := rounded_mono hi h d
  have hpos := rounded_nonneg hi d
  have habs : (rounded i d).natAbs ≤ (rounded j d).natAbs := by omega
  cases hx with
  | within _ hx =>
    cases hy with
    | within _ hy => exact (hx.le_iff hy).mpr hle
    | beyond _ hy =>
      rw [hy]
      exact hx.le_infinite
  | beyond hrange hx =>
    cases hy with
    | within hrange' _ => exact absurd hrange' (Nat.not_lt_of_le (hrange.trans habs))
    | beyond _ hy =>
      rw [hx, hy]
      rfl

/-- What is not negative stays so by rounding. -/
theorem IsRounded.nonneg (hx : IsRounded x i d) (hi : 0 ≤ i) : lt x 0 = false ∧ Binary64.le 0 x = true := by
  cases hx with
  | within _ hx =>
    have hpos := rounded_nonneg hi d
    rw [hasUnits_zero.le_iff hx, Bool.eq_false_iff, ne_eq, hx.lt_iff hasUnits_zero]
    exact ⟨not_lt.mpr hpos, hpos⟩
  | beyond _ hx =>
    rw [hx, zero_eq]
    exact ⟨rfl, rfl⟩

theorem HasUnits.isRounded_add (hx : HasUnits x i) (hy : HasUnits y j) (h : 0 ≤ i + j) :
    IsRounded (x + y) (i + j) 1 := by
  rcases Nat.lt_or_ge (rounded (i + j) 1).natAbs unitsLimit with hrange | hrange
  · exact .within hrange (hx.add hy hrange)
  · refine .beyond hrange ?_
    rw [natAbs_rounded] at hrange
    rcases hx.add_cases hy with ⟨hsum, -⟩ | hxy
    · rw [hsum, Int.natAbs_zero, nearestUnits_zero] at hrange
      exact absurd hrange (Nat.not_le_of_lt unitsLimit_pos)
    · rw [hxy, ofUnitRatio, if_neg (Nat.not_lt_of_le hrange), decide_eq_false (not_lt.mpr h)]

/-- **Sums keep the order** of exact sums that are not negative. -/
theorem add_le_add (hx : HasUnits x i) (hy : HasUnits y j) (hz : HasUnits z k) (hw : HasUnits w l)
    (h : 0 ≤ i + j) (hle : i + j ≤ k + l) : le (x + y) (z + w) = true :=
  (hx.isRounded_add hy h).le (hz.isRounded_add hw (h.trans hle)) h hle

/-! ### Products -/

theorem signedUnits_mul (s t : Bool) (a b : Nat) :
    signedUnits s a * signedUnits t b = signedUnits (s ^^ t) (a * b) := by
  cases s <;> cases t <;> simp [signedUnits]

theorem HasUnits.mul (hx : HasUnits x i) (hy : HasUnits y j)
    (h : (rounded (i * j) unitsPerOne).natAbs < unitsLimit) :
    HasUnits (x * y) (rounded (i * j) unitsPerOne) := by
  obtain ⟨s, u, rfl, rfl⟩ := hx
  obtain ⟨t, v, rfl, rfl⟩ := hy
  have hmul : finite s u * finite t v = Binary64.mul (finite s u) (finite t v) := rfl
  rw [signedUnits_mul] at h ⊢
  rw [natAbs_rounded, natAbs_signedUnits] at h
  rw [hmul, Binary64.mul]
  exact hasUnits_ofUnitRatio _ _ _ h

/-- **A share of a number** is at most the number, in size. -/
theorem HasUnits.mul_le (hx : HasUnits x i) (hy : HasUnits y j) (hfits : Fits i.natAbs)
    (hrange : i.natAbs < unitsLimit) (hj : j.natAbs ≤ unitsPerOne) :
    ∃ k, HasUnits (x * y) k ∧ k = rounded (i * j) unitsPerOne ∧ k.natAbs ≤ i.natAbs := by
  have hle : (rounded (i * j) unitsPerOne).natAbs ≤ i.natAbs := by
    refine natAbs_rounded_le unitsPerOne_pos hfits ?_
    rw [Int.natAbs_mul]
    exact Nat.mul_le_mul_left _ hj
  exact ⟨_, hx.mul hy (hle.trans_lt hrange), rfl, hle⟩

theorem eq_false_of_nonneg {s : Bool} {u : Nat} (hu : u ≠ 0) (h : 0 ≤ signedUnits s u) : s = false := by
  cases s with
  | false => rfl
  | true =>
    rw [signedUnits, if_pos rfl] at h
    omega

/-- The product of numbers that are not negative. -/
theorem HasUnits.isRounded_mul (hx : HasUnits x i) (hy : HasUnits y j) (hi : 0 ≤ i) (hj : 0 ≤ j) :
    IsRounded (x * y) (i * j) unitsPerOne := by
  rcases Nat.lt_or_ge (rounded (i * j) unitsPerOne).natAbs unitsLimit with hrange | hrange
  · exact .within hrange (hx.mul hy hrange)
  · refine .beyond hrange ?_
    obtain ⟨s, u, rfl, rfl⟩ := hx
    obtain ⟨t, v, rfl, rfl⟩ := hy
    rw [signedUnits_mul, natAbs_rounded, natAbs_signedUnits] at hrange
    have hne : u * v ≠ 0 := by
      intro hzero
      rw [hzero, nearestUnits_zero] at hrange
      exact absurd unitsLimit_pos (Nat.not_lt_of_le hrange)
    obtain ⟨hu, hv⟩ := Nat.mul_ne_zero_iff.mp hne
    have hmul : finite s u * finite t v = Binary64.mul (finite s u) (finite t v) := rfl
    rw [hmul, Binary64.mul, ofUnitRatio, if_neg (Nat.not_lt_of_le hrange), eq_false_of_nonneg hu hi,
      eq_false_of_nonneg hv hj]
    rfl

end PipeScript.Binary64
