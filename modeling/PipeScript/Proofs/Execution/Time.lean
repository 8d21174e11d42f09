import PipeScript.Execution.Scheduler
import PipeScript.Proofs.Binary64.Arithmetic

/-!
# Time passes

The clock of a run is a double-precision number. Adding a delay to it rounds, so a clock can overflow,
and a nap that is taken in slices need not get any shorter. Neither happens to delays of a reasonable
length.

## The model

A wait `Passes` if it is over at some time that a clock can show, whenever it begins, and a nap
`Elapses` if it is over after some slices. These are the delays that are finite in effect; a number of
seconds can be finite, and the clock never get there.

Main results: a wait passes if it is below `2^970` seconds, half the distance between the two greatest
numbers of the format (`passes_of_lt`), and a nap elapses if it is at most `2^49` seconds, beyond which
a slice is less than half the distance of two neighbours (`elapses_of_le`).
-/

namespace PipeScript.Binary64

/-! ### Times -/

theorem lt_irrefl (x : Binary64) : lt x x = false := by
  cases x with
  | nan s => rfl
  | infinite s => cases s <;> rfl
  | finite s u => simp [lt]

/-- The units of the greatest finite number. -/
def greatestUnits : Nat := twoPow 2098 - twoPow 2045

/-- Is it a time that a clock can show? -/
def IsTime (x : Binary64) : Prop := ∃ u ≤ greatestUnits, x = finite false u

/-- A wait that never makes a clock overflow: less than `2^970` seconds. -/
def longestWait : Binary64 := finite false (twoPow 2044)

/-- Half the distance of the greatest numbers is rounded down. -/
theorem nearestUnits_le_greatestUnits {a b : Nat} (ha : a ≤ greatestUnits) (hb : b < twoPow 2044) :
    nearestUnits (a + b) 1 ≤ greatestUnits := by
  -- in parts of a quarter of the distance
  obtain ⟨q, hq⟩ : ∃ q, q = twoPow 2043 := ⟨_, rfl⟩
  have h44 : twoPow 2044 = 2 * q := by rw [twoPow_add 1 2043, ← hq]; rfl
  have h45 : twoPow 2045 = 4 * q := by rw [twoPow_add 2 2043, ← hq]; rfl
  have h97 : twoPow 2097 = 18014398509481984 * q := by rw [twoPow_add 54 2043, ← hq]; rfl
  have h98 : twoPow 2098 = 36028797018963968 * q := by rw [twoPow_add 55 2043, ← hq]; rfl
  have hpos : 0 < q := hq ▸ twoPow_pos 2043
  rw [greatestUnits] at ha ⊢
  by_cases hlow : a + b < twoPow (2044 + 53)
  · have := nearestUnits_le (surplusBits_le hlow)
    rw [show 2044 + 53 = 2097 from rfl] at hlow
    omega
  · have hhigh : a + b < twoPow (2045 + 53) := by
      rw [show 2045 + 53 = 2098 from rfl]
      omega
    have hbits : surplusBits (a + b) = 2045 := by
      have hle := surplusBits_le hhigh
      have hne : a + b ≠ 0 := by
        have := twoPow_pos (2044 + 53)
        omega
      have hge : ¬ (a + b).log2 < 2044 + 53 := fun h => hlow ((log2_lt_iff hne).mp h)
      unfold surplusBits at hle ⊢
      omega
    have hle := nearestUnits_le (Nat.le_of_eq hbits)
    rw [nearestUnits_one, hbits, h45] at hle ⊢
    generalize roundDiv (a + b) (4 * q) = r at hle ⊢
    have hr : r < 9007199254740992 := by
      refine Nat.lt_of_mul_lt_mul_right (a := 4 * q) ?_
      omega
    have := Nat.mul_le_mul_right (4 * q) (Nat.le_of_lt_succ hr)
    omega

theorem lt_finite (a b : Nat) : lt (finite false a) (finite false b) = decide (a < b) := by
  simp [lt, signedUnits]

/-- A number above zero is infinite or has a positive number of units. -/
theorem eq_of_pos {x : Binary64} (h : lt 0 x = true) :
    x = infinite false ∨ ∃ u, 0 < u ∧ x = finite false u := by
  rw [zero_eq] at h
  cases x with
  | nan s => simp [lt] at h
  | infinite s =>
    cases s with
    | true => simp [lt] at h
    | false => exact .inl rfl
  | finite s u =>
    have h : signedUnits false 0 < signedUnits s u := by simpa [lt] using h
    cases s with
    | true =>
      simp only [signedUnits, if_true, Bool.false_eq_true, if_false] at h
      omega
    | false =>
      simp only [signedUnits, Bool.false_eq_true, if_false] at h
      exact .inr ⟨u, by omega, rfl⟩

theorem eq_finite_of_pos {x : Binary64} {limit : Nat} (hpos : le x 0 = false)
    (hlt : lt x (finite false limit) = true) :
    ∃ u, 0 < u ∧ u < limit ∧ x = finite false u := by
  rw [zero_eq] at hpos
  cases x with
  | nan s => simp [lt] at hlt
  | infinite s =>
    cases s with
    | true => simp [le, lt] at hpos
    | false => simp [lt] at hlt
  | finite s u =>
    cases s with
    | true => simp [le, lt, eq, signedUnits] at hpos
    | false =>
      simp [le, lt, eq, signedUnits] at hpos hlt
      exact ⟨u, by omega, by omega, rfl⟩

theorem IsTime.add_finite {now : Binary64} (h : IsTime now) {b : Nat} (hb : 0 < b)
    (hblt : b < twoPow 2044) : IsTime (now + finite false b) := by
  obtain ⟨a, ha, rfl⟩ := h
  have hunits := nearestUnits_le_greatestUnits ha hblt
  have hlimit : nearestUnits (a + b) 1 < unitsLimit := by
    have := twoPow_pos 2045
    have : twoPow 2045 ≤ twoPow 2098 := twoPow_le (by decide)
    rw [greatestUnits] at hunits
    show nearestUnits (a + b) 1 < twoPow 2098
    omega
  refine ⟨_, hunits, ?_⟩
  have hadd : finite false a + finite false b = Binary64.add (finite false a) (finite false b) := rfl
  rw [hadd]
  have hsum : (a : Int) + b ≠ 0 := by omega
  have hneg : ¬ (a : Int) + b < 0 := by omega
  have habs : ((a : Int) + b).natAbs = a + b := by omega
  simp only [Binary64.add, signedUnits, Bool.false_eq_true, if_false, hsum, hneg, habs, decide_false,
    ofUnitRatio, hlimit, if_true]

/-- Is a wait of so many seconds over at some time, whenever it begins? -/
def Passes (seconds : Binary64) : Prop :=
  le seconds 0 = false → ∀ now, IsTime now → IsTime (now + seconds)

/-- **A clock does not overflow** when a wait is added to it that is not too long. -/
theorem passes_of_lt {seconds : Binary64} (h : lt seconds longestWait = true) : Passes seconds := by
  intro hpos now hnow
  obtain ⟨b, hb, hblt, rfl⟩ := eq_finite_of_pos hpos h
  exact hnow.add_finite hb hblt

/-! ### Naps -/

/-- The units of a slice: between a thirty-second and a sixteenth of a second. -/
theorem napSlice_eq : ∃ u, napSlice = finite false u ∧ twoPow 1069 < u ∧ u < twoPow 1070 := by
  have hslice : napSlice = finite false (7205759403792794 * twoPow 1017) := by decide +kernel
  obtain ⟨q, hq⟩ : ∃ q, q = twoPow 1017 := ⟨_, rfl⟩
  have hlow : twoPow 1069 = 4503599627370496 * q := by rw [twoPow_add 52 1017, ← hq]; rfl
  have hhigh : twoPow 1070 = 9007199254740992 * q := by rw [twoPow_add 53 1017, ← hq]; rfl
  have hpos : 0 < q := hq ▸ twoPow_pos 1017
  rw [← hq] at hslice
  exact ⟨_, hslice, by omega, by omega⟩

/-- A clock does not overflow when a slice of a nap is added to it. -/
theorem IsTime.add_slice {now r : Binary64} (h : IsTime now) (hpos : lt 0 r = true) :
    IsTime (now + Binary64.min napSlice r) := by
  obtain ⟨n, hn, hlow, hhigh⟩ := napSlice_eq
  have hbound : twoPow 1070 ≤ twoPow 2044 := twoPow_le (by decide)
  rw [Binary64.min, hn]
  split
  · rename_i hlt
    rcases eq_of_pos hpos with rfl | ⟨u, hu, rfl⟩
    · simp [lt] at hlt
    · have hlt : (u : Int) < n := by simpa [lt, signedUnits] using hlt
      exact h.add_finite hu (by omega)
  · exact h.add_finite (by omega) (by omega)

/-- Is a nap of so many seconds over after some slices? -/
inductive Elapses : Binary64 → Prop
  | past {r : Binary64} (h : lt 0 r = false) : Elapses r
  | slice {r : Binary64} (h : Elapses (r - napSlice)) : Elapses r

/-- A nap of at most this length gets shorter with each slice: `2^49` seconds. -/
def longestNap : Binary64 := finite false (twoPow 1123)

/-- A slice off a positive nap that is not too long leaves a shorter one, if any. -/
theorem sub_napSlice {a : Nat} (ha : a ≤ twoPow 1123) :
    lt 0 (finite false a - napSlice) = false ∨
      ∃ b < a, finite false a - napSlice = finite false b := by
  obtain ⟨n, hn, hlow, hhigh⟩ := napSlice_eq
  have hsub : finite false a - finite false n = Binary64.add (finite false a) (finite true n) := rfl
  rw [hn, zero_eq, hsub]
  simp only [Binary64.add, signedUnits, Bool.false_eq_true, if_false, if_true]
  by_cases hzero : (a : Int) + -n = 0
  · rw [if_pos hzero]
    exact .inl (by simp [lt, signedUnits])
  · rw [if_neg hzero]
    by_cases hneg : (a : Int) + -n < 0
    · refine .inl ?_
      rw [ofUnitRatio]
      split
      · simp [hneg, lt, signedUnits]
      · simp [hneg, lt]
    · obtain ⟨m, hm⟩ : ∃ m, a = n + m := ⟨a - n, by omega⟩
      have habs : ((a : Int) + -n).natAbs = m := by omega
      have hmlt : m < twoPow (1070 + 53) := by
        rw [show 1070 + 53 = 1123 from rfl]
        omega
      have hle := nearestUnits_le (surplusBits_le hmlt)
      have htwo : twoPow 1 = 2 := rfl
      have hdouble : twoPow 1070 = 2 * twoPow 1069 := by rw [twoPow_add 1 1069, htwo]
      have hlt : nearestUnits m 1 < a := by omega
      have hlimit : nearestUnits m 1 < unitsLimit := by
        have : twoPow 1123 ≤ twoPow 2098 := twoPow_le (by decide)
        show nearestUnits m 1 < twoPow 2098
        omega
      refine .inr ⟨_, hlt, ?_⟩
      simp only [hneg, habs, ofUnitRatio, hlimit, if_true, decide_false]

/-- **A nap is over after some slices**, if it is not too long. -/
theorem elapses_of_le {r : Binary64} (h : lt longestNap r = false) : Elapses r := by
  by_cases hpos : lt 0 r = false
  · exact .past hpos
  · have key (a : Nat) (ha : a ≤ twoPow 1123) : Elapses (finite false a) := by
      induction a using Nat.strongRecOn with
      | ind a ih =>
        rcases sub_napSlice ha with hpast | ⟨b, hb, heq⟩
        · exact .slice (.past hpast)
        · exact .slice (heq ▸ ih b hb (by omega))
    rcases eq_of_pos (by simpa using hpos) with rfl | ⟨u, -, rfl⟩
    · simp [longestNap, lt] at h
    · rw [longestNap, lt_finite, decide_eq_false_iff_not] at h
      exact key u (Nat.le_of_not_lt h)

end PipeScript.Binary64
