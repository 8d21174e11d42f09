import PipeScript.Text.Casing
import PipeScript.Text.Split
import Mathlib.Data.List.Infix

/-!
# Searching in texts, line by line and in any letter case

`occursIn` finds a needle wherever it stands (`occursIn_iff`), and what stands before the first
newline is the first line (`lines_append`). A needle that lacks a character cannot reach over an
occurrence of it, so a text may be cut there before it is searched (`infix_append_cons`).

Lower case is harder to cut. The form of a sigma depends on the letters around it, so that the lower
case of two texts put together need not be that of each of them. It is so as soon as both small
forms are written alike: `fold` maps each character on its own, and a needle without a sigma occurs
in the lower case of a text exactly if it occurs in the fold (`infix_lower_iff`).
-/

namespace PipeScript.Text

variable {needle a b s : List Char} {c : Char}

/-! ### Occurrences -/

theorem occursIn_iff : occursIn needle s = true ↔ needle <:+: s := by
  induction s with
  | nil => simp [occursIn]
  | cons c s ih => simp [occursIn, List.infix_cons_iff, ih]

/-- A needle that lacks a character stands before it or after it. -/
theorem infix_append_cons (hne : needle ≠ []) (hc : c ∉ needle) :
    needle <:+: a ++ c :: b ↔ needle <:+: a ∨ needle <:+: b := by
  have noPrefix {l : List Char} (hl : l ≠ []) (hcl : c ∉ l) : ¬ l <+: c :: b := by
    obtain ⟨d, ds, rfl⟩ := List.exists_cons_of_ne_nil hl
    intro h
    exact hcl (by simp [(List.cons_prefix_cons.mp h).1])
  constructor
  · intro h
    rcases List.infix_append_iff.mp h with h | h | ⟨l₁, l₂, rfl, h₁, h₂⟩
    · exact .inl h
    · exact .inr ((List.infix_cons_iff.mp h).resolve_left (noPrefix hne hc))
    · have hl₂ : l₂ = [] := by
        by_contra hl
        exact noPrefix hl (fun h => hc (List.mem_append_right l₁ h)) h₂
      rw [hl₂, List.append_nil]
      exact .inl h₁.isInfix
  · rintro (h | h)
    · exact h.trans (List.prefix_append _ _).isInfix
    · exact h.trans ((List.suffix_cons c b).trans (List.suffix_append a _)).isInfix

/-! ### Lines -/

/-- The first line ends at the first newline. -/
theorem lines_append (h : '\n' ∉ a) (b : List Char) : lines (a ++ '\n' :: b) = a :: lines b := by
  induction a with
  | nil => simp [lines, splitOn, splitSkipping]
  | cons c a ih =>
    obtain ⟨hc, ha⟩ := List.ne_and_not_mem_of_not_mem_cons h
    simpa [lines, splitOn, splitSkipping, hc, consFirst] using congrArg (consFirst c) (ih ha)

/-! ### Letter case -/

namespace Casing

/-- The small sigma inside a word. -/
def smallSigma : Char := Char.ofNat 0x3c3

/-- The small sigma at the end of a word. -/
def finalSigma : Char := Char.ofNat 0x3c2

/-- The character, with the final form of the small sigma written as the other one. -/
def oneSigma (c : Char) : Char := if c = finalSigma then smallSigma else c

/-- The lower case of a character, whatever its neighbours. -/
def foldChar (c : Char) : List Char :=
  if c = capitalSigma then [smallSigma] else (lowerChar c).map oneSigma

/-- The text in lower case, each character on its own. -/
def fold (s : List Char) : List Char := s.flatMap foldChar

theorem fold_append (a b : List Char) : fold (a ++ b) = fold a ++ fold b := List.flatMap_append

theorem fold_lowerAfter (before s : List Char) : (lowerAfter before s).map oneSigma = fold s := by
  induction s generalizing before with
  | nil => rfl
  | cons c s ih =>
    have hc : (if c = capitalSigma then
          [Char.ofNat (if casedNext before && !casedNext s then 0x3c2 else 0x3c3)]
        else lowerChar c).map oneSigma = foldChar c := by
      unfold foldChar
      split_ifs <;> rfl
    rw [lowerAfter, List.map_append, hc, ih]
    rfl

theorem oneSigma_eq_iff {d : Char} (hd : d ≠ smallSigma) (hd' : d ≠ finalSigma) :
    oneSigma c = d ↔ c = d := by
  unfold oneSigma
  split_ifs with h
  · rw [h]
    exact ⟨fun e => absurd e.symm hd, fun e => absurd e.symm hd'⟩
  · rfl

/-- Texts without a sigma have one source only. -/
theorem map_oneSigma_eq_iff (h : smallSigma ∉ needle) (h' : finalSigma ∉ needle) :
    s.map oneSigma = needle ↔ s = needle := by
  induction needle generalizing s with
  | nil => simp
  | cons d needle ih =>
    obtain ⟨hd, hn⟩ := List.ne_and_not_mem_of_not_mem_cons h
    obtain ⟨hd', hn'⟩ := List.ne_and_not_mem_of_not_mem_cons h'
    cases s with
    | nil => simp
    | cons c s => simp [oneSigma_eq_iff hd.symm hd'.symm, ih hn hn']

/-- **A needle without a sigma occurs in the lower case of a text exactly if it occurs in the fold,
where every character stands on its own.** -/
theorem infix_lower_iff (h : smallSigma ∉ needle) (h' : finalSigma ∉ needle) :
    needle <:+: lower s ↔ needle <:+: fold s := by
  have hfold : fold s = (lower s).map oneSigma := (fold_lowerAfter [] s).symm
  rw [hfold]
  constructor
  · intro hi
    rw [← (map_oneSigma_eq_iff h h').mpr rfl]
    exact hi.map oneSigma
  · rintro ⟨l, r, e⟩
    obtain ⟨l', r', e', hl, hr⟩ := List.map_eq_append_iff.mp e.symm
    obtain ⟨l'', m, rfl, -, hm⟩ := List.map_eq_append_iff.mp hl
    rw [(map_oneSigma_eq_iff h h').mp hm] at e'
    exact ⟨l'', r', e'.symm⟩

/-- Characters that have no other case are what they are in the fold. -/
theorem fold_eq_self (h : ∀ c ∈ s, foldChar c = [c]) : fold s = s := by
  induction s with
  | nil => rfl
  | cons c s ih =>
    obtain ⟨hc, hs⟩ := List.forall_mem_cons.mp h
    rw [fold, List.flatMap_cons, hc, List.singleton_append]
    exact congrArg _ (ih hs)

theorem lowerChar_ne_nil (c : Char) : lowerChar c ≠ [] := by
  simp only [lowerChar]
  split_ifs <;> exact List.cons_ne_nil _ _

theorem length_le_length_lowerAfter (before s : List Char) :
    s.length ≤ (lowerAfter before s).length := by
  induction s generalizing before with
  | nil => exact Nat.zero_le _
  | cons c s ih =>
    rw [lowerAfter, List.length_append, List.length_cons, Nat.add_comm]
    refine Nat.add_le_add (List.length_pos_of_ne_nil ?_) (ih (c :: before))
    by_cases hc : c = capitalSigma
    · rw [if_pos hc]
      exact List.cons_ne_nil _ _
    · rw [if_neg hc]
      exact lowerChar_ne_nil c

end Casing

/-- No character is lost in lower case. -/
theorem length_le_length_lower (s : List Char) : s.length ≤ (lower s).length :=
  Casing.length_le_length_lowerAfter [] s

theorem lower_ne_nil (h : s ≠ []) : lower s ≠ [] := by
  intro hnil
  have hlength := length_le_length_lower s
  rw [hnil, List.length_nil, Nat.le_zero_eq, List.length_eq_zero_iff] at hlength
  exact h hlength

/-- A text that is not in lower case does not hold its lower case. -/
theorem lower_absent (h : lower s ≠ s) : ¬ lower s <:+: s := by
  intro hi
  exact h (hi.eq_of_length_le (length_le_length_lower s))

end PipeScript.Text
