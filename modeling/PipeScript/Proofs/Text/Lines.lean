import PipeScript.Proofs.Text.Casing
import PipeScript.Proofs.Text.Search
import PipeScript.Proofs.Text.Splitting

/-!
# Lower case, line by line

A subject is looked for in the lower case of a whole text, and then in the lower case of its lines. That
comes to the same, though the form of a sigma depends on its neighbours: the search for a neighbour stops at
a newline, so that a line is written in lower case as if it stood alone (`lower_append_newline`).

A subject of one line therefore stands in the lower case of a text exactly if it stands in that of one of
its lines (`infix_lower_iff_lines`). For this no newline may come out of another character
(`newline_not_mem_lower`).
-/

namespace PipeScript.Text

variable {s needle : List Char}

namespace Casing

/-! ### Neighbours -/

/-- The search for a neighbour stops at a newline. -/
theorem casedNext_append_newline (s t : List Char) : casedNext (s ++ '\n' :: t) = casedNext s := by
  have hnewline : isIgnorable '\n' = false ∧ isCased '\n' = false := by decide
  induction s with
  | nil =>
    rw [List.nil_append, casedNext, List.dropWhile_cons_of_neg (by simp [hnewline.1])]
    exact hnewline.2
  | cons c s ih =>
    unfold casedNext at ih ⊢
    by_cases hc : isIgnorable c = true
    · rw [List.cons_append, List.dropWhile_cons_of_pos hc, List.dropWhile_cons_of_pos hc, ih]
    · rw [List.cons_append, List.dropWhile_cons_of_neg hc, List.dropWhile_cons_of_neg hc]

/-- What stands before the line does not matter to its lower case. -/
theorem lowerAfter_of_newline (before rest s : List Char) :
    lowerAfter (before ++ '\n' :: rest) s = lowerAfter before s := by
  induction s generalizing before with
  | nil => rfl
  | cons c s ih =>
    rw [lowerAfter, lowerAfter, casedNext_append_newline, ← List.cons_append, ih]

theorem lowerAfter_append_newline (before a b : List Char) :
    lowerAfter before (a ++ '\n' :: b) = lowerAfter before a ++ '\n' :: lower b := by
  induction a generalizing before with
  | nil =>
    have hrest : lowerAfter ('\n' :: before) b = lower b := lowerAfter_of_newline [] before b
    have hnewline : '\n' ≠ capitalSigma ∧ lowerChar '\n' = ['\n'] := by decide
    rw [List.nil_append, lowerAfter, lowerAfter, if_neg hnewline.1, hnewline.2, hrest]
    rfl
  | cons c a ih =>
    rw [List.cons_append, lowerAfter, lowerAfter, casedNext_append_newline, ih, List.append_assoc]

end Casing

/-- **A newline cuts the lower case of a text** where it cuts the text. -/
theorem lower_append_newline (a b : List Char) : lower (a ++ '\n' :: b) = lower a ++ '\n' :: lower b :=
  Casing.lowerAfter_append_newline [] a b

theorem newline_not_mem_lower (h : '\n' ∉ s) : '\n' ∉ lower s :=
  mt (mem_of_mem_lower (Casing.uncased_of_isBlank (by decide))) h

/-- **A subject of one line** stands in the lower case of a text exactly if it stands in that of a line. -/
theorem infix_lower_iff_lines (hne : needle ≠ []) (h : '\n' ∉ needle) :
    needle <:+: lower s ↔ ∃ line ∈ lines s, needle <:+: lower line := by
  have hsplit : IsSplit ['\n'] s (lines s) := (isSplit_iff (by decide)).mpr rfl
  generalize lines s = ls at hsplit
  induction hsplit with
  | last => simp
  | @next line rest ls _ _ ih =>
    rw [List.singleton_append, lower_append_newline, infix_append_cons hne h]
    simp [ih]

end PipeScript.Text
