import PipeScript.Proofs.Numeral
import PipeScript.Proofs.Text.Lines

/-!
# What fields stand for

A field stands for the value itself, for a variable, for a number in the value, or for its own name. Only
the first two can be empty: a number is never written without a digit, and a field that the value mentions
is mentioned on one of its lines, since lower case can be taken line by line.

## The model

`Condition.StandsForNothing` says without the look-up of fields when a field is empty. A field with a newline
in its name is left out: the value may mention it across two lines, and then no line does.

Main results: a field stands for the empty text exactly if it stands for nothing
(`Condition.resolve_eq_empty_iff`), so that a condition that is a bare field holds in every other case,
whether or not the value mentions it (`Condition.bare_field_iff`).
-/

namespace PipeScript

open Text

/-! ### Numbers are not empty -/

namespace Numeral

variable {s subject : List Char} {anchors : List (List Char)}

theorem firstAfter_ne_nil (minus : Bool) (s : List Char) : firstAfter minus s ≠ [] := by
  induction s generalizing minus with
  | nil => exact List.cons_ne_nil _ _
  | cons c s ih =>
    rw [firstAfter]
    split
    · exact List.append_ne_nil_of_right_ne_nil _ (List.cons_ne_nil _ _)
    · exact ih (c == '-')

theorem first_ne_nil (s : List Char) : first s ≠ [] := firstAfter_ne_nil false s

theorem anchored_ne_nil (s : List Char) (anchors : List (List Char)) : anchored s anchors ≠ [] := by
  rw [anchored]
  split
  · exact first_ne_nil _
  · exact List.cons_ne_nil _ _

/-- **A text mentions a subject of one line** exactly if one of its lines does. -/
theorem mentions_iff_lines (hne : subject ≠ []) (hline : '\n' ∉ subject) :
    mentions s subject = true ↔ ∃ line ∈ lines s, mentions line subject = true := by
  simp only [mentions_iff_occurs]
  exact infix_lower_iff_lines (lower_ne_nil hne) (newline_not_mem_lower hline)

theorem near_ne_nil (hne : subject ≠ []) (hline : '\n' ∉ subject) (h : mentions s subject = true) :
    near s subject ≠ [] := by
  rw [near]
  split
  · exact first_ne_nil _
  · rename_i hnone
    obtain ⟨line, hmem, hmentions⟩ := (mentions_iff_lines hne hline).mp h
    exact absurd hmentions (List.find?_eq_none.mp hnone line hmem)

end Numeral

/-! ### Fields -/

namespace Condition

variable {field input : String} {vars : Variables}

theorem resolve_of_namesValue (h : NamesValue field) (input : String) (vars : Variables) :
    resolve field input vars = input := by
  rw [resolve, if_pos (namesValue_iff.mpr h)]

theorem resolve_of_variable {v : Json} (h : ¬NamesValue field) (hv : vars.get? field = some v)
    (input : String) : resolve field input vars = v.display := by
  rw [resolve, if_neg (mt namesValue_iff.mp h), hv]

/-- **A field that is neither the value nor a variable** is never empty. -/
theorem resolve_ne_empty (hne : field ≠ "") (hline : '\n' ∉ field.toList) (h : ¬NamesValue field)
    (hv : vars.get? field = none) (input : String) : resolve field input vars ≠ "" := by
  have hnil : field.toList ≠ [] := by simpa using hne
  cases hanchors : anchors? field.toList with
  | some anchors =>
    rw [resolve_of_anchors hv hanchors]
    exact mt String.ofList_eq_empty_iff.mp (Numeral.anchored_ne_nil _ _)
  | none =>
    rw [resolve, if_neg (mt namesValue_iff.mp h), hv]
    simp only [hanchors]
    split_ifs with hnumeral hmentions
    · exact hne
    · exact mt String.ofList_eq_empty_iff.mp (Numeral.near_ne_nil hnil hline hmentions)
    · exact hne

/-- Is the field the value, which is empty, or a variable that prints as nothing? -/
def StandsForNothing (field input : String) (vars : Variables) : Prop :=
  NamesValue field ∧ input = "" ∨
    ¬NamesValue field ∧ ∃ v, vars.get? field = some v ∧ v.display = ""

/-- **A field stands for the empty text** exactly if it stands for nothing. -/
theorem resolve_eq_empty_iff (hne : field ≠ "") (hline : '\n' ∉ field.toList) (input : String)
    (vars : Variables) : resolve field input vars = "" ↔ StandsForNothing field input vars := by
  by_cases h : NamesValue field
  · simp [StandsForNothing, resolve_of_namesValue h, h]
  · cases hv : vars.get? field with
    | some v => simp [StandsForNothing, resolve_of_variable h hv, h, hv]
    | none => simp [StandsForNothing, resolve_ne_empty hne hline h hv, h, hv]

/-- **A bare field** is empty exactly if it stands for nothing, and a condition that is read as this field
holds in every other case. -/
theorem bare_field_iff (hne : field ≠ "") (hline : '\n' ∉ field.toList) (input : String)
    (vars : Variables) :
    (resolve field input vars = "" ↔ StandsForNothing field input vars) ∧
    ∀ text, parse text = .ok ⟨field, .notEqual, ""⟩ →
      ((parse text).map (·.evaluate input vars) = .ok true ↔ ¬StandsForNothing field input vars) := by
  have hempty := resolve_eq_empty_iff hne hline input vars
  refine ⟨hempty, fun text htext => ?_⟩
  rw [htext, ← hempty]
  show Except.ok (resolve field input vars != "") = Except.ok true ↔ _
  rw [Except.ok.injEq, bne_iff_ne]

/-- A field whose lower case depends on where its line ends holds, though there is no number on the line;
and a variable hides what the value mentions. -/
theorem bare_field_at_line_end :
    (parse "ΟΔΟΣ").map (·.evaluate "Η ΟΔΟΣ\n7 km" []) = .ok true ∧
    resolve "alert" "alert: 5" [("alert", .string "")] = "" ∧
    (parse "alert").map (·.evaluate "alert: 5" [("alert", .string "")]) ≠ .ok true := by
  have hroad := bare_field_iff (show "ΟΔΟΣ" ≠ "" by decide) (by decide) "Η ΟΔΟΣ\n7 km" []
  have halert := bare_field_iff (show "alert" ≠ "" by decide) (by decide) "alert: 5"
    [("alert", .string "")]
  have hnothing : StandsForNothing "alert" "alert: 5" [("alert", .string "")] :=
    .inr ⟨by decide, .string "", rfl, rfl⟩
  refine ⟨(hroad.2 _ rfl).mpr ?_, halert.1.mpr hnothing, fun h => (halert.2 _ rfl).mp h hnothing⟩
  rintro (⟨h, -⟩ | ⟨-, v, h, -⟩)
  · revert h
    decide
  · cases h

end Condition

end PipeScript
