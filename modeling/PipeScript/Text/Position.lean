/-!
# Lines and columns

A place in a text is shown by its line and its column, both counted from 1. Only the newline ends a
line, and every other character fills one column.
-/

namespace PipeScript.Text

/-- A line and a column. -/
structure Position where
  line : Nat
  column : Nat
deriving DecidableEq, Repr

namespace Position

/-- The place where a text starts. -/
def start : Position := ⟨1, 1⟩

/-- The place after one more character. -/
def next (p : Position) (c : Char) : Position :=
  if c = '\n' then ⟨p.line + 1, 1⟩ else ⟨p.line, p.column + 1⟩

/-- The place after the characters. -/
def after (s : List Char) : Position := s.foldl next start

/-- The place of an offset into a text. -/
def ofOffset (s : List Char) (offset : Nat) : Position := after (s.take offset)

theorem ofOffset_append (s t : List Char) : ofOffset (s ++ t) s.length = after s := by
  rw [ofOffset, List.take_left]

/-- Lines are counted by their newlines. -/
theorem line_foldl (s : List Char) (p : Position) :
    (s.foldl next p).line = p.line + s.count '\n' := by
  induction s generalizing p with
  | nil => rfl
  | cons c s ih =>
    rw [List.foldl_cons, ih, List.count_cons, next]
    by_cases hc : c = '\n'
    · simp only [hc, if_true, beq_self_eq_true]
      omega
    · simp only [hc, if_false, beq_iff_eq]
      omega

/-- Within a line, columns are counted by the characters. -/
theorem column_foldl {s : List Char} (h : '\n' ∉ s) (p : Position) :
    (s.foldl next p).column = p.column + s.length := by
  induction s generalizing p with
  | nil => rfl
  | cons c s ih =>
    rw [List.mem_cons, not_or] at h
    rw [List.foldl_cons, ih h.2, next, if_neg (Ne.symm h.1), List.length_cons]
    show p.column + 1 + s.length = _
    omega

theorem eq_nil_of_foldl {s : List Char} {p : Position} (h : s.foldl next p = p) : s = [] := by
  have hline := line_foldl s p
  rw [h] at hline
  have hs : '\n' ∉ s := List.count_eq_zero.mp (by omega)
  have hcolumn := column_foldl hs p
  rw [h] at hcolumn
  exact List.eq_nil_of_length_eq_zero (by omega)

/-- **A place in a text is that of one offset**: where two beginnings of a text end at the same line and
column, they are the same. -/
theorem after_inj {s t u v : List Char} (h : s ++ u = t ++ v) (hp : after s = after t) : s = t := by
  rcases List.append_eq_append_iff.mp h with ⟨as, rfl, -⟩ | ⟨bs, rfl, -⟩
  · rw [after, after, List.foldl_append] at hp
    rw [eq_nil_of_foldl hp.symm, List.append_nil]
  · rw [after, after, List.foldl_append] at hp
    rw [eq_nil_of_foldl hp, List.append_nil]

end Position

end PipeScript.Text
