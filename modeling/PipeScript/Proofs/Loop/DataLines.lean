import PipeScript.Loop
import Mathlib.Data.List.Basic
import Mathlib.Data.List.TakeWhile

/-!
# Lines that carry data

The line strategy is meant to pass over what only lays a page out: blank lines, rules, headings, and of a
table its separator row and a head that numbers the rows. It tells the rows of a table by their first two or
three characters, so a row of data may begin like a separator or like a head.

## The model

What is layout is said of the row as a whole: a separator row has no other characters than bars, dashes,
colons and spaces, a head that numbers the rows has `#` as its first cell (`isSeparatorRow`,
`isNumberedHead`). All other lines that are not blank, a rule or a heading are the data (`dataLines`).

Main result: the items are the data but for the rows of data whose first cell begins like a rule or a heading,
and beside it the layout whose first cell does not; so they are the data exactly if there is no row of either
kind (`itemsOf_line_iff`).
-/

namespace PipeScript.Loop

open Text

variable {line : List Char}

/-! ### Rows of a table -/

/-- Is the line a row of a table? -/
def isRow (line : List Char) : Bool := startsWith "|" line

theorem isRow_cons (c : Char) (rest : List Char) : isRow (c :: rest) = ('|' == c) :=
  Bool.and_true _

/-- The text between the first bar of a row and the next one. -/
def firstCell (line : List Char) : List Char := (line.drop 1).takeWhile (· != '|')

/-- Is this a row of bars, dashes, colons and spaces? -/
def isSeparatorRow (line : List Char) : Bool := isRow line && line.all (· ∈ ['|', '-', ':', ' '])

/-- Is this the head of a table with numbered rows? -/
def isNumberedHead (line : List Char) : Bool := isRow line && trim (firstCell line) == ['#']

/-- Does the cell begin like a rule, or like a heading or a dash behind a space? -/
def beginsLikeRule (cell : List Char) : Bool :=
  startsWith "--" cell || startsWith " #" cell || startsWith " -" cell

/-- The beginning of a text is told from as much of it as has the characters of the beginning. -/
theorem isPrefixOf_takeWhile {p : Char → Bool} {start : List Char} (h : ∀ c ∈ start, p c = true)
    (s : List Char) : start.isPrefixOf (s.takeWhile p) = start.isPrefixOf s := by
  induction start generalizing s with
  | nil => simp
  | cons c start ih =>
    obtain ⟨hc, hstart⟩ := List.forall_mem_cons.mp h
    cases s with
    | nil => rfl
    | cons d s =>
      by_cases hd : p d = true
      · rw [List.takeWhile_cons_of_pos hd, List.isPrefixOf_cons_cons, List.isPrefixOf_cons_cons, ih hstart]
      · have hcd : (c == d) = false := by
          rw [beq_eq_false_iff_ne]
          rintro rfl
          exact hd hc
        rw [List.takeWhile_cons_of_neg hd, List.isPrefixOf_cons_cons, hcd, Bool.false_and]
        rfl

/-- What a line begins with is a bar, and what its first cell begins with. -/
theorem startsWith_bar (row start : String) (hrow : row.toList = '|' :: start.toList)
    (h : ∀ c ∈ start.toList, (c != '|') = true) (line : List Char) :
    startsWith row line = (isRow line && startsWith start (firstCell line)) := by
  cases line with
  | nil => simp [startsWith, isRow, hrow]
  | cons c rest =>
    have hcell : firstCell (c :: rest) = rest.takeWhile (· != '|') := rfl
    rw [startsWith, startsWith, hcell, hrow, isPrefixOf_takeWhile h, List.isPrefixOf_cons_cons, isRow_cons]

/-! ### Data -/

/-- The lines of a value without blanks around them. -/
def trimmedLines (input : String) : List (List Char) := (lines input.toList).map trim

/-- Is the line neither blank nor a rule, a heading, a separator row or a numbered head? -/
def isDataLine (line : List Char) : Bool :=
  !(line.isEmpty || line == "---".toList || startsWith "#" line || isSeparatorRow line || isNumberedHead line)

/-- The lines of a value that carry data. -/
def dataLines (input : String) : List String :=
  ((trimmedLines input).filter isDataLine).map String.ofList

/-- Is this a row of data that is taken for layout? -/
def isLost (line : List Char) : Bool := isDataLine line && isRow line && beginsLikeRule (firstCell line)

/-- Is this a separator row or a numbered head that is taken for data? -/
def isSpared (line : List Char) : Bool :=
  (isSeparatorRow line || isNumberedHead line) && !beginsLikeRule (firstCell line)

/-- A row is not blank, and neither a rule nor a heading. -/
theorem plain_of_isRow (h : isRow line = true) :
    (line.isEmpty || line == "---".toList || startsWith "#" line) = false := by
  cases line with
  | nil => cases h
  | cons c rest =>
    rw [isRow_cons, beq_iff_eq] at h
    subst h
    rfl

/-- A row is kept or not by the beginning of its first cell. -/
theorem keepsLine_of_isRow (h : isRow line = true) : keepsLine line = !beginsLikeRule (firstCell line) := by
  rw [keepsLine, plain_of_isRow h, startsWith_bar "|--" "--" rfl (by simp),
    startsWith_bar "| #" " #" rfl (by simp), startsWith_bar "| -" " -" rfl (by simp), h]
  rfl

/-- Any other line is kept exactly if it is data. -/
theorem keepsLine_of_not_isRow (h : isRow line = false) : keepsLine line = isDataLine line := by
  rw [keepsLine, startsWith_bar "|--" "--" rfl (by simp),
    startsWith_bar "| #" " #" rfl (by simp), startsWith_bar "| -" " -" rfl (by simp),
    isDataLine, isSeparatorRow, isNumberedHead, h]
  simp only [Bool.false_and, Bool.or_false]

/-- What the line strategy keeps are the data, without what is lost and with what is spared. -/
theorem keepsLine_eq (line : List Char) :
    keepsLine line = (isDataLine line && !isLost line || isSpared line) := by
  cases hrow : isRow line with
  | false =>
    rw [keepsLine_of_not_isRow hrow, isLost, isSpared, isSeparatorRow, isNumberedHead, hrow]
    simp
  | true =>
    have hdata : isDataLine line = !(isSeparatorRow line || isNumberedHead line) := by
      rw [isDataLine, plain_of_isRow hrow, Bool.false_or]
    rw [keepsLine_of_isRow hrow, isLost, isSpared, hdata, hrow]
    cases isSeparatorRow line || isNumberedHead line <;> cases beginsLikeRule (firstCell line) <;> rfl

/-- A line is kept exactly as a line of data, unless it is lost or spared. -/
theorem keepsLine_eq_isDataLine_iff (line : List Char) :
    keepsLine line = isDataLine line ↔ isLost line = false ∧ isSpared line = false := by
  have hlost : isLost line = true → isDataLine line = true := by
    intro h
    simp only [isLost, Bool.and_eq_true] at h
    exact h.1.1
  have hspared : isSpared line = true → isDataLine line = false := by
    intro h
    simp only [isSpared, Bool.and_eq_true] at h
    rw [isDataLine, Bool.or_assoc, h.1, Bool.or_true, Bool.not_true]
  have hcases : ∀ data lost spared : Bool,
      (lost = true → data = true) → (spared = true → data = false) →
      ((data && !lost || spared) = data ↔ lost = false ∧ spared = false) := by
    decide
  rw [keepsLine_eq]
  exact hcases _ _ _ hlost hspared

/-! ### Items -/

/-- Two selections of one list are equal exactly if they select the same elements. -/
theorem filter_eq_filter_iff {α : Type} {p q : α → Bool} {xs : List α} :
    xs.filter p = xs.filter q ↔ ∀ x ∈ xs, p x = q x := by
  refine ⟨fun h x hx => ?_, List.filter_congr⟩
  have hmem : x ∈ xs.filter p ↔ x ∈ xs.filter q := by rw [h]
  rw [List.mem_filter, List.mem_filter, and_iff_right hx, and_iff_right hx] at hmem
  exact Bool.eq_iff_iff.mpr hmem

/-- **The items of the line strategy** are the lines of data, without the rows of data whose first cell
begins like a rule and with the layout whose first cell does not. So they are the lines of data exactly if
the value has no line of either kind. -/
theorem itemsOf_line_iff (input : String) :
    (itemsOf input "line" = ((trimmedLines input).filter fun line =>
      isDataLine line && !isLost line || isSpared line).map String.ofList) ∧
    (itemsOf input "line" = dataLines input ↔
      ∀ line ∈ trimmedLines input, isLost line = false ∧ isSpared line = false) := by
  have hitems : itemsOf input "line" = ((trimmedLines input).filter keepsLine).map String.ofList := rfl
  have hinj : Function.Injective (List.map String.ofList) :=
    List.map_injective_iff.mpr fun _ _ h => String.ofList_inj.mp h
  constructor
  · rw [hitems, funext keepsLine_eq]
  · rw [hitems, dataLines, hinj.eq_iff, filter_eq_filter_iff]
    simp only [keepsLine_eq_isDataLine_iff]

/-- **A row of data with a negative number** in its first cell is lost. -/
theorem itemsOf_line_negative :
    itemsOf "| -5 | cold |" "line" = [] ∧ dataLines "| -5 | cold |" = ["| -5 | cold |"] := by
  decide +kernel

end PipeScript.Loop
