import PipeScript.Text.Split
import Mathlib.Data.List.Infix

/-!
# What splitting comes to

A splitter may only be described by what it does: it goes from left to right, and each time it finds the
separator it ends a piece and goes on behind it.

## The model

`IsSplit` says of a text and some pieces, without a splitter, that the separator stands behind each piece
but the last one and nowhere before that. Two texts with the separator between them may be split in other
places than there, if the separator can reach over its own beginning: the pieces of `aaa` at `aa` are the
empty text and `a`, not `a` and the empty text.

A text is also cut at the characters of a class, and the empty pieces are left out. `HasWords` describes what
remains: the longest pieces without such a character, from left to right.

Main results: a text is split into exactly one list of pieces, which is the one of `splitOn`
(`isSplit_iff`); the pieces joined again are the text (`IsSplit.join_eq`), and the separator occurs in
none of them (`IsSplit.absent`). A text has exactly one list of words, which are the pieces of `splitWhere`
that are not empty (`hasWords_iff`).
-/

namespace PipeScript.Text

variable {sep s piece rest : List Char} {pieces : List (List Char)}

/-- Are these the pieces of the text, from left to right? -/
inductive IsSplit (sep : List Char) : List Char → List (List Char) → Prop
  /-- The separator does not occur. -/
  | last {s : List Char} (h : ¬ sep <:+: s) : IsSplit sep s [s]
  /-- The separator stands behind the first piece, and nowhere before that. -/
  | next {piece rest : List Char} {pieces : List (List Char)} (h : ¬ sep <:+: piece ++ sep.dropLast)
      (hrest : IsSplit sep rest pieces) : IsSplit sep (piece ++ (sep ++ rest)) (piece :: pieces)

/-! ### Splitting step by step -/

/-- What belongs to an occurrence already found is passed over. -/
theorem splitSkipping_eq (skip : Nat) (s : List Char) :
    splitSkipping sep skip s = splitOn sep (s.drop skip) := by
  induction s generalizing skip with
  | nil =>
    rw [List.drop_nil]
    cases skip <;> rfl
  | cons c s ih =>
    cases skip with
    | zero => rfl
    | succ skip =>
      rw [splitSkipping, ih, List.drop_succ_cons]

/-- At an occurrence of the separator a piece ends. -/
theorem splitOn_append (hsep : sep ≠ []) (rest : List Char) :
    splitOn sep (sep ++ rest) = [] :: splitOn sep rest := by
  obtain ⟨d, ds, rfl⟩ := List.exists_cons_of_ne_nil hsep
  have hstart : (d :: ds).isPrefixOf (d :: (ds ++ rest)) = true :=
    List.isPrefixOf_iff_prefix.mpr (List.prefix_append (d :: ds) rest)
  rw [List.cons_append, splitOn, splitSkipping, if_pos hstart, splitSkipping_eq]
  simp

/-- A character at which no occurrence begins belongs to the first piece. -/
theorem splitOn_cons {c : Char} (h : ¬ sep <+: c :: s) :
    splitOn sep (c :: s) = consFirst c (splitOn sep s) := by
  rw [splitOn, splitSkipping, if_neg (by rwa [List.isPrefixOf_iff_prefix])]
  rfl

theorem splitOn_of_absent (h : ¬ sep <:+: s) : splitOn sep s = [s] := by
  induction s with
  | nil => rfl
  | cons c s ih =>
    rw [List.infix_cons_iff, not_or] at h
    rw [splitOn_cons h.1, ih h.2]
    rfl

/-- If the separator stands behind a piece and nowhere before that, it does not begin in front of it. -/
theorem not_prefix_of_absent {c : Char} (h : ¬ sep <:+: c :: (piece ++ sep.dropLast)) :
    ¬ sep <+: c :: (piece ++ (sep ++ rest)) := by
  intro hstart
  refine h (List.IsPrefix.isInfix ?_)
  refine List.prefix_of_prefix_length_le hstart ?_ ?_
  · rw [List.cons_prefix_cons, List.prefix_append_right_inj]
    refine ⟨rfl, ?_⟩
    exact (List.dropLast_prefix sep).trans (List.prefix_append sep rest)
  · simp
    omega

theorem splitOn_append_append (hsep : sep ≠ []) (h : ¬ sep <:+: piece ++ sep.dropLast)
    (rest : List Char) : splitOn sep (piece ++ (sep ++ rest)) = piece :: splitOn sep rest := by
  induction piece with
  | nil => exact splitOn_append hsep rest
  | cons c piece ih =>
    have htail : ¬ sep <:+: piece ++ sep.dropLast := fun hi => h (List.infix_cons hi)
    rw [List.cons_append] at h ⊢
    rw [splitOn_cons (not_prefix_of_absent h), ih htail]
    rfl

namespace IsSplit

theorem cons {c : Char} (h : IsSplit sep s pieces) (hc : ¬ sep <+: c :: s) :
    IsSplit sep (c :: s) (consFirst c pieces) := by
  cases h with
  | last h =>
    refine .last ?_
    rw [List.infix_cons_iff, not_or]
    exact ⟨hc, h⟩
  | @next piece rest pieces h hrest =>
    have hnext : ¬ sep <:+: (c :: piece) ++ sep.dropLast := by
      rw [List.cons_append, List.infix_cons_iff, not_or]
      refine ⟨fun hstart => hc (hstart.trans ?_), h⟩
      rw [List.cons_prefix_cons, List.prefix_append_right_inj]
      exact ⟨rfl, (List.dropLast_prefix sep).trans (List.prefix_append sep rest)⟩
    exact .next hnext hrest

/-- What is left of a text behind what is passed over is split. -/
theorem splitSkipping (hsep : sep ≠ []) (skip : Nat) (s : List Char) :
    IsSplit sep (s.drop skip) (splitSkipping sep skip s) := by
  induction s generalizing skip with
  | nil =>
    rw [List.drop_nil, Text.splitSkipping]
    exact .last (by rwa [List.infix_nil])
  | cons c s ih =>
    cases skip with
    | succ skip => exact ih skip
    | zero =>
      rw [List.drop_zero, Text.splitSkipping]
      split
      · rename_i hstart
        obtain ⟨rest, hrest⟩ := List.isPrefixOf_iff_prefix.mp hstart
        have hdrop : s.drop (sep.length - 1) = rest := by
          obtain ⟨d, ds, rfl⟩ := List.exists_cons_of_ne_nil hsep
          obtain ⟨rfl, rfl⟩ := List.cons.inj hrest
          simp
        have hshort : ¬ sep <:+: [] ++ sep.dropLast := by
          intro hi
          have hlength := hi.length_le
          have hpos := List.length_pos_of_ne_nil hsep
          rw [List.nil_append, List.length_dropLast] at hlength
          omega
        rw [← hrest]
        exact .next hshort (hdrop ▸ ih (sep.length - 1))
      · rename_i hstart
        rw [List.isPrefixOf_iff_prefix] at hstart
        exact (ih 0).cons hstart

theorem eq_splitOn (hsep : sep ≠ []) (h : IsSplit sep s pieces) : splitOn sep s = pieces := by
  induction h with
  | last h => exact splitOn_of_absent h
  | next h _ ih => rw [splitOn_append_append hsep h, ih]

end IsSplit

/-! ### The pieces -/

/-- **A text is split into the pieces of `splitOn`** and into no others. -/
theorem isSplit_iff (hsep : sep ≠ []) : IsSplit sep s pieces ↔ splitOn sep s = pieces := by
  constructor
  · exact IsSplit.eq_splitOn hsep
  · rintro rfl
    exact IsSplit.splitSkipping hsep 0 s

namespace IsSplit

/-- **Joining the pieces** gives the text back. -/
theorem join_eq (hsep : sep ≠ []) (h : IsSplit sep s pieces) : join sep pieces = s := by
  rw [← h.eq_splitOn hsep, join_splitOn hsep]

/-- **The separator occurs in no piece.** -/
theorem absent (h : IsSplit sep s pieces) : ∀ p ∈ pieces, ¬ sep <:+: p := by
  induction h with
  | last h => simpa using h
  | @next piece rest pieces h _ ih =>
    intro p hp
    rcases List.mem_cons.mp hp with rfl | hp
    · exact fun hi => h (hi.trans (List.prefix_append p _).isInfix)
    · exact ih p hp

end IsSplit

/-- The first occurrence counts. -/
example : IsSplit "aa".toList "aaa".toList [[], ['a']] := (isSplit_iff (by decide)).mpr (by decide)

/-! ### Words -/

variable {p : Char → Bool} {word : List Char} {words : List (List Char)}

/-- Are these the longest pieces of the text without characters of the class, from left to right? -/
inductive HasWords (p : Char → Bool) : List Char → List (List Char) → Prop
  | nil : HasWords p [] []
  /-- A character of the class belongs to no word. -/
  | skip {c : Char} {s : List Char} {words : List (List Char)} (hc : p c = true) (h : HasWords p s words) :
    HasWords p (c :: s) words
  /-- A word ends at the end of the text or before a character of the class. -/
  | word {word s : List Char} {words : List (List Char)} (hne : word ≠ []) (hword : ∀ c ∈ word, p c = false)
    (hend : ∀ c ∈ s.head?, p c = true) (h : HasWords p s words) : HasWords p (word ++ s) (word :: words)

/-- The pieces that are not empty. -/
def fullPieces (p : Char → Bool) (s : List Char) : List (List Char) :=
  (splitWhere p s).filter (!·.isEmpty)

theorem fullPieces_cons {c : Char} (hc : p c = true) (s : List Char) :
    fullPieces p (c :: s) = fullPieces p s := by
  rw [fullPieces, splitWhere, if_pos hc, List.filter_cons_of_neg (by simp), fullPieces]

/-- A text without characters of the class stands in front of the first piece. -/
theorem splitWhere_append {first : List Char} {rest : List (List Char)} (hword : ∀ c ∈ word, p c = false)
    (h : splitWhere p s = first :: rest) : splitWhere p (word ++ s) = (word ++ first) :: rest := by
  induction word with
  | nil => exact h
  | cons c word ih =>
    obtain ⟨hc, hword⟩ := List.forall_mem_cons.mp hword
    rw [List.cons_append, splitWhere, if_neg (by simp [hc]), ih hword]
    rfl

theorem fullPieces_append (hne : word ≠ []) (hword : ∀ c ∈ word, p c = false)
    (hend : ∀ c ∈ s.head?, p c = true) : fullPieces p (word ++ s) = word :: fullPieces p s := by
  have hfull : (!word.isEmpty) = true := by simpa using hne
  cases s with
  | nil =>
    rw [fullPieces, splitWhere_append hword rfl, List.append_nil]
    exact List.filter_cons_of_pos hfull
  | cons c s =>
    have hc : p c = true := hend c rfl
    have hsplit : splitWhere p (c :: s) = [] :: splitWhere p s := by rw [splitWhere, if_pos hc]
    rw [fullPieces_cons hc, fullPieces, splitWhere_append hword hsplit, List.append_nil]
    exact List.filter_cons_of_pos hfull

namespace HasWords

theorem fullPieces_eq (h : HasWords p s words) : fullPieces p s = words := by
  induction h with
  | nil => rfl
  | skip hc _ ih => rw [fullPieces_cons hc, ih]
  | word hne hword hend _ ih => rw [fullPieces_append hne hword hend, ih]

/-- A character outside the class goes on with the word behind it, or is a word by itself. -/
theorem exists_cons {c : Char} (hc : p c = false) (h : HasWords p s words) :
    ∃ words, HasWords p (c :: s) words := by
  have hone : ∀ d ∈ [c], p d = false := by simpa using hc
  cases h with
  | nil => exact ⟨_, .word (List.cons_ne_nil c []) hone (by simp) .nil⟩
  | skip hd h => exact ⟨_, .word (List.cons_ne_nil c []) hone (by simpa using hd) (.skip hd h)⟩
  | @word word s words hne hword hend h =>
    have hlonger : ∀ d ∈ c :: word, p d = false := List.forall_mem_cons.mpr ⟨hc, hword⟩
    exact ⟨_, .word (List.cons_ne_nil c word) hlonger hend h⟩

/-- Each text has words. -/
theorem exists_words (p : Char → Bool) (s : List Char) : ∃ words, HasWords p s words := by
  induction s with
  | nil => exact ⟨[], .nil⟩
  | cons c s ih =>
    obtain ⟨words, h⟩ := ih
    cases hc : p c with
    | true => exact ⟨words, .skip hc h⟩
    | false => exact h.exists_cons hc

/-- **The words** have no character of the class, and none of them is empty. -/
theorem full (h : HasWords p s words) : ∀ word ∈ words, word ≠ [] ∧ ∀ c ∈ word, p c = false := by
  induction h with
  | nil => simp
  | skip _ _ ih => exact ih
  | word hne hword _ _ ih => exact List.forall_mem_cons.mpr ⟨⟨hne, hword⟩, ih⟩

end HasWords

/-- **A text has the words** that are its full pieces, and no others. -/
theorem hasWords_iff : HasWords p s words ↔ fullPieces p s = words := by
  constructor
  · exact HasWords.fullPieces_eq
  · rintro rfl
    obtain ⟨words, h⟩ := HasWords.exists_words p s
    rwa [h.fullPieces_eq]

/-- A text has no words exactly if all its characters are of the class. -/
theorem hasWords_nil_iff : HasWords p s [] ↔ ∀ c ∈ s, p c = true := by
  constructor
  · intro h
    generalize hnil : [] = words at h
    induction h with
    | nil => simp
    | skip hc _ ih => exact List.forall_mem_cons.mpr ⟨hc, ih hnil⟩
    | word => cases hnil
  · intro h
    induction s with
    | nil => exact .nil
    | cons c s ih =>
      obtain ⟨hc, hs⟩ := List.forall_mem_cons.mp h
      exact .skip hc (ih hs)

end PipeScript.Text
