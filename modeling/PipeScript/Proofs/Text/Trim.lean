import PipeScript.Text.Blank
import Mathlib.Data.List.Basic
import Mathlib.Data.List.TakeWhile

/-!
# Trimming

Trimming takes away what stands around a text and nothing of the text itself: a text is what is left
exactly if no character of the class stands at either end of it (`stripWhere_eq_self_iff`), and then it is
what is left of any padding of it (`stripWhere_append`).
-/

namespace PipeScript.Text

variable {p : Char → Bool} {a b s : List Char}

/-- Does no character of the class stand at either end of the text? -/
def Stripped (p : Char → Bool) (s : List Char) : Prop :=
  (∀ c ∈ s.head?, p c = false) ∧ ∀ c ∈ s.getLast?, p c = false

instance (p : Char → Bool) (s : List Char) : Decidable (Stripped p s) :=
  decidable_of_iff (s.head?.all (!p ·) = true ∧ s.getLast?.all (!p ·) = true)
    (by simp [Stripped, Option.all_eq_true])

theorem dropWhile_of_head (h : ∀ c ∈ s.head?, p c = false) : s.dropWhile p = s := by
  cases s with
  | nil => rfl
  | cons c s => rw [List.dropWhile_cons_of_neg (by simp [h c rfl])]

theorem head?_dropWhile (p : Char → Bool) (s : List Char) :
    ∀ c ∈ (s.dropWhile p).head?, p c = false := by
  induction s with
  | nil => simp
  | cons d s ih =>
    by_cases hd : p d = true
    · rw [List.dropWhile_cons_of_pos hd]
      exact ih
    · rw [List.dropWhile_cons_of_neg hd]
      intro c hc
      obtain rfl : d = c := Option.some.inj hc
      exact Bool.eq_false_iff.mpr hd

/-- **What padding leaves**: trimming takes it away. -/
theorem stripWhere_append (ha : ∀ c ∈ a, p c = true) (hb : ∀ c ∈ b, p c = true)
    (hs : Stripped p s) : stripWhere p (a ++ s ++ b) = s := by
  rw [stripWhere, List.append_assoc, List.dropWhile_append_of_pos ha]
  cases hempty : s with
  | nil =>
    rw [List.nil_append, List.dropWhile_eq_nil_iff.mpr hb]
    rfl
  | cons c rest =>
    rw [← hempty]
    have hhead : (s ++ b).dropWhile p = s ++ b := by
      refine dropWhile_of_head ?_
      rw [hempty]
      exact fun d hd => hs.1 d (by rwa [hempty])
    have hlast : s.reverse.dropWhile p = s.reverse := by
      refine dropWhile_of_head ?_
      rw [List.head?_reverse]
      exact hs.2
    rw [hhead, List.reverse_append, List.dropWhile_append_of_pos (by simpa using hb), hlast,
      List.reverse_reverse]

/-- What is dropped at the end leaves a prefix of what is kept at the start. -/
theorem stripWhere_isPrefix_dropWhile (p : Char → Bool) (s : List Char) :
    stripWhere p s <+: s.dropWhile p := by
  rw [stripWhere, ← List.reverse_suffix, List.reverse_reverse]
  exact List.dropWhile_suffix p

theorem stripWhere_isInfix_self (p : Char → Bool) (s : List Char) : stripWhere p s <:+: s :=
  (stripWhere_isPrefix_dropWhile p s).isInfix.trans (List.dropWhile_suffix p).isInfix

theorem stripped_stripWhere (p : Char → Bool) (s : List Char) : Stripped p (stripWhere p s) := by
  constructor
  · intro c hc
    obtain ⟨rest, hrest⟩ := stripWhere_isPrefix_dropWhile p s
    refine head?_dropWhile p s c ?_
    rw [← hrest]
    exact List.mem_head?_append_of_mem_head? hc
  · intro c hc
    rw [stripWhere, List.getLast?_reverse] at hc
    exact head?_dropWhile p _ c hc

/-- **What is left of a text** is the text, exactly if there is nothing to take away at its ends. -/
theorem stripWhere_eq_self_iff : stripWhere p s = s ↔ Stripped p s := by
  constructor
  · intro h
    rw [← h]
    exact stripped_stripWhere p s
  · intro h
    simpa using stripWhere_append (a := []) (b := []) (by simp) (by simp) h

end PipeScript.Text
