import PipeScript.Proofs.Syntax.Context
import PipeScript.Proofs.Syntax.Reading
import Mathlib.Data.Set.Subsingleton

/-!
# The texts that are scripts

A text is a script exactly if the rule for cutting texts (`Cut`) cuts it into the tokens of a
derivation (`Derivation`), and the script's program is what the derivation means. The parser goes
through the same three steps as the statement: the blank text is refused (it has no tokens, and a
derivation has some), the text is cut (`cut_iff`), and the tokens are read (`Reading.feed_start_iff`).

Main result: `parse_iff_derivation`.
-/

namespace PipeScript.Syntax

/-- Reading to the end is taking every token. -/
theorem takeAll_eq_atEnd_iff {r r' : Reading} {last : Option Lexeme} {ls : List Lexeme} :
    (∃ last', takeAll r last ls = .atEnd last' r') ↔ r.feed (ls.map (·.token)) = some r' := by
  induction ls generalizing r last with
  | nil => simp [takeAll, Reading.feed]
  | cons l ls ih =>
    simp only [takeAll, List.map_cons, Reading.feed]
    cases r.take l.token with
    | ok r₁ => exact ih
    | error _ => simp

/-- A derivation yields some tokens. -/
theorem Derivation.tokens_ne_nil (d : Derivation) : d.tokens ≠ [] := by
  intro h
  obtain ⟨body, hne, hp⟩ := d
  have hnil : Tree.blockTokens body ++ [] = Tree.blockTokens [] ++ [] := congrArg (· ++ []) h
  have hp' : Tree.BlockProper [] := trivial
  have hends : EndsBlock [] := by simp [EndsBlock]
  obtain ⟨rfl, -⟩ := Tree.blockTokens_cancel hp hp' hends hends hnil
  exact hne rfl

/-- A text that holds a token is not blank. -/
theorem Cut.not_blank {s : List Char} {ts : List Token} (h : Cut s ts) (hts : ts ≠ []) :
    Text.isBlankText s = false := by
  by_contra hb
  exact hts (h.eq_nil_of_blank (by simpa using hb))

theorem Derivation.not_blank (d : Derivation) {s : List Char} (h : Cut s d.tokens) :
    Text.isBlankText s = false :=
  h.not_blank d.tokens_ne_nil

/-- A text that is not blank parses exactly if the reader takes all of its tokens and may stop. -/
theorem parse_eq_ok_iff {s : List Char} (hb : Text.isBlankText s = false) {p : Program} :
    parse s = .ok p ↔ ∃ ts r, Cut s ts ∧ Reading.start.feed ts = some r ∧ r.program? = some p := by
  simp only [parse, hb, Bool.false_eq_true, if_false]
  constructor
  · intro h
    cases ht : takeAll .start none (lex s).lexemes with
    | atToken l e => simp [ht] at h
    | atEnd last r =>
      cases hs : (lex s).stuck with
      | some c => simp [ht, hs] at h
      | none =>
        refine ⟨_, r, cut_iff.mpr ⟨hs, rfl⟩, takeAll_eq_atEnd_iff.mp ⟨last, ht⟩, ?_⟩
        cases hp : r.program? with
        | some q => simpa [ht, hs, hp] using h
        | none => simp [ht, hs, hp] at h
  · rintro ⟨ts, r, hcut, hf, hp⟩
    obtain ⟨hs, rfl⟩ := cut_iff.mp hcut
    obtain ⟨last, ht⟩ : ∃ last, takeAll .start none (lex s).lexemes = .atEnd last r :=
      takeAll_eq_atEnd_iff.mpr hf
    simp only [ht, hs, hp]

theorem parse_of_blank {s : List Char} (hb : Text.isBlankText s = true) :
    parse s = .error ⟨.empty, none⟩ := by
  simp only [parse, hb, if_true]

/-- The parser accepts the texts that are cut into the tokens of a derivation. -/
theorem parse_iff_exists_derivation {s : List Char} {p : Program} :
    parse s = .ok p ↔ ∃ d : Derivation, Cut s d.tokens ∧ d.program = p := by
  cases hb : Text.isBlankText s with
  | true =>
    rw [parse_of_blank hb]
    simp only [reduceCtorEq, false_iff]
    rintro ⟨d, hd, -⟩
    simp [d.not_blank hd] at hb
  | false =>
    rw [parse_eq_ok_iff hb]
    constructor
    · rintro ⟨ts, r, hcut, hf, hp⟩
      obtain ⟨d, rfl, rfl⟩ := (Reading.feed_start_iff ts p).mp ⟨r, hf, hp⟩
      exact ⟨d, hcut, rfl⟩
    · rintro ⟨d, hcut, rfl⟩
      obtain ⟨r, hf, hp⟩ := Reading.feed_derivation d
      exact ⟨_, r, hcut, hf, hp⟩

/-- Reading in context gives the same programs as cutting the text first. -/
theorem parseInContext?_eq_some_iff {s : List Char} {p : Program} :
    parseInContext? s = some p ↔ parse s = .ok p := by
  cases hb : Text.isBlankText s with
  | true => simp [parseInContext?, parse_of_blank hb, hb]
  | false =>
    rw [parse_eq_ok_iff hb]
    simp only [parseInContext?, hb, Bool.false_eq_true, if_false, Option.bind_eq_some_iff,
      Reading.scan_iff]
    constructor
    · rintro ⟨r, ⟨ts, hcut, hf⟩, hp⟩
      exact ⟨ts, r, hcut, hf, hp⟩
    · rintro ⟨ts, r, hcut, hf, hp⟩
      exact ⟨r, ⟨ts, hcut, hf⟩, hp⟩

/-- **The parser accepts exactly its grammar.** A source is parsed as a program if and only if it is
cut into the tokens of a derivation that means the program. There is at most one such derivation;
looking only for the expected terminals at each place reads the same programs; and a source without
a derivation gives a parse error. -/
theorem parse_iff_derivation (source : String) :
    (∀ p, Program.parse source = .ok p ↔
      ∃ d : Derivation, Cut source.toList d.tokens ∧ d.program = p) ∧
    {d : Derivation | Cut source.toList d.tokens}.Subsingleton ∧
    (∀ p, parseInContext? source.toList = some p ↔ Program.parse source = .ok p) ∧
    ((∃ e : ParseError, Program.parse source = .error e) ↔
      ¬ ∃ d : Derivation, Cut source.toList d.tokens) := by
  refine ⟨fun p => parse_iff_exists_derivation, ?_, fun p => parseInContext?_eq_some_iff, ?_⟩
  · intro d hd d' hd'
    exact Derivation.tokens_injective (hd.unique hd')
  · constructor
    · rintro ⟨e, he⟩ ⟨d, hd⟩
      have hok : Program.parse source = .ok d.program :=
        parse_iff_exists_derivation.mpr ⟨d, hd, rfl⟩
      rw [he] at hok
      cases hok
    · intro hno
      cases hp : Program.parse source with
      | error e => exact ⟨e, rfl⟩
      | ok p =>
        obtain ⟨d, hd, -⟩ := parse_iff_exists_derivation.mp hp
        exact absurd ⟨d, hd⟩ hno

end PipeScript.Syntax
