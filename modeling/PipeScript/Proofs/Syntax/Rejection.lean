import PipeScript.Proofs.Syntax.Completion

/-!
# Where syntax errors are reported

A text that is no script is rejected at the first place where no script goes on as the text does: at a
token that cannot stand there, at a character with which no token starts, or, if all tokens can stand
where they do and some are missing, at the end; the place that is then reported is the one of the last
token.

## The model

`Rejected s u f` says that the text `s` is rejected for the fault `f`, which is reported behind its
beginning `u`. Each of its rules tells what the reader had taken by then.

Main results: a parse error is one of these rejections (`rejected_of_parse`), and so what stands before
the reported place is the beginning of a script, no script begins with the token at fault, and a text
that is cut short is the beginning of a script (`parse_error_at`).
-/

namespace PipeScript.Syntax

/-- Does the last token of the text stand behind the beginning? Of a text without a token the beginning
is empty. -/
inductive BeforeLastToken : List Char → List Char → Prop
  | none {s : List Char} (h : Cut s []) : BeforeLastToken s []
  | some {u rest : List Char} {ts : List Token} {t : Token}
      (hu : CutBefore u ts (t.spelling ++ rest)) (ht : Leads t rest) (hrest : Cut rest []) :
      BeforeLastToken (u ++ (t.spelling ++ rest)) u

/-- Is the text rejected for the fault, which is reported behind the beginning? -/
inductive Rejected : List Char → List Char → Fault → Prop
  | token {u rest : List Char} {ts : List Token} {t : Token} {r : Reading} {expected : List Terminal}
      (hu : CutBefore u ts (t.spelling ++ rest)) (ht : Leads t rest)
      (hf : Reading.start.feed ts = some r) (hr : r.take t = .error expected) :
      Rejected (u ++ (t.spelling ++ rest)) u (.token (String.ofList t.spelling) expected)
  | character {u rest : List Char} {ts : List Token} {c : Char} {r : Reading}
      (hu : CutBefore u ts (c :: rest)) (hf : Reading.start.feed ts = some r) :
      Rejected (u ++ c :: rest) u (.character c)
  | cutShort {s u : List Char} {ts : List Token} {r : Reading} (hs : Cut s ts)
      (hf : Reading.start.feed ts = some r) (hu : BeforeLastToken s u) : Rejected s u .cutShort

/-! ### How the reader stops -/

/-- The reader stops at a token that cannot be taken, after it has taken all before it. -/
theorem exists_of_takeAll_atToken {r : Reading} {last : Option Lexeme} {ls : List Lexeme}
    {l : Lexeme} {expected : List Terminal} (h : takeAll r last ls = .atToken l expected) :
    ∃ found later r', ls = found ++ l :: later ∧ r.feed (found.map (·.token)) = some r' ∧
      r'.take l.token = .error expected := by
  induction ls generalizing r last with
  | nil => cases h
  | cons l' ls ih =>
    rw [takeAll] at h
    cases hr : r.take l'.token with
    | ok r₁ =>
      obtain ⟨found, later, r', rfl, hf, hr'⟩ := ih (by simpa [hr] using h)
      exact ⟨l' :: found, later, r', rfl, by simp only [List.map_cons, Reading.feed, hr, hf], hr'⟩
    | error e =>
      simp only [hr, Break.atToken.injEq] at h
      obtain ⟨rfl, rfl⟩ := h
      exact ⟨[], ls, r, rfl, rfl, hr⟩

/-- At the end, the reader knows the last token. -/
theorem last_of_takeAll {r r' : Reading} {last last' : Option Lexeme} {ls : List Lexeme}
    (h : takeAll r last ls = .atEnd last' r') :
    ls = [] ∧ last' = last ∨ ∃ found l, ls = found ++ [l] ∧ last' = some l := by
  induction ls generalizing r last with
  | nil =>
    obtain ⟨rfl, rfl⟩ := Break.atEnd.inj h
    exact .inl ⟨rfl, rfl⟩
  | cons l ls ih =>
    rw [takeAll] at h
    cases hr : r.take l.token with
    | ok r₁ =>
      rcases ih (by simpa [hr] using h) with ⟨rfl, rfl⟩ | ⟨found, l', rfl, rfl⟩
      · exact .inr ⟨[], l, rfl, rfl⟩
      · exact .inr ⟨l :: found, l', rfl, rfl⟩
    | error e => simp [hr] at h

/-- The place of an offset behind a beginning. -/
theorem ofOffset_of_length {u rest : List Char} {offset : Nat} (h : offset = 0 + u.length) :
    Text.Position.ofOffset (u ++ rest) offset = .after u := by
  rw [h, Nat.zero_add, Text.Position.ofOffset_append]

/-- The place of the last token. -/
theorem exists_beforeLastToken {s : List Char} {r : Reading} {last : Option Lexeme}
    (hs : (lex s).stuck = none) (h : takeAll .start none (lex s).lexemes = .atEnd last r) :
    ∃ u, BeforeLastToken s u ∧
      Text.Position.ofOffset s ((last.map (·.offset)).getD 0) = .after u := by
  rcases last_of_takeAll h with ⟨hnil, rfl⟩ | ⟨found, l, hls, rfl⟩
  · exact ⟨[], .none (cut_iff.mpr ⟨hs, by rw [hnil]; rfl⟩), rfl⟩
  · obtain ⟨u, rest, rfl, hoff, hu, ht, hlater, hstuck⟩ := cutBefore_of_lexemes hls
    have hrest := cut_of_lexFrom rest _ (hstuck.trans hs)
    rw [hlater] at hrest
    exact ⟨u, .some hu ht hrest, ofOffset_of_length hoff⟩

/-- **A parse error is a rejection**, and its place is the end of the beginning behind which the fault
stands. -/
theorem rejected_of_parse {s : List Char} {e : ParseError} (hb : Text.isBlankText s = false)
    (h : parse s = .error e) : ∃ u, Rejected s u e.fault ∧ e.position = some (.after u) := by
  simp only [parse, hb, Bool.false_eq_true, if_false] at h
  cases ht : takeAll .start none (lex s).lexemes with
  | atToken l expected =>
    simp only [ht, Except.error.injEq] at h
    obtain ⟨found, later, r, hls, hf, hr⟩ := exists_of_takeAll_atToken ht
    obtain ⟨u, rest, rfl, hoff, hu, hlead, -⟩ := cutBefore_of_lexemes hls
    subst h
    exact ⟨u, .token hu hlead hf hr, congrArg some (ofOffset_of_length hoff)⟩
  | atEnd last r =>
    have hf := takeAll_eq_atEnd_iff.mp ⟨last, ht⟩
    cases hs : (lex s).stuck with
    | some stuck =>
      obtain ⟨c, n⟩ := stuck
      simp only [ht, hs, Except.error.injEq] at h
      obtain ⟨u, rest, rfl, hn, hu⟩ := cutBefore_of_stuck hs
      subst h
      exact ⟨u, .character hu hf, congrArg some (ofOffset_of_length hn)⟩
    | none =>
      cases hp : r.program? with
      | some p => simp [ht, hs, hp] at h
      | none =>
        simp only [ht, hs, hp, Except.error.injEq] at h
        obtain ⟨u, hu, hplace⟩ := exists_beforeLastToken hs ht
        subst h
        exact ⟨u, .cutShort (cut_iff.mpr ⟨hs, rfl⟩) hf hu, congrArg some hplace⟩

/-! ### What stands before the place -/

theorem BeforeLastToken.exists_append {s u : List Char} (h : BeforeLastToken s u) :
    ∃ rest, s = u ++ rest := by
  cases h with
  | none _ => exact ⟨s, rfl⟩
  | some _ _ _ => exact ⟨_, rfl⟩

theorem Rejected.exists_append {s u : List Char} {f : Fault} (h : Rejected s u f) :
    ∃ rest, s = u ++ rest := by
  cases h with
  | token _ _ _ _ => exact ⟨_, rfl⟩
  | character _ _ => exact ⟨_, rfl⟩
  | cutShort _ _ hu => exact hu.exists_append

/-- **What stands before the reported place** is the beginning of a script. -/
theorem Rejected.exists_accepted {s u : List Char} {f : Fault} (h : Rejected s u f) :
    ∃ v, Accepted (u ++ v) := by
  cases h with
  | token hu _ hf _ =>
    obtain ⟨v, hv⟩ := accepted_of_feed hu hf
    exact ⟨_, hv⟩
  | character hu hf =>
    obtain ⟨v, hv⟩ := accepted_of_feed hu hf
    exact ⟨_, hv⟩
  | cutShort hs hf hu =>
    cases hu with
    | none _ =>
      have hdone : CutBefore [] [] [] := .done
      obtain ⟨v, hv⟩ := accepted_of_feed hdone rfl
      exact ⟨_, hv⟩
    | some hu _ _ =>
      obtain ⟨vs, rfl, -⟩ := hu.exists_append hs
      rw [Reading.feed_append] at hf
      obtain ⟨r', hr', -⟩ := Option.bind_eq_some_iff.mp hf
      obtain ⟨v, hv⟩ := accepted_of_feed hu hr'
      exact ⟨_, hv⟩

/-- **Syntax errors are reported at the right place.** Where a text that is not blank does not parse, the
reported line and column are those of exactly one place in it. What stands before the place is the
beginning of a script. A token at fault stands at the place, and no script begins with the text up to
its end; a character at fault stands there too. A text that is cut short is itself the beginning of a
script, with a newline behind it in case it ends in a comment, and the place is where its last token
starts, or the start of the text if it has none. -/
theorem parse_error_at {source : String} {e : ParseError}
    (hsource : Text.isBlankText source.toList = false) (h : Program.parse source = .error e) :
    ∃ before rest, source.toList = before ++ rest ∧
      (∀ u v, source.toList = u ++ v → (e.position = some (.after u) ↔ u = before)) ∧
      (∃ v, Accepted (before ++ v)) ∧
      (∀ spelling expected, e.fault = .token spelling expected →
        spelling.toList <+: rest ∧ ∀ v, ¬ Accepted (before ++ spelling.toList ++ v)) ∧
      (∀ c, e.fault = .character c → rest.head? = some c) ∧
      (e.fault = .cutShort →
        (∃ v, Accepted (source.toList ++ '\n' :: v)) ∧ BeforeLastToken source.toList before) := by
  obtain ⟨before, hrejected, hplace⟩ := rejected_of_parse hsource h
  obtain ⟨rest, hrest⟩ := hrejected.exists_append
  refine ⟨before, rest, hrest, ?_, hrejected.exists_accepted, ?_, ?_, ?_⟩
  · intro u v hu
    rw [hplace, Option.some.injEq]
    constructor
    · exact fun heq => (Text.Position.after_inj (hrest.symm.trans hu) heq).symm
    · rintro rfl
      rfl
  · intro spelling expected hfault
    generalize source.toList = s at hrest hrejected
    rw [hfault] at hrejected
    cases hrejected with
    | token hu ht hf hr =>
      rw [String.toList_ofList, ← List.append_cancel_left hrest]
      refine ⟨List.prefix_append _ _, fun v => ?_⟩
      rw [List.append_assoc]
      exact not_accepted_of_take hu ht hf hr v
  · intro c hfault
    generalize source.toList = s at hrest hrejected
    rw [hfault] at hrejected
    cases hrejected with
    | character _ _ => rw [← List.append_cancel_left hrest, List.head?_cons]
  · intro hfault
    generalize source.toList = s at hrest hrejected ⊢
    rw [hfault] at hrejected
    cases hrejected with
    | cutShort hs hf hu => exact ⟨accepted_of_feed hs.cutBefore hf, hu⟩

/-- A text in which a stage is missing before a brace, with a mark in a comment and a newline in a
string. -/
def strayBrace : String := "say # it's\n 'a\nb' -> \x7d"

/-- The column of the brace is counted from the newline inside the string before it, and no script
begins with the text up to the brace. -/
theorem parse_error_at_strayBrace :
    Text.isBlankText strayBrace.toList = false ∧
    Program.parse strayBrace =
      .error ⟨.token "\x7d" [.forEach, .word, .guard, .parallel], some ⟨3, 7⟩⟩ ∧
    ∀ v, ¬ Accepted (strayBrace.toList ++ v) := by
  have hblank : Text.isBlankText strayBrace.toList = false := by decide +kernel
  have herror : Program.parse strayBrace =
      .error ⟨.token "\x7d" [.forEach, .word, .guard, .parallel], some ⟨3, 7⟩⟩ := rfl
  obtain ⟨before, rest, -, hplace, -, htoken, -⟩ := parse_error_at hblank herror
  have hbefore : "say # it's\n 'a\nb' -> ".toList = before :=
    (hplace _ ['\x7d'] rfl).mp rfl
  refine ⟨hblank, herror, fun v => ?_⟩
  have hnone := (htoken "\x7d" _ rfl).2 v
  rwa [← hbefore] at hnone

end PipeScript.Syntax
