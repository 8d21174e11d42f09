import PipeScript.Proofs.Syntax.Beginning
import PipeScript.Proofs.Syntax.Printing

/-!
# Layout does not matter

The same tokens may be laid out in many ways: with blanks, newlines and comments between them, whatever
the comments hold. All these texts parse as the same program, or are rejected for the same fault.

## The model

`Spacing` is what may stand between tokens, `Spelled` says which spelling a token of each kind may have,
and `LaidOut` which texts hold the tokens, with some spacing between any two of them. Whether tokens are
a script, and which fault they have if they are none, is their `verdict`, which knows of no text.

Main results: a text that lays tokens out is cut into them (`Arranged.cut`); the parser gives the verdict
on the tokens and a place (`parse_of_cut`); and so two layouts of the same tokens give the same program
or the same fault (`parse_of_layouts`).
-/

namespace PipeScript.Syntax

/-! ### Layouts of tokens -/

/-- Is the text made of layout and of comments, each of which ends in a newline? -/
inductive Spacing : List Char → Prop
  | done : Spacing []
  | layout {c : Char} {s : List Char} (hc : isLayout c = true) : Spacing s → Spacing (c :: s)
  | comment {body s : List Char} (hb : ∀ c ∈ body, c ≠ '\n') :
      Spacing s → Spacing ('#' :: (body ++ '\n' :: s))

/-- Does the text start with the first of the tokens and hold them in turn, with some spacing between
any two of them and any spacing, or none, behind the last one? -/
inductive LaidOut : List Token → List Char → Prop
  | last {t : Token} {gap : List Char} (hgap : Spacing gap) : LaidOut [t] (t.spelling ++ gap)
  | cons {t : Token} {ts : List Token} {gap rest : List Char} (hgap : Spacing gap) (hne : gap ≠ [])
      (h : LaidOut ts rest) : LaidOut (t :: ts) (t.spelling ++ (gap ++ rest))

/-- Is the text a layout of the tokens: spacing, or none, and the tokens laid out? -/
def Arranged (ts : List Token) (s : List Char) : Prop :=
  ∃ gap rest, s = gap ++ rest ∧ Spacing gap ∧ LaidOut ts rest

/-! ### Layouts are cut into their tokens -/

/-- What a spacing starts with. -/
theorem Spacing.head {gap : List Char} (h : Spacing gap) :
    ∀ c ∈ gap.head?, isLayout c = true ∨ c = '#' := by
  cases h with
  | done => simp
  | layout hc _ =>
    rintro c ⟨⟩
    exact .inl hc
  | comment _ _ =>
    rintro c ⟨⟩
    exact .inr rfl

/-- Spacing in front of a text adds no token. -/
theorem Spacing.cut_append {gap rest : List Char} {ts : List Token} (h : Spacing gap)
    (hrest : Cut rest ts) : Cut (gap ++ rest) ts := by
  induction h with
  | done => exact hrest
  | layout hc _ ih => exact .layout hc ih
  | @comment body s hb _ ih =>
    rw [List.cons_append, List.append_assoc, List.cons_append]
    have hnewline : ∀ c ∈ ('\n' :: (s ++ rest)).head?, c = '\n' := by
      rintro c ⟨⟩
      rfl
    exact .comment hb hnewline (.layout rfl ih)

theorem LaidOut.cut {ts : List Token} {s : List Char} (h : LaidOut ts s)
    (hts : ∀ t ∈ ts, Spelled t) : Cut s ts := by
  induction h with
  | @last t gap hgap =>
    have hcut : Cut gap [] := by simpa using hgap.cut_append .done
    exact .token ((hts t (List.mem_singleton_self t)).leads hgap.head) hcut
  | @cons t ts gap rest hgap hne _ ih =>
    obtain ⟨ht, hts⟩ := List.forall_mem_cons.mp hts
    refine .token (ht.leads ?_) (hgap.cut_append (ih hts))
    rw [List.head?_append_of_ne_nil _ hne]
    exact hgap.head

/-- **A layout of tokens is cut into these tokens**, whatever its comments hold. -/
theorem Arranged.cut {ts : List Token} {s : List Char} (h : Arranged ts s)
    (hts : ∀ t ∈ ts, Spelled t) : Cut s ts := by
  obtain ⟨gap, rest, rfl, hgap, hrest⟩ := h
  exact hgap.cut_append (hrest.cut hts)

theorem Arranged.ne_nil {ts : List Token} {s : List Char} (h : Arranged ts s) : ts ≠ [] := by
  obtain ⟨gap, rest, -, -, hrest⟩ := h
  cases hrest <;> simp

/-! ### The verdict on tokens -/

/-- What the reader says where no token is left. -/
def Reading.finish (r : Reading) : Except Fault Program :=
  match r.program? with
  | some p => .ok p
  | none => .error .cutShort

/-- What the reader says of the tokens: the program that they are, or the fault for which they are
none. -/
def Reading.verdict (r : Reading) : List Token → Except Fault Program
  | [] => r.finish
  | t :: ts =>
    match r.take t with
    | .ok r' => r'.verdict ts
    | .error expected => .error (.token (String.ofList t.spelling) expected)

/-- What a break in the reading says of the tokens. -/
def Break.verdict : Break → Except Fault Program
  | .atToken l expected => .error (.token (String.ofList l.token.spelling) expected)
  | .atEnd _ r => r.finish

theorem verdict_takeAll (r : Reading) (last : Option Lexeme) (ls : List Lexeme) :
    (takeAll r last ls).verdict = r.verdict (ls.map (·.token)) := by
  induction ls generalizing r last with
  | nil => rfl
  | cons l ls ih =>
    rw [takeAll, List.map_cons, Reading.verdict]
    cases r.take l.token with
    | ok r' => exact ih r' (some l)
    | error expected => rfl

/-- **The parser gives the verdict on the tokens**, with a place where they have a fault. -/
theorem parse_of_cut {s : List Char} {ts : List Token} (h : Cut s ts) (hts : ts ≠ []) :
    ∃ place, parse s = (Reading.start.verdict ts).mapError (⟨·, some place⟩) := by
  have hblank := h.not_blank hts
  obtain ⟨hstuck, rfl⟩ := cut_iff.mp h
  simp only [parse, hblank, Bool.false_eq_true, if_false, hstuck, ← verdict_takeAll _ none]
  cases takeAll .start none (lex s).lexemes with
  | atToken l expected => exact ⟨_, rfl⟩
  | atEnd last r =>
    simp only [Break.verdict, Reading.finish]
    cases r.program? with
    | some p => exact ⟨.start, rfl⟩
    | none => exact ⟨_, rfl⟩

/-! ### Two layouts of the same tokens -/

/-- A message with its place in front. -/
def placed (place : Text.Position) (message : String) : String :=
  s!"line {place.line}, col {place.column}: {message}"

/-- **Layout does not matter.** Two layouts of the same tokens both parse as the same program, or both
are rejected for the same fault, at the same token and in the same words, with the place in front. -/
theorem parse_of_layouts {ts : List Token} {source source' : String}
    (hts : ∀ t ∈ ts, Spelled t) (h : Arranged ts source.toList) (h' : Arranged ts source'.toList) :
    (∃ p, Program.parse source = .ok p ∧ Program.parse source' = .ok p) ∨
    ∃ e e' : ParseError, Program.parse source = .error e ∧ Program.parse source' = .error e' ∧
      e.fault = e'.fault ∧ ∃ place place',
        e.message = placed place e.fault.message ∧ e'.message = placed place' e.fault.message := by
  -- both texts are cut into the same tokens, so there is one verdict and two places
  obtain ⟨place, hparse⟩ := parse_of_cut (h.cut hts) h.ne_nil
  obtain ⟨place', hparse'⟩ := parse_of_cut (h'.cut hts) h.ne_nil
  rw [Program.parse, Program.parse, hparse, hparse']
  cases Reading.start.verdict ts with
  | ok p => exact .inl ⟨p, rfl, rfl⟩
  | error fault => exact .inr ⟨_, _, rfl, rfl, rfl, place, place', rfl, rfl⟩

/-- The tokens of a script with a keyword in capitals and a string that holds the sign of a comment. -/
def sayIf : List Token :=
  [.keyword .guard ['I', 'F'], .quoted ['"', 'x', '"'], .openBrace, .word ['S', 'a', 'y'],
    .quoted ['\'', '#', '\''], .closeBrace]

theorem spelled_sayIf : ∀ t ∈ sayIf, Spelled t := by
  have hword : WordSpelling ['S', 'a', 'y'] := ⟨'S', ['a', 'y'], rfl, rfl, by simp [isWordPart]⟩
  have hkey : ∀ k, ¬ KeywordSpelling k ['S', 'a', 'y'] := by
    intro k hk
    obtain ⟨c, cs, heq, hc⟩ := hk.eq_cons
    obtain ⟨rfl, -⟩ := List.cons.inj heq
    cases k <;> cases hc
  simp only [sayIf, List.forall_mem_cons]
  refine ⟨.keyword (.cons rfl (.cons rfl .nil)), ?_, .openBrace, .word hword hkey,
    ?_, .closeBrace, by simp⟩
  · exact .quoted (.inl rfl) (.plain (by simp) (by simp) .close)
  · exact .quoted (.inr rfl) (.plain (by simp) (by simp) .close)

theorem arranged_sayIf : Arranged sayIf "IF \"x\" \x7b Say '#' \x7d".toList := by
  have hspace : Spacing [' '] := .layout rfl .done
  refine ⟨[], _, rfl, .done, .cons hspace (by simp) ?_⟩
  refine .cons hspace (by simp) (.cons hspace (by simp) (.cons hspace (by simp) ?_))
  exact .cons hspace (by simp) (.last .done)

theorem arranged_sayIf_comments :
    Arranged sayIf "# \"\nIF\n\"x\"# \x7d ->\n\x7b\tSay#'\n'#'\r\x7d".toList := by
  have line (body : List Char) (hb : ∀ c ∈ body, c ≠ '\n') : Spacing ('#' :: (body ++ ['\n'])) :=
    .comment hb .done
  have blank (c : Char) (hc : isLayout c = true) : Spacing [c] := .layout hc .done
  refine ⟨_, _, rfl, line [' ', '"'] (by simp), .cons (blank '\n' rfl) (by simp) ?_⟩
  refine .cons (line [' ', '\x7d', ' ', '-', '>'] (by simp)) (by simp) ?_
  refine .cons (blank '\t' rfl) (by simp) (.cons (line ['\''] (by simp)) (by simp) ?_)
  exact .cons (blank '\r' rfl) (by simp) (.last .done)

/-- A mark, a brace and an arrow in comments change nothing. -/
theorem parse_of_layouts_sayIf :
    (∀ t ∈ sayIf, Spelled t) ∧ Arranged sayIf "IF \"x\" \x7b Say '#' \x7d".toList ∧
    Arranged sayIf "# \"\nIF\n\"x\"# \x7d ->\n\x7b\tSay#'\n'#'\r\x7d".toList ∧
    Program.parse "# \"\nIF\n\"x\"# \x7d ->\n\x7b\tSay#'\n'#'\r\x7d" =
      Program.parse "IF \"x\" \x7b Say '#' \x7d" := by
  refine ⟨spelled_sayIf, arranged_sayIf, arranged_sayIf_comments, ?_⟩
  rcases parse_of_layouts spelled_sayIf arranged_sayIf arranged_sayIf_comments with
    ⟨p, hp, hp'⟩ | ⟨e, _, he, -⟩
  · rw [hp, hp']
  · have hok : Program.parse "IF \"x\" \x7b Say '#' \x7d" =
        .ok ⟨[[.guarded "x" [[.command "say" "#" ""]]]]⟩ := rfl
    rw [hok] at he
    cases he

end PipeScript.Syntax
