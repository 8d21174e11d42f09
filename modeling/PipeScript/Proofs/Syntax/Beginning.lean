import PipeScript.Proofs.Syntax.Spelling

/-!
# How a text begins

What can be said of a text from its beginning alone. The token at a place depends on its own spelling
and on the one character behind it (`Leads.congr`), so the beginning of a text is cut in the same way
whatever stands behind that character.

## The model

`CutBefore u ts rest` says that a text `u` is cut into the tokens `ts` where `rest` follows it. With
nothing behind it, this is the rule for whole texts.

Main results: a cut goes on behind a beginning as it would go on by itself (`CutBefore.append`,
`CutBefore.exists_append`), and each token that `lex` finds, and the character at which it is stuck,
stands at its offset behind a beginning that is cut into the tokens found before
(`cutBefore_of_lexemes`, `cutBefore_of_stuck`).
-/

namespace PipeScript.Syntax

/-! ### One character behind a token -/

/-- **One character behind a token decides** whether it is the token there. -/
theorem Leads.congr {t : Token} {rest rest' : List Char} (h : Leads t rest)
    (hhead : rest'.head? = rest.head?) : Leads t rest' := by
  have hends : EndsWord rest' ↔ EndsWord rest := by rw [EndsWord, EndsWord, hhead]
  cases h with
  | keyword ht hr => exact .keyword ht (hends.mpr hr)
  | word ht hr hk =>
    have hr' : ∀ c ∈ rest'.head?, isWordPart c = false := hhead ▸ hr
    refine .word ht hr' ?_
    rwa [startsWithKeyword_append_iff ht hr', hends, ← startsWithKeyword_append_iff ht hr]
  | quoted hm ht => exact .quoted hm ht
  | arrow => exact .arrow
  | openBrace => exact .openBrace
  | closeBrace => exact .closeBrace

/-! ### Beginnings -/

/-- Is the text cut into the tokens where the rest follows it? -/
inductive CutBefore : List Char → List Token → List Char → Prop
  | done {rest : List Char} : CutBefore [] [] rest
  | layout {c : Char} {u rest : List Char} {ts : List Token} (hc : isLayout c = true) :
      CutBefore u ts rest → CutBefore (c :: u) ts rest
  | comment {body u rest : List Char} {ts : List Token} (hb : ∀ c ∈ body, c ≠ '\n')
      (hs : ∀ c ∈ (u ++ rest).head?, c = '\n') : CutBefore u ts rest →
      CutBefore ('#' :: (body ++ u)) ts rest
  | token {t : Token} {u rest : List Char} {ts : List Token} (ht : Leads t (u ++ rest)) :
      CutBefore u ts rest → CutBefore (t.spelling ++ u) (t :: ts) rest

namespace CutBefore

variable {u rest rest' : List Char} {ts us : List Token}

theorem head?_append_congr (u : List Char) (h : rest'.head? = rest.head?) :
    (u ++ rest').head? = (u ++ rest).head? := by
  cases u with
  | nil => exact h
  | cons c u => rfl

/-- What stands behind the next character does not matter. -/
theorem congr (h : CutBefore u ts rest) (hhead : rest'.head? = rest.head?) :
    CutBefore u ts rest' := by
  induction h with
  | done => exact .done
  | layout hc _ ih => exact .layout hc (ih hhead)
  | @comment body u rest ts hb hs _ ih =>
    exact .comment hb (head?_append_congr u hhead ▸ hs) (ih hhead)
  | @token t u rest ts ht _ ih => exact .token (ht.congr (head?_append_congr u hhead)) (ih hhead)

/-- A beginning and the rest are a whole text. -/
theorem append (h : CutBefore u ts rest) (hrest : Cut rest us) : Cut (u ++ rest) (ts ++ us) := by
  induction h with
  | done => exact hrest
  | layout hc _ ih => exact .layout hc (ih hrest)
  | comment hb hs _ ih =>
    rw [List.cons_append, List.append_assoc]
    exact .comment hb hs (ih hrest)
  | token ht _ ih =>
    rw [List.append_assoc]
    exact .token ht (ih hrest)

/-- Two beginnings, one behind the other, are a beginning. -/
theorem trans {v : List Char} (h : CutBefore u ts (v ++ rest)) (hv : CutBefore v us rest) :
    CutBefore (u ++ v) (ts ++ us) rest := by
  generalize hw : v ++ rest = w at h
  induction h with
  | done => exact hv
  | layout hc _ ih => exact .layout hc (ih hw)
  | comment hb hs _ ih =>
    rw [List.cons_append, List.append_assoc]
    exact .comment hb (by rwa [List.append_assoc, hw]) (ih hw)
  | token ht _ ih =>
    rw [List.append_assoc]
    exact .token (by rwa [List.append_assoc, hw]) (ih hw)

/-- The tokens of a beginning are the first ones that `lex` finds. -/
theorem lexFrom (h : CutBefore u ts rest) (offset : Nat) :
    ∃ ls : List Lexeme, ls.map (·.token) = ts ∧
      (Syntax.lexFrom offset 0 (u ++ rest)).lexemes =
        ls ++ (Syntax.lexFrom (offset + u.length) 0 rest).lexemes ∧
      (Syntax.lexFrom offset 0 (u ++ rest)).stuck =
        (Syntax.lexFrom (offset + u.length) 0 rest).stuck := by
  induction h generalizing offset with
  | done => exact ⟨[], rfl, rfl, rfl⟩
  | @layout c u rest ts hc _ ih =>
    rw [List.cons_append, lexFrom_layout hc, List.length_cons, Nat.add_comm u.length,
      ← Nat.add_assoc]
    exact ih _
  | @comment body u rest ts hb hs _ ih =>
    rw [List.cons_append, List.append_assoc, lexFrom_comment hb hs]
    have hlen : offset + ('#' :: (body ++ u)).length = offset + 1 + body.length + u.length := by
      simp only [List.length_cons, List.length_append]
      omega
    rw [hlen]
    exact ih _
  | @token t u rest ts ht _ ih =>
    obtain ⟨ls, rfl, hls, hstuck⟩ := ih (offset + t.spelling.length)
    rw [List.append_assoc, lexFrom_token ht, List.length_append, ← Nat.add_assoc]
    exact ⟨⟨t, offset⟩ :: ls, rfl, congrArg (_ :: ·) hls, hstuck⟩

/-- **A cut goes on behind a beginning as by itself.** -/
theorem exists_append (h : CutBefore u ts rest) (hcut : Cut (u ++ rest) us) :
    ∃ vs, us = ts ++ vs ∧ Cut rest vs := by
  obtain ⟨ls, rfl, hls, hstuck⟩ := h.lexFrom 0
  obtain ⟨hs, rfl⟩ := hcut.lexFrom 0
  refine ⟨_, ?_, cut_of_lexFrom rest (0 + u.length) (hstuck ▸ hs)⟩
  rw [hls, List.map_append]

end CutBefore

/-- A whole text is a beginning that nothing follows. -/
theorem Cut.cutBefore {s : List Char} {ts : List Token} (h : Cut s ts) : CutBefore s ts [] := by
  induction h with
  | done => exact .done
  | layout hc _ ih => exact .layout hc ih
  | comment hb hs _ ih => exact .comment hb (by simpa using hs) ih
  | token ht _ ih => exact .token (by simpa using ht) ih

/-! ### What is found, and where -/

/-- **Each token that is found stands at its offset**, behind a beginning that is cut into the tokens
before it, and the search goes on behind it. -/
theorem cutBefore_of_lexemes {s : List Char} {offset : Nat} {found later : List Lexeme} {l : Lexeme}
    (h : (lexFrom offset 0 s).lexemes = found ++ l :: later) :
    ∃ u rest, s = u ++ (l.token.spelling ++ rest) ∧ l.offset = offset + u.length ∧
      CutBefore u (found.map (·.token)) (l.token.spelling ++ rest) ∧ Leads l.token rest ∧
      (lexFrom (l.offset + l.token.spelling.length) 0 rest).lexemes = later ∧
      (lexFrom (l.offset + l.token.spelling.length) 0 rest).stuck = (lexFrom offset 0 s).stuck := by
  induction pieces s generalizing offset found with
  | done => simp [lexFrom] at h
  | @layout c s hc _ ih =>
    rw [lexFrom_layout hc] at h ⊢
    obtain ⟨u, rest, rfl, hoff, hu, hrest⟩ := ih h
    refine ⟨c :: u, rest, rfl, ?_, .layout hc hu, hrest⟩
    rw [hoff, List.length_cons]
    omega
  | @comment body s hb hs _ ih =>
    rw [lexFrom_comment hb hs] at h ⊢
    obtain ⟨u, rest, rfl, hoff, hu, hrest⟩ := ih h
    refine ⟨'#' :: (body ++ u), rest, by simp, ?_, .comment hb hs hu, hrest⟩
    rw [hoff, List.length_cons, List.length_append]
    omega
  | @token t s ht _ ih =>
    rw [lexFrom_token ht] at h ⊢
    cases found with
    | nil =>
      obtain ⟨rfl, hlater⟩ := List.cons.inj h
      exact ⟨[], s, rfl, rfl, .done, ht, hlater, rfl⟩
    | cons l' found =>
      obtain ⟨rfl, hfound⟩ := List.cons.inj h
      obtain ⟨u, rest, rfl, hoff, hu, hrest⟩ := ih hfound
      refine ⟨t.spelling ++ u, rest, by simp, ?_, .token ht hu, hrest⟩
      rw [hoff, List.length_append]
      omega
  | stuck hl hc ht => simp [lexFrom, hl, hc, ht] at h

/-- **The character at which the cut is stuck stands at its offset**, behind a beginning that is cut
into all tokens that are found. -/
theorem cutBefore_of_stuck {s : List Char} {offset n : Nat} {c : Char}
    (h : (lexFrom offset 0 s).stuck = some (c, n)) :
    ∃ u rest, s = u ++ c :: rest ∧ n = offset + u.length ∧
      CutBefore u ((lexFrom offset 0 s).lexemes.map (·.token)) (c :: rest) := by
  induction pieces s generalizing offset with
  | done => simp [lexFrom] at h
  | @layout d s hd _ ih =>
    rw [lexFrom_layout hd] at h ⊢
    obtain ⟨u, rest, rfl, hn, hu⟩ := ih h
    refine ⟨d :: u, rest, rfl, ?_, .layout hd hu⟩
    rw [hn, List.length_cons]
    omega
  | @comment body s hb hs _ ih =>
    rw [lexFrom_comment hb hs] at h ⊢
    obtain ⟨u, rest, rfl, hn, hu⟩ := ih h
    refine ⟨'#' :: (body ++ u), rest, by simp, ?_, .comment hb hs hu⟩
    rw [hn, List.length_cons, List.length_append]
    omega
  | @token t s ht _ ih =>
    rw [lexFrom_token ht] at h ⊢
    obtain ⟨u, rest, rfl, hn, hu⟩ := ih h
    refine ⟨t.spelling ++ u, rest, by simp, ?_, .token ht hu⟩
    rw [hn, List.length_append]
    omega
  | @stuck d s hl hc ht =>
    simp only [lexFrom, hl, hc, ht, Bool.false_eq_true, if_false, Option.some.injEq,
      Prod.mk.injEq] at h ⊢
    obtain ⟨rfl, rfl⟩ := h
    exact ⟨[], s, rfl, rfl, .done⟩

/-- A token of a text stands behind a beginning that is cut into the tokens before it, and the rest of
the text is cut into those after it. -/
theorem Cut.exists_cutBefore {s : List Char} {us vs : List Token} {t : Token}
    (h : Cut s (us ++ t :: vs)) : ∃ u rest, s = u ++ (t.spelling ++ rest) ∧
      CutBefore u us (t.spelling ++ rest) ∧ Leads t rest ∧ Cut rest vs := by
  obtain ⟨hs, hls⟩ := h.lexFrom 0
  obtain ⟨found, ls, heq, rfl, htail⟩ := List.map_eq_append_iff.mp hls
  obtain ⟨l, later, rfl, rfl, rfl⟩ := List.map_eq_cons_iff.mp htail
  obtain ⟨u, rest, rfl, -, hu, ht, hlater, hstuck⟩ := cutBefore_of_lexemes heq
  have hrest := cut_of_lexFrom rest _ (hstuck.trans hs)
  rw [hlater] at hrest
  exact ⟨u, rest, rfl, hu, ht, hrest⟩

end PipeScript.Syntax
