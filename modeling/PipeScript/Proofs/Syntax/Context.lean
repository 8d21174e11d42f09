import PipeScript.Proofs.Syntax.Cut
import PipeScript.Proofs.Syntax.Reading

/-!
# Reading in context

Another way to cut a script is to look, at each place, only for the tokens that may follow what has
been read. This module sets it beside the cut that depends on the characters alone.

## The model

`matchAt?` looks for a token of one terminal at the start of a text, and `tokenAmong?` for one of
some terminals, in a fixed order with the keywords before words. `Reading.scan` reads a text with the
terminals that the reading so far expects.

Main result: both ways read the same (`scan_iff`). A place where one finds a token and the other a
different one would have to start with a keyword where words are expected and keywords are not, and
there is none (`keyword_expected`).
-/

namespace PipeScript.Syntax

/-! ### Tokens of some terminals -/

/-- The terminal of a keyword. -/
def keywordTerminal : Keyword → Terminal
  | .parallel => .parallel
  | .guard => .guard
  | .forEach => .forEach

/-- The terminal that a token is of. -/
def Token.terminal : Token → Terminal
  | keyword k _ => keywordTerminal k
  | word _ => .word
  | quoted _ => .quoted
  | arrow => .arrow
  | openBrace => .openBrace
  | closeBrace => .closeBrace

/-- The token of a terminal at the start of a text. -/
def matchAt? : Terminal → List Char → Option Token
  | .parallel, s => (keywordAt? s .parallel).map (.keyword .parallel ·)
  | .forEach, s => (keywordAt? s .forEach).map (.keyword .forEach ·)
  | .guard, s => (keywordAt? s .guard).map (.keyword .guard ·)
  | .word, c :: rest =>
    if isWordStart c then some (.word (c :: rest.takeWhile isWordPart)) else none
  | .quoted, c :: rest =>
    if c = '"' || c = '\'' then (quotedBody? c rest).map fun body => .quoted (c :: body) else none
  | .openBrace, '\x7b' :: _ => some .openBrace
  | .closeBrace, '\x7d' :: _ => some .closeBrace
  | .arrow, '-' :: '>' :: _ => some .arrow
  | _, _ => none

/-- The order in which terminals are tried. -/
def precedence : List Terminal :=
  [.parallel, .forEach, .guard, .word, .quoted, .openBrace, .closeBrace, .arrow]

/-- The token at the start of a text that is of one of the terminals. -/
def tokenAmong? (allowed : List Terminal) (s : List Char) : Option Token :=
  precedence.findSome? fun x => if x ∈ allowed then matchAt? x s else none

/-- Read a text, after passing over `skip` characters that belong to a token or comment already
found; at each place only the expected terminals are looked for. -/
def Reading.scan (r : Reading) : Nat → List Char → Option Reading
  | _, [] => some r
  | skip + 1, _ :: rest => r.scan skip rest
  | 0, c :: rest =>
    if isLayout c then r.scan 0 rest
    else if c = '#' then r.scan (rest.takeWhile (· != '\n')).length rest
    else
      match tokenAmong? r.expected (c :: rest) with
      | none => none
      | some t =>
        match r.take t with
        | .ok r' => r'.scan (t.spelling.length - 1) rest
        | .error _ => none

/-- The program that a text is when it is read in context. -/
def parseInContext? (s : List Char) : Option Program :=
  if Text.isBlankText s then none else (Reading.start.scan 0 s).bind Reading.program?

/-! ### The expected terminals do not matter -/

theorem leads_of_matchAt? {x : Terminal} {s : List Char} {t : Token} (h : matchAt? x s = some t)
    (hx : x = .word → ¬ StartsWithKeyword s) :
    t.terminal = x ∧ ∃ rest, s = t.spelling ++ rest ∧ Leads t rest := by
  have keyword {k : Keyword} (hk : (keywordAt? s k).map (Token.keyword k ·) = some t) :
      t.terminal = keywordTerminal k ∧ ∃ rest, s = t.spelling ++ rest ∧ Leads t rest := by
    obtain ⟨u, hu, rfl⟩ := Option.map_eq_some_iff.mp hk
    obtain ⟨rest, hs, hks, hr⟩ := keywordAt?_eq_some_iff.mp hu
    exact ⟨rfl, rest, hs, .keyword hks hr⟩
  unfold matchAt? at h
  split at h
  · exact keyword h
  · exact keyword h
  · exact keyword h
  · rename_i c rest
    have hk := hx rfl
    split at h
    · rename_i hw
      simp only [Option.some.injEq] at h
      subst h
      have ht : tokenAt? (c :: rest) = some (.word (c :: rest.takeWhile isWordPart)) := by
        simp [tokenAt?, findSome?_keywordAt?_eq_none hk, hw]
      exact ⟨rfl, leads_of_tokenAt? ht⟩
    · simp at h
  · split at h
    · rename_i c rest hq
      have hq : c = '"' ∨ c = '\'' := by simpa using hq
      obtain ⟨u, hu, rfl⟩ := Option.map_eq_some_iff.mp h
      obtain ⟨rest, rfl, ht⟩ :=
        (quotedBody?_eq_some_iff (by rcases hq with rfl | rfl <;> decide)).mp hu
      exact ⟨rfl, rest, rfl, .quoted hq ht⟩
    · simp at h
  · simp only [Option.some.injEq] at h
    subst h
    exact ⟨rfl, _, rfl, .openBrace⟩
  · simp only [Option.some.injEq] at h
    subst h
    exact ⟨rfl, _, rfl, .closeBrace⟩
  · simp only [Option.some.injEq] at h
    subst h
    exact ⟨rfl, _, rfl, .arrow⟩
  · simp at h

/-- The token that leads a text is the one of its terminal. -/
theorem matchAt?_of_leads {t : Token} {rest : List Char} (h : Leads t rest) :
    matchAt? t.terminal (t.spelling ++ rest) = some t := by
  cases h with
  | @keyword k u _ hu hr =>
    have := keywordAt?_eq_some_iff.mpr ⟨rest, rfl, hu, hr⟩
    cases k <;> simp [Token.terminal, keywordTerminal, Token.spelling, matchAt?, this]
  | word hu hr _ =>
    obtain ⟨c, cs, rfl, hc, hcs⟩ := hu
    simp [Token.terminal, Token.spelling, matchAt?, hc, takeWhile_append_of_head hcs hr]
  | @quoted mark u _ hm hu =>
    have := (quotedBody?_eq_some_iff (by rcases hm with rfl | rfl <;> decide)).mpr ⟨rest, rfl, hu⟩
    simp [Token.terminal, Token.spelling, matchAt?, hm, this]
  | arrow => rfl
  | openBrace => rfl
  | closeBrace => rfl

/-- Where words are looked for after the keywords, one found does not start with a keyword. -/
theorem not_startsWithKeyword_of_word {allowed : List Terminal} {s : List Char}
    (hk : ∀ k : Keyword, keywordTerminal k ∈ allowed) {l₁ l₂ : List Terminal}
    (hp : precedence = l₁ ++ .word :: l₂)
    (h : ∀ x ∈ l₁, (if x ∈ allowed then matchAt? x s else none) = none) :
    ¬ StartsWithKeyword s := by
  rintro ⟨k, u, rest, rfl, hu, hr⟩
  have hmem : keywordTerminal k ∈ l₁ := by
    rcases l₁ with _ | ⟨a, _ | ⟨b, _ | ⟨c, l₁⟩⟩⟩ <;> simp [precedence] at hp
    obtain ⟨rfl, rfl, rfl, -⟩ := hp
    cases k <;> simp [keywordTerminal]
  have := matchAt?_of_leads (.keyword hu hr : Leads (.keyword k u) rest)
  have hnone := h _ hmem
  rw [if_pos (hk k)] at hnone
  simp [Token.terminal, Token.spelling, hnone] at this

/-- **Only looking for some terminals finds the token that is there**, if it is of one of them,
and no other one, provided that the keywords are looked for wherever words are. -/
theorem tokenAmong?_eq_some_iff {allowed : List Terminal}
    (hk : .word ∈ allowed → ∀ k : Keyword, keywordTerminal k ∈ allowed) {s : List Char} {t : Token} :
    tokenAmong? allowed s = some t ↔ tokenAt? s = some t ∧ t.terminal ∈ allowed := by
  have sound {u : Token} (h : tokenAmong? allowed s = some u) :
      tokenAt? s = some u ∧ u.terminal ∈ allowed := by
    obtain ⟨l₁, x, l₂, hp, hx, hl⟩ := List.findSome?_eq_some_iff.mp h
    split at hx
    · rename_i hmem
      obtain ⟨rfl, rest, rfl, hlead⟩ := leads_of_matchAt? hx fun hw => by
        subst hw
        exact not_startsWithKeyword_of_word (hk hmem) hp hl
      exact ⟨tokenAt?_of_leads hlead, hmem⟩
    · simp at hx
  refine ⟨sound, ?_⟩
  rintro ⟨ht, hmem⟩
  obtain ⟨rest, rfl, hlead⟩ := leads_of_tokenAt? ht
  have hsome : (tokenAmong? allowed (t.spelling ++ rest)).isSome := by
    rw [tokenAmong?, List.findSome?_isSome_iff]
    refine ⟨t.terminal, ?_, by simp [hmem, matchAt?_of_leads hlead]⟩
    cases hlead with
    | @keyword k _ _ _ _ => cases k <;> simp [precedence, Token.terminal, keywordTerminal]
    | _ => simp [precedence, Token.terminal]
  obtain ⟨u, hu⟩ := Option.isSome_iff_exists.mp hsome
  rw [hu, ← (sound hu).1, ht]

namespace Reading

/-- Wherever a word may follow, every keyword may. -/
theorem keyword_expected {r : Reading} (h : .word ∈ r.expected) (k : Keyword) :
    keywordTerminal k ∈ r.expected := by
  obtain ⟨frames, statements, stages, progress⟩ := r
  cases progress with
  | command action arguments =>
    simp only [expected]
    split <;> cases k <;> simp [keywordTerminal]
  | conditionDue => simp [expected] at h
  | strategyDue => simp [expected] at h
  | blockDue o => simp [expected] at h
  | _ => cases k <;> simp [expected, keywordTerminal]

/-- A token that can be taken is of a terminal that was expected. -/
theorem terminal_expected {r r' : Reading} {t : Token} (h : r.take t = .ok r') :
    t.terminal ∈ r.expected := by
  obtain ⟨frames, statements, stages, progress⟩ := r
  cases t with
  | keyword k _ =>
    cases k <;> cases progress <;> simp_all [take, takeAfter, opening?, expected, Token.terminal, keywordTerminal] <;> split <;> simp
  | _ =>
    cases progress <;> simp_all [take, takeAfter, opening?, expected, Token.terminal] <;> split <;> simp_all

/-! ### The whole text -/

theorem scan_append (r : Reading) (u v : List Char) : r.scan u.length (u ++ v) = r.scan 0 v := by
  induction u with
  | nil => rfl
  | cons c u ih => exact ih

theorem scan_layout {c : Char} (hc : isLayout c = true) (r : Reading) (s : List Char) :
    r.scan 0 (c :: s) = r.scan 0 s := by
  simp [scan, hc]

theorem scan_comment {body s : List Char} (hb : ∀ c ∈ body, c ≠ '\n')
    (hs : ∀ c ∈ s.head?, c = '\n') (r : Reading) :
    r.scan 0 ('#' :: (body ++ s)) = r.scan 0 s := by
  have hl : isLayout '#' = false := by decide
  have ht : (body ++ s).takeWhile (· != '\n') = body :=
    takeWhile_append_of_head (by simpa using hb) (by simpa using hs)
  simp [scan, hl, ht, scan_append]

/-- A token is passed over and taken, whether or not it was expected. -/
theorem scan_token {t : Token} {s : List Char} (ht : Leads t s) (r : Reading) :
    r.scan 0 (t.spelling ++ s) =
      match r.take t with
      | .ok r' => r'.scan 0 s
      | .error _ => none := by
  obtain ⟨c, cs, hsp, hl, hc⟩ := ht.eq_cons_of_start
  have hamong := tokenAmong?_eq_some_iff (s := t.spelling ++ s) (t := t) r.keyword_expected
  rw [hsp, List.cons_append] at hamong ⊢
  simp only [scan, hl, hc, if_false, Bool.false_eq_true]
  cases hr : r.take t with
  | ok r' =>
    have := hamong.mpr ⟨by simpa [hsp] using tokenAt?_of_leads ht, terminal_expected hr⟩
    simp [this, hr, hsp, scan_append]
  | error e =>
    cases hu : tokenAmong? r.expected (c :: (cs ++ s)) with
    | none => rfl
    | some u =>
      have hu' := ((tokenAmong?_eq_some_iff r.keyword_expected).mp hu).1
      have htt := tokenAt?_of_leads ht
      rw [hsp, List.cons_append, hu', Option.some.injEq] at htt
      subst htt
      simp [hr]

/-- **Reading in context is reading the cut text**: the expected terminals never change which texts
can be read, nor what they build. -/
theorem scan_iff {s : List Char} {r r' : Reading} :
    r.scan 0 s = some r' ↔ ∃ ts, Cut s ts ∧ r.feed ts = some r' := by
  constructor
  · intro h
    induction pieces s generalizing r with
    | done => exact ⟨[], .done, h⟩
    | layout hc _ ih =>
      rw [scan_layout hc] at h
      obtain ⟨ts, hts, hr⟩ := ih h
      exact ⟨ts, .layout hc hts, hr⟩
    | comment hb hs _ ih =>
      rw [scan_comment hb hs] at h
      obtain ⟨ts, hts, hr⟩ := ih h
      exact ⟨ts, .comment hb hs hts, hr⟩
    | @token t _ ht _ ih =>
      rw [scan_token ht] at h
      cases hr : r.take t with
      | ok r₁ =>
        obtain ⟨ts, hts, hf⟩ := ih (by simpa [hr] using h)
        exact ⟨t :: ts, .token ht hts, by simpa [feed, hr] using hf⟩
      | error _ => simp [hr] at h
    | @stuck c s hl hc ht =>
      cases hu : tokenAmong? r.expected (c :: s) with
      | none => simp [scan, hl, hc, hu] at h
      | some u =>
        have := ((tokenAmong?_eq_some_iff r.keyword_expected).mp hu).1
        simp [ht] at this
  · rintro ⟨ts, hts, h⟩
    induction hts generalizing r with
    | done => exact h
    | layout hc _ ih => rw [scan_layout hc]; exact ih h
    | comment hb hs _ ih => rw [scan_comment hb hs]; exact ih h
    | @token t _ _ ht _ ih =>
      rw [scan_token ht]
      simp only [feed] at h
      cases hr : r.take t with
      | ok r₁ => exact ih (by simpa [hr] using h)
      | error _ => simp [hr] at h

end Reading

end PipeScript.Syntax
