import PipeScript.Syntax.Parser
import Mathlib.Data.List.Forall2
import Mathlib.Data.List.TakeWhile

/-!
# How a text is cut into tokens

The rule by which a text is cut, apart from the function that cuts it. At each place stands layout, a
comment that runs to the end of its line, or a token; which token it is depends on the characters
alone (`Leads`):

    KEYWORD : the letters of "parallel", "foreach" or "if" in any case, before no word character
    WORD    : [A-Za-z_][A-Za-z0-9_]*       as long as it can be, and no keyword
    QUOTED  : "(\\.|[^"\\])*" | '(\\.|[^'\\])*'
    "->"  "{"  "}"

Main results: `lex` cuts a text by this rule whenever the rule applies to it (`cut_iff`), so that a
text is cut in at most one way (`Cut.unique`); a text of blanks alone holds no token
(`Cut.eq_nil_of_blank`).
-/

namespace PipeScript.Syntax

/-! ### Spellings -/

/-- Is the text a spelling of the keyword? -/
def KeywordSpelling (k : Keyword) (t : List Char) : Prop :=
  List.Forall₂ (fun letter c => spells letter c = true) k.spelling.toList t

/-- Does no word character follow? -/
def EndsWord (rest : List Char) : Prop := ∀ c ∈ rest.head?, Text.isWord c = false

/-- Is the text a letter or an underscore, and then letters, digits and underscores? -/
def WordSpelling (t : List Char) : Prop :=
  ∃ c cs, t = c :: cs ∧ isWordStart c = true ∧ ∀ d ∈ cs, isWordPart d = true

/-- What follows an opening quotation mark: characters other than the mark and the backslash, pairs
of a backslash and a character other than a newline, and the closing mark. -/
inductive StringTail (mark : Char) : List Char → Prop
  | close : StringTail mark [mark]
  | escape {c : Char} {t : List Char} (hc : c ≠ '\n') :
      StringTail mark t → StringTail mark ('\\' :: c :: t)
  | plain {c : Char} {t : List Char} (hm : c ≠ mark) (hb : c ≠ '\\') :
      StringTail mark t → StringTail mark (c :: t)

/-- Does the text start with a keyword? -/
def StartsWithKeyword (s : List Char) : Prop :=
  ∃ k t rest, s = t ++ rest ∧ KeywordSpelling k t ∧ EndsWord rest

/-- Is the token the one that stands at the start of its spelling and the rest? -/
inductive Leads : Token → List Char → Prop
  | keyword {k : Keyword} {t rest : List Char} (ht : KeywordSpelling k t) (hr : EndsWord rest) :
      Leads (.keyword k t) rest
  | word {t rest : List Char} (ht : WordSpelling t)
      (hr : ∀ c ∈ rest.head?, isWordPart c = false) (hk : ¬ StartsWithKeyword (t ++ rest)) :
      Leads (.word t) rest
  | quoted {mark : Char} {t rest : List Char} (hm : mark = '"' ∨ mark = '\'')
      (ht : StringTail mark t) : Leads (.quoted (mark :: t)) rest
  | arrow {rest : List Char} : Leads .arrow rest
  | openBrace {rest : List Char} : Leads .openBrace rest
  | closeBrace {rest : List Char} : Leads .closeBrace rest

/-- Is the text cut into the tokens? -/
inductive Cut : List Char → List Token → Prop
  | done : Cut [] []
  | layout {c : Char} {s : List Char} {ts : List Token} (hc : isLayout c = true) :
      Cut s ts → Cut (c :: s) ts
  | comment {body s : List Char} {ts : List Token} (hb : ∀ c ∈ body, c ≠ '\n')
      (hs : ∀ c ∈ s.head?, c = '\n') : Cut s ts → Cut ('#' :: (body ++ s)) ts
  | token {t : Token} {s : List Char} {ts : List Token} (ht : Leads t s) :
      Cut s ts → Cut (t.spelling ++ s) (t :: ts)

/-! ### Characters that start a token -/

theorem toLower_of_not_upper {c : Char} (h : ¬ (65 ≤ c.val.toNat ∧ c.val.toNat ≤ 90)) :
    c.toLower = c := by
  have hu : ¬ (c.val ≥ 'A'.val ∧ c.val ≤ 'Z'.val) := by
    simp only [ge_iff_le, UInt32.le_iff_toNat_le]
    exact h
  exact dif_neg hu

/-- Blanks and the sign of a comment, which start no token. -/
def isPassedOver (c : Char) : Bool := Text.isBlank c || c == '#'

theorem isPassedOver_of_layout {c : Char} (h : isLayout c = true) : isPassedOver c = true := by
  simp only [isLayout, Bool.or_eq_true, beq_iff_eq] at h
  rcases h with (((rfl | rfl) | rfl) | rfl) | rfl <;> decide

/-- Letters, quotation marks and other characters that are not passed over, by number. -/
theorem not_passedOver_of_letter {c : Char}
    (h : (65 ≤ c.val.toNat ∧ c.val.toNat ≤ 127) ∨ c.val.toNat = 0x130 ∨ c.val.toNat = 0x131) :
    isPassedOver c = false := by
  have hs : c ≠ '#' := by
    rintro rfl
    revert h
    decide
  simp only [isPassedOver, Text.isBlank, Bool.or_eq_false_iff, Bool.and_eq_false_iff,
    decide_eq_false_iff_not, beq_eq_false_iff_ne, Nat.not_le]
  refine ⟨?_, hs⟩
  omega

theorem letter_of_spells {letter c : Char} (hl : 97 ≤ letter.val.toNat ∧ letter.val.toNat ≤ 122)
    (h : spells letter c = true) :
    (65 ≤ c.val.toNat ∧ c.val.toNat ≤ 127) ∨ c.val.toNat = 0x130 ∨ c.val.toNat = 0x131 := by
  simp only [spells, Bool.or_eq_true, beq_iff_eq, Bool.and_eq_true] at h
  rcases h with h | ⟨-, h⟩
  · by_cases hu : 65 ≤ c.val.toNat ∧ c.val.toNat ≤ 90
    · omega
    · rw [toLower_of_not_upper hu] at h
      subst h
      omega
  · exact .inr h

theorem isLower_iff {c : Char} : c.isLower = true ↔ 97 ≤ c.val.toNat ∧ c.val.toNat ≤ 122 := by
  show (decide (c.val ≥ 'a'.val) && decide (c.val ≤ 'z'.val)) = true ↔ _
  rw [Bool.and_eq_true, decide_eq_true_eq, decide_eq_true_eq]
  rfl

theorem isUpper_iff {c : Char} : c.isUpper = true ↔ 65 ≤ c.val.toNat ∧ c.val.toNat ≤ 90 := by
  show decide (c.val ≥ 'A'.val ∧ c.val ≤ 'Z'.val) = true ↔ _
  rw [decide_eq_true_eq]
  rfl

theorem letter_of_wordStart {c : Char} (h : isWordStart c = true) :
    65 ≤ c.val.toNat ∧ c.val.toNat ≤ 127 := by
  have hcases : (c.isUpper = true ∨ c.isLower = true) ∨ c = '_' := by
    rw [← Bool.or_eq_true, ← beq_iff_eq (b := '_'), ← Bool.or_eq_true]
    exact h
  rcases hcases with (h | h) | rfl
  · have := isUpper_iff.mp h
    omega
  · have := isLower_iff.mp h
    omega
  · decide

/-- The first letter of a keyword. -/
def firstLetter : Keyword → Char
  | .parallel => 'p'
  | .guard => 'i'
  | .forEach => 'f'

theorem KeywordSpelling.eq_cons {k : Keyword} {t : List Char} (h : KeywordSpelling k t) :
    ∃ c cs, t = c :: cs ∧ spells (firstLetter k) c = true := by
  cases k <;> (cases h with | cons hc _ => exact ⟨_, _, rfl, hc⟩)

/-- A token starts with a character that is not passed over. -/
theorem Leads.eq_cons {t : Token} {rest : List Char} (h : Leads t rest) :
    ∃ c cs, t.spelling = c :: cs ∧ isPassedOver c = false := by
  cases h with
  | @keyword k _ _ ht hr =>
    obtain ⟨c, cs, rfl, hc⟩ := ht.eq_cons
    refine ⟨c, cs, rfl, not_passedOver_of_letter (letter_of_spells ?_ hc)⟩
    cases k <;> decide
  | word ht _ _ =>
    obtain ⟨c, cs, rfl, hc, -⟩ := ht
    exact ⟨c, cs, rfl, not_passedOver_of_letter (.inl (letter_of_wordStart hc))⟩
  | quoted hm _ => rcases hm with rfl | rfl <;> exact ⟨_, _, rfl, by decide⟩
  | arrow => exact ⟨_, _, rfl, by decide⟩
  | openBrace => exact ⟨_, _, rfl, by decide⟩
  | closeBrace => exact ⟨_, _, rfl, by decide⟩

/-- A token starts with a character that is neither layout nor the sign of a comment. -/
theorem Leads.eq_cons_of_start {t : Token} {rest : List Char} (h : Leads t rest) :
    ∃ c cs, t.spelling = c :: cs ∧ isLayout c = false ∧ c ≠ '#' := by
  obtain ⟨c, cs, ht, hc⟩ := h.eq_cons
  refine ⟨c, cs, ht, ?_, ?_⟩
  · by_contra hl
    simp [isPassedOver_of_layout (by simpa using hl)] at hc
  · rintro rfl
    exact absurd hc (by decide)

/-- A text of blanks alone holds no token. -/
theorem Cut.eq_nil_of_blank {s : List Char} {ts : List Token} (h : Cut s ts)
    (hs : Text.isBlankText s = true) : ts = [] := by
  induction h with
  | done => rfl
  | layout _ _ ih =>
    simp only [Text.isBlankText, List.all_cons, Bool.and_eq_true] at hs
    exact ih hs.2
  | comment _ _ _ _ =>
    simp only [Text.isBlankText, List.all_cons, Bool.and_eq_true] at hs
    exact absurd hs.1 (by decide)
  | token ht _ _ =>
    obtain ⟨c, cs, ht', hc⟩ := ht.eq_cons
    simp only [Text.isBlankText, ht', List.cons_append, List.all_cons, Bool.and_eq_true] at hs
    simp [isPassedOver, hs.1] at hc

/-! ### The token at a place -/

theorem spelt?_eq_some_iff {letters s t : List Char} :
    spelt? letters s = some t ↔
      ∃ rest, s = t ++ rest ∧ List.Forall₂ (fun letter c => spells letter c = true) letters t := by
  induction letters generalizing s t with
  | nil =>
    simp only [spelt?, Option.some.injEq, List.forall₂_nil_left_iff]
    constructor
    · rintro rfl
      exact ⟨s, rfl, rfl⟩
    · rintro ⟨_, _, rfl⟩
      rfl
  | cons letter letters ih =>
    cases s with
    | nil =>
      simp only [spelt?, reduceCtorEq, false_iff]
      rintro ⟨rest, hs, hf⟩
      cases hf with
      | cons _ _ => simp at hs
    | cons c s =>
      simp only [spelt?]
      constructor
      · intro h
        split at h
        · rename_i hc
          obtain ⟨u, hu, rfl⟩ := Option.map_eq_some_iff.mp h
          obtain ⟨rest, rfl, hf⟩ := ih.mp hu
          exact ⟨rest, rfl, .cons hc hf⟩
        · simp at h
      · rintro ⟨rest, hs, hf⟩
        cases hf with
        | cons hc hf =>
          simp only [List.cons_append, List.cons.injEq] at hs
          obtain ⟨rfl, rfl⟩ := hs
          rw [if_pos hc, ih.mpr ⟨rest, rfl, hf⟩]
          rfl

theorem atWordEnd_iff {s : List Char} : atWordEnd s = true ↔ EndsWord s := by
  cases s <;> simp [atWordEnd, EndsWord]

theorem keywordAt?_eq_some_iff {s t : List Char} {k : Keyword} :
    keywordAt? s k = some t ↔ ∃ rest, s = t ++ rest ∧ KeywordSpelling k t ∧ EndsWord rest := by
  simp only [keywordAt?, Option.filter_eq_some_iff, spelt?_eq_some_iff, atWordEnd_iff]
  constructor
  · rintro ⟨⟨rest, rfl, hf⟩, hw⟩
    exact ⟨rest, rfl, hf, by simpa using hw⟩
  · rintro ⟨rest, rfl, hf, hw⟩
    exact ⟨⟨rest, rfl, hf⟩, by simpa using hw⟩

/-- The first letters of the keywords are told apart in every case. -/
theorem firstLetter_injective {k k' : Keyword} {c : Char} (h : spells (firstLetter k) c = true)
    (h' : spells (firstLetter k') c = true) : k = k' := by
  have key : ∀ {a b : Char}, 97 ≤ a.val.toNat ∧ a.val.toNat ≤ 122 → a ≠ b → a ≠ 'i' →
      spells a c = true → spells b c = true → False := by
    intro a b ha hab hi h h'
    simp only [spells, Bool.or_eq_true, beq_iff_eq, Bool.and_eq_true, hi, false_and,
      or_false] at h h'
    rcases h' with h' | ⟨-, h'⟩
    · exact hab (h.symm.trans h')
    · rw [toLower_of_not_upper (by omega)] at h
      subst h
      omega
  cases k <;> cases k' <;> first
    | rfl
    | exact absurd h' (fun h' => key (by decide) (by decide) (by decide) h h')
    | exact absurd h (fun h => key (by decide) (by decide) (by decide) h' h)

/-- Where the text starts with a keyword, that is the one found. -/
theorem findSome?_keywordAt? {s t rest : List Char} {k : Keyword} (hs : s = t ++ rest)
    (ht : KeywordSpelling k t) (hr : EndsWord rest) :
    ([Keyword.parallel, .forEach, .guard].findSome? fun k =>
      (keywordAt? s k).map (Token.keyword k ·)) = some (.keyword k t) := by
  have hk : keywordAt? s k = some t := keywordAt?_eq_some_iff.mpr ⟨rest, hs, ht, hr⟩
  have hne : ∀ k', k' ≠ k → keywordAt? s k' = none := by
    intro k' hne
    by_contra h
    obtain ⟨t', h'⟩ := Option.ne_none_iff_exists'.mp h
    obtain ⟨rest', hs', ht', -⟩ := keywordAt?_eq_some_iff.mp h'
    obtain ⟨c, cs, rfl, hc⟩ := ht.eq_cons
    obtain ⟨c', cs', rfl, hc'⟩ := ht'.eq_cons
    rw [hs] at hs'
    simp only [List.cons_append, List.cons.injEq] at hs'
    obtain ⟨rfl, -⟩ := hs'
    exact hne (firstLetter_injective hc' hc)
  cases k <;> simp [hk, hne]

theorem findSome?_keywordAt?_eq_none {s : List Char} (h : ¬ StartsWithKeyword s) :
    ([Keyword.parallel, .forEach, .guard].findSome? fun k =>
      (keywordAt? s k).map (Token.keyword k ·)) = none := by
  have hk : ∀ k, keywordAt? s k = none := by
    intro k
    by_contra hne
    obtain ⟨t, ht⟩ := Option.ne_none_iff_exists'.mp hne
    obtain ⟨rest, hs, hks, hr⟩ := keywordAt?_eq_some_iff.mp ht
    exact h ⟨k, t, rest, hs, hks, hr⟩
  simp [hk]

/-- A text with another first character starts with no keyword. -/
theorem not_startsWithKeyword {c : Char} {s : List Char}
    (h : ∀ k, spells (firstLetter k) c = false) : ¬ StartsWithKeyword (c :: s) := by
  rintro ⟨k, t, rest, hs, ht, -⟩
  obtain ⟨d, ds, rfl, hd⟩ := ht.eq_cons
  simp only [List.cons_append, List.cons.injEq] at hs
  obtain ⟨rfl, -⟩ := hs
  simp [h k] at hd

theorem quotedBody?_eq_some_iff {mark : Char} (hm : mark ≠ '\\') {s t : List Char} :
    quotedBody? mark s = some t ↔ ∃ rest, s = t ++ rest ∧ StringTail mark t := by
  constructor
  · intro h
    fun_induction quotedBody? mark s generalizing t with
    | case1 => simp at h
    | case2 => simp at h
    | case3 c rest hc ih =>
      obtain ⟨u, hu, rfl⟩ := Option.map_eq_some_iff.mp h
      obtain ⟨rest', rfl, ht⟩ := ih hu
      exact ⟨rest', rfl, .escape hc ht⟩
    | case4 rest _ =>
      simp only [Option.some.injEq] at h
      subst h
      exact ⟨rest, by simp, .close⟩
    | case5 => simp at h
    | case6 c rest hne hm' hb ih =>
      obtain ⟨u, hu, rfl⟩ := Option.map_eq_some_iff.mp h
      obtain ⟨rest', rfl, ht⟩ := ih hu
      exact ⟨rest', rfl, .plain hm' hb ht⟩
  · rintro ⟨rest, rfl, ht⟩
    induction ht with
    | close =>
      rw [List.singleton_append, quotedBody?.eq_3 _ _ _ (fun _ _ h _ => hm h), if_pos rfl]
    | escape hc _ ih =>
      simp only [List.cons_append, quotedBody?, hc, if_false, ih, Option.map_some]
    | plain hmk hb _ ih =>
      rw [List.cons_append, quotedBody?.eq_3 _ _ _ (fun _ _ h _ => hb h), if_neg hmk, if_neg hb,
        ih, Option.map_some]

theorem takeWhile_append_of_head {p : Char → Bool} {u v : List Char} (hu : ∀ c ∈ u, p c = true)
    (hv : ∀ c ∈ v.head?, p c = false) : (u ++ v).takeWhile p = u := by
  rw [List.takeWhile_append_of_pos hu]
  cases v with
  | nil => simp
  | cons c v => simp [hv c rfl]

/-- **The token at the start of a text** is the one that leads it. -/
theorem tokenAt?_of_leads {t : Token} {rest : List Char} (h : Leads t rest) :
    tokenAt? (t.spelling ++ rest) = some t := by
  cases h with
  | @keyword k t _ ht hr =>
    obtain ⟨c, cs, rfl, -⟩ := ht.eq_cons
    have := findSome?_keywordAt? (s := c :: (cs ++ rest)) rfl ht hr
    simp only [Token.spelling, List.cons_append, tokenAt?, this]
  | word ht hr hk =>
    obtain ⟨c, cs, rfl, hc, hcs⟩ := ht
    simp only [List.cons_append] at hk
    simp only [Token.spelling, List.cons_append, tokenAt?, findSome?_keywordAt?_eq_none hk, hc,
      if_true, takeWhile_append_of_head hcs hr]
  | @quoted mark t _ hm ht =>
    have hb : quotedBody? mark (t ++ rest) = some t :=
      (quotedBody?_eq_some_iff (by rcases hm with rfl | rfl <;> decide)).mpr ⟨rest, rfl, ht⟩
    have hk : ¬ StartsWithKeyword (mark :: (t ++ rest)) :=
      not_startsWithKeyword (by rcases hm with rfl | rfl <;> (intro k; cases k <;> decide))
    have hw : isWordStart mark = false := by rcases hm with rfl | rfl <;> decide
    simp [Token.spelling, tokenAt?, findSome?_keywordAt?_eq_none hk, hw, hm, hb]
  | arrow =>
    have hk : ¬ StartsWithKeyword ('-' :: '>' :: rest) :=
      not_startsWithKeyword (by intro k; cases k <;> decide)
    simp [Token.spelling, tokenAt?, findSome?_keywordAt?_eq_none hk, isWordStart]
  | openBrace =>
    have hk : ¬ StartsWithKeyword ('\x7b' :: rest) :=
      not_startsWithKeyword (by intro k; cases k <;> decide)
    simp [Token.spelling, tokenAt?, findSome?_keywordAt?_eq_none hk, isWordStart]
  | closeBrace =>
    have hk : ¬ StartsWithKeyword ('\x7d' :: rest) :=
      not_startsWithKeyword (by intro k; cases k <;> decide)
    simp [Token.spelling, tokenAt?, findSome?_keywordAt?_eq_none hk, isWordStart]

theorem leads_of_tokenAt? {s : List Char} {t : Token} (h : tokenAt? s = some t) :
    ∃ rest, s = t.spelling ++ rest ∧ Leads t rest := by
  cases s with
  | nil => simp [tokenAt?] at h
  | cons c s =>
    simp only [tokenAt?] at h
    split at h
    · rename_i t' hk
      simp only [Option.some.injEq] at h
      subst h
      obtain ⟨k, -, hk⟩ := List.exists_of_findSome?_eq_some hk
      obtain ⟨u, hu, rfl⟩ := Option.map_eq_some_iff.mp hk
      obtain ⟨rest, hs, hks, hr⟩ := keywordAt?_eq_some_iff.mp hu
      exact ⟨rest, hs, .keyword hks hr⟩
    · rename_i hk
      have hnk : ¬ StartsWithKeyword (c :: s) := by
        rintro ⟨k, u, rest, hs, hu, hr⟩
        rw [findSome?_keywordAt? hs hu hr] at hk
        simp at hk
      split_ifs at h with hw hq ho hc ha
      · simp only [Option.some.injEq] at h
        subst h
        have hs : c :: s = c :: s.takeWhile isWordPart ++ s.dropWhile isWordPart := by
          rw [List.cons_append, List.takeWhile_append_dropWhile]
        refine ⟨_, hs, .word ⟨c, _, rfl, hw, fun d hd => List.mem_takeWhile_imp hd⟩ ?_ (hs ▸ hnk)⟩
        intro d hd
        have := List.head?_dropWhile_not isWordPart s
        simp only [Option.mem_def] at hd
        simpa [hd] using this
      · simp only [Bool.or_eq_true, decide_eq_true_eq] at hq
        obtain ⟨u, hu, rfl⟩ := Option.map_eq_some_iff.mp h
        obtain ⟨rest, rfl, ht⟩ :=
          (quotedBody?_eq_some_iff (by rcases hq with rfl | rfl <;> decide)).mp hu
        exact ⟨rest, rfl, .quoted hq ht⟩
      · simp only [Option.some.injEq] at h
        subst h ho
        exact ⟨s, rfl, .openBrace⟩
      · simp only [Option.some.injEq] at h
        subst h hc
        exact ⟨s, rfl, .closeBrace⟩
      · simp only [Option.some.injEq] at h
        subst h
        simp only [Bool.and_eq_true, decide_eq_true_eq, beq_iff_eq] at ha
        obtain ⟨rfl, hd⟩ := ha
        obtain ⟨rest, rfl⟩ : ∃ rest, s = '>' :: rest := by
          cases s with
          | nil => simp at hd
          | cons d rest => exact ⟨rest, by simpa using hd⟩
        exact ⟨rest, rfl, .arrow⟩

/-! ### The whole text -/

theorem lexFrom_append (u v : List Char) (offset : Nat) :
    lexFrom offset u.length (u ++ v) = lexFrom (offset + u.length) 0 v := by
  induction u generalizing offset with
  | nil => rfl
  | cons c u ih =>
    rw [List.cons_append, List.length_cons, lexFrom, ih]
    congr 1
    omega

theorem lexFrom_layout {c : Char} (hc : isLayout c = true) (s : List Char) (offset : Nat) :
    lexFrom offset 0 (c :: s) = lexFrom (offset + 1) 0 s := by
  simp [lexFrom, hc]

theorem lexFrom_comment {body s : List Char} (hb : ∀ c ∈ body, c ≠ '\n')
    (hs : ∀ c ∈ s.head?, c = '\n') (offset : Nat) :
    lexFrom offset 0 ('#' :: (body ++ s)) = lexFrom (offset + 1 + body.length) 0 s := by
  have hl : isLayout '#' = false := by decide
  have ht : (body ++ s).takeWhile (· != '\n') = body :=
    takeWhile_append_of_head (by simpa using hb) (by simpa using hs)
  simp [lexFrom, hl, ht, lexFrom_append]

theorem lexFrom_token {t : Token} {rest : List Char} (h : Leads t rest) (offset : Nat) :
    lexFrom offset 0 (t.spelling ++ rest) =
      (lexFrom (offset + t.spelling.length) 0 rest).cons ⟨t, offset⟩ := by
  have ht := tokenAt?_of_leads h
  obtain ⟨c, cs, hsp, hl, hh⟩ := h.eq_cons_of_start
  rw [hsp, List.cons_append] at ht ⊢
  rw [lexFrom]
  simp only [hl, hh, ht, hsp, Bool.false_eq_true, if_false, List.length_cons, Nat.add_sub_cancel]
  rw [lexFrom_append, Nat.add_assoc, Nat.add_comm 1]

/-- The tokens of a cut text are the ones that `lex` finds. -/
theorem Cut.lexFrom {s : List Char} {ts : List Token} (h : Cut s ts) (offset : Nat) :
    (Syntax.lexFrom offset 0 s).stuck = none ∧
      (Syntax.lexFrom offset 0 s).lexemes.map (·.token) = ts := by
  induction h generalizing offset with
  | done => exact ⟨rfl, rfl⟩
  | layout hc _ ih => rw [lexFrom_layout hc]; exact ih _
  | comment hb hs _ ih => rw [lexFrom_comment hb hs]; exact ih _
  | token ht _ ih =>
    rw [lexFrom_token ht]
    obtain ⟨h₁, h₂⟩ := ih (offset + _)
    exact ⟨h₁, congrArg _ h₂⟩

/-- What a text is made of: the same pieces as in a cut, up to a place where none stands. -/
inductive Pieces : List Char → Prop
  | done : Pieces []
  | layout {c : Char} {s : List Char} (hc : isLayout c = true) : Pieces s → Pieces (c :: s)
  | comment {body s : List Char} (hb : ∀ c ∈ body, c ≠ '\n') (hs : ∀ c ∈ s.head?, c = '\n') :
      Pieces s → Pieces ('#' :: (body ++ s))
  | token {t : Token} {s : List Char} (ht : Leads t s) : Pieces s → Pieces (t.spelling ++ s)
  | stuck {c : Char} {s : List Char} (hl : isLayout c = false) (hc : c ≠ '#')
      (ht : tokenAt? (c :: s) = none) : Pieces (c :: s)

theorem pieces (s : List Char) : Pieces s := by
  -- by induction on the length, because a comment or a token is passed over as a whole
  induction hn : s.length using Nat.strongRecOn generalizing s with
  | _ n ih =>
    cases s with
    | nil => exact .done
    | cons c s =>
      by_cases hl : isLayout c = true
      · exact .layout hl (ih _ (by simp [← hn]) s rfl)
      by_cases hc : c = '#'
      · subst hc
        have hs : s.takeWhile (· != '\n') ++ s.dropWhile (· != '\n') = s :=
          List.takeWhile_append_dropWhile
        have hlt : (s.dropWhile (· != '\n')).length < n := by
          have := (List.dropWhile_sublist (l := s) (· != '\n')).length_le
          simp only [List.length_cons] at hn
          omega
        rw [← hs]
        refine .comment ?_ ?_ (ih _ hlt _ rfl)
        · intro d hd
          simpa using List.mem_takeWhile_imp hd
        · intro d hd
          have := List.head?_dropWhile_not (· != '\n') s
          simp only [Option.mem_def] at hd
          simpa [hd] using this
      · cases ht : tokenAt? (c :: s) with
        | none => exact .stuck (by simpa using hl) hc ht
        | some t =>
          obtain ⟨rest, hs, hlead⟩ := leads_of_tokenAt? ht
          obtain ⟨d, ds, hd, -⟩ := hlead.eq_cons
          rw [hs] at hn ⊢
          refine .token hlead (ih _ ?_ rest rfl)
          simp only [← hn, hd, List.length_append, List.length_cons]
          omega

theorem cut_of_lexFrom (s : List Char) (offset : Nat)
    (h : (lexFrom offset 0 s).stuck = none) :
    Cut s ((lexFrom offset 0 s).lexemes.map (·.token)) := by
  induction pieces s generalizing offset with
  | done => exact .done
  | layout hc _ ih =>
    rw [lexFrom_layout hc] at h ⊢
    exact .layout hc (ih _ h)
  | comment hb hs _ ih =>
    rw [lexFrom_comment hb hs] at h ⊢
    exact .comment hb hs (ih _ h)
  | token ht _ ih =>
    rw [lexFrom_token ht] at h ⊢
    exact .token ht (ih _ h)
  | stuck hl hc ht => simp [lexFrom, hl, hc, ht] at h

/-- **The rule and the function agree**: a text is cut into tokens exactly if `lex` finds these
tokens and nothing at which it is stuck. -/
theorem cut_iff {s : List Char} {ts : List Token} :
    Cut s ts ↔ (lex s).stuck = none ∧ (lex s).lexemes.map (·.token) = ts := by
  constructor
  · exact fun h => h.lexFrom 0
  · rintro ⟨h, rfl⟩
    exact cut_of_lexFrom s 0 h

/-- A text is cut in at most one way. -/
theorem Cut.unique {s : List Char} {ts us : List Token} (ht : Cut s ts) (hu : Cut s us) :
    ts = us :=
  (cut_iff.mp ht).2.symm.trans (cut_iff.mp hu).2

end PipeScript.Syntax
