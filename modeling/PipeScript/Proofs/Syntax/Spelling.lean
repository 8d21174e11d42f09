import PipeScript.Proofs.Syntax.Cut

/-!
# How tokens are spelled

A word is made of ASCII letters, digits and underscores, and in lower case it is the name of a command.
A keyword is written in any letter case, and its letter `i` also as `İ` or `ı`. A word goes on as far as
ASCII goes; a keyword must end before every word character, of whatever alphabet.

Main results: a word starts with a keyword only as a whole (`startsWithKeyword_append_iff`); put in lower
case, a word is a name (`WordSpelling.isName`), and it is a keyword exactly if it is spelled like the
keyword (`WordSpelling.lower_eq_iff`); a spelled token is kept apart from what follows by layout and by
comments (`Spelled.leads`).
-/

namespace PipeScript

namespace Stage

/-- Is the text a lower-case letter or underscore, and then lower-case letters, digits and
underscores? -/
def IsName (action : String) : Prop :=
  ∃ c cs, action.toList = c :: cs ∧ (c = '_' ∨ c.isLower) ∧
    ∀ d ∈ cs, d = '_' ∨ d.isLower ∨ d.isDigit

theorem isAction_iff {action : String} :
    IsAction action ↔ IsName action ∧ ∀ k : Keyword, action ≠ k.spelling :=
  Iff.rfl

end Stage

namespace Syntax

/-! ### Characters of words -/

theorem isAlpha_eq (c : Char) : c.isAlpha = (c.isUpper || c.isLower) := rfl

/-- Words are spelled in ASCII. -/
theorem lt_of_isWordPart {c : Char} (h : isWordPart c = true) : c.val.toNat < 128 := by
  simp only [isWordPart, Char.isAlphanum, isAlpha_eq, Bool.or_eq_true, isUpper_iff, isLower_iff,
    Char.isDigit, Bool.and_eq_true, decide_eq_true_eq, beq_iff_eq, ge_iff_le,
    UInt32.le_iff_toNat_le] at h
  rcases h with ((h | h) | h) | rfl
  · omega
  · omega
  · have h57 : '9'.val.toNat = 57 := rfl
    omega
  · decide

theorem isWord_of_isWordPart {c : Char} (h : isWordPart c = true) : Text.isWord c = true := by
  have hn := lt_of_isWordPart h
  rw [isWordPart, Bool.or_comm] at h
  simp only [Text.isWord, Text.isAlphanumeric, hn, if_true, h]

/-- Before a character that no word holds, a word cannot go on. -/
theorem EndsWord.isWordPart {rest : List Char} (h : EndsWord rest) :
    ∀ c ∈ rest.head?, isWordPart c = false := by
  intro c hc
  by_contra hpart
  have hword := isWord_of_isWordPart (by simpa using hpart)
  rw [h c hc] at hword
  cases hword

theorem WordSpelling.isWordPart {t : List Char} (h : WordSpelling t) :
    ∀ c ∈ t, isWordPart c = true := by
  obtain ⟨c, cs, rfl, hc, hcs⟩ := h
  refine List.forall_mem_cons.mpr ⟨?_, hcs⟩
  rw [isWordStart, Bool.or_eq_true] at hc
  rcases hc with hc | hc <;> simp [Syntax.isWordPart, Char.isAlphanum, hc]

theorem isAlpha_of_isLower {c : Char} (h : c.isLower = true) : c.isAlpha = true := by
  rw [isAlpha_eq, h, Bool.or_true]

theorem isWordPart_of_toLower {c : Char} (h : c.toLower.isLower = true) : isWordPart c = true := by
  have halpha : c.isAlpha = true := by
    by_cases hu : 65 ≤ c.val.toNat ∧ c.val.toNat ≤ 90
    · rw [isAlpha_eq, isUpper_iff.mpr hu, Bool.true_or]
    · rw [toLower_of_not_upper hu] at h
      exact isAlpha_of_isLower h
  simp [isWordPart, Char.isAlphanum, halpha]

/-! ### Characters of names -/

/-- May the character stand in a command's name? -/
def IsNamePart (c : Char) : Prop := c = '_' ∨ c.isLower = true ∨ c.isDigit = true

theorem isNamePart_iff {c : Char} : IsNamePart c ↔ c.val.toNat = 95 ∨
    (97 ≤ c.val.toNat ∧ c.val.toNat ≤ 122) ∨ (48 ≤ c.val.toNat ∧ c.val.toNat ≤ 57) := by
  have heq : c = '_' ↔ c.val.toNat = 95 := by
    rw [← Char.val_inj, ← UInt32.toNat_inj]
    rfl
  have hdig : c.isDigit = true ↔ 48 ≤ c.val.toNat ∧ c.val.toNat ≤ 57 := by
    simp only [Char.isDigit, Bool.and_eq_true, decide_eq_true_eq, ge_iff_le,
      UInt32.le_iff_toNat_le]
    rfl
  rw [IsNamePart, heq, isLower_iff, hdig]

theorem IsNamePart.toLower {c : Char} (h : IsNamePart c) : c.toLower = c := by
  rw [isNamePart_iff] at h
  exact toLower_of_not_upper (by omega)

theorem IsNamePart.isWordPart {c : Char} (h : IsNamePart c) : isWordPart c = true := by
  rcases h with rfl | h | h
  · decide
  · simp [Syntax.isWordPart, Char.isAlphanum, isAlpha_of_isLower h]
  · simp [Syntax.isWordPart, Char.isAlphanum, h]

theorem isLower_toLower {c : Char} (h : c.isAlpha = true) : c.toLower.isLower = true := by
  by_cases hu : c.isUpper = true
  · have hrange := isUpper_iff.mp hu
    have hval : c.toLower.val = c.val + 32 := by
      have hcond : c.val ≥ 'A'.val ∧ c.val ≤ 'Z'.val := by
        simp only [ge_iff_le, UInt32.le_iff_toNat_le]
        exact hrange
      have hlower : c.toLower = ⟨c.val + 32, _⟩ := dif_pos hcond
      rw [hlower]
    rw [isLower_iff, hval, UInt32.toNat_add]
    have h32 : (32 : UInt32).toNat = 32 := rfl
    omega
  · rw [toLower_of_not_upper (fun hrange => hu (isUpper_iff.mpr hrange))]
    simpa [isAlpha_eq, hu] using h

theorem isNamePart_toLower {c : Char} (h : isWordPart c = true) : IsNamePart c.toLower := by
  simp only [isWordPart, Char.isAlphanum, Bool.or_eq_true, beq_iff_eq] at h
  rcases h with (h | h) | rfl
  · exact .inr (.inl (isLower_toLower h))
  · have hname : IsNamePart c := .inr (.inr h)
    rwa [hname.toLower]
  · exact .inl rfl

/-! ### Words and names -/

/-- In a word, the letters are put in lower case one by one. -/
theorem lowerAfter_of_isWordPart {t : List Char} (h : ∀ c ∈ t, isWordPart c = true)
    (before : List Char) : Text.Casing.lowerAfter before t = t.map Char.toLower := by
  induction t generalizing before with
  | nil => rfl
  | cons c t ih =>
    obtain ⟨hc, ht⟩ := List.forall_mem_cons.mp h
    have hlt := lt_of_isWordPart hc
    have hne : c ≠ Text.Casing.capitalSigma := by
      rintro rfl
      exact absurd hlt (by decide)
    simp only [Text.Casing.lowerAfter, hne, if_false, Text.Casing.lowerChar, hlt, if_true, ih ht]
    rfl

theorem WordSpelling.lower {t : List Char} (h : WordSpelling t) :
    Text.lower t = t.map Char.toLower := by
  rw [Text.lower, lowerAfter_of_isWordPart h.isWordPart]

/-- **A word in lower case is a name.** -/
theorem WordSpelling.isName {t : List Char} (h : WordSpelling t) :
    Stage.IsName (String.ofList (Text.lower t)) := by
  rw [h.lower]
  obtain ⟨c, cs, rfl, hc, hcs⟩ := h
  refine ⟨c.toLower, cs.map Char.toLower, String.toList_ofList, ?_, fun d hd => ?_⟩
  · simp only [isWordStart, Bool.or_eq_true, beq_iff_eq] at hc
    rcases hc with hc | rfl
    · exact .inr (isLower_toLower hc)
    · exact .inl rfl
  · obtain ⟨c', hc', rfl⟩ := List.mem_map.mp hd
    exact isNamePart_toLower (hcs c' hc')

theorem forall_isNamePart {action : String} (h : Stage.IsName action) :
    ∀ c ∈ action.toList, IsNamePart c := by
  obtain ⟨c, cs, hcs, hc, hall⟩ := h
  rw [hcs]
  rintro d (_ | ⟨_, hd⟩)
  · exact hc.imp_right .inl
  · exact hall d hd

theorem wordSpelling_of_isName {action : String} (h : Stage.IsName action) :
    WordSpelling action.toList := by
  have hpart := forall_isNamePart h
  obtain ⟨c, cs, hcs, hc, -⟩ := h
  refine ⟨c, cs, hcs, ?_, fun d hd => (hpart d (by simp [hcs, hd])).isWordPart⟩
  rcases hc with rfl | hc
  · decide
  · simp [isWordStart, isAlpha_of_isLower hc]

/-- Names are in lower case. -/
theorem lower_of_isName {action : String} (h : Stage.IsName action) :
    String.ofList (Text.lower action.toList) = action := by
  have hsame : action.toList.map Char.toLower = action.toList.map id :=
    List.map_congr_left fun c hc => (forall_isNamePart h c hc).toLower
  rw [(wordSpelling_of_isName h).lower, hsame, List.map_id, String.ofList_toList]

/-! ### Words and keywords -/

/-- In ASCII, a letter is spelled by its two cases. -/
theorem spells_iff {letter c : Char} (hc : isWordPart c = true) :
    spells letter c = true ↔ c.toLower = letter := by
  have hlt := lt_of_isWordPart hc
  simp only [spells, Bool.or_eq_true, beq_iff_eq, Bool.and_eq_true]
  constructor
  · rintro (h | ⟨-, h⟩)
    · exact h
    · omega
  · exact .inl

/-- **A word is a keyword in lower case** if it is spelled like the keyword. -/
theorem WordSpelling.lower_eq_iff {t : List Char} (h : WordSpelling t) (k : Keyword) :
    String.ofList (Text.lower t) = k.spelling ↔ KeywordSpelling k t := by
  rw [h.lower, ← String.toList_inj, String.toList_ofList, KeywordSpelling]
  have hpart := h.isWordPart
  generalize k.spelling.toList = letters
  clear h
  induction t generalizing letters with
  | nil => rw [List.forall₂_nil_right_iff, List.map_nil, eq_comm]
  | cons c t ih =>
    obtain ⟨hc, ht⟩ := List.forall_mem_cons.mp hpart
    cases letters with
    | nil => simp
    | cons letter letters =>
      rw [List.map_cons, List.cons.injEq, List.forall₂_cons, spells_iff hc]
      exact and_congr_right fun _ => ih ht letters

theorem isLower_of_mem_spelling {k : Keyword} {c : Char} (h : c ∈ k.spelling.toList) :
    c.isLower = true := by
  have hall : k.spelling.toList.all Char.isLower = true := by cases k <;> decide
  exact List.all_eq_true.mp hall c h

theorem isName_spelling (k : Keyword) : Stage.IsName k.spelling := by
  obtain ⟨letter, letters, heq⟩ : ∃ letter letters, k.spelling.toList = letter :: letters := by
    cases k <;> exact ⟨_, _, rfl⟩
  have hlower : ∀ c ∈ letter :: letters, c.isLower = true :=
    fun c hc => isLower_of_mem_spelling (heq ▸ hc)
  obtain ⟨hletter, hletters⟩ := List.forall_mem_cons.mp hlower
  exact ⟨letter, letters, heq, .inr hletter, fun c hc => .inr (.inl (hletters c hc))⟩

/-- A keyword may be written in lower case. -/
theorem keywordSpelling_spelling (k : Keyword) : KeywordSpelling k k.spelling.toList :=
  ((wordSpelling_of_isName (isName_spelling k)).lower_eq_iff k).mp
    (lower_of_isName (isName_spelling k))

/-- A letter of a keyword is spelled by letters of words, but for the two further forms of `i`. -/
theorem isWordPart_or_dotted_of_spells {letter c : Char} (hl : letter.isLower = true)
    (h : spells letter c = true) :
    isWordPart c = true ∨ letter = 'i' ∧ (c = '\u0130' ∨ c = '\u0131') := by
  simp only [spells, Bool.or_eq_true, beq_iff_eq, Bool.and_eq_true] at h
  rcases h with h | ⟨hi, h⟩
  · exact .inl (isWordPart_of_toLower (h ▸ hl))
  · refine .inr ⟨hi, ?_⟩
    rcases h with h | h
    · exact .inl (Char.ext (UInt32.toNat_inj.mp h))
    · exact .inr (Char.ext (UInt32.toNat_inj.mp h))

theorem isWord_of_spells {letter c : Char} (hl : letter.isLower = true)
    (h : spells letter c = true) : Text.isWord c = true := by
  rcases isWordPart_or_dotted_of_spells hl h with hpart | ⟨-, rfl | rfl⟩
  · exact isWord_of_isWordPart hpart
  · rfl
  · rfl

theorem isLower_firstLetter (k : Keyword) : (firstLetter k).isLower = true := by
  cases k <;> rfl

/-- Behind its first letter, a keyword is spelled by characters of words. -/
theorem KeywordSpelling.isWordPart {k : Keyword} {c : Char} {cs : List Char}
    (h : KeywordSpelling k (c :: cs)) : ∀ d ∈ cs, isWordPart d = true := by
  have hletters : ∀ letter ∈ k.spelling.toList.tail, letter.isLower = true ∧ letter ≠ 'i' := by
    intro letter hmem
    have hall : k.spelling.toList.tail.all (· != 'i') = true := by cases k <;> decide
    exact ⟨isLower_of_mem_spelling (List.mem_of_mem_tail hmem),
      by simpa using List.all_eq_true.mp hall letter hmem⟩
  obtain ⟨letter, letters, heq⟩ : ∃ letter letters, k.spelling.toList = letter :: letters := by
    cases k <;> exact ⟨_, _, rfl⟩
  rw [KeywordSpelling, heq, List.forall₂_cons] at h
  rw [heq, List.tail_cons] at hletters
  obtain ⟨-, hrest⟩ := h
  clear heq
  induction hrest with
  | nil => simp
  | @cons letter d letters ds hd _ ih =>
    obtain ⟨⟨hlower, hne⟩, hletters⟩ := List.forall_mem_cons.mp hletters
    have hpart := (isWordPart_or_dotted_of_spells hlower hd).resolve_right fun h => hne h.1
    exact List.forall_mem_cons.mpr ⟨hpart, ih hletters⟩

/-- **A word starts with a keyword only as a whole**: where a word cannot go on, a keyword at its
start is the word itself, and no word character follows. -/
theorem startsWithKeyword_append_iff {t rest : List Char} (ht : WordSpelling t)
    (hr : ∀ c ∈ rest.head?, isWordPart c = false) :
    StartsWithKeyword (t ++ rest) ↔ (∃ k, KeywordSpelling k t) ∧ EndsWord rest := by
  constructor
  · rintro ⟨k, u, rest', heq, hu, hend⟩
    rcases List.append_eq_append_iff.mp heq with ⟨as, rfl, rfl⟩ | ⟨bs, rfl, rfl⟩
    · cases as with
      | nil => exact ⟨⟨k, by simpa using hu⟩, hend⟩
      | cons a as =>
        -- the keyword would go on behind the word
        obtain ⟨c, cs, rfl, -⟩ := ht
        have hpart := hu.isWordPart a (by simp)
        rw [hr a rfl] at hpart
        cases hpart
    · cases bs with
      | nil => exact ⟨⟨k, by simpa using hu⟩, hend⟩
      | cons b bs =>
        -- the keyword would end inside the word
        have hword := isWord_of_isWordPart (ht.isWordPart b (by simp))
        rw [hend b rfl] at hword
        cases hword
  · rintro ⟨⟨k, hk⟩, hend⟩
    exact ⟨k, t, rest, rfl, hk, hend⟩

/-! ### Spelled tokens -/

/-- Is the token spelled in a way that its kind has? A keyword may be written in any letter case, and a
word is none of the keywords. -/
inductive Spelled : Token → Prop
  | keyword {k : Keyword} {t : List Char} (ht : KeywordSpelling k t) : Spelled (.keyword k t)
  | word {t : List Char} (ht : WordSpelling t) (hk : ∀ k, ¬ KeywordSpelling k t) :
      Spelled (.word t)
  | quoted {mark : Char} {t : List Char} (hm : mark = '"' ∨ mark = '\'') (ht : StringTail mark t) :
      Spelled (.quoted (mark :: t))
  | arrow : Spelled .arrow
  | openBrace : Spelled .openBrace
  | closeBrace : Spelled .closeBrace

theorem spelled_of_isAction {action : String} (h : Stage.IsAction action) :
    Spelled (.word action.toList) := by
  obtain ⟨hname, hno⟩ := Stage.isAction_iff.mp h
  have hword := wordSpelling_of_isName hname
  refine .word hword fun k hk => hno k ?_
  rw [← lower_of_isName hname]
  exact (hword.lower_eq_iff k).mpr hk

theorem isWord_of_isLayout {c : Char} (h : isLayout c = true) : Text.isWord c = false := by
  simp only [isLayout, Bool.or_eq_true, beq_iff_eq] at h
  rcases h with (((rfl | rfl) | rfl) | rfl) | rfl <;> decide

/-- **A spelled token is kept apart** by layout and by comments: no character of them is taken into it,
and none turns it into another token. -/
theorem Spelled.leads {t : Token} (h : Spelled t) {rest : List Char}
    (hrest : ∀ c ∈ rest.head?, isLayout c = true ∨ c = '#') : Leads t rest := by
  have hend : EndsWord rest := by
    intro c hc
    rcases hrest c hc with hlayout | rfl
    · exact isWord_of_isLayout hlayout
    · decide
  cases h with
  | keyword ht => exact .keyword ht hend
  | word ht hk =>
    refine .word ht hend.isWordPart fun hstart => ?_
    obtain ⟨⟨k, hkey⟩, -⟩ := (startsWithKeyword_append_iff ht hend.isWordPart).mp hstart
    exact hk k hkey
  | quoted hm ht => exact .quoted hm ht
  | arrow => exact .arrow
  | openBrace => exact .openBrace
  | closeBrace => exact .closeBrace

end Syntax

end PipeScript
