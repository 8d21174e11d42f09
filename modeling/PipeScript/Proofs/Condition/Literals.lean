import PipeScript.Condition
import PipeScript.Proofs.Text.Search
import PipeScript.Proofs.Text.Trim

/-!
# Conditions with quoted literals

A comparison is written as a field, an operator and a literal between quotation marks. The operators are
searched one after the other, each of them in the whole text, so that the literal is searched, too: the
comparison is read as it was written exactly if its literal mentions no operator that is searched before
its own (`Condition.parse_quoted_literal`). An operator that is a word stands in front of its literal,
and of that one nothing is asked.

## The model

`Condition.IsField` says which texts can be told apart as a field: those that are trimmed, are not empty,
have no character of an operator, and do not start with an operator that is a word. A literal is any text
that neither starts nor ends with a blank or a quotation mark; there may be such characters inside.
-/

namespace PipeScript

open Text

/-! ### The first occurrence of a separator -/

namespace Text

variable {sep a b s : List Char}

/-- Where no character of the separator stands, there is no occurrence of it. -/
theorem splitOnce?_append (hne : sep ≠ []) (ha : ∀ c ∈ a, c ∉ sep) (b : List Char) :
    splitOnce? sep (a ++ (sep ++ b)) = some (a, b) := by
  induction a with
  | nil =>
    obtain ⟨d, sep, rfl⟩ := List.exists_cons_of_ne_nil hne
    simp [splitOnce?]
  | cons c a ih =>
    obtain ⟨hc, ha⟩ := List.forall_mem_cons.mp ha
    have hstart : ¬ sep.isPrefixOf (c :: (a ++ (sep ++ b))) = true := by
      intro h
      obtain ⟨d, sep, rfl⟩ := List.exists_cons_of_ne_nil hne
      rw [List.isPrefixOf_iff_prefix, List.cons_prefix_cons] at h
      exact hc (by simp [h.1])
    rw [List.cons_append, splitOnce?, if_neg hstart, ih ha]
    rfl

/-- A text can be split where the separator occurs. -/
theorem isSome_splitOnce? (h : occursIn sep s = true) : (splitOnce? sep s).isSome = true := by
  induction s with
  | nil =>
    rw [occursIn] at h
    rw [splitOnce?, if_pos h]
    rfl
  | cons c s ih =>
    rw [splitOnce?]
    by_cases hstart : sep.isPrefixOf (c :: s) = true
    · rw [if_pos hstart]
      rfl
    · rw [occursIn, Bool.or_eq_true] at h
      rw [if_neg hstart, Option.isSome_map]
      exact ih (h.resolve_left hstart)

end Text

/-! ### Operators -/

namespace Operator

/-- The operators that a text is searched for before this one. -/
def searchedBefore (o : Operator) : List Operator := infixes.takeWhile (· != o)

/-- The characters that operators are made of. -/
def marks : List Char := ['<', '>', '=', '!']

/-- The operators that are words. -/
def words : List Operator := [contains, notContains]

theorem symbol_subset_marks {o : Operator} (h : o ∈ infixes) : o.symbol.toList ⊆ marks := by
  revert o
  decide

theorem not_isBlank_of_word {o : Operator} (h : o ∈ words) :
    o.symbol.toList.all (!isBlank ·) = true := by
  revert o
  decide

theorem symbol_ne_nil (o : Operator) : o.symbol.toList ≠ [] := by
  cases o <;> decide

/-- The operators that a text is searched for in turn. -/
theorem infixes_eq {o : Operator} (h : o ∈ infixes) :
    infixes = o.searchedBefore ++ o :: (infixes.dropWhile (· != o)).tail := by
  revert o
  decide

theorem mem_of_searchedBefore {o p : Operator} {before after : List Operator}
    (h : infixes = before ++ o :: after) (hp : p ∈ o.searchedBefore) : p ∈ before := by
  have hend : (o :: after).takeWhile (· != o) = [] := by simp
  rw [searchedBefore, h, List.takeWhile_append, hend, List.append_nil] at hp
  split at hp
  · exact hp
  · exact (List.takeWhile_prefix _).subset hp

/-- An operator that is searched before another one is no part of it. -/
theorem not_infix_of_searchedBefore {o p : Operator} (h : p ∈ o.searchedBefore) :
    ¬ p.symbol.toList <:+: o.symbol.toList := by
  revert h
  revert p
  cases o <;> decide

end Operator

namespace Condition

variable {field literal : String} {o : Operator}

/-- The word that a text starts with. -/
def firstWord (s : List Char) : List Char := s.takeWhile (!isBlank ·)

/-- Is the text a field of comparisons: trimmed, not empty, without a character of an operator, and not
starting with an operator that is a word? -/
structure IsField (field : String) : Prop where
  ne_nil : field.toList ≠ []
  trimmed : trim field.toList = field.toList
  plain : ∀ c ∈ field.toList, c ∉ Operator.marks
  opens : ∀ o ∈ Operator.words, firstWord field.toList ≠ o.symbol.toList

/-- Does the text neither start nor end with a blank or a quotation mark? -/
def IsLiteral (literal : String) : Prop :=
  Stripped (fun c => isBlank c || isQuoteMark c) literal.toList

instance (literal : String) : Decidable (IsLiteral literal) := inferInstanceAs (Decidable (Stripped ..))

/-- A literal between quotation marks. -/
def quotedLiteral (literal : String) : String := "\"" ++ literal ++ "\""

/-- A comparison with a quoted literal, as scripts write it. -/
def comparison (field : String) (o : Operator) (literal : String) : String :=
  field ++ " " ++ o.symbol ++ " " ++ quotedLiteral literal

/-- A test for a quoted literal, as scripts write it. -/
def wordTest (o : Operator) (literal : String) : String := o.symbol ++ " " ++ quotedLiteral literal

theorem toList_quotedLiteral (literal : String) :
    (quotedLiteral literal).toList = '"' :: (literal.toList ++ ['"']) := by
  simp [quotedLiteral]

theorem toList_comparison (field : String) (o : Operator) (literal : String) :
    (comparison field o literal).toList =
      (field.toList ++ [' ']) ++ (o.symbol.toList ++ ' ' :: (quotedLiteral literal).toList) := by
  simp [comparison]

theorem toList_wordTest (o : Operator) (literal : String) :
    (wordTest o literal).toList = (o.symbol.toList ++ [' ']) ++ (quotedLiteral literal).toList := by
  simp [wordTest]

/-! ### Literals -/

theorem isBlank_of_mem_space : ∀ c ∈ [' '], isBlank c = true := List.forall_mem_singleton.mpr (by decide)

theorem isBlank_of_mem_quotation : ∀ c ∈ some '"', isBlank c = false := by
  rintro c ⟨rfl⟩
  rfl

/-- A text between other characters than blanks needs no trimming. -/
theorem stripped_of_ends {s : List Char} (hhead : ∀ c ∈ s.head?, isBlank c = false) (literal : String) :
    Stripped isBlank (s ++ (quotedLiteral literal).toList) := by
  rw [toList_quotedLiteral]
  constructor
  · cases s with
    | nil => exact isBlank_of_mem_quotation
    | cons c s => simpa using hhead
  · rw [← List.cons_append, ← List.append_assoc, List.getLast?_concat]
    exact isBlank_of_mem_quotation

/-- **A quoted literal** is what it was before it was quoted. -/
theorem bare_quotedLiteral (h : IsLiteral literal) (blanks : List Char)
    (hblanks : ∀ c ∈ blanks, isBlank c = true) :
    bare (blanks ++ (quotedLiteral literal).toList) = literal.toList := by
  have htrim : trim (blanks ++ (quotedLiteral literal).toList) = (quotedLiteral literal).toList := by
    have hends : Stripped isBlank ([] ++ (quotedLiteral literal).toList) :=
      stripped_of_ends (by simp) literal
    have hstrip := stripWhere_append hblanks (b := []) (by simp) hends
    rwa [List.append_nil] at hstrip
  have hmarks : Stripped isQuoteMark literal.toList := by
    constructor
    · intro c hc
      exact (Bool.or_eq_false_iff.mp (h.1 c hc)).2
    · intro c hc
      exact (Bool.or_eq_false_iff.mp (h.2 c hc)).2
  have hmark : ∀ c ∈ ['"'], isQuoteMark c = true := List.forall_mem_singleton.mpr (by decide)
  rw [bare, htrim, toList_quotedLiteral]
  exact stripWhere_append hmark hmark hmarks

/-! ### Operators that are words -/

/-- The first word ends at the first blank. -/
theorem firstWord_append (s rest : List Char) : firstWord (s ++ ' ' :: rest) = firstWord s := by
  induction s with
  | nil => simp [firstWord, isBlank]
  | cons c s ih =>
    unfold firstWord at ih ⊢
    rw [List.cons_append, List.takeWhile_cons, List.takeWhile_cons, ih]

/-- Before a text that starts with another word there is no operator that is a word. -/
theorem leading?_eq_none {s : List Char} (h : firstWord s ≠ o.symbol.toList)
    (ho : o ∈ Operator.words) : leading? s o = none := by
  have hstart : ¬ (o.symbol.toList ++ [' ']).isPrefixOf s = true := by
    intro hprefix
    obtain ⟨rest, rfl⟩ := List.isPrefixOf_iff_prefix.mp hprefix
    apply h
    rw [List.append_assoc, List.singleton_append, firstWord_append, firstWord]
    exact List.takeWhile_eq_self_iff.mpr (List.all_eq_true.mp (Operator.not_isBlank_of_word ho))
  rw [leading?, if_neg hstart]

theorem leading?_of_prefix (o : Operator) (s : List Char) :
    leading? ((o.symbol.toList ++ [' ']) ++ s) o =
      some ⟨inputField, o, String.ofList (bare s)⟩ := by
  have hstart : (o.symbol.toList ++ [' ']).isPrefixOf ((o.symbol.toList ++ [' ']) ++ s) = true :=
    List.isPrefixOf_iff_prefix.mpr (List.prefix_append _ _)
  rw [leading?, if_pos hstart, List.drop_left]

/-! ### Operators between two sides -/

/-- **The operator that a text is split at** is the first one in search order that occurs in it. -/
theorem sides?_eq_some_iff {s left right : List Char} : sides? s = some (o, left, right) ↔
    o ∈ Operator.infixes ∧ occursIn o.symbol.toList s = true ∧
      splitOnce? o.symbol.toList s = some (left, right) ∧
        ∀ p ∈ o.searchedBefore, occursIn p.symbol.toList s = false := by
  have hnone {p : Operator} : (if occursIn p.symbol.toList s then
        (splitOnce? p.symbol.toList s).map (p, ·) else none) = none ↔
      occursIn p.symbol.toList s = false := by
    by_cases hp : occursIn p.symbol.toList s = true
    · obtain ⟨sides, hsides⟩ := Option.isSome_iff_exists.mp (isSome_splitOnce? hp)
      simp [hp, hsides]
    · simp [hp]
  rw [sides?, List.findSome?_eq_some_iff]
  constructor
  · rintro ⟨before, q, after, hlist, hq, hbefore⟩
    by_cases hoccurs : occursIn q.symbol.toList s = true
    · rw [if_pos hoccurs, Option.map_eq_some_iff] at hq
      obtain ⟨_, hsplit, heq⟩ := hq
      obtain ⟨rfl, rfl⟩ := Prod.mk.inj heq
      refine ⟨by simp [hlist], hoccurs, hsplit, fun p hp => ?_⟩
      exact hnone.mp (hbefore p (Operator.mem_of_searchedBefore hlist hp))
    · rw [if_neg hoccurs] at hq
      cases hq
  · rintro ⟨ho, hoccurs, hsplit, hbefore⟩
    refine ⟨_, o, _, Operator.infixes_eq ho, ?_, fun p hp => hnone.mpr (hbefore p hp)⟩
    rw [if_pos hoccurs, hsplit]
    rfl

theorem sides?_ne_none {s : List Char} (ho : o ∈ Operator.infixes)
    (hoccurs : occursIn o.symbol.toList s = true) : sides? s ≠ none := by
  intro hnone
  obtain ⟨sides, hsides⟩ := Option.isSome_iff_exists.mp (isSome_splitOnce? hoccurs)
  have h := List.findSome?_eq_none_iff.mp hnone o ho
  rw [if_pos hoccurs, hsides] at h
  cases h

/-! ### Comparisons -/

/-- An operator that is searched before the one of a comparison can only occur in its literal. -/
theorem occursIn_comparison (hfield : IsField field) {p : Operator} (hp : p ∈ o.searchedBefore) :
    occursIn p.symbol.toList (comparison field o literal).toList = true ↔
      p.symbol.toList <:+: literal.toList := by
  have hne := Operator.symbol_ne_nil p
  have hmarks := Operator.symbol_subset_marks
    ((List.takeWhile_prefix _).subset hp : p ∈ Operator.infixes)
  have hspace : ' ' ∉ p.symbol.toList := fun h => absurd (hmarks h) (by decide)
  have hquote : '"' ∉ p.symbol.toList := fun h => absurd (hmarks h) (by decide)
  have hnil : ¬ p.symbol.toList <:+: [] := by simpa using hne
  have hnot : ¬ p.symbol.toList <:+: field.toList := by
    intro h
    obtain ⟨c, s, hs⟩ := List.exists_cons_of_ne_nil hne
    have hc : c ∈ p.symbol.toList := by simp [hs]
    exact hfield.plain c (h.subset hc) (hmarks hc)
  have hself := Operator.not_infix_of_searchedBefore hp
  rw [occursIn_iff, toList_comparison, toList_quotedLiteral, List.append_assoc, List.singleton_append,
    infix_append_cons hne hspace, infix_append_cons hne hspace, ← List.nil_append ('"' :: _),
    infix_append_cons hne hquote, infix_append_cons hne hquote]
  simp only [hnot, hself, hnil, false_or, or_false]

/-- A comparison can be split at its operator. -/
theorem splitOnce?_comparison (hfield : IsField field) (ho : o ∈ Operator.infixes)
    (literal : String) : splitOnce? o.symbol.toList (comparison field o literal).toList =
      some (field.toList ++ [' '], ' ' :: (quotedLiteral literal).toList) := by
  rw [toList_comparison]
  refine splitOnce?_append (Operator.symbol_ne_nil o) ?_ _
  intro c hc hmark
  rcases List.mem_append.mp hc with hc | hc
  · exact hfield.plain c hc (Operator.symbol_subset_marks ho hmark)
  · obtain rfl := List.mem_singleton.mp hc
    exact absurd (Operator.symbol_subset_marks ho hmark) (by decide)

/-- What a text is read as that is split into these sides, if it is. -/
def ofSides (text : String) : Option (Operator × List Char × List Char) → Except ConditionError Condition
  | some (o, left, right) =>
    if (trim left).isEmpty then .error (.noLeftSide text o)
    else .ok ⟨String.ofList (trim left), o, String.ofList (bare right)⟩
  | none => .ok ⟨text, .notEqual, ""⟩

/-- A comparison is split into its two sides where an operator is found. -/
theorem parse_comparison_eq (hfield : IsField field) (o : Operator) (literal : String) :
    parse (comparison field o literal) =
      ofSides (comparison field o literal) (sides? (comparison field o literal).toList) := by
  have hhead : ∀ c ∈ ((field.toList ++ [' ']) ++ (o.symbol.toList ++ [' '])).head?,
      isBlank c = false := by
    intro c hc
    rw [List.append_assoc, List.head?_append_of_ne_nil _ hfield.ne_nil] at hc
    exact (stripWhere_eq_self_iff.mp hfield.trimmed).1 c hc
  have htrim : trim (comparison field o literal).toList = (comparison field o literal).toList := by
    have hlayout : (comparison field o literal).toList =
        ((field.toList ++ [' ']) ++ (o.symbol.toList ++ [' '])) ++ (quotedLiteral literal).toList := by
      rw [toList_comparison]
      simp
    rw [hlayout]
    exact stripWhere_eq_self_iff.mpr (stripped_of_ends hhead literal)
  have hempty : (comparison field o literal).toList.isEmpty = false := by
    rw [toList_comparison]
    simp
  have hword : [Operator.contains, .notContains].findSome?
      (leading? (comparison field o literal).toList) = none := by
    refine List.findSome?_eq_none_iff.mpr fun p hp => leading?_eq_none ?_ hp
    rw [toList_comparison, List.append_assoc, List.singleton_append, firstWord_append]
    exact hfield.opens p hp
  rw [parse, htrim, hempty, if_neg Bool.false_ne_true, hword, String.ofList_toList]
  rfl

/-- The operator of what a text is read as is the one at which it was split. -/
theorem exists_sides_of_ofSides {text left right : String} {sides : Option (Operator × List Char × List Char)}
    (hsides : sides ≠ none) (h : ofSides text sides = .ok ⟨left, o, right⟩) :
    ∃ l r, sides = some (o, l, r) := by
  cases sides with
  | none => exact absurd rfl hsides
  | some sides =>
    obtain ⟨q, l, r⟩ := sides
    rw [ofSides] at h
    split at h
    · cases h
    · obtain rfl : q = o := congrArg Condition.operator (Except.ok.inj h)
      exact ⟨l, r, rfl⟩

/-- The sides of a comparison are its field and its literal. -/
theorem ofSides_comparison (hfield : IsField field) (hliteral : IsLiteral literal) (text : String) :
    ofSides text (some (o, field.toList ++ [' '], ' ' :: (quotedLiteral literal).toList)) =
      .ok ⟨field, o, literal⟩ := by
  have hleft : trim (field.toList ++ [' ']) = field.toList := by
    have hstrip := stripWhere_append (a := []) (by simp) isBlank_of_mem_space
      (stripWhere_eq_self_iff.mp hfield.trimmed)
    rwa [List.nil_append] at hstrip
  have hright : bare (' ' :: (quotedLiteral literal).toList) = literal.toList :=
    bare_quotedLiteral hliteral [' '] isBlank_of_mem_space
  have hne : field.toList.isEmpty = false := by
    rw [List.isEmpty_eq_false_iff]
    exact hfield.ne_nil
  rw [ofSides, hleft, hright, hne, if_neg Bool.false_ne_true, String.ofList_toList, String.ofList_toList]

/-- **A comparison is read as it was written** exactly if its literal mentions no operator that is
searched before its own. -/
theorem parse_comparison (hfield : IsField field) (ho : o ∈ Operator.infixes)
    (hliteral : IsLiteral literal) :
    parse (comparison field o literal) = .ok ⟨field, o, literal⟩ ↔
      ∀ p ∈ o.searchedBefore, ¬ p.symbol.toList <:+: literal.toList := by
  have hoccurs : occursIn o.symbol.toList (comparison field o literal).toList = true := by
    rw [occursIn_iff, toList_comparison]
    exact (List.prefix_append _ _).isInfix.trans (List.suffix_append _ _).isInfix
  rw [parse_comparison_eq hfield]
  constructor
  · intro h p hp hinfix
    obtain ⟨l, r, hsides⟩ := exists_sides_of_ofSides (sides?_ne_none ho hoccurs) h
    have hbefore := (sides?_eq_some_iff.mp hsides).2.2.2 p hp
    rw [(occursIn_comparison hfield hp).mpr hinfix] at hbefore
    cases hbefore
  · intro h
    have hsides : sides? (comparison field o literal).toList =
        some (o, field.toList ++ [' '], ' ' :: (quotedLiteral literal).toList) := by
      refine sides?_eq_some_iff.mpr ⟨ho, hoccurs, splitOnce?_comparison hfield ho literal, ?_⟩
      intro p hp
      by_contra hp'
      exact h p hp ((occursIn_comparison hfield hp).mp (Bool.not_eq_false _ ▸ hp'))
    rw [hsides]
    exact ofSides_comparison hfield hliteral _

/-- **A test for a word is read as it was written.** -/
theorem parse_wordTest (ho : o ∈ Operator.words) (hliteral : IsLiteral literal) :
    parse (wordTest o literal) = .ok ⟨inputField, o, literal⟩ := by
  have hhead : ∀ c ∈ (o.symbol.toList ++ [' ']).head?, isBlank c = false := by
    intro c hc
    rw [List.head?_append_of_ne_nil _ (Operator.symbol_ne_nil o)] at hc
    have hblank := List.all_eq_true.mp (Operator.not_isBlank_of_word ho) c (List.mem_of_head? hc)
    rwa [Bool.not_eq_true'] at hblank
  have htrim : trim (wordTest o literal).toList = (wordTest o literal).toList := by
    refine stripWhere_eq_self_iff.mpr ?_
    rw [toList_wordTest]
    exact stripped_of_ends hhead literal
  have hempty : (wordTest o literal).toList.isEmpty = false := by
    rw [toList_wordTest]
    simp
  have hword : [Operator.contains, .notContains].findSome? (leading? (wordTest o literal).toList) =
      some ⟨inputField, o, literal⟩ := by
    have hbare : bare (quotedLiteral literal).toList = literal.toList :=
      bare_quotedLiteral hliteral [] (by simp)
    have hleading : leading? (wordTest o literal).toList o = some ⟨inputField, o, literal⟩ := by
      rw [toList_wordTest, leading?_of_prefix, hbare, String.ofList_toList]
    rcases (by simpa [Operator.words] using ho : o = .contains ∨ o = .notContains) with rfl | rfl
    · rw [List.findSome?_cons, hleading]
    · have hother : leading? (wordTest .notContains literal).toList .contains = none := by
        refine leading?_eq_none ?_ (by decide)
        rw [toList_wordTest, List.append_assoc, List.singleton_append, firstWord_append]
        decide
      rw [List.findSome?_cons, hother, List.findSome?_cons, hleading]
  rw [parse, htrim, hempty, if_neg Bool.false_ne_true, hword]

/-- **Conditions with quoted literals.** A comparison is read as it was written exactly if its literal
mentions no operator that is searched before its own, and a test for a word always is. -/
theorem parse_quoted_literal (hliteral : IsLiteral literal) :
    (∀ field o, IsField field → o ∈ Operator.infixes →
      (parse (comparison field o literal) = .ok ⟨field, o, literal⟩ ↔
        ∀ p ∈ o.searchedBefore, ¬ p.symbol.toList <:+: literal.toList)) ∧
    ∀ o ∈ Operator.words, parse (wordTest o literal) = .ok ⟨inputField, o, literal⟩ :=
  ⟨fun _ _ hfield ho => parse_comparison hfield ho hliteral, fun _ ho => parse_wordTest ho hliteral⟩

theorem isField_status : IsField "status" where
  ne_nil := by decide
  trimmed := by decide
  plain c hc := by
    have hplain : "status".toList.all (!Operator.marks.contains ·) = true := by decide
    simpa using List.all_eq_true.mp hplain c hc
  opens := by decide

/-- A literal with an operator that is searched after the one before it. -/
theorem parse_status_arrow :
    parse "status != \"a > b\"" = .ok ⟨"status", .notEqual, "a > b"⟩ ∧
      parse "contains \"a > b\"" = .ok ⟨"_input", .contains, "a > b"⟩ := by
  have hliteral : IsLiteral "a > b" := by decide
  obtain ⟨hcomparison, hword⟩ := parse_quoted_literal hliteral
  constructor
  · exact (hcomparison "status" .notEqual isField_status (by decide)).mpr (by decide)
  · exact hword .contains (by decide)

/-- A literal with an operator that is searched before: the text is split in the middle of it. -/
theorem parse_splits_literal : IsField "status" ∧ .greater ∈ Operator.infixes ∧ IsLiteral "a >= b" ∧
    comparison "status" .greater "a >= b" = "status > \"a >= b\"" ∧
    parse "status > \"a >= b\"" = .ok ⟨"status > \"a", .atLeast, "b"⟩ ∧
    parse "status > \"a >= b\"" ≠ .ok ⟨"status", .greater, "a >= b"⟩ := by
  have hparse : parse "status > \"a >= b\"" = .ok ⟨"status > \"a", .atLeast, "b"⟩ := by decide
  refine ⟨isField_status, by decide, by decide, by decide, hparse, ?_⟩
  rw [hparse]
  decide

end Condition

end PipeScript
