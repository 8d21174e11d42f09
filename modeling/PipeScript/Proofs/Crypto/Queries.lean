import Mathlib.Logic.Basic
import PipeScript.Crypto
import PipeScript.Proofs.Text.Casing
import PipeScript.Proofs.Text.Search
import PipeScript.Proofs.Text.Splitting
import PipeScript.Proofs.Text.Trim

/-!
# What queries ask for

A query is turned into the parameters of a request by several looks at its text: whether it is `top` and
perhaps a number, what the number is, where the symbols end, and what each symbol is called. A request should
come out that asks either for a number of the largest coins or for the coins that the query names.

## The model

The two kinds of request are told by their parameters alone. `Crypto.AsksForLargest` says that no coins are
named and that a number of them from 1 to 100 is given; `Crypto.AsksForCoins` that no number is given and that
coins are named, as many as the query has words between commas and blanks, each by an identifier that can be
told from the others when they are joined with commas. Where the words are is said by `Text.HasWords`, without
a splitter.

Main results: the largest coins are asked for exactly if the query is empty or `top`
(`Crypto.asksForLargest_iff`), and a request is of exactly one of the two kinds, unless its query is made up of
commas and blanks (`Crypto.wellFormed_iff`). Such a query is not empty, so it does not ask for the largest
coins; but it has no words, so that it asks for no coins either.

An identifier from the list of well-known coins is looked through (`isIdentifier_known`). One that is a symbol
in lower case could have got a comma or a blank there, which is the reason for `Text.mem_of_mem_lower`.
-/

namespace PipeScript.Crypto

open Text

variable {c : Char} {s : List Char} {symbol query : String} {request : Request} {n : Int}
  {ids : List String}

/-- Does the character stand between symbols? -/
def isSeparator (c : Char) : Bool := c == ',' || isBlank c

/-! ### Identifiers -/

/-- Can the text be told from others when they are joined with commas? -/
def IsIdentifier (id : String) : Prop := id ≠ "" ∧ ∀ c ∈ id.toList, isSeparator c = false

instance : DecidablePred IsIdentifier := fun id =>
  decidable_of_iff (id ≠ "" ∧ id.toList.all (!isSeparator ·) = true) (by simp [IsIdentifier])

theorem isIdentifier_known : ∀ e ∈ identifiers, IsIdentifier e.2 := by decide

theorem uncased_of_isSeparator (h : isSeparator c = true) : Casing.Uncased c.toNat := by
  rw [isSeparator, Bool.or_eq_true, beq_iff_eq] at h
  rcases h with rfl | hblank
  · exact Casing.uncased_of_le (by decide) (by decide)
  · exact Casing.uncased_of_isBlank hblank

/-- A symbol without separators has an identifier without separators. -/
theorem isIdentifier_identifier (h : IsIdentifier symbol) : IsIdentifier (identifier symbol) := by
  obtain ⟨hne, hplain⟩ := h
  simp only [identifier]
  split
  · rename_i key id hfind
    exact isIdentifier_known _ (List.mem_of_find?_eq_some hfind)
  · constructor
    · intro hempty
      have hlower : lower symbol.toList ≠ [] := lower_ne_nil (by simpa using hne)
      exact hlower (by simpa using congrArg String.toList hempty)
    · intro c hc
      rw [String.toList_ofList] at hc
      by_contra hseparator
      have huncased : Casing.Uncased c.toNat := uncased_of_isSeparator (by simpa using hseparator)
      exact hseparator (hplain c (mem_of_mem_lower huncased hc))

/-! ### Queries -/

/-- Is the query not empty, but made up of commas and blanks? -/
def NamesNothing (query : String) : Prop := query ≠ "" ∧ ∀ c ∈ query.toList, isSeparator c = true

instance : DecidablePred NamesNothing := fun query =>
  decidable_of_iff (query ≠ "" ∧ query.toList.all isSeparator = true) (by simp [NamesNothing])

/-- Is the text `top` in any letter case, and perhaps blanks and digits? -/
def IsTopText (s : List Char) : Prop :=
  ∃ word blanks digits, s = word ++ (blanks ++ digits) ∧ word.map Char.toLower = "top".toList ∧
    (∀ c ∈ blanks, isBlank c = true) ∧ ∀ c ∈ digits, isDigit c = true

/-- Is the query empty, or `top` and perhaps a number? -/
def IsTopQuery (query : String) : Prop := query = "" ∨ IsTopText query.toList

/-- The query of an argument and a value has no blanks around it. -/
theorem stripped_query (argument input : String) : Stripped isBlank (Crypto.query argument input).toList := by
  rw [Crypto.query, String.toList_ofList]
  exact stripped_stripWhere isBlank _

theorem toLower_of_isSeparator (h : isSeparator c = true) : c.toLower = c := by
  obtain ⟨-, hrange, -⟩ := uncased_of_isSeparator h
  have hletter : ¬(c.val ≥ 'A'.val ∧ c.val ≤ 'Z'.val) := by
    rintro ⟨hfirst, hlast⟩
    have hfirst : 0x41 ≤ c.toNat := hfirst
    have hlast : c.toNat ≤ 0x5a := hlast
    omega
  exact dif_neg hletter

theorem isSome_afterTop?_iff : (afterTop? s).isSome = true ↔ IsTopText s := by
  constructor
  · intro h
    unfold afterTop? at h
    split at h
    · rename_i t o p rest
      simp only [Option.isSome_ite, Bool.and_eq_true, beq_iff_eq, List.all_eq_true] at h
      exact ⟨[t, o, p], rest.takeWhile isBlank, rest.dropWhile isBlank,
        by rw [List.takeWhile_append_dropWhile]; rfl, h.1, fun c hc => List.mem_takeWhile_imp hc, h.2⟩
    · cases h
  · rintro ⟨word, blanks, digits, rfl, hword, hblanks, hdigits⟩
    obtain ⟨t, o, p, rfl⟩ : ∃ t o p, word = [t, o, p] :=
      List.length_eq_three.mp (by simpa using congrArg List.length hword)
    have hrest : ∀ c ∈ (blanks ++ digits).dropWhile isBlank, isDigit c = true := by
      rw [List.dropWhile_append_of_pos hblanks]
      exact fun c hc => hdigits c ((List.dropWhile_sublist _).subset hc)
    simp only [afterTop?, List.cons_append, List.nil_append, Option.isSome_ite, Bool.and_eq_true, beq_iff_eq,
      List.all_eq_true]
    exact ⟨hword, hrest⟩

/-- A query of separators is not `top` and perhaps a number. -/
theorem not_isTopQuery_of_namesNothing (h : NamesNothing query) : ¬IsTopQuery query := by
  obtain ⟨hne, hseparators⟩ := h
  rintro (hempty | ⟨word, blanks, digits, hquery, hword, -⟩)
  · exact hne hempty
  · obtain ⟨t, word, rfl⟩ := List.exists_cons_of_ne_nil (show word ≠ [] by rintro rfl; cases hword)
    have ht : isSeparator t = true := hseparators t (by simp [hquery])
    have hlower : t.toLower = 't' := (List.cons.inj hword).1
    rw [toLower_of_isSeparator ht] at hlower
    rw [hlower] at ht
    exact absurd ht (by decide)

theorem NamesNothing.words_eq_nil {words : List (List Char)} (h : NamesNothing query)
    (hwords : HasWords isSeparator query.toList words) : words = [] := by
  have hnone : HasWords isSeparator query.toList [] := hasWords_nil_iff.mpr h.2
  rw [← hasWords_iff.mp hwords, hasWords_iff.mp hnone]

/-- From 1 to 100 of the largest coins are asked for. -/
theorem topCount_bounds (h : topCount query 10 = .ok n) : 1 ≤ n ∧ n ≤ 100 := by
  unfold topCount at h
  split at h
  · rename_i d digits _
    cases hread : WholeNumber.read (d :: digits) with
    | error e =>
      rw [hread] at h
      cases h
    | ok count =>
      rw [hread] at h
      obtain rfl : max 1 (min count 100) = n := Except.ok.inj h
      omega
  · obtain rfl : 10 = n := Except.ok.inj h
    decide

/-- **A request** is for a number of the largest coins where the query is `top`, and otherwise for the coins
that its words are called. -/
theorem request_cases (hstripped : Stripped isBlank query.toList) (h : Crypto.request query = .ok request) :
    (IsTopQuery query ∧ ∃ n, request = .top n ∧ 1 ≤ n ∧ n ≤ 100) ∨
    (¬IsTopQuery query ∧ ∃ words, HasWords isSeparator query.toList words ∧
      request = .coins (words.map fun word => identifier (String.ofList word))) := by
  have htop : (query.toList.isEmpty || (afterTop? query.toList).isSome) = true ↔ IsTopQuery query := by
    rw [Bool.or_eq_true, isSome_afterTop?_iff, IsTopQuery, List.isEmpty_iff, String.toList_eq_nil_iff]
  have hsymbols : symbols? query =
      if query.toList.isEmpty || (afterTop? query.toList).isSome then none
      else some ((fullPieces isSeparator query.toList).map String.ofList) := by
    rw [symbols?, trim, stripWhere_eq_self_iff.mpr hstripped]
    rfl
  rw [Crypto.request, hsymbols] at h
  split_ifs at h with hcase
  · cases hcount : topCount query 10 with
    | error e =>
      simp only [hcount] at h
      cases h
    | ok n =>
      simp only [hcount] at h
      exact .inl ⟨htop.mp hcase, n, (Except.ok.inj h).symm, topCount_bounds hcount⟩
  · obtain rfl := Except.ok.inj h
    exact .inr ⟨mt htop.mpr hcase, _, hasWords_iff.mpr rfl, by rw [List.map_map]; rfl⟩

/-- A query that names nothing asks for no coins. -/
theorem eq_of_namesNothing (hstripped : Stripped isBlank query.toList)
    (h : Crypto.request query = .ok request) (hnothing : NamesNothing query) : request = .coins [] := by
  rcases request_cases hstripped h with ⟨htop, -⟩ | ⟨-, words, hwords, rfl⟩
  · exact absurd htop (not_isTopQuery_of_namesNothing hnothing)
  · obtain rfl := hnothing.words_eq_nil hwords
    rfl

/-! ### Parameters -/

/-- Do the parameters name no coins, and ask for some of the largest ones? -/
def AsksForLargest (parameters : List (String × Json)) : Prop :=
  parameters.lookup "ids" = none ∧
    ∃ count : Int, parameters.lookup "per_page" = some (.int count) ∧ 1 ≤ count ∧ count ≤ 100

/-- Do the parameters name these coins, one for each word of the query, and ask for no number of coins? -/
structure Names (query : String) (ids : List String) (parameters : List (String × Json)) : Prop where
  unnumbered : parameters.lookup "per_page" = none
  joined : parameters.lookup "ids" = some (.string (",".intercalate ids))
  nonempty : ids ≠ []
  apart : ∀ id ∈ ids, IsIdentifier id
  words : ∃ words, HasWords isSeparator query.toList words ∧
    ids = words.map fun word => identifier (String.ofList word)

/-- Do the parameters name the coins of the query? -/
def AsksForCoins (query : String) (parameters : List (String × Json)) : Prop :=
  ∃ ids, Names query ids parameters

theorem lookup_top (n : Int) : (Request.top n).parameters.lookup "ids" = none ∧
    (Request.top n).parameters.lookup "per_page" = some (.int n) := ⟨rfl, rfl⟩

theorem lookup_coins (ids : List String) :
    (Request.coins ids).parameters.lookup "ids" = some (.string (",".intercalate ids)) ∧
    (Request.coins ids).parameters.lookup "per_page" = none := ⟨rfl, rfl⟩

theorem asksForLargest_top : AsksForLargest (Request.top n).parameters ↔ 1 ≤ n ∧ n ≤ 100 := by
  simp [AsksForLargest, lookup_top n]

theorem not_asksForLargest_coins : ¬AsksForLargest (Request.coins ids).parameters := by
  simp [AsksForLargest, lookup_coins ids]

theorem not_asksForCoins_top : ¬AsksForCoins query (Request.top n).parameters := by
  rintro ⟨ids, h⟩
  have hnumber := h.unnumbered
  rw [(lookup_top n).2] at hnumber
  cases hnumber

/-- Coins are named by their identifiers, if there are any. -/
theorem asksForCoins_of_words {words : List (List Char)} (hwords : HasWords isSeparator query.toList words)
    (hne : words ≠ []) :
    AsksForCoins query (Request.coins (words.map fun word => identifier (String.ofList word))).parameters := by
  have hapart : ∀ word ∈ words, IsIdentifier (identifier (String.ofList word)) := by
    intro word hword
    obtain ⟨hnonempty, hplain⟩ := hwords.full word hword
    exact isIdentifier_identifier ⟨by simpa using hnonempty, by simpa using hplain⟩
  exact ⟨words.map fun word => identifier (String.ofList word), {
    unnumbered := (lookup_coins _).2
    joined := (lookup_coins _).1
    nonempty := by simpa using hne
    apart := by simpa using hapart
    words := ⟨words, hwords, rfl⟩ }⟩

/-- The largest coins are asked for exactly if the query is `top`. -/
theorem asksForLargest_iff (hstripped : Stripped isBlank query.toList)
    (h : Crypto.request query = .ok request) : AsksForLargest request.parameters ↔ IsTopQuery query := by
  rcases request_cases hstripped h with ⟨htop, n, rfl, hbounds⟩ | ⟨htop, words, -, rfl⟩
  · exact iff_of_true (asksForLargest_top.mpr hbounds) htop
  · exact iff_of_false not_asksForLargest_coins htop

/-- Coins are asked for exactly if the query is something else, and names one. -/
theorem asksForCoins_iff (hstripped : Stripped isBlank query.toList)
    (h : Crypto.request query = .ok request) :
    AsksForCoins query request.parameters ↔ ¬IsTopQuery query ∧ ¬NamesNothing query := by
  rcases request_cases hstripped h with ⟨htop, n, rfl, -⟩ | ⟨htop, words, hwords, rfl⟩
  · exact iff_of_false not_asksForCoins_top fun hboth => hboth.1 htop
  · constructor
    · rintro ⟨ids, hids⟩
      refine ⟨htop, fun hnothing => ?_⟩
      obtain ⟨words', hwords', rfl⟩ := hids.words
      obtain rfl := hnothing.words_eq_nil hwords'
      exact hids.nonempty rfl
    · rintro ⟨-, hnames⟩
      refine asksForCoins_of_words hwords ?_
      rintro rfl
      exact hnames ⟨fun hempty => htop (.inl hempty), hasWords_nil_iff.mp hwords⟩

/-- **A request** asks either for a number of the largest coins or for the coins of its query, and not for
both, exactly if the query is not made up of commas and blanks. -/
theorem wellFormed_iff (hstripped : Stripped isBlank query.toList)
    (h : Crypto.request query = .ok request) :
    Xor (AsksForLargest request.parameters) (AsksForCoins query request.parameters) ↔
      ¬NamesNothing query := by
  have hapart : NamesNothing query → ¬IsTopQuery query := not_isTopQuery_of_namesNothing
  rw [asksForLargest_iff hstripped h, asksForCoins_iff hstripped h, Xor]
  tauto

end PipeScript.Crypto
