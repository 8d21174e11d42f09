import PipeScript.Crypto
import PipeScript.Proofs.Validation
import PipeScript.Surroundings
import Mathlib.Data.List.Forall2

/-!
# Market rows

The answer of the market service is checked before it is reported: it has to be a list of objects that hold
what a coin needs. Each row is read into one coin, in order; where one does not fit, there is no report.

The symbol of a coin is made a text before its kind is looked at, so any value at all will do for it: a row with
a symbol that is null is a row about a coin called NONE.

## The model

`Coin.IsRow` says field by field what a row has to hold, with the rule for the symbol left open; `Coin.IsShown`
is the rule that there is, and `Coin.IsUpper` the one for texts. `Json.IsListOf` says that a list is read row by
row.

Main result: an answer is read into coins exactly if it is a list of such rows, and any other answer is a
misfit; the rows whose symbols are strings are told apart from the others by nothing else
(`Coin.rows_ok_or_misfit`).
-/

namespace PipeScript

open Surroundings Json

variable {v : Json} {fields : Json.Fields} {c : Coin} {coins : List Coin} {source record : String}

/-! ### Rows of answers -/

section Rows

variable {α : Type} {check : Json → Checked α} {vs : List Json} {xs : List α} {f : Failure}

/-- Is the value a list of objects, each of which stands in the relation to the item at its place? -/
def Json.IsListOf (R : Json.Fields → α → Prop) (v : Json) (xs : List α) : Prop :=
  ∃ items, v = .array items ∧
    List.Forall₂ (fun item x => ∃ fields, item = .object fields ∧ R fields x) items xs

theorem mapM_cons_eq_ok_iff {β : Type} {g : β → Except Failure α} {b : β} {bs : List β} :
    (b :: bs).mapM g = .ok xs ↔ ∃ x rest, g b = .ok x ∧ bs.mapM g = .ok rest ∧ xs = x :: rest := by
  rw [List.mapM_cons]
  cases hb : g b with
  | error f => simp [bind, Except.bind]
  | ok x =>
    cases hbs : bs.mapM g with
    | error f => simp [bind, Except.bind]
    | ok rest => simp [bind, Except.bind, pure, Except.pure, eq_comm]

/-- Rows are read one by one. -/
theorem mapM_eq_ok_iff {β : Type} {g : β → Except Failure α} {bs : List β} :
    bs.mapM g = .ok xs ↔ List.Forall₂ (fun b x => g b = .ok x) bs xs := by
  induction bs generalizing xs with
  | nil => simp [pure, Except.pure, eq_comm]
  | cons b bs ih =>
    rw [mapM_cons_eq_ok_iff, List.forall₂_cons_left_iff]
    simp only [ih]

/-- A reading of rows fails as one of the rows does. -/
theorem exists_of_mapM_error {β : Type} {g : β → Except Failure α} {bs : List β}
    (h : bs.mapM g = .error f) : ∃ b ∈ bs, g b = .error f := by
  induction bs with
  | nil => cases h
  | cons b bs ih =>
    rw [List.mapM_cons] at h
    cases hb : g b with
    | error f' =>
      rw [hb] at h
      obtain rfl := Except.error.inj h
      exact ⟨b, List.mem_cons_self .., hb⟩
    | ok x =>
      cases hbs : bs.mapM g with
      | error f' =>
        rw [hb, hbs] at h
        obtain rfl := Except.error.inj h
        obtain ⟨b', hmem, hb'⟩ := ih hbs
        exact ⟨b', List.mem_cons_of_mem _ hmem, hb'⟩
      | ok rest =>
        rw [hb, hbs] at h
        cases h

theorem fitting_eq_ok_iff {x : α} : fitting source record check v = .ok x ↔ check v = .ok x :=
  mapError_eq_ok_iff

/-- **Rows are read** exactly if they are the items of a list and each of them keeps the rule of a record. -/
theorem rows_eq_ok_iff {check : Json.Fields → Checked α} {R : Json.Fields → α → Prop}
    (h : ∀ fields x, check fields = .ok x ↔ R fields x) :
    rows source record (Rule.record record check) v = .ok xs ↔ IsListOf R v xs := by
  have hitem (item : Json) (x : α) : fitting source record (Rule.record record check) item = .ok x ↔
      ∃ fields, item = .object fields ∧ R fields x := by
    simp only [fitting_eq_ok_iff, Rule.record_eq_ok_iff, h]
  cases v with
  | array items =>
    simp only [rows, mapM_eq_ok_iff, hitem, IsListOf, Json.array.injEq, exists_eq_left']
  | _ => simp [rows, IsListOf]

/-- **Rows that are not read** are a misfit of their source. -/
theorem exists_misfit (h : rows source record check v = .error f) : ∃ m, f = .misfit source m := by
  cases v with
  | array items =>
    obtain ⟨item, -, hitem⟩ := exists_of_mapM_error h
    rw [fitting] at hitem
    cases hcheck : check item with
    | ok x =>
      rw [hcheck] at hitem
      cases hitem
    | error es =>
      rw [hcheck] at hitem
      exact ⟨_, (Except.error.inj hitem).symm⟩
  | _ => exact ⟨_, (Except.error.inj h).symm⟩

end Rows

/-! ### Coins -/

namespace Coin

/-- Do the fields hold the coin, if its symbol is held by a value that stands in the relation to it? -/
structure IsRow (R : Json → String → Prop) (fields : Json.Fields) (c : Coin) : Prop where
  id : HasField "id" IsText fields c.id
  symbol : HasField "symbol" R fields c.symbol
  name : HasField "name" IsText fields c.name
  price : HasField "current_price" CountsAs fields c.price
  change : MayHaveField "price_change_percentage_24h" (OrNull CountsAs) fields c.change
  marketCap : MayHaveField "market_cap" (OrNull CountsAs) fields c.marketCap
  rank : MayHaveField "market_cap_rank" (OrNull CountsAsWhole) fields c.rank
  high : MayHaveField "high_24h" (OrNull CountsAs) fields c.high
  low : MayHaveField "low_24h" (OrNull CountsAs) fields c.low

/-- Is the symbol the value as it is shown, in upper case? -/
def IsShown (v : Json) (symbol : String) : Prop := symbol = String.ofList (Text.upper v.display.toList)

/-- Is the value a string, and the symbol its text in upper case? -/
def IsUpper (v : Json) (symbol : String) : Prop :=
  ∃ text, IsText v text ∧ symbol = String.ofList (Text.upper text.toList)

theorem accepts_symbolOf : Rule.Accepts symbolOf IsShown := by
  intro v symbol
  simp [symbolOf, IsShown, eq_comm]

theorem not_countsAs_null (x : Binary64) : ¬ CountsAs .null x := nofun

theorem not_countsAsWhole_null (i : Int) : ¬ CountsAsWhole .null i := nofun

theorem accepts_optionalNumber : Rule.Accepts (Rule.optional (Rule.number .data)) (OrNull CountsAs) :=
  Rule.accepts_number.optional not_countsAs_null

theorem accepts_optionalInteger : Rule.Accepts (Rule.optional Rule.integer) (OrNull CountsAsWhole) :=
  Rule.accepts_integer.optional not_countsAsWhole_null

/-- **A row is read** into a coin exactly if its fields hold the coin. -/
theorem exists_ofJson_eq : ∃ check, ofJson = Rule.record "CoinMarket" check ∧
    ∀ fields c, check fields = .ok c ↔ IsRow IsShown fields c := by
  refine ⟨_, rfl, fun fields c => ⟨fun h => ?_, fun h => ?_⟩⟩
  · obtain ⟨_, low, h₁, hlow, rfl⟩ := Checked.ap_eq_ok h
    obtain ⟨_, high, h₂, hhigh, rfl⟩ := Checked.ap_eq_ok h₁
    obtain ⟨_, rank, h₃, hrank, rfl⟩ := Checked.ap_eq_ok h₂
    obtain ⟨_, marketCap, h₄, hmarketCap, rfl⟩ := Checked.ap_eq_ok h₃
    obtain ⟨_, change, h₅, hchange, rfl⟩ := Checked.ap_eq_ok h₄
    obtain ⟨_, price, h₆, hprice, rfl⟩ := Checked.ap_eq_ok h₅
    obtain ⟨_, name, h₇, hname, rfl⟩ := Checked.ap_eq_ok h₆
    obtain ⟨_, symbol, h₈, hsymbol, rfl⟩ := Checked.ap_eq_ok h₇
    obtain ⟨id, hid, rfl⟩ := Checked.map_eq_ok h₈
    exact {
      id := Rule.accepts_string.required.mp hid
      symbol := accepts_symbolOf.required.mp hsymbol
      name := Rule.accepts_string.required.mp hname
      price := Rule.accepts_number.required.mp hprice
      change := accepts_optionalNumber.defaulted.mp hchange
      marketCap := accepts_optionalNumber.defaulted.mp hmarketCap
      rank := accepts_optionalInteger.defaulted.mp hrank
      high := accepts_optionalNumber.defaulted.mp hhigh
      low := accepts_optionalNumber.defaulted.mp hlow }
  · simp only [Rule.accepts_string.required.mpr h.id, accepts_symbolOf.required.mpr h.symbol,
      Rule.accepts_string.required.mpr h.name, Rule.accepts_number.required.mpr h.price,
      accepts_optionalNumber.defaulted.mpr h.change, accepts_optionalNumber.defaulted.mpr h.marketCap,
      accepts_optionalInteger.defaulted.mpr h.rank, accepts_optionalNumber.defaulted.mpr h.high,
      accepts_optionalNumber.defaulted.mpr h.low]
    rfl

theorem rows_eq_ok_iff_isListOf : rows source "CoinMarket" ofJson v = .ok coins ↔
    IsListOf (IsRow IsShown) v coins := by
  obtain ⟨check, hcheck, haccepts⟩ := exists_ofJson_eq
  rw [hcheck]
  exact rows_eq_ok_iff haccepts

/-! ### Symbols -/

/-- Is the symbol a string, if the value is an object that has one? -/
def HasTextSymbol (v : Json) : Prop :=
  ∀ fields, v = .object fields → ∀ w, field? "symbol" fields = some w → ∃ text, IsText w text

/-- Is each symbol in a list of objects a string? -/
def SymbolsAreTexts (v : Json) : Prop := ∀ items, v = .array items → ∀ item ∈ items, HasTextSymbol item

/-- A string is shown as its text. -/
theorem isUpper_iff {w : Json} {symbol : String} :
    IsUpper w symbol ↔ (∃ text, IsText w text) ∧ IsShown w symbol := by
  constructor
  · rintro ⟨text, htext, rfl⟩
    refine ⟨⟨text, htext⟩, ?_⟩
    cases htext <;> rfl
  · rintro ⟨⟨text, htext⟩, hshown⟩
    refine ⟨text, htext, hshown.trans ?_⟩
    cases htext <;> rfl

theorem isRow_isUpper_iff : IsRow IsUpper fields c ↔
    HasTextSymbol (.object fields) ∧ IsRow IsShown fields c := by
  constructor
  · intro h
    obtain ⟨w, hw, hupper⟩ := h.symbol
    obtain ⟨htext, hshown⟩ := isUpper_iff.mp hupper
    refine ⟨?_, { h with symbol := ⟨w, hw, hshown⟩ }⟩
    intro fields' hfields w' hw'
    obtain rfl := Json.object.inj hfields
    rw [hw] at hw'
    obtain rfl := Option.some.inj hw'
    exact htext
  · rintro ⟨htexts, h⟩
    obtain ⟨w, hw, hshown⟩ := h.symbol
    exact { h with symbol := ⟨w, hw, isUpper_iff.mpr ⟨htexts fields rfl w hw, hshown⟩⟩ }

/-- The rows whose symbols are texts are told apart from the others by that alone. -/
theorem isListOf_isUpper_iff : IsListOf (IsRow IsUpper) v coins ↔
    IsListOf (IsRow IsShown) v coins ∧ SymbolsAreTexts v := by
  have hitem (item : Json) (c : Coin) : (∃ fields, item = .object fields ∧ IsRow IsUpper fields c) ↔
      HasTextSymbol item ∧ ∃ fields, item = .object fields ∧ IsRow IsShown fields c := by
    constructor
    · rintro ⟨fields, rfl, h⟩
      exact ⟨(isRow_isUpper_iff.mp h).1, fields, rfl, (isRow_isUpper_iff.mp h).2⟩
    · rintro ⟨htext, fields, rfl, h⟩
      exact ⟨fields, rfl, isRow_isUpper_iff.mpr ⟨htext, h⟩⟩
  simp only [IsListOf, hitem, List.forall₂_and_left]
  constructor
  · rintro ⟨items, rfl, htexts, hrows⟩
    refine ⟨⟨items, rfl, hrows⟩, fun items' hitems => ?_⟩
    rwa [← Json.array.inj hitems]
  · rintro ⟨⟨items, rfl, hrows⟩, htexts⟩
    exact ⟨items, rfl, htexts items rfl, hrows⟩

/-- **Market rows.** An answer is read into coins exactly if it is a list of objects that hold them one by one,
where a symbol may be any value that can be shown; any other answer is a misfit of its source. The lists of
objects with strings for their symbols are just the ones among these in which each symbol is a string. -/
theorem rows_ok_or_misfit (source : String) (v : Json) :
    (∀ coins, rows source "CoinMarket" ofJson v = .ok coins ↔ IsListOf (IsRow IsShown) v coins) ∧
    ((∃ coins, rows source "CoinMarket" ofJson v = .ok coins) ∨
      ∃ m, rows source "CoinMarket" ofJson v = .error (.misfit source m)) ∧
    ∀ coins, IsListOf (IsRow IsUpper) v coins ↔
      rows source "CoinMarket" ofJson v = .ok coins ∧ SymbolsAreTexts v := by
  refine ⟨fun coins => rows_eq_ok_iff_isListOf, ?_, fun coins => ?_⟩
  · cases h : rows source "CoinMarket" ofJson v with
    | ok coins => exact .inl ⟨coins, rfl⟩
    | error f =>
      obtain ⟨m, rfl⟩ := exists_misfit h
      exact .inr ⟨m, rfl⟩
  · rw [rows_eq_ok_iff_isListOf]
    exact isListOf_isUpper_iff

/-- An answer with a row whose symbol is null. -/
def nameless : Json := .array [.object [("id", .string "bitcoin"), ("symbol", .null),
  ("name", .string "Bitcoin"), ("current_price", .int 2)]]

/-- A row whose symbol is null is read. -/
theorem rows_nameless :
    rows "coingecko" "CoinMarket" ofJson nameless =
      .ok [⟨"bitcoin", "NONE", "Bitcoin", 2, none, none, none, none, none⟩] ∧
    ¬ ∃ coins, IsListOf (IsRow IsUpper) nameless coins := by
  refine ⟨eq_ok_of_toOption (by decide +kernel), ?_⟩
  rintro ⟨coins, h⟩
  obtain ⟨-, htexts⟩ := isListOf_isUpper_iff.mp h
  obtain ⟨text, htext⟩ := htexts _ rfl _ (List.mem_singleton_self _) _ rfl .null rfl
  cases htext

end Coin

end PipeScript
