import PipeScript.Crypto
import PipeScript.Proofs.Numeral

/-!
# Price reports feed conditions

A condition that asks for `price` or `change` looks the number up in the text of a report. On a
report on coins with finite numbers it finds the price of the first coin without the dollar sign,
and its change without a plus sign, if neither the name nor the symbol of that coin mentions an
anchor of the field (`resolve_price_report`).

Name and symbol stand in the title of the coin, above its numbers. Where they mention an anchor, the
title is the line that is looked at: a coin with the symbol `$WIF` has no price
(`resolve_dogwifhat`).
-/

namespace PipeScript.Crypto

open Text Text.Casing Numeral

variable {c : Coin} {rest : List Coin}

/-! ### The lines of a report -/

/-- The line above the coins. -/
def heading (coins : List Coin) : String :=
  "# Crypto Market (" ++ toString coins.length ++ " coins)"

/-- The arrow of a coin whose price rises, or of one whose price falls. -/
def arrow (c : Coin) : String := if Binary64.le 0 (changeOf c) then "📈" else "📉"

/-- The title of a coin. -/
def titleLine (c : Coin) : String := "## " ++ c.name ++ " (" ++ c.symbol ++ ") " ++ arrow c

/-- The line with the price of a coin. -/
def priceLine (c : Coin) : String :=
  "**Price:** " ++ price c.price ++ " (" ++ Binary64.toSignedFixed 2 (changeOf c) ++ "%)"

/-- The line with the change of a coin's price. -/
def changeLine (c : Coin) : String := "- **Change%:** " ++ Binary64.toSignedFixed 2 (changeOf c)

theorem exists_report (c : Coin) (rest : List Coin) :
    ∃ more ≠ [], report (c :: rest) = "\n".intercalate ([heading (c :: rest), ""] ++
      titleLine c :: ([] ++ priceLine c :: changeLine c :: more)) := by
  refine ⟨rangeLines c ++ capLines c ++ [""] ++ rest.flatMap coinLines, by simp, ?_⟩
  rw [report, List.flatMap_cons]
  have hlines : coinLines c =
      [titleLine c, priceLine c, changeLine c] ++ rangeLines c ++ capLines c ++ [""] := rfl
  rw [hlines]
  simp only [List.append_assoc, List.cons_append, List.nil_append]
  rfl

/-! ### The lines above the numbers -/

theorem toList_heading (coins : List Coin) : (heading coins).toList =
    "# Crypto Market ".toList ++ '(' :: ((toString coins.length).toList ++ " coins)".toList) := by
  show ("# Crypto Market (" ++ toString coins.length ++ " coins)").toList = _
  simp

/-- The heading counts the coins and says nothing of prices. -/
theorem not_mentions_heading {subject : List Char} (h : IsPlain subject)
    (hopen : '(' ∉ lower subject) (hmarket : mentions "# Crypto Market ".toList subject = false)
    (hcoins : (lower subject).any fun d => d ∉ fold " coins)".toList ∧ ¬ IsNumeralChar d)
    (coins : List Coin) : mentions (heading coins).toList subject = false := by
  simp only [List.any_eq_true, decide_eq_true_eq] at hcoins
  obtain ⟨d, hd, hnot, hnumeral⟩ := hcoins
  have hcount : IsPrinted (toString coins.length).toList := isPrinted_toString_nat _
  rw [toList_heading, mentions_append_cons h (by decide) hopen, hmarket, Bool.false_or]
  refine not_mentions h hd ?_
  rw [fold_append, fold_printed hcount, List.mem_append, not_or]
  exact ⟨hcount.not_mem hnumeral, hnot⟩

theorem newline_not_mem_heading (coins : List Coin) : '\n' ∉ (heading coins).toList := by
  simp only [toList_heading, List.mem_append, List.mem_cons, not_or]
  exact ⟨by decide, by decide, (isPrinted_toString_nat _).not_mem (by decide), by decide⟩

theorem toList_titleLine (c : Coin) : (titleLine c).toList = "##".toList ++ ' ' ::
    (c.name.toList ++ ' ' :: ([] ++ '(' :: (c.symbol.toList ++ ')' :: ' ' :: (arrow c).toList))) := by
  simp [titleLine]

theorem arrow_cases (c : Coin) : arrow c = "📈" ∨ arrow c = "📉" := by
  unfold arrow
  split_ifs
  · exact .inl rfl
  · exact .inr rfl

theorem newline_not_mem_titleLine (hname : '\n' ∉ c.name.toList)
    (hsymbol : '\n' ∉ c.symbol.toList) : '\n' ∉ (titleLine c).toList := by
  have harrow : '\n' ∉ (arrow c).toList := by
    rcases arrow_cases c with h | h <;> rw [h] <;> decide
  simp [toList_titleLine, hname, hsymbol, harrow]

/-- Is the subject a word that stands in no title but in a name or a symbol? -/
def IsPlainWord (subject : List Char) : Prop :=
  IsPlain subject ∧ (' ' ∉ lower subject ∧ '(' ∉ lower subject ∧ ')' ∉ lower subject) ∧
    ∀ line ∈ ["##".toList, ' ' :: "📈".toList, ' ' :: "📉".toList], mentions line subject = false

instance (subject : List Char) : Decidable (IsPlainWord subject) :=
  inferInstanceAs (Decidable (_ ∧ _ ∧ _))

/-- The title mentions what the name or the symbol of the coin mentions. -/
theorem mentions_titleLine {subject : List Char} (h : IsPlainWord subject) (c : Coin) :
    mentions (titleLine c).toList subject =
      (mentions c.name.toList subject || mentions c.symbol.toList subject) := by
  obtain ⟨hplain, ⟨hspace, hopen, hclose⟩, hwords⟩ := h
  have harrow : mentions (' ' :: (arrow c).toList) subject = false := by
    rcases arrow_cases c with h | h <;> rw [h] <;> exact hwords _ (by simp)
  rw [toList_titleLine, mentions_append_cons hplain (by decide) hspace,
    mentions_append_cons hplain (by decide) hspace, mentions_append_cons hplain (by decide) hopen,
    mentions_append_cons hplain (by decide) hclose, not_mentions_nil hplain, harrow,
    hwords _ (by simp), Bool.false_or, Bool.false_or, Bool.or_false]

theorem any_mentions_titleLine {subjects : List String}
    (h : ∀ a ∈ subjects, IsPlainWord a.toList) (c : Coin) :
    (subjects.any fun a => mentions (titleLine c).toList a.toList) =
      subjects.any fun a => mentions c.name.toList a.toList || mentions c.symbol.toList a.toList := by
  induction subjects with
  | nil => rfl
  | cons a subjects ih =>
    obtain ⟨ha, h⟩ := List.forall_mem_cons.mp h
    rw [List.any_cons, List.any_cons, ih h, mentions_titleLine ha]

/-! ### The lines with the numbers -/

/-- The text without a sign in front. -/
def withoutSign (sign : Char) (s : String) : String :=
  String.ofList (if s.toList.head? = some sign then s.toList.tail else s.toList)

theorem withoutSign_of_not_mem {sign : Char} {s : String} (h : sign ∉ s.toList) :
    withoutSign sign s = s := by
  have hhead : ¬ s.toList.head? = some sign := fun hs => h (List.mem_of_mem_head? hs)
  rw [withoutSign, if_neg hhead, String.ofList_toList]

theorem isFinite_changeOf (h : ∀ x ∈ c.change, x.IsFinite) : (changeOf c).IsFinite := by
  unfold changeOf
  cases hchange : c.change with
  | none => decide +kernel
  | some x =>
    show (if Binary64.eq x 0 then 0 else x).IsFinite
    split_ifs
    · decide +kernel
    · exact h x hchange

/-- A number that carries its sign is a numeral with perhaps a plus sign in front. -/
theorem exists_sign (places : Nat) (x : Binary64) : ∃ sign : List Char,
    (sign = [] ∨ sign = ['+']) ∧
      (Binary64.toSignedFixed places x).toList = sign ++ (Binary64.toFixed places x).toList := by
  rw [Binary64.toSignedFixed_eq, String.toList_append]
  split_ifs
  · exact ⟨[], .inl rfl, rfl⟩
  · exact ⟨['+'], .inr rfl, rfl⟩

theorem withoutSign_toSignedFixed (places : Nat) {x : Binary64} (hx : x.IsFinite) :
    withoutSign '+' (Binary64.toSignedFixed places x) = Binary64.toFixed places x := by
  have hplus : '+' ∉ (Binary64.toFixed places x).toList :=
    (isPrinted_toFixed places hx).not_mem (by decide)
  rw [Binary64.toSignedFixed_eq]
  split_ifs
  · rw [String.empty_append, withoutSign_of_not_mem hplus]
  · simp [withoutSign]

theorem not_mem_toSignedFixed (places : Nat) {x : Binary64} (hx : x.IsFinite) {d : Char}
    (hd : ¬ IsNumeralChar d) (hplus : d ≠ '+') :
    d ∉ (Binary64.toSignedFixed places x).toList ∧
      d ∉ fold (Binary64.toSignedFixed places x).toList := by
  have hfixed : IsPrinted (Binary64.toFixed places x).toList := isPrinted_toFixed places hx
  obtain ⟨sign, hsign, h⟩ := exists_sign places x
  have hnot : d ∉ sign ∧ d ∉ fold sign := by
    rcases hsign with rfl | rfl
    · exact ⟨List.not_mem_nil, List.not_mem_nil⟩
    · have hfold : fold ['+'] = ['+'] := by decide
      rw [hfold]
      simp [hplus]
  rw [h, fold_append, fold_printed hfixed]
  simp only [List.mem_append, not_or]
  exact ⟨⟨hnot.1, hfixed.not_mem hd⟩, hnot.2, hfixed.not_mem hd⟩

theorem exists_price (p : Binary64) : ∃ places, price p = "$" ++ Binary64.toFixed places p :=
  ⟨_, rfl⟩

theorem toList_priceLine (c : Coin) : (priceLine c).toList = "**Price:** ".toList ++
    (price c.price).toList ++
      (" (".toList ++ (Binary64.toSignedFixed 2 (changeOf c)).toList ++ "%)".toList) := by
  simp [priceLine]

theorem toList_changeLine (c : Coin) : (changeLine c).toList =
    "- **Change%:** ".toList ++ (Binary64.toSignedFixed 2 (changeOf c)).toList := by
  simp [changeLine]

theorem first_priceLine (hprice : c.price.IsFinite) :
    first (priceLine c).toList = (withoutSign '$' (price c.price)).toList := by
  obtain ⟨places, h⟩ := exists_price c.price
  have hline : (priceLine c).toList = "**Price:** $".toList ++
      (Binary64.toFixed places c.price).toList ++
        (" (".toList ++ (Binary64.toSignedFixed 2 (changeOf c)).toList ++ "%)".toList) := by
    simp [toList_priceLine, h]
  rw [hline, first_printed (by decide) (by decide) (isPrinted_toFixed places hprice)
    (by rw [List.append_assoc]; exact EndsNumeral.append (by decide) (by decide) _), h]
  simp [withoutSign]

theorem first_changeLine (hchange : (changeOf c).IsFinite) :
    first (changeLine c).toList =
      (withoutSign '+' (Binary64.toSignedFixed 2 (changeOf c))).toList := by
  obtain ⟨sign, hsign, h⟩ := exists_sign 2 (changeOf c)
  have hwords : ("- **Change%:** ".toList ++ sign).any isAsciiDigit = false ∧
      ("- **Change%:** ".toList ++ sign).getLast? ≠ some '-' := by
    rcases hsign with rfl | rfl <;> decide
  have hfirst := first_printed hwords.1 hwords.2 (isPrinted_toFixed 2 hchange)
    (show EndsNumeral [] by decide)
  rw [toList_changeLine, withoutSign_toSignedFixed 2 hchange, h, ← List.append_assoc]
  simpa using hfirst

theorem newline_not_mem_priceLine (hprice : c.price.IsFinite) (hchange : (changeOf c).IsFinite) :
    '\n' ∉ (priceLine c).toList := by
  obtain ⟨places, h⟩ := exists_price c.price
  simp only [toList_priceLine, h, String.toList_append, List.mem_append, not_or]
  exact ⟨⟨by decide, by decide, (isPrinted_toFixed places hprice).not_mem (by decide)⟩,
    ⟨by decide, (not_mem_toSignedFixed 2 hchange (by decide) (by decide)).1⟩, by decide⟩

theorem newline_not_mem_changeLine (hchange : (changeOf c).IsFinite) :
    '\n' ∉ (changeLine c).toList := by
  rw [toList_changeLine, List.mem_append, not_or]
  exact ⟨by decide, (not_mem_toSignedFixed 2 hchange (by decide) (by decide)).1⟩

/-- The line with the price says nothing of a change: all the anchors of a change have an `n`. -/
theorem not_mentions_priceLine (hprice : c.price.IsFinite) (hchange : (changeOf c).IsFinite)
    {subject : List Char} (h : IsPlain subject) (hn : 'n' ∈ lower subject) :
    mentions (priceLine c).toList subject = false := by
  obtain ⟨places, hp⟩ := exists_price c.price
  have hfixed : IsPrinted (Binary64.toFixed places c.price).toList := isPrinted_toFixed places hprice
  refine not_mentions h hn ?_
  simp only [toList_priceLine, hp, String.toList_append, fold_append, fold_printed hfixed,
    List.mem_append, not_or]
  exact ⟨⟨by decide, by decide, hfixed.not_mem (by decide)⟩,
    ⟨by decide, (not_mem_toSignedFixed 2 hchange (by decide) (by decide)).2⟩, by decide⟩

/-! ### What conditions find -/

/-- What stands on the line with the price. -/
def priceAnchors : List String := ["Price:", "$", "price"]

/-- The names of the change. -/
def changeNames : List String := ["change", "change%"]

/-- What stands on the line with the change. -/
def changeAnchors : List String := ["Change%", "change", "percent"]

theorem price_known : (["price"], priceAnchors) ∈ Condition.knownFields := by decide

theorem change_known : (changeNames, changeAnchors) ∈ Condition.knownFields := by decide

variable {field : String}

/-- What stands above the first coin is passed over. -/
theorem anchored_report {anchors : List String} {more : List String}
    (hanchors : ∀ a ∈ anchors.map String.toList, IsPlain a ∧ '(' ∉ lower a ∧
      mentions "# Crypto Market ".toList a = false ∧
      (lower a).any fun d => d ∉ fold " coins)".toList ∧ ¬ IsNumeralChar d)
    (coins : List Coin) (hmore : more ≠ []) :
    anchored ("\n".intercalate ([heading coins, ""] ++ more)).toList (anchors.map String.toList) =
      anchored ("\n".intercalate more).toList (anchors.map String.toList) := by
  have hbefore : ∀ l ∈ [heading coins, ""],
      '\n' ∉ l.toList ∧ ∀ a ∈ anchors.map String.toList, mentions l.toList a = false := by
    simp only [List.forall_mem_cons]
    refine ⟨⟨newline_not_mem_heading coins, fun a ha => ?_⟩,
      ⟨by decide, fun a ha => not_mentions_nil (hanchors a ha).1⟩, by simp⟩
    obtain ⟨hplain, hopen, hmarket, hcoins⟩ := hanchors a ha
    exact not_mentions_heading hplain hopen hmarket hcoins coins
  simpa using anchored_append hbefore hmore []

/-- `price` is the price of the first coin, unless its name or symbol mentions an anchor. -/
theorem resolve_price (hname : '\n' ∉ c.name.toList) (hsymbol : '\n' ∉ c.symbol.toList)
    (hprice : c.price.IsFinite) (hchange : (changeOf c).IsFinite)
    (hfield : Condition.Names ["price"] field) :
    Condition.resolve field (report (c :: rest)) [] =
      if ["$", "price"].any fun a => mentions c.name.toList a.toList || mentions c.symbol.toList a.toList
      then String.ofList (first (titleLine c).toList)
      else withoutSign '$' (price c.price) := by
  obtain ⟨more, hmore, hreport⟩ := exists_report c rest
  have htitle := (any_mentions_eq priceAnchors ["$", "price"] (by decide) (by decide) _).trans
    (any_mentions_titleLine (by decide +kernel) c)
  have hhit : ∃ a ∈ priceAnchors.map String.toList, mentions (priceLine c).toList a = true := by
    refine ⟨"Price:".toList, by decide, ?_⟩
    rw [toList_priceLine, List.append_assoc]
    exact mentions_append_left (by decide) (by decide) _
  have hfound := anchored_titled (newline_not_mem_titleLine hname hsymbol)
    (show ∀ l ∈ [], _ from by simp) (newline_not_mem_priceLine hprice hchange) hhit
    (List.cons_ne_nil (changeLine c) more) []
  rw [htitle, first_priceLine hprice, List.append_nil] at hfound
  rw [Condition.resolve_of_names price_known hfield, hreport,
    anchored_report (by decide) _ (List.cons_ne_nil _ _), hfound, apply_ite String.ofList,
    String.ofList_toList]

/-- `change` is the change of the first coin, unless its name or symbol mentions an anchor. -/
theorem resolve_change (hname : '\n' ∉ c.name.toList) (hsymbol : '\n' ∉ c.symbol.toList)
    (hprice : c.price.IsFinite) (hchange : (changeOf c).IsFinite)
    (hfield : Condition.Names changeNames field) :
    Condition.resolve field (report (c :: rest)) [] =
      if ["change", "percent"].any fun a =>
        mentions c.name.toList a.toList || mentions c.symbol.toList a.toList
      then String.ofList (first (titleLine c).toList)
      else withoutSign '+' (Binary64.toSignedFixed 2 (changeOf c)) := by
  obtain ⟨more, hmore, hreport⟩ := exists_report c rest
  have htitle := (any_mentions_eq changeAnchors ["change", "percent"] (by decide) (by decide)
    _).trans (any_mentions_titleLine (by decide +kernel) c)
  have hplain : ∀ a ∈ changeAnchors.map String.toList, IsPlain a ∧ 'n' ∈ lower a := by decide
  have hhit : ∃ a ∈ changeAnchors.map String.toList, mentions (changeLine c).toList a = true := by
    refine ⟨"Change%".toList, by decide, ?_⟩
    rw [toList_changeLine]
    exact mentions_append_left (by decide) (by decide) _
  have hbefore : ∀ l ∈ [priceLine c], '\n' ∉ l.toList ∧
      ∀ a ∈ changeAnchors.map String.toList, mentions l.toList a = false :=
    List.forall_mem_singleton.mpr ⟨newline_not_mem_priceLine hprice hchange, fun a ha =>
      not_mentions_priceLine hprice hchange (hplain a ha).1 (hplain a ha).2⟩
  have hfound := anchored_titled (newline_not_mem_titleLine hname hsymbol) hbefore
    (newline_not_mem_changeLine hchange) hhit hmore []
  rw [htitle, first_changeLine hchange, List.append_nil] at hfound
  rw [Condition.resolve_of_names change_known hfield, hreport,
    anchored_report (by decide) _ (List.cons_ne_nil _ _), List.nil_append]
  refine (congrArg String.ofList hfound).trans ?_
  rw [apply_ite String.ofList, String.ofList_toList]

/-- **Conditions on a price report.** The price is that of the first coin without its dollar sign, and
the change that of the first coin without a plus sign. A name or symbol that mentions an anchor of the
field is searched in their place. -/
theorem resolve_price_report (hname : '\n' ∉ c.name.toList) (hsymbol : '\n' ∉ c.symbol.toList)
    (hprice : c.price.IsFinite) (hchange : ∀ x ∈ c.change, x.IsFinite) (rest : List Coin) :
    (∀ field, Condition.Names ["price"] field →
      Condition.resolve field (report (c :: rest)) [] =
        if ["$", "price"].any fun a =>
          mentions c.name.toList a.toList || mentions c.symbol.toList a.toList
        then String.ofList (first (titleLine c).toList)
        else withoutSign '$' (price c.price)) ∧
    ∀ field, Condition.Names changeNames field →
      Condition.resolve field (report (c :: rest)) [] =
        if ["change", "percent"].any fun a =>
          mentions c.name.toList a.toList || mentions c.symbol.toList a.toList
        then String.ofList (first (titleLine c).toList)
        else withoutSign '+' (Binary64.toSignedFixed 2 (changeOf c)) :=
  ⟨fun _ => resolve_price hname hsymbol hprice (isFinite_changeOf hchange),
    fun _ => resolve_change hname hsymbol hprice (isFinite_changeOf hchange)⟩

/-- A coin that has become dearer. -/
def bitcoin : Coin where
  id := "bitcoin"
  symbol := "BTC"
  name := "Bitcoin"
  price := .ofRatio false 134865 2
  change := some (.ofRatio false 5 2)
  marketCap := none
  rank := some 1
  high := none
  low := none

theorem resolve_bitcoin :
    Condition.resolve "price" (report [bitcoin]) [] = "67432.50" ∧
      Condition.resolve "Change%" (report [bitcoin]) [] = "2.50" := by
  obtain ⟨hprice, hchange⟩ := @resolve_price_report bitcoin (by decide) (by decide)
    (by decide +kernel) (by decide +kernel) []
  exact ⟨(hprice "price" (by decide)).trans (by decide +kernel),
    (hchange "Change%" (by decide)).trans (by decide +kernel)⟩

/-- A coin whose symbol begins with a dollar sign. -/
def dogwifhat : Coin :=
  { bitcoin with id := "dogwifhat", symbol := "$WIF", name := "dogwifhat", price := .ofRatio false 5 2 }

/-- The title of a coin is taken for the line with its price. -/
theorem resolve_dogwifhat :
    '\n' ∉ dogwifhat.name.toList ∧ '\n' ∉ dogwifhat.symbol.toList ∧ dogwifhat.price.IsFinite ∧
      (∀ x ∈ dogwifhat.change, x.IsFinite) ∧ withoutSign '$' (price dogwifhat.price) = "2.50" ∧
      Condition.resolve "price" (report [dogwifhat]) [] = "0" :=
  ⟨by decide, by decide, by decide +kernel, by decide +kernel, by decide +kernel,
    by decide +kernel⟩

end PipeScript.Crypto
