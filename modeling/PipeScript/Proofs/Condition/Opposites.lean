import PipeScript.Condition
import Mathlib.Data.Bool.Basic

/-!
# Opposite conditions

A guarded block has no other branch, so scripts guard two blocks with opposite conditions. Exactly one of
two opposite conditions holds of a value, and so it is with `<` and `>=`, and with `>` and `<=`, between
two numbers and between two texts. Numerals are compared as the numbers that they mean, though, and one of
them means none: `nan` is neither below a number nor above it nor equal to it.

## The model

`Operator.opposite` gives the operator that asks the opposite question. `Condition.Incomparable` says of two
texts, without comparing them, that both are numerals and that one of them spells `nan`, in any letter case
and perhaps with a sign or blanks beside it.

Main results: a condition and its opposite are complementary unless they are orders and their sides are
incomparable (`Condition.holds_opposite`), and no order holds of incomparable sides
(`Condition.holds_of_incomparable`), so that two opposite orders are complementary exactly if the sides are
not incomparable (`Condition.opposite_orders_iff`).
-/

namespace PipeScript

/-! ### Numerals that mean no number -/

namespace Binary64

variable {x y : Binary64} {s : List Char} {negative : Bool}

/-- Is it no number? -/
def IsNan : Binary64 → Prop
  | nan _ => True
  | _ => False

/-- **Numbers are ordered**: of two numbers the second is not below the first, or the first is below it. -/
theorem le_eq_not_lt (hx : ¬x.IsNan) (hy : ¬y.IsNan) : le y x = !lt x y := by
  cases x with
  | nan => exact absurd trivial hx
  | infinite s =>
    cases y with
    | nan => exact absurd trivial hy
    | infinite t => cases s <;> cases t <;> rfl
    | finite t v => cases s <;> rfl
  | finite s u =>
    cases y with
    | nan => exact absurd trivial hy
    | infinite t => cases t <;> rfl
    | finite t v =>
      rw [Bool.eq_iff_iff]
      simp only [le, lt, eq, Bool.or_eq_true, Bool.not_eq_true', decide_eq_true_eq, beq_iff_eq,
        decide_eq_false_iff_not]
      omega

/-- Nothing compares with what is no number. -/
theorem not_ordered_of_isNan (h : x.IsNan ∨ y.IsNan) : lt x y = false ∧ le x y = false := by
  cases x with
  | nan => exact ⟨rfl, rfl⟩
  | _ => cases y with
    | nan => exact ⟨rfl, rfl⟩
    | _ => exact (h.elim id id).elim

/-- A quotient is a number. -/
theorem not_isNan_ofRatio (negative : Bool) (num den : Nat) : ¬(ofRatio negative num den).IsNan := by
  simp only [ofRatio, ofUnitRatio]
  split_ifs <;> exact id

theorem not_isNan_ofDecimal (negative : Bool) (m : Nat) (e : Int) : ¬(ofDecimal negative m e).IsNan := by
  simp only [ofDecimal]
  split_ifs
  · exact id
  · exact id
  · exact not_isNan_ofRatio _ _ _
  · exact id
  · exact not_isNan_ofRatio _ _ _

/-- Does the text, with the sign and the blanks taken away, spell `nan`? -/
def SpellsNan (s : List Char) : Prop :=
  ∃ t, plainNumeral? s = some t ∧ (readSign t).2.map Char.toLower = "nan".toList

theorem isNan_of_readMagnitude? (h : readMagnitude? negative s = some x) :
    x.IsNan ↔ s.map Char.toLower = "nan".toList := by
  simp only [readMagnitude?, Bool.or_eq_true, beq_iff_eq] at h
  split_ifs at h with hinf hnan hempty
  · obtain rfl := Option.some.inj h
    refine iff_of_false id fun hs => ?_
    rw [hs] at hinf
    revert hinf
    decide
  · obtain rfl := Option.some.inj h
    exact iff_of_true trivial hnan
  · obtain ⟨e, -, rfl⟩ := Option.map_eq_some_iff.mp h
    exact iff_of_false (not_isNan_ofDecimal _ _ _) hnan

/-- **The numeral that means no number** spells so. -/
theorem isNan_of_read? (h : read? s = some x) : x.IsNan ↔ SpellsNan s := by
  obtain ⟨t, ht, h⟩ := Option.bind_eq_some_iff.mp h
  rw [isNan_of_readMagnitude? h]
  constructor
  · exact fun hnan => ⟨t, ht, hnan⟩
  · rintro ⟨t', ht', hnan⟩
    rw [ht] at ht'
    rwa [Option.some.inj ht']

/-- Sign, blanks and letter case do not matter. -/
example : SpellsNan " -NaN\t".toList := ⟨_, rfl, by decide⟩

end Binary64

/-! ### Opposites -/

namespace Operator

/-- The operator that asks the opposite question. -/
def opposite : Operator → Operator
  | contains => notContains
  | notContains => contains
  | equal => notEqual
  | notEqual => equal
  | less => atLeast
  | atLeast => less
  | greater => atMost
  | atMost => greater

/-- The operators that ask for an order. -/
def orders : List Operator := [less, atLeast, greater, atMost]

end Operator

namespace Condition

variable {l r : List Char} {left right : String} {o : Operator}

/-- Are both texts numerals, and is one of them the numeral that means no number? -/
structure Incomparable (l r : List Char) : Prop where
  left_numeral : (Binary64.read? l).isSome
  right_numeral : (Binary64.read? r).isSome
  spells_nan : Binary64.SpellsNan l ∨ Binary64.SpellsNan r

/-- Two numerals are incomparable if one of them means no number. -/
theorem incomparable_iff {a b : Binary64} (ha : Binary64.read? l = some a) (hb : Binary64.read? r = some b) :
    Incomparable l r ↔ a.IsNan ∨ b.IsNan := by
  rw [Binary64.isNan_of_read? ha, Binary64.isNan_of_read? hb]
  exact ⟨Incomparable.spells_nan, fun h => ⟨by simp [ha], by simp [hb], h⟩⟩

section Comparing

variable {numbers numbers' : Binary64 → Binary64 → Bool} {texts texts' : List Char → List Char → Bool}

/-- Orders that are opposite between numbers and between texts are opposite. -/
theorem compareBy_opposite (hnumbers : ∀ a b, ¬a.IsNan → ¬b.IsNan → numbers' a b = !numbers a b)
    (htexts : ∀ s t, texts' s t = !texts s t) (h : ¬Incomparable l r) :
    compareBy numbers' texts' l r = !compareBy numbers texts l r := by
  unfold compareBy
  cases ha : Binary64.read? l with
  | none => exact htexts l r
  | some a =>
    cases hb : Binary64.read? r with
    | none => exact htexts l r
    | some b =>
      rw [incomparable_iff ha hb, not_or] at h
      exact hnumbers a b h.1 h.2

/-- Incomparable sides are compared as numbers. -/
theorem compareBy_of_incomparable (hnumbers : ∀ a b, a.IsNan ∨ b.IsNan → numbers a b = false)
    (h : Incomparable l r) : compareBy numbers texts l r = false := by
  obtain ⟨a, ha⟩ := Option.isSome_iff_exists.mp h.left_numeral
  obtain ⟨b, hb⟩ := Option.isSome_iff_exists.mp h.right_numeral
  rw [compareBy, ha, hb]
  exact hnumbers a b ((incomparable_iff ha hb).mp h)

end Comparing

/-- An operator that is a word, or asks for equality, is the negation of its opposite. -/
theorem holds_opposite_of_not_order (ho : o ∉ Operator.orders) :
    holds o.opposite left right = !holds o left right := by
  cases o with
  | contains => rfl
  | equal => rfl
  | notContains => exact (Bool.not_not _).symm
  | notEqual => exact (Bool.not_not _).symm
  | _ => exact absurd (by decide) ho

theorem holds_opposite_of_order (ho : o ∈ Operator.orders) (h : ¬Incomparable left.toList right.toList) :
    holds o.opposite left right = !holds o left right := by
  have hless : holds .atLeast left right = !holds .less left right := by
    simp only [holds]
    exact compareBy_opposite (fun _ _ ha hb => Binary64.le_eq_not_lt ha hb) (fun _ _ => rfl) h
  have hgreater : holds .atMost left right = !holds .greater left right := by
    simp only [holds]
    exact compareBy_opposite (fun _ _ ha hb => Binary64.le_eq_not_lt hb ha) (fun _ _ => rfl) h
  cases o with
  | less => exact hless
  | greater => exact hgreater
  | atLeast => rw [hless, Bool.not_not, Operator.opposite]
  | atMost => rw [hgreater, Bool.not_not, Operator.opposite]
  | _ => simp [Operator.orders] at ho

/-- **A condition and its opposite** are complementary, unless they ask for an order of incomparable
sides. -/
theorem holds_opposite (h : o ∈ Operator.orders → ¬Incomparable left.toList right.toList) :
    holds o.opposite left right = !holds o left right := by
  by_cases ho : o ∈ Operator.orders
  · exact holds_opposite_of_order ho (h ho)
  · exact holds_opposite_of_not_order ho

/-- **No order holds of incomparable sides.** -/
theorem holds_of_incomparable (ho : o ∈ Operator.orders) (h : Incomparable left.toList right.toList) :
    holds o left right = false := by
  unfold holds
  cases o with
  | less =>
    exact compareBy_of_incomparable (fun _ _ hn => (Binary64.not_ordered_of_isNan hn).1) h
  | greater =>
    exact compareBy_of_incomparable (fun _ _ hn => (Binary64.not_ordered_of_isNan hn.symm).1) h
  | atMost =>
    exact compareBy_of_incomparable (fun _ _ hn => (Binary64.not_ordered_of_isNan hn).2) h
  | atLeast =>
    exact compareBy_of_incomparable (fun _ _ hn => (Binary64.not_ordered_of_isNan hn.symm).2) h
  | _ => simp [Operator.orders] at ho

/-- Two opposite orders are complementary exactly if the sides are not incomparable. -/
theorem complementary_iff (ho : o ∈ Operator.orders) (field value input : String) (vars : Variables) :
    (evaluate ⟨field, o, value⟩ input vars = true ↔ evaluate ⟨field, o.opposite, value⟩ input vars = false) ↔
      ¬Incomparable (resolve field input vars).toList value.toList := by
  unfold evaluate
  constructor
  · intro h hincomparable
    have hopposite : o.opposite ∈ Operator.orders := by
      revert ho
      cases o <;> decide
    have hholds := h.mpr (holds_of_incomparable hopposite hincomparable)
    rw [holds_of_incomparable ho hincomparable] at hholds
    cases hholds
  · intro h
    rw [holds_opposite fun _ => h, Bool.not_eq_false']

/-- **Opposite orders.** Whatever a field stands for, `<` holds exactly if `>=` does not, and `>` exactly if
`<=` does not, unless it is incomparable with the value; and exactly then none of the four holds. -/
theorem opposite_orders_iff (field value input : String) (vars : Variables) :
    ((evaluate ⟨field, .less, value⟩ input vars = true ↔
        evaluate ⟨field, .atLeast, value⟩ input vars = false) ↔
      ¬Incomparable (resolve field input vars).toList value.toList) ∧
    ((evaluate ⟨field, .greater, value⟩ input vars = true ↔
        evaluate ⟨field, .atMost, value⟩ input vars = false) ↔
      ¬Incomparable (resolve field input vars).toList value.toList) ∧
    ((∀ o ∈ Operator.orders, evaluate ⟨field, o, value⟩ input vars = false) ↔
      Incomparable (resolve field input vars).toList value.toList) := by
  have hless := complementary_iff (o := .less) (by decide) field value input vars
  have hgreater := complementary_iff (o := .greater) (by decide) field value input vars
  refine ⟨hless, hgreater, ?_, fun h o ho => holds_of_incomparable ho h⟩
  intro hnone
  by_contra h
  have hbelow := (hless.mpr h).mpr (hnone .atLeast (by decide))
  rw [hnone .less (by decide)] at hbelow
  cases hbelow

/-- A variable that spells `nan` is neither below five nor at least five, neither above it nor at most. -/
theorem nan_neither_below_nor_above :
    parse "x < 5" = .ok ⟨"x", .less, "5"⟩ ∧ parse "x >= 5" = .ok ⟨"x", .atLeast, "5"⟩ ∧
      ¬(evaluate ⟨"x", .less, "5"⟩ "" [("x", .string "nan")] = true ↔
        evaluate ⟨"x", .atLeast, "5"⟩ "" [("x", .string "nan")] = false) ∧
      ¬(evaluate ⟨"x", .greater, "5"⟩ "" [("x", .string "nan")] = true ↔
        evaluate ⟨"x", .atMost, "5"⟩ "" [("x", .string "nan")] = false) := by
  refine ⟨rfl, rfl, ?_, ?_⟩ <;> decide +kernel

end Condition

end PipeScript
