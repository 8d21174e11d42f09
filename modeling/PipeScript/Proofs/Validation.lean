import PipeScript.Validation

/-!
# What checks accept

A check of a record accepts what its fields' checks accept, and nothing else: each field that is needed has to
be there, each other one may be left out, and what is there keeps its rule. What was read from a field is
within its bounds, whether the field is there or left out.

## The model

A check is described by a relation between the values that it accepts and what it makes of them
(`Rule.Accepts`). The relations for texts, numbers and whole numbers say case by case which kinds of values
there are, and leave to the numerals' own rules which strings spell a number.
-/

namespace PipeScript

theorem eq_ok_of_toOption {ε α : Type} {r : Except ε α} {a : α} (h : r.toOption = some a) : r = .ok a := by
  cases r with
  | error e => cases h
  | ok b => exact congrArg _ (Option.some.inj h)

/-- Another error does not make a result of one. -/
theorem mapError_eq_ok_iff {ε ε' α : Type} {f : ε → ε'} {r : Except ε α} {a : α} :
    r.mapError f = .ok a ↔ r = .ok a := by
  cases r with
  | error e => exact ⟨nofun, nofun⟩
  | ok x =>
    constructor
    · intro h
      exact congrArg Except.ok (Except.ok.inj h)
    · intro h
      exact congrArg Except.ok (Except.ok.inj h)

theorem exists_of_isSome_toOption {ε α : Type} {r : Except ε α} (h : r.toOption.isSome = true) :
    ∃ a, r = .ok a := by
  cases r with
  | error e => cases h
  | ok a => exact ⟨a, rfl⟩

theorem Checked.ap_eq_ok {α β : Type} {f : Checked (α → β)} {a : Checked α} {b : β}
    (h : Checked.ap f a = .ok b) : ∃ g x, f = .ok g ∧ a = .ok x ∧ b = g x := by
  cases f with
  | error es => cases a <;> cases h
  | ok g =>
    cases a with
    | error es => cases h
    | ok x => exact ⟨g, x, rfl, rfl, (Except.ok.inj h).symm⟩

theorem Checked.map_eq_ok {α β : Type} {f : α → β} {a : Checked α} {b : β} (h : a.map f = .ok b) :
    ∃ x, a = .ok x ∧ b = f x := by
  cases a with
  | error es => cases h
  | ok x => exact ⟨x, rfl, (Except.ok.inj h).symm⟩

theorem Checked.within_eq_ok_iff {α : Type} {s : Segment} {a : Checked α} {x : α} :
    Checked.within s a = .ok x ↔ a = .ok x := by
  cases a <;> simp [Checked.within]

/-! ### Kinds of values -/

namespace Json

/-- Is the value a string, and is this its text? -/
inductive IsText : Json → String → Prop
  | string (s : String) : IsText (.string s) s
  | broken (points : List Nat) : IsText (.broken points) (Text.ofPoints points)

/-- Does the value count as this number? -/
inductive CountsAs : Json → Binary64 → Prop
  | number (x : Binary64) : CountsAs (.number x) x
  /-- A whole number within the range of numbers. -/
  | int {i : Int} (h : (Binary64.ofInt i).isInfinite = false) : CountsAs (.int i) (.ofInt i)
  | truth (b : Bool) : CountsAs (.bool b) (if b then 1 else 0)
  | numeral {s : String} {x : Binary64} (h : Rule.readNumber? s.toList = some x) : CountsAs (.string s) x

/-- Does the value count as this whole number? -/
inductive CountsAsWhole : Json → Int → Prop
  | int (i : Int) : CountsAsWhole (.int i) i
  /-- A number without a fractional part, of less than 64 bits. -/
  | number {x : Binary64} {i : Int} (h : x.toInt? = some i) (hi : i.natAbs < Binary64.twoPow 63) :
    CountsAsWhole (.number x) i
  | truth (b : Bool) : CountsAsWhole (.bool b) (if b then 1 else 0)
  | numeral {s : String} {i : Int} (h : Rule.readInteger s.toList = .ok i) : CountsAsWhole (.string s) i

/-- Is the value null, or does it stand in the relation to what there is? -/
inductive OrNull {α : Type} (R : Json → α → Prop) : Json → Option α → Prop
  | null : OrNull R .null none
  | value {v : Json} {a : α} (h : R v a) : OrNull R v (some a)

/-- Is the field there, and does its value stand in the relation? -/
def HasField {α : Type} (name : String) (R : Json → α → Prop) (fields : Fields) (a : α) : Prop :=
  ∃ v, field? name fields = some v ∧ R v a

/-- Is the field left out, or does its value stand in the relation? -/
def MayHaveField {α : Type} (name : String) (R : Json → Option α → Prop) (fields : Fields)
    (a : Option α) : Prop :=
  (field? name fields = none ∧ a = none) ∨ HasField name R fields a

end Json

namespace Rule

section Accepts

variable {α : Type} {name : String} {check : Json → Checked α} {R : Json → α → Prop} {a : α}
  {fields : Json.Fields} {v : Json}

/-- Does the check accept just the values that stand in the relation to something, and give that? -/
def Accepts (check : Json → Checked α) (R : Json → α → Prop) : Prop := ∀ v a, check v = .ok a ↔ R v a

theorem accepts_string : Accepts string Json.IsText := by
  intro v s
  constructor
  · intro h
    cases v with
    | string t =>
      obtain rfl := Except.ok.inj h
      exact .string t
    | broken points =>
      obtain rfl := Except.ok.inj h
      exact .broken points
    | _ => cases h
  · rintro (_ | _) <;> rfl

theorem wholeNumber_eq_ok_iff {i : Int} {x : Binary64} : wholeNumber .data i = .ok x ↔
    (Binary64.ofInt i).isInfinite = false ∧ x = Binary64.ofInt i := by
  rw [wholeNumber]
  by_cases h : (Binary64.ofInt i).isInfinite = true
  · simp [h, Checked.fail]
  · simp [h, eq_comm]

theorem number_int (origin : Origin) (i : Int) : number origin (.int i) = wholeNumber origin i := by
  simp only [number]

theorem accepts_number : Accepts (number .data) Json.CountsAs := by
  intro v x
  constructor
  · intro h
    cases v with
    | int i =>
      rw [number_int] at h
      obtain ⟨hi, hx⟩ := wholeNumber_eq_ok_iff.mp h
      rw [hx]
      exact .int hi
    | number y =>
      obtain rfl := Except.ok.inj h
      exact .number y
    | bool b =>
      obtain rfl := Except.ok.inj h
      exact .truth b
    | string s =>
      rw [number] at h
      split at h
      · rename_i y hy
        obtain rfl := Except.ok.inj h
        exact .numeral hy
      · cases h
    | _ => cases h
  · intro h
    cases h with
    | number => rfl
    | int hi => rw [number_int, wholeNumber_eq_ok_iff.mpr ⟨hi, rfl⟩]
    | truth => rfl
    | numeral h => rw [number, h]

theorem orProblem_eq_ok_iff {r : Except FieldProblem α} : orProblem v r = .ok a ↔ r = .ok a :=
  mapError_eq_ok_iff

theorem optional_of_ne_null (h : v ≠ .null) : Rule.optional check v = (check v).map some := by
  cases v <;> first | rfl | exact absurd rfl h

theorem integerOf_eq_ok_iff {x : Binary64} {i : Int} :
    integerOf x = .ok i ↔ x.toInt? = some i ∧ i.natAbs < Binary64.twoPow 63 := by
  cases x with
  | nan => simp [integerOf, Binary64.toInt?]
  | infinite => simp [integerOf, Binary64.toInt?]
  | finite negative units =>
    rw [integerOf]
    cases Binary64.toInt? (.finite negative units) with
    | none => simp
    | some j =>
      by_cases hj : j.natAbs < Binary64.twoPow 63
      · simp only [if_pos hj, Except.ok.injEq, Option.some.injEq]
        exact ⟨fun h => ⟨h, h ▸ hj⟩, And.left⟩
      · simp only [if_neg hj, Option.some.injEq, reduceCtorEq, false_iff, not_and]
        exact fun h => h ▸ hj

theorem accepts_integer : Accepts integer Json.CountsAsWhole := by
  intro v i
  constructor
  · intro h
    cases v with
    | int j =>
      obtain rfl := Except.ok.inj h
      exact .int j
    | bool b =>
      obtain rfl := Except.ok.inj h
      exact .truth b
    | number x =>
      obtain ⟨hx, hi⟩ := integerOf_eq_ok_iff.mp (orProblem_eq_ok_iff.mp h)
      exact .number hx hi
    | string s => exact .numeral (orProblem_eq_ok_iff.mp h)
    | _ => cases h
  · intro h
    cases h with
    | int => rfl
    | truth => rfl
    | number hx hi => exact orProblem_eq_ok_iff.mpr (integerOf_eq_ok_iff.mpr ⟨hx, hi⟩)
    | numeral h => exact orProblem_eq_ok_iff.mpr h

theorem Accepts.optional (h : Accepts check R) (hnull : ∀ a, ¬ R .null a) :
    Accepts (optional check) (Json.OrNull R) := by
  intro v a
  constructor
  · intro hv
    by_cases hnull : v = .null
    · subst hnull
      obtain rfl := Except.ok.inj hv
      exact .null
    · rw [optional_of_ne_null hnull] at hv
      obtain ⟨x, hx, rfl⟩ := Checked.map_eq_ok hv
      exact .value ((h v x).mp hx)
  · intro hv
    cases hv with
    | null => rfl
    | @value _ x hx =>
      have hne : v ≠ .null := by
        rintro rfl
        exact hnull x hx
      rw [optional_of_ne_null hne, (h v x).mpr hx]
      rfl

theorem Accepts.required (h : Accepts check R) :
    required name check fields = .ok a ↔ Json.HasField name R fields a := by
  rw [Rule.required, Json.HasField]
  cases Json.field? name fields with
  | none => simp
  | some v => simp [Checked.within_eq_ok_iff, h v a]

theorem Accepts.defaulted {check : Json → Checked (Option α)} {R : Json → Option α → Prop}
    {a : Option α} (h : Accepts check R) :
    defaulted name check none fields = .ok a ↔ Json.MayHaveField name R fields a := by
  rw [Rule.defaulted, Json.MayHaveField, Json.HasField]
  cases Json.field? name fields with
  | none => simp [eq_comm]
  | some v => simp [Checked.within_eq_ok_iff, h v a]

theorem record_eq_ok_iff {check : Json.Fields → Checked α} :
    record name check v = .ok a ↔ ∃ fields, v = .object fields ∧ check fields = .ok a := by
  cases v <;> simp [record, Checked.fail]

end Accepts

variable {α : Type} {holds : α → Bound → Bool} {read : Json → Checked α} {bounds : List Bound}

/-- What was read within bounds keeps them. -/
theorem keeps_of_bounded {v : Json} {a b : α} (h : bounded holds bounds v a = .ok b) :
    b = a ∧ ∀ bound ∈ bounds, holds b bound = true := by
  rw [bounded] at h
  split at h
  · cases h
  · rename_i hnone
    obtain rfl := Except.ok.inj h
    exact ⟨rfl, by simpa using hnone⟩

/-- A field that may be left out keeps its bounds, if its default does. -/
theorem keeps_of_defaulted {name : String} {default a : α} {fields : Json.Fields}
    (hdefault : ∀ bound ∈ bounds, holds default bound = true)
    (h : defaulted name (fun v => (read v).bind (bounded holds bounds v)) default fields = .ok a) :
    ∀ bound ∈ bounds, holds a bound = true := by
  rw [defaulted] at h
  split at h
  · rename_i v _
    cases hread : read v with
    | error es =>
      rw [hread] at h
      cases h
    | ok b =>
      rw [hread, Except.bind] at h
      cases hbounded : bounded holds bounds v b with
      | error es =>
        rw [hbounded] at h
        cases h
      | ok c =>
        rw [hbounded] at h
        obtain rfl := Except.ok.inj h
        exact (keeps_of_bounded hbounded).2
  · obtain rfl := Except.ok.inj h
    exact hdefault

end Rule

end PipeScript
