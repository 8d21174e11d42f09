import PipeScript.Binary64.Fixed
import PipeScript.Condition
import PipeScript.Proofs.Json.ReadBack
import PipeScript.Proofs.Text.Search

/-!
# Numbers that reports print are found again

Reports print numbers of two kinds: whole numbers, and finite numbers with a fixed number of decimal
places. Both are printed as a numeral that a search in prose takes whole (`IsPrinted`): digits, a
point among them at most, and a minus sign in front at most. So the first number of a line is the
first one that was printed there (`first_printed`), unless the words before it hold a digit or end
in a minus sign.

Which line a search looks at is decided line by line (`anchored_cons`, `anchored_append`). A printed number has no
letters, so that a line mentions what its words mention (`mentions_iff`, and `fold_printed` for the
numbers among them). The known fields of conditions are looked up that way
(`Condition.resolve_of_names`).
-/

namespace PipeScript

namespace Binary64

/-- Is the number neither infinite nor undefined? -/
def IsFinite : Binary64 → Prop
  | finite .. => True
  | _ => False

instance : DecidablePred IsFinite
  | finite .. => isTrue trivial
  | nan _ => isFalse id
  | infinite _ => isFalse id

/-- Only a number that is not negative carries a plus sign. -/
theorem toSignedFixed_eq (places : Nat) (x : Binary64) :
    toSignedFixed places x = (if x.isNegative then "" else "+") ++ toFixed places x := by
  unfold toSignedFixed toFixed fixed
  cases x <;> cases isNegative _ <;> simp [fixedDigits]

end Binary64

namespace Numeral

open Text Text.Casing

/-! ### Numerals -/

/-- Is the text made of ASCII digits and at most one point among or after them? -/
def IsMagnitude (t : List Char) : Prop :=
  ∃ whole point, t = whole ++ point ∧ whole ≠ [] ∧ (∀ c ∈ whole, isAsciiDigit c = true) ∧
    (point = [] ∨ ∃ fraction, point = '.' :: fraction ∧ ∀ c ∈ fraction, isAsciiDigit c = true)

/-- Is the text a numeral as reports print it, with a minus sign in front at most? -/
def IsPrinted (t : List Char) : Prop := IsMagnitude t ∨ ∃ m, t = '-' :: m ∧ IsMagnitude m

/-- Is the character one of those that numerals are made of? -/
def IsNumeralChar (c : Char) : Prop := isAsciiDigit c = true ∨ c = '-' ∨ c = '.'

instance (c : Char) : Decidable (IsNumeralChar c) := inferInstanceAs (Decidable (_ ∨ _))

theorem IsMagnitude.isNumeralChar {t : List Char} (h : IsMagnitude t) :
    ∀ c ∈ t, IsNumeralChar c := by
  obtain ⟨whole, point, rfl, -, hwhole, rfl | ⟨fraction, rfl, hfraction⟩⟩ := h
  · intro c hc
    exact .inl (hwhole c (by simpa using hc))
  · intro c hc
    rcases List.mem_append.mp hc with hc | hc
    · exact .inl (hwhole c hc)
    · rcases List.mem_cons.mp hc with rfl | hc
      · exact .inr (.inr rfl)
      · exact .inl (hfraction c hc)

theorem IsPrinted.isNumeralChar {t : List Char} (h : IsPrinted t) : ∀ c ∈ t, IsNumeralChar c := by
  rcases h with h | ⟨m, rfl, h⟩
  · exact h.isNumeralChar
  · exact List.forall_mem_cons.mpr ⟨.inr (.inl rfl), h.isNumeralChar⟩

theorem isAsciiDigit_iff {c : Char} :
    isAsciiDigit c = true ↔ 48 ≤ c.val.toNat ∧ c.val.toNat ≤ 57 := by
  simp only [isAsciiDigit, Bool.and_eq_true, decide_eq_true_eq, Char.le_def, UInt32.le_iff_toNat_le]
  rfl

/-- A character of a numeral has no other case. -/
theorem IsNumeralChar.foldChar {c : Char} (h : IsNumeralChar c) : foldChar c = [c] := by
  rcases h with h | rfl | rfl
  · obtain ⟨hlow, hhigh⟩ := isAsciiDigit_iff.mp h
    have hne {d : Char} (hd : 57 < d.val.toNat) : c ≠ d := fun e => by subst e; omega
    have hnotUpper : ¬ (c.val ≥ 'A'.val ∧ c.val ≤ 'Z'.val) := by
      simp only [ge_iff_le, UInt32.le_iff_toNat_le]
      show ¬ (65 ≤ _ ∧ _)
      omega
    have hlower : lowerChar c = [c] := by
      rw [lowerChar, if_pos (by omega)]
      exact congrArg (fun d => [d]) (dif_neg hnotUpper : c.toLower = c)
    rw [Casing.foldChar, if_neg (hne (by decide)), hlower, List.map_singleton, oneSigma,
      if_neg (hne (by decide))]
  · decide
  · decide

theorem fold_printed {t : List Char} (h : IsPrinted t) : fold t = t :=
  fold_eq_self fun c hc => (h.isNumeralChar c hc).foldChar

theorem IsPrinted.not_mem {t : List Char} (h : IsPrinted t) {c : Char} (hc : ¬ IsNumeralChar c) :
    c ∉ t :=
  fun hmem => hc (h.isNumeralChar c hmem)

/-! ### What is printed as a numeral -/

theorem isMagnitude_toDigits (n : Nat) : IsMagnitude (Nat.toDigits 10 n) :=
  ⟨_, [], (List.append_nil _).symm, Nat.toDigits_ne_nil,
    fun _ hc => Binary64.isAsciiDigit_of_mem_toDigits hc, .inl rfl⟩

theorem isPrinted_toString_nat (n : Nat) : IsPrinted (toString n).toList := by
  rw [Nat.toString_eq_repr, Nat.toList_repr]
  exact .inl (isMagnitude_toDigits n)

theorem isPrinted_toString_int (i : Int) : IsPrinted (toString i).toList := by
  rw [Int.toString_eq_repr]
  cases i with
  | ofNat n =>
    rw [Int.repr, Nat.toList_repr]
    exact .inl (isMagnitude_toDigits n)
  | negSucc n =>
    rw [Int.repr, String.toList_append, Nat.toList_repr]
    exact .inr ⟨_, rfl, isMagnitude_toDigits (n + 1)⟩

open Binary64 in
theorem isMagnitude_fixedDigits {style : FixedStyle} (h : style.grouped = false) (n : Nat) :
    IsMagnitude (fixedDigits style n) := by
  have hdigits : ∀ c ∈ List.replicate (style.places + 1 - (Nat.toDigits 10 n).length) '0' ++
      Nat.toDigits 10 n, isAsciiDigit c = true := by
    intro c hc
    rcases List.mem_append.mp hc with hc | hc
    · rw [List.eq_of_mem_replicate hc]
      decide
    · exact Binary64.isAsciiDigit_of_mem_toDigits hc
  simp only [fixedDigits, h]
  set padded := List.replicate (style.places + 1 - (Nat.toDigits 10 n).length) '0' ++
    Nat.toDigits 10 n with hpadded
  have hlength : style.places < padded.length := by
    rw [hpadded, List.length_append, List.length_replicate]
    omega
  refine ⟨_, _, rfl, ?_, fun c hc => hdigits c (List.mem_of_mem_take hc), ?_⟩
  · intro hnil
    have := congrArg List.length hnil
    simp only [Bool.false_eq_true, if_false, List.length_take, List.length_nil] at this
    omega
  · split_ifs
    · exact .inl rfl
    · exact .inr ⟨_, rfl, fun c hc => hdigits c (List.mem_of_mem_drop hc)⟩

open Binary64 in
/-- A finite number is printed as a numeral, with as many places as are asked for. -/
theorem isPrinted_toFixed (places : Nat) {x : Binary64} (hx : x.IsFinite) :
    IsPrinted (toFixed places x).toList := by
  obtain ⟨negative, u, rfl⟩ : ∃ negative units, x = finite negative units := by
    cases x with
    | finite negative u => exact ⟨negative, u, rfl⟩
    | _ => exact hx.elim
  have h : IsMagnitude (fixedDigits ⟨places, false, false⟩
      (roundDiv (u * tenPow places) unitsPerOne)) := isMagnitude_fixedDigits rfl _
  cases negative with
  | false => exact .inl (by simpa [toFixed, fixed, isNegative] using h)
  | true => exact .inr ⟨_, by simp [toFixed, fixed, isNegative], h⟩

/-! ### The first number -/

variable {words t more : List Char}

/-- May the characters stand behind a numeral without going on with it? -/
def EndsNumeral (more : List Char) : Prop :=
  ∀ c ∈ more.head?, isAsciiDigit c = false ∧ c ≠ '.'

-- By cases: there is an instance for statements on all characters, and it tries every one of them.
instance : DecidablePred EndsNumeral
  | [] => isTrue nofun
  | c :: _ => decidable_of_iff (isAsciiDigit c = false ∧ c ≠ '.') (by simp [EndsNumeral])

theorem EndsNumeral.append (h : EndsNumeral words) (hne : words ≠ []) (more : List Char) :
    EndsNumeral (words ++ more) := by
  obtain ⟨c, words, rfl⟩ := List.exists_cons_of_ne_nil hne
  exact h

theorem body_digits (pointSeen : Bool) {ds : List Char} (hds : ∀ c ∈ ds, isAsciiDigit c = true)
    (rest : List Char) : body pointSeen (ds ++ rest) = ds ++ body pointSeen rest := by
  induction ds with
  | nil => rfl
  | cons d ds ih =>
    obtain ⟨hd, hds⟩ := List.forall_mem_cons.mp hds
    simp [body, hd, ih hds]

theorem body_ends (pointSeen : Bool) (h : EndsNumeral more) : body pointSeen more = [] := by
  cases more with
  | nil => rfl
  | cons c more =>
    obtain ⟨hdigit, hpoint⟩ := h c rfl
    simp [body, hdigit, hpoint]

theorem firstAfter_digits (minus : Bool) {ds : List Char} (hne : ds ≠ [])
    (hds : ∀ c ∈ ds, isAsciiDigit c = true) (rest : List Char) :
    firstAfter minus (ds ++ rest) = (if minus then ['-'] else []) ++ ds ++ body false rest := by
  obtain ⟨d, ds, rfl⟩ := List.exists_cons_of_ne_nil hne
  obtain ⟨hd, hds⟩ := List.forall_mem_cons.mp hds
  simp [firstAfter, hd, body_digits false hds]

/-- Words without a digit are passed over. -/
theorem firstAfter_words (h : words.any isAsciiDigit = false) (hlast : words.getLast? ≠ some '-')
    (rest : List Char) : firstAfter false (words ++ rest) = firstAfter false rest := by
  have key (minus : Bool) : firstAfter minus (words ++ rest) =
      firstAfter ((words.getLast?.map (· == '-')).getD minus) rest := by
    clear hlast
    induction words generalizing minus with
    | nil => rfl
    | cons c words ih =>
      obtain ⟨hc, hwords⟩ := Bool.or_eq_false_iff.mp (List.any_cons ▸ h)
      rw [List.cons_append, firstAfter, if_neg (by simp [hc]), ih hwords, List.getLast?_cons]
      cases words.getLast? <;> rfl
  rw [key false]
  cases hl : words.getLast? with
  | none => rfl
  | some c =>
    have hc : c ≠ '-' := fun e => hlast (by rw [hl, e])
    rw [Option.map_some, beq_eq_false_iff_ne.mpr hc]
    rfl

theorem firstAfter_magnitude (minus : Bool) (ht : IsMagnitude t) (hmore : EndsNumeral more) :
    firstAfter minus (t ++ more) = (if minus then ['-'] else []) ++ t := by
  obtain ⟨whole, point, rfl, hne, hwhole, hpoint⟩ := ht
  have hbody : body false (point ++ more) = point := by
    rcases hpoint with rfl | ⟨fraction, rfl, hfraction⟩
    · exact body_ends false hmore
    · have hdigit : isAsciiDigit '.' = false := by decide
      simp [body, hdigit, body_digits true hfraction, body_ends true hmore]
  rw [List.append_assoc, firstAfter_digits minus hne hwhole, hbody, List.append_assoc]

/-- **The first number of a line is the first one printed there.** -/
theorem first_printed (hwords : words.any isAsciiDigit = false)
    (hlast : words.getLast? ≠ some '-') (ht : IsPrinted t) (hmore : EndsNumeral more) :
    first (words ++ t ++ more) = t := by
  rw [List.append_assoc, first, firstAfter_words hwords hlast]
  rcases ht with ht | ⟨m, rfl, hm⟩
  · exact firstAfter_magnitude false ht hmore
  · rw [List.cons_append, firstAfter, if_neg (by decide)]
    exact firstAfter_magnitude true hm hmore

/-! ### Lines that mention a subject -/

theorem mentions_iff_occurs {line subject : List Char} :
    mentions line subject = true ↔ lower subject <:+: lower line :=
  occursIn_iff

/-- Has the subject a letter, and no sigma? -/
def IsPlain (subject : List Char) : Prop :=
  lower subject ≠ [] ∧ smallSigma ∉ lower subject ∧ finalSigma ∉ lower subject

instance (subject : List Char) : Decidable (IsPlain subject) := inferInstanceAs (Decidable (_ ∧ _))

variable {line subject : List Char}

theorem mentions_iff (h : IsPlain subject) :
    mentions line subject = true ↔ lower subject <:+: fold line :=
  mentions_iff_occurs.trans (infix_lower_iff h.2.1 h.2.2)

/-- A line does not mention a subject with a letter that it lacks. -/
theorem not_mentions {c : Char} (h : IsPlain subject) (hc : c ∈ lower subject)
    (hline : c ∉ fold line) : mentions line subject = false :=
  Bool.eq_false_iff.mpr fun hm => hline (((mentions_iff h).mp hm).subset hc)

/-- What a part of a line mentions, the line mentions. -/
theorem mentions_append_left (h : IsPlain subject) (hm : mentions line subject = true)
    (more : List Char) : mentions (line ++ more) subject = true := by
  rw [mentions_iff h, fold_append]
  exact ((mentions_iff h).mp hm).trans (List.prefix_append _ _).isInfix

/-- A subject that lacks a character is mentioned before it or after it. -/
theorem mentions_append_cons {c : Char} (h : IsPlain subject) (hfold : foldChar c = [c])
    (hc : c ∉ lower subject) (a b : List Char) :
    mentions (a ++ c :: b) subject = (mentions a subject || mentions b subject) := by
  rw [Bool.eq_iff_iff, Bool.or_eq_true, mentions_iff h, mentions_iff h, mentions_iff h, fold_append]
  have hcons : fold (c :: b) = c :: fold b := by rw [fold, List.flatMap_cons, hfold]; rfl
  rw [hcons]
  exact infix_append_cons h.1 hc

theorem not_mentions_nil (h : IsPlain subject) : mentions [] subject = false := by
  rw [Bool.eq_false_iff, Ne, mentions_iff_occurs]
  exact fun hi => h.1 (List.eq_nil_of_infix_nil hi)

/-- A line that mentions one of the anchors mentions one of the shortest of them. -/
theorem any_mentions_eq (anchors shortest : List String) (hsub : ∀ a ∈ shortest, a ∈ anchors)
    (hcover : ∀ a ∈ anchors, ∃ b ∈ shortest, occursIn (lower b.toList) (lower a.toList) = true)
    (line : List Char) :
    (anchors.map String.toList).any (mentions line) =
      shortest.any fun a => mentions line a.toList := by
  rw [Bool.eq_iff_iff, List.any_map, List.any_eq_true, List.any_eq_true]
  constructor
  · rintro ⟨a, ha, hm⟩
    obtain ⟨b, hb, hin⟩ := hcover a ha
    exact ⟨b, hb, mentions_iff_occurs.mpr
      ((occursIn_iff.mp hin).trans (mentions_iff_occurs.mp hm))⟩
  · rintro ⟨a, ha, hm⟩
    exact ⟨a, hsub a ha, hm⟩

/-! ### The first line that mentions one of the anchors -/

variable {anchors : List (List Char)} {l : String} {before ls : List String}

theorem toList_intercalate_cons (l : String) (hls : ls ≠ []) :
    ("\n".intercalate (l :: ls)).toList = l.toList ++ '\n' :: ("\n".intercalate ls).toList := by
  obtain ⟨m, ms, rfl⟩ := List.exists_cons_of_ne_nil hls
  simp

/-- Lines are searched one after another. -/
theorem anchored_cons (hl : '\n' ∉ l.toList) (hls : ls ≠ []) (tail : List Char) :
    anchored (("\n".intercalate (l :: ls)).toList ++ tail) anchors =
      if anchors.any (mentions l.toList) then first l.toList
      else anchored (("\n".intercalate ls).toList ++ tail) anchors := by
  rw [toList_intercalate_cons l hls, List.append_assoc, List.cons_append, anchored, lines_append hl,
    List.find?_cons]
  cases anchors.any (mentions l.toList) <;> rfl

/-- Lines that mention no anchor are passed over. -/
theorem anchored_append (hbefore : ∀ l ∈ before, '\n' ∉ l.toList ∧
    ∀ a ∈ anchors, mentions l.toList a = false) (hls : ls ≠ []) (tail : List Char) :
    anchored (("\n".intercalate (before ++ ls)).toList ++ tail) anchors =
      anchored (("\n".intercalate ls).toList ++ tail) anchors := by
  induction before with
  | nil => rfl
  | cons l before ih =>
    obtain ⟨⟨hline, hl⟩, hbefore⟩ := List.forall_mem_cons.mp hbefore
    have hnone : ¬ anchors.any (mentions l.toList) = true := by
      simpa using hl
    rw [List.cons_append, anchored_cons hline (by simp [hls]), if_neg hnone, ih hbefore]

/-- **The line that is looked at.** It is the title if that mentions an anchor, and else the first
line that does. -/
theorem anchored_titled {title hit : String} (htitle : '\n' ∉ title.toList)
    (hbefore : ∀ l ∈ before, '\n' ∉ l.toList ∧ ∀ a ∈ anchors, mentions l.toList a = false)
    (hhit : '\n' ∉ hit.toList) (hmentions : ∃ a ∈ anchors, mentions hit.toList a = true)
    (hls : ls ≠ []) (tail : List Char) :
    anchored (("\n".intercalate (title :: (before ++ hit :: ls))).toList ++ tail) anchors =
      if anchors.any (mentions title.toList) then first title.toList else first hit.toList := by
  have hany : anchors.any (mentions hit.toList) = true := List.any_eq_true.mpr hmentions
  rw [anchored_cons htitle (by simp), anchored_append hbefore (by simp), anchored_cons hhit hls,
    if_pos hany]

end Numeral

/-! ### Known fields -/

namespace Condition

open Text

/-- Is the field one of the names, in any letter case? -/
def Names (names : List String) (field : String) : Prop :=
  String.ofList (lower field.toList) ∈ names

instance (names : List String) (field : String) : Decidable (Names names field) :=
  inferInstanceAs (Decidable (_ ∈ _))

/-- No name stands for two fields. -/
theorem find?_knownFields : ∀ f ∈ knownFields, ∀ name ∈ f.1,
    (knownFields.find? fun g => g.1.any fun other => other.toList == name.toList) = some f := by
  decide

variable {names anchors : List String} {field : String}

theorem anchors?_of_names (hknown : (names, anchors) ∈ knownFields) (h : Names names field) :
    anchors? field.toList = some (anchors.map String.toList) := by
  have hfind := find?_knownFields _ hknown _ h
  rw [String.toList_ofList] at hfind
  rw [anchors?, hfind]
  rfl

/-- Does the field name the value itself? -/
def NamesValue (field : String) : Prop := field = inputField ∨ field = "input"

instance (field : String) : Decidable (NamesValue field) := inferInstanceAs (Decidable (_ ∨ _))

theorem namesValue_iff : (field = inputField || field = "input") = true ↔ NamesValue field := by
  simp [NamesValue]

/-- The names of the value are no known fields. -/
theorem not_namesValue_of_anchors {anchors : List (List Char)} (h : anchors? field.toList = some anchors) :
    ¬NamesValue field := by
  have hnone : anchors? inputField.toList = none ∧ anchors? "input".toList = none := by decide
  rintro (rfl | rfl)
  · cases hnone.1.symm.trans h
  · cases hnone.2.symm.trans h

/-- **A known field that is no variable** stands for the number on the line of one of its anchors. -/
theorem resolve_of_anchors {anchors : List (List Char)} {vars : Variables} (hv : vars.get? field = none)
    (hanchors : anchors? field.toList = some anchors) (input : String) :
    resolve field input vars = String.ofList (Numeral.anchored input.toList anchors) := by
  have hvalue := not_namesValue_of_anchors hanchors
  rw [resolve, if_neg (mt namesValue_iff.mp hvalue), hv]
  simp only [hanchors]

/-- **A known field stands for the first number of the first line that mentions an anchor.** -/
theorem resolve_of_names (hknown : (names, anchors) ∈ knownFields) (h : Names names field)
    (input : String) : resolve field input [] =
      String.ofList (Numeral.anchored input.toList (anchors.map String.toList)) :=
  resolve_of_anchors rfl (anchors?_of_names hknown h) input

end Condition

end PipeScript
