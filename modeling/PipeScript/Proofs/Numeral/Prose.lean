import PipeScript.Proofs.Condition.Fields

/-!
# Numbers in sentences

A number that is written in a sentence is the first number there, if no digit stands before it. It is found
as it was written, whatever stands around it: dashes, points, digits of other scripts. Only a point right
behind a whole number is taken for a part of it, also where it ends the sentence, so that `5.` is found and
not `5`.

## The model

`Numeral.Written` is a number as one writes it, with a minus sign or without, whole or with a fraction, and
`Numeral.StandsAlone` says that nothing around it goes on with it: no digits before it and no minus sign in
front of it; no digit behind it, and behind a whole number no point with a digit.

Main results: the first number of such a text is the number as it was written, and a point if one stands
right behind a whole number (`Numeral.first_of_standsAlone`); a condition that compares a known field with
the number on its line holds exactly if there is none (`Numeral.number_in_sentence`).
-/

namespace PipeScript

namespace Numeral

open Text

/-! ### Numbers as they are written -/

/-- A number as it is written: an ASCII numeral. -/
structure Written where
  minus : Bool
  whole : List Char
  /-- The digits behind the point; there is no point without them. -/
  fraction : List Char
  whole_ne_nil : whole ≠ []
  whole_digits : ∀ c ∈ whole, isAsciiDigit c = true
  fraction_digits : ∀ c ∈ fraction, isAsciiDigit c = true

namespace Written

/-- The point and what follows it, if there is a fraction. -/
def point (n : Written) : List Char := if n.fraction = [] then [] else '.' :: n.fraction

/-- The number in characters. -/
def text (n : Written) : List Char := (if n.minus then ['-'] else []) ++ (n.whole ++ n.point)

/-- Does a point stand right behind a whole number? -/
def MeetsPoint (n : Written) (behind : List Char) : Prop := n.fraction = [] ∧ behind.head? = some '.'

instance (n : Written) (behind : List Char) : Decidable (n.MeetsPoint behind) :=
  inferInstanceAs (Decidable (_ ∧ _))

end Written

variable {before behind : List Char} {n : Written}

/-- Does nothing around the number go on with it? -/
structure StandsAlone (before : List Char) (n : Written) (behind : List Char) : Prop where
  no_digit : before.any isAsciiDigit = false
  no_minus : before.getLast? ≠ some '-'
  ends : ∀ c ∈ behind.head?, isAsciiDigit c = false
  ends_point : n.fraction = [] → ∀ d rest, behind = '.' :: d :: rest → isAsciiDigit d = false

/-! ### The scan -/

/-- Behind a point, anything but a digit ends the number. -/
theorem body_true_ends (h : ∀ c ∈ behind.head?, isAsciiDigit c = false) : body true behind = [] := by
  cases behind with
  | nil => rfl
  | cons c behind => simp [body, h c rfl]

/-- Of what stands behind a whole number, a point is taken with it. -/
theorem body_of_whole (hends : ∀ c ∈ behind.head?, isAsciiDigit c = false)
    (hpoint : ∀ d rest, behind = '.' :: d :: rest → isAsciiDigit d = false) :
    body false behind = if behind.head? = some '.' then ['.'] else [] := by
  cases behind with
  | nil => rfl
  | cons c behind =>
    have hc := hends c rfl
    by_cases hdot : c = '.'
    · subst hdot
      have hrest : body true behind = [] := by
        refine body_true_ends fun d hd => ?_
        obtain ⟨rest, rfl⟩ := List.head?_eq_some_iff.mp hd
        exact hpoint d rest rfl
      simp [body, hc, hrest]
    · simp [body, hc, hdot]

/-- Behind the whole part, the point and the fraction are taken, and a point behind a whole number. -/
theorem body_of_point (h : StandsAlone before n behind) :
    body false (n.point ++ behind) = n.point ++ if n.MeetsPoint behind then ['.'] else [] := by
  by_cases hfraction : n.fraction = []
  · simpa [Written.point, Written.MeetsPoint, hfraction] using body_of_whole h.ends (h.ends_point hfraction)
  · have hdot : isAsciiDigit '.' = false := by decide
    simp [Written.point, Written.MeetsPoint, hfraction, body, hdot, body_digits true n.fraction_digits,
      body_true_ends h.ends]

/-- **The first number of a sentence** is the one that stands alone there, as it was written, with a point if
that stands right behind a whole number. -/
theorem first_of_standsAlone (h : StandsAlone before n behind) :
    first (before ++ n.text ++ behind) = n.text ++ if n.MeetsPoint behind then ['.'] else [] := by
  have hwhole (minus : Bool) : firstAfter minus (n.whole ++ n.point ++ behind) =
      (if minus then ['-'] else []) ++ (n.whole ++ n.point) ++ if n.MeetsPoint behind then ['.'] else [] := by
    rw [List.append_assoc, firstAfter_digits minus n.whole_ne_nil n.whole_digits, body_of_point h]
    simp only [List.append_assoc]
  have hsign : firstAfter false (n.text ++ behind) = firstAfter n.minus (n.whole ++ n.point ++ behind) := by
    unfold Written.text
    cases n.minus with
    | false => rfl
    | true => rfl
  rw [List.append_assoc, first, firstAfter_words h.no_digit h.no_minus, hsign, hwhole n.minus, Written.text]

/-! ### Conditions -/

/-- Is this the first line of the text that mentions one of the anchors? -/
def IsLookedAt (line : List Char) (anchors : List (List Char)) (s : List Char) : Prop :=
  (lines s).find? (fun l => anchors.any (mentions l)) = some line

theorem anchored_of_isLookedAt {line s : List Char} {anchors : List (List Char)}
    (h : IsLookedAt line anchors s) : anchored s anchors = first line := by
  rw [anchored, h]

/-- **A number in a sentence** is found as it was written, unless it is a whole number with a point right
behind it: then it is found with the point. So a known field is equal to the number on the line that is
looked at exactly if there is no such point. -/
theorem number_in_sentence (h : StandsAlone before n behind) :
    (first (before ++ n.text ++ behind) = n.text ↔ ¬n.MeetsPoint behind) ∧
    (n.MeetsPoint behind → first (before ++ n.text ++ behind) = n.text ++ ['.']) ∧
    ∀ names anchors field input vars, (names, anchors) ∈ Condition.knownFields →
      Condition.Names names field → Variables.get? vars field = none →
      IsLookedAt (before ++ n.text ++ behind) (anchors.map String.toList) input.toList →
      (Condition.evaluate ⟨field, .equal, String.ofList n.text⟩ input vars = true ↔ ¬n.MeetsPoint behind) := by
  have hfirst := first_of_standsAlone h
  have hiff : first (before ++ n.text ++ behind) = n.text ↔ ¬n.MeetsPoint behind := by
    rw [hfirst]
    split_ifs with hpoint <;> simp [hpoint]
  refine ⟨hiff, fun hpoint => by rw [hfirst, if_pos hpoint], ?_⟩
  intro names anchors field input vars hknown hnames hv hline
  rw [← hiff, Condition.evaluate, Condition.resolve_of_anchors hv (Condition.anchors?_of_names hknown hnames),
    anchored_of_isLookedAt hline, Condition.holds, beq_iff_eq, String.ofList_inj]

/-! ### Sentences -/

/-- Minus twelve and a half. -/
def loss : Written where
  minus := true
  whole := ['1', '2']
  fraction := ['5', '0']
  whole_ne_nil := by decide
  whole_digits := List.all_eq_true.mp rfl
  fraction_digits := List.all_eq_true.mp rfl

/-- Five. -/
def five : Written where
  minus := false
  whole := ['5']
  fraction := []
  whole_ne_nil := by decide
  whole_digits := List.all_eq_true.mp rfl
  fraction_digits := List.all_eq_true.mp rfl

theorem standsAlone_loss : StandsAlone "Of ٣-٤ runs in total: ".toList loss ".".toList where
  no_digit := by decide
  no_minus := by decide
  ends := by
    rintro c ⟨⟩
    rfl
  ends_point h := absurd h (by decide)

/-- **A fraction at the end of a sentence**, behind digits of another script and a dash. -/
theorem loss_in_sentence :
    first "Of ٣-٤ runs in total: -12.50.".toList = "-12.50".toList ∧
    Condition.evaluate ⟨"Count", .equal, "-12.50"⟩ "# Report\nOf ٣-٤ runs in total: -12.50." [] = true := by
  have hpoint : ¬loss.MeetsPoint ".".toList := by decide
  obtain ⟨hfirst, -, hcount⟩ := number_in_sentence standsAlone_loss
  refine ⟨hfirst.mpr hpoint, (hcount ["count", "total", "found"] ["found", "total", "count", "results"] _ _ []
    (by decide) (by decide) rfl ?_).mpr hpoint⟩
  show List.find? _ _ = some _
  decide +kernel

/-- **A whole number at the end of a sentence** is found with the point, so that a condition that
compares with it fails. -/
theorem five_at_end_of_sentence :
    StandsAlone "We found ".toList five ".".toList ∧
    "We found ".toList ++ five.text ++ ".".toList = "We found 5.".toList ∧
    first "We found 5.".toList ≠ five.text ∧
    Condition.evaluate ⟨"count", .equal, String.ofList five.text⟩ "We found 5." [] = false := by
  refine ⟨⟨by decide, by decide, ?_, fun _ d rest h => ?_⟩, by decide, by decide, by decide +kernel⟩
  · rintro c ⟨⟩
    rfl
  · cases h

end Numeral

end PipeScript
