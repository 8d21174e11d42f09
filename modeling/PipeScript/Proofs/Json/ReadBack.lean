import PipeScript.Json.Reader
import PipeScript.Json.Writer
import PipeScript.Proofs.Binary64.Digits
import Mathlib.Data.List.TakeWhile

/-!
# JSON values are read back

What is written as a value is read as the value, wherever a comma or a closing brace follows.

## The model

`ReadsBack` says so of one value, under the limits of a dialect and with any amount of fuel that the
length of its text calls for. Strings are read back whatever they hold, and whole numbers if they do
not have too many digits. For other numbers the rule is carried over from their text alone: a number
whose text is read back by itself is read back inside an object too, because nothing that can follow
a value there could go on a number (`readPlain_append`).

Main results: `readsBack_string`, `readsBack_int`, `readsBack_number`, and `read_object` for an object
whose values are read back, with nothing but blanks behind it (`read_object_append`).
-/

namespace PipeScript.Json

/-- Does the text start with what ends a value inside an object? -/
def EndsValue (more : List Char) : Prop := ∃ c rest, more = c :: rest ∧ (c = ',' ∨ c = '\x7d')

/-- Is the value read back from its text, whatever follows it inside an object? -/
def ReadsBack (d : Dialect) (v : Json) : Prop :=
  ∀ fuel room more, EndsValue more → (write v).length < fuel →
    ∃ rest, readValue d fuel room (skipSpace (write v ++ more)) = .ok (v, rest) ∧
      skipSpace rest = more

/-! ### Texts with something behind them -/

theorem takeWhile_append_stop {p : Char → Bool} {s more : List Char}
    (h : ∀ c ∈ more.head?, p c = false) : (s ++ more).takeWhile p = s.takeWhile p := by
  induction s with
  | nil => cases more with
    | nil => rfl
    | cons c more => simp [h c rfl]
  | cons c s ih => simp [List.takeWhile_cons, ih]

theorem dropWhile_append_stop {p : Char → Bool} {s more : List Char}
    (h : ∀ c ∈ more.head?, p c = false) : (s ++ more).dropWhile p = s.dropWhile p ++ more := by
  induction s with
  | nil => cases more with
    | nil => rfl
    | cons c more => simp [h c rfl]
  | cons c s ih =>
    simp only [List.cons_append, List.dropWhile_cons, ih]
    split <;> rfl

namespace EndsValue

variable {more : List Char}

theorem not_space (h : EndsValue more) : ∀ c ∈ more.head?, isSpace c = false := by
  obtain ⟨c, rest, rfl, rfl | rfl⟩ := h <;> (rintro _ ⟨⟩; decide)

theorem not_digit (h : EndsValue more) : ∀ c ∈ more.head?, Text.isAsciiDigit c = false := by
  obtain ⟨c, rest, rfl, rfl | rfl⟩ := h <;> (rintro _ ⟨⟩; decide)

theorem skipSpace_eq (h : EndsValue more) : skipSpace more = more := by
  have := dropWhile_append_stop (s := []) h.not_space
  simpa [skipSpace] using this

theorem skipSpace_append (h : EndsValue more) (s : List Char) :
    skipSpace (s ++ more) = skipSpace s ++ more :=
  dropWhile_append_stop h.not_space

end EndsValue

/-! ### Strings -/

theorem hexValue?_digitChar : ∀ n < 16, hexValue? (Nat.digitChar n) = some n := by decide

theorem readHex4?_hexDigits {n : Nat} (hn : n < 65536) {rest : List Char} (hr : rest ≠ []) :
    readHex4? (Text.hexDigits 4 n ++ rest) = some (n, rest) := by
  obtain ⟨e, rest, rfl⟩ := List.exists_cons_of_ne_nil hr
  have hv (m : Nat) : hexValue? (Nat.digitChar (m % 16)) = some (m % 16) :=
    hexValue?_digitChar _ (Nat.mod_lt _ (by decide))
  simp only [Text.hexDigits, List.nil_append, List.cons_append, readHex4?, hv,
    Option.bind_eq_bind, Option.bind_some, Option.pure_def, Option.some.injEq, Prod.mk.injEq,
    and_true]
  omega

theorem not_isHalf (c : Char) : Text.isHalf c.toNat = false := by
  have : c.toNat < 0xd800 ∨ 0xdfff < c.toNat ∧ c.toNat < 0x110000 := c.valid
  simp only [Text.isHalf, Bool.and_eq_false_iff, decide_eq_false_iff_not]
  omega

/-- **One character of a string is read back.** -/
theorem readString_escapeChar (d : Dialect) (opening : List Char) (fuel : Nat) (c : Char)
    {rest : List Char} (hr : rest ≠ []) :
    readString d opening (fuel + 1) (escapeChar c ++ rest) =
      (readString d opening fuel rest).map fun (ns, tail) => (c.toNat :: ns, tail) := by
  have short {e : Char} (he : shortEscape? e = some c) (hu : e ≠ 'u') :
      readString d opening (fuel + 1) ('\\' :: e :: rest) =
        (readString d opening fuel rest).map fun (ns, tail) => (c.toNat :: ns, tail) := by
    rw [readString.eq_def]
    simp [he]
  unfold escapeChar
  split_ifs with h₁ h₂ h₃ h₄ h₅ h₆ h₇ h₈
  · exact short (by rw [h₁]; rfl) (by decide)
  · exact short (by rw [h₂]; rfl) (by decide)
  · exact short (by rw [h₃]; rfl) (by decide)
  · exact short (by rw [h₄]; rfl) (by decide)
  · exact short (by rw [h₅]; rfl) (by decide)
  · have hc : Char.ofNat 0x08 = c := by rw [← h₆]; exact Char.ofNat_toNat c
    exact short (by rw [← hc]; rfl) (by decide)
  · have hc : Char.ofNat 0x0c = c := by rw [← h₇]; exact Char.ofNat_toNat c
    exact short (by rw [← hc]; rfl) (by decide)
  · have hlow : c.toNat < 0x20 := h₈
    rw [readString.eq_def]
    simp [readUnicodeEscape, readHex4?_hexDigits (n := c.toNat) (by omega) hr, not_isHalf,
      Except.bind]
  · have hlow : ¬ c.toNat < 0x20 := h₈
    rw [List.singleton_append, readString.eq_def]
    simp [h₁, h₂, hlow]

/-- **A string is read back** up to its closing mark. -/
theorem readString_flatMap (d : Dialect) (opening : List Char) {fuel : Nat} (s rest : List Char)
    (hf : s.length < fuel) :
    readString d opening fuel (s.flatMap escapeChar ++ '"' :: rest) =
      .ok (s.map Char.toNat, rest) := by
  induction s generalizing fuel with
  | nil =>
    obtain ⟨fuel, rfl⟩ := Nat.exists_eq_add_one.mpr hf
    simp [readString]
  | cons c s ih =>
    obtain ⟨fuel, rfl⟩ : ∃ n, fuel = n + 1 := ⟨fuel - 1, by omega⟩
    simp only [List.length_cons, Nat.add_lt_add_iff_right] at hf
    rw [List.flatMap_cons, List.append_assoc, readString_escapeChar _ _ _ _ (by simp), ih hf]
    rfl

theorem any_isHalf_map (s : List Char) : (s.map Char.toNat).any Text.isHalf = false := by
  simp [not_isHalf]

theorem ofPoints_map (s : String) : ofPoints (s.toList.map Char.toNat) = string s := by
  rw [ofPoints, any_isHalf_map]
  simp [Function.comp_def]

theorem nameOfPoints_map (s : String) : nameOfPoints (s.toList.map Char.toNat) = .text s := by
  rw [nameOfPoints, any_isHalf_map]
  simp [Function.comp_def]

theorem length_le_flatMap_escapeChar (s : List Char) : s.length ≤ (s.flatMap escapeChar).length := by
  have hone (c : Char) : 1 ≤ (escapeChar c).length := by
    unfold escapeChar
    split_ifs <;> simp
  induction s with
  | nil => simp
  | cons c s ih =>
    have := hone c
    simp only [List.flatMap_cons, List.length_append, List.length_cons]
    omega

/-- A string with its marks is read back up to what follows it. -/
theorem readString_writeString (d : Dialect) (opening : List Char) (fuel : Nat) (s : String)
    (rest : List Char) (hf : (writeString s).length ≤ fuel + 1) :
    ∃ inside, writeString s ++ rest = '"' :: inside ∧
      readString d opening fuel inside = .ok (s.toList.map Char.toNat, rest) := by
  have hlen := length_le_flatMap_escapeChar s.toList
  simp only [writeString, List.length_append, List.length_cons, List.length_nil] at hf
  exact ⟨_, by simp [writeString], readString_flatMap d opening s.toList rest (by omega)⟩

theorem skipSpace_of_mark (s : List Char) : skipSpace ('"' :: s) = '"' :: s := by
  simp [skipSpace, isSpace]

theorem readsBack_string (d : Dialect) (s : String) : ReadsBack d (.string s) := by
  intro fuel room more hm hf
  obtain ⟨fuel, rfl⟩ : ∃ n, fuel = n + 1 := ⟨fuel - 1, by omega⟩
  obtain ⟨inside, hs, hread⟩ :=
    readString_writeString d (writeString s ++ more) fuel s more (by simpa [write] using hf.le)
  refine ⟨more, ?_, hm.skipSpace_eq⟩
  rw [hs] at hread
  rw [write, hs, skipSpace_of_mark, readValue]
  simp only [hread, Except.map, ofPoints_map]

/-! ### Numbers -/

theorem readFraction_append {s more : List Char} (hm : EndsValue more) :
    readFraction (s ++ more) = ((readFraction s).1, (readFraction s).2 ++ more) := by
  unfold readFraction
  cases s with
  | nil => obtain ⟨c, rest, rfl, rfl | rfl⟩ := hm <;> rfl
  | cons c s =>
    simp only [List.cons_append]
    split
    · rename_i rest heq
      simp only [List.cons.injEq] at heq
      obtain ⟨rfl, rfl⟩ := heq
      simp only [takeWhile_append_stop hm.not_digit, dropWhile_append_stop hm.not_digit]
      split <;> rfl
    · rename_i hne
      split
      · rename_i rest heq
        simp only [List.cons.injEq] at heq
        exact absurd (by rw [heq.1]) (hne (s ++ more))
      · rfl

theorem readSign_append {s more : List Char} (hm : EndsValue more) :
    Binary64.readSign (s ++ more) = ((Binary64.readSign s).1, (Binary64.readSign s).2 ++ more) := by
  cases s with
  | nil => obtain ⟨c, rest, rfl, rfl | rfl⟩ := hm <;> rfl
  | cons c s =>
    unfold Binary64.readSign
    split <;> simp_all

theorem readPower_append {s more : List Char} (hm : EndsValue more) :
    readPower (s ++ more) = ((readPower s).1, (readPower s).2 ++ more) := by
  cases s with
  | nil => obtain ⟨c, rest, rfl, rfl | rfl⟩ := hm <;> rfl
  | cons c s =>
    simp only [List.cons_append, readPower, readSign_append hm,
      takeWhile_append_stop hm.not_digit, dropWhile_append_stop hm.not_digit]
    split
    · split <;> rfl
    · rfl

/-- The digits that a number starts with; nothing stands after a zero. -/
def leadRun (s : List Char) : List Char :=
  match s with
  | '0' :: _ => ['0']
  | _ => s.takeWhile Text.isAsciiDigit

theorem leadRun_append {s more : List Char} (hm : EndsValue more) :
    leadRun (s ++ more) = leadRun s := by
  cases s with
  | nil => obtain ⟨c, rest, rfl, rfl | rfl⟩ := hm <;> rfl
  | cons c s =>
    have ht := takeWhile_append_stop (s := c :: s) hm.not_digit
    unfold leadRun
    simp only [List.cons_append] at ht ⊢
    split
    · simp_all
    · split
      · simp_all
      · exact ht

theorem length_leadRun_le (s : List Char) : (leadRun s).length ≤ s.length := by
  unfold leadRun
  split
  · simp
  · exact (List.takeWhile_sublist _).length_le

/-- What stands behind a number's digits: its fraction, its power and the rest. -/
def afterRun (s : List Char) : List Char × Option Int × List Char :=
  let fraction := readFraction (s.drop (leadRun s).length)
  (fraction.1, readPower fraction.2)

theorem afterRun_append {s more : List Char} (hm : EndsValue more) :
    afterRun (s ++ more) = ((afterRun s).1, (afterRun s).2.1, (afterRun s).2.2 ++ more) := by
  simp only [afterRun, leadRun_append hm, List.drop_append_of_le_length (length_leadRun_le s),
    readFraction_append hm, readPower_append hm]

theorem readNumber_eq (d : Dialect) (negative : Bool) (s : List Char) :
    readNumber d negative s =
      if (leadRun s).isEmpty then none
      else
        let whole := (afterRun s).1.isEmpty && (afterRun s).2.1.isNone
        if (whole || d.countsAll) && d.digitLimit < (leadRun s).length then
          some (.error ⟨.longInteger (leadRun s).length, s⟩)
        else if whole then
          let n : Int := Binary64.digitsValue (leadRun s)
          some (.ok (int (if negative then -n else n), (afterRun s).2.2))
        else
          some (.ok (number (Binary64.ofDecimal negative
            (Binary64.digitsValue (leadRun s ++ (afterRun s).1))
            ((afterRun s).2.1.getD 0 - (afterRun s).1.length)), (afterRun s).2.2)) :=
  rfl

/-- **A number ends where a value ends**: what follows it changes nothing. -/
theorem readNumber_append {d : Dialect} {negative : Bool} {s more tail : List Char} {v : Json}
    (hm : EndsValue more) (h : readNumber d negative s = some (.ok (v, tail))) :
    readNumber d negative (s ++ more) = some (.ok (v, tail ++ more)) := by
  rw [readNumber_eq] at h ⊢
  simp only [leadRun_append hm, afterRun_append hm]
  by_cases h₁ : (leadRun s).isEmpty
  · simp [h₁] at h
  rw [if_neg h₁] at h ⊢
  simp only at h ⊢
  split at h
  · simp at h
  · rename_i h₂
    rw [if_neg h₂]
    split at h
    · rename_i h₃
      simp only [Option.some.injEq, Except.ok.injEq, Prod.mk.injEq] at h
      rw [if_pos h₃, h.1, h.2]
    · rename_i h₃
      simp only [Option.some.injEq, Except.ok.injEq, Prod.mk.injEq] at h
      rw [if_neg h₃, h.1, h.2]

theorem after?_append {word : String} {s more : List Char}
    (hw : ∀ c ∈ more.head?, c ∉ word.toList) :
    after? word (s ++ more) = (after? word s).map (· ++ more) := by
  have hiff : word.toList <+: s ++ more ↔ word.toList <+: s := by
    refine ⟨?_, fun h => h.trans (List.prefix_append _ _)⟩
    intro h
    rcases Nat.le_total word.toList.length s.length with hle | hle
    · exact List.prefix_of_prefix_length_le h (List.prefix_append _ _) hle
    · obtain ⟨t, ht⟩ := List.prefix_of_prefix_length_le (List.prefix_append s more) h hle
      cases t with
      | nil => exact ht ▸ ⟨[], by simp⟩
      | cons c t =>
        rw [← ht, List.prefix_append_right_inj] at h
        obtain ⟨u, rfl⟩ := h
        exact absurd (by rw [← ht]; simp) (hw c rfl)
  simp only [after?, List.isPrefixOf_iff_prefix, hiff]
  split
  · rename_i h
    have hlen : word.length ≤ s.length := by
      rw [← String.length_toList]
      exact h.length_le
    rw [Option.map_some, List.drop_append_of_le_length hlen]
  · rfl

theorem readWord?_append {s more : List Char} (hm : EndsValue more) :
    readWord? (s ++ more) = (readWord? s).map fun (v, tail) => (v, tail ++ more) := by
  have hafter (word : String) (hw : ',' ∉ word.toList ∧ '\x7d' ∉ word.toList) :
      after? word (s ++ more) = (after? word s).map (· ++ more) := by
    refine after?_append ?_
    obtain ⟨c, rest, rfl, rfl | rfl⟩ := hm
    · rintro _ ⟨⟩
      exact hw.1
    · rintro _ ⟨⟩
      exact hw.2
  simp only [readWord?, hafter "null" (by decide), hafter "true" (by decide),
    hafter "false" (by decide), hafter "NaN" (by decide), hafter "Infinity" (by decide),
    hafter "-Infinity" (by decide)]
  cases after? "null" s <;> cases after? "true" s <;> cases after? "false" s <;>
    cases after? "NaN" s <;> cases after? "Infinity" s <;> cases after? "-Infinity" s <;> rfl

/-- A number with or without a minus sign. -/
def readSigned (d : Dialect) (s : List Char) : Option (Except Refusal (Json × List Char)) :=
  match s with
  | '-' :: rest => readNumber d true rest
  | _ => readNumber d false s

theorem readSigned_append {d : Dialect} {s more tail : List Char} {v : Json} (hm : EndsValue more)
    (h : readSigned d s = some (.ok (v, tail))) :
    readSigned d (s ++ more) = some (.ok (v, tail ++ more)) := by
  cases s with
  | nil => simp [readSigned, readNumber] at h
  | cons c s =>
    by_cases hc : c = '-'
    · subst hc
      exact readNumber_append hm h
    · have hne (t : List Char) : readSigned d (c :: t) = readNumber d false (c :: t) := by
        unfold readSigned
        split
        · rename_i heq
          simp only [List.cons.injEq] at heq
          exact absurd heq.1 hc
        · rfl
      rw [hne] at h
      rw [List.cons_append, hne, ← List.cons_append]
      exact readNumber_append hm h

theorem readPlain_eq (d : Dialect) (s : List Char) :
    readPlain d s = match readWord? s with
      | some r => .ok r
      | none => (readSigned d s).getD (.error ⟨.expectedValue, s⟩) :=
  rfl

/-- What follows a plain value inside an object is no part of it. -/
theorem readPlain_append {d : Dialect} {s more tail : List Char} {v : Json} (hm : EndsValue more)
    (h : readPlain d s = .ok (v, tail)) : readPlain d (s ++ more) = .ok (v, tail ++ more) := by
  rw [readPlain_eq] at h ⊢
  rw [readWord?_append hm]
  cases hw : readWord? s with
  | some r =>
    simp only [hw, Except.ok.injEq] at h
    simp [h]
  | none =>
    simp only [hw] at h
    cases hn : readSigned d s with
    | none => simp [hn] at h
    | some r =>
      simp only [hn, Option.getD_some] at h
      subst h
      simp [readSigned_append hm hn]

/-- Does the text start with the mark of a string or the bracket of an array or object? -/
def OpensNested (s : List Char) : Prop :=
  s.head? = some '"' ∨ s.head? = some '[' ∨ s.head? = some '\x7b'

theorem readValue_of_plain {d : Dialect} {fuel room : Nat} {s : List Char} (h : ¬ OpensNested s) :
    readValue d (fuel + 1) room s = readPlain d s := by
  rw [readValue.eq_def]
  simp only
  split
  · exact absurd (.inl rfl) h
  · exact absurd (.inr (.inl rfl)) h
  · exact absurd (.inr (.inr rfl)) h
  · rfl

/-- What starts like a string, an array or an object is read as no number. -/
theorem not_number_of_opensNested {d : Dialect} {fuel room : Nat} {s tail : List Char}
    {x : Binary64} (h : OpensNested s) : readValue d fuel room s ≠ .ok (.number x, tail) := by
  intro hread
  cases fuel with
  | zero => simp [readValue] at hread
  | succ fuel =>
    simp only [OpensNested, List.head?_eq_some_iff] at h
    rcases h with ⟨rest, rfl⟩ | ⟨rest, rfl⟩ | ⟨rest, rfl⟩
    · rw [readValue] at hread
      cases hs : readString d ('"' :: rest) fuel rest with
      | error _ => simp [hs, Except.map] at hread
      | ok p =>
        simp only [hs, Except.map, ofPoints, Except.ok.injEq, Prod.mk.injEq] at hread
        split at hread <;> simp at hread
    · rw [readValue.eq_def] at hread
      simp only at hread
      split at hread
      · simp at hread
      · split at hread
        · simp at hread
        · split at hread
          · simp at hread
          · cases hi : readItems d fuel (room - 1) (skipSpace rest) <;>
              simp [hi, Except.map] at hread
    · rw [readValue.eq_def] at hread
      simp only at hread
      split at hread
      · simp at hread
      · split at hread
        · simp at hread
        · split at hread
          · simp at hread
          · cases hi : readFields d fuel (room - 1) (skipSpace rest) <;>
              simp [hi, Except.map] at hread

theorem readPlain_of_readValue {d : Dialect} {fuel room : Nat} {s tail : List Char} {x : Binary64}
    (h : readValue d fuel room s = .ok (.number x, tail)) :
    ¬ OpensNested s ∧ readPlain d s = .ok (.number x, tail) := by
  have hn : ¬ OpensNested s := fun ho => not_number_of_opensNested ho h
  cases fuel with
  | zero => simp [readValue] at h
  | succ fuel => exact ⟨hn, by rwa [readValue_of_plain hn] at h⟩

/-- What is read as a value and nothing else is a value with blanks around it. -/
theorem exists_readValue_of_read {d : Dialect} {s : List Char} {v : Json} (h : read d s = .ok v) :
    ∃ rest, readValue d (2 * s.length + 2) d.depthLimit (skipSpace s) = .ok (v, rest) ∧
      skipSpace rest = [] := by
  unfold read at h
  split_ifs at h
  cases hr : readValue d (2 * s.length + 2) d.depthLimit (skipSpace s) with
  | error _ => simp [hr, Except.bind] at h
  | ok p =>
    obtain ⟨w, rest⟩ := p
    simp only [hr, Except.bind] at h
    split at h
    · rename_i hrest
      simp only [Except.ok.injEq] at h
      exact ⟨rest, by rw [h], hrest⟩
    · simp at h

theorem opensNested_append {s more : List Char} (hs : s ≠ []) :
    OpensNested (s ++ more) ↔ OpensNested s := by
  obtain ⟨c, s, rfl⟩ := List.exists_cons_of_ne_nil hs
  simp [OpensNested]

/-- **A number that is read back by itself is read back inside an object.** -/
theorem readsBack_number {d : Dialect} {x : Binary64}
    (h : read d (number x).write = .ok (number x)) : ReadsBack d (number x) := by
  intro fuel room more hm hf
  obtain ⟨fuel, rfl⟩ : ∃ n, fuel = n + 1 := ⟨fuel - 1, by omega⟩
  obtain ⟨rest, hread, hrest⟩ := exists_readValue_of_read h
  obtain ⟨hn, hplain⟩ := readPlain_of_readValue hread
  refine ⟨rest ++ more, ?_, by rw [hm.skipSpace_append, hrest, List.nil_append]⟩
  have hne : skipSpace (number x).write ≠ [] := by
    intro hnil
    rw [hnil] at hplain
    simp [readPlain, readWord?, after?, readNumber] at hplain
  rw [hm.skipSpace_append, readValue_of_plain (mt (opensNested_append hne).mp hn)]
  exact readPlain_append hm hplain

/-! ### Whole numbers -/

theorem leadRun_toDigits (n : Nat) {more : List Char}
    (hm : ∀ c ∈ more.head?, Text.isAsciiDigit c = false) :
    leadRun (Nat.toDigits 10 n ++ more) = Nat.toDigits 10 n := by
  by_cases h0 : n = 0
  · subst h0
    rfl
  · unfold leadRun
    split
    · rename_i heq
      refine absurd (Binary64.head?_toDigits n ?_) h0
      obtain ⟨c, ds, hds⟩ := List.exists_cons_of_ne_nil (Nat.toDigits_ne_nil (n := n) (b := 10))
      rw [hds, List.cons_append, List.cons.injEq] at heq
      rw [hds, List.head?_cons, heq.1]
    · rw [takeWhile_append_stop hm]
      exact List.takeWhile_eq_self_iff.mpr fun c hc => Binary64.isAsciiDigit_of_mem_toDigits hc

theorem write_natCast (n : Nat) : (int n).write = Nat.toDigits 10 n := by
  rw [write]
  exact Nat.toList_repr

theorem readNumber_toDigits {d : Dialect} {n : Nat} {more : List Char} (hm : EndsValue more) :
    readNumber d false (Nat.toDigits 10 n ++ more) =
      if d.digitLimit < (Nat.toDigits 10 n).length then
        some (.error ⟨.longInteger (Nat.toDigits 10 n).length, Nat.toDigits 10 n ++ more⟩)
      else some (.ok (int n, more)) := by
  have hf : readFraction more = ([], more) := by
    obtain ⟨c, rest, rfl, rfl | rfl⟩ := hm <;> rfl
  have hp : readPower more = (none, more) := by
    obtain ⟨c, rest, rfl, rfl | rfl⟩ := hm <;> rfl
  have hne : (Nat.toDigits 10 n).isEmpty = false := by simp
  rw [readNumber_eq]
  simp only [leadRun_toDigits n hm.not_digit, afterRun, List.drop_left, hf, hp, hne,
    Binary64.digitsValue_toDigits]
  simp

theorem after?_of_ne (word : String) {a c : Char} {as s : List Char} (hw : word.toList = a :: as)
    (h : a ≠ c) : after? word (c :: s) = none := by
  simp [after?, hw, List.isPrefixOf, h]

theorem ne_of_digit {a c : Char} (hc : Text.isAsciiDigit c = true) (ha : Text.isAsciiDigit a = false) :
    c ≠ a := by
  rintro rfl
  simp [ha] at hc

/-- Is the character one that a number may start with? -/
def StartsNumber (c : Char) : Prop := c = '-' ∨ Text.isAsciiDigit c = true

namespace StartsNumber

variable {c : Char}

theorem ne {a : Char} (hc : StartsNumber c) (ha : a ≠ '-' ∧ Text.isAsciiDigit a = false) : c ≠ a := by
  rcases hc with rfl | hc
  · exact ha.1.symm
  · exact ne_of_digit hc ha.2

theorem skipSpace_eq (hc : StartsNumber c) (s : List Char) : skipSpace (c :: s) = c :: s := by
  have hspace : isSpace c = false := by
    simp [isSpace, hc.ne (a := ' ') (by decide), hc.ne (a := '\t') (by decide),
      hc.ne (a := '\n') (by decide), hc.ne (a := '\r') (by decide)]
  simp [skipSpace, hspace]

theorem not_opensNested (hc : StartsNumber c) (s : List Char) : ¬ OpensNested (c :: s) := by
  simp [OpensNested, hc.ne (a := '"') (by decide), hc.ne (a := '[') (by decide),
    hc.ne (a := '\x7b') (by decide)]

end StartsNumber

theorem readSigned_of_digit {c : Char} (d : Dialect) (hc : Text.isAsciiDigit c = true) (s : List Char) :
    readSigned d (c :: s) = readNumber d false (c :: s) := by
  unfold readSigned
  split
  · rename_i heq
    exact absurd (List.cons.inj heq).1 (ne_of_digit hc (by decide))
  · rfl

theorem readWord?_of_digit {c : Char} (hc : Text.isAsciiDigit c = true) (s : List Char) :
    readWord? (c :: s) = none := by
  have hne {a : Char} (ha : Text.isAsciiDigit a = false) : a ≠ c := (ne_of_digit hc ha).symm
  simp only [readWord?, after?_of_ne "null" rfl (hne (by decide)),
    after?_of_ne "true" rfl (hne (by decide)),
    after?_of_ne "false" rfl (hne (by decide)),
    after?_of_ne "NaN" rfl (hne (by decide)),
    after?_of_ne "Infinity" rfl (hne (by decide)),
    after?_of_ne "-Infinity" rfl (hne (by decide))]
  rfl

/-- What is written as a natural number starts with a digit. -/
theorem exists_digit_of_write (n : Nat) :
    ∃ c s, (int n).write = c :: s ∧ Text.isAsciiDigit c = true := by
  obtain ⟨c, s, hs⟩ := List.exists_cons_of_ne_nil (Nat.toDigits_ne_nil (n := n) (b := 10))
  refine ⟨c, s, by rw [write_natCast, hs], Binary64.isAsciiDigit_of_mem_toDigits (n := n) ?_⟩
  rw [hs]
  exact List.mem_cons_self

theorem readValue_int (d : Dialect) (fuel room n : Nat) {more : List Char} (hm : EndsValue more) :
    readValue d (fuel + 1) room (skipSpace ((int n).write ++ more)) =
      if d.digitLimit < (Nat.toDigits 10 n).length then
        .error ⟨.longInteger (Nat.toDigits 10 n).length, Nat.toDigits 10 n ++ more⟩
      else .ok (int n, more) := by
  obtain ⟨c, s, hs, hc⟩ := exists_digit_of_write n
  have hstarts : StartsNumber c := .inr hc
  have hskip : skipSpace ((int n).write ++ more) = (int n).write ++ more := by
    rw [hs]
    exact hstarts.skipSpace_eq _
  have hnested : ¬ OpensNested ((int n).write ++ more) := by
    rw [hs]
    exact hstarts.not_opensNested _
  have hsigned : readSigned d ((int n).write ++ more) = readNumber d false ((int n).write ++ more) := by
    rw [hs]
    exact readSigned_of_digit d hc _
  have hword : readWord? ((int n).write ++ more) = none := by
    rw [hs]
    exact readWord?_of_digit hc _
  rw [hskip, readValue_of_plain hnested, readPlain_eq, hword, hsigned, write_natCast,
    readNumber_toDigits hm]
  split_ifs <;> rfl

/-- **A whole number is read back**, unless it has too many digits. -/
theorem readsBack_int {d : Dialect} {n : Nat} (h : (Nat.toDigits 10 n).length ≤ d.digitLimit) :
    ReadsBack d (int n) := by
  intro fuel room more hm hf
  obtain ⟨fuel, rfl⟩ : ∃ n, fuel = n + 1 := ⟨fuel - 1, by omega⟩
  refine ⟨more, ?_, hm.skipSpace_eq⟩
  rw [readValue_int d fuel room n hm, if_neg (by omega)]

/-! ### Objects -/

/-- What a row of fields comes to when its first field has been read. -/
theorem readFields_cons {d : Dialect} {fuel room : Nat} {name : String} {v : Json}
    {more : List Char} (hn : (writeString name).length ≤ fuel + 1) :
    readFields d (fuel + 1) room (writeString name ++ ':' :: (write v ++ more)) =
      (readValue d fuel room (skipSpace (write v ++ more))).bind fun (w, rest) =>
        match skipSpace rest with
        | '\x7d' :: tail => .ok ([(.text name, w)], tail)
        | ',' :: more =>
          (readFields d fuel room (skipSpace more)).map fun (fs, tail) =>
            ((.text name, w) :: fs, tail)
        | other => .error ⟨.expectedComma, other⟩ := by
  obtain ⟨inside, hs, hread⟩ := readString_writeString d
    (writeString name ++ ':' :: (write v ++ more)) fuel name (':' :: (write v ++ more)) hn
  rw [hs] at hread ⊢
  have hcolon (s : List Char) : skipSpace (':' :: s) = ':' :: s := by
    simp [skipSpace, isSpace]
  have hok {α β ε : Type} (a : α) (f : α → Except ε β) : (Except.ok a).bind f = f a := rfl
  have hname : (FieldName.text name) = nameOfPoints (name.toList.map Char.toNat) :=
    (nameOfPoints_map name).symm
  have hstep := readFields.eq_def d (fuel + 1) room ('\"' :: inside)
  simp only [hread, hok, hcolon] at hstep
  rw [hname]
  exact hstep

/-- The text of a field. -/
theorem writeFields_cons_cons (name : FieldName) (v : Json) (f : FieldName × Json)
    (fields : Fields) : writeFields ((name, v) :: f :: fields) =
      writeName name ++ ':' :: (write v ++ ',' :: writeFields (f :: fields)) := by
  simp [writeFields]

theorem writeFields_singleton (name : FieldName) (v : Json) :
    writeFields [(name, v)] = writeName name ++ ':' :: write v := by
  simp [writeFields]

/-- Fields whose names are texts. -/
def textFields (fields : List (String × Json)) : Fields := fields.map fun f => (.text f.1, f.2)

/-- The text of fields starts with the mark of a name. -/
theorem exists_mark_of_writeFields (f : String × Json) (fields : List (String × Json)) :
    ∃ s, writeFields (textFields (f :: fields)) = '"' :: s := by
  cases fields with
  | nil => exact ⟨_, writeFields_singleton _ _⟩
  | cons g fields => exact ⟨_, writeFields_cons_cons _ _ _ _⟩

theorem skipSpace_writeFields (f : String × Json) (fields : List (String × Json))
    (tail : List Char) : skipSpace (writeFields (textFields (f :: fields)) ++ tail) =
      writeFields (textFields (f :: fields)) ++ tail := by
  obtain ⟨s, hs⟩ := exists_mark_of_writeFields f fields
  rw [hs, List.cons_append, skipSpace_of_mark]

/-- A field whose value is read back is put in front of what the other fields come to. -/
theorem readFields_step {d : Dialect} {fuel room : Nat} {name : String} {v : Json}
    (hv : ReadsBack d v) (f : String × Json) (fields : List (String × Json)) (tail : List Char)
    (hname : (writeString name).length ≤ fuel) (hvalue : (write v).length < fuel) :
    readFields d (fuel + 1) room (writeFields (textFields ((name, v) :: f :: fields)) ++ tail) =
      (readFields d fuel room (writeFields (textFields (f :: fields)) ++ tail)).map
        fun (fs, tail) => ((.text name, v) :: fs, tail) := by
  have hcons : writeFields (textFields ((name, v) :: f :: fields)) =
      writeString name ++ ':' :: (write v ++ ',' :: writeFields (textFields (f :: fields))) :=
    writeFields_cons_cons _ _ _ _
  obtain ⟨rest, hread, hrest⟩ := hv fuel room
    (',' :: (writeFields (textFields (f :: fields)) ++ tail)) ⟨_, _, rfl, .inl rfl⟩ hvalue
  rw [hcons, List.append_assoc, List.cons_append, List.append_assoc, List.cons_append,
    readFields_cons (by omega), hread]
  simp only [Except.bind, hrest, skipSpace_writeFields]

/-- **Fields are read back** if their values are. -/
theorem readFields_writeFields {d : Dialect} {room : Nat} :
    ∀ {fields : List (String × Json)} {fuel : Nat} {tail : List Char}, fields ≠ [] →
      (∀ f ∈ fields, ReadsBack d f.2) → (writeFields (textFields fields)).length < fuel →
      readFields d fuel room (writeFields (textFields fields) ++ '\x7d' :: tail) =
        .ok (textFields fields, tail)
  | [], _, _, hne, _, _ => absurd rfl hne
  | [(name, v)], fuel, tail, _, hv, hf => by
    obtain ⟨fuel, rfl⟩ : ∃ n, fuel = n + 1 := ⟨fuel - 1, by omega⟩
    have hm : EndsValue ('\x7d' :: tail) := ⟨_, _, rfl, .inr rfl⟩
    have hv : ReadsBack d v := hv (name, v) List.mem_cons_self
    simp only [textFields, List.map_cons, List.map_nil, writeFields_singleton, writeName,
      List.length_append, List.length_cons] at hf ⊢
    obtain ⟨rest, hread, hrest⟩ := hv fuel room _ hm (by omega)
    rw [List.append_assoc, List.cons_append, readFields_cons (by omega), hread]
    simp only [Except.bind, hrest]
  | (name, v) :: g :: fields, fuel, tail, _, hv, hf => by
    obtain ⟨fuel, rfl⟩ : ∃ n, fuel = n + 1 := ⟨fuel - 1, by omega⟩
    obtain ⟨hv₁, hv₂⟩ := List.forall_mem_cons.mp hv
    have hv₁ : ReadsBack d v := hv₁
    have hcons : writeFields (textFields ((name, v) :: g :: fields)) =
        writeString name ++ ':' :: (write v ++ ',' :: writeFields (textFields (g :: fields))) :=
      writeFields_cons_cons _ _ _ _
    simp only [hcons, List.length_append, List.length_cons] at hf
    have ih : readFields d fuel room (writeFields (textFields (g :: fields)) ++ '\x7d' :: tail) =
        .ok (textFields (g :: fields), tail) :=
      readFields_writeFields (List.cons_ne_nil g fields) hv₂ (by omega)
    rw [readFields_step hv₁ g fields _ (by omega) (by omega), ih]
    rfl

/-- A whole number with too many digits ends the reading of the fields. -/
theorem readFields_of_long {d : Dialect} {room n : Nat} {name : String}
    (hn : d.digitLimit < (Nat.toDigits 10 n).length) :
    ∀ {fields : List (String × Json)} {fuel : Nat} {tail : List Char},
      (∀ f ∈ fields, ReadsBack d f.2) →
      (writeFields (textFields (fields ++ [(name, int n)]))).length < fuel →
      ∃ r, readFields d fuel room
        (writeFields (textFields (fields ++ [(name, int n)])) ++ '\x7d' :: tail) = .error r
  | [], fuel, tail, _, hf => by
    obtain ⟨fuel, rfl⟩ : ∃ m, fuel = m + 2 := by
      refine ⟨fuel - 2, ?_⟩
      simp only [List.nil_append, textFields, List.map_cons, List.map_nil, writeFields_singleton,
        writeName, writeString, List.length_append, List.length_cons] at hf
      omega
    have hm : EndsValue ('\x7d' :: tail) := ⟨_, _, rfl, .inr rfl⟩
    simp only [List.nil_append, textFields, List.map_cons, List.map_nil, writeFields_singleton,
      writeName, List.length_append, List.length_cons] at hf ⊢
    rw [List.append_assoc, List.cons_append, readFields_cons (by omega), readValue_int d fuel room n hm,
      if_pos hn]
    exact ⟨_, rfl⟩
  | (name', v) :: fields, fuel, tail, hv, hf => by
    obtain ⟨fuel, rfl⟩ : ∃ m, fuel = m + 1 := ⟨fuel - 1, by omega⟩
    obtain ⟨hv₁, hv₂⟩ := List.forall_mem_cons.mp hv
    have hv₁ : ReadsBack d v := hv₁
    obtain ⟨g, rest, hg⟩ := List.exists_cons_of_ne_nil (l := fields ++ [(name, int n)]) (by simp)
    have hcons : writeFields (textFields ((name', v) :: g :: rest)) =
        writeString name' ++ ':' :: (write v ++ ',' :: writeFields (textFields (g :: rest))) :=
      writeFields_cons_cons _ _ _ _
    rw [List.cons_append, hg] at hf ⊢
    simp only [hcons, List.length_append, List.length_cons] at hf
    obtain ⟨r, ih⟩ : ∃ r, readFields d fuel room
        (writeFields (textFields (fields ++ [(name, int n)])) ++ '\x7d' :: tail) = .error r :=
      readFields_of_long hn hv₂ (by rw [hg]; omega)
    rw [hg] at ih
    rw [readFields_step hv₁ g rest _ (by omega) (by omega), ih]
    exact ⟨r, rfl⟩

theorem readValue_brace {d : Dialect} {fuel room : Nat} (hroom : room ≠ 0) (s : List Char) :
    readValue d (fuel + 1) room ('\x7b' :: '"' :: s) =
      (readFields d fuel (room - 1) ('"' :: s)).map fun (fields, tail) =>
        (object (distinctFields fields), tail) := by
  have hbelow : (room == 0) = false := by simp [hroom]
  rw [readValue.eq_def]
  simp only [hbelow, Bool.and_false, Bool.false_eq_true, if_false, skipSpace_of_mark]
  rfl

/-- Reading an object is reading its fields. -/
theorem read_object_eq {d : Dialect} {fields : List (String × Json)} (hne : fields ≠ [])
    (hroom : d.depthLimit ≠ 0) (more : List Char) :
    ∃ fuel, (writeFields (textFields fields)).length < fuel ∧
      read d ((object (textFields fields)).write ++ more) =
        (readFields d fuel (d.depthLimit - 1) (writeFields (textFields fields) ++ '\x7d' :: more)).bind
          fun (read, rest) => match skipSpace rest with
            | [] => .ok (object (distinctFields read))
            | other => .error ⟨.extraData, other⟩ := by
  have hw : (object (textFields fields)).write ++ more =
      '\x7b' :: (writeFields (textFields fields) ++ '\x7d' :: more) := by
    simp [write]
  refine ⟨2 * ((object (textFields fields)).write ++ more).length + 1, ?_, ?_⟩
  · rw [hw, List.length_cons, List.length_append]
    omega
  · obtain ⟨s, hs⟩ : ∃ s, writeFields (textFields fields) ++ '\x7d' :: more = '"' :: s := by
      obtain ⟨f, fields, rfl⟩ := List.exists_cons_of_ne_nil hne
      obtain ⟨s, hs⟩ := exists_mark_of_writeFields f fields
      exact ⟨s ++ '\x7d' :: more, by rw [hs, List.cons_append]⟩
    have hskip : skipSpace ('\x7b' :: '"' :: s) = '\x7b' :: '"' :: s := by
      simp [skipSpace, isSpace]
    have hbom : ('\x7b' :: '"' :: s).head? ≠ some (Char.ofNat 0xfeff) := by
      rw [List.head?_cons]
      decide
    rw [hw, hs, read, if_neg hbom, hskip, readValue_brace hroom]
    cases readFields d (2 * ('\x7b' :: '"' :: s).length + 1) (d.depthLimit - 1) ('"' :: s) <;> rfl

/-- **An object is read back** if its values are, and refused if anything but blanks follows it. -/
theorem read_object_append {d : Dialect} {fields : List (String × Json)} (hne : fields ≠ [])
    (hroom : d.depthLimit ≠ 0) (hv : ∀ f ∈ fields, ReadsBack d f.2) (more : List Char) :
    read d ((object (textFields fields)).write ++ more) = match skipSpace more with
      | [] => .ok (object (distinctFields (textFields fields)))
      | other => .error ⟨.extraData, other⟩ := by
  obtain ⟨fuel, hf, hread⟩ := read_object_eq hne hroom more
  rw [hread, readFields_writeFields hne hv hf]
  rfl

/-- **An object is read back** if its values are. -/
theorem read_object {d : Dialect} {fields : List (String × Json)} (hne : fields ≠ [])
    (hroom : d.depthLimit ≠ 0) (hv : ∀ f ∈ fields, ReadsBack d f.2) :
    read d (object (textFields fields)).write = .ok (object (distinctFields (textFields fields))) := by
  rw [← List.append_nil (write _), read_object_append hne hroom hv]
  rfl

/-- An object that ends in a whole number with too many digits is not read. -/
theorem read_object_of_long {d : Dialect} {fields : List (String × Json)} {name : String} {n : Nat}
    (hroom : d.depthLimit ≠ 0) (hv : ∀ f ∈ fields, ReadsBack d f.2)
    (hn : d.digitLimit < (Nat.toDigits 10 n).length) :
    ∃ r, read d (object (textFields (fields ++ [(name, int n)]))).write = .error r := by
  have hne : fields ++ [(name, int n)] ≠ [] :=
    List.append_ne_nil_of_right_ne_nil fields (List.cons_ne_nil _ _)
  obtain ⟨fuel, hf, hread⟩ := read_object_eq hne hroom []
  obtain ⟨r, hr⟩ : ∃ r, readFields d fuel (d.depthLimit - 1)
      (writeFields (textFields (fields ++ [(name, int n)])) ++ ['\x7d']) = .error r :=
    readFields_of_long hn hv hf
  refine ⟨r, ?_⟩
  rw [← List.append_nil (write _), hread, hr]
  rfl

end PipeScript.Json
