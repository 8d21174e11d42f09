import PipeScript.Proofs.Binary64.Shortest
import PipeScript.Proofs.Json.ReadBack

/-!
# Written numbers are read back

A finite number is written as its shortest decimal, laid out with a point or with a power of ten. The
reader takes the text apart into digits before the point, digits after it and the power, and puts
together a decimal of the same value.

## The model

A layout has four forms: `0.00ddd`, `ddd000.0`, `dd.ddd`, and `d.dde+x`. In each of them the digits that
the reader finds are those of the decimal, with zeros beside them, and the exponent makes up for the
zeros (`exists_readAs_decimalText`). What is read from the whole text is then the number nearest to the
decimal, which is the number itself.

Main result: `read_write_iff_isNumber`, that the numbers whose text is read back are the finite numbers
of the format.
-/

namespace PipeScript.Json

open Text Binary64

/-! ### The parts of a number -/

section Parts

variable {ds tail : List Char} (hds : ∀ c ∈ ds, isAsciiDigit c = true)
  (htail : ∀ c ∈ tail.head?, isAsciiDigit c = false)

include hds htail

theorem takeWhile_digits : (ds ++ tail).takeWhile isAsciiDigit = ds := by
  rw [takeWhile_append_stop htail]
  exact List.takeWhile_eq_self_iff.mpr hds

theorem dropWhile_digits : (ds ++ tail).dropWhile isAsciiDigit = tail := by
  rw [dropWhile_append_stop htail, List.dropWhile_eq_nil_iff.mpr hds, List.nil_append]

theorem readFraction_point (hne : ds ≠ []) : readFraction ('.' :: (ds ++ tail)) = (ds, tail) := by
  simp [readFraction, takeWhile_digits hds htail, dropWhile_digits hds htail, hne]

/-- Digits that do not start with a zero are all read. -/
theorem leadRun_digits {c : Char} {rest : List Char} (hcons : ds = c :: rest) (hc : c ≠ '0') :
    leadRun (ds ++ tail) = ds := by
  have htake := takeWhile_digits hds htail
  subst hcons
  unfold leadRun
  split
  · rename_i heq
    exact absurd (List.cons.inj heq).1 hc
  · exact htake

end Parts

theorem readSign_of_digit {c : Char} (hc : isAsciiDigit c = true) (s : List Char) :
    readSign (c :: s) = (false, c :: s) := by
  unfold readSign
  split
  · rename_i heq
    exact absurd (List.cons.inj heq).1 (ne_of_digit hc (by decide))
  · rename_i heq
    exact absurd (List.cons.inj heq).1 (ne_of_digit hc (by decide))
  · rfl

/-- A power of ten is its sign and its digits. -/
theorem readPower_of_readSign {negative : Bool} {ds t : List Char} (hsign : readSign t = (negative, ds))
    (hds : ∀ c ∈ ds, isAsciiDigit c = true) (hne : ds ≠ []) : readPower ('e' :: t) =
      (some (if negative then -(digitsValue ds : Int) else digitsValue ds), []) := by
  have htake : ds.takeWhile isAsciiDigit = ds := List.takeWhile_eq_self_iff.mpr hds
  have hdrop : ds.dropWhile isAsciiDigit = [] := List.dropWhile_eq_nil_iff.mpr hds
  simp [readPower, hsign, htake, hdrop, hne]

/-- The digits of an exponent, with the zeros in front. -/
theorem exists_exponentText (layout : Layout) (e : Int) : ∃ ds, (∀ c ∈ ds, isAsciiDigit c = true) ∧
    ds ≠ [] ∧ digitsValue ds = e.natAbs ∧ layout.exponentText e =
      'e' :: ((if e < 0 then ['-'] else if layout.plusSign then ['+'] else []) ++ ds) := by
  refine ⟨List.replicate (layout.exponentDigits - (Nat.toDigits 10 e.natAbs).length) '0' ++
    Nat.toDigits 10 e.natAbs, ?_, ?_, ?_, ?_⟩
  · exact List.forall_mem_append.mpr ⟨isAsciiDigit_zeros _, fun _ => isAsciiDigit_of_mem_toDigits⟩
  · exact List.append_ne_nil_of_right_ne_nil _ Nat.toDigits_ne_nil
  · rw [digitsValue_zeros_append, digitsValue_toDigits]
  · simp [Layout.exponentText]

/-- **An exponent is read back**, with or without a plus sign and zeros in front. -/
theorem readPower_exponentText (layout : Layout) (e : Int) :
    readPower (layout.exponentText e) = (some e, []) := by
  obtain ⟨ds, hds, hne, hvalue, htext⟩ := exists_exponentText layout e
  rw [htext]
  split_ifs with hneg hplus
  · have hsign : readSign (['-'] ++ ds) = (true, ds) := rfl
    rw [readPower_of_readSign hsign hds hne, hvalue]
    simp only [if_true, Prod.mk.injEq, Option.some.injEq, and_true]
    omega
  · have hsign : readSign (['+'] ++ ds) = (false, ds) := rfl
    rw [readPower_of_readSign hsign hds hne, hvalue]
    simp only [Bool.false_eq_true, if_false, Prod.mk.injEq, Option.some.injEq, and_true]
    omega
  · have hsign : readSign ([] ++ ds) = (false, ds) := by
      obtain ⟨c, rest, rfl⟩ := List.exists_cons_of_ne_nil hne
      exact readSign_of_digit (hds c List.mem_cons_self) rest
    rw [readPower_of_readSign hsign hds hne, hvalue]
    simp only [Bool.false_eq_true, if_false, Prod.mk.injEq, Option.some.injEq, and_true]
    omega

theorem head_exponentText (layout : Layout) (e : Int) :
    ∀ c ∈ (layout.exponentText e).head?, isAsciiDigit c = false := by
  obtain ⟨ds, -, -, -, htext⟩ := exists_exponentText layout e
  rw [htext]
  rintro _ ⟨⟩
  decide

theorem readFraction_exponentText (layout : Layout) (e : Int) :
    readFraction (layout.exponentText e) = ([], layout.exponentText e) := by
  obtain ⟨ds, -, -, -, htext⟩ := exists_exponentText layout e
  rw [htext]
  rfl

/-! ### The forms of a number -/

/-- Is the text read as the decimal `m · 10^e`, whatever its sign? -/
def ReadAs (d : Dialect) (s : List Char) (m : Nat) (e : Int) : Prop :=
  ∀ negative, readNumber d negative s = some (.ok (number (ofDecimal negative m e), []))

section Forms

variable {d : Dialect} {run fraction tail : List Char} {power : Option Int}

/-- A number with a point in it, and perhaps a power. -/
theorem readAs_point (hlead : leadRun (run ++ '.' :: (fraction ++ tail)) = run) (hrun : run ≠ [])
    (hlength : run.length ≤ d.digitLimit) (hfraction : ∀ c ∈ fraction, isAsciiDigit c = true)
    (hne : fraction ≠ []) (htail : ∀ c ∈ tail.head?, isAsciiDigit c = false)
    (hpower : readPower tail = (power, [])) :
    ReadAs d (run ++ '.' :: (fraction ++ tail)) (digitsValue (run ++ fraction))
      (power.getD 0 - fraction.length) := by
  intro negative
  have hdigits : run.isEmpty = false := by simpa using hrun
  have hpoint : fraction.isEmpty = false := by simpa using hne
  have hafter : afterRun (run ++ '.' :: (fraction ++ tail)) = (fraction, power, []) := by
    simp only [afterRun, hlead, List.drop_left, readFraction_point hfraction htail hne, hpower]
  rw [readNumber_eq, hlead, hafter]
  simp only [hdigits, hpoint, Bool.false_and, Bool.false_eq_true, if_false, Bool.false_or,
    Bool.and_eq_true, decide_eq_true_eq]
  rw [if_neg (by omega)]

/-- A number with a point and no power. -/
theorem readAs_fraction (hlead : leadRun (run ++ '.' :: fraction) = run) (hrun : run ≠ [])
    (hlength : run.length ≤ d.digitLimit) (hfraction : ∀ c ∈ fraction, isAsciiDigit c = true)
    (hne : fraction ≠ []) :
    ReadAs d (run ++ '.' :: fraction) (digitsValue (run ++ fraction)) (-fraction.length) := by
  have htail : ∀ c ∈ ([] : List Char).head?, isAsciiDigit c = false := by simp
  have hpower : readPower [] = (none, []) := rfl
  rw [← List.append_nil fraction] at hlead
  have h := readAs_point hlead hrun hlength hfraction hne htail hpower
  rwa [List.append_nil, Option.getD_none, Int.zero_sub] at h

/-- A number with a power and no point. -/
theorem readAs_power {e : Int} (hlead : leadRun (run ++ tail) = run) (hrun : run ≠ [])
    (hlength : run.length ≤ d.digitLimit) (hpoint : readFraction tail = ([], tail))
    (hpower : readPower tail = (some e, [])) : ReadAs d (run ++ tail) (digitsValue run) e := by
  intro negative
  have hdigits : run.isEmpty = false := by simpa using hrun
  have hafter : afterRun (run ++ tail) = ([], some e, []) := by
    simp only [afterRun, hlead, List.drop_left, hpoint, hpower]
  rw [readNumber_eq, hlead, hafter]
  simp only [hdigits, List.isEmpty_nil, Option.isNone_some, Bool.and_false, Bool.false_eq_true,
    if_false, Bool.false_or, Bool.and_eq_true, decide_eq_true_eq, List.append_nil, Option.getD_some,
    List.length_nil, Int.natCast_zero, Int.sub_zero]
  rw [if_neg (by omega)]

end Forms

section Layouts

variable {d : Dialect} {ds : List Char} (hds : ∀ c ∈ ds, isAsciiDigit c = true)
  (hleads : ∃ c rest, ds = c :: rest ∧ c ≠ '0')

include hds hleads

/-- The form `0.00ddd`. -/
theorem readAs_small (hone : 1 ≤ d.digitLimit) (zeros : Nat) :
    ReadAs d ('0' :: '.' :: List.replicate zeros '0' ++ ds) (digitsValue ds)
      (-(zeros + ds.length : Nat)) := by
  have hfraction := List.forall_mem_append.mpr ⟨isAsciiDigit_zeros zeros, hds⟩
  have hne : List.replicate zeros '0' ++ ds ≠ [] := by
    obtain ⟨c, rest, rfl, -⟩ := hleads
    simp
  have hlead : leadRun (['0'] ++ '.' :: (List.replicate zeros '0' ++ ds)) = ['0'] := rfl
  have hvalue : digitsValue (['0'] ++ (List.replicate zeros '0' ++ ds)) = digitsValue ds := by
    rw [← List.append_assoc]
    exact digitsValue_zeros_append (zeros + 1) ds
  have h := readAs_fraction hlead (List.cons_ne_nil _ _) hone hfraction hne
  rwa [hvalue, List.length_append, List.length_replicate] at h

/-- The form `ddd000.0`. -/
theorem readAs_whole (zeros : Nat) (hlength : ds.length + zeros ≤ d.digitLimit) :
    ReadAs d (ds ++ List.replicate zeros '0' ++ ['.', '0']) (digitsValue ds * tenPow (zeros + 1)) (-1) := by
  obtain ⟨c, rest, hcons, hc⟩ := hleads
  have hrun := List.forall_mem_append.mpr ⟨hds, isAsciiDigit_zeros zeros⟩
  have hlead : leadRun (ds ++ List.replicate zeros '0' ++ '.' :: ['0']) =
      ds ++ List.replicate zeros '0' :=
    leadRun_digits hrun (by rintro _ ⟨⟩; decide) (by rw [hcons, List.cons_append]) hc
  have hvalue : digitsValue (ds ++ List.replicate zeros '0' ++ ['0']) =
      digitsValue ds * tenPow (zeros + 1) := by
    rw [← digitsValue_append_zeros, List.replicate_succ', List.append_assoc]
  have h := readAs_fraction hlead (by simp [hcons]) (by simpa using hlength) (isAsciiDigit_zeros 1)
    (List.cons_ne_nil _ _)
  rwa [hvalue] at h

/-- The form `dd.ddd`. -/
theorem readAs_divided {whole : Nat} (hwhole : 0 < whole) (hlt : whole < ds.length)
    (hlength : whole ≤ d.digitLimit) :
    ReadAs d (ds.take whole ++ '.' :: ds.drop whole) (digitsValue ds) (-(ds.length - whole : Nat)) := by
  obtain ⟨c, rest, hcons, hc⟩ := hleads
  obtain ⟨n, rfl⟩ := Nat.exists_eq_add_one.mpr hwhole
  have htake : ds.take (n + 1) = c :: rest.take n := by rw [hcons, List.take_succ_cons]
  have hlead : leadRun (ds.take (n + 1) ++ '.' :: ds.drop (n + 1)) = ds.take (n + 1) :=
    leadRun_digits (fun c hc => hds c (List.mem_of_mem_take hc)) (by rintro _ ⟨⟩; decide) htake hc
  have h := readAs_fraction hlead (by simp [htake])
    ((List.length_take_le _ _).trans hlength) (fun c hc => hds c (List.mem_of_mem_drop hc))
    (by simpa using hlt)
  rwa [List.take_append_drop, List.length_drop] at h

end Layouts

/-- The form `d.dde+x`, and `de+x` of one digit. -/
theorem readAs_scientific {d : Dialect} {dec : Decimal} (hdec : dec.Proper) (hone : 1 ≤ d.digitLimit)
    (layout : Layout) (e : Int) :
    ReadAs d (match dec.digits with
      | [c] => c :: layout.exponentText e
      | c :: rest => c :: '.' :: rest ++ layout.exponentText e
      | [] => []) (digitsValue dec.digits) (e - (dec.digits.length - 1 : Nat)) := by
  obtain ⟨hdigits, c, rest, hcons, hc⟩ := hdec
  rw [hcons] at hdigits ⊢
  have hhead := head_exponentText layout e
  have hpower := readPower_exponentText layout e
  have hfirst : ∀ c' ∈ [c], isAsciiDigit c' = true := by simpa using hdigits c List.mem_cons_self
  cases rest with
  | nil =>
    have hlead : leadRun ([c] ++ layout.exponentText e) = [c] := leadRun_digits hfirst hhead rfl hc
    have h := readAs_power hlead (List.cons_ne_nil _ _) hone (readFraction_exponentText layout e) hpower
    simpa using h
  | cons c' rest =>
    have hlead : leadRun ([c] ++ '.' :: (c' :: rest ++ layout.exponentText e)) = [c] :=
      leadRun_digits hfirst (by rintro _ ⟨⟩; decide) rfl hc
    have h := readAs_point hlead (List.cons_ne_nil _ _) hone
      (fun d hd => hdigits d (List.mem_cons_of_mem _ hd)) (List.cons_ne_nil _ _) hhead hpower
    simpa using h

/-- **The text of a decimal is read as the decimal**, with zeros moved from the exponent to the digits. -/
theorem exists_readAs_decimalText {d : Dialect} {layout : Layout} {dec : Decimal} (hdec : dec.Proper)
    (hlimit : layout.plainLimit ≤ d.digitLimit) (hone : 1 ≤ d.digitLimit) :
    ∃ zeros : Nat, ReadAs d (layout.decimalText dec) (digitsValue dec.digits * tenPow zeros)
      (dec.exponent - zeros) := by
  have ⟨hdigits, hleads⟩ := hdec
  have hpos : 0 < dec.digits.length := by
    obtain ⟨c, rest, hcons, -⟩ := hleads
    simp [hcons]
  have hone' (n : Nat) : n * tenPow 0 = n := Nat.mul_one n
  simp only [Layout.decimalText, Bool.and_eq_true, decide_eq_true_eq]
  generalize hlead : dec.exponent + dec.digits.length - 1 = lead
  split_ifs with hplain hneg hwhole
  · refine ⟨0, ?_⟩
    have hexp : dec.exponent - (0 : Nat) = -(lead.natAbs - 1 + dec.digits.length : Nat) := by omega
    rw [hexp, hone']
    exact readAs_small hdigits hleads hone _
  · refine ⟨lead.toNat + 1 - dec.digits.length + 1, ?_⟩
    have hexp : dec.exponent - (lead.toNat + 1 - dec.digits.length + 1 : Nat) = -1 := by omega
    rw [hexp]
    exact readAs_whole hdigits hleads _ (by omega)
  · refine ⟨0, ?_⟩
    have hexp : dec.exponent - (0 : Nat) = -(dec.digits.length - (lead.toNat + 1) : Nat) := by omega
    rw [hexp, hone']
    exact readAs_divided hdigits hleads (by omega) (by omega) (by omega)
  · refine ⟨0, ?_⟩
    have hexp : dec.exponent - (0 : Nat) = lead - (dec.digits.length - 1 : Nat) := by omega
    rw [hexp, hone']
    exact readAs_scientific hdec hone layout lead

/-! ### Numbers of the format -/

/-- **The text of a positive number** is read as the number. -/
theorem readNumber_shortest {s : Bool} {u : Nat} (hu : u ≠ 0) (hx : IsNumber (finite s u)) :
    readNumber recordDialect s (recordLayout.decimalText (shortest u)) =
      some (.ok (number (finite s u), [])) := by
  obtain ⟨zeros, hread⟩ : ∃ zeros : Nat, ReadAs recordDialect (recordLayout.decimalText (shortest u))
      (digitsValue (shortest u).digits * tenPow zeros) ((shortest u).exponent - zeros) :=
    exists_readAs_decimalText (shortest_proper hu) (by decide) (by decide)
  have hreads : Shortest.Reads u (digitsValue (shortest u).digits * tenPow zeros)
      ((shortest u).exponent - zeros) := by
    rw [Shortest.reads_mul_tenPow hu, Int.sub_add_cancel]
    exact shortest_reads hu
  rw [hread, ofDecimal_of_reads hu hx hreads]

theorem readNumber_zero (s : Bool) :
    readNumber recordDialect s ['0', '.', '0'] = some (.ok (number (finite s 0), [])) := by
  cases s <;> rfl

/-- The characters of a number without its sign. -/
def unsignedText (u : Nat) : List Char :=
  if u = 0 then ['0', '.', '0'] else recordLayout.decimalText (shortest u)

theorem write_finite (s : Bool) (u : Nat) :
    (number (finite s u)).write = if s then '-' :: unsignedText u else unsignedText u := by
  rw [write, Layout.text, String.toList_ofList]
  rfl

theorem readNumber_unsignedText {s : Bool} {u : Nat} (hx : IsNumber (finite s u)) :
    readNumber recordDialect s (unsignedText u) = some (.ok (number (finite s u), [])) := by
  unfold unsignedText
  split_ifs with hu
  · rw [hu]
    exact readNumber_zero s
  · exact readNumber_shortest hu hx

/-- A number starts with a digit. -/
theorem exists_digit_of_readNumber {d : Dialect} {negative : Bool} {s : List Char}
    {r : Except Refusal (Json × List Char)} (h : readNumber d negative s = some r) :
    ∃ c rest, s = c :: rest ∧ isAsciiDigit c = true := by
  cases s with
  | nil => simp [readNumber] at h
  | cons c rest =>
    refine ⟨c, rest, rfl, ?_⟩
    by_contra hc
    have hlead : leadRun (c :: rest) = [] := by
      unfold leadRun
      split
      · rename_i heq
        rw [(List.cons.inj heq).1] at hc
        exact absurd (by decide) hc
      · rw [List.takeWhile_cons, if_neg hc]
    rw [readNumber_eq, hlead] at h
    simp at h

theorem readWord?_of_minus {c : Char} (hc : isAsciiDigit c = true) (s : List Char) :
    readWord? ('-' :: c :: s) = none := by
  have hI : 'I' ≠ c := (ne_of_digit hc (by decide)).symm
  have hword : after? "-Infinity" ('-' :: c :: s) = none := by
    simp [after?, List.isPrefixOf, hI]
  simp only [readWord?, after?_of_ne "null" rfl (show 'n' ≠ '-' by decide),
    after?_of_ne "true" rfl (show 't' ≠ '-' by decide),
    after?_of_ne "false" rfl (show 'f' ≠ '-' by decide),
    after?_of_ne "NaN" rfl (show 'N' ≠ '-' by decide),
    after?_of_ne "Infinity" rfl (show 'I' ≠ '-' by decide), hword]
  rfl

/-- What is read as a plain value, and starts like a number, is read as that value. -/
theorem read_of_readPlain {d : Dialect} {c : Char} {s : List Char} {v : Json} (hc : StartsNumber c)
    (h : readPlain d (c :: s) = .ok (v, [])) : read d (c :: s) = .ok v := by
  have hmark : (c :: s).head? ≠ some (Char.ofNat 0xfeff) := by
    rw [List.head?_cons, Ne, Option.some.injEq]
    exact hc.ne (by decide)
  rw [read, if_neg hmark, hc.skipSpace_eq, readValue_of_plain (hc.not_opensNested s), h]
  rfl

/-- A text that is read as a number, with its sign in front, is read as that number. -/
theorem read_of_readNumber {d : Dialect} {negative : Bool} {s : List Char} {v : Json}
    (h : readNumber d negative s = some (.ok (v, []))) :
    read d (if negative then '-' :: s else s) = .ok v := by
  obtain ⟨c, rest, rfl, hc⟩ := exists_digit_of_readNumber h
  cases negative with
  | true =>
    refine read_of_readPlain (.inl rfl) ?_
    rw [readPlain_eq, readWord?_of_minus hc, readSigned, h]
    rfl
  | false =>
    refine read_of_readPlain (.inr hc) ?_
    rw [readPlain_eq, readWord?_of_digit hc, readSigned_of_digit d hc, h]
    rfl

/-- **A finite number of the format is read back.** -/
theorem read_write_of_isNumber {x : Binary64} (hx : IsNumber x) :
    read recordDialect (number x).write = .ok (number x) := by
  obtain ⟨s, u, rfl, -⟩ := hx.exists_eq
  rw [write_finite]
  exact read_of_readNumber (readNumber_unsignedText hx)

/-! ### Only numbers of the format -/

/-- What is read as a word is no finite number. -/
theorem not_finite_of_readWord? {s tail : List Char} {negative : Bool} {u : Nat} :
    readWord? s ≠ some (number (finite negative u), tail) := by
  unfold readWord?
  cases after? "null" s <;> cases after? "true" s <;> cases after? "false" s <;>
    cases after? "NaN" s <;> cases after? "Infinity" s <;> cases after? "-Infinity" s <;>
      simp

/-- What is read as a number is the number nearest to a decimal. -/
theorem exists_ofDecimal_of_readNumber {d : Dialect} {negative : Bool} {s tail : List Char}
    {x : Binary64} (h : readNumber d negative s = some (.ok (number x, tail))) :
    ∃ m e, ofDecimal negative m e = x := by
  rw [readNumber_eq] at h
  simp only at h
  split at h
  · simp at h
  split at h
  · simp at h
  split at h
  · simp at h
  · simp only [Option.some.injEq, Except.ok.injEq, Prod.mk.injEq, number.injEq] at h
    exact ⟨_, _, h.1⟩

theorem exists_readSigned_eq (d : Dialect) (s : List Char) :
    ∃ negative t, readSigned d s = readNumber d negative t := by
  unfold readSigned
  split
  · exact ⟨true, _, rfl⟩
  · exact ⟨false, s, rfl⟩

theorem isNumber_of_readPlain {d : Dialect} {s tail : List Char} {negative : Bool} {u : Nat}
    (h : readPlain d s = .ok (number (finite negative u), tail)) : IsNumber (finite negative u) := by
  rw [readPlain_eq] at h
  cases hword : readWord? s with
  | some r =>
    simp only [hword, Except.ok.injEq] at h
    rw [h] at hword
    exact absurd hword not_finite_of_readWord?
  | none =>
    simp only [hword] at h
    obtain ⟨sign, t, hsigned⟩ := exists_readSigned_eq d s
    have hread : readNumber d sign t = some (.ok (number (finite negative u), tail)) := by
      rw [hsigned] at h
      cases hnumber : readNumber d sign t with
      | none => simp [hnumber] at h
      | some r =>
        simp only [hnumber, Option.getD_some] at h
        rw [h]
    obtain ⟨m, e, hdecimal⟩ := exists_ofDecimal_of_readNumber hread
    exact isNumber_of_ofDecimal hdecimal

theorem read_null : read recordDialect "null".toList = .ok null := rfl

/-- **The numbers whose text is read back** are the finite numbers of the format. -/
theorem read_write_iff_isNumber {x : Binary64} :
    read recordDialect (number x).write = .ok (number x) ↔ IsNumber x := by
  refine ⟨fun h => ?_, read_write_of_isNumber⟩
  cases x with
  | nan negative =>
    have htext : recordLayout.text (.nan negative) = "null" := rfl
    rw [write, htext, read_null] at h
    cases h
  | infinite negative =>
    have htext : recordLayout.text (.infinite negative) = "null" := rfl
    rw [write, htext, read_null] at h
    cases h
  | finite negative u =>
    obtain ⟨rest, hread, -⟩ := exists_readValue_of_read h
    exact isNumber_of_readPlain (readPlain_of_readValue hread).2

end PipeScript.Json
