import PipeScript.Text.Utf8
import Mathlib.Data.List.Basic

/-!
# UTF-8 is read back

Reading inverts writing: the bytes of a character are read as the character and leave what follows
them (`decodeFrom_encodeChar`), so the bytes of a text are read as the text (`decode_encode`), and
different texts have different bytes (`encode_injective`). Nothing else is read: bytes that are the
bytes of no text are refused (`decode_eq_ok_iff`).

The lead byte tells how many bytes a character has. In each of the four cases the bytes are the
digits of the code point to base 64, and the checks on the second byte hold because a character is
written with as few bytes as possible and is no half of a surrogate pair.
-/

namespace PipeScript.Text.Utf8

theorem toNat_toUInt8 {n : Nat} (h : n < 256) : n.toUInt8.toNat = n := by
  simp only [Nat.toUInt8, UInt8.toNat_ofNat']
  omega

theorem lt_iff_toNat {a b : UInt8} : a < b ↔ a.toNat < b.toNat := UInt8.lt_iff_toNat_lt

theorem le_iff_toNat {a b : UInt8} : a ≤ b ↔ a.toNat ≤ b.toNat := UInt8.le_iff_toNat_le

theorem ne_iff_toNat {a b : UInt8} : a ≠ b ↔ a.toNat ≠ b.toNat := UInt8.toNat_inj.not.symm

/-- A code point is below the first half of a surrogate pair or above the last one. -/
theorem val_valid (c : Char) : c.val.toNat < 0xd800 ∨ 0xdfff < c.val.toNat ∧ c.val.toNat < 0x110000 :=
  c.valid

theorem isTail_iff {b : UInt8} : isTail b = true ↔ 0x80 ≤ b.toNat ∧ b.toNat ≤ 0xbf := by
  simp only [isTail, Bool.and_eq_true, decide_eq_true_eq, le_iff_toNat]
  rfl

theorem isSecond_iff {lead b : UInt8} : isSecond lead b = true ↔
    (0x80 ≤ b.toNat ∧ b.toNat ≤ 0xbf) ∧ (lead.toNat ≠ 0xe0 ∨ 0xa0 ≤ b.toNat) ∧
      (lead.toNat ≠ 0xed ∨ b.toNat < 0xa0) ∧ (lead.toNat ≠ 0xf0 ∨ 0x90 ≤ b.toNat) ∧
      (lead.toNat ≠ 0xf4 ∨ b.toNat < 0x90) := by
  simp only [isSecond, Bool.and_eq_true, Bool.or_eq_true, isTail_iff, bne_iff_ne,
    decide_eq_true_eq, le_iff_toNat, lt_iff_toNat, ne_iff_toNat, and_assoc]
  rfl

section Bytes

variable {n : Nat} {a b d e : UInt8}

theorem decodeFrom_one (ha : a.toNat = n) (hhigh : n < 0x80) (pos : Nat) (rest : List UInt8) :
    decodeFrom pos (a :: rest) = (decodeFrom (pos + 1) rest).map (Char.ofNat n :: ·) := by
  have hlead : a < 0x80 := lt_iff_toNat.mpr (by rw [ha]; exact hhigh)
  rw [decodeFrom.eq_def]
  simp only [hlead, if_true, ha]

theorem decodeFrom_two (ha : a.toNat = 0xc0 + n / 64) (hb : b.toNat = 0x80 + n % 64)
    (hlow : 0x80 ≤ n) (hhigh : n < 0x800) (pos : Nat) (rest : List UInt8) :
    decodeFrom pos (a :: b :: rest) = (decodeFrom (pos + 2) rest).map (Char.ofNat n :: ·) := by
  have hlead : ¬ a < 0x80 ∧ ¬ (a < 0xc2 ∨ 0xf5 ≤ a) ∧ a < 0xe0 := by
    simp only [lt_iff_toNat, le_iff_toNat, ha]
    show ¬ _ < 128 ∧ ¬ (_ < 194 ∨ 245 ≤ _) ∧ _ < 224
    omega
  have hsecond : isSecond a b = true := by
    rw [isSecond_iff, ha, hb]
    omega
  have hval : a.toNat % 32 * 64 + tailBits b = n := by
    rw [tailBits, ha, hb]
    omega
  rw [decodeFrom.eq_def]
  simp only [hlead, hsecond, hval, Bool.or_eq_true, decide_eq_true_eq, Bool.not_true,
    Bool.false_eq_true, if_false, if_true]

theorem decodeFrom_three (ha : a.toNat = 0xe0 + n / 4096) (hb : b.toNat = 0x80 + n / 64 % 64)
    (hd : d.toNat = 0x80 + n % 64) (hlow : 0x800 ≤ n) (hhigh : n < 0x10000)
    (hvalid : n < 0xd800 ∨ 0xdfff < n) (pos : Nat) (rest : List UInt8) :
    decodeFrom pos (a :: b :: d :: rest) = (decodeFrom (pos + 3) rest).map (Char.ofNat n :: ·) := by
  have hlead : ¬ a < 0x80 ∧ ¬ (a < 0xc2 ∨ 0xf5 ≤ a) ∧ ¬ a < 0xe0 ∧ a < 0xf0 := by
    simp only [lt_iff_toNat, le_iff_toNat, ha]
    show ¬ _ < 128 ∧ ¬ (_ < 194 ∨ 245 ≤ _) ∧ ¬ _ < 224 ∧ _ < 240
    omega
  have hsecond : isSecond a b = true := by
    rw [isSecond_iff, ha, hb]
    omega
  have htail : isTail d = true := by
    rw [isTail_iff, hd]
    omega
  have hval : a.toNat % 16 * 4096 + tailBits b * 64 + tailBits d = n := by
    rw [tailBits, tailBits, ha, hb, hd]
    omega
  rw [decodeFrom.eq_def]
  simp only [hlead, hsecond, htail, hval, Bool.or_eq_true, decide_eq_true_eq, Bool.not_true,
    Bool.false_eq_true, if_false, if_true]

theorem decodeFrom_four (ha : a.toNat = 0xf0 + n / 262144) (hb : b.toNat = 0x80 + n / 4096 % 64)
    (hd : d.toNat = 0x80 + n / 64 % 64) (he : e.toNat = 0x80 + n % 64) (hlow : 0x10000 ≤ n)
    (hhigh : n < 0x110000) (pos : Nat) (rest : List UInt8) :
    decodeFrom pos (a :: b :: d :: e :: rest) =
      (decodeFrom (pos + 4) rest).map (Char.ofNat n :: ·) := by
  have hlead : ¬ a < 0x80 ∧ ¬ (a < 0xc2 ∨ 0xf5 ≤ a) ∧ ¬ a < 0xe0 ∧ ¬ a < 0xf0 := by
    simp only [lt_iff_toNat, le_iff_toNat, ha]
    show ¬ _ < 128 ∧ ¬ (_ < 194 ∨ 245 ≤ _) ∧ ¬ _ < 224 ∧ ¬ _ < 240
    omega
  have hsecond : isSecond a b = true := by
    rw [isSecond_iff, ha, hb]
    omega
  have htail : isTail d = true ∧ isTail e = true := by
    rw [isTail_iff, isTail_iff, hd, he]
    omega
  have hval : a.toNat % 8 * 262144 + tailBits b * 4096 + tailBits d * 64 + tailBits e = n := by
    rw [tailBits, tailBits, tailBits, ha, hb, hd, he]
    omega
  rw [decodeFrom.eq_def]
  simp only [hlead, hsecond, htail, hval, Bool.or_eq_true, decide_eq_true_eq, Bool.not_true,
    Bool.false_eq_true, if_false]

end Bytes

/-- **The bytes of a character are read as the character**, whatever follows them. -/
theorem decodeFrom_encodeChar (c : Char) (rest : List UInt8) (pos : Nat) :
    ∃ pos', decodeFrom pos (encodeChar c ++ rest) = (decodeFrom pos' rest).map (c :: ·) := by
  have hv := val_valid c
  obtain ⟨n, hn⟩ : ∃ n, c.val.toNat = n := ⟨_, rfl⟩
  have hc : c = Char.ofNat n := by
    rw [← hn]
    exact (Char.ofNat_toNat c).symm
  simp only [encodeChar, hn]
  rw [hn] at hv
  rw [hc]
  split_ifs with h₁ h₂ h₃
  · exact ⟨pos + 1, decodeFrom_one (toNat_toUInt8 (by omega)) h₁ pos rest⟩
  · refine ⟨pos + 2, decodeFrom_two ?_ ?_ (by omega) h₂ pos rest⟩
    · exact toNat_toUInt8 (by omega)
    · exact toNat_toUInt8 (by omega)
  · refine ⟨pos + 3, decodeFrom_three ?_ ?_ ?_ (by omega) h₃ (by omega) pos rest⟩
    · exact toNat_toUInt8 (by omega)
    · exact toNat_toUInt8 (by omega)
    · exact toNat_toUInt8 (by omega)
  · refine ⟨pos + 4, decodeFrom_four ?_ ?_ ?_ ?_ (by omega) (by omega) pos rest⟩
    · exact toNat_toUInt8 (by omega)
    · exact toNat_toUInt8 (by omega)
    · exact toNat_toUInt8 (by omega)
    · exact toNat_toUInt8 (by omega)

theorem decodeFrom_encode (s : List Char) (pos : Nat) : decodeFrom pos (encode s) = .ok s := by
  induction s generalizing pos with
  | nil => rfl
  | cons c s ih =>
    obtain ⟨pos', h⟩ := decodeFrom_encodeChar c (encode s) pos
    rw [encode, List.flatMap_cons, ← encode, h, ih]
    rfl

/-- **The bytes of a text are read as the text.** -/
theorem decode_encode (s : List Char) : decode (encode s) = .ok s := decodeFrom_encode s 0

theorem encode_injective : Function.Injective encode := by
  intro s t h
  have ht := decode_encode t
  rw [← h, decode_encode, Except.ok.injEq] at ht
  exact ht

/-! ### Nothing else is read -/

theorem val_ofNat {n : Nat} (h : n < 0xd800 ∨ 0xdfff < n ∧ n < 0x110000) : (Char.ofNat n).val.toNat = n := by
  unfold Char.ofNat
  rw [dif_pos (show n.isValidChar from h)]
  rfl

theorem toUInt8_of_toNat {a : UInt8} {n : Nat} (h : a.toNat = n) : n.toUInt8 = a := by
  rw [← h]
  exact UInt8.ofNat_toNat

section Bytes

variable {n : Nat} {a b d e : UInt8}

theorem encodeChar_one (ha : a.toNat = n) (hhigh : n < 0x80) : encodeChar (Char.ofNat n) = [a] := by
  simp only [encodeChar, val_ofNat (n := n) (by omega), if_pos hhigh, toUInt8_of_toNat ha]

theorem encodeChar_two (ha : a.toNat = 0xc0 + n / 64) (hb : b.toNat = 0x80 + n % 64) (hlow : 0x80 ≤ n)
    (hhigh : n < 0x800) : encodeChar (Char.ofNat n) = [a, b] := by
  simp only [encodeChar, val_ofNat (n := n) (by omega), if_neg (Nat.not_lt.mpr hlow), if_pos hhigh,
    toUInt8_of_toNat ha, toUInt8_of_toNat hb]

theorem encodeChar_three (ha : a.toNat = 0xe0 + n / 4096) (hb : b.toNat = 0x80 + n / 64 % 64)
    (hd : d.toNat = 0x80 + n % 64) (hlow : 0x800 ≤ n) (hhigh : n < 0x10000)
    (hvalid : n < 0xd800 ∨ 0xdfff < n) : encodeChar (Char.ofNat n) = [a, b, d] := by
  have hascii : ¬n < 0x80 := by omega
  simp only [encodeChar, val_ofNat (n := n) (by omega), if_neg hascii, if_neg (Nat.not_lt.mpr hlow),
    if_pos hhigh, toUInt8_of_toNat ha, toUInt8_of_toNat hb, toUInt8_of_toNat hd]

theorem encodeChar_four (ha : a.toNat = 0xf0 + n / 262144) (hb : b.toNat = 0x80 + n / 4096 % 64)
    (hd : d.toNat = 0x80 + n / 64 % 64) (he : e.toNat = 0x80 + n % 64) (hlow : 0x10000 ≤ n)
    (hhigh : n < 0x110000) : encodeChar (Char.ofNat n) = [a, b, d, e] := by
  have hshort : ¬n < 0x80 ∧ ¬n < 0x800 := by omega
  simp only [encodeChar, val_ofNat (n := n) (by omega), if_neg hshort.1, if_neg hshort.2,
    if_neg (Nat.not_lt.mpr hlow), toUInt8_of_toNat ha, toUInt8_of_toNat hb, toUInt8_of_toNat hd,
    toUInt8_of_toNat he]

/-- A lead byte is none of those that start no character. -/
theorem isLead_iff :
    ¬(decide (a < 0xc2) || decide (0xf5 ≤ a)) = true ↔ 0xc2 ≤ a.toNat ∧ a.toNat < 0xf5 := by
  simp only [Bool.or_eq_true, decide_eq_true_eq, not_or, lt_iff_toNat, le_iff_toNat, Nat.not_lt, Nat.not_le]
  rfl

end Bytes

/-- A character in front of what is read has its bytes in front of what that is read from. -/
theorem encode_of_map_cons {c : Char} {front rest : List UInt8} {r : Except Error (List Char)} {s : List Char}
    (h : r.map (c :: ·) = .ok s) (hc : encodeChar c = front) (ih : ∀ {s}, r = .ok s → encode s = rest) :
    encode s = front ++ rest := by
  cases r with
  | error e => cases h
  | ok t =>
    obtain rfl : c :: t = s := Except.ok.inj h
    rw [encode, List.flatMap_cons, ← encode, hc, ih rfl]

theorem encode_of_decodeFrom {pos : Nat} {bytes : List UInt8} {s : List Char}
    (h : decodeFrom pos bytes = .ok s) : encode s = bytes := by
  fun_induction decodeFrom pos bytes generalizing s with
  | case1 =>
    obtain rfl : [] = s := Except.ok.inj h
    rfl
  | case2 pos a rest ha ih =>
    exact encode_of_map_cons h (encodeChar_one rfl (lt_iff_toNat.mp ha)) ih
  | case6 pos a ha hlead b rest hb hsize ih =>
    rw [isLead_iff] at hlead
    simp only [Bool.not_eq_true', Bool.not_eq_false, isSecond_iff, lt_iff_toNat, UInt8.reduceToNat]
      at hb hsize
    refine encode_of_map_cons h (encodeChar_two ?_ ?_ ?_ ?_) ih <;> unfold tailBits <;> omega
  | case9 pos a ha hlead b hb hlong d rest hd hsize ih =>
    rw [isLead_iff] at hlead
    simp only [Bool.not_eq_true', Bool.not_eq_false, isSecond_iff, isTail_iff, lt_iff_toNat,
      UInt8.reduceToNat] at hb hlong hd hsize
    refine encode_of_map_cons h (encodeChar_three ?_ ?_ ?_ ?_ ?_ ?_) ih <;> unfold tailBits <;> omega
  | case12 pos a ha hlead b hb hlong d hd hlonger e rest he ih =>
    rw [isLead_iff] at hlead
    simp only [Bool.not_eq_true', Bool.not_eq_false, isSecond_iff, isTail_iff, lt_iff_toNat,
      UInt8.reduceToNat] at hb hlong hd hlonger he
    refine encode_of_map_cons h (encodeChar_four ?_ ?_ ?_ ?_ ?_ ?_) ih <;> unfold tailBits <;> omega
  | _ => cases h

/-- **Bytes are read as a text** exactly if they are its bytes. -/
theorem decode_eq_ok_iff {bytes : List UInt8} {s : List Char} : decode bytes = .ok s ↔ bytes = encode s := by
  constructor
  · intro h
    exact (encode_of_decodeFrom h).symm
  · rintro rfl
    exact decode_encode s

/-- Bytes that follow those of a text are the bytes of what follows the text. -/
theorem exists_of_encode_append {s t : List Char} {bytes : List UInt8}
    (h : encode s ++ bytes = encode t) : ∃ more, t = s ++ more ∧ bytes = encode more := by
  induction s generalizing t with
  | nil => exact ⟨t, rfl, h⟩
  | cons c s ih =>
    rw [encode, List.flatMap_cons, ← encode, List.append_assoc] at h
    obtain ⟨pos, hread⟩ := decodeFrom_encodeChar c (encode s ++ bytes) 0
    rw [h, decodeFrom_encode] at hread
    cases hrest : decodeFrom pos (encode s ++ bytes) with
    | error e =>
      rw [hrest] at hread
      cases hread
    | ok u =>
      rw [hrest] at hread
      obtain rfl : t = c :: u := Except.ok.inj hread
      obtain ⟨more, rfl, hmore⟩ := ih (encode_of_decodeFrom hrest).symm
      exact ⟨more, rfl, hmore⟩

end PipeScript.Text.Utf8
