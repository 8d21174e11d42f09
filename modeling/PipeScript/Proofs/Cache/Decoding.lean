import PipeScript.Proofs.Cache.Record
import PipeScript.Proofs.Json.Decimals
import PipeScript.Proofs.Validation

/-!
# Records keep what entries hold

What is read from the bytes of a record is the entry that was written, with the data, the namespace and
the key as they were, whatever characters stand in them: quotation marks, backslashes, control
characters, characters of four bytes, or a text that looks like a record itself.

## What is assumed

The time at which the entry was stored is a finite number of the format. Its text is then read back,
and no other time has such a text (`Binary64.readsBack_iff`). The lifetime may be any natural number,
but the reader takes no more than 4300 digits: an entry with a longer lifetime is written like any
other, and its record is then refused (`decode?_record`, `longLived_lost`).

The reader is strict. Of what may follow a record it passes over blanks only (`decode?_encode_append_iff`).
-/

namespace PipeScript

/-- **The times that are read back** from their text are the finite numbers of the format. -/
theorem Binary64.readsBack_iff {x : Binary64} : x.ReadsBack ↔ IsNumber x := Json.read_write_iff_isNumber

namespace CacheEntry

/-- **A record is read back as the entry that was written**, if the lifetime has at most 4300 digits. With
more digits it is refused. -/
theorem decode?_record {e : CacheEntry} (ht : e.createdAt.IsNumber) :
    decode? e.encode = if e.lifetime < 10 ^ 4300 then some e else none := by
  have hread : e.createdAt.ReadsBack := Binary64.readsBack_iff.mpr ht
  split_ifs with hl
  · exact decode?_encode hread (readableLifetime_iff.mpr hl)
  · exact decode?_encode_of_long hread (mt readableLifetime_iff.mp hl)

/-- An entry with texts that a record has to escape, or that look like a record. -/
def awkward : CacheEntry where
  data := "\x7b\"data\": \"\\u0041\\\", \"ttl_seconds\": 1e400\x7d\r\n\t\x00\x08\x0c\x1f\x7f"
  space := "café \\ud83d\\"
  key := "😀\"\\"
  createdAt := 1700000000
  lifetime := 600

theorem decode?_awkward : awkward.createdAt.IsNumber ∧ decode? awkward.encode = some awkward := by
  have hl : awkward.lifetime < 10 ^ 4300 := readableLifetime_iff.mp (by unfold ReadableLifetime; decide)
  exact ⟨by decide +kernel, (decode?_record (by decide +kernel)).trans (if_pos hl)⟩

/-- An entry with a lifetime of 4301 digits. -/
def longLived : CacheEntry where
  data := "v"
  space := "ns"
  key := "k"
  createdAt := 1700000000
  lifetime := 10 ^ 4300

/-- **Not every entry is read back**: the lifetime may be too long. -/
theorem longLived_lost : longLived.createdAt.ReadsBack ∧
    decode? longLived.encode ≠ some longLived := by
  have hread : longLived.createdAt.ReadsBack := Binary64.readsBack_iff.mpr (by decide +kernel)
  refine ⟨hread, ?_⟩
  rw [decode?_encode_of_long hread not_readableLifetime]
  exact (Option.some_ne_none _).symm

/-! ### What may follow a record -/

/-- What is read from bytes is what the text comes to that they are. -/
theorem decode?_eq_some_iff {bytes : List UInt8} {e : CacheEntry} : decode? bytes = some e ↔
    ∃ s v, bytes = Text.Utf8.encode s ∧ Json.read Json.recordDialect s = .ok v ∧
      Rule.record "CacheEntry" (ofFields .record) v = .ok e := by
  constructor
  · intro h
    simp only [decode?, Option.bind_eq_bind, Option.bind_eq_some_iff] at h
    obtain ⟨s, hs, v, hv, he⟩ := h
    exact ⟨s, v, Text.Utf8.decode_eq_ok_iff.mp (eq_ok_of_toOption hs), eq_ok_of_toOption hv,
      eq_ok_of_toOption he⟩
  · rintro ⟨s, v, rfl, hv, he⟩
    simp [decode?, Text.Utf8.decode_encode, Except.toOption, hv, he]

/-- **The reader is strict**: of what follows a record only blanks are passed over, and anything else makes
it no record. -/
theorem decode?_encode_append_iff {e e' : CacheEntry} (ht : e.createdAt.IsNumber)
    (hl : ReadableLifetime e.lifetime) {bytes : List UInt8} :
    decode? (e.encode ++ bytes) = some e' ↔
      e' = e ∧ ∃ blanks, bytes = Text.Utf8.encode blanks ∧ ∀ c ∈ blanks, Json.isSpace c = true := by
  have hblank (s : List Char) : Json.skipSpace s = [] ↔ ∀ c ∈ s, Json.isSpace c = true :=
    List.dropWhile_eq_nil_iff
  have hne : e.fields ≠ [] := by simp [fields]
  have hroom : Json.recordDialect.depthLimit ≠ 0 := by decide
  have hfields := readsBack_fields (Binary64.readsBack_iff.mpr ht) hl
  have hrecord (more : List Char) := Json.read_object_append hne hroom hfields more
  simp only [distinctFields_fields, ← toJson_eq] at hrecord
  rw [decode?_eq_some_iff]
  constructor
  · rintro ⟨t, v, htext, hread, hrule⟩
    -- The bytes are those of one text, so what follows the record is a text of its own.
    obtain ⟨more, rfl, rfl⟩ := Text.Utf8.exists_of_encode_append htext
    rw [hrecord] at hread
    cases hmore : Json.skipSpace more with
    | nil =>
      rw [hmore] at hread
      obtain rfl : e.toJson = v := Except.ok.inj hread
      rw [record_toJson] at hrule
      exact ⟨(Except.ok.inj hrule).symm, more, rfl, (hblank more).mp hmore⟩
    | cons c rest =>
      rw [hmore] at hread
      cases hread
  · rintro ⟨rfl, blanks, rfl, hblanks⟩
    refine ⟨e'.toJson.write ++ blanks, e'.toJson, List.flatMap_append.symm, ?_, record_toJson e'⟩
    rw [hrecord, (hblank blanks).mpr hblanks]

end CacheEntry

end PipeScript
