import PipeScript.Cache.Entry
import PipeScript.Proofs.Json.ReadBack
import PipeScript.Proofs.Text.Utf8

/-!
# Cache records are read back

An entry is written as a record of five fields, as UTF-8 bytes. What is read from these bytes is the
entry itself (`decode?_encode`), on two conditions: the time at which it was stored is a number whose
text is read back, and its lifetime has no more digits than the reader converts. An entry with a
longer lifetime is written all the same, and what is read then is no entry (`decode?_encode_of_long`).

The name of an entry's file tells namespace and key apart as far as the digest does
(`mark_eq_of_fileName_eq`).
-/

namespace PipeScript

/-- Is the number read back from its text? -/
def Binary64.ReadsBack (x : Binary64) : Prop :=
  Json.read Json.recordDialect (Json.number x).write = .ok (.number x)

namespace CacheEntry

/-- Has the lifetime no more digits than are read? -/
def ReadableLifetime (lifetime : Nat) : Prop :=
  (Nat.toDigits 10 lifetime).length ≤ Json.recordDialect.digitLimit

theorem readableLifetime_iff {lifetime : Nat} : ReadableLifetime lifetime ↔ lifetime < 10 ^ 4300 := by
  have hlimit : Json.recordDialect.digitLimit = 4300 := rfl
  rw [ReadableLifetime, hlimit]
  exact Nat.length_toDigits_le_iff (by decide) (by decide)

theorem not_readableLifetime : ¬ ReadableLifetime (10 ^ 4300) :=
  mt readableLifetime_iff.mp (Nat.lt_irrefl _)

/-- The fields of a record. -/
def fields (e : CacheEntry) : List (String × Json) := [
  ("data", .string e.data),
  ("namespace", .string e.space),
  ("key", .string e.key),
  ("created_at", .number e.createdAt),
  ("ttl_seconds", .int e.lifetime)]

theorem toJson_eq (e : CacheEntry) : e.toJson = .object (Json.textFields e.fields) := rfl

theorem distinctFields_fields (e : CacheEntry) :
    Json.distinctFields (Json.textFields e.fields) = Json.textFields e.fields := rfl

/-- The rules for the fields take every record of an entry. -/
theorem record_toJson (e : CacheEntry) :
    Rule.record "CacheEntry" (ofFields .record) e.toJson = .ok e := by
  simp [Rule.record, toJson, ofFields, Rule.required, Json.field?, Checked.ap, Rule.string,
    Checked.within, Except.map, Rule.number, Rule.integerIn, Rule.integer, Rule.bounded,
    Rule.keepsInt, Except.bind]

/-- The rules for the fields take every value that is to be stored. -/
theorem ofValue_string (data space key : String) (now : Binary64) (lifetime : Nat) :
    ofValue (.string data) space key now (.int lifetime) =
      .ok ⟨data, space, key, now, lifetime⟩ := by
  simp [ofValue, ofFields, Rule.required, Json.field?, Checked.ap, Rule.string, Checked.within,
    Except.map, Rule.number, Rule.integerIn, Rule.integer, Rule.bounded, Rule.keepsInt, Except.bind]

/-- Each field but the lifetime is read back. -/
theorem readsBack_fields {e : CacheEntry} (ht : e.createdAt.ReadsBack)
    (hl : ReadableLifetime e.lifetime) : ∀ f ∈ e.fields, Json.ReadsBack Json.recordDialect f.2 := by
  simp only [fields, List.mem_cons, List.not_mem_nil, or_false]
  rintro f (rfl | rfl | rfl | rfl | rfl)
  · exact Json.readsBack_string _ _
  · exact Json.readsBack_string _ _
  · exact Json.readsBack_string _ _
  · exact Json.readsBack_number ht
  · exact Json.readsBack_int hl

/-- What is read from the bytes of a record is what its text comes to. -/
theorem decode?_encode_eq (e : CacheEntry) : decode? e.encode =
    (Json.read Json.recordDialect e.toJson.write).toOption.bind fun v =>
      (Rule.record "CacheEntry" (ofFields .record) v).toOption := by
  simp [decode?, encode, Text.Utf8.decode_encode, Except.toOption]

/-- **A record is read back** as the entry that was written. -/
theorem decode?_encode {e : CacheEntry} (ht : e.createdAt.ReadsBack)
    (hl : ReadableLifetime e.lifetime) : decode? e.encode = some e := by
  have hne : e.fields ≠ [] := by simp [fields]
  have hroom : Json.recordDialect.depthLimit ≠ 0 := by decide
  have hread := Json.read_object hne hroom (readsBack_fields ht hl)
  rw [distinctFields_fields, ← toJson_eq] at hread
  rw [decode?_encode_eq, hread]
  simp [Except.toOption, record_toJson]

/-- An entry whose lifetime has too many digits is not read back. -/
theorem decode?_encode_of_long {e : CacheEntry} (ht : e.createdAt.ReadsBack)
    (hl : ¬ ReadableLifetime e.lifetime) : decode? e.encode = none := by
  have hfields : e.fields = e.fields.take 4 ++ [("ttl_seconds", .int e.lifetime)] := rfl
  have hv : ∀ f ∈ e.fields.take 4, Json.ReadsBack Json.recordDialect f.2 := by
    simp only [fields, List.take_succ_cons, List.take_zero, List.mem_cons, List.not_mem_nil,
      or_false]
    rintro f (rfl | rfl | rfl | rfl)
    · exact Json.readsBack_string _ _
    · exact Json.readsBack_string _ _
    · exact Json.readsBack_string _ _
    · exact Json.readsBack_number ht
  have hroom : Json.recordDialect.depthLimit ≠ 0 := by decide
  obtain ⟨r, hr⟩ : ∃ r, Json.read Json.recordDialect (Json.object (Json.textFields
      (e.fields.take 4 ++ [("ttl_seconds", Json.int e.lifetime)]))).write = .error r :=
    Json.read_object_of_long hroom hv (by simpa [ReadableLifetime] using hl)
  rw [← hfields, ← toJson_eq] at hr
  rw [decode?_encode_eq, hr]
  rfl

/-! ### File names -/

theorem digitChar_ne {c : Char} (hc : c ∉ (List.range 16).map Nat.digitChar) (n : Nat) :
    Nat.digitChar (n % 16) ≠ c := by
  rintro rfl
  exact hc (List.mem_map.mpr ⟨n % 16, List.mem_range.mpr (Nat.mod_lt _ (by decide)), rfl⟩)

theorem not_mem_hexDigits {c : Char} (hc : c ∉ (List.range 16).map Nat.digitChar) (width n : Nat) :
    c ∉ Text.hexDigits width n := by
  induction width generalizing n with
  | zero => simp [Text.hexDigits]
  | succ width ih =>
    simp only [Text.hexDigits, List.mem_append, List.mem_singleton, not_or]
    exact ⟨ih _, (digitChar_ne hc n).symm⟩

/-- The mark of an entry consists of hexadecimal digits. -/
theorem not_mem_mark {c : Char} (hc : c ∉ (List.range 16).map Nat.digitChar) (space key : String) :
    c ∉ mark space key := by
  intro h
  have h := List.mem_of_mem_take h
  simp only [Digest.hex, List.mem_flatMap] at h
  obtain ⟨w, -, h⟩ := h
  exact not_mem_hexDigits hc _ _ h

theorem toList_fileName (space key : String) : (fileName space key).toList =
    safeSpace space ++ '_' :: (mark space key ++ ".json".toList) := by
  simp [fileName]

/-- **The name of an entry's file holds its mark**: no underscore stands behind the one before it. -/
theorem mark_eq_of_fileName_eq {space key space' key' : String}
    (h : fileName space key = fileName space' key') : mark space key = mark space' key' := by
  have tail (a b : String) : ((fileName a b).toList.reverse.takeWhile (· != '_')).reverse =
      mark a b ++ ".json".toList := by
    have hall : ∀ c ∈ (mark a b ++ ".json".toList).reverse, (c != '_') = true := by
      intro c hc
      rw [List.mem_reverse, List.mem_append] at hc
      rw [bne_iff_ne]
      rintro rfl
      rcases hc with hc | hc
      · exact not_mem_mark (by decide) a b hc
      · exact absurd hc (by decide)
    rw [toList_fileName, List.reverse_append, List.reverse_cons, List.append_assoc,
      List.takeWhile_append_of_pos hall]
    simp
  have heq := tail space key
  rw [h, tail space' key'] at heq
  exact (List.append_cancel_right heq).symm

end CacheEntry

end PipeScript
