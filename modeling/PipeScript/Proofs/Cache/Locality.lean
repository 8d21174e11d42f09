import PipeScript.Proofs.Cache.Separation
import PipeScript.Proofs.Text.Search

/-!
# Operations on one entry

Storing, looking up and removing an entry touch the file of this entry and no other one, whatever the
directory holds, whatever goes wrong on the way, and whether they fail or not. No temporary file stays.
Storing that fails changes nothing.

## The model

`Path.IsPlain` says of a name that it is a single name of a file, so that the path of an entry's file is
one name below the directory. What an operation leaves alone is `Disk.SameButFile`: every place of the
disk but that of the entry's file, and all other entries of the directory. Nothing is assumed of the
directory, which need not even be there.

Storing may also meet a `Mishap` at any of its steps. Without one it is refused where the lifetime is
negative, where there is no directory, and where another directory has the name of the entry's file
(`Unstorable`).

Main results: `operations_touch_own_file`, and `storeWith_of_unstorable`.
-/

namespace PipeScript

/-! ### Names of single files -/

/-- A text without the separator is one piece. -/
theorem Text.splitOn_of_not_mem {c : Char} {s : List Char} (h : c ∉ s) : splitOn [c] s = [s] := by
  induction s with
  | nil => rfl
  | cons a s ih =>
    obtain ⟨ha, hs⟩ := List.ne_and_not_mem_of_not_mem_cons h
    simpa [splitOn, splitSkipping, ha, consFirst] using congrArg (consFirst a) (ih hs)

namespace Path

/-- Is it the name of a single file: without a separator, read as this one name, and not leading up? -/
structure IsPlain (name : String) : Prop where
  no_slash : '/' ∉ name.toList
  no_backslash : '\\' ∉ name.toList
  ofString_eq : ofString name = ⟨0, [name]⟩
  ne_up : name ≠ ".."

theorem ofString_of_plain {name : String} (h : '/' ∉ name.toList) (hempty : name.toList ≠ [])
    (hdot : name.toList ≠ ['.']) : ofString name = ⟨0, [name]⟩ := by
  have hlead : name.toList.takeWhile (· == '/') = [] := by
    rw [List.takeWhile_eq_nil_iff]
    intro hpos heq
    exact h (eq_of_beq heq ▸ List.getElem_mem hpos)
  have hkept : (!name.toList.isEmpty && name.toList != ['.']) = true := by simp [hempty, hdot]
  simp only [ofString, hlead, Text.splitOn_of_not_mem h, List.filter_cons, hkept, if_true,
    List.filter_nil, List.map_cons, List.map_nil, String.ofList_toList]
  rfl

end Path

namespace Cache

open CacheEntry Disk

variable {c : Cache} {space key : String} {d : Disk}

theorem isPlain_fileName (space key : String) : Path.IsPlain (fileName space key) := by
  have hslash := not_mem_fileName (c := '/') (by decide) (by decide) space key
  have hunderscore := underscore_mem_fileName space key
  refine ⟨hslash, not_mem_fileName (by decide) (by decide) space key, ?_, ?_⟩
  · apply Path.ofString_of_plain hslash
    · exact List.ne_nil_of_mem hunderscore
    · intro h
      rw [h] at hunderscore
      exact absurd hunderscore (by decide)
  · exact (isEntryName_fileName space key).ne_up

theorem fileName_ne_special (space key : String) :
    fileName space key ≠ ".." ∧ fileName space key ≠ "/" :=
  ⟨fileName_ne_of_not_mem (by decide) space key, fileName_ne_of_not_mem (by decide) space key⟩

theorem isFixed_fileName (l : Location) (space key : String) :
    Location.isFixed (l ++ [fileName space key]) = false :=
  isFixed_child_of_ne (fileName_ne_special space key).1 (fileName_ne_special space key).2

/-! ### Looking up -/

/-- Removing a file that may be there has removed it, or has changed nothing. -/
theorem discard_cases (d : Disk) (p : Path) : discard d p = d ∨ d.remove p = .ok (discard d p) := by
  unfold discard
  cases d.remove p with
  | error f => exact .inl rfl
  | ok d' => exact .inr rfl

/-- The entry that the bytes hold, if it is valid at the time. -/
def valid? (c : Cache) (bytes : List UInt8) : Option CacheEntry :=
  (decode? bytes).filter fun e => !e.isExpired c.now

/-- **A file that can be read** gives the value of its entry, or is removed. -/
theorem on_lookup_of_readBytes {bytes : List UInt8}
    (h : d.readBytes (c.pathOf space key) = .ok bytes) :
    (c.lookup space key).on d = match c.valid? bytes with
      | some e => (.ok (some e.data), d)
      | none => (.ok none, discard d (c.pathOf space key)) := by
  simp only [lookup, Work.on_of, h, valid?]
  cases decode? bytes with
  | none => rfl
  | some e =>
    by_cases hexpired : e.isExpired c.now = true
    · simp [Option.filter, hexpired]
    · simp [Option.filter, hexpired]

/-- A file that cannot be read is left alone. -/
theorem snd_lookup_of_error {f : Failure} (h : d.readBytes (c.pathOf space key) = .error f) :
    ((c.lookup space key).on d).2 = d := by
  simp only [lookup, Work.on_of, h]
  cases f with
  | disk e =>
    simp only
    by_cases hp : e.problem = .notFound
    · rw [if_pos hp]
    · rw [if_neg hp]
  | _ => rfl

/-- Looking up removes the file of its pair, or changes nothing. -/
theorem snd_lookup_cases (c : Cache) (space key : String) (d : Disk) :
    ((c.lookup space key).on d).2 = d ∨
      d.remove (c.pathOf space key) = .ok ((c.lookup space key).on d).2 := by
  cases hread : d.readBytes (c.pathOf space key) with
  | error f => exact .inl (snd_lookup_of_error hread)
  | ok bytes =>
    rw [on_lookup_of_readBytes hread]
    cases c.valid? bytes with
    | some e => exact .inl rfl
    | none => exact discard_cases d (c.pathOf space key)

/-! ### Storing -/

/-- Is storing with the lifetime refused? -/
inductive Unstorable (c : Cache) (space key : String) (d : Disk) : Json → Prop
  /-- The lifetime is negative. -/
  | negative {n : Int} (h : n < 0) : Unstorable c space key d (.int n)
  /-- A directory has the name of the entry's file. -/
  | occupied {lifetime : Json} {l : Location} (hd : d.LeadsTo c.directory l)
      (h : d.node? (l ++ [fileName space key]) = some .directory) : Unstorable c space key d lifetime
  /-- There is no directory. -/
  | missing {lifetime : Json} (h : ∀ l, ¬ d.LeadsTo c.directory l) : Unstorable c space key d lifetime

/-- Errors of the last field are errors of the record. -/
theorem exists_error_ap {α β : Type} (f : Checked (α → β)) (es : List FieldError) :
    ∃ fs, Checked.ap f (.error es) = .error fs := by
  cases f with
  | ok f => exact ⟨es, rfl⟩
  | error fs => exact ⟨fs ++ es, rfl⟩

theorem exists_error_ofValue {n : Int} (h : n < 0) (value : Json) (space key : String)
    (now : Binary64) : ∃ es, ofValue value space key now (.int n) = .error es := by
  have hbound : Rule.keepsInt n (.atLeast 0) = false := by simp [Rule.keepsInt, h]
  have hlifetime : ∃ es, (Rule.required "ttl_seconds" (Rule.integerIn [.atLeast 0])
      [("data", value), ("namespace", .string space), ("key", .string key),
        ("created_at", .number now), ("ttl_seconds", .int n)]).map Int.toNat = .error es := by
    simp [Rule.required, Json.field?, Rule.integerIn, Rule.integer, Except.bind, Rule.bounded, hbound,
      Checked.fail, Checked.within, Except.map]
  obtain ⟨es, hes⟩ := hlifetime
  rw [ofValue, ofFields, hes]
  exact exists_error_ap _ es

/-- **Storing that is refused** fails, with or without a mishap, and changes nothing. -/
theorem storeWith_of_unstorable {lifetime : Json} (h : Unstorable c space key d lifetime)
    (mishap : Option Mishap) (value : Json) :
    ∃ f, (c.storeWith mishap space key value lifetime).on d = (.error f, d) := by
  have hfile {bytes : List UInt8} {d' : Disk} (hwrite : d.writeBytes (c.pathOf space key) bytes = .ok d') :
      ∃ l, d.LeadsTo c.directory l ∧ d.node? (l ++ [fileName space key]) ≠ some .directory := by
    obtain ⟨l, hl, hnode, -⟩ := exists_of_writeBytes hwrite (fileName_ne_special space key).1
    exact ⟨l, hl, hnode⟩
  cases h with
  | negative hn =>
    obtain ⟨es, hes⟩ := exists_error_ofValue hn value space key c.now
    refine ⟨.invalid "CacheEntry" es, ?_⟩
    simp only [storeWith, Work.on_of, hes]
  | occupied hd hnode =>
    rcases storeWith_cases c mishap space key value lifetime d with hfails | ⟨bytes, d', -, hwrite⟩
    · exact hfails
    · obtain ⟨l, hl, hne⟩ := hfile hwrite
      exact absurd (hd.unique hl ▸ hnode) hne
  | missing hnone =>
    rcases storeWith_cases c mishap space key value lifetime d with hfails | ⟨bytes, d', -, hwrite⟩
    · exact hfails
    · obtain ⟨l, hl, -⟩ := hfile hwrite
      exact absurd hl (hnone l)

/-! ### All operations -/

/-- **Operations on an entry touch its own file only.** Its name is that of a single file, one name below
the directory. Storing it with any mishap, looking it up and removing it leave the rest of the disk
alone, whatever is there, and whatever they come to. And storing that fails, as it does wherever it is
refused, leaves the whole disk as it was. -/
theorem operations_touch_own_file (c : Cache) (space key : String) (d : Disk) :
    Path.IsPlain (fileName space key) ∧
    (c.pathOf space key).parent = c.directory ∧
    (c.pathOf space key).names = c.directory.names ++ [fileName space key] ∧
    (∀ mishap value lifetime,
      SameButFile c.directory (fileName space key) d
          ((c.storeWith mishap space key value lifetime).on d).2 ∧
        (∀ f, ((c.storeWith mishap space key value lifetime).on d).1 = .error f →
          ((c.storeWith mishap space key value lifetime).on d).2 = d) ∧
        (Unstorable c space key d lifetime →
          ∃ f, (c.storeWith mishap space key value lifetime).on d = (.error f, d))) ∧
    SameButFile c.directory (fileName space key) d ((c.lookup space key).on d).2 ∧
    SameButFile c.directory (fileName space key) d ((c.invalidate space key).on d).2 := by
  have hname := fileName_ne_special space key
  have hremoved {d' : Disk} (h : d' = d ∨ d.remove (c.pathOf space key) = .ok d') :
      SameButFile c.directory (fileName space key) d d' := by
    rcases h with rfl | h
    · exact .refl _ _ _
    · exact .of_remove h hname.1
  refine ⟨isPlain_fileName space key, ?_, rfl, fun mishap value lifetime => ⟨?_, ?_, ?_⟩,
    hremoved (snd_lookup_cases c space key d), hremoved (snd_invalidate_cases c space key d)⟩
  · simp [pathOf, Path.child, Path.parent]
  · rcases storeWith_cases c mishap space key value lifetime d with
      ⟨f, hfails⟩ | ⟨bytes, d', hdone, hwrite⟩
    · rw [hfails]
      exact .refl _ _ _
    · rw [hdone]
      exact .of_writeBytes hwrite hname
  · intro f hf
    rcases storeWith_cases c mishap space key value lifetime d with
      ⟨g, hfails⟩ | ⟨bytes, d', hdone, -⟩
    · rw [hfails]
    · rw [hdone] at hf
      cases hf
  · intro h
    exact storeWith_of_unstorable h mishap value

theorem isFixed_letter : Location.isFixed [fileName "a" "k"] = false := isFixed_fileName [] "a" "k"

/-- A disk with a directory where the file of an entry should be, and a file beside it. -/
def occupied : Disk := ⟨[([fileName "a" "k"], .directory), (["notes"], .file [104])]⟩

/-- **The directory** is in the way of the entry, and the file beside it stays. -/
theorem operations_occupied (now : Binary64) :
    (∃ f, ((Cache.mk here now).store "a" "k" (.string "v") (.int 60)).on occupied = (.error f, occupied)) ∧
    (((Cache.mk here now).lookup "a" "k").on occupied).2.node? ["notes"] = some (.file [104]) ∧
    (((Cache.mk here now).invalidate "a" "k").on occupied).2.node? ["notes"] = some (.file [104]) := by
  obtain ⟨-, -, -, hstore, hlookup, hinvalidate⟩ :=
    operations_touch_own_file (Cache.mk here now) "a" "k" occupied
  have hleads : occupied.LeadsTo here [] := ⟨rfl, rfl⟩
  have hdirectory : occupied.node? ([] ++ [fileName "a" "k"]) = some .directory := by
    simp [node?, isFixed_letter, occupied, Keyed.find?]
  have hnotes : fileName "a" "k" ≠ "notes" := fileName_ne_of_not_mem (by decide) "a" "k"
  have hfile : occupied.node? ["notes"] = some (.file [104]) := by
    simp [node?, Location.isFixed, Location.isAbove, Location.root, occupied, Keyed.find?, hnotes]
  have hother : ∀ l, occupied.LeadsTo here l → ["notes"] ≠ l ++ [fileName "a" "k"] := by
    intro l hl heq
    obtain rfl := hleads.unique hl
    exact hnotes (by simpa using heq.symm)
  refine ⟨?_, ?_, ?_⟩
  · exact (hstore none (.string "v") (.int 60)).2.2 (.occupied hleads hdirectory)
  · rw [hlookup.node?_eq _ hother, hfile]
  · rw [hinvalidate.node?_eq _ hother, hfile]

end Cache

end PipeScript
