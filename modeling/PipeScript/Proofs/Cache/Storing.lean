import PipeScript.Cache
import PipeScript.Proofs.Cache.Record
import PipeScript.Proofs.Disk.Fresh

/-!
# How an entry is stored

An entry is written to a temporary file, which is then moved into place. Whatever goes wrong on the way,
the disk is then as it was; and if nothing does, it is as if the record had been written to the entry's
file at once.

Main results: a mishap, or a refusal of the disk, changes nothing, and otherwise the record has been
written (`replace_cases`, `storeWith_cases`); without a mishap storing fails just where the directory cannot be listed or
the record cannot be written (`on_store`).
-/

namespace PipeScript.Cache

open CacheEntry

variable {c : Cache} {space key name : String} {d : Disk} {bytes : List UInt8}

/-! ### Names of files -/

theorem getLast?_fileName (space key : String) : (fileName space key).toList.getLast? = some 'n' := by
  simp [toList_fileName, List.getLast?_append, List.getLast?_cons]

theorem toList_temporaryName (n : Nat) :
    (temporaryName n).toList = "tmp".toList ++ Nat.toDigits 10 n ++ ".tmp".toList := by
  simp [temporaryName]

theorem getLast?_temporaryName (n : Nat) : (temporaryName n).toList.getLast? = some 'p' := by
  simp [toList_temporaryName, List.getLast?_append, List.getLast?_cons]

theorem names_temporaryName : Disk.Names temporaryName where
  injective m n h := by
    have hlist := congrArg String.toList h
    rw [toList_temporaryName, toList_temporaryName] at hlist
    have hdigits := List.append_cancel_left (List.append_cancel_right hlist)
    simpa using congrArg (fun ds => Nat.ofDigitChars 10 ds 0) hdigits
  ne_up n h := by
    have hlast := getLast?_temporaryName n
    rw [h] at hlast
    cases hlast
  ne_root n h := by
    have hlast := getLast?_temporaryName n
    rw [h] at hlast
    cases hlast

/-- Is it a name that no temporary file has, and that leads to no other directory? -/
structure IsEntryName (name : String) : Prop where
  ne_temporary : ∀ n, name ≠ temporaryName n
  ne_up : name ≠ ".."

theorem isEntryName_fileName (space key : String) : IsEntryName (fileName space key) where
  ne_temporary n h := by
    have hlast := getLast?_fileName space key
    rw [h, getLast?_temporaryName] at hlast
    cases hlast
  ne_up h := by
    have hlast := getLast?_fileName space key
    rw [h] at hlast
    cases hlast

/-! ### Steps of storing -/

/-- **Once there is a temporary file**, a mishap changes nothing, and else the bytes are written. -/
theorem replace_of_made {mishap : Option Mishap} {file : Location} {made : Disk}
    (hmade : d.makeFresh c.directory temporaryName = .ok (file, made))
    (hnone : ∀ f, mishap ≠ some (.making f)) (hname : IsEntryName name) (bytes : List UInt8) :
    c.replace mishap (c.directory.child name) bytes d = d.after (match mishap with
      | some (.writing _ f) | some (.moving f) => .error f
      | _ => (d.writeBytes (c.directory.child name) bytes).mapError movingFailure) := by
  obtain ⟨l, n, hd, rfl, hfree, rfl⟩ := Disk.exists_of_makeFresh names_temporaryName hmade
  have hfixed := names_temporaryName.isFixed l n
  have herase (node : Node) := Disk.erase_put_of_free hfixed hfree node
  have hmove := Disk.move_of_fresh hd hfixed hfree (hname.ne_temporary n) hname.ne_up bytes
  have hput : (d.put (l ++ [temporaryName n]) (.file [])).put (l ++ [temporaryName n]) (.file bytes) =
      d.put (l ++ [temporaryName n]) (.file bytes) := Disk.put_put _ _ _
  cases mishap with
  | none =>
    simp only [replace, makeTemporary, hmade, Except.mapError, fill, moveInto, hput, herase, hmove,
      Except.bind]
  | some m =>
    cases m with
    | making f => exact absurd rfl (hnone f)
    | writing written f =>
      simp only [replace, makeTemporary, hmade, Except.mapError, fill, Disk.put_put, herase, Except.bind]
    | moving f =>
      simp only [replace, makeTemporary, hmade, Except.mapError, fill, moveInto, hput, herase,
        Except.bind]

/-- **Storing is all or nothing**: either it fails and nothing has changed, or the bytes have been
written. -/
theorem replace_cases (c : Cache) (mishap : Option Mishap) (hname : IsEntryName name)
    (bytes : List UInt8) (d : Disk) :
    (∃ f, c.replace mishap (c.directory.child name) bytes d = (.error f, d)) ∨
      ∃ d', c.replace mishap (c.directory.child name) bytes d = (.ok (), d') ∧
        d.writeBytes (c.directory.child name) bytes = .ok d' := by
  have hwritten {r : Except Failure Disk} (hr : ∀ d', r = .ok d' →
      d.writeBytes (c.directory.child name) bytes = .ok d') :
      (∃ f, d.after r = (.error f, d)) ∨
        ∃ d', d.after r = (.ok (), d') ∧ d.writeBytes (c.directory.child name) bytes = .ok d' := by
    cases r with
    | error f => exact .inl ⟨f, rfl⟩
    | ok d' => exact .inr ⟨d', rfl, hr d' rfl⟩
  by_cases hmaking : ∃ f, mishap = some (.making f)
  · obtain ⟨f, rfl⟩ := hmaking
    exact .inl ⟨f, rfl⟩
  · rw [not_exists] at hmaking
    cases hmade : d.makeFresh c.directory temporaryName with
    | error f =>
      refine .inl ⟨makingFailure f, ?_⟩
      have htemporary : c.makeTemporary mishap d = .error (makingFailure f) := by
        unfold makeTemporary
        split
        · rename_i g
          exact absurd rfl (hmaking g)
        · rw [hmade]
          rfl
      rw [replace, htemporary]
    | ok r =>
      rw [replace_of_made hmade hmaking hname]
      refine hwritten fun d' hd' => ?_
      split at hd'
      · cases hd'
      · cases hd'
      · cases hwrite : d.writeBytes (c.directory.child name) bytes with
        | error f =>
          rw [hwrite] at hd'
          cases hd'
        | ok d'' =>
          rw [hwrite] at hd'
          exact hd'

/-- **Storing with any mishap** writes the file of its pair, or fails and changes nothing. -/
theorem storeWith_cases (c : Cache) (mishap : Option Mishap) (space key : String)
    (value lifetime : Json) (d : Disk) :
    (∃ f, (c.storeWith mishap space key value lifetime).on d = (.error f, d)) ∨
      ∃ bytes d', (c.storeWith mishap space key value lifetime).on d = (.ok (), d') ∧
        d.writeBytes (c.pathOf space key) bytes = .ok d' := by
  cases hentry : ofValue value space key c.now lifetime with
  | error es =>
    refine .inl ⟨.invalid "CacheEntry" es, ?_⟩
    simp only [storeWith, Work.on_of, hentry]
  | ok entry =>
    simp only [storeWith, Work.on_of, hentry, pathOf]
    rcases c.replace_cases mishap (isEntryName_fileName space key) entry.encode d with
      hfails | ⟨d', hdone, hwrite⟩
    · exact .inl hfails
    · exact .inr ⟨entry.encode, d', hdone, hwrite⟩

/-- What storing comes to without a mishap. -/
theorem replace_none (c : Cache) (hname : IsEntryName name) (bytes : List UInt8) (d : Disk) :
    c.replace none (c.directory.child name) bytes d =
      d.after (((d.list c.directory).mapError makingFailure).bind fun _ =>
        (d.writeBytes (c.directory.child name) bytes).mapError movingFailure) := by
  rcases d.makeFresh_iff_list c.directory temporaryName with
    ⟨⟨file, made⟩, es, hmade, hlist⟩ | ⟨f, hmade, hlist⟩
  · rw [replace_of_made hmade (by simp) hname, hlist]
    rfl
  · simp only [replace, makeTemporary, hmade, hlist, Except.mapError, Except.bind]
    rfl

/-- **Storing a valid entry** fails just where the directory cannot be listed or the record cannot be
written, and writes it else. -/
theorem on_store {value lifetime : Json} {entry : CacheEntry}
    (hentry : ofValue value space key c.now lifetime = .ok entry) (d : Disk) :
    (c.store space key value lifetime).on d =
      d.after (((d.list c.directory).mapError makingFailure).bind fun _ =>
        (d.writeBytes (c.pathOf space key) entry.encode).mapError movingFailure) := by
  simp only [store, storeWith, Work.on_of, hentry]
  exact replace_none c (isEntryName_fileName space key) entry.encode d

/-- **Storing a text** in a directory that is there puts its record in place of the entry's file. -/
theorem on_store_of_nameable {l : Location} (hd : d.LeadsTo c.directory l)
    (hp : Disk.Listable c.directory) (hn : Disk.Nameable c.directory (fileName space key))
    (hnode : d.node? (l ++ [fileName space key]) ≠ some .directory) (value : String) (lifetime : Nat) :
    (c.store space key (.string value) (.int lifetime)).on d = (.ok (),
      d.put (l ++ [fileName space key]) (.file (encode ⟨value, space, key, c.now, lifetime⟩))) := by
  rw [on_store (ofValue_string value space key c.now lifetime), Disk.list_eq hd hp, pathOf,
    Disk.writeBytes_child hd hn _ hnode]
  rfl

end PipeScript.Cache
