import PipeScript.Proofs.Disk.Directory

/-!
# Files beside each other

Writing or removing a file leaves alone what is read at the other paths of its directory: their bytes,
or the failure to read them. Nothing is assumed of the disk or of the directory's path.

## The model

`SameBut` says that two disks have the same node at each location but one, and that the first one has
no directory there. The names of a path pass through directories, so they lead to the same place on
both disks (`SameBut.follow`).

`SameButFile` says the same of a file in the directory of a path: whatever is at another place is as it
was, and the directory has the same other entries. Where the path leads to no directory, that is no
change at all.

Main results: `readBytes_of_writeBytes` and `readBytes_of_remove`; `SameButFile.of_writeBytes` and
`SameButFile.of_remove`.
-/

namespace PipeScript.Disk

variable {d d' : Disk} {p : Path} {l x : Location} {name name' : String}

/-- Do the disks have the same nodes, but at one location, where the first one has no directory? -/
structure SameBut (x : Location) (d d' : Disk) : Prop where
  same : ∀ m, m ≠ x → d'.node? m = d.node? m
  no_directory : d.node? x ≠ some .directory

namespace SameBut

theorem put (hx : Location.isFixed x = false) (n : Node) (h : d.node? x ≠ some .directory) :
    SameBut x d (d.put x n) where
  same m hm := by rw [node?_put hx, if_neg hm]
  no_directory := h

theorem erase (h : d.node? x ≠ some .directory) : SameBut x d (d.erase x) where
  same _ hm := node?_erase_of_ne hm
  no_directory := h

/-- Names lead to the same place, unless it is the one that has changed. -/
theorem follow (h : SameBut x d d') {names : List String} {m l : Location}
    (hl : d.follow m names = .ok l) (hne : l ≠ x) : d'.follow m names = .ok l :=
  follow_of_directories h.same h.no_directory hl hne

/-- A name in a directory leads to the same place as before, if it is not the one that has changed. -/
theorem follow_singleton (h : SameBut (l ++ [name]) d d') (hne : name' ≠ name) (hup : name' ≠ "..") :
    d'.follow l [name'] = d.follow l [name'] := by
  have hother : l ++ [name'] ≠ l ++ [name] := by simpa using hne
  simp only [Disk.follow, h.same l (ne_child l name), h.same _ hother, hup, if_false]

theorem target (h : SameBut (l ++ [name]) d d') (hl : d.follow (origin p) p.names = .ok l)
    (hne : name' ≠ name) (hup : name' ≠ "..") :
    d'.target (p.child name') = d.target (p.child name') := by
  simp only [target_concat, hl, h.follow hl (ne_child l name), h.follow_singleton hne hup]
  cases hm : d.follow l [name'] with
  | error e => cases e <;> rfl
  | ok m =>
    -- the place that the name leads to is below the directory
    have hbelow : m = l ++ [name'] := by
      simp only [Disk.follow, hup, if_false] at hm
      split at hm
      · split at hm
        · cases hm
        · split at hm
          · exact (Except.ok.inj hm).symm
          · cases hm
      · cases hm
    have hother : m ≠ l ++ [name] := by simpa [hbelow] using hne
    simp only [h.same m hother]

theorem readBytes (h : SameBut (l ++ [name]) d d') (hl : d.follow (origin p) p.names = .ok l)
    (hne : name' ≠ name) (hup : name' ≠ "..") :
    d'.readBytes (p.child name') = d.readBytes (p.child name') := by
  simp only [Disk.readBytes, atTarget, h.target hl hne hup]

end SameBut

/-! ### Operations on one file -/

/-- An operation at a path has found its target, and done something with it. -/
theorem exists_target_of_atTarget {α : Type} {act : Target → Except DiskProblem α} {a : α}
    (h : d.atTarget p act = .ok a) : ∃ t, d.target p = .ok t ∧ act t = .ok a := by
  unfold atTarget failAt at h
  split_ifs at h
  cases ht : d.target p with
  | error e =>
    rw [ht] at h
    cases h
  | ok t =>
    refine ⟨t, rfl, ?_⟩
    rw [ht, Except.bind] at h
    split at h
    · rename_i hact
      rw [hact, Except.ok.inj h]
    · cases h

/-- The target of a path is a place in the directory that the names before the last one lead to. -/
theorem exists_leadsTo_of_target {t : Target} (h : d.target (p.child name) = .ok t)
    (hup : name ≠ "..") : ∃ l, d.LeadsTo p l ∧
      ((∃ n, t = .existing (l ++ [name]) n ∧ d.node? (l ++ [name]) = some n) ∨
        t = .free (l ++ [name]) ∧ d.node? (l ++ [name]) = none) := by
  rw [target_concat] at h
  cases hl : d.follow (origin p) p.names with
  | error e =>
    rw [hl] at h
    cases h
  | ok l =>
    simp only [hl, follow, hup, if_false] at h
    cases hdir : d.node? l with
    | none => simp [hdir] at h
    | some n =>
      cases n with
      | file => simp [hdir] at h
      | directory =>
        refine ⟨l, ⟨hl, hdir⟩, ?_⟩
        by_cases hlong : nameLimit < name.utf8ByteSize
        · simp [hdir, hlong] at h
        · cases hnode : d.node? (l ++ [name]) with
          | none =>
            refine .inr ⟨?_, rfl⟩
            simpa [hdir, hlong, hnode] using h.symm
          | some n =>
            refine .inl ⟨n, ?_, rfl⟩
            simpa [hdir, hlong, hnode] using h.symm

/-- A file has been written in the directory that the path leads to, where there was none or another
file. -/
theorem exists_of_writeBytes {bytes : List UInt8} (h : d.writeBytes (p.child name) bytes = .ok d')
    (hup : name ≠ "..") : ∃ l, d.LeadsTo p l ∧ d.node? (l ++ [name]) ≠ some .directory ∧
      d' = d.put (l ++ [name]) (.file bytes) := by
  obtain ⟨t, ht, hact⟩ := exists_target_of_atTarget h
  obtain ⟨l, hl, ⟨n, rfl, hn⟩ | ⟨rfl, hn⟩⟩ := exists_leadsTo_of_target ht hup
  · cases n with
    | file => exact ⟨l, hl, by simp [hn], (Except.ok.inj hact).symm⟩
    | directory => cases hact
  · exact ⟨l, hl, by simp [hn], (Except.ok.inj hact).symm⟩

/-- A file has been removed from the directory that the path leads to. -/
theorem exists_of_remove (h : d.remove (p.child name) = .ok d') (hup : name ≠ "..") :
    ∃ l, d.LeadsTo p l ∧ d.node? (l ++ [name]) ≠ some .directory ∧ d' = d.erase (l ++ [name]) := by
  obtain ⟨t, ht, hact⟩ := exists_target_of_atTarget h
  obtain ⟨l, hl, ⟨n, rfl, hn⟩ | ⟨rfl, -⟩⟩ := exists_leadsTo_of_target ht hup
  · cases n with
    | file => exact ⟨l, hl, by simp [hn], (Except.ok.inj hact).symm⟩
    | directory => cases hact
  · cases hact

/-- **Writing a file** leaves alone what is read at the other paths of its directory. -/
theorem readBytes_of_writeBytes {bytes : List UInt8} (h : d.writeBytes (p.child name) bytes = .ok d')
    (hfixed : name ≠ ".." ∧ name ≠ "/") (hne : name' ≠ name) (hup : name' ≠ "..") :
    d'.readBytes (p.child name') = d.readBytes (p.child name') := by
  obtain ⟨l, hl, hnode, rfl⟩ := exists_of_writeBytes h hfixed.1
  exact (SameBut.put (isFixed_child_of_ne hfixed.1 hfixed.2) (.file bytes) hnode).readBytes
    hl.follow_eq hne hup

/-- **Removing a file** leaves alone what is read at the other paths of its directory. -/
theorem readBytes_of_remove (h : d.remove (p.child name) = .ok d') (hfixed : name ≠ "..")
    (hne : name' ≠ name) (hup : name' ≠ "..") :
    d'.readBytes (p.child name') = d.readBytes (p.child name') := by
  obtain ⟨l, hl, hnode, rfl⟩ := exists_of_remove h hfixed
  exact (SameBut.erase hnode).readBytes hl.follow_eq hne hup

/-! ### One file of a directory -/

/-- Is the second disk the first one, but for the file of one name in the directory of a path? -/
structure SameButFile (p : Path) (name : String) (d d' : Disk) : Prop where
  /-- What is at any other place is the same. -/
  node?_eq : ∀ m, (∀ l, d.LeadsTo p l → m ≠ l ++ [name]) → d'.node? m = d.node? m
  /-- The directory has the same other entries. -/
  entries_eq : ∀ l, d.LeadsTo p l →
    Keyed.without Prod.fst name (d'.entries l) = Keyed.without Prod.fst name (d.entries l)

/-- A path leads to one place. -/
theorem LeadsTo.unique {l' : Location} (h : d.LeadsTo p l) (h' : d.LeadsTo p l') : l = l' :=
  Except.ok.inj (h.follow_eq.symm.trans h'.follow_eq)

namespace SameButFile

theorem refl (p : Path) (name : String) (d : Disk) : SameButFile p name d d where
  node?_eq _ _ := rfl
  entries_eq _ _ := rfl

theorem of_writeBytes {bytes : List UInt8} (h : d.writeBytes (p.child name) bytes = .ok d')
    (hfixed : name ≠ ".." ∧ name ≠ "/") : SameButFile p name d d' := by
  obtain ⟨l, hl, -, rfl⟩ := exists_of_writeBytes h hfixed.1
  constructor
  · intro m hm
    rw [node?_put (isFixed_child_of_ne hfixed.1 hfixed.2), if_neg (hm l hl)]
  · intro l' hl'
    obtain rfl := hl.unique hl'
    rw [entries_put, Keyed.without_put Prod.fst (name, Node.file bytes)]

theorem of_remove (h : d.remove (p.child name) = .ok d') (hup : name ≠ "..") :
    SameButFile p name d d' := by
  obtain ⟨l, hl, -, rfl⟩ := exists_of_remove h hup
  constructor
  · intro m hm
    exact node?_erase_of_ne (hm l hl)
  · intro l' hl'
    obtain rfl := hl.unique hl'
    rw [entries_erase, Keyed.without_without]

end SameButFile

end PipeScript.Disk
