import PipeScript.Disk
import Mathlib.Data.List.Basic

/-!
# Files of one directory

What the operations of the disk do to the files of one directory, when its path leads there.

## The model

`LeadsTo` says that a path leads to a directory at a location, and `Nameable` that a name can be
given to a file in it: the system takes names and paths up to a length, and some names mean other
things. Under both, reading, writing and removing a file are the look-up, the entry and the removal
of the name in the list of the directory's entries.

Main results: `readBytes_child`, `writeBytes_child` and `remove_child`; and that the path still leads
to the directory after a file in it has been written or removed (`LeadsTo.put`, `LeadsTo.erase`).
-/

namespace PipeScript.Disk

/-- Where the names of a path start. -/
def origin (p : Path) : Location := if p.slashes = 0 then [] else Location.root

/-- Does the path lead to a directory at the location? -/
structure LeadsTo (d : Disk) (p : Path) (l : Location) : Prop where
  follow_eq : d.follow (origin p) p.names = .ok l
  isDirectory : d.node? l = some .directory

/-- Can a file in the directory at the path have the name? -/
structure Nameable (p : Path) (name : String) : Prop where
  no_nul : (p.child name).hasNul = false
  path_short : (p.child name).toString.utf8ByteSize < pathLimit
  name_short : name.utf8ByteSize ≤ nameLimit
  ne_up : name ≠ ".."
  ne_root : name ≠ "/"

variable {d : Disk} {p : Path} {l : Location} {name : String}

/-! ### Locations in a directory -/

theorem isFixed_child_of_ne (hup : name ≠ "..") (hroot : name ≠ "/") :
    Location.isFixed (l ++ [name]) = false := by
  have hne : l ++ [name] ≠ Location.root := by
    intro h
    have := List.append_eq_singleton_iff.mp h
    rcases this with ⟨-, h⟩ | ⟨-, h⟩
    · exact hroot (by simpa using h)
    · simp at h
  simp [Location.isFixed, Location.isAbove, hup, hne]

theorem isFixed_child (hn : Nameable p name) : Location.isFixed (l ++ [name]) = false :=
  isFixed_child_of_ne hn.ne_up hn.ne_root

/-- The entry that a node is in the directory at the location. -/
def childOf? (l : Location) (x : Location × Node) : Option (String × Node) :=
  match x.1.getLast? with
  | some name => if x.1.dropLast == l then some (name, x.2) else none
  | none => none

theorem entries_eq (d : Disk) (l : Location) : d.entries l = d.nodes.filterMap (childOf? l) := rfl

theorem childOf?_child (l : Location) (name : String) (n : Node) :
    childOf? l (l ++ [name], n) = some (name, n) := by
  simp [childOf?]

theorem eq_child_of_childOf? {x : Location × Node} {e : String × Node} (h : childOf? l x = some e) :
    x = (l ++ [e.1], e.2) := by
  obtain ⟨m, n⟩ := x
  unfold childOf? at h
  split at h
  · rename_i name hname
    split at h
    · rename_i hm
      simp only [Option.some.injEq] at h
      subst h
      have hm : m.dropLast = l := by simpa using hm
      have hlast : m.dropLast ++ [name] = m := List.dropLast_append_getLast? name hname
      rw [← hlast, hm]
    · simp at h
  · simp at h

/-- The node in a directory is the entry of its name. -/
theorem node?_child (hn : Nameable p name) :
    d.node? (l ++ [name]) = (Keyed.find? Prod.fst name (d.entries l)).map (·.2) := by
  rw [node?, isFixed_child hn, entries_eq]
  simp only [Bool.false_eq_true, if_false, Keyed.find?]
  induction d.nodes with
  | nil => rfl
  | cons x nodes ih =>
    cases hx : childOf? l x with
    | none =>
      have hne : x.1 ≠ l ++ [name] := by
        intro h
        have hsome := childOf?_child l name x.2
        rw [← h, hx] at hsome
        simp at hsome
      rw [List.find?_cons_of_neg (by simpa using hne), List.filterMap_cons_none hx, ih]
    | some e =>
      obtain rfl := eq_child_of_childOf? hx
      rw [List.filterMap_cons_some hx]
      by_cases he : e.1 = name
      · rw [List.find?_cons_of_pos (by simp [he]), List.find?_cons_of_pos (by simp [he])]
        rfl
      · rw [List.find?_cons_of_neg (by simp [he]), List.find?_cons_of_neg (by simp [he]), ih]

theorem entries_erase : (d.erase (l ++ [name])).entries l =
    Keyed.without Prod.fst name (d.entries l) := by
  simp only [entries_eq, erase, Keyed.without]
  induction d.nodes with
  | nil => rfl
  | cons x nodes ih =>
    cases hx : childOf? l x with
    | none =>
      rw [List.filterMap_cons_none hx, ← ih, List.filter_cons]
      split
      · rw [List.filterMap_cons_none hx]
      · rfl
    | some e =>
      obtain rfl := eq_child_of_childOf? hx
      rw [List.filterMap_cons_some hx]
      by_cases he : e.1 = name
      · rw [List.filter_cons_of_neg (by simp [he]), List.filter_cons_of_neg (by simp [he]), ih]
      · rw [List.filter_cons_of_pos (by simp [he]), List.filter_cons_of_pos (by simp [he]),
          List.filterMap_cons_some hx, ih]

theorem entries_put (n : Node) : (d.put (l ++ [name]) n).entries l =
    Keyed.put Prod.fst (name, n) (d.entries l) := by
  have h : (d.put (l ++ [name]) n).entries l =
      (d.erase (l ++ [name])).entries l ++ [(name, n)] := by
    simp [entries_eq, put, erase, Keyed.put, childOf?_child]
  rw [h, entries_erase]
  rfl

/-! ### The path of a file -/

theorem follow_append (d : Disk) (l : Location) (as bs : List String) :
    d.follow l (as ++ bs) = (d.follow l as).bind fun m => d.follow m bs := by
  induction as generalizing l with
  | nil => rfl
  | cons a as ih =>
    simp only [List.cons_append, follow]
    split
    · split
      · exact ih _
      · split
        · rfl
        · split
          · exact ih _
          · rfl
    · rfl

theorem target_concat (d : Disk) (p : Path) (name : String) : d.target (p.child name) =
    match d.follow (origin p) p.names with
    | .error e => .error e
    | .ok l =>
      match d.follow l [name] with
      | .ok m => .ok (.existing m ((d.node? m).getD .directory))
      | .error .notFound => .ok (.free (l ++ [name]))
      | .error e => .error e := by
  have hlast : (p.child name).names.getLast? = some name := by simp [Path.child]
  have hinit : (p.child name).names.dropLast = p.names := by simp [Path.child]
  rw [target, hlast, hinit]
  rfl

theorem target_child (hd : d.LeadsTo p l) (hn : Nameable p name) :
    d.target (p.child name) = .ok (match d.node? (l ++ [name]) with
      | some n => .existing (l ++ [name]) n
      | none => .free (l ++ [name])) := by
  have hshort : ¬ nameLimit < name.utf8ByteSize := Nat.not_lt.mpr hn.name_short
  simp only [target_concat, hd.follow_eq, follow, hd.isDirectory, hn.ne_up, hshort, if_false]
  cases h : d.node? (l ++ [name]) <;> simp [h]

/-- What is done at a file's path is done with the entry of its name. -/
theorem atTarget_child {α : Type} (hd : d.LeadsTo p l) (hn : Nameable p name)
    (act : Target → Except DiskProblem α) :
    d.atTarget (p.child name) act = match act (match d.node? (l ++ [name]) with
        | some n => .existing (l ++ [name]) n
        | none => .free (l ++ [name])) with
      | .ok a => .ok a
      | .error e => failAt (p.child name) e := by
  have hpath : ¬ pathLimit ≤ (p.child name).toString.utf8ByteSize := Nat.not_le.mpr hn.path_short
  rw [atTarget, hn.no_nul, if_neg Bool.false_ne_true, if_neg hpath, target_child hd hn]
  rfl

theorem readBytes_child (hd : d.LeadsTo p l) (hn : Nameable p name) {bytes : List UInt8}
    {age : Binary64} (h : d.node? (l ++ [name]) = some (.file bytes age)) :
    d.readBytes (p.child name) = .ok bytes := by
  simp only [readBytes, atTarget_child hd hn, h]

theorem readBytes_child_of_none (hd : d.LeadsTo p l) (hn : Nameable p name)
    (h : d.node? (l ++ [name]) = none) :
    d.readBytes (p.child name) = failAt (p.child name) .notFound := by
  simp only [readBytes, atTarget_child hd hn, h]

theorem writeBytes_child (hd : d.LeadsTo p l) (hn : Nameable p name) (bytes : List UInt8)
    (h : d.node? (l ++ [name]) ≠ some .directory) :
    d.writeBytes (p.child name) bytes = .ok (d.put (l ++ [name]) (.file bytes)) := by
  rw [writeBytes, atTarget_child hd hn]
  cases hnode : d.node? (l ++ [name]) with
  | none => rfl
  | some n =>
    cases n with
    | file => rfl
    | directory => exact absurd hnode h

theorem remove_child (hd : d.LeadsTo p l) (hn : Nameable p name) {bytes : List UInt8}
    {age : Binary64} (h : d.node? (l ++ [name]) = some (.file bytes age)) :
    d.remove (p.child name) = .ok (d.erase (l ++ [name])) := by
  simp only [remove, atTarget_child hd hn, h]

theorem remove_child_of_none (hd : d.LeadsTo p l) (hn : Nameable p name)
    (h : d.node? (l ++ [name]) = none) :
    d.remove (p.child name) = failAt (p.child name) .notFound := by
  simp only [remove, atTarget_child hd hn, h]

/-! ### The path of the directory -/

/-- Where nothing that names pass through is changed, they lead to the same place. -/
theorem follow_of_directories {d d' : Disk} {x : Location}
    (hsame : ∀ m, m ≠ x → d'.node? m = d.node? m) (hx : d.node? x ≠ some .directory) :
    ∀ {names : List String} {m l : Location}, d.follow m names = .ok l → l ≠ x →
      d'.follow m names = .ok l
  | [], _, _, h, _ => h
  | name :: rest, m, l, h, hl => by
    simp only [follow] at h ⊢
    cases hm : d.node? m with
    | none => simp [hm] at h
    | some n =>
      cases n with
      | file => simp [hm] at h
      | directory =>
        have hmx : m ≠ x := by
          rintro rfl
          exact hx hm
        rw [hsame m hmx, hm]
        simp only [hm] at h ⊢
        split at h
        · rename_i hup
          rw [if_pos hup]
          exact follow_of_directories hsame hx h hl
        rename_i hup
        rw [if_neg hup]
        split at h
        · simp at h
        rename_i hshort
        rw [if_neg hshort]
        split at h
        · rename_i hsome
          -- names can pass through the place itself only if it is a directory or they end there
          have hne : m ++ [name] ≠ x := by
            rintro rfl
            cases rest with
            | nil =>
              simp only [follow, Except.ok.injEq] at h
              exact hl h.symm
            | cons name' rest =>
              simp [follow] at h
          rw [hsame _ hne, if_pos hsome]
          exact follow_of_directories hsame hx h hl
        · simp at h

theorem ne_child (l : Location) (name : String) : l ≠ l ++ [name] := by
  intro h
  simpa using congrArg List.length h

/-- **A path still leads to its directory** after a file in it has been written. -/
theorem LeadsTo.put (hd : d.LeadsTo p l) (hn : Nameable p name) (bytes : List UInt8)
    (h : d.node? (l ++ [name]) ≠ some .directory) :
    (d.put (l ++ [name]) (.file bytes)).LeadsTo p l := by
  have hsame (m : Location) (hm : m ≠ l ++ [name]) :
      (d.put (l ++ [name]) (.file bytes)).node? m = d.node? m := by
    rw [node?_put (isFixed_child hn), if_neg hm]
  exact ⟨follow_of_directories hsame h hd.follow_eq (ne_child l name),
    (hsame l (ne_child l name)).trans hd.isDirectory⟩

theorem node?_erase_of_ne {d : Disk} {l m : Location} (h : m ≠ l) : (d.erase l).node? m = d.node? m := by
  cases hm : Location.isFixed m with
  | true => simp [node?, hm]
  | false => rw [node?_erase hm, if_neg h]

/-- **A path still leads to its directory** after a file in it has been removed. -/
theorem LeadsTo.erase (hd : d.LeadsTo p l) (h : d.node? (l ++ [name]) ≠ some .directory) :
    (d.erase (l ++ [name])).LeadsTo p l :=
  ⟨follow_of_directories (fun _ hm => node?_erase_of_ne hm) h hd.follow_eq (ne_child l name),
    (node?_erase_of_ne (ne_child l name)).trans hd.isDirectory⟩

/-! ### Listing -/

/-- Are all locations above this one directories? -/
def Grounded (d : Disk) (l : Location) : Prop := ∀ m, m <+: l → m ≠ l → d.node? m = some .directory

theorem node?_of_isFixed (h : Location.isFixed l = true) : d.node? l = some .directory := by
  simp [node?, h]

theorem grounded_of_isFixed (h : Location.isFixed l = true) : d.Grounded l := by
  intro m hm hne
  refine node?_of_isFixed ?_
  simp only [Location.isFixed, Bool.or_eq_true, Location.isAbove, List.all_eq_true,
    beq_iff_eq] at h ⊢
  rcases h with h | rfl
  · exact .inl fun name hname => h name (hm.subset hname)
  · have hlen := hm.length_le
    cases m with
    | nil => exact .inl (by simp)
    | cons a m =>
      have : m = [] := by simpa [Location.root] using hlen
      subst this
      exact absurd (hm.eq_of_length rfl) hne

theorem Grounded.child (h : d.Grounded l) (hl : d.node? l = some .directory) (name : String) :
    d.Grounded (l ++ [name]) := by
  intro m hm hne
  rcases List.prefix_concat_iff.mp hm with rfl | hm
  · exact absurd rfl hne
  · by_cases hml : m = l
    · rw [hml, hl]
    · exact h m hm hml

theorem Grounded.parent (h : d.Grounded l) :
    d.Grounded (Location.parent l) ∧ d.node? (Location.parent l) = some .directory := by
  have fixed {m : Location} (hm : Location.isFixed m = true) :
      d.Grounded m ∧ d.node? m = some .directory := ⟨grounded_of_isFixed hm, node?_of_isFixed hm⟩
  unfold Location.parent
  split
  · exact fixed (by decide)
  · split
    · rename_i habove
      refine fixed ?_
      simp only [Location.isFixed, Location.isAbove, List.all_append, Bool.or_eq_true] at habove ⊢
      exact .inl (by simp [habove])
    · rename_i habove
      have hne : l ≠ [] := by
        rintro rfl
        exact habove rfl
      have hinit : ∀ m, m <+: l.dropLast → d.node? m = some .directory := by
        intro m hm
        refine h m (hm.trans (List.dropLast_prefix l)) ?_
        rintro rfl
        have := hm.length_le
        have := List.length_pos_iff.mpr hne
        simp only [List.length_dropLast] at *
        omega
      exact ⟨fun m hm _ => hinit m hm, hinit _ (List.prefix_refl _)⟩

/-- What names lead to is there, and so are the directories above it. -/
theorem grounded_of_follow : ∀ {names : List String} {m l : Location}, d.Grounded m →
    (d.node? m).isSome = true → d.follow m names = .ok l → d.Grounded l ∧ (d.node? l).isSome = true
  | [], m, l, hm, hs, h => by
    simp only [follow, Except.ok.injEq] at h
    subst h
    exact ⟨hm, hs⟩
  | name :: rest, m, l, hm, hs, h => by
    simp only [follow] at h
    split at h
    · rename_i hdir
      split at h
      · exact grounded_of_follow hm.parent.1 (by rw [hm.parent.2]; rfl) h
      · split at h
        · simp at h
        · split at h
          · rename_i hsome
            exact grounded_of_follow (hm.child hdir name) hsome h
          · simp at h
    · simp at h

theorem isFixed_origin (p : Path) : Location.isFixed (origin p) = true := by
  unfold origin
  split <;> decide

/-- A path is its origin, or the path of a directory with one more name. -/
theorem names_eq_nil_or_child (p : Path) :
    p.names = [] ∨ ∃ q name, p = Path.child q name ∧ origin q = origin p := by
  rcases List.eq_nil_or_concat p.names with hnil | ⟨names, name, hnames⟩
  · exact .inl hnil
  · refine .inr ⟨⟨p.slashes, names⟩, name, ?_, rfl⟩
    cases p
    simp_all [Path.child]

theorem follow_child (d : Disk) (q : Path) (name : String) :
    d.follow (origin q) (q.child name).names =
      (d.follow (origin q) q.names).bind fun m => d.follow m [name] := by
  rw [Path.child, follow_append]

/-- The target of a path that is there is what its names lead to. -/
theorem follow_of_target {n : Node} (h : d.target p = .ok (.existing l n)) :
    d.follow (origin p) p.names = .ok l ∧ d.node? l = some n := by
  have hgo : d.Grounded (origin p) := grounded_of_isFixed (isFixed_origin p)
  have hso : d.node? (origin p) = some .directory := node?_of_isFixed (isFixed_origin p)
  rcases names_eq_nil_or_child p with hnil | ⟨q, name, rfl, hq⟩
  · rw [target, hnil] at h
    simp only [List.getLast?_nil, Except.ok.injEq, Target.existing.injEq] at h
    rw [hnil, ← h.1, ← h.2]
    exact ⟨rfl, hso⟩
  · rw [target_concat] at h
    rw [← hq] at hgo hso ⊢
    cases h₁ : d.follow (origin q) q.names with
    | error e => simp [h₁] at h
    | ok m =>
      cases h₂ : d.follow m [name] with
      | error e => cases e <;> simp [h₁, h₂] at h
      | ok k =>
        simp only [h₁, h₂, Except.ok.injEq, Target.existing.injEq] at h
        obtain ⟨rfl, rfl⟩ := h
        have hf : d.follow (origin q) (q.child name).names = .ok k := by
          rw [follow_child, h₁]
          exact h₂
        obtain ⟨-, hsome⟩ := grounded_of_follow hgo (by rw [hso]; rfl) hf
        obtain ⟨n, hn⟩ := Option.isSome_iff_exists.mp hsome
        exact ⟨hf, by rw [hn]; rfl⟩

theorem target_of_leadsTo (hd : d.LeadsTo p l) : d.target p = .ok (.existing l .directory) := by
  obtain ⟨hf, hdir⟩ := hd
  rcases names_eq_nil_or_child p with hnil | ⟨q, name, rfl, hq⟩
  · rw [hnil, follow, Except.ok.injEq] at hf
    rw [target, hnil, ← hf]
    rfl
  · rw [← hq, follow_child] at hf
    rw [target_concat]
    cases h₁ : d.follow (origin q) q.names with
    | error e => simp [h₁, Except.bind] at hf
    | ok m =>
      have h₂ : d.follow m [name] = .ok l := by simpa [h₁, Except.bind] using hf
      simp only [h₂, hdir, Option.getD_some]

/-- A path whose entries can be listed leads to a directory. -/
theorem leadsTo_of_list {es : List (String × Node)} (h : d.list p = .ok es) :
    ∃ l, d.LeadsTo p l ∧ es = (d.entries l).mergeSort fun a b => nameLe a.1 b.1 := by
  unfold list atTarget at h
  split_ifs at h with hnul hlong
  · simp [failAt] at h
  cases ht : d.target p with
  | error e => simp [ht, Except.bind, failAt] at h
  | ok t =>
    cases t with
    | free l => simp [ht, Except.bind, failAt] at h
    | existing l n =>
      cases n with
      | file => simp [ht, Except.bind, failAt] at h
      | directory =>
        obtain ⟨hf, hd⟩ := follow_of_target ht
        simp only [ht, Except.bind, Except.ok.injEq] at h
        exact ⟨l, ⟨hf, hd⟩, h.symm⟩

/-- A directory's path that has no NUL and is not too long. -/
structure Listable (p : Path) : Prop where
  no_nul : p.hasNul = false
  short : p.toString.utf8ByteSize < pathLimit

theorem listable_of_list {es : List (String × Node)} (h : d.list p = .ok es) : Listable p := by
  unfold list atTarget at h
  split_ifs at h with hnul hlong
  · simp [failAt] at h
  · exact ⟨by simpa using hnul, Nat.not_le.mp hlong⟩

/-- **A directory is listed** in the order of the names of its entries. -/
theorem list_eq (hd : d.LeadsTo p l) (hp : Listable p) :
    d.list p = .ok ((d.entries l).mergeSort fun a b => nameLe a.1 b.1) := by
  have hshort : ¬ pathLimit ≤ p.toString.utf8ByteSize := Nat.not_le.mpr hp.short
  simp only [list, atTarget, hp.no_nul, Bool.false_eq_true, hshort, if_false, target_of_leadsTo hd,
    Except.bind]

end PipeScript.Disk
