import PipeScript.Proofs.Disk.Frame
import Mathlib.Data.List.Nodup
import Mathlib.Data.List.Perm.Subperm

/-!
# Files that are made to be moved

A file under a name that was free leaves no trace once it is removed, or moved over another file: the
disk is then as it was, or as if that other file had been written at once.

## What is assumed

The names to choose from are different from each other, and are names of files (`Names`). Whatever the
directory holds, one of them is free.

Main results: `exists_of_makeFresh`, that the file is made in the directory that the path leads to,
under a name that was free; `erase_put_of_free`; and `move_of_fresh`, that moving such a file into its
directory is writing its bytes there.
-/

namespace PipeScript.Disk

variable {d made : Disk} {p : Path} {l file : Location} {name : String}

/-- Are these different names that files can have? -/
structure Names (names : Nat → String) : Prop where
  injective : Function.Injective names
  ne_up : ∀ n, names n ≠ ".."
  ne_root : ∀ n, names n ≠ "/"

theorem Names.isFixed {names : Nat → String} (h : Names names) (l : Location) (n : Nat) :
    Location.isFixed (l ++ [names n]) = false :=
  isFixed_child_of_ne (h.ne_up n) (h.ne_root n)

/-! ### Free names -/

theorem mem_of_node? (hl : Location.isFixed l = false) (h : d.node? l ≠ none) :
    l ∈ d.nodes.map Prod.fst := by
  rw [node?, hl, if_neg Bool.false_ne_true] at h
  cases hf : Keyed.find? Prod.fst l d.nodes with
  | none =>
    rw [hf] at h
    exact absurd rfl h
  | some x =>
    have hx := List.mem_of_find?_eq_some hf
    have heq : x.1 = l := by simpa using List.find?_some hf
    exact heq ▸ List.mem_map_of_mem hx

/-- **One of the names is free**, since there are more of them than nodes. -/
theorem node?_freeNumber {names : Nat → String} (h : Names names) (d : Disk) (l : Location) :
    d.node? (l ++ [names (d.freeNumber l names)]) = none := by
  rw [freeNumber]
  cases hfind : (List.range d.nodes.length).find? fun n => (d.node? (l ++ [names n])).isNone with
  | some n => simpa using List.find?_some hfind
  | none =>
    rw [Option.getD_none]
    by_contra hlast
    have htaken : ∀ n ∈ List.range (d.nodes.length + 1), l ++ [names n] ∈ d.nodes.map Prod.fst := by
      intro n hn
      refine mem_of_node? (h.isFixed l n) ?_
      by_cases hlt : n < d.nodes.length
      · have hsome := List.find?_eq_none.mp hfind n (List.mem_range.mpr hlt)
        rintro hnone
        exact hsome (by rw [hnone]; rfl)
      · obtain rfl : n = d.nodes.length := by
          have := List.mem_range.mp hn
          omega
        exact hlast
    have hnodup : ((List.range (d.nodes.length + 1)).map fun n => l ++ [names n]).Nodup := by
      refine List.Nodup.map (fun m n heq => h.injective ?_) List.nodup_range
      simpa using heq
    have hle := hnodup.length_le_of_subset fun m hm => by
      obtain ⟨n, hn, rfl⟩ := List.mem_map.mp hm
      exact htaken n hn
    rw [List.length_map, List.length_range, List.length_map] at hle
    omega

/-! ### Files that come and go -/

theorem find?_of_free (hl : Location.isFixed l = false) (h : d.node? l = none) :
    Keyed.find? Prod.fst l d.nodes = none := by
  simpa [node?, hl] using h

theorem erase_of_free (hl : Location.isFixed l = false) (h : d.node? l = none) : d.erase l = d :=
  congrArg Disk.mk (Keyed.without_of_find?_eq_none (find?_of_free hl h))

/-- A file under a name that was free leaves no trace when it is removed. -/
theorem erase_put_of_free (hl : Location.isFixed l = false) (h : d.node? l = none) (n : Node) :
    (d.put l n).erase l = d := by
  have hput : (d.put l n).erase l = d.erase l :=
    congrArg Disk.mk (Keyed.without_put Prod.fst (l, n) d.nodes)
  rw [hput, erase_of_free hl h]

theorem put_put (l : Location) (m n : Node) : (d.put l m).put l n = d.put l n := by
  have hkey : Prod.fst (l, n) = Prod.fst (l, m) := rfl
  exact congrArg Disk.mk (Keyed.put_put hkey d.nodes)

/-- **A fresh file** is made in the directory that the path leads to, under a name that was free. -/
theorem exists_of_makeFresh {names : Nat → String} (h : Names names)
    (hmade : d.makeFresh p names = .ok (file, made)) :
    ∃ l n, d.LeadsTo p l ∧ file = l ++ [names n] ∧ d.node? file = none ∧
      made = d.put file (.file []) := by
  obtain ⟨t, ht, hact⟩ := exists_target_of_atTarget hmade
  cases t with
  | free l => cases hact
  | existing l node =>
    cases node with
    | file => cases hact
    | directory =>
      obtain ⟨hf, hdir⟩ := follow_of_target ht
      obtain ⟨rfl, rfl⟩ := Prod.mk.inj (Except.ok.inj hact)
      exact ⟨l, _, ⟨hf, hdir⟩, rfl, node?_freeNumber h d l, rfl⟩

/-- **A fresh file can be made** where the entries of the directory can be listed; else the failures are
the same. -/
theorem makeFresh_iff_list (d : Disk) (p : Path) (names : Nat → String) :
    (∃ r es, d.makeFresh p names = .ok r ∧ d.list p = .ok es) ∨
      ∃ f, d.makeFresh p names = .error f ∧ d.list p = .error f := by
  unfold makeFresh list atTarget failAt
  split_ifs
  · exact .inr ⟨_, rfl, rfl⟩
  · exact .inr ⟨_, rfl, rfl⟩
  · cases d.target p with
    | error e => exact .inr ⟨_, rfl, rfl⟩
    | ok t =>
      cases t with
      | free l => exact .inr ⟨_, rfl, rfl⟩
      | existing l node =>
        cases node with
        | file => exact .inr ⟨_, rfl, rfl⟩
        | directory => exact .inl ⟨_, _, rfl, rfl⟩

theorem atTarget_congr {α : Type} {d d' : Disk} {p : Path} {act act' : Target → Except DiskProblem α}
    (htarget : d'.target p = d.target p) (hact : ∀ t, act' t = act t) :
    d'.atTarget p act' = d.atTarget p act := by
  rw [atTarget, atTarget, htarget, funext hact]

/-- **Moving a fresh file** to another name of its directory is writing its bytes there. -/
theorem move_of_fresh (hd : d.LeadsTo p l) {temporary : String}
    (hfixed : Location.isFixed (l ++ [temporary]) = false) (hfree : d.node? (l ++ [temporary]) = none)
    (hne : name ≠ temporary) (hup : name ≠ "..") (bytes : List UInt8) :
    (d.put (l ++ [temporary]) (.file bytes)).move (l ++ [temporary]) (p.child name) =
      d.writeBytes (p.child name) bytes := by
  have hsame : SameBut (l ++ [temporary]) d (d.put (l ++ [temporary]) (.file bytes)) :=
    .put hfixed _ (by simp [hfree])
  have hfile : (d.put (l ++ [temporary]) (.file bytes)).node? (l ++ [temporary]) = some (.file bytes) := by
    rw [node?_put hfixed, if_pos rfl]
  refine atTarget_congr (hsame.target hd.follow_eq hne hup) fun t => ?_
  rw [hfile, erase_put_of_free hfixed hfree]
  cases t with
  | free l => rfl
  | existing l n => cases n <;> rfl

end PipeScript.Disk
