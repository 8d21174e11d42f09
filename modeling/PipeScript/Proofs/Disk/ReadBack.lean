import PipeScript.Proofs.Disk.Frame
import PipeScript.Proofs.Text.Splitting
import PipeScript.Proofs.Text.Utf8

/-!
# Files are read as they were written

The bytes that have been written at a path are read at the same path, whatever it leads through and whether
the file was there before. A text goes through two layers on each way, and one of them is not the same both
ways: its bytes are decoded as they were encoded, but a line ending of any kind is read as a newline, and
written as it is.

A path is also written down and read: repeated slashes and the name `.` are gone from the text of a path, and
the text means the path that it was made from.

Main results: `readText_of_writeText`, with `plainLines_eq_self_iff` for the texts that come back as they
were, and `Path.ofString_toString`.
-/

namespace PipeScript

/-! ### The text of a path -/

/-- Pieces without a character are told apart by it. -/
theorem Text.splitOn_join {c : Char} {pieces : List (List Char)} (hne : pieces ≠ [])
    (h : ∀ piece ∈ pieces, c ∉ piece) : splitOn [c] (join [c] pieces) = pieces := by
  induction pieces with
  | nil => exact absurd rfl hne
  | cons piece rest ih =>
    have hpiece : ¬ [c] <:+: piece ++ [c].dropLast := by
      simpa [List.singleton_infix_iff] using h piece (List.mem_cons_self ..)
    cases rest with
    | nil =>
      have hjoin : join [c] [piece] = piece := List.intercalate_singleton
      rw [hjoin, splitOn_of_absent (by simpa using hpiece)]
    | cons next rest =>
      have hjoin : join [c] (piece :: next :: rest) = piece ++ ([c] ++ join [c] (next :: rest)) := by
        simp [join, List.intercalate_cons_cons]
      rw [hjoin, splitOn_append_append (by simp) hpiece,
        ih (by simp) fun other hother => h other (List.mem_cons_of_mem _ hother)]

namespace Path

open Text

/-- Has the path at most two slashes in front, and are its names such as a text can have between slashes? -/
structure IsNormal (p : Path) : Prop where
  slashes_le : p.slashes ≤ 2
  ne_empty : ∀ name ∈ p.names, name.toList ≠ []
  ne_dot : ∀ name ∈ p.names, name.toList ≠ ['.']
  no_slash : ∀ name ∈ p.names, '/' ∉ name.toList

/-- What a text means is such a path. -/
theorem isNormal_ofString (s : String) : (ofString s).IsNormal := by
  have hsplit : IsSplit ['/'] s.toList (splitOn ['/'] s.toList) := (isSplit_iff (by decide)).mpr rfl
  have hname {name : String} (h : name ∈ (ofString s).names) :
      name.toList ∈ splitOn ['/'] s.toList ∧ name.toList ≠ [] ∧ name.toList ≠ ['.'] := by
    obtain ⟨cs, hcs, rfl⟩ := List.mem_map.mp h
    rw [String.toList_ofList]
    simpa using hcs
  refine ⟨?_, fun name h => (hname h).2.1, fun name h => (hname h).2.2, fun name h hslash => ?_⟩
  · show (if _ = 2 then 2 else min _ 1) ≤ 2
    split <;> omega
  · exact hsplit.absent _ (hname h).1 ((List.singleton_infix_iff _ _).mpr hslash)

/-- The text of the names. -/
def body (p : Path) : List Char := join ['/'] (p.names.map String.toList)

variable {p : Path}

/-- The text of the names does not start with a slash. -/
theorem IsNormal.takeWhile_body (h : p.IsNormal) : p.body.takeWhile (· == '/') = [] := by
  unfold body
  cases hnames : p.names with
  | nil => rfl
  | cons name rest =>
    have hmem : name ∈ p.names := hnames ▸ List.mem_cons_self ..
    obtain ⟨c, cs, hcs⟩ := List.exists_cons_of_ne_nil (h.ne_empty name hmem)
    have hc : c ≠ '/' := by
      rintro rfl
      exact h.no_slash name hmem (hcs ▸ List.mem_cons_self ..)
    cases rest <;> simp [join, List.intercalate_cons_cons, hcs, hc]

/-- The names are told apart in the text, whatever slashes stand before it. -/
theorem IsNormal.filter_splitOn (h : p.IsNormal) (k : Nat) :
    (splitOn ['/'] (List.replicate k '/' ++ p.body)).filter (fun n => !n.isEmpty && n != ['.']) =
      p.names.map String.toList := by
  induction k with
  | zero =>
    by_cases hnil : p.names = []
    · have hsplit : splitOn ['/'] [] = [[]] := rfl
      simp [body, hnil, join, List.intercalate, hsplit]
    · have hsplit : splitOn ['/'] p.body = p.names.map String.toList :=
        splitOn_join (by simpa using hnil) (by simpa using h.no_slash)
      rw [List.replicate_zero, List.nil_append, hsplit, List.filter_eq_self]
      intro cs hcs
      obtain ⟨name, hname, rfl⟩ := List.mem_map.mp hcs
      have hkept := And.intro (h.ne_empty name hname) (h.ne_dot name hname)
      simpa using hkept
  | succ k ih =>
    have hsplit : splitOn ['/'] ('/' :: (List.replicate k '/' ++ p.body)) =
        [] :: splitOn ['/'] (List.replicate k '/' ++ p.body) := splitOn_append (List.cons_ne_nil _ _) _
    rw [List.replicate_succ, List.cons_append, hsplit, List.filter_cons_of_neg (by simp), ih]

/-- **The text of a path** means the path. -/
theorem ofString_toString (h : p.IsNormal) : ofString p.toString = p := by
  by_cases hhere : p.slashes = 0 ∧ p.names = []
  · obtain ⟨k, names⟩ := p
    obtain ⟨rfl, rfl⟩ : k = 0 ∧ names = [] := hhere
    decide
  · have htext : p.toString.toList = List.replicate p.slashes '/' ++ p.body := by
      rw [toString]
      split_ifs <;> simp_all [body, join, String.toList_intercalate]
    have hslashes : (if p.slashes = 2 then 2 else min p.slashes 1) = p.slashes := by
      have := h.slashes_le
      split <;> omega
    have hlead : ((List.replicate p.slashes '/' ++ p.body).takeWhile (· == '/')).length = p.slashes := by
      rw [List.takeWhile_append_of_pos (by simp), h.takeWhile_body]
      simp
    simp only [ofString, htext, hlead, hslashes, h.filter_splitOn, List.map_map]
    simp [Function.comp_def]

/-- The text of a path is not empty. -/
theorem toString_ne_empty (h : p.IsNormal) : p.toString ≠ "" := by
  intro hempty
  have hpath := ofString_toString h
  rw [hempty] at hpath
  rw [← hpath] at hempty
  exact absurd hempty (by decide)

end Path

/-! ### The bytes of a file -/

namespace Disk

variable {d d' : Disk} {p : Path} {name : String} {bytes : List UInt8}

/-- A path that something has been done at is not too long, and has no NUL. -/
theorem listable_of_atTarget {α : Type} {act : Target → Except DiskProblem α} {a : α}
    (h : d.atTarget p act = .ok a) : Listable p := by
  unfold atTarget failAt at h
  split_ifs at h with hnul hlong
  exact ⟨by simpa using hnul, Nat.not_le.mp hlong⟩

/-- A name that leads to something, there or free, is not too long. -/
theorem name_short_of_target {t : Target} (h : d.target (p.child name) = .ok t) (hup : name ≠ "..") :
    name.utf8ByteSize ≤ nameLimit := by
  by_contra hlong
  obtain ⟨l, hl, -⟩ := exists_leadsTo_of_target h hup
  rw [Nat.not_le] at hlong
  simp only [target_concat, hl.follow_eq, follow, hl.isDirectory, hup, hlong, if_false, if_true] at h
  cases h

/-- Where a path goes up at its end, it leads to a directory. -/
theorem exists_directory_of_target_up {t : Target} (h : d.target (p.child "..") = .ok t) :
    ∃ l, t = .existing l .directory := by
  rw [target_concat] at h
  cases hl : d.follow (origin p) p.names with
  | error e =>
    rw [hl] at h
    cases h
  | ok l =>
    have horigin : d.node? (origin p) = some .directory := node?_of_isFixed (isFixed_origin p)
    obtain ⟨hgrounded, hthere⟩ := grounded_of_follow (grounded_of_isFixed (isFixed_origin p))
      (by rw [horigin]; rfl) hl
    have hparent := hgrounded.parent.2
    obtain ⟨n, hn⟩ := Option.isSome_iff_exists.mp hthere
    cases n with
    | file => simp [hl, follow, hn] at h
    | directory =>
      refine ⟨Location.parent l, ?_⟩
      simpa [hl, follow, hn, hparent] using h.symm

/-- What has been written is a file under a name that a file can have. -/
theorem exists_child_of_writeBytes (h : d.writeBytes p bytes = .ok d') :
    ∃ q name, p = Path.child q name ∧ name ≠ ".." := by
  obtain ⟨t, ht, hact⟩ := exists_target_of_atTarget h
  rcases names_eq_nil_or_child p with hnil | ⟨q, name, rfl, -⟩
  · rw [target, hnil] at ht
    obtain rfl := Except.ok.inj ht
    cases hact
  · refine ⟨q, name, rfl, ?_⟩
    rintro rfl
    obtain ⟨l, rfl⟩ := exists_directory_of_target_up ht
    cases hact

/-- **The bytes that have been written** are read. -/
theorem readBytes_of_written (h : d.writeBytes p bytes = .ok d') (hroot : "/" ∉ p.names) :
    d'.readBytes p = .ok bytes := by
  obtain ⟨q, name, rfl, hup⟩ := exists_child_of_writeBytes h
  have hne : name ≠ "/" := by
    rintro rfl
    exact hroot (by simp [Path.child])
  obtain ⟨t, ht, -⟩ := exists_target_of_atTarget h
  obtain ⟨hnul, hshort⟩ := listable_of_atTarget h
  have hnameable : Nameable q name := ⟨hnul, hshort, name_short_of_target ht hup, hup, hne⟩
  obtain ⟨l, hl, hnode, rfl⟩ := exists_of_writeBytes h hup
  have hput : (d.put (l ++ [name]) (.file bytes)).node? (l ++ [name]) = some (.file bytes) := by
    rw [node?_put (isFixed_child hnameable), if_pos rfl]
  exact readBytes_child (hl.put hnameable bytes hnode) hnameable hput

/-! ### The text of a file -/

theorem return_not_mem_plainLines (s : List Char) : '\r' ∉ plainLines s := by
  fun_induction plainLines s with
  | case1 => simp
  | case2 rest ih => simpa using ih
  | case3 c rest hnext ih =>
    rw [List.mem_cons, not_or]
    refine ⟨?_, ih⟩
    split
    · decide
    · rename_i hc
      exact fun h => hc h.symm

/-- **A text comes back as it was** exactly if it has no carriage return. -/
theorem plainLines_eq_self_iff {s : List Char} : plainLines s = s ↔ '\r' ∉ s := by
  constructor
  · intro h
    rw [← h]
    exact return_not_mem_plainLines s
  · intro h
    fun_induction plainLines s with
    | case1 => rfl
    | case2 rest ih => simp at h
    | case3 c rest hnext ih =>
      obtain ⟨hc, hrest⟩ := List.ne_and_not_mem_of_not_mem_cons h
      rw [if_neg hc.symm, ih hrest]

/-- **A text that has been written** is read with newlines as its line endings. -/
theorem readText_of_writeText {s : List Char} (h : d.writeText p s = .ok d') (hroot : "/" ∉ p.names) :
    d'.readText p = .ok (plainLines s) := by
  simp only [readText, readBytes_of_written h hroot, Except.bind, Text.Utf8.decode_encode]

end Disk

end PipeScript
