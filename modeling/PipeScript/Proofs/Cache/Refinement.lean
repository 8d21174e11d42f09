import PipeScript.Proofs.Cache.Storing
import Mathlib.Algebra.Ring.Nat
import Mathlib.Data.List.Nodup

/-!
# The cache is a map

Seen from outside, the cache is a map from a namespace and a key to a value, the time at which it was
stored and its lifetime. Files are how it is kept, and this module shows that they do not show.

## The model

A `CacheCall` is one use of the cache, at the time that the clock shows then. `CacheCall.run` carries
it out on the disk; `CacheCall.expected` says what a map answers and how it changes, where the map is
a list with one entry of each pair of namespace and key.

`Represents` is the invariant: the directory holds one file for each entry of the map, under the name
that the entry's pair has and with the entry's record in it, and no other node.

Main results: `represents_run`, that each call answers like the map and keeps the invariant, and
`answers_eq_expected` for all calls one after the other.
-/

namespace PipeScript

/-! ### Calls and answers -/

/-- A use of the cache. -/
inductive CacheCall
  | set (space key value : String) (lifetime : Nat)
  | get (space key : String)
  | invalidate (space key : String)
  | clear
  | stats

/-- What a use of the cache gives back. -/
inductive CacheAnswer
  | done
  | value (found : Option String)
  | count (removed : Nat)
  | report (text : String)
deriving DecidableEq

/-- The namespace and the key of an entry. -/
def CacheEntry.pair (e : CacheEntry) : String × String := (e.space, e.key)

/-- The report on some entries in the directory: their number, how many are expired, and the bytes
that their records take. -/
def Cache.report (directory : Path) (count expired size : Nat) : String :=
  let kilobytes := Binary64.toFixed 1 (.ofRatio false size 1024)
  s!"Cache: {count} entries ({expired} expired), {kilobytes} KB, "
    ++ s!"dir: {directory.toString}"

namespace CacheCall

/-- An outcome with the disk, where the value becomes an answer. -/
def answer {α : Type} (f : α → CacheAnswer) (r : Except Failure α × Disk) :
    Except Failure CacheAnswer × Disk := (r.1.map f, r.2)

/-- What the call comes to on the disk. -/
def run (c : Cache) (d : Disk) : CacheCall → Except Failure CacheAnswer × Disk
  | set space key value lifetime =>
    answer (fun _ => .done) ((c.store space key (.string value) (.int lifetime)).on d)
  | get space key => answer .value ((c.lookup space key).on d)
  | invalidate space key => answer (fun _ => .done) ((c.invalidate space key).on d)
  | clear => answer .count (c.clear.on d)
  | stats => (.ok (.report (c.stats d)), d)

/-- What a map answers to the call at a time, and the map after it. -/
def expected (directory : Path) (now : Binary64) (m : List CacheEntry) :
    CacheCall → CacheAnswer × List CacheEntry
  | set space key value lifetime =>
    (.done, Keyed.put CacheEntry.pair ⟨value, space, key, now, lifetime⟩ m)
  | get space key =>
    match Keyed.find? CacheEntry.pair (space, key) m with
    | none => (.value none, m)
    | some e =>
      if e.isExpired now then (.value none, Keyed.without CacheEntry.pair (space, key) m)
      else (.value (some e.data), m)
  | invalidate space key => (.done, Keyed.without CacheEntry.pair (space, key) m)
  | clear => (.count m.length, [])
  | stats => (.report (Cache.report directory m.length (m.countP (·.isExpired now))
      (m.map fun e => e.encode.length).sum), m)

/-- The answers to calls one after the other, each at its time. -/
def answers (directory : Path) : List (Binary64 × CacheCall) → Disk →
    List (Except Failure CacheAnswer)
  | [], _ => []
  | (now, call) :: rest, d =>
    let r := call.run ⟨directory, now⟩ d
    r.1 :: answers directory rest r.2

/-- The answers of a map. -/
def expectedAnswers (directory : Path) : List (Binary64 × CacheCall) → List CacheEntry →
    List CacheAnswer
  | [], _ => []
  | (now, call) :: rest, m =>
    let r := call.expected directory now m
    r.1 :: expectedAnswers directory rest r.2

/-- The namespace and the key that the call names. -/
def pair? : CacheCall → Option (String × String)
  | set space key _ _ => some (space, key)
  | get space key => some (space, key)
  | invalidate space key => some (space, key)
  | clear => none
  | stats => none

/-- Is the time at which the call stores something read back? -/
def TimeReadsBack (now : Binary64) : CacheCall → Prop
  | set .. => now.ReadsBack
  | _ => True

/-- Is the lifetime with which the call stores something read back? -/
def LifetimeReadsBack : CacheCall → Prop
  | set _ _ _ lifetime => CacheEntry.ReadableLifetime lifetime
  | _ => True

end CacheCall

/-! ### Maps under other names -/

section Keyed

variable {α β κ κ' : Type} [DecidableEq κ] [DecidableEq κ'] {key : α → κ} {key' : β → κ'}
  {f : α → β} {k : κ} {k' : κ'} {xs : List α}

theorem find?_map_of_iff (h : ∀ x ∈ xs, key' (f x) = k' ↔ key x = k) :
    Keyed.find? key' k' (xs.map f) = (Keyed.find? key k xs).map f := by
  induction xs with
  | nil => rfl
  | cons x xs ih =>
    obtain ⟨hx, hxs⟩ := List.forall_mem_cons.mp h
    simp only [Keyed.find?, List.map_cons] at ih ⊢
    by_cases hk : key x = k
    · rw [List.find?_cons_of_pos (by simpa using hx.mpr hk), List.find?_cons_of_pos (by simpa using hk)]
      rfl
    · rw [List.find?_cons_of_neg (by simpa using mt hx.mp hk),
        List.find?_cons_of_neg (by simpa using hk), ih hxs]

theorem without_map_of_iff (h : ∀ x ∈ xs, key' (f x) = k' ↔ key x = k) :
    Keyed.without key' k' (xs.map f) = (Keyed.without key k xs).map f := by
  simp only [Keyed.without, List.filter_map]
  congr 1
  apply List.filter_congr
  intro x hx
  rw [Bool.eq_iff_iff]
  simpa using not_congr (h x hx)

end Keyed

/-! ### The invariant -/

namespace Cache

open CacheEntry

/-- The file of an entry. -/
def fileOf (e : CacheEntry) : String × Node := (fileName e.space e.key, .file e.encode)

/-- Can files of the pairs be made in the directory, each under a name of its own? -/
structure Tells (directory : Path) (used : List (String × String)) : Prop where
  listable : Disk.Listable directory
  nameable : ∀ q ∈ used, Disk.Nameable directory (fileName q.1 q.2)
  injective : ∀ q ∈ used, ∀ r ∈ used, fileName q.1 q.2 = fileName r.1 r.2 → q = r

/-- Does the directory at the location hold exactly the files of the entries? -/
structure Represents (directory : Path) (l : Location) (used : List (String × String)) (d : Disk)
    (m : List CacheEntry) : Prop where
  leads : d.LeadsTo directory l
  entries_eq : d.entries l = m.map fileOf
  nodup : (m.map pair).Nodup
  used : ∀ e ∈ m, e.pair ∈ used
  readable : ∀ e ∈ m, e.createdAt.ReadsBack ∧ ReadableLifetime e.lifetime

variable {directory : Path} {l : Location} {used : List (String × String)} {d : Disk}
  {m : List CacheEntry} {now : Binary64}

theorem Represents.decode (h : Represents directory l used d m) {e : CacheEntry} (he : e ∈ m) :
    decode? e.encode = some e :=
  decode?_encode (h.readable e he).1 (h.readable e he).2

/-- Two entries have one file name only if they have one pair. -/
theorem Represents.fileName_eq_iff (ht : Tells directory used) (h : Represents directory l used d m)
    {q : String × String} (hq : q ∈ used) :
    ∀ e ∈ m, (fileOf e).1 = fileName q.1 q.2 ↔ e.pair = q := by
  intro e he
  refine ⟨fun heq => ht.injective _ (h.used e he) q hq heq, ?_⟩
  rintro rfl
  rfl

/-- The file of a pair is the one of its entry in the map. -/
theorem Represents.node?_eq (ht : Tells directory used) (h : Represents directory l used d m)
    {q : String × String} (hq : q ∈ used) : d.node? (l ++ [fileName q.1 q.2]) =
      (Keyed.find? pair q m).map fun e => .file e.encode := by
  rw [Disk.node?_child (ht.nameable q hq), h.entries_eq,
    find?_map_of_iff (h.fileName_eq_iff ht hq), Option.map_map]
  rfl

theorem mem_without {q : String × String} {e : CacheEntry} :
    e ∈ Keyed.without pair q m ↔ e ∈ m ∧ e.pair ≠ q := by
  simp [Keyed.without]

theorem fileOf_congr {e e' : CacheEntry} (h : e.pair = e'.pair) : (fileOf e).1 = (fileOf e').1 := by
  obtain ⟨hs, hk⟩ := Prod.mk.injEq .. ▸ h
  rw [fileOf, fileOf, hs, hk]

theorem mem_of_find? {q : String × String} {e : CacheEntry} (h : Keyed.find? pair q m = some e) :
    e ∈ m ∧ e.pair = q :=
  ⟨List.mem_of_find?_eq_some h, by simpa using List.find?_some h⟩

theorem Represents.not_directory (ht : Tells directory used) (h : Represents directory l used d m)
    {q : String × String} (hq : q ∈ used) :
    d.node? (l ++ [fileName q.1 q.2]) ≠ some .directory := by
  rw [h.node?_eq ht hq]
  cases Keyed.find? pair q m <;> simp

/-- **Removing a file is leaving its pair out of the map.** -/
theorem Represents.erase (ht : Tells directory used) (h : Represents directory l used d m)
    {q : String × String} (hq : q ∈ used) :
    Represents directory l used (d.erase (l ++ [fileName q.1 q.2])) (Keyed.without pair q m) where
  leads := h.leads.erase (h.not_directory ht hq)
  entries_eq := by
    rw [Disk.entries_erase, h.entries_eq, without_map_of_iff (h.fileName_eq_iff ht hq)]
  nodup := h.nodup.sublist (List.filter_sublist.map _)
  used e he := h.used e (mem_without.mp he).1
  readable e he := h.readable e (mem_without.mp he).1

/-- **Writing a record is putting its entry into the map.** -/
theorem Represents.put (ht : Tells directory used) (h : Represents directory l used d m)
    {e : CacheEntry} (he : e.pair ∈ used) (hr : e.createdAt.ReadsBack)
    (hl : ReadableLifetime e.lifetime) :
    Represents directory l used (d.put (l ++ [fileName e.space e.key]) (.file e.encode))
      (Keyed.put pair e m) where
  leads := h.leads.put (ht.nameable _ he) _ (h.not_directory ht he)
  entries_eq := by
    rw [Disk.entries_put, h.entries_eq, Keyed.put, Keyed.put, List.map_append,
      ← without_map_of_iff (h.fileName_eq_iff ht he)]
    rfl
  nodup := by
    rw [Keyed.put, List.map_append, List.nodup_append]
    refine ⟨h.nodup.sublist (List.filter_sublist.map _), by simp, ?_⟩
    intro a ha b hb
    obtain ⟨x, hx, rfl⟩ := List.mem_map.mp ha
    obtain rfl : b = e.pair := by simpa using hb
    exact (mem_without.mp hx).2
  used x hx := by
    rcases List.mem_append.mp hx with hx | hx
    · exact h.used x (mem_without.mp hx).1
    · obtain rfl : x = e := by simpa using hx
      exact he
  readable x hx := by
    rcases List.mem_append.mp hx with hx | hx
    · exact h.readable x (mem_without.mp hx).1
    · obtain rfl : x = e := by simpa using hx
      exact ⟨hr, hl⟩

/-! ### One call -/

/-- **Storing** puts the entry into the map. -/
theorem represents_set (ht : Tells directory used) (h : Represents directory l used d m)
    {space key : String} (hq : (space, key) ∈ used) (value : String) {lifetime : Nat}
    (hr : now.ReadsBack) (hl : ReadableLifetime lifetime) :
    ∃ d', ((Cache.mk directory now).store space key (.string value) (.int lifetime)).on d =
        (.ok (), d') ∧
      Represents directory l used d' (Keyed.put pair ⟨value, space, key, now, lifetime⟩ m) := by
  have hput := h.put ht (e := ⟨value, space, key, now, lifetime⟩) hq hr hl
  exact ⟨_, on_store_of_nameable h.leads ht.listable (ht.nameable _ hq) (h.not_directory ht hq) value
    lifetime, hput⟩

/-- **Looking an entry up** gives its value while it is valid, and drops it when it is not. -/
theorem represents_get (now : Binary64) (ht : Tells directory used) (h : Represents directory l used d m)
    {space key : String} (hq : (space, key) ∈ used) :
    ∃ found d', ((Cache.mk directory now).lookup space key).on d = (.ok found, d') ∧
      ∃ m', (CacheCall.get space key).expected directory now m = (.value found, m') ∧
        Represents directory l used d' m' := by
  have hn := ht.nameable _ hq
  simp only [CacheCall.expected]
  cases hf : Keyed.find? pair (space, key) m with
  | none =>
    have hread := Disk.readBytes_child_of_none h.leads hn (by rw [h.node?_eq ht hq, hf]; rfl)
    refine ⟨none, d, ?_, m, rfl, h⟩
    simp only [lookup, Work.on_of, pathOf, hread, Disk.failAt]
    rfl
  | some e =>
    obtain ⟨he, hpair⟩ := mem_of_find? hf
    have hnode : d.node? (l ++ [fileName space key]) = some (.file e.encode) := by
      rw [h.node?_eq ht hq, hf]
      rfl
    have hread := Disk.readBytes_child h.leads hn hnode
    have hremove := Disk.remove_child h.leads hn hnode
    by_cases hx : e.isExpired now = true
    · refine ⟨none, _, ?_, _, if_pos hx, h.erase ht hq⟩
      simp only [lookup, Work.on_of, pathOf, hread, h.decode he, hx, if_true, discard, hremove]
      rfl
    · refine ⟨some e.data, d, ?_, m, if_neg hx, h⟩
      simp only [lookup, Work.on_of, pathOf, hread, h.decode he, hx]
      rfl

/-- **Removing an entry** leaves its pair out, whether it was there or not. -/
theorem represents_invalidate (now : Binary64) (ht : Tells directory used) (h : Represents directory l used d m)
    {space key : String} (hq : (space, key) ∈ used) :
    ∃ d', ((Cache.mk directory now).invalidate space key).on d = (.ok (), d') ∧
      Represents directory l used d' (Keyed.without pair (space, key) m) := by
  have hn := ht.nameable _ hq
  cases hf : Keyed.find? pair (space, key) m with
  | none =>
    have hremove := Disk.remove_child_of_none h.leads hn (by rw [h.node?_eq ht hq, hf]; rfl)
    refine ⟨d, ?_, by rwa [Keyed.without_of_find?_eq_none hf]⟩
    simp only [invalidate, Work.edit, Work.on_of, pathOf, hremove, Disk.failAt]
    rfl
  | some e =>
    have hnode : d.node? (l ++ [fileName space key]) = some (.file e.encode) := by
      rw [h.node?_eq ht hq, hf]
      rfl
    have hremove := Disk.remove_child h.leads hn hnode
    refine ⟨_, ?_, h.erase ht hq⟩
    simp only [invalidate, Work.edit, Work.on_of, pathOf, hremove]

/-! ### All entries at once -/

/-- Every file of an entry counts as one. -/
theorem endsInJson_fileOf (e : CacheEntry) :
    ".json".toList.isSuffixOf (fileOf e).1.toList = true := by
  rw [List.isSuffixOf_iff_suffix, fileOf, toList_fileName]
  exact ⟨safeSpace e.space ++ '_' :: mark e.space e.key, by simp⟩

/-- The entries' files are found in some order. -/
theorem Represents.filesEnding_perm (now : Binary64) (ht : Tells directory used)
    (h : Represents directory l used d m) :
    ((Cache.mk directory now).filesEnding ".json" d).Perm (m.map fileOf) := by
  have hperm := List.mergeSort_perm (m.map fileOf) fun a b => Disk.nameLe a.1 b.1
  simp only [filesEnding, Disk.list_eq h.leads ht.listable, h.entries_eq]
  rw [List.filter_eq_self.mpr]
  · exact hperm
  · intro x hx
    obtain ⟨e, -, rfl⟩ := List.mem_map.mp (hperm.mem_iff.mp hx)
    exact endsInJson_fileOf e

theorem Represents.filesEnding_of_nil (ht : Tells directory used) (ending : String)
    (h : Represents directory l used d []) : (Cache.mk directory now).filesEnding ending d = [] := by
  simp [filesEnding, Disk.list_eq h.leads ht.listable, h.entries_eq]

theorem Represents.nodup_names (ht : Tells directory used) (h : Represents directory l used d m) :
    (m.map fun e => (fileOf e).1).Nodup := by
  have hmap : (m.map fun e => (fileOf e).1) = (m.map pair).map fun q => fileName q.1 q.2 := by
    rw [List.map_map]
    rfl
  rw [hmap]
  apply h.nodup.map_on
  intro q hq r hr heq
  obtain ⟨e, he, rfl⟩ := List.mem_map.mp hq
  obtain ⟨e', he', rfl⟩ := List.mem_map.mp hr
  exact ht.injective _ (h.used e he) _ (h.used e' he') heq

/-- **Removing files in turn** counts each of them and leaves the entries of the others. -/
theorem represents_removeAll (now : Binary64) (ht : Tells directory used) {names : List String}
    (hnd : names.Nodup) (n : Nat) (h : Represents directory l used d m)
    (hnames : ∀ name ∈ names, ∃ e ∈ m, (fileOf e).1 = name) :
    ∃ d' m', (Cache.mk directory now).removeAll names n d = (.ok (n + names.length), d') ∧
      Represents directory l used d' m' ∧ ∀ e ∈ m', e ∈ m ∧ (fileOf e).1 ∉ names := by
  induction names generalizing n d m with
  | nil => exact ⟨d, m, rfl, h, fun e he => ⟨he, by simp⟩⟩
  | cons name names ih =>
    obtain ⟨hname, hnd'⟩ := List.nodup_cons.mp hnd
    obtain ⟨⟨e, he, rfl⟩, hrest⟩ := List.forall_mem_cons.mp hnames
    have hq := h.used e he
    have hnode : d.node? (l ++ [fileName e.space e.key]) = some (.file e.encode) := by
      obtain ⟨x, hx⟩ : ∃ x, Keyed.find? pair e.pair m = some x := by
        rw [← Option.isSome_iff_exists, Keyed.find?, List.find?_isSome]
        exact ⟨e, he, by simp⟩
      obtain ⟨hxm, hxe⟩ := mem_of_find? hx
      have : x = e := List.inj_on_of_nodup_map h.nodup hxm he hxe
      exact (h.node?_eq ht hq).trans (by rw [hx, this]; rfl)
    have hrest' : ∀ name ∈ names, ∃ x ∈ Keyed.without pair e.pair m, (fileOf x).1 = name := by
      intro name hmem
      obtain ⟨x, hx, rfl⟩ := hrest name hmem
      refine ⟨x, mem_without.mpr ⟨hx, fun heq => hname ?_⟩, rfl⟩
      rwa [← fileOf_congr heq]
    have herase : Represents directory l used (d.erase (l ++ [fileName e.space e.key]))
        (Keyed.without pair e.pair m) := h.erase ht (q := e.pair) hq
    obtain ⟨d', m', hrun, hrep, hmem⟩ := ih hnd' (n + 1) herase hrest'
    refine ⟨d', m', ?_, hrep, fun x hx => ?_⟩
    · have hremove : d.remove (directory.child (fileName e.space e.key)) =
          .ok (d.erase (l ++ [fileName e.space e.key])) :=
        Disk.remove_child h.leads (ht.nameable e.pair hq) hnode
      rw [removeAll]
      simp only [fileOf, hremove]
      rw [hrun, List.length_cons]
      simp only [Prod.mk.injEq, Except.ok.injEq, and_true]
      omega
    · obtain ⟨hx, hnot⟩ := hmem x hx
      obtain ⟨hxm, hne⟩ := mem_without.mp hx
      refine ⟨hxm, ?_⟩
      rw [List.mem_cons, not_or]
      exact ⟨fun heq => hne (ht.injective _ (h.used x hxm) _ hq heq), hnot⟩

/-- **Clearing** counts the entries of the map and leaves none. -/
theorem represents_clear (now : Binary64) (ht : Tells directory used) (h : Represents directory l used d m) :
    ∃ d', (Cache.mk directory now).clear.on d = (.ok m.length, d') ∧
      Represents directory l used d' [] := by
  have hperm := (h.filesEnding_perm now ht).map (·.1)
  rw [List.map_map] at hperm
  obtain ⟨d', m', hrun, hrep, hmem⟩ := represents_removeAll now ht
    (hperm.nodup_iff.mpr (h.nodup_names ht)) 0 h fun name hname => by
      obtain ⟨e, he, rfl⟩ := List.mem_map.mp (hperm.mem_iff.mp hname)
      exact ⟨e, he, rfl⟩
  have hnil : m' = [] := by
    apply List.eq_nil_iff_forall_not_mem.mpr
    intro e he
    obtain ⟨hem, hnot⟩ := hmem e he
    exact hnot (hperm.mem_iff.mpr (List.mem_map.mpr ⟨e, hem, rfl⟩))
  subst hnil
  refine ⟨d', ?_, hrep⟩
  have hlen : ((Cache.mk directory now).filesEnding ".json" d).length = m.length := by
    simpa using hperm.length_eq
  simp only [clear, Work.on_of, hrun, hrep.filesEnding_of_nil ht, List.length_map, hlen,
    Nat.zero_add]
  rfl

theorem foldl_add_eq {α : Type} (g : α → Nat) (xs : List α) (n : Nat) :
    xs.foldl (fun total x => total + g x) n = n + (xs.map g).sum := by
  induction xs generalizing n with
  | nil => simp
  | cons x xs ih =>
    rw [List.foldl_cons, ih, List.map_cons, List.sum_cons]
    omega

/-- **The report** counts the entries of the map. -/
theorem stats_eq (ht : Tells directory used) (h : Represents directory l used d m) :
    (Cache.mk directory now).stats d = Cache.report directory m.length
      (m.countP (·.isExpired now)) (m.map fun e => e.encode.length).sum := by
  have hperm := h.filesEnding_perm now ht
  have hcount : ((Cache.mk directory now).filesEnding ".json" d).length = m.length := by
    simpa using hperm.length_eq
  have hexpired : (((Cache.mk directory now).filesEnding ".json" d).countP fun e =>
      (Cache.mk directory now).holdsExpired e.2) = m.countP (·.isExpired now) := by
    rw [hperm.countP_eq, List.countP_map]
    apply List.countP_congr
    intro e he
    simp [fileOf, holdsExpired, h.decode he]
  have hsize : ((Cache.mk directory now).filesEnding ".json" d).foldl
      (fun total e => total + sizeOf e.2) 0 = (m.map fun e => e.encode.length).sum := by
    rw [foldl_add_eq, Nat.zero_add, (hperm.map _).sum_nat, List.map_map]
    rfl
  simp only [stats, hcount, hexpired, hsize, Cache.report]

/-- **Each call answers like the map** and leaves a directory that holds the map's entries. -/
theorem represents_run (ht : Tells directory used) (h : Represents directory l used d m)
    {call : CacheCall} (hused : ∀ q ∈ call.pair?, q ∈ used) (htime : call.TimeReadsBack now)
    (hlife : call.LifetimeReadsBack) :
    ∃ d', call.run ⟨directory, now⟩ d = (.ok (call.expected directory now m).1, d') ∧
      Represents directory l used d' (call.expected directory now m).2 := by
  cases call with
  | set space key value lifetime =>
    obtain ⟨d', hrun, hrep⟩ := represents_set ht h (hused _ rfl) value htime hlife
    exact ⟨d', by rw [CacheCall.run, hrun]; rfl, hrep⟩
  | get space key =>
    obtain ⟨found, d', hrun, m', hexp, hrep⟩ := represents_get now ht h (hused _ rfl)
    exact ⟨d', by rw [CacheCall.run, hrun, hexp]; rfl, by rwa [hexp]⟩
  | invalidate space key =>
    obtain ⟨d', hrun, hrep⟩ := represents_invalidate now ht h (hused _ rfl)
    exact ⟨d', by rw [CacheCall.run, hrun]; rfl, hrep⟩
  | clear =>
    obtain ⟨d', hrun, hrep⟩ := represents_clear now ht h
    exact ⟨d', by rw [CacheCall.run, hrun]; rfl, hrep⟩
  | stats => exact ⟨d, by rw [CacheCall.run, stats_eq ht h]; rfl, h⟩

/-! ### All calls -/

/-- **All calls answer like the map.** -/
theorem answers_of_represents (ht : Tells directory used) {calls : List (Binary64 × CacheCall)}
    (h : Represents directory l used d m) (hused : ∀ c ∈ calls, ∀ q ∈ c.2.pair?, q ∈ used)
    (htime : ∀ c ∈ calls, c.2.TimeReadsBack c.1) (hlife : ∀ c ∈ calls, c.2.LifetimeReadsBack) :
    CacheCall.answers directory calls d =
      (CacheCall.expectedAnswers directory calls m).map .ok := by
  induction calls generalizing d m with
  | nil => rfl
  | cons c calls ih =>
    obtain ⟨now, call⟩ := c
    obtain ⟨hu, hused⟩ := List.forall_mem_cons.mp hused
    obtain ⟨ht₁, htime⟩ := List.forall_mem_cons.mp htime
    obtain ⟨hl₁, hlife⟩ := List.forall_mem_cons.mp hlife
    obtain ⟨d', hrun, hrep⟩ := represents_run ht h hu ht₁ hl₁
    simp only [CacheCall.answers, CacheCall.expectedAnswers, hrun, List.map_cons,
      ih hrep hused htime hlife]

end Cache

end PipeScript
