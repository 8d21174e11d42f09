import PipeScript.Proofs.Cache.Locality
import PipeScript.Surroundings

/-!
# Fetching what is not in the cache

A value that is asked for through the cache comes from the entry's file, if that holds a valid record,
and nothing is fetched then. Whatever else the file holds, it is removed and the value is fetched once. A
failure to fetch comes out and leaves no entry. A text that has been fetched is stored, and found as long
as it has not expired.

## The model

The disk is a part of a larger state (`IsPart`), on which `fetch` works. That a value is fetched once is
said by an equation: the whole run is one run of `fetch`, on the state without the bad file, with the
storing of what it gives after it. A run in which nothing is fetched is told without `fetch`.

## What is assumed

`Keepable` says that the directory is there, that the system takes the name of the entry's file and the
path to it, and that no directory is in the way; `Spares`, that fetching leaves the entry and the way to
it alone. Time and lifetime of the entry are read back from its record. `through_ne_fetched` shows that
none of these can be left out: with a name or a path that is too long nothing is fetched at all, a lifetime of
more than 4300 digits is stored and not found, and where `fetch` stores an entry itself there is one,
though it fails.

Main result: `through_heals`.
-/

namespace PipeScript

/-- Is the disk a part of the states? What is put there is found there, and putting back what is there
changes nothing. -/
structure Work.IsPart {σ : Type} (get : σ → Disk) (set : Disk → σ → σ) : Prop where
  get_set : ∀ d s, get (set d s) = d
  set_get : ∀ s, set (get s) s = s

theorem Work.isPart_onDisk :
    Work.IsPart Surroundings.disk fun d s => { s with disk := d } where
  get_set _ _ := rfl
  set_get _ := rfl

namespace Cache

open CacheEntry Disk

variable {c : Cache} {space key : String} {l : Location} {d : Disk}

/-! ### Entries that can be kept -/

/-- Can the entry of a pair be kept in the directory at the location? -/
structure Keepable (c : Cache) (space key : String) (l : Location) (d : Disk) : Prop where
  leads : d.LeadsTo c.directory l
  listable : Listable c.directory
  fits : Fits c.directory (space, key)
  not_directory : d.node? (l ++ [fileName space key]) ≠ some .directory

/-- The valid entry of a pair, if there is one. -/
def held? (c : Cache) (space key : String) (d : Disk) : Option CacheEntry :=
  (d.readBytes (c.pathOf space key)).toOption.bind c.valid?

namespace Keepable

theorem nameable (h : Keepable c space key l d) : Nameable c.directory (fileName space key) :=
  nameable_of_fits (q := (space, key)) h.listable h.fits

/-- The entry can still be kept once its file has been removed, and then there is none. -/
theorem erase (h : Keepable c space key l d) :
    Keepable c space key l (d.erase (l ++ [fileName space key])) ∧
      (d.erase (l ++ [fileName space key])).node? (l ++ [fileName space key]) = none := by
  have hnone : (d.erase (l ++ [fileName space key])).node? (l ++ [fileName space key]) = none := by
    rw [node?_erase (isFixed_fileName l space key), if_pos rfl]
  exact ⟨⟨h.leads.erase h.not_directory, h.listable, h.fits, by simp [hnone]⟩, hnone⟩

/-- **A valid entry is found**, and whatever else is in its place is removed. -/
theorem on_lookup (h : Keepable c space key l d) :
    (c.lookup space key).on d = match c.held? space key d with
      | some e => (.ok (some e.data), d)
      | none => (.ok none, d.erase (l ++ [fileName space key])) := by
  cases hnode : d.node? (l ++ [fileName space key]) with
  | none =>
    have hread := readBytes_child_of_none h.leads h.nameable hnode
    have hentry : c.held? space key d = none := by
      rw [held?, pathOf, hread]
      rfl
    have herase := erase_of_free (isFixed_fileName l space key) hnode
    simp only [lookup, Work.on_of, hentry, pathOf, hread, failAt, if_true, herase]
  | some n =>
    cases n with
    | directory => exact absurd hnode h.not_directory
    | file bytes age =>
      have hread := readBytes_child h.leads h.nameable hnode
      have hremove := remove_child h.leads h.nameable hnode
      have hentry : c.held? space key d = c.valid? bytes := by
        rw [held?, pathOf, hread]
        rfl
      have hdiscard : discard d (c.pathOf space key) = d.erase (l ++ [fileName space key]) := by
        rw [discard, pathOf, hremove]
        rfl
      have hrun := on_lookup_of_readBytes hread
      rw [hdiscard] at hrun
      rw [hentry]
      exact hrun

/-- The disk with a text stored. -/
theorem on_store (h : Keepable c space key l d) (value : String) (lifetime : Nat) :
    (c.store space key (.string value) (.int lifetime)).on d = (.ok (),
      d.put (l ++ [fileName space key]) (.file (encode ⟨value, space, key, c.now, lifetime⟩))) :=
  on_store_of_nameable h.leads h.listable h.nameable h.not_directory value lifetime

/-- **What has been stored is found** as long as it has not expired. -/
theorem on_lookup_stored (h : Keepable c space key l d) {value : String} {lifetime : Nat}
    (hnow : c.now.ReadsBack) (hlife : ReadableLifetime lifetime) {now : Binary64}
    (hvalid : exceeds (now - c.now) lifetime = false) :
    let d' := d.put (l ++ [fileName space key]) (.file (encode ⟨value, space, key, c.now, lifetime⟩))
    ((Cache.mk c.directory now).lookup space key).on d' = (.ok (some value), d') := by
  intro d'
  have hnode : d'.node? (l ++ [fileName space key]) =
      some (.file (encode ⟨value, space, key, c.now, lifetime⟩)) := by
    rw [node?_put (isFixed_fileName l space key), if_pos rfl]
  have hleads : d'.LeadsTo c.directory l := h.leads.put h.nameable _ h.not_directory
  have hread := readBytes_child hleads h.nameable hnode
  have hdecode : decode? (encode ⟨value, space, key, c.now, lifetime⟩) =
      some ⟨value, space, key, c.now, lifetime⟩ := decode?_encode hnow hlife
  have hentry : (Cache.mk c.directory now).held? space key d' =
      some ⟨value, space, key, c.now, lifetime⟩ := by
    rw [held?, pathOf, hread]
    simp [Except.toOption, valid?, hdecode, Option.filter, isExpired, hvalid]
  have hkeepable : Keepable ⟨c.directory, now⟩ space key l d' :=
    ⟨hleads, h.listable, h.fits, by simp [hnode]⟩
  rw [hkeepable.on_lookup, hentry]

end Keepable

/-! ### Fetching -/

section Through

variable {σ : Type} {get : σ → Disk} {set : Disk → σ → σ} {fetch : Work σ Json} {lifetime : Json}
  {s : σ}

/-- Does the work leave alone the file of a name in a directory, and the way to it? -/
def Spares (get : σ → Disk) (p : Path) (name : String) (w : Work σ Json) : Prop :=
  ∀ s l, (get s).LeadsTo p l → (get (w.on s).2).LeadsTo p l ∧
    (get (w.on s).2).node? (l ++ [name]) = (get s).node? (l ++ [name])

theorem on_within {α : Type} (w : Work Disk α) (s : σ) :
    (w.within get set).on s = ((w.on (get s)).1, set (w.on (get s)).2 s) := rfl

/-- A valid entry is enough. -/
theorem on_through_of_entry (hpart : Work.IsPart get set) (h : Keepable c space key l (get s))
    {e : CacheEntry} (he : c.held? space key (get s) = some e) :
    (through (fun w => w.within get set) (some c) space key lifetime fetch).on s =
      (.ok (.string e.data), s) := by
  have hlookup := h.on_lookup
  rw [he] at hlookup
  simp only [through, Work.on_bind, on_within, hlookup, hpart.set_get]
  rfl

/-- **Without a valid entry** the value is fetched, and stored unless that fails. -/
theorem on_through_of_none (set : Disk → σ → σ) (fetch : Work σ Json) (lifetime : Json)
    (h : Keepable c space key l (get s)) (hnone : c.held? space key (get s) = none) :
    (through (fun w => w.within get set) (some c) space key lifetime fetch).on s =
      match fetch.on (set ((get s).erase (l ++ [fileName space key])) s) with
      | (.error f, s') => (.error f, s')
      | (.ok value, s') => match (c.store space key value lifetime).on (get s') with
        | (.error f, d') => (.error f, set d' s')
        | (.ok (), d') => (.ok value, set d' s') := by
  have hlookup := h.on_lookup
  rw [hnone] at hlookup
  simp only [through, Work.on_bind, on_within, hlookup]
  cases fetch.on (set ((get s).erase (l ++ [fileName space key])) s) with
  | mk r s' =>
    cases r with
    | error f => rfl
    | ok value =>
      simp only
      cases (c.store space key value lifetime).on (get s') with
      | mk r d' => cases r <;> rfl

end Through

/-- **Reading through the cache heals it, and keeps no failures.** A valid entry gives its value, and
nothing is fetched or changed. Otherwise its file is gone and the run is one run of `fetch`: a failure
comes out, and there is no entry; a text comes out and has been stored, and a look-up at any time at
which it has not expired finds it, if time and lifetime are read back. Without a cache there is only the
run of `fetch`. -/
theorem through_heals {σ : Type} {get : σ → Disk} {set : Disk → σ → σ} (hpart : Work.IsPart get set)
    {c : Cache} {space key : String} {l : Location} {s : σ} (h : Keepable c space key l (get s))
    {fetch : Work σ Json} (hfetch : Spares get c.directory (fileName space key) fetch)
    (lifetime : Nat) :
    (∀ e, c.held? space key (get s) = some e →
      (through (fun w => w.within get set) (some c) space key (.int lifetime) fetch).on s =
        (.ok (.string e.data), s)) ∧
    (c.held? space key (get s) = none → ∀ r s',
      fetch.on (set ((get s).erase (l ++ [fileName space key])) s) = (r, s') →
      (∀ f, r = .error f →
        (through (fun w => w.within get set) (some c) space key (.int lifetime) fetch).on s =
          (.error f, s') ∧ (get s').node? (l ++ [fileName space key]) = none) ∧
      (∀ v, r = .ok (.string v) → ∃ d',
        (through (fun w => w.within get set) (some c) space key (.int lifetime) fetch).on s =
          (.ok (.string v), set d' s') ∧
        (c.now.ReadsBack → ReadableLifetime lifetime → ∀ t, exceeds (t - c.now) lifetime = false →
          ((Cache.mk c.directory t).lookup space key).on d' = (.ok (some v), d')))) ∧
    through (fun w => w.within get set) none space key (.int lifetime) fetch = fetch := by
  refine ⟨fun e he => on_through_of_entry hpart h he, fun hnone r s' hrun => ?_, rfl⟩
  have hthrough := on_through_of_none set fetch (.int lifetime) h hnone
  obtain ⟨herased, hgone⟩ := h.erase
  -- fetching starts without a file of the entry, and leaves it at that
  have hspared := hfetch (set ((get s).erase (l ++ [fileName space key])) s) l
  rw [hpart.get_set, hrun] at hspared
  obtain ⟨hleads, hnode⟩ := hspared herased.leads
  rw [hgone] at hnode
  rw [hthrough, hrun]
  constructor
  · rintro f rfl
    exact ⟨rfl, hnode⟩
  · rintro v rfl
    have hkept : Keepable c space key l (get s') := ⟨hleads, h.listable, h.fits, by simp [hnode]⟩
    have hstored := hkept.on_store v lifetime
    refine ⟨_, ?_, fun hnow hlife t ht => hkept.on_lookup_stored hnow hlife ht⟩
    simp only [hstored]

/-! ### Runs -/

theorem keepable_here {space key : String} (hsafe : (safeSpace space).length ≤ 25) {d : Disk}
    (h : d.node? [fileName space key] ≠ some .directory) (now : Binary64) :
    Keepable ⟨here, now⟩ space key [] d where
  leads := ⟨rfl, rfl⟩
  listable := listable_of_list (list_above (by decide))
  fits := fits_here hsafe
  not_directory := h

/-- Surroundings with an entry that is no record, and a service that gives a text. -/
def broken : Surroundings where
  settings := { cacheDirectory := here }
  disk := ⟨[([fileName "a" "k"], .file [0xff])]⟩
  clock := .finite false 0
  replies _ := [.answer 200 "OK" (.value (.string "v"))]

/-- **The broken entry** is replaced by what is fetched, with one request. -/
theorem through_broken : ∃ (d : Disk) (s : Surroundings),
    (through Surroundings.onDisk (some ⟨here, .finite false 0⟩) "a" "k" (.int 60)
      (Surroundings.fetch .markets [])).on broken = (.ok (.string "v"), { s with disk := d }) ∧
    s.dataRequests.length = 1 ∧
    ((Cache.mk here (.finite false 0)).lookup "a" "k").on d = (.ok (some "v"), d) := by
  have hnode : broken.disk.node? [fileName "a" "k"] = some (.file [0xff]) := by
    simp [node?, isFixed_letter, broken, Keyed.find?]
  have hkeepable : Keepable ⟨here, .finite false 0⟩ "a" "k" [] broken.disk :=
    keepable_here (by decide) (by simp [hnode]) _
  have hread : broken.disk.readBytes (here.child (fileName "a" "k")) = .ok [0xff] :=
    readBytes_child hkeepable.leads hkeepable.nameable hnode
  have hentry : Cache.held? ⟨here, .finite false 0⟩ "a" "k" broken.disk = none := by
    rw [held?, pathOf, hread]
    rfl
  have hspares : Spares Surroundings.disk here (fileName "a" "k") (Surroundings.fetch .markets []) :=
    fun _ _ hleads => ⟨hleads, rfl⟩
  have hlife : ReadableLifetime 60 := by unfold ReadableLifetime; decide
  obtain ⟨-, hfetched, -⟩ := through_heals Work.isPart_onDisk hkeepable hspares 60
  obtain ⟨d, hrun, hfound⟩ := (hfetched hentry _ _ rfl).2 "v" rfl
  refine ⟨d, _, hrun, rfl, hfound readsBack_zero hlife (.finite false 0) ?_⟩
  exact isExpired_zero "v" "a" "k" 60

/-! ### Runs at the limits -/

/-- The whole state is the disk. -/
abbrev throughDisk (c : Cache) (space key : String) (lifetime : Nat) (fetch : Work Disk Json) :
    Work Disk Json :=
  through (fun w => w.within id fun d _ => d) (some c) space key (.int lifetime) fetch

/-- Where the system refuses the path of the entry's file, nothing is fetched. -/
theorem on_throughDisk_of_refused {lifetime : Nat} {fetch : Work Disk Json}
    (h : d.readBytes (c.pathOf space key) = failAt (c.pathOf space key) .nameTooLong) :
    (throughDisk c space key lifetime fetch).on d = (failAt (c.pathOf space key) .nameTooLong, d) := by
  have hlookup : (c.lookup space key).on d = (failAt (c.pathOf space key) .nameTooLong, d) := by
    simp only [lookup, Work.on_of, h]
    rfl
  simp only [throughDisk, through, Work.on_bind, on_within, id, hlookup]
  rfl

theorem readBytes_of_long {name : String} (hnul : (here.child name).hasNul = false)
    (hname : nameLimit < name.utf8ByteSize) (hup : name ≠ "..") :
    Disk.readBytes {} (here.child name) = failAt (here.child name) .nameTooLong := by
  simp only [readBytes, atTarget, hnul, target_of_long hname hup, Except.bind, Bool.false_eq_true, if_false]
  split_ifs <;> rfl

theorem readBytes_of_longPath {p : Path} (hnul : p.hasNul = false)
    (h : pathLimit ≤ p.toString.utf8ByteSize) : d.readBytes p = failAt p .nameTooLong := by
  simp only [readBytes, atTarget, hnul, h, if_true]
  rfl

theorem node?_empty (space key : String) : Disk.node? {} [fileName space key] = none := by
  have hfree : Location.isFixed [fileName space key] = false := isFixed_fileName [] space key
  rw [node?, hfree]
  rfl

theorem erase_empty (space key : String) : Disk.erase {} ([] ++ [fileName space key]) = {} :=
  erase_of_free (isFixed_fileName [] space key) (node?_empty space key)

theorem keepable_empty {space : String} (hsafe : (safeSpace space).length ≤ 25) (key : String) :
    Keepable ⟨here, .finite false 0⟩ space key [] {} :=
  keepable_here hsafe (by simp [node?_empty]) _

theorem held?_empty {space : String} (hsafe : (safeSpace space).length ≤ 25) (key : String) :
    held? ⟨here, .finite false 0⟩ space key {} = none := by
  have hkeepable := keepable_empty hsafe key
  rw [held?, pathOf, readBytes_child_of_none hkeepable.leads hkeepable.nameable (node?_empty space key)]
  rfl

/-- With an empty directory the value is fetched. -/
theorem on_throughDisk_empty (lifetime : Nat) (fetch : Work Disk Json) :
    (throughDisk ⟨here, .finite false 0⟩ "a" "k" lifetime fetch).on {} = match fetch.on {} with
      | (.error f, d) => (.error f, d)
      | (.ok value, d) =>
        match ((Cache.mk here (.finite false 0)).store "a" "k" value (.int lifetime)).on d with
        | (.error f, d') => (.error f, d')
        | (.ok (), d') => (.ok value, d') := by
  have hwhole : Keepable ⟨here, .finite false 0⟩ "a" "k" [] (id {}) := keepable_empty (by decide) "k"
  have hrun := on_through_of_none (fun d _ => d) fetch (.int lifetime) hwhole (held?_empty (by decide) "k")
  rw [id, erase_empty] at hrun
  rw [throughDisk, hrun]
  cases fetch.on {} with
  | mk r d => cases r <;> rfl

/-- The disk with a text stored. -/
def stored (value : String) (lifetime : Nat) : Disk :=
  Disk.put {} [fileName "a" "k"] (.file (encode ⟨value, "a", "k", .finite false 0, lifetime⟩))

theorem on_store_empty (value : String) (lifetime : Nat) :
    ((Cache.mk here (.finite false 0)).store "a" "k" (.string value) (.int lifetime)).on {} =
      (.ok (), stored value lifetime) :=
  (keepable_empty (by decide) "k").on_store value lifetime

theorem node?_stored (value : String) (lifetime : Nat) :
    (stored value lifetime).node? [fileName "a" "k"] =
      some (.file (encode ⟨value, "a", "k", .finite false 0, lifetime⟩)) := by
  rw [stored, node?_put isFixed_letter, if_pos rfl]

/-- With a lifetime that is not read back, what has been fetched is not found. -/
theorem exists_lost {lifetime : Nat} (h : ¬ ReadableLifetime lifetime) :
    ∃ d, (throughDisk ⟨here, .finite false 0⟩ "a" "k" lifetime (pure (.string "v"))).on {} =
        (.ok (.string "v"), d) ∧
      exceeds (Binary64.finite false 0 - Binary64.finite false 0) lifetime = false ∧
      (((Cache.mk here (.finite false 0)).lookup "a" "k").on d).1 = .ok none := by
  refine ⟨stored "v" lifetime, ?_, isExpired_zero "v" "a" "k" lifetime, ?_⟩
  · have hpure : (pure (.string "v") : Work Disk Json).on {} = (.ok (.string "v"), {}) := rfl
    simp only [on_throughDisk_empty, hpure, on_store_empty]
  · have hkeepable : Keepable ⟨here, .finite false 0⟩ "a" "k" [] (stored "v" lifetime) :=
      keepable_here (by decide) (by simp [node?_stored]) _
    have hread := readBytes_child hkeepable.leads hkeepable.nameable (node?_stored "v" lifetime)
    have hdecode := decode?_encode_of_long (e := ⟨"v", "a", "k", .finite false 0, lifetime⟩)
      readsBack_zero h
    have hentry : Cache.held? ⟨here, .finite false 0⟩ "a" "k" (stored "v" lifetime) = none := by
      rw [held?, pathOf, hread]
      simp [Except.toOption, valid?, hdecode]
    rw [hkeepable.on_lookup, hentry]

/-- Fetching that stores an entry itself, and then fails. -/
def storeAndFail : Work Disk Json := do
  (Cache.mk here (.finite false 0)).store "a" "k" (.string "w") (.int (60 : Nat))
  Work.check fun _ => .error .nulInPath

/-- **What is assumed cannot be left out.** In an empty directory that is there, with a namespace of three
hundred letters, and with a short one where the directory's path is long, nothing is fetched. With a
lifetime of more than 4300 digits what has been fetched is not found, though it has not expired. And a
failure to fetch leaves an entry, if `fetch` stores one. -/
theorem through_ne_fetched :
    (Disk.list {} here = .ok [] ∧ ∃ f, (throughDisk ⟨here, .finite false 0⟩ (letters 300) "k" 60
      (pure (.string "v"))).on {} = (.error f, {})) ∧
    (Disk.list {} (above 1364) = .ok [] ∧ ∃ f, (throughDisk ⟨above 1364, .finite false 0⟩ "a" "k" 60
      (pure (.string "v"))).on {} = (.error f, {})) ∧
    (∃ d, (throughDisk ⟨here, .finite false 0⟩ "a" "k" (10 ^ 4300) (pure (.string "v"))).on {} =
        (.ok (.string "v"), d) ∧
      exceeds (Binary64.finite false 0 - Binary64.finite false 0) (10 ^ 4300) = false ∧
      (((Cache.mk here (.finite false 0)).lookup "a" "k").on d).1 = .ok none) ∧
    (∃ d, (throughDisk ⟨here, .finite false 0⟩ "a" "k" 60 storeAndFail).on {} =
        (.error .nulInPath, d) ∧ d.node? [fileName "a" "k"] ≠ none) := by
  have hhere : Disk.list {} here = .ok [] := list_above (by decide)
  refine ⟨⟨hhere, _, on_throughDisk_of_refused ?_⟩, ⟨list_above_1364, _, on_throughDisk_of_refused ?_⟩,
    exists_lost not_readableLifetime, ?_⟩
  · exact readBytes_of_long (hasNul_child (listable_of_list hhere).no_nul _ _) long_fileName
      (fileName_ne_special _ _).1
  · exact readBytes_of_longPath (hasNul_child (listable_of_list list_above_1364).no_nul _ _) long_path
  · refine ⟨stored "w" 60, ?_, by simp [node?_stored]⟩
    have hrun : storeAndFail.on {} = (.error .nulInPath, stored "w" 60) := by
      rw [storeAndFail, Work.on_bind, on_store_empty "w" 60]
      rfl
    rw [on_throughDisk_empty, hrun]

end Cache

end PipeScript
