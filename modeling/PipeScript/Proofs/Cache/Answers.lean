import PipeScript.Proofs.Cache.Refinement

/-!
# The answers of a fresh cache

A cache that starts with an empty directory answers any calls like a map that starts empty, at any
times, also when the clock goes back (`answers_eq_expected`).

## What is assumed

`Fresh` holds what any such statement has to assume: the directory is there and empty, no namespace
holds the character that ends it in the message of the digest, the digest tells the messages apart,
and a time that is stored is read back from its text.

That is not enough, as `answers_ne_expected` shows by three runs. The name of an entry's file holds
its namespace, so the system refuses a namespace that is too long, or one that is short where the
directory's path is nearly too long; and a lifetime may have more digits than are read back. `Fits`
and the last hypothesis of the theorem exclude these runs.
-/

namespace PipeScript.Cache

open CacheEntry

/-! ### What is assumed -/

/-- The message whose digest names the file of a pair. -/
def message (q : String × String) : List UInt8 :=
  Text.Utf8.encode (q.1.toList ++ Char.ofNat 0 :: q.2.toList)

/-- The pairs that the calls name. -/
def usedPairs (calls : List (Binary64 × CacheCall)) : List (String × String) :=
  calls.filterMap fun c => c.2.pair?

/-- Do the calls start with an empty directory, and do the digest and the clock do what they should
for them? -/
structure Fresh (directory : Path) (d : Disk) (calls : List (Binary64 × CacheCall)) : Prop where
  empty : d.list directory = .ok []
  no_nul : ∀ q ∈ usedPairs calls, Char.ofNat 0 ∉ q.1.toList
  no_collision : ∀ q ∈ usedPairs calls, ∀ r ∈ usedPairs calls,
    mark q.1 q.2 = mark r.1 r.2 → message q = message r
  times : ∀ c ∈ calls, c.2.TimeReadsBack c.1

/-- Does the system take the name of the pair's file, and the path to it? -/
structure Fits (directory : Path) (q : String × String) : Prop where
  name : (fileName q.1 q.2).utf8ByteSize ≤ Disk.nameLimit
  path : (directory.child (fileName q.1 q.2)).toString.utf8ByteSize < Disk.pathLimit

/-! ### Names of files -/

theorem eq_of_append_cons {α : Type} {a : α} {xs ys us vs : List α} (hx : a ∉ xs) (hy : a ∉ ys)
    (h : xs ++ a :: us = ys ++ a :: vs) : xs = ys ∧ us = vs := by
  induction xs generalizing ys with
  | nil =>
    cases ys with
    | nil => exact ⟨rfl, by simpa using h⟩
    | cons y ys =>
      simp only [List.nil_append, List.cons_append, List.cons.injEq] at h
      exact absurd (h.1 ▸ List.mem_cons_self) hy
  | cons x xs ih =>
    cases ys with
    | nil =>
      simp only [List.nil_append, List.cons_append, List.cons.injEq] at h
      exact absurd (h.1 ▸ List.mem_cons_self) hx
    | cons y ys =>
      simp only [List.cons_append, List.cons.injEq] at h
      obtain ⟨rfl, h⟩ := h
      obtain ⟨rfl, rfl⟩ := ih (fun hm => hx (List.mem_cons_of_mem _ hm))
        (fun hm => hy (List.mem_cons_of_mem _ hm)) h
      exact ⟨rfl, rfl⟩

/-- Different pairs have different messages, if no namespace holds the character between the two. -/
theorem eq_of_message_eq {q r : String × String} (hq : Char.ofNat 0 ∉ q.1.toList)
    (hr : Char.ofNat 0 ∉ r.1.toList) (h : message q = message r) : q = r := by
  obtain ⟨h₁, h₂⟩ := eq_of_append_cons hq hr (Text.Utf8.encode_injective h)
  exact Prod.ext (String.toList_inj.mp h₁) (String.toList_inj.mp h₂)

/-- The name of an entry's file holds only what is kept of a namespace, and what is put around it. -/
theorem not_mem_fileName {c : Char} (hkept : (Text.isAlphanumeric c || c == '-' || c == '_') = false)
    (hrest : c ∉ "default".toList ++ '_' :: ((List.range 16).map Nat.digitChar ++ ".json".toList))
    (space key : String) : c ∉ (fileName space key).toList := by
  simp only [List.mem_append, List.mem_cons, not_or] at hrest
  obtain ⟨hdefault, hunderscore, hdigit, hending⟩ := hrest
  rw [toList_fileName, List.mem_append, List.mem_cons, List.mem_append]
  rintro (h | h | h | h)
  · simp only [safeSpace] at h
    split at h
    · exact hdefault h
    · have := (List.mem_filter.mp h).2
      rw [hkept] at this
      cases this
  · exact hunderscore h
  · exact not_mem_mark hdigit space key h
  · exact hending h

theorem underscore_mem_fileName (space key : String) : '_' ∈ (fileName space key).toList := by
  rw [toList_fileName]
  simp

theorem hasNul_child {directory : Path} (h : directory.hasNul = false) (space key : String) :
    (directory.child (fileName space key)).hasNul = false := by
  have hname : (fileName space key).toList.any (·.val == 0) = false := by
    rw [List.any_eq_false]
    intro c hc hval
    have : c = Char.ofNat 0 := Char.ext (by simpa using hval)
    exact not_mem_fileName (by decide) (by decide) space key (this ▸ hc)
  simp only [Path.hasNul, Path.child, List.any_append] at h ⊢
  rw [h, List.any_cons, hname]
  rfl

theorem nameable_of_fits {directory : Path} (hl : Disk.Listable directory) {q : String × String}
    (h : Fits directory q) : Disk.Nameable directory (fileName q.1 q.2) where
  no_nul := hasNul_child hl.no_nul q.1 q.2
  path_short := h.path
  name_short := h.name
  ne_up heq := by
    have := underscore_mem_fileName q.1 q.2
    rw [heq] at this
    exact absurd this (by decide)
  ne_root heq := by
    have := underscore_mem_fileName q.1 q.2
    rw [heq] at this
    exact absurd this (by decide)

variable {directory : Path} {d : Disk} {calls : List (Binary64 × CacheCall)}

theorem tells_of_fresh (h : Fresh directory d calls)
    (hfits : ∀ q ∈ usedPairs calls, Fits directory q) : Tells directory (usedPairs calls) where
  listable := Disk.listable_of_list h.empty
  nameable q hq := nameable_of_fits (Disk.listable_of_list h.empty) (hfits q hq)
  injective q hq r hr heq := eq_of_message_eq (h.no_nul q hq) (h.no_nul r hr)
    (h.no_collision q hq r hr (mark_eq_of_fileName_eq heq))

/-- An empty directory represents the empty map. -/
theorem represents_of_empty (h : d.list directory = .ok []) (used : List (String × String)) :
    ∃ l, Represents directory l used d [] := by
  obtain ⟨l, hl, hes⟩ := Disk.leadsTo_of_list h
  have hnil : d.entries l = [] := by
    have := (List.mergeSort_perm (d.entries l) fun a b => Disk.nameLe a.1 b.1).length_eq
    rw [← hes] at this
    exact List.length_eq_zero_iff.mp this.symm
  exact ⟨l, hl, hnil, by simp, by simp, by simp⟩

/-- **A fresh cache answers like an empty map**, whatever is called at whatever times, where the
names and paths of its files keep within the limits of the system and no lifetime has more digits
than are read. -/
theorem answers_eq_expected (h : Fresh directory d calls)
    (hfits : ∀ q ∈ usedPairs calls, Fits directory q)
    (hlife : ∀ c ∈ calls, c.2.LifetimeReadsBack) :
    CacheCall.answers directory calls d =
      (CacheCall.expectedAnswers directory calls []).map .ok := by
  obtain ⟨l, hrep⟩ := represents_of_empty h.empty (usedPairs calls)
  refine answers_of_represents (tells_of_fresh h hfits) hrep ?_ h.times hlife
  intro c hc q hq
  exact List.mem_filterMap.mpr ⟨c, hc, hq⟩

/-! ### Runs at the limits -/

/-- The directory so many levels above the working directory. -/
def above (levels : Nat) : Path := ⟨0, List.replicate levels ".."⟩

/-- The working directory. -/
def here : Path := above 0

/-- A value is stored and looked up, both at time zero. -/
def storeAndGet (space : String) (lifetime : Nat) : List (Binary64 × CacheCall) :=
  [(.finite false 0, .set space "k" "v" lifetime), (.finite false 0, .get space "k")]

theorem readsBack_zero : (Binary64.finite false 0).ReadsBack := rfl

/-- At the time at which it was stored nothing is expired. -/
theorem isExpired_zero (data space key : String) (lifetime : Nat) :
    CacheEntry.isExpired ⟨data, space, key, .finite false 0, lifetime⟩ (.finite false 0) = false := by
  have hzero : Binary64.finite false 0 - Binary64.finite false 0 = .finite false 0 := rfl
  have hpos : (0 : Int) ≤ lifetime * Binary64.unitsPerOne :=
    Int.mul_nonneg (Int.natCast_nonneg _) (Int.natCast_nonneg _)
  rw [CacheEntry.isExpired, hzero, CacheEntry.exceeds, decide_eq_false_iff_not, Int.not_lt]
  exact hpos

/-- The map finds what has been stored. -/
theorem expectedAnswers_storeAndGet (directory : Path) (space : String) (lifetime : Nat) :
    CacheCall.expectedAnswers directory (storeAndGet space lifetime) [] =
      [.done, .value (some "v")] := by
  simp [storeAndGet, CacheCall.expectedAnswers, CacheCall.expected, Keyed.put, Keyed.without,
    Keyed.find?, CacheEntry.pair, isExpired_zero]

theorem isFixed_replicate (levels : Nat) :
    Location.isFixed (List.replicate levels "..") = true := by
  simp [Location.isFixed, Location.isAbove]

/-- Each `..` leads one level further up. -/
theorem follow_replicate (levels height : Nat) :
    Disk.follow {} (List.replicate height "..") (List.replicate levels "..") =
      .ok (List.replicate (height + levels) "..") := by
  induction levels generalizing height with
  | zero => rfl
  | succ levels ih =>
    have hdir := Disk.node?_of_isFixed (d := {}) (isFixed_replicate height)
    have hparent : Location.parent (List.replicate height "..") =
        List.replicate (height + 1) ".." := by
      have hroot : List.replicate height ".." ≠ Location.root := by
        cases height with
        | zero => decide
        | succ height => simp [List.replicate_succ, Location.root]
      have habove : Location.isAbove (List.replicate height "..") = true := by
        simp [Location.isAbove]
      simp only [Location.parent, beq_eq_false_iff_ne.mpr hroot, habove, Bool.false_eq_true,
        if_false, if_true, List.replicate_succ']
    rw [List.replicate_succ, Disk.follow, hdir]
    simp only [if_true, hparent, ih]
    rw [Nat.add_assoc, Nat.add_comm 1]

/-- The directories above the working directory are there and hold nothing. -/
theorem list_above {levels : Nat} (h : (above levels).toString.utf8ByteSize < Disk.pathLimit) :
    Disk.list {} (above levels) = .ok [] := by
  have hleads : Disk.LeadsTo {} (above levels) (List.replicate levels "..") := by
    refine ⟨?_, Disk.node?_of_isFixed (isFixed_replicate levels)⟩
    have := follow_replicate levels 0
    rwa [Nat.zero_add] at this
  have hnul : (above levels).hasNul = false := by
    simp only [Path.hasNul, above, List.any_eq_false]
    intro name hname
    rw [List.eq_of_mem_replicate hname]
    decide
  rw [Disk.list_eq hleads ⟨hnul, h⟩]
  simp [Disk.entries_eq]

theorem size_intercalate (levels : Nat) :
    ("/".intercalate (List.replicate (levels + 1) "..")).utf8ByteSize = 3 * levels + 2 := by
  induction levels with
  | zero => decide
  | succ levels ih =>
    rw [List.replicate_succ, List.replicate_succ, String.intercalate_cons_cons,
      ← List.replicate_succ, String.utf8ByteSize_append, String.utf8ByteSize_append, ih]
    have h₁ : "..".utf8ByteSize = 2 := by decide
    have h₂ : "/".utf8ByteSize = 1 := by decide
    omega

theorem size_above (levels : Nat) :
    (above (levels + 1)).toString.utf8ByteSize = 3 * levels + 2 := by
  rw [← size_intercalate]
  simp [above, Path.toString, List.replicate_succ]

theorem size_child_above (levels : Nat) (name : String) :
    ((above (levels + 1)).child name).toString.utf8ByteSize =
      3 * levels + 3 + name.utf8ByteSize := by
  have hne : List.replicate (levels + 1) ".." ≠ [] := by simp
  have h : ((above (levels + 1)).child name).toString =
      "/".intercalate (List.replicate (levels + 1) ".." ++ [name]) := by
    simp [above, Path.child, Path.toString]
  have hslash : "/".utf8ByteSize = 1 := by decide
  rw [h, String.intercalate_append_of_ne_nil hne (by simp), String.intercalate_singleton,
    String.utf8ByteSize_append, String.utf8ByteSize_append, size_intercalate]
  omega

theorem fresh_storeAndGet {directory : Path} {space : String} (lifetime : Nat)
    (hd : Disk.list {} directory = .ok []) (hn : Char.ofNat 0 ∉ space.toList) :
    Fresh directory {} (storeAndGet space lifetime) where
  empty := hd
  no_nul q hq := by
    obtain rfl : q = (space, "k") := by simpa [usedPairs, storeAndGet, CacheCall.pair?] using hq
    exact hn
  no_collision q hq r hr _ := by
    obtain rfl : q = (space, "k") := by simpa [usedPairs, storeAndGet, CacheCall.pair?] using hq
    obtain rfl : r = (space, "k") := by simpa [usedPairs, storeAndGet, CacheCall.pair?] using hr
    rfl
  times := by
    simp [storeAndGet, CacheCall.TimeReadsBack, readsBack_zero]

theorem utf8ByteSize_ofList_cons (c : Char) (cs : List Char) :
    (String.ofList (c :: cs)).utf8ByteSize = c.utf8Size + (String.ofList cs).utf8ByteSize := by
  rw [String.ofList_cons, String.utf8ByteSize_append, String.utf8ByteSize_singleton]

/-- A character takes one to four bytes. -/
theorem utf8ByteSize_ofList_bounds (cs : List Char) :
    cs.length ≤ (String.ofList cs).utf8ByteSize ∧
      (String.ofList cs).utf8ByteSize ≤ 4 * cs.length := by
  induction cs with
  | nil => simp
  | cons c cs ih =>
    have := c.utf8Size_le_four
    have := c.utf8Size_pos
    rw [utf8ByteSize_ofList_cons, List.length_cons]
    omega

theorem length_fileName_le (space key : String) :
    (fileName space key).toList.length ≤ (safeSpace space).length + 38 := by
  have : (mark space key).length ≤ 32 := List.length_take_le 32 _
  rw [toList_fileName, List.length_append, List.length_cons, List.length_append]
  have : ".json".toList.length = 5 := rfl
  omega

theorem utf8ByteSize_eq_ofList (s : String) :
    s.utf8ByteSize = (String.ofList s.toList).utf8ByteSize := by
  rw [String.ofList_toList]

/-- A short namespace fits in the working directory. -/
theorem fits_here {space key : String} (h : (safeSpace space).length ≤ 25) :
    Fits here (space, key) := by
  have hsize : (fileName space key).utf8ByteSize ≤ 252 := by
    rw [utf8ByteSize_eq_ofList]
    have := (utf8ByteSize_ofList_bounds (fileName space key).toList).2
    have := length_fileName_le space key
    omega
  have hpath : (here.child (fileName space key)).toString = fileName space key := by
    simp [here, above, Path.child, Path.toString]
  refine ⟨hsize.trans (by decide), ?_⟩
  rw [hpath]
  exact lt_of_le_of_lt hsize (by decide)

theorem nameable_here {q : String × String} (hsafe : (safeSpace q.1).length ≤ 25) :
    Disk.Nameable here (fileName q.1 q.2) :=
  nameable_of_fits (q := q) (Disk.listable_of_list (list_above (by decide))) (fits_here hsafe)

/-- What is written to the file of a pair in the working directory is read back. -/
theorem exists_written {q : String × String} (hsafe : (safeSpace q.1).length ≤ 25)
    (bytes : List UInt8) : ∃ d, Disk.writeBytes {} (here.child (fileName q.1 q.2)) bytes = .ok d ∧
      d.readBytes (here.child (fileName q.1 q.2)) = .ok bytes := by
  have hl : Disk.LeadsTo {} here [] := ⟨rfl, rfl⟩
  have hn := nameable_here hsafe
  have hnone : Disk.node? {} ([] ++ [fileName q.1 q.2]) = none := by
    rw [Disk.node?_child hn]
    rfl
  exact ⟨_, Disk.writeBytes_child hl hn bytes (by rw [hnone]; simp),
    Disk.readBytes_child (hl.put hn bytes (by rw [hnone]; simp)) hn
      ((Disk.node?_put (Disk.isFixed_child hn)).trans (if_pos rfl))⟩

/-- What has been stored is found. -/
theorem answers_storeAndGet : Fresh here {} (storeAndGet "a" 60) ∧
    CacheCall.answers here (storeAndGet "a" 60) {} = [.ok .done, .ok (.value (some "v"))] := by
  have hfresh : Fresh here {} (storeAndGet "a" 60) :=
    fresh_storeAndGet 60 (list_above (by decide)) (by decide)
  have hfits : ∀ q ∈ usedPairs (storeAndGet "a" 60), Fits here q := by
    intro q hq
    obtain rfl : q = ("a", "k") := by simpa [usedPairs, storeAndGet, CacheCall.pair?] using hq
    exact fits_here (by decide)
  have hlife : ∀ c ∈ storeAndGet "a" 60, c.2.LifetimeReadsBack := by
    simp [storeAndGet, CacheCall.LifetimeReadsBack, ReadableLifetime]
    decide
  refine ⟨hfresh, ?_⟩
  rw [answers_eq_expected hfresh hfits hlife, expectedAnswers_storeAndGet]
  rfl

/-- Where the record cannot be written, the call fails, and the map does not. -/
theorem answers_ne_of_writeBytes {directory : Path} {space : String} {lifetime : Nat}
    (hd : Disk.list {} directory = .ok [])
    (h : ∀ bytes, ∃ f, Disk.writeBytes {} (directory.child (fileName space "k")) bytes = .error f) :
    CacheCall.answers directory (storeAndGet space lifetime) {} ≠
      (CacheCall.expectedAnswers directory (storeAndGet space lifetime) []).map .ok := by
  obtain ⟨f, hf⟩ := h (CacheEntry.encode ⟨"v", space, "k", .finite false 0, lifetime⟩)
  have hstore : (Cache.store ⟨directory, .finite false 0⟩ space "k" (.string "v") (.int lifetime)).on {} =
      (.error (movingFailure f), {}) := by
    rw [on_store (ofValue_string "v" space "k" (.finite false 0) lifetime), hd, pathOf, hf]
    rfl
  intro heq
  rw [expectedAnswers_storeAndGet] at heq
  have hhead := congrArg List.head? heq
  simp [storeAndGet, CacheCall.answers, CacheCall.run, CacheCall.answer, hstore, Except.map] at hhead

theorem length_le_size_fileName (space key : String) :
    (safeSpace space).length + 6 ≤ (fileName space key).utf8ByteSize := by
  have hlen : (fileName space key).toList.length =
      (safeSpace space).length + ((mark space key).length + 5 + 1) := by
    rw [toList_fileName, List.length_append, List.length_cons, List.length_append]
    rfl
  have := (utf8ByteSize_ofList_bounds (fileName space key).toList).1
  rw [String.ofList_toList] at this
  omega

/-- A namespace of some letters. -/
def letters (n : Nat) : String := String.ofList (List.replicate n 'a')

theorem length_safeSpace_letters (n : Nat) : (safeSpace (letters (n + 1))).length = n + 1 := by
  have hfilter : (letters (n + 1)).toList.filter
      (fun c => Text.isAlphanumeric c || c == '-' || c == '_') = List.replicate (n + 1) 'a' := by
    rw [letters, String.toList_ofList]
    exact List.filter_replicate_of_pos (by decide)
  rw [safeSpace, hfilter]
  simp

theorem not_mem_letters (n : Nat) : Char.ofNat 0 ∉ (letters n).toList := by
  rw [letters, String.toList_ofList]
  intro h
  exact absurd (List.eq_of_mem_replicate h) (by decide)

theorem long_fileName : Disk.nameLimit < (fileName (letters 300) "k").utf8ByteSize := by
  have hsize := length_le_size_fileName (letters (299 + 1)) "k"
  rw [length_safeSpace_letters] at hsize
  exact Nat.lt_of_lt_of_le (by decide) hsize

theorem long_path : Disk.pathLimit ≤ ((above 1364).child (fileName "a" "k")).toString.utf8ByteSize := by
  have := length_le_size_fileName "a" "k"
  have hlimit : Disk.pathLimit = 4096 := rfl
  rw [size_child_above 1363]
  omega

theorem list_above_1364 : Disk.list {} (above 1364) = .ok [] :=
  list_above (by rw [size_above]; decide)

/-- A name that is too long leads nowhere. -/
theorem target_of_long {name : String} (hname : Disk.nameLimit < name.utf8ByteSize)
    (hup : name ≠ "..") : Disk.target {} (here.child name) = .error .nameTooLong := by
  have horigin : Disk.follow {} (Disk.origin here) here.names = .ok [] := rfl
  have hfollow : Disk.follow {} [] [name] = .error .nameTooLong := by
    simp [Disk.follow, Disk.node?, Location.isFixed, Location.isAbove, hup, hname]
  simp only [Disk.target_concat, horigin, hfollow]

/-- The system refuses a name that is too long. -/
theorem writeBytes_of_long {name : String} (hname : Disk.nameLimit < name.utf8ByteSize)
    (hup : name ≠ "..") (bytes : List UInt8) :
    ∃ f, Disk.writeBytes {} (here.child name) bytes = .error f := by
  simp only [Disk.writeBytes, Disk.atTarget, target_of_long hname hup, Except.bind]
  split_ifs <;> exact ⟨_, rfl⟩

/-- The system refuses a path that is too long. -/
theorem writeBytes_of_longPath {p : Path} (h : Disk.pathLimit ≤ p.toString.utf8ByteSize)
    (bytes : List UInt8) : ∃ f, Disk.writeBytes {} p bytes = .error f := by
  simp only [Disk.writeBytes, Disk.atTarget, h, if_true]
  split_ifs <;> exact ⟨_, rfl⟩

/-- A lifetime with too many digits is stored, and what has been stored is not found. -/
theorem answers_storeAndGet_of_long {lifetime : Nat} (h : ¬ ReadableLifetime lifetime) :
    CacheCall.answers here (storeAndGet "a" lifetime) {} = [.ok .done, .ok (.value none)] := by
  have hlist : Disk.list {} here = .ok [] := list_above (by decide)
  obtain ⟨d, hwrite, hread⟩ := exists_written (q := ("a", "k")) (by decide)
    (CacheEntry.encode ⟨"v", "a", "k", .finite false 0, lifetime⟩)
  have hdecode : decode? (CacheEntry.encode ⟨"v", "a", "k", .finite false 0, lifetime⟩) = none :=
    decode?_encode_of_long readsBack_zero h
  have hstore : (Cache.store ⟨here, .finite false 0⟩ "a" "k" (.string "v") (.int lifetime)).on {} =
      (.ok (), d) := by
    rw [on_store (ofValue_string "v" "a" "k" (.finite false 0) lifetime), hlist, pathOf, hwrite]
    rfl
  simp only [storeAndGet, CacheCall.answers, CacheCall.run, CacheCall.answer, hstore, Work.on_of, pathOf,
    lookup, hread, hdecode]
  rfl

/-- **The assumptions of a fresh cache are not enough**: with a namespace of three hundred letters,
with a short one where the directory's path is long, and with a lifetime of more than 4300 digits it
does not answer like a map. -/
theorem answers_ne_expected :
    (Fresh here {} (storeAndGet (letters 300) 60) ∧
      CacheCall.answers here (storeAndGet (letters 300) 60) {} ≠
        (CacheCall.expectedAnswers here (storeAndGet (letters 300) 60) []).map .ok) ∧
    (Fresh (above 1364) {} (storeAndGet "a" 60) ∧
      CacheCall.answers (above 1364) (storeAndGet "a" 60) {} ≠
        (CacheCall.expectedAnswers (above 1364) (storeAndGet "a" 60) []).map .ok) ∧
    (Fresh here {} (storeAndGet "a" (10 ^ 4300)) ∧
      CacheCall.answers here (storeAndGet "a" (10 ^ 4300)) {} ≠
        (CacheCall.expectedAnswers here (storeAndGet "a" (10 ^ 4300)) []).map .ok) := by
  have hhere : Disk.list {} here = .ok [] := list_above (by decide)
  refine ⟨⟨fresh_storeAndGet _ hhere (not_mem_letters _),
      answers_ne_of_writeBytes hhere fun bytes => ?_⟩,
    ⟨fresh_storeAndGet _ list_above_1364 (by decide),
      answers_ne_of_writeBytes list_above_1364 fun bytes => ?_⟩,
    fresh_storeAndGet _ hhere (by decide), ?_⟩
  · have hup : fileName (letters 300) "k" ≠ ".." := by
      intro heq
      have := underscore_mem_fileName (letters 300) "k"
      rw [heq] at this
      exact absurd this (by decide)
    exact writeBytes_of_long long_fileName hup bytes
  · exact writeBytes_of_longPath long_path bytes
  · rw [answers_storeAndGet_of_long not_readableLifetime, expectedAnswers_storeAndGet]
    simp

end PipeScript.Cache
