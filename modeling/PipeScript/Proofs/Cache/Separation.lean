import PipeScript.Proofs.Cache.Answers
import PipeScript.Proofs.Disk.Frame

/-!
# Entries in files of their own

Each pair of namespace and key has a file of its own, so storing or removing one entry never changes
what is found for another pair, on whatever disk. Two pairs share a file where the message of the
digest does not tell them apart: the namespace ends at the first character of its kind in the message,
and a namespace that holds this character itself may go on where another one ends.

## What is assumed

`Continues` says that a namespace goes on in this way. Where it does not, and the digest tells the two
messages apart, the names of the files are different (`fileName_ne`); what is stored or removed under
one of them leaves the bytes under the other (`readBytes_store`, `readBytes_invalidate`), which is all
that a look-up sees (`fst_lookup_congr`).

Main results: `lookup_other_pair`, and two pairs that share a file, `lookup_shared_file`.
-/

namespace PipeScript.Cache

open CacheEntry

/-- Is the second namespace the first one with more behind it, set off by the character that ends a
namespace in the message of the digest? -/
def Continues (space space' : String) : Prop :=
  space.toList ++ [Char.ofNat 0] <+: space'.toList

/-! ### Names of files -/

/-- What stands before a mark is the same in equal texts, unless it goes on behind the mark in one. -/
theorem eq_or_prefix_of_append_cons {α : Type} {a : α} {xs ys us vs : List α}
    (h : xs ++ a :: us = ys ++ a :: vs) :
    xs = ys ∧ us = vs ∨ xs ++ [a] <+: ys ∨ ys ++ [a] <+: xs := by
  have hcons {ws more rest : List α} (hws : a :: rest = ws ++ a :: more) :
      ws = [] ∧ rest = more ∨ ∃ tail, ws = a :: tail := by
    cases ws with
    | nil => exact .inl ⟨rfl, by simpa using hws⟩
    | cons w tail => exact .inr ⟨tail, by simp_all⟩
  rcases List.append_eq_append_iff.mp h with ⟨ws, rfl, hws⟩ | ⟨ws, rfl, hws⟩
  · rcases hcons hws with ⟨rfl, rfl⟩ | ⟨tail, rfl⟩
    · exact .inl ⟨(List.append_nil xs).symm, rfl⟩
    · exact .inr (.inl ⟨tail, by simp⟩)
  · rcases hcons hws with ⟨rfl, rfl⟩ | ⟨tail, rfl⟩
    · exact .inl ⟨List.append_nil ys, rfl⟩
    · exact .inr (.inr ⟨tail, by simp⟩)

/-- Different pairs have different messages, unless one namespace continues the other. -/
theorem eq_or_continues_of_message_eq {q r : String × String} (h : message q = message r) :
    q = r ∨ Continues q.1 r.1 ∨ Continues r.1 q.1 := by
  refine (eq_or_prefix_of_append_cons (Text.Utf8.encode_injective h)).imp_left ?_
  rintro ⟨hspace, hkey⟩
  exact Prod.ext (String.toList_inj.mp hspace) (String.toList_inj.mp hkey)

theorem fileName_ne {q r : String × String} (hne : q ≠ r) (hqr : ¬ Continues q.1 r.1)
    (hrq : ¬ Continues r.1 q.1) (hmark : mark q.1 q.2 = mark r.1 r.2 → message q = message r) :
    fileName q.1 q.2 ≠ fileName r.1 r.2 := by
  intro heq
  rcases eq_or_continues_of_message_eq (hmark (mark_eq_of_fileName_eq heq)) with h | h | h
  · exact hne h
  · exact hqr h
  · exact hrq h

theorem fileName_ne_of_not_mem {name : String} (h : '_' ∉ name.toList) (space key : String) :
    fileName space key ≠ name := by
  rintro rfl
  exact h (underscore_mem_fileName space key)

/-! ### Files of other pairs -/

/-- What a look-up finds hangs on the bytes of its file alone. -/
theorem fst_lookup_congr {c : Cache} {space key : String} {d d' : Disk}
    (h : d'.readBytes (c.pathOf space key) = d.readBytes (c.pathOf space key)) :
    ((c.lookup space key).on d').1 = ((c.lookup space key).on d).1 := by
  simp only [lookup, Work.on_of, h]
  cases d.readBytes (c.pathOf space key) with
  | error f =>
    cases f with
    | disk e =>
      simp only
      by_cases hp : e.problem = .notFound
      · rw [if_pos hp, if_pos hp]
      · rw [if_neg hp, if_neg hp]
    | _ => rfl
  | ok bytes =>
    cases hentry : decode? bytes with
    | none => simp only [hentry]
    | some entry =>
      simp only [hentry]
      by_cases hexpired : entry.isExpired c.now = true
      · rw [if_pos hexpired, if_pos hexpired]
      · rw [if_neg hexpired, if_neg hexpired]

/-- Storing writes the file of its pair, or changes nothing. -/
theorem snd_store_cases (c : Cache) (space key : String) (value lifetime : Json) (d : Disk) :
    ((c.store space key value lifetime).on d).2 = d ∨ ∃ bytes,
      d.writeBytes (c.pathOf space key) bytes =
        .ok ((c.store space key value lifetime).on d).2 := by
  rcases c.storeWith_cases none space key value lifetime d with
    ⟨f, hfails⟩ | ⟨bytes, d', hdone, hwrite⟩
  · exact .inl (by rw [store, hfails])
  · exact .inr ⟨bytes, by rw [store, hdone, hwrite]⟩

/-- Invalidating removes the file of its pair, or changes nothing. -/
theorem snd_invalidate_cases (c : Cache) (space key : String) (d : Disk) :
    ((c.invalidate space key).on d).2 = d ∨
      d.remove (c.pathOf space key) = .ok ((c.invalidate space key).on d).2 := by
  simp only [invalidate, Work.edit, Work.on_of]
  cases d.remove (c.pathOf space key) with
  | error f =>
    cases f with
    | disk e =>
      by_cases hp : e.problem = .notFound
      · exact .inl (by simp only [hp, if_true])
      · exact .inl (by simp only [hp, if_false])
    | _ => exact .inl rfl
  | ok d' => exact .inr rfl

section OtherPair

variable {c : Cache} {space key space' key' : String} {now : Binary64}

theorem readBytes_store (h : fileName space' key' ≠ fileName space key) (value lifetime : Json)
    (d : Disk) : ((c.store space key value lifetime).on d).2.readBytes
        (Cache.pathOf ⟨c.directory, now⟩ space' key') =
      d.readBytes (Cache.pathOf ⟨c.directory, now⟩ space' key') := by
  have hname (name : String) (hname : '_' ∉ name.toList) := fileName_ne_of_not_mem hname
  rcases snd_store_cases c space key value lifetime d with hsame | ⟨bytes, hwrite⟩
  · rw [hsame]
  · exact Disk.readBytes_of_writeBytes hwrite
      ⟨hname ".." (by decide) _ _, hname "/" (by decide) _ _⟩ h (hname ".." (by decide) _ _)

theorem readBytes_invalidate (h : fileName space' key' ≠ fileName space key) (d : Disk) :
    ((c.invalidate space key).on d).2.readBytes (Cache.pathOf ⟨c.directory, now⟩ space' key') =
      d.readBytes (Cache.pathOf ⟨c.directory, now⟩ space' key') := by
  have hup (space key : String) : fileName space key ≠ ".." :=
    fileName_ne_of_not_mem (by decide) space key
  rcases snd_invalidate_cases c space key d with hsame | hremove
  · rw [hsame]
  · exact Disk.readBytes_of_remove hremove (hup _ _) h (hup _ _)

end OtherPair

/-- **Entries are separate**: different pairs, of which neither namespace continues the other, have
different files where the digest tells their messages apart; and then whatever is stored or removed
for one pair, at whatever time and on whatever disk, a look-up of the other one at any time finds what
it would have found without it. -/
theorem lookup_other_pair {q r : String × String} (hne : q ≠ r) (hqr : ¬ Continues q.1 r.1)
    (hrq : ¬ Continues r.1 q.1) (hmark : mark q.1 q.2 = mark r.1 r.2 → message q = message r)
    (c : Cache) (now : Binary64) (d : Disk) :
    c.pathOf q.1 q.2 ≠ c.pathOf r.1 r.2 ∧
    (∀ value lifetime,
      ((Cache.lookup ⟨c.directory, now⟩ r.1 r.2).on
        ((c.store q.1 q.2 value lifetime).on d).2).1 =
      ((Cache.lookup ⟨c.directory, now⟩ r.1 r.2).on d).1) ∧
    ((Cache.lookup ⟨c.directory, now⟩ r.1 r.2).on ((c.invalidate q.1 q.2).on d).2).1 =
      ((Cache.lookup ⟨c.directory, now⟩ r.1 r.2).on d).1 := by
  have hname : fileName r.1 r.2 ≠ fileName q.1 q.2 := (fileName_ne hne hqr hrq hmark).symm
  refine ⟨fun heq => hname ?_, fun value lifetime => ?_, ?_⟩
  · have hnames : c.directory.names ++ [fileName q.1 q.2] =
        c.directory.names ++ [fileName r.1 r.2] := congrArg Path.names heq
    simpa using hnames.symm
  · exact fst_lookup_congr (readBytes_store hname value lifetime d)
  · exact fst_lookup_congr (readBytes_invalidate hname d)

/-- The namespaces of one letter are separate. -/
theorem lookup_other_letter : (("a", "k") : String × String) ≠ ("b", "k") ∧
    ¬ Continues "a" "b" ∧ ¬ Continues "b" "a" ∧ mark "a" "k" ≠ mark "b" "k" ∧
    ∀ (c : Cache) (now : Binary64) (d : Disk) (value lifetime : Json),
      c.pathOf "a" "k" ≠ c.pathOf "b" "k" ∧
      ((Cache.lookup ⟨c.directory, now⟩ "b" "k").on ((c.store "a" "k" value lifetime).on d).2).1 =
        ((Cache.lookup ⟨c.directory, now⟩ "b" "k").on d).1 := by
  have hne : (("a", "k") : String × String) ≠ ("b", "k") := by decide
  have hab : ¬ Continues "a" "b" := fun h => absurd h.length_le (by decide)
  have hba : ¬ Continues "b" "a" := fun h => absurd h.length_le (by decide)
  have hmark : mark "a" "k" ≠ mark "b" "k" := by decide +kernel
  refine ⟨hne, hab, hba, hmark, fun c now d value lifetime => ?_⟩
  obtain ⟨hpath, hstore, -⟩ := lookup_other_pair (q := ("a", "k")) (r := ("b", "k")) hne hab hba
    (fun h => absurd h hmark) c now d
  exact ⟨hpath, hstore value lifetime⟩

/-! ### Pairs that share a file -/

/-- Two pairs with the same message have the same file, if the same of their namespaces is kept. -/
theorem fileName_eq_of_message_eq {q r : String × String} (h : message q = message r)
    (hsafe : safeSpace q.1 = safeSpace r.1) : fileName q.1 q.2 = fileName r.1 r.2 := by
  have hmark : mark q.1 q.2 = mark r.1 r.2 :=
    congrArg (fun bytes => (Digest.hex bytes).take 32) h
  rw [fileName, fileName, hsafe, hmark]

/-- A pair whose key begins with the character that ends a namespace. -/
def keyAfterMark : String × String := ("", "\x00k")

/-- A pair whose namespace is that character. -/
def spaceOfMark : String × String := ("\x00", "k")

theorem fileName_of_mark :
    fileName spaceOfMark.1 spaceOfMark.2 = fileName keyAfterMark.1 keyAfterMark.2 :=
  fileName_eq_of_message_eq rfl (by decide)

/-- What has been stored for a pair is found under its file's name, in the working directory. -/
theorem lookup_of_fileName_eq {q r : String × String} (hsafe : (safeSpace q.1).length ≤ 25)
    (h : fileName r.1 r.2 = fileName q.1 q.2) (value : String) :
    ((Cache.lookup ⟨here, .finite false 0⟩ r.1 r.2).on
      ((Cache.store ⟨here, .finite false 0⟩ q.1 q.2 (.string value) (.int 60)).on {}).2).1 =
        .ok (some value) := by
  have hlist : Disk.list {} here = .ok [] := list_above (by decide)
  obtain ⟨d, hwrite, hread⟩ := exists_written hsafe
    (CacheEntry.encode ⟨value, q.1, q.2, .finite false 0, 60⟩)
  have hdecode : decode? (CacheEntry.encode ⟨value, q.1, q.2, .finite false 0, 60⟩) =
      some ⟨value, q.1, q.2, .finite false 0, 60⟩ :=
    decode?_encode readsBack_zero (show ReadableLifetime 60 by unfold ReadableLifetime; decide)
  have hstore : (Cache.store ⟨here, .finite false 0⟩ q.1 q.2 (.string value) (.int 60)).on {} =
      (.ok (), d) := by
    rw [on_store (ofValue_string value q.1 q.2 (.finite false 0) 60), hlist, pathOf, hwrite]
    rfl
  simp only [hstore, pathOf, lookup, h, hread, hdecode, isExpired_zero, Work.on_of]
  rfl

/-- **Two pairs share a file**: they are different, the digest has not met two messages that it does
not tell apart, since their messages are the same, and a look-up of the one finds what has been stored
for the other, where it would have found nothing. -/
theorem lookup_shared_file : keyAfterMark ≠ spaceOfMark ∧
    message keyAfterMark = message spaceOfMark ∧
    Cache.pathOf ⟨here, .finite false 0⟩ keyAfterMark.1 keyAfterMark.2 =
      Cache.pathOf ⟨here, .finite false 0⟩ spaceOfMark.1 spaceOfMark.2 ∧
    ((Cache.lookup ⟨here, .finite false 0⟩ spaceOfMark.1 spaceOfMark.2).on {}).1 = .ok none ∧
    ((Cache.lookup ⟨here, .finite false 0⟩ spaceOfMark.1 spaceOfMark.2).on
      ((Cache.store ⟨here, .finite false 0⟩ keyAfterMark.1 keyAfterMark.2 (.string "v")
        (.int 60)).on {}).2).1 = .ok (some "v") := by
  have hnone : Disk.readBytes {} (here.child (fileName spaceOfMark.1 spaceOfMark.2)) =
      Disk.failAt (here.child (fileName spaceOfMark.1 spaceOfMark.2)) .notFound := by
    have hn := nameable_here (q := spaceOfMark) (by decide)
    exact Disk.readBytes_child_of_none ⟨rfl, rfl⟩ hn (by rw [Disk.node?_child hn]; rfl)
  refine ⟨by decide, rfl, ?_, ?_, ?_⟩
  · rw [pathOf, pathOf, fileName_of_mark]
  · simp only [lookup, Work.on_of, pathOf, hnone]
    rfl
  · exact lookup_of_fileName_eq (by decide) fileName_of_mark "v"

end PipeScript.Cache
