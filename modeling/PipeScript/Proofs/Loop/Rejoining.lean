import PipeScript.Loop
import PipeScript.Proofs.Text.Search
import PipeScript.Proofs.Text.Splitting
import PipeScript.Proofs.Text.Trim

/-!
# Items joined again

What a named strategy cuts out of a value may be written down again and cut as before: no item is empty
or has blanks around it, and the items with a joiner between them are cut into the same items, in the same
order and number.

## The model

The joiner of a strategy is what it cuts at, and for sections a line of its own (`Strategy.joiner?`). It is
padding, the separator, and padding again, and all that is asked of an item is that the separator does not
begin or end in it once it is padded (`Apart`). A run of dashes at the edge of a section could be taken for
part of a rule, and a newline at the edge of a paragraph for part of a blank line; the padding keeps off the
one, and trimming the other.

Main results: padded items are told apart again, whatever the separator (`items_join`), and so are those of
each named strategy (`itemsOf_rejoined`).
-/

namespace PipeScript

open Text

variable {sep padding item s : List Char} {items : List (List Char)} {keeps : List Char → Bool}

namespace Loop

/-! ### Padded items -/

/-- Is the item kept, without blanks around it, and without the separator, also where the padding and the
next separator follow? -/
structure Apart (sep padding : List Char) (keeps : List Char → Bool) (item : List Char) : Prop where
  kept : keeps item = true
  stripped : Stripped isBlank item
  absent : ¬ sep <:+: padding ++ item ++ padding ++ sep.dropLast

theorem Apart.absent_of_lead (h : Apart sep padding keeps item) {lead : List Char}
    (hlead : lead <:+ padding) : ¬ sep <:+: lead ++ item ++ padding ++ sep.dropLast := by
  obtain ⟨rest, rfl⟩ := hlead
  intro hi
  refine h.absent (hi.trans ?_)
  simp only [List.append_assoc]
  exact (List.suffix_append rest _).isInfix

/-- **Padded items are told apart**: what stands between the separators is one of them with blanks around
it. -/
theorem items_join (hsep : sep ≠ []) (hpadding : ∀ c ∈ padding, isBlank c = true)
    (hkeeps : keeps [] = false) (h : ∀ item ∈ items, Apart sep padding keeps item) :
    ((splitOn sep (join (padding ++ sep ++ padding) items)).map trim).filter keeps = items := by
  -- from the first item on, which has no padding before it; the others have
  have hfrom (rest : List (List Char)) : ∀ first lead, lead <:+ padding →
      (∀ item ∈ first :: rest, Apart sep padding keeps item) →
      ((splitOn sep (lead ++ join (padding ++ sep ++ padding) (first :: rest))).map trim).filter keeps =
        first :: rest := by
    induction rest with
    | nil =>
      intro first lead hlead hall
      have hfirst := hall first (List.mem_cons_self ..)
      have habsent : ¬ sep <:+: lead ++ first := by
        intro hi
        refine hfirst.absent_of_lead hlead (hi.trans ?_)
        rw [List.append_assoc _ padding]
        exact (List.prefix_append _ _).isInfix
      have htrim : trim (lead ++ first) = first := by
        simpa [trim] using stripWhere_append (b := []) (fun c hc => hpadding c (hlead.subset hc))
          (by simp) hfirst.stripped
      have hjoin : join (padding ++ sep ++ padding) [first] = first := List.intercalate_singleton
      rw [hjoin, splitOn_of_absent habsent, List.map_singleton, htrim,
        List.filter_cons_of_pos hfirst.kept, List.filter_nil]
    | cons second rest ih =>
      intro first lead hlead hall
      have hfirst := hall first (List.mem_cons_self ..)
      have htext : lead ++ join (padding ++ sep ++ padding) (first :: second :: rest) =
          (lead ++ first ++ padding) ++
            (sep ++ (padding ++ join (padding ++ sep ++ padding) (second :: rest))) := by
        simp [join, List.intercalate_cons_cons]
      have htrim : trim (lead ++ first ++ padding) = first :=
        stripWhere_append (fun c hc => hpadding c (hlead.subset hc)) hpadding hfirst.stripped
      rw [htext, splitOn_append_append hsep (hfirst.absent_of_lead hlead), List.map_cons, htrim,
        List.filter_cons_of_pos hfirst.kept]
      exact congrArg _
        (ih second padding List.suffix_rfl fun item hi => hall item (List.mem_cons_of_mem _ hi))
  cases items with
  | nil =>
    have hempty : splitOn sep [] = [[]] := rfl
    have htrim : trim [] = [] := rfl
    simp [join, List.intercalate, hempty, htrim, hkeeps]
  | cons first rest => exact hfrom rest first [] (List.nil_suffix) h

/-- What is cut out of a text is without blanks around it and without the separator. -/
theorem stripped_of_mem (hsep : sep ≠ []) (h : item ∈ ((splitOn sep s).map trim).filter keeps) :
    keeps item = true ∧ Stripped isBlank item ∧ ¬ sep <:+: item := by
  obtain ⟨hmem, hkept⟩ := List.mem_filter.mp h
  obtain ⟨piece, hpiece, rfl⟩ := List.mem_map.mp hmem
  have hsplit : IsSplit sep s (splitOn sep s) := (isSplit_iff hsep).mpr rfl
  exact ⟨hkept, stripped_stripWhere isBlank piece,
    fun hi => hsplit.absent piece hpiece (hi.trans (stripWhere_isInfix_self isBlank piece))⟩

/-- **Items cut out of a text** are the same after they have been joined. -/
theorem items_rejoined (sep padding : List Char) (keeps : List Char → Bool) (hsep : sep ≠ [])
    (hpadding : ∀ c ∈ padding, isBlank c = true) (hkeeps : keeps [] = false)
    (habsent : ∀ item : List Char, item ≠ [] → Stripped isBlank item → ¬ sep <:+: item →
      ¬ sep <:+: padding ++ item ++ padding ++ sep.dropLast) (s : List Char) :
    let items := ((splitOn sep s).map trim).filter keeps
    (∀ item ∈ items, item ≠ [] ∧ trim item = item) ∧
      ((splitOn sep (join (padding ++ sep ++ padding) items)).map trim).filter keeps = items := by
  have hne {item : List Char} (hkept : keeps item = true) : item ≠ [] := by
    rintro rfl
    rw [hkeeps] at hkept
    cases hkept
  constructor
  · intro item hi
    obtain ⟨hkept, hstripped, -⟩ := stripped_of_mem hsep hi
    exact ⟨hne hkept, stripWhere_eq_self_iff.mpr hstripped⟩
  · refine items_join hsep hpadding hkeeps fun item hi => ?_
    obtain ⟨hkept, hstripped, hnot⟩ := stripped_of_mem hsep hi
    exact ⟨hkept, hstripped, habsent item (hne hkept) hstripped hnot⟩

/-! ### Separators -/

/-- A separator of one character needs no padding. -/
theorem absent_of_singleton {c : Char} (h : ¬ [c] <:+: item) :
    ¬ [c] <:+: [] ++ item ++ [] ++ [c].dropLast := by
  simpa using h

/-- No blank line begins at the end of a paragraph. -/
theorem absent_of_blankLine (hstripped : Stripped isBlank item) (h : ¬ ['\n', '\n'] <:+: item) :
    ¬ ['\n', '\n'] <:+: [] ++ item ++ [] ++ ['\n', '\n'].dropLast := by
  intro hi
  rcases List.infix_concat_iff.mp (by simpa using hi) with ⟨rest, hrest⟩ | hi
  · have hlast : rest ++ ['\n'] = item := by
      have hconcat : rest ++ ['\n'] ++ ['\n'] = item ++ ['\n'] := by simpa using hrest
      exact List.append_cancel_right hconcat
    have hblank := hstripped.2 '\n' (by simp [← hlast])
    exact absurd hblank (by decide)
  · exact h hi

/-- No rule reaches over the newlines around a section. -/
theorem absent_of_rule (h : ¬ "---".toList <:+: item) :
    ¬ "---".toList <:+: ['\n'] ++ item ++ ['\n'] ++ "---".toList.dropLast := by
  have hne : "---".toList ≠ [] ∧ '\n' ∉ "---".toList := by decide
  intro hi
  have htext : ['\n'] ++ item ++ ['\n'] ++ "---".toList.dropLast =
      [] ++ '\n' :: (item ++ '\n' :: "--".toList) := by
    simp
  rw [htext, infix_append_cons hne.1 hne.2, infix_append_cons hne.1 hne.2] at hi
  rcases hi with hi | hi | hi
  · exact absurd hi (by decide)
  · exact h hi
  · exact absurd hi (by decide)

/-! ### Strategies -/

/-- What the items of a named strategy are joined with. -/
def Strategy.joiner? : Strategy → Option String
  | lines | rows => some "\n"
  | sections => some "\n---\n"
  | commas => some ","
  | paragraphs => some "\n\n"
  | separator _ => none

/-- The items of each named strategy are in normal form. -/
theorem items_normalForm {strategy : Strategy} {joiner : String} (h : strategy.joiner? = some joiner)
    (s : List Char) : (∀ item ∈ Loop.items s strategy, item ≠ [] ∧ trim item = item) ∧
      Loop.items (join joiner.toList (Loop.items s strategy)) strategy = Loop.items s strategy := by
  cases strategy with
  | separator => cases h
  | lines =>
    obtain rfl := Option.some.inj h
    exact items_rejoined ['\n'] [] keepsLine (by decide) (by simp) rfl
      (fun _ _ _ => absent_of_singleton) s
  | rows =>
    obtain rfl := Option.some.inj h
    exact items_rejoined ['\n'] [] keepsRow (by decide) (by simp) rfl
      (fun _ _ _ => absent_of_singleton) s
  | commas =>
    obtain rfl := Option.some.inj h
    exact items_rejoined [','] [] (!·.isEmpty) (by decide) (by simp) rfl
      (fun _ _ _ => absent_of_singleton) s
  | paragraphs =>
    obtain rfl := Option.some.inj h
    exact items_rejoined ['\n', '\n'] [] (!·.isEmpty) (by decide) (by simp) rfl
      (fun _ _ => absent_of_blankLine) s
  | sections =>
    obtain rfl := Option.some.inj h
    exact items_rejoined "---".toList ['\n'] (!·.isEmpty) (by decide)
      (List.forall_mem_singleton.mpr rfl) rfl
      (fun _ _ _ => absent_of_rule) s

/-- **The items of a named strategy are in normal form**: none is empty, none has blanks around it, and
joined they are cut into the same items again. -/
theorem itemsOf_rejoined {name joiner : String}
    (h : (Strategy.ofName name.toList).joiner? = some joiner) (input : String) :
    (∀ item ∈ itemsOf input name, item ≠ "" ∧ trim item.toList = item.toList) ∧
      itemsOf (joiner.intercalate (itemsOf input name)) name = itemsOf input name := by
  obtain ⟨hitems, hrejoined⟩ := items_normalForm h input.toList
  constructor
  · intro item hi
    obtain ⟨cs, hcs, rfl⟩ := List.mem_map.mp hi
    obtain ⟨hne, htrim⟩ := hitems cs hcs
    rw [String.toList_ofList]
    exact ⟨fun hempty => hne (by simpa using congrArg String.toList hempty), htrim⟩
  · have hlists : (itemsOf input name).map String.toList =
        Loop.items input.toList (.ofName name.toList) := by
      simp [itemsOf]
    rw [itemsOf, String.toList_intercalate, hlists]
    exact congrArg _ hrejoined

/-- Sections that begin and end with dashes. -/
theorem itemsOf_rejoined_dashes :
    (Strategy.ofName "section".toList).joiner? = some "\n---\n" ∧
    itemsOf "a-----b\n---\n----- c " "section" = ["a", "--b", "-- c"] ∧
    itemsOf "a\n---\n--b\n---\n-- c" "section" = ["a", "--b", "-- c"] := by
  have hjoiner : (Strategy.ofName "section".toList).joiner? = some "\n---\n" := by decide
  have hitems : itemsOf "a-----b\n---\n----- c " "section" = ["a", "--b", "-- c"] := by decide +kernel
  obtain ⟨-, hrejoined⟩ := itemsOf_rejoined hjoiner "a-----b\n---\n----- c "
  rw [hitems] at hrejoined
  have htext : "\n---\n".intercalate ["a", "--b", "-- c"] = "a\n---\n--b\n---\n-- c" := by decide
  rw [htext] at hrejoined
  exact ⟨hjoiner, hitems, hrejoined⟩

end Loop

end PipeScript
