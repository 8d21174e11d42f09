import PipeScript.Proofs.Execution.Loops
import PipeScript.Proofs.Text.Search
import PipeScript.Proofs.Text.Splitting

/-!
# Loops over the pieces between separators

A loop whose argument names no strategy goes through what stands between the occurrences of a separator.
The argument is trimmed first and put into lower case, so that the names of the strategies may be written
in any letter case; a separator comes out of this in lower case too.

## The model

`Engine.GoesThrough` says of a stage and a list of items, whatever its body does and whenever the run is
cancelled, that the stage calls its body for these items, one after the other, as many as the settings
allow. What the items are is said by `Text.IsSplit`, without the splitter.

Main results: every loop goes through the items of its value (`Engine.goesThrough_itemsOf`); if the
argument names no strategy these are the pieces between the occurrences of the separator in lower case,
and they are those between the occurrences of the separator itself, whatever the value is, exactly if it
is in lower case already (`Engine.forEach_separator`).
-/

namespace PipeScript

open Text

variable {σ : Type}

namespace Loop

variable {argument : String} {name : List Char}

/-- The names of the strategies. -/
def strategyNames : List String :=
  ["line", "lines", "section", "sections", "csv", ",", "paragraph", "paragraphs", "table", "rows"]

/-- The separator that an argument gives: the text without blanks and quotation marks around it. -/
def separatorOf (argument : String) : List Char := bare argument.toList

/-- Does the argument of a loop give a separator that is no name of a strategy, in any letter case? -/
def GivesSeparator (argument : String) : Prop :=
  separatorOf argument ≠ [] ∧ String.ofList (lower (separatorOf argument)) ∉ strategyNames

instance (argument : String) : Decidable (GivesSeparator argument) :=
  inferInstanceAs (Decidable (_ ∧ _))

theorem ofName_of_not_mem (hne : name ≠ []) (hbreak : name ≠ ['\n'])
    (h : String.ofList name ∉ strategyNames) : Strategy.ofName name = .separator name := by
  have hother {names : List String} (hnames : names ⊆ ["", "\n"] ++ strategyNames) :
      names.any (·.toList == name) = false := by
    rw [List.any_eq_false]
    intro s hs heq
    obtain rfl : s = String.ofList name := by
      rw [← eq_of_beq heq, String.ofList_toList]
    rcases List.mem_append.mp (hnames hs) with hs | hs
    · rcases List.mem_pair.mp hs with hs | hs
      · exact hne (by simpa using congrArg String.toList hs)
      · exact hbreak (by simpa using congrArg String.toList hs)
    · exact h hs
  unfold Strategy.ofName
  iterate 5 rw [hother (by decide), if_neg Bool.false_ne_true]

theorem strategyName_eq (h : separatorOf argument ≠ []) :
    strategyName argument = String.ofList (lower (separatorOf argument)) := by
  have hempty : (lower (separatorOf argument)).isEmpty = false := by
    simpa using lower_ne_nil h
  unfold strategyName
  exact if_neg (by simpa [separatorOf] using hempty)

/-- **The items of a loop with a separator** are the pieces between its occurrences in lower case. -/
theorem itemsOf_separator (h : GivesSeparator argument) (hbreak : lower (separatorOf argument) ≠ ['\n'])
    (input : String) : itemsOf input (strategyName argument) =
      (splitOn (lower (separatorOf argument)) input.toList).map String.ofList := by
  rw [itemsOf, strategyName_eq h.1, String.toList_ofList,
    ofName_of_not_mem (lower_ne_nil h.1) hbreak h.2, items]

theorem isSplit_itemsOf (h : GivesSeparator argument) (hbreak : lower (separatorOf argument) ≠ ['\n'])
    (input : String) : IsSplit (lower (separatorOf argument)) input.toList
      ((itemsOf input (strategyName argument)).map String.toList) := by
  rw [isSplit_iff (lower_ne_nil h.1), itemsOf_separator h hbreak, List.map_map]
  simp

/-- The name `line` that stands for a line break drops the empty pieces. -/
theorem itemsOf_lineBreak (h : lower (separatorOf argument) = ['\n']) :
    itemsOf "" (strategyName argument) = [] := by
  have hne : separatorOf argument ≠ [] := by
    intro hnil
    rw [hnil] at h
    cases h
  rw [strategyName_eq hne, h]
  decide

/-- **The pieces are those between the occurrences of the separator itself**, whatever the value is,
exactly if it is in lower case and no line break. -/
theorem isSplit_itemsOf_iff (h : GivesSeparator argument) :
    (∀ input : String, IsSplit (separatorOf argument) input.toList
        ((itemsOf input (strategyName argument)).map String.toList)) ↔
      lower (separatorOf argument) = separatorOf argument ∧ separatorOf argument ≠ ['\n'] := by
  constructor
  · intro hsplit
    have hbreak : lower (separatorOf argument) ≠ ['\n'] := by
      intro hbreak
      have hempty := (hsplit "").eq_splitOn h.1
      rw [itemsOf_lineBreak hbreak] at hempty
      exact splitSkipping_ne_nil _ _ _ hempty
    have hcase : lower (separatorOf argument) = separatorOf argument := by
      by_contra hcase
      -- the separator itself is a value that is split by it and not by its lower case
      have hself := (hsplit (String.ofList (separatorOf argument))).eq_splitOn h.1
      rw [itemsOf_separator h hbreak, String.toList_ofList,
        splitOn_of_absent (lower_absent hcase)] at hself
      have hcut := splitOn_append h.1 []
      rw [List.append_nil, hself, List.map_map, List.map_singleton, Function.comp_apply,
        String.toList_ofList] at hcut
      exact h.1 (List.cons.inj hcut).1
    exact ⟨hcase, hcase ▸ hbreak⟩
  · rintro ⟨hcase, hbreak⟩ input
    have hsplit := isSplit_itemsOf h (hcase.symm ▸ hbreak) input
    rwa [hcase] at hsplit

end Loop

namespace Engine

variable {argument input : String} {body : List (List Stage)}

/-- What a loop does after its last item. -/
def afterLoop (results : List (ItemResult Failure)) : Process σ :=
  .act (.count (.loop results.length)) (.ok (Loop.report results))

/-- Does the stage go through these items? It calls its body for one after the other, for as many as the
settings allow unless a cancellation ends the loop, and reports on all of them. -/
def GoesThrough (e : Engine σ) (argument : String) (body : List (List Stage)) (input : String)
    (items : List String) : Prop :=
  ∀ ds o, (e.runStage (.forEach argument body) input).MayDo ds o →
    ∃ (line : LogLine) (calls : List (Visit σ)) (rest : List (Deed σ)),
      ds = .change (.log line) :: (Visit.trace calls ++ rest) ∧
      (∀ (i : Nat) (v : Visit σ), calls[i]? = some v →
        ∃ item, items[i]? = some item ∧ (e.runBlock body item).MayDo v.deeds v.outcome) ∧
      Process.LoopEnds ((Loop.Plan.ofArgument argument e.loopDelay e.loopLimit).count items)
        (Visit.records 0 items) afterLoop calls rest o

/-- **Every loop** goes through the items of its value. -/
theorem goesThrough_itemsOf (e : Engine σ) (argument : String) (body : List (List Stage))
    (input : String) :
    e.GoesThrough argument body input (Loop.itemsOf input (Loop.strategyName argument)) := by
  intro ds o h
  rw [runStage, runLoop] at h
  cases h with
  | act line h =>
    obtain ⟨calls, rest, rfl, hlooped⟩ := Process.exists_looped h
    generalize hplan : Loop.Plan.ofArgument argument e.loopDelay e.loopLimit = plan at hlooped ⊢
    have hseparator : plan.separator = Loop.strategyName argument := by
      rw [← hplan]
      rfl
    rw [hseparator] at hlooped
    generalize Loop.itemsOf input (Loop.strategyName argument) = items at hlooped ⊢
    have hlength := hlooped.length_le
    rw [plan.length_limit] at hlength
    refine ⟨_, calls, rest, rfl, fun i v hv => ?_, ?_⟩
    · obtain ⟨item, hitem, hmay, -, -⟩ := hlooped.call hv
      rw [plan.limit_eq, List.getElem?_take] at hitem
      exact ⟨item, (Option.ite_none_right_eq_some.mp hitem).2, hmay⟩
    · have hends := hlooped.ends
      rw [plan.length_limit] at hends
      refine hends.congr hlength fun calls hcalls => ?_
      rw [List.reverse_nil, List.nil_append, plan.limit_eq, Visit.records_take hcalls]

/-- **A loop with a separator** goes through the pieces of its value between the occurrences of the
separator in lower case; joined with it they are the value. They are the pieces between the occurrences
of the separator as it is given exactly if that is in lower case, and no line break, which is one more
name for the lines of a value. -/
theorem forEach_separator (e : Engine σ) (body : List (List Stage)) (h : Loop.GivesSeparator argument) :
    (lower (Loop.separatorOf argument) ≠ ['\n'] → ∀ input, ∃ items : List String,
      e.GoesThrough argument body input items ∧
      IsSplit (lower (Loop.separatorOf argument)) input.toList (items.map String.toList) ∧
      join (lower (Loop.separatorOf argument)) (items.map String.toList) = input.toList) ∧
    ((∀ input : String, IsSplit (Loop.separatorOf argument) input.toList
        ((Loop.itemsOf input (Loop.strategyName argument)).map String.toList)) ↔
      lower (Loop.separatorOf argument) = Loop.separatorOf argument ∧
        Loop.separatorOf argument ≠ ['\n']) := by
  constructor
  · intro hbreak input
    have hsplit := Loop.isSplit_itemsOf h hbreak input
    exact ⟨_, e.goesThrough_itemsOf argument body input, hsplit, hsplit.join_eq (lower_ne_nil h.1)⟩
  · exact Loop.isSplit_itemsOf_iff h

/-- The run of a loop over a value that gives the items back. -/
def loopOver (argument input : String) : Schedule Unit :=
  .start { surroundings := () } (runStage ⟨{}, 0, 0, .constant 0⟩ (.forEach argument [[]]) input)

/-- **Two calls** are made, for the pieces before and behind the semicolon. -/
theorem forEach_semicolon : ∃ ms s, Course false (.of (loopOver " ; " "a;b")) ms (.of s) ∧
    ∃ (line : LogLine) (u v : Visit Unit) (rest : List (Deed Unit)),
      Moment.deedsOf 0 ms = .change (.log line) :: (Visit.trace [u, v] ++ rest) ∧
      u.outcome = .ok "a" ∧ v.outcome = .ok "b" := by
  obtain ⟨ms, hcourse⟩ := Course.exists_round false (loopOver " ; " "a;b")
  have hend : (((loopOver " ; " "a;b").round false).outcome? 0).map Except.toOption =
      some (some (Loop.report [⟨0, "a", .ok "a"⟩, ⟨1, "b", .ok "b"⟩])) := by
    decide +kernel
  generalize (loopOver " ; " "a;b").round false = s at hcourse hend
  obtain ⟨o, ho, hvalue⟩ := Option.map_eq_some_iff.mp hend
  have hgives : Loop.GivesSeparator " ; " := by decide
  obtain ⟨hitems, -⟩ := forEach_separator (σ := Unit) ⟨{}, 0, 0, .constant 0⟩ [[]] hgives
  obtain ⟨items, hgoes, hsplit, -⟩ := hitems (by decide) "a;b"
  obtain rfl : items = ["a", "b"] := by
    have hpieces : _ = (items.map String.toList).map String.ofList :=
      congrArg _ (hsplit.eq_splitOn (by decide))
    rw [List.map_map, String.ofList_comp_toList, List.map_id] at hpieces
    rw [← hpieces]
    decide
  obtain ⟨line, calls, rest, htrace, hcalls, hends⟩ :=
    hgoes _ _ (hcourse.goes World.receding_true ho trivial)
  cases hends with
  | finished hcount _ h =>
    obtain ⟨u, v, rfl⟩ := List.length_eq_two.mp hcount
    refine ⟨ms, s, hcourse, line, u, v, rest, htrace, ?_, ?_⟩
    · obtain ⟨item, hitem, hmay⟩ := hcalls 0 u rfl
      obtain rfl := Option.some.inj hitem
      exact (Process.Goes.eq_of_done hmay).2
    · obtain ⟨item, hitem, hmay⟩ := hcalls 1 v rfl
      obtain rfl := Option.some.inj hitem
      exact (Process.Goes.eq_of_done hmay).2
  | stopped => cases hvalue
  | within => cases hvalue

/-- A separator in upper case is not found where it stands: there is one item, not two. And a line break
does not separate an empty piece. -/
theorem forEach_loses_separators :
    (Loop.GivesSeparator "X" ∧ Loop.separatorOf "X" = ['X'] ∧
      IsSplit ['X'] "aXb".toList [['a'], ['b']] ∧
      (((loopOver "X" "aXb").round false).outcome? 0).map Except.toOption =
        some (some (Loop.report [⟨0, "aXb", .ok "aXb"⟩]))) ∧
    (Loop.GivesSeparator "'\n'" ∧ Loop.separatorOf "'\n'" = ['\n'] ∧
      IsSplit ['\n'] "a\n\nb".toList [['a'], [], ['b']] ∧
      (((loopOver "'\n'" "a\n\nb").round false).outcome? 0).map Except.toOption =
        some (some (Loop.report [⟨0, "a", .ok "a"⟩, ⟨1, "b", .ok "b"⟩]))) := by
  have hX : splitOn ['X'] "aXb".toList = [['a'], ['b']] := by decide
  have hbreak : splitOn ['\n'] "a\n\nb".toList = [['a'], [], ['b']] := by decide
  constructor
  · exact ⟨by decide, by decide, (isSplit_iff (by decide)).mpr hX, by decide +kernel⟩
  · exact ⟨by decide, by decide, (isSplit_iff (by decide)).mpr hbreak, by decide +kernel⟩

end Engine

end PipeScript
