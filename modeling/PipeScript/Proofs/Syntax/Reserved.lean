import PipeScript.Proofs.Syntax.Beginning
import PipeScript.Proofs.Syntax.Printing

/-!
# Names of commands and keywords

What the parser returns has no empty list in it, and its commands are called by names in lower case. A
keyword is such a name at one kind of place only. A keyword ends where no word character follows, and
among these are the letters of all alphabets; but a word is in ASCII, and ends before any other letter.
So the letters of a keyword are read as a word where a letter follows that is not in ASCII, and the text
can go on there if a token starts with that letter: the keyword `if`, whose first letter may be written
`İ` or `ı`.

## The model

`Filled` asks for lists that are not empty. A program is well formed if it is filled and its commands are
called by names (`IsName`) that are no keywords (`Program.wellFormed_iff`). `RunsIntoGuard` is the kind
of place where a keyword becomes a name.

Main results: the commands of a program are called by the words of its text in lower case
(`Derivation.map_action_commands`); behind a word spelled like a keyword stands an `if` that starts with
one of the two letters (`exists_guard_of_leads`); and so a parsed program is well formed exactly if its
text has no such place (`wellFormed_iff_of_parse`).
-/

namespace PipeScript

namespace Stage

/-! ### Two sides of well-formedness -/

mutual

/-- Are the blocks inside the stage not empty, and the chains in them? -/
def Filled : Stage → Prop
  | .command _ _ _ => True
  | .parallel branches => branches ≠ [] ∧ BlockFilled branches
  | .guarded _ body => body ≠ [] ∧ BlockFilled body
  | .forEach _ body => body ≠ [] ∧ BlockFilled body

/-- Is every stage of a chain filled? -/
def ChainFilled : List Stage → Prop
  | [] => True
  | s :: rest => Filled s ∧ ChainFilled rest

/-- Is every statement of a block a non-empty chain of filled stages? -/
def BlockFilled : List (List Stage) → Prop
  | [] => True
  | chain :: rest => (chain ≠ [] ∧ ChainFilled chain) ∧ BlockFilled rest

end

mutual

theorem wellFormed_iff : ∀ s : Stage,
    s.WellFormed ↔ s.Filled ∧ ∀ c ∈ s.commands, IsAction c.action
  | .command action a b => by simp [WellFormed, Filled, commands]
  | .parallel branches => by
    rw [WellFormed, Filled, commands, blockWellFormed_iff branches, and_assoc]
  | .guarded _ body => by
    rw [WellFormed, Filled, commands, blockWellFormed_iff body, and_assoc]
  | .forEach _ body => by
    rw [WellFormed, Filled, commands, blockWellFormed_iff body, and_assoc]

theorem chainWellFormed_iff : ∀ chain : List Stage,
    ChainWellFormed chain ↔ ChainFilled chain ∧ ∀ c ∈ chainCommands chain, IsAction c.action
  | [] => by simp [ChainWellFormed, ChainFilled, chainCommands]
  | s :: rest => by
    rw [ChainWellFormed, ChainFilled, chainCommands, List.forall_mem_append, wellFormed_iff s,
      chainWellFormed_iff rest, and_and_and_comm]

theorem blockWellFormed_iff : ∀ block : List (List Stage),
    BlockWellFormed block ↔ BlockFilled block ∧ ∀ c ∈ blockCommands block, IsAction c.action
  | [] => by simp [BlockWellFormed, BlockFilled, blockCommands]
  | chain :: rest => by
    rw [BlockWellFormed, BlockFilled, blockCommands, List.forall_mem_append,
      chainWellFormed_iff chain, blockWellFormed_iff rest, ← and_assoc (a := chain ≠ []),
      and_and_and_comm]

end

end Stage

/-- Is the program not empty, and every list in it? -/
def Program.Filled (p : Program) : Prop := p.statements ≠ [] ∧ Stage.BlockFilled p.statements

/-- **A program is well formed** if it is filled and its commands are called by names that are no
keywords. -/
theorem Program.wellFormed_iff (p : Program) :
    p.WellFormed ↔ p.Filled ∧ ∀ c ∈ p.commands, Stage.IsAction c.action := by
  rw [WellFormed, Filled, commands, Stage.blockWellFormed_iff, and_assoc]

namespace Syntax

/-! ### What a derivation means is filled -/

theorem Tree.chain_ne_nil {ts : List Tree} (h : ts ≠ []) : Tree.chain ts ≠ [] := by
  cases ts with
  | nil => exact absurd rfl h
  | cons t ts => simp [Tree.chain]

theorem Tree.block_ne_nil {body : List (List Tree)} (h : body ≠ []) : Tree.block body ≠ [] := by
  cases body with
  | nil => exact absurd rfl h
  | cons ts body => simp [Tree.block]

mutual

theorem Tree.filled_stage : ∀ t : Tree, t.Proper → t.stage.Filled
  | .command _ _, _ => trivial
  | .parallel _ branches, h => ⟨block_ne_nil h.1, blockFilled_block branches h.2⟩
  | .guarded _ _ body, h => ⟨block_ne_nil h.1, blockFilled_block body h.2⟩
  | .forEach _ _ body, h => ⟨block_ne_nil h.1, blockFilled_block body h.2⟩

theorem Tree.chainFilled_chain : ∀ ts : List Tree, ChainProper ts →
    Stage.ChainFilled (chain ts)
  | [], _ => trivial
  | t :: rest, h => ⟨filled_stage t h.1, chainFilled_chain rest h.2⟩

theorem Tree.blockFilled_block : ∀ body : List (List Tree), BlockProper body →
    Stage.BlockFilled (block body)
  | [], _ => trivial
  | ts :: rest, h =>
    ⟨⟨chain_ne_nil h.1.1, chainFilled_chain ts h.1.2⟩, blockFilled_block rest h.2⟩

end

theorem Derivation.filled (d : Derivation) : d.program.Filled :=
  ⟨Tree.block_ne_nil d.nonempty, Tree.blockFilled_block d.statements d.proper⟩

/-! ### Commands are called by the words of the text -/

/-- The name of the command that the token calls, if it is a word. -/
def Token.action? : Token → Option String
  | word t => some (String.ofList (Text.lower t))
  | _ => none

/-- The names that the words among the tokens are, in order. -/
def actions (ts : List Token) : List String := ts.filterMap Token.action?

theorem actions_append (ts us : List Token) : actions (ts ++ us) = actions ts ++ actions us :=
  List.filterMap_append

theorem actions_word (t : List Char) (ts : List Token) :
    actions (.word t :: ts) = String.ofList (Text.lower t) :: actions ts :=
  List.filterMap_cons_some rfl

/-- Only words call commands. -/
theorem actions_cons {t : Token} (ts : List Token) (h : t.action? = none) :
    actions (t :: ts) = actions ts :=
  List.filterMap_cons_none h

theorem actions_quoted (as : List (List Char)) : actions (as.map .quoted) = [] := by
  induction as with
  | nil => rfl
  | cons a as ih => exact (actions_cons _ rfl).trans ih

theorem actions_braced (ts : List Token) : actions (Tree.braced ts) = actions ts := by
  rw [Tree.braced, actions_cons _ rfl, actions_append, actions_cons _ rfl]
  exact List.append_nil _

mutual

theorem Tree.map_action_commands : ∀ t : Tree,
    t.stage.commands.map (·.action) = actions t.tokens
  | .command name arguments => by
    rw [stage, Stage.commands, tokens, actions_word, actions_quoted]
    rfl
  | .parallel _ branches => by
    rw [stage, Stage.commands, tokens, actions_cons _ rfl, actions_braced,
      map_action_blockCommands branches]
  | .guarded _ _ body => by
    rw [stage, Stage.commands, tokens, actions_cons _ rfl, actions_cons _ rfl, actions_braced,
      map_action_blockCommands body]
  | .forEach _ strategy body => by
    rw [stage, Stage.commands, tokens, actions_cons _ rfl, actions_append, actions_quoted,
      List.nil_append, actions_braced, map_action_blockCommands body]

theorem Tree.map_action_linkCommands : ∀ ts : List Tree,
    (Stage.chainCommands (chain ts)).map (·.action) = actions (linkTokens ts)
  | [] => rfl
  | t :: rest => by
    rw [chain, Stage.chainCommands, List.map_append, linkTokens, actions_cons _ rfl,
      actions_append, map_action_commands t, map_action_linkCommands rest]

theorem Tree.map_action_blockCommands : ∀ body : List (List Tree),
    (Stage.blockCommands (block body)).map (·.action) = actions (blockTokens body)
  | [] => rfl
  | [] :: rest => map_action_blockCommands rest
  | (t :: ts) :: rest => by
    rw [block, chain, Stage.blockCommands, Stage.chainCommands, blockTokens, chainTokens,
      List.map_append, List.map_append, actions_append, actions_append, map_action_commands t,
      map_action_linkCommands ts, map_action_blockCommands rest]

end

/-- **Commands are called by the words of the text**, in their order and in lower case. -/
theorem Derivation.map_action_commands (d : Derivation) :
    d.program.commands.map (·.action) = actions d.tokens :=
  Tree.map_action_blockCommands d.statements

theorem Derivation.exists_command_iff (d : Derivation) (action : String) :
    (∃ c ∈ d.program.commands, c.action = action) ↔
      ∃ t, .word t ∈ d.tokens ∧ String.ofList (Text.lower t) = action := by
  rw [← List.mem_map, d.map_action_commands, actions, List.mem_filterMap]
  constructor
  · rintro ⟨t, ht, haction⟩
    cases t with
    | word t => exact ⟨t, ht, Option.some.inj haction⟩
    | _ => cases haction
  · rintro ⟨t, ht, rfl⟩
    exact ⟨_, ht, rfl⟩

/-! ### Where a keyword is a name -/

/-- Do the letters of the keyword stand in the text before an `if` that starts with `İ` or `ı`, and
outside all strings and comments? -/
inductive RunsIntoGuard (k : Keyword) : List Char → Prop
  | intro {u name cs rest : List Char} {ts : List Token} {c : Char}
      (hu : CutBefore u ts (name ++ c :: (cs ++ rest))) (hname : WordSpelling name)
      (hk : KeywordSpelling k name) (hc : c = '\u0130' ∨ c = '\u0131')
      (hguard : KeywordSpelling .guard (c :: cs)) (hrest : EndsWord rest) :
      RunsIntoGuard k (u ++ (name ++ c :: (cs ++ rest)))

/-- Before one of the two letters every word ends, and stays a word. -/
theorem leads_word_before_dotted {name rest : List Char} {c : Char} (h : WordSpelling name)
    (hc : c = '\u0130' ∨ c = '\u0131') : Leads (.word name) (c :: rest) := by
  obtain ⟨hword, hpart⟩ : Text.isWord c = true ∧ isWordPart c = false := by
    rcases hc with rfl | rfl <;> exact ⟨rfl, rfl⟩
  have hr : ∀ d ∈ (c :: rest).head?, isWordPart d = false := by
    rintro d ⟨⟩
    exact hpart
  refine .word h hr fun hstart => ?_
  have hend := ((startsWithKeyword_append_iff h hr).mp hstart).2
  rw [hend c rfl] at hword
  cases hword

/-- A character of words that is not in ASCII starts no token but a keyword `if`. -/
theorem Leads.guard_of_isWord {t : Token} {rest cs : List Char} {c : Char} (h : Leads t rest)
    (hs : t.spelling = c :: cs) (hword : Text.isWord c = true) (hpart : isWordPart c = false) :
    (c = '\u0130' ∨ c = '\u0131') ∧ KeywordSpelling .guard (c :: cs) ∧ EndsWord rest := by
  cases h with
  | @keyword k t _ ht hr =>
    obtain rfl : t = c :: cs := hs
    obtain ⟨_, _, heq, hc⟩ := ht.eq_cons
    obtain ⟨rfl, rfl⟩ := List.cons.inj heq
    have hdotted := isWordPart_or_dotted_of_spells (isLower_firstLetter k) hc
    obtain ⟨hi, hd⟩ := hdotted.resolve_left (by simp [hpart])
    cases k with
    | guard => exact ⟨hd, ht, hr⟩
    | parallel => simp [firstLetter] at hi
    | forEach => simp [firstLetter] at hi
  | @word t _ ht _ _ =>
    obtain rfl : t = c :: cs := hs
    rw [ht.isWordPart c (List.mem_cons_self ..)] at hpart
    cases hpart
  | quoted hm _ =>
    obtain ⟨rfl, -⟩ := List.cons.inj hs
    rcases hm with rfl | rfl <;> cases hword
  | arrow =>
    obtain ⟨rfl, -⟩ := List.cons.inj hs
    cases hword
  | openBrace =>
    obtain ⟨rfl, -⟩ := List.cons.inj hs
    cases hword
  | closeBrace =>
    obtain ⟨rfl, -⟩ := List.cons.inj hs
    cases hword

/-- **Behind a word that is spelled like a keyword** an `if` starts with `İ` or `ı`, if the text can be
cut into tokens there. -/
theorem exists_guard_of_leads {t rest : List Char} {k : Keyword} {ts : List Token}
    (h : Leads (.word t) rest) (hk : KeywordSpelling k t) (hrest : Cut rest ts) :
    ∃ c cs rest', rest = c :: (cs ++ rest') ∧ (c = '\u0130' ∨ c = '\u0131') ∧
      KeywordSpelling .guard (c :: cs) ∧ EndsWord rest' := by
  obtain ⟨ht, hr, hno⟩ : WordSpelling t ∧ (∀ c ∈ rest.head?, isWordPart c = false) ∧
      ¬ StartsWithKeyword (t ++ rest) := by
    cases h with
    | word ht hr hno => exact ⟨ht, hr, hno⟩
  have hend : ¬ EndsWord rest := fun hend =>
    hno ((startsWithKeyword_append_iff ht hr).mpr ⟨⟨k, hk⟩, hend⟩)
  -- the end of the text, layout and comments all end a word, so a token follows
  cases hrest with
  | done => simp [EndsWord] at hend
  | layout hc _ => simp [EndsWord, isWord_of_isLayout hc] at hend
  | comment _ _ _ =>
    have hhash : Text.isWord '#' = false := rfl
    simp [EndsWord, hhash] at hend
  | @token t' rest' _ ht' _ =>
    obtain ⟨c, cs, hs, -⟩ := ht'.eq_cons
    rw [hs, List.cons_append] at hend hr ⊢
    have hword : Text.isWord c = true := by simpa [EndsWord] using hend
    obtain ⟨hc, hguard, hrest'⟩ := ht'.guard_of_isWord hs hword (hr c rfl)
    exact ⟨c, cs, rest', rfl, hc, hguard, hrest'⟩

/-- A word spelled like a keyword stands at the places where it runs into an `if`, and nowhere else. -/
theorem Cut.exists_keyword_word_iff {s : List Char} {ts : List Token} (h : Cut s ts) (k : Keyword) :
    (∃ t, .word t ∈ ts ∧ KeywordSpelling k t) ↔ RunsIntoGuard k s := by
  constructor
  · rintro ⟨t, ht, hk⟩
    obtain ⟨us, vs, rfl⟩ := List.append_of_mem ht
    obtain ⟨u, rest, rfl, hu, hlead, hrest⟩ := h.exists_cutBefore
    obtain ⟨c, cs, rest', rfl, hc, hguard, hrest'⟩ := exists_guard_of_leads hlead hk hrest
    cases hlead with
    | word hname _ _ => exact .intro hu hname hk hc hguard hrest'
  · intro hruns
    cases hruns with
    | @intro u name cs rest us c hu hname hk hc _ _ =>
      have hcut : CutBefore name [.word name] (c :: (cs ++ rest)) := by
        simpa [Token.spelling] using CutBefore.token (leads_word_before_dotted hname hc) .done
      rw [← List.append_assoc] at h
      obtain ⟨vs, rfl, -⟩ := (hu.trans hcut).exists_append h
      exact ⟨name, by simp, hk⟩

/-- Words of a text are spelled as words. -/
theorem Cut.wordSpelling {s : List Char} {ts : List Token} (h : Cut s ts) {t : List Char}
    (ht : .word t ∈ ts) : WordSpelling t := by
  obtain ⟨us, vs, rfl⟩ := List.append_of_mem ht
  obtain ⟨u, rest, rfl, -, hlead, -⟩ := h.exists_cutBefore
  cases hlead with
  | word hname _ _ => exact hname

/-- **Keywords are reserved but at one kind of place.** The program that a text parses as has no empty
list in it, its commands are called by names, and a keyword is one of these names exactly where its
letters run into an `if` that starts with `İ` or `ı`. So it is well formed if no keyword does. -/
theorem wellFormed_iff_of_parse {source : String} {p : Program} (h : Program.parse source = .ok p) :
    p.Filled ∧ (∀ c ∈ p.commands, Stage.IsName c.action) ∧
    (∀ k : Keyword, (∃ c ∈ p.commands, c.action = k.spelling) ↔ RunsIntoGuard k source.toList) ∧
    (p.WellFormed ↔ ∀ k, ¬ RunsIntoGuard k source.toList) := by
  obtain ⟨d, hcut, rfl⟩ := parse_iff_exists_derivation.mp h
  have hname : ∀ c ∈ d.program.commands, Stage.IsName c.action := by
    intro c hc
    obtain ⟨t, ht, heq⟩ := (d.exists_command_iff c.action).mp ⟨c, hc, rfl⟩
    rw [← heq]
    exact (hcut.wordSpelling ht).isName
  have hkeyword : ∀ k : Keyword, (∃ c ∈ d.program.commands, c.action = k.spelling) ↔
      RunsIntoGuard k source.toList := by
    intro k
    rw [d.exists_command_iff, ← hcut.exists_keyword_word_iff]
    constructor
    · rintro ⟨t, ht, heq⟩
      exact ⟨t, ht, ((hcut.wordSpelling ht).lower_eq_iff k).mp heq⟩
    · rintro ⟨t, ht, hk⟩
      exact ⟨t, ht, ((hcut.wordSpelling ht).lower_eq_iff k).mpr hk⟩
  refine ⟨d.filled, hname, hkeyword, ?_⟩
  rw [Program.wellFormed_iff]
  constructor
  · rintro ⟨-, haction⟩ k hk
    obtain ⟨c, hc, heq⟩ := (hkeyword k).mpr hk
    exact (haction c hc).2 k heq
  · intro hno
    refine ⟨d.filled, fun c hc => ⟨hname c hc, fun k heq => ?_⟩⟩
    exact hno k ((hkeyword k).mp ⟨c, hc, heq⟩)

/-- A text in which the letters of `if` run into an `if` that starts with `ı`. -/
def guardTwice : String := "if\u0131f 'x' \x7b say \x7d"

/-- What it parses as: the first `if` is a command. -/
def guardAsCommand : Program :=
  ⟨[[.command "if" "" ""], [.guarded "x" [[.command "say" "" ""]]]]⟩

/-- The program is not well formed, because `if` runs into `ıf` in the text. -/
theorem wellFormed_iff_guardTwice :
    Program.parse guardTwice = .ok guardAsCommand ∧ RunsIntoGuard .guard guardTwice.toList ∧
    ¬ guardAsCommand.WellFormed := by
  have hparse : Program.parse guardTwice = .ok guardAsCommand := rfl
  obtain ⟨-, -, hkeyword, hwell⟩ := wellFormed_iff_of_parse hparse
  have hruns : RunsIntoGuard .guard guardTwice.toList :=
    (hkeyword .guard).mp ⟨⟨"if", "", ""⟩, List.mem_cons_self .., rfl⟩
  exact ⟨hparse, hruns, fun h => hwell.mp h .guard hruns⟩

/-- **Not every parsed program is well formed.** -/
theorem not_forall_wellFormed :
    ¬ ∀ (source : String) (p : Program), Program.parse source = .ok p → p.WellFormed := by
  intro hall
  obtain ⟨-, ⟨⟨-, hif, -⟩, -⟩⟩ := hall guardTwice guardAsCommand rfl
  exact hif.2 .guard rfl

end Syntax

end PipeScript
