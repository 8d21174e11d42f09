import PipeScript.Proofs.Syntax.Acceptance
import PipeScript.Proofs.Syntax.Spelling

/-!
# Printing scripts

A program can be written down in many ways: each of its strings in either kind of quotation marks,
what is empty left out or not, and any layout between the tokens. Whichever way is taken, the text
parses as the program.

## The model

`StageWritten`, `ChainWritten` and `BlockWritten` say which tokens write a stage, a chain and a block
down, and `Laid` which texts lay tokens out. A program is `Printed` as a text if some tokens write it
down and the text lays them out.

Main results: a quoted string means the string (`unquote_quote`); tokens laid out with layout between
them are cut back (`cut_of_laid`); and a printed program parses as itself (`parse_printed`).
-/

namespace PipeScript.Syntax

/-! ### Ways to write a program -/

/-- The characters with a backslash before each backslash and each mark. -/
def escape (mark : Char) : List Char → List Char
  | [] => []
  | c :: rest => if c = '\\' ∨ c = mark then '\\' :: c :: escape mark rest else c :: escape mark rest

/-- The characters between two marks. -/
def quote (mark : Char) (s : List Char) : List Char := mark :: (escape mark s ++ [mark])

/-- Is the token the string in quotation marks of either kind? -/
inductive Quotes (s : String) : Token → Prop
  | double : Quotes s (.quoted (quote '"' s.toList))
  | single : Quotes s (.quoted (quote '\'' s.toList))

/-- Do the tokens write down two arguments, the last ones of which may be left out if empty? -/
inductive ArgumentsWritten : String → String → List Token → Prop
  | none : ArgumentsWritten "" "" []
  | one {a : String} {x : Token} (ha : Quotes a x) : ArgumentsWritten a "" [x]
  | both {a b : String} {x y : Token} (ha : Quotes a x) (hb : Quotes b y) :
      ArgumentsWritten a b [x, y]

/-- Do the tokens write down a strategy, which may be left out if it is the default one? -/
inductive StrategyWritten : String → List Token → Prop
  | default : StrategyWritten "line" []
  | named {a : String} {x : Token} (ha : Quotes a x) : StrategyWritten a [x]

/-- The token of a keyword in lower case. -/
def keywordToken (k : Keyword) : Token := .keyword k k.spelling.toList

mutual

/-- Do the tokens write the stage down? -/
inductive StageWritten : Stage → List Token → Prop
  | command {action a b : String} {ts : List Token} (h : ArgumentsWritten a b ts) :
      StageWritten (.command action a b) (.word action.toList :: ts)
  | parallel {branches : Block} {ts : List Token} (h : BlockWritten branches ts) :
      StageWritten (.parallel branches) (keywordToken .parallel :: Tree.braced ts)
  | guarded {condition : String} {x : Token} {body : Block} {ts : List Token}
      (hc : Quotes condition x) (h : BlockWritten body ts) :
      StageWritten (.guarded condition body) (keywordToken .guard :: x :: Tree.braced ts)
  | forEach {strategy : String} {body : Block} {us ts : List Token}
      (hs : StrategyWritten strategy us) (h : BlockWritten body ts) :
      StageWritten (.forEach strategy body) (keywordToken .forEach :: (us ++ Tree.braced ts))

/-- Do the tokens write the chain down, with an arrow between any two stages? -/
inductive ChainWritten : List Stage → List Token → Prop
  | single {s : Stage} {ts : List Token} (h : StageWritten s ts) : ChainWritten [s] ts
  | cons {s : Stage} {chain : List Stage} {ts us : List Token} (h : StageWritten s ts)
      (hc : ChainWritten chain us) : ChainWritten (s :: chain) (ts ++ .arrow :: us)

/-- Do the tokens write the statements down, one after the other? -/
inductive BlockWritten : List (List Stage) → List Token → Prop
  | nil : BlockWritten [] []
  | cons {chain : List Stage} {body : List (List Stage)} {ts us : List Token}
      (h : ChainWritten chain ts) (hb : BlockWritten body us) :
      BlockWritten (chain :: body) (ts ++ us)

end

/-- Do the tokens stand in the text, with layout between any two of them? -/
inductive Laid : List Token → List Char → Prop
  | done : Laid [] []
  | layout {c : Char} {s : List Char} {ts : List Token} (hc : isLayout c = true) :
      Laid ts s → Laid ts (c :: s)
  | token {t : Token} {s : List Char} {ts : List Token} (hs : ∀ c ∈ s.head?, isLayout c = true) :
      Laid ts s → Laid (t :: ts) (t.spelling ++ s)

/-- Is the text a way to write the program down? -/
def Printed (p : Program) (source : String) : Prop :=
  ∃ ts, BlockWritten p.statements ts ∧ Laid ts source.toList

/-! ### Strings -/

/-- **Quoting loses nothing**, whatever the string holds. -/
theorem unescape_escape {mark : Char} (hm : mark = '"' ∨ mark = '\'') (s : List Char) :
    unescape (escape mark s) = s := by
  induction s with
  | nil => rfl
  | cons c s ih =>
    simp only [escape]
    split
    · rename_i hc
      have : c ≠ 'n' ∧ c ≠ 't' ∧ c ≠ 'r' := by
        rcases hc with rfl | rfl
        · decide
        · rcases hm with rfl | rfl <;> decide
      simp [unescape, this, ih]
    · rename_i hc
      rw [not_or] at hc
      rw [unescape.eq_3 _ _ (fun _ _ h _ => hc.1 h), ih]

theorem unquote_quote {mark : Char} (hm : mark = '"' ∨ mark = '\'') (s : String) :
    unquote (quote mark s.toList) = s := by
  simp [unquote, quote, unescape_escape hm]

/-- An escaped string ends at the mark after it and at no earlier place. -/
theorem stringTail_escape {mark : Char} (hm : mark = '"' ∨ mark = '\'') (s : List Char) :
    StringTail mark (escape mark s ++ [mark]) := by
  induction s with
  | nil => exact .close
  | cons c s ih =>
    simp only [escape]
    split
    · rename_i hc
      refine .escape ?_ ih
      rcases hc with rfl | rfl
      · decide
      · rcases hm with rfl | rfl <;> decide
    · rename_i hc
      rw [not_or] at hc
      exact .plain hc.2 hc.1 ih

theorem Quotes.eq_quoted {s : String} {x : Token} (h : Quotes s x) :
    ∃ mark, (mark = '"' ∨ mark = '\'') ∧ x = .quoted (quote mark s.toList) := by
  cases h with
  | double => exact ⟨_, .inl rfl, rfl⟩
  | single => exact ⟨_, .inr rfl, rfl⟩

theorem Quotes.unquote {s : String} {x : Token} (h : Quotes s x) :
    ∃ t, x = .quoted t ∧ Syntax.unquote t = s := by
  obtain ⟨mark, hm, rfl⟩ := h.eq_quoted
  exact ⟨_, rfl, unquote_quote hm s⟩

/-! ### Tokens with layout behind them -/

/-- Does the token lead every text in which layout or nothing follows it? -/
def Separable (t : Token) : Prop :=
  ∀ rest : List Char, (∀ c ∈ rest.head?, isLayout c = true) → Leads t rest

theorem Spelled.separable {t : Token} (h : Spelled t) : Separable t :=
  fun _ hrest => h.leads fun c hc => .inl (hrest c hc)

theorem separable_keyword (k : Keyword) : Separable (keywordToken k) :=
  (Spelled.keyword (keywordSpelling_spelling k)).separable

theorem separable_word {action : String} (h : Stage.IsAction action) :
    Separable (.word action.toList) :=
  (spelled_of_isAction h).separable

theorem Quotes.separable {s : String} {x : Token} (h : Quotes s x) : Separable x := by
  obtain ⟨mark, hm, rfl⟩ := h.eq_quoted
  exact fun rest _ => .quoted hm (stringTail_escape hm _)

theorem separable_braced {ts : List Token} (h : ∀ t ∈ ts, Separable t) :
    ∀ t ∈ Tree.braced ts, Separable t := by
  intro t ht
  simp only [Tree.braced, List.mem_cons, List.mem_append, List.not_mem_nil, or_false] at ht
  rcases ht with rfl | ht | rfl
  · exact fun rest _ => .openBrace
  · exact h t ht
  · exact fun rest _ => .closeBrace

/-- **Layout keeps tokens apart**: tokens laid out in a text are the ones it is cut into. -/
theorem cut_of_laid {ts : List Token} {s : List Char} (h : Laid ts s)
    (hts : ∀ t ∈ ts, Separable t) : Cut s ts := by
  induction h with
  | done => exact .done
  | layout hc _ ih => exact .layout hc (ih hts)
  | token hs _ ih =>
    obtain ⟨ht, hts⟩ := List.forall_mem_cons.mp hts
    exact .token (ht _ hs) (ih hts)

/-! ### What is written down has a derivation -/

theorem ArgumentsWritten.exists_arguments {a b : String} {ts : List Token}
    (h : ArgumentsWritten a b ts) : ∃ as : List (List Char), as.length ≤ 2 ∧
      as.map Token.quoted = ts ∧ (as.map unquote).getD 0 "" = a ∧ (as.map unquote).getD 1 "" = b := by
  cases h with
  | none => exact ⟨[], by simp, rfl, rfl, rfl⟩
  | one ha =>
    obtain ⟨t, rfl, ht⟩ := ha.unquote
    exact ⟨[t], by simp, rfl, ht, rfl⟩
  | both ha hb =>
    obtain ⟨t, rfl, ht⟩ := ha.unquote
    obtain ⟨u, rfl, hu⟩ := hb.unquote
    exact ⟨[t, u], by simp, rfl, ht, hu⟩

theorem StrategyWritten.exists_strategy {strategy : String} {ts : List Token}
    (h : StrategyWritten strategy ts) : ∃ s : Option (List Char),
      s.toList.map Token.quoted = ts ∧ (s.map unquote).getD "line" = strategy := by
  cases h with
  | default => exact ⟨none, rfl, rfl⟩
  | named ha =>
    obtain ⟨t, rfl, ht⟩ := ha.unquote
    exact ⟨some t, rfl, ht⟩

mutual

/-- **What writes a stage down has a derivation** that means the stage. -/
theorem exists_tree_of_written : ∀ {s : Stage} {ts : List Token}, StageWritten s ts →
    s.WellFormed → ∃ t : Tree, t.Proper ∧ t.tokens = ts ∧ t.stage = s
  | .command action a b, _, .command h, hs => by
    obtain ⟨as, hlen, rfl, ha, hb⟩ := h.exists_arguments
    refine ⟨.command action.toList as, hlen, rfl, ?_⟩
    rw [Tree.stage, lower_of_isName hs.1, ha, hb]
  | .parallel branches, _, .parallel h, hs => by
    obtain ⟨body, hne, hp, rfl, hb⟩ := exists_block_of_written h hs.1 hs.2
    exact ⟨.parallel Keyword.parallel.spelling.toList body, ⟨hne, hp⟩, rfl, by rw [Tree.stage, hb]⟩
  | .guarded condition body, _, .guarded hc h, hs => by
    obtain ⟨x, rfl, hx⟩ := hc.unquote
    obtain ⟨body, hne, hp, rfl, hb⟩ := exists_block_of_written h hs.1 hs.2
    exact ⟨.guarded Keyword.guard.spelling.toList x body, ⟨hne, hp⟩, rfl,
      by rw [Tree.stage, hx, hb]⟩
  | .forEach strategy body, _, .forEach hst h, hs => by
    obtain ⟨x, rfl, hx⟩ := hst.exists_strategy
    obtain ⟨body, hne, hp, rfl, hb⟩ := exists_block_of_written h hs.1 hs.2
    exact ⟨.forEach Keyword.forEach.spelling.toList x body, ⟨hne, hp⟩, rfl,
      by rw [Tree.stage, hx, hb]⟩

theorem exists_chain_of_written : ∀ {chain : List Stage} {ts : List Token},
    ChainWritten chain ts → Stage.ChainWellFormed chain → ∃ trees : List Tree, trees ≠ [] ∧
      Tree.ChainProper trees ∧ Tree.chainTokens trees = ts ∧ Tree.chain trees = chain
  | _, _, .single h, hs => by
    obtain ⟨t, hp, rfl, rfl⟩ := exists_tree_of_written h hs.1
    exact ⟨[t], by simp, ⟨hp, trivial⟩, by simp [Tree.chainTokens, Tree.linkTokens], rfl⟩
  | _, _, .cons h hc, hs => by
    obtain ⟨t, hp, rfl, rfl⟩ := exists_tree_of_written h hs.1
    obtain ⟨trees, hne, hps, rfl, rfl⟩ := exists_chain_of_written hc hs.2
    obtain ⟨u, us, rfl⟩ := List.exists_cons_of_ne_nil hne
    exact ⟨t :: u :: us, by simp, ⟨hp, hps⟩, rfl, rfl⟩

theorem exists_block_of_written : ∀ {block : List (List Stage)} {ts : List Token},
    BlockWritten block ts → block ≠ [] → Stage.BlockWellFormed block →
    ∃ body : List (List Tree), body ≠ [] ∧ Tree.BlockProper body ∧
      Tree.blockTokens body = ts ∧ Tree.block body = block
  | _, _, .nil, hne, _ => absurd rfl hne
  | [_], _, .cons h .nil, _, hs => by
    obtain ⟨trees, hne, hp, rfl, rfl⟩ := exists_chain_of_written h hs.1.2
    exact ⟨[trees], by simp, ⟨⟨hne, hp⟩, trivial⟩, by simp [Tree.blockTokens], rfl⟩
  | _ :: _ :: _, _, .cons h hb, _, hs => by
    obtain ⟨trees, hne, hp, rfl, rfl⟩ := exists_chain_of_written h hs.1.2
    obtain ⟨body, -, hps, rfl, hblock⟩ := exists_block_of_written hb (by simp) hs.2
    exact ⟨trees :: body, by simp, ⟨⟨hne, hp⟩, hps⟩, rfl, by rw [Tree.block, hblock]⟩

end

theorem ArgumentsWritten.separable {a b : String} {ts : List Token}
    (h : ArgumentsWritten a b ts) : ∀ t ∈ ts, Separable t := by
  cases h with
  | none => simp
  | one ha => simpa using ha.separable
  | both ha hb => simpa using ⟨ha.separable, hb.separable⟩

theorem StrategyWritten.separable {strategy : String} {ts : List Token}
    (h : StrategyWritten strategy ts) : ∀ t ∈ ts, Separable t := by
  cases h with
  | default => simp
  | named ha => simpa using ha.separable

mutual

/-- Each token that writes a stage down can be told from layout behind it. -/
theorem separable_of_stageWritten : ∀ {s : Stage} {ts : List Token}, StageWritten s ts →
    s.WellFormed → ∀ t ∈ ts, Separable t
  | _, _, .command h, hs =>
    List.forall_mem_cons.mpr ⟨separable_word hs, h.separable⟩
  | _, _, .parallel h, hs =>
    List.forall_mem_cons.mpr
      ⟨separable_keyword _, separable_braced (separable_of_blockWritten h hs.2)⟩
  | _, _, .guarded hc h, hs =>
    List.forall_mem_cons.mpr ⟨separable_keyword _, List.forall_mem_cons.mpr
      ⟨hc.separable, separable_braced (separable_of_blockWritten h hs.2)⟩⟩
  | _, _, .forEach hst h, hs =>
    List.forall_mem_cons.mpr ⟨separable_keyword _, List.forall_mem_append.mpr
      ⟨hst.separable, separable_braced (separable_of_blockWritten h hs.2)⟩⟩

theorem separable_of_chainWritten : ∀ {chain : List Stage} {ts : List Token},
    ChainWritten chain ts → Stage.ChainWellFormed chain → ∀ t ∈ ts, Separable t
  | _, _, .single h, hs => separable_of_stageWritten h hs.1
  | _, _, .cons h hc, hs =>
    List.forall_mem_append.mpr ⟨separable_of_stageWritten h hs.1, List.forall_mem_cons.mpr
      ⟨fun _ _ => .arrow, separable_of_chainWritten hc hs.2⟩⟩

theorem separable_of_blockWritten : ∀ {block : List (List Stage)} {ts : List Token},
    BlockWritten block ts → Stage.BlockWellFormed block → ∀ t ∈ ts, Separable t
  | _, _, .nil, _ => by simp
  | _, _, .cons h hb, hs =>
    List.forall_mem_append.mpr
      ⟨separable_of_chainWritten h hs.1.2, separable_of_blockWritten hb hs.2⟩

end

/-! ### Every program can be written down -/

theorem laid_of_spelling (ts : List Token) : ∃ s, Laid ts s := by
  induction ts with
  | nil => exact ⟨[], .done⟩
  | cons t ts ih =>
    obtain ⟨s, hs⟩ := ih
    refine ⟨t.spelling ++ ' ' :: s, .token ?_ (.layout rfl hs)⟩
    rintro c ⟨⟩
    rfl

mutual

theorem exists_stageWritten : ∀ s : Stage, s.WellFormed → ∃ ts, StageWritten s ts
  | .command action a b, _ => ⟨_, .command (.both .double .double)⟩
  | .parallel branches, h => by
    obtain ⟨ts, hts⟩ := exists_blockWritten branches h.2
    exact ⟨_, .parallel hts⟩
  | .guarded condition body, h => by
    obtain ⟨ts, hts⟩ := exists_blockWritten body h.2
    exact ⟨_, .guarded .double hts⟩
  | .forEach strategy body, h => by
    obtain ⟨ts, hts⟩ := exists_blockWritten body h.2
    exact ⟨_, .forEach (.named .double) hts⟩

theorem exists_chainWritten : ∀ chain : List Stage, chain ≠ [] → Stage.ChainWellFormed chain →
    ∃ ts, ChainWritten chain ts
  | [], h, _ => absurd rfl h
  | [s], _, h => by
    obtain ⟨ts, hts⟩ := exists_stageWritten s h.1
    exact ⟨ts, .single hts⟩
  | s :: s' :: chain, _, h => by
    obtain ⟨ts, hts⟩ := exists_stageWritten s h.1
    obtain ⟨us, hus⟩ := exists_chainWritten (s' :: chain) (by simp) h.2
    exact ⟨_, .cons hts hus⟩

theorem exists_blockWritten : ∀ block : List (List Stage), Stage.BlockWellFormed block →
    ∃ ts, BlockWritten block ts
  | [], _ => ⟨_, .nil⟩
  | chain :: block, h => by
    obtain ⟨ts, hts⟩ := exists_chainWritten chain h.1.1 h.1.2
    obtain ⟨us, hus⟩ := exists_blockWritten block h.2
    exact ⟨_, .cons hts hus⟩

end

theorem exists_printed {p : Program} (hp : p.WellFormed) : ∃ source, Printed p source := by
  obtain ⟨ts, hts⟩ := exists_blockWritten p.statements hp.2
  obtain ⟨s, hs⟩ := laid_of_spelling ts
  exact ⟨String.ofList s, ts, hts, by simpa using hs⟩

/-- **Printing and parsing return the program.** A well-formed program can be printed, and however
its strings are quoted and whatever layout stands between its tokens, what is printed parses as the
program. -/
theorem parse_printed {p : Program} (hp : p.WellFormed) :
    (∃ source, Printed p source) ∧ ∀ source, Printed p source → Program.parse source = .ok p := by
  refine ⟨exists_printed hp, ?_⟩
  rintro source ⟨ts, hw, hl⟩
  obtain ⟨body, hne, hproper, rfl, hblock⟩ := exists_block_of_written hw hp.1 hp.2
  have hcut := cut_of_laid hl (separable_of_blockWritten hw hp.2)
  exact parse_iff_exists_derivation.mpr ⟨⟨body, hne, hproper⟩, hcut, congrArg Program.mk hblock⟩

/-- A block with a command whose string is the sign of a comment. -/
def sayHash : Program := ⟨[[.parallel [[.command "say" "#" ""]]]]⟩

theorem wellFormed_sayHash : sayHash.WellFormed := by
  have hpart : ∀ d ∈ ['a', 'y'], d = '_' ∨ d.isLower = true ∨ d.isDigit = true := by
    intro d hd
    rcases List.mem_cons.mp hd with rfl | hd
    · exact .inr (.inl rfl)
    · obtain rfl := List.mem_singleton.mp hd
      exact .inr (.inl rfl)
  have say : Stage.IsAction "say" :=
    ⟨⟨'s', ['a', 'y'], rfl, by decide, hpart⟩, fun k => by cases k <;> decide⟩
  exact ⟨by simp [sayHash], ⟨by simp, ⟨by simp, ⟨by simp, say, trivial⟩, trivial⟩, trivial⟩,
    trivial⟩

theorem printed_sayHash : Printed sayHash "parallel \x7b say '#'\n\x7d" := by
  have hs : "parallel \x7b say '#'\n\x7d".toList =
      ['p', 'a', 'r', 'a', 'l', 'l', 'e', 'l', ' ', '\x7b', ' ', 's', 'a', 'y', ' ', '\'', '#',
        '\'', '\n', '\x7d'] := rfl
  have hspace (s : List Char) : ∀ c ∈ (' ' :: s).head?, isLayout c = true := by simp [isLayout]
  have hline (s : List Char) : ∀ c ∈ ('\n' :: s).head?, isLayout c = true := by simp [isLayout]
  refine ⟨_, .cons (.single (.parallel (.cons (.single (.command (.one .single))) .nil))) .nil, ?_⟩
  rw [hs]
  refine .token (t := keywordToken .parallel) (hspace _) (.layout rfl ?_)
  refine .token (t := .openBrace) (hspace _) (.layout rfl ?_)
  refine .token (t := .word ['s', 'a', 'y']) (hspace _) (.layout rfl ?_)
  refine .token (t := .quoted ['\'', '#', '\'']) (hline _) (.layout rfl ?_)
  exact .token (t := .closeBrace) (by simp) .done

theorem parse_printed_sayHash : sayHash.WellFormed ∧
    Program.parse "parallel \x7b say '#'\n\x7d" = .ok sayHash :=
  ⟨wellFormed_sayHash, (parse_printed wellFormed_sayHash).2 _ printed_sayHash⟩

end PipeScript.Syntax
