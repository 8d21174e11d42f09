import PipeScript.Syntax.Parser

/-!
# The grammar of scripts

Which rows of tokens are scripts, and which program each of them is, told apart from how a script is
read:

    program   : statement+
    statement : stage ("->" stage)*
    stage     : WORD [QUOTED [QUOTED]]
              | PARALLEL "{" statement+ "}"
              | IF QUOTED "{" statement+ "}"
              | FOREACH [QUOTED] "{" statement+ "}"

## The model

A `Tree` is a derivation of a stage: the production that was used, the spellings of its terminals,
and the derivations of the statements in it. A derivation of a program (`Derivation`) is a non-empty
list of statements whose trees keep the counts that the productions ask for. It yields a row of
tokens (`Derivation.tokens`), and it means a program (`Derivation.program`).

Main results: a stage's tokens start with a token that can open a stage and with no other
(`tokens_eq_cons`), and a row of tokens has at most one derivation (`Derivation.tokens_injective`).
-/

namespace PipeScript.Syntax

/-- A derivation of a stage. -/
inductive Tree
  | command (name : List Char) (arguments : List (List Char))
  | parallel (keyword : List Char) (branches : List (List Tree))
  | guarded (keyword condition : List Char) (body : List (List Tree))
  | forEach (keyword : List Char) (strategy : Option (List Char)) (body : List (List Tree))

namespace Tree

/-- A block between its braces. -/
def braced (ts : List Token) : List Token := .openBrace :: (ts ++ [.closeBrace])

mutual

/-- The tokens that a stage's derivation yields. -/
def tokens : Tree → List Token
  | .command name arguments => .word name :: arguments.map .quoted
  | .parallel keyword branches => .keyword .parallel keyword :: braced (blockTokens branches)
  | .guarded keyword condition body =>
    .keyword .guard keyword :: .quoted condition :: braced (blockTokens body)
  | .forEach keyword strategy body =>
    .keyword .forEach keyword :: (strategy.toList.map .quoted ++ braced (blockTokens body))

/-- The tokens of the stages after the first one of a statement, each with the arrow before it. -/
def linkTokens : List Tree → List Token
  | [] => []
  | t :: rest => .arrow :: (tokens t ++ linkTokens rest)

/-- The tokens of a statement. -/
def chainTokens : List Tree → List Token
  | [] => []
  | t :: rest => tokens t ++ linkTokens rest

/-- The tokens of statements, which nothing separates. -/
def blockTokens : List (List Tree) → List Token
  | [] => []
  | chain :: rest => chainTokens chain ++ blockTokens rest

end

mutual

/-- The stage that a derivation means: names are put in lower case, strings lose their marks, and
what is left out is empty, or `line` for a strategy. -/
def stage : Tree → Stage
  | .command name arguments =>
    .command (String.ofList (Text.lower name)) ((arguments.map unquote).getD 0 "")
      ((arguments.map unquote).getD 1 "")
  | .parallel _ branches => .parallel (block branches)
  | .guarded _ condition body => .guarded (unquote condition) (block body)
  | .forEach _ strategy body =>
    .forEach ((strategy.map unquote).getD "line") (block body)

/-- The stages of a statement. -/
def chain : List Tree → List Stage
  | [] => []
  | t :: rest => stage t :: chain rest

/-- The statements of a block. -/
def block : List (List Tree) → Block
  | [] => []
  | ts :: rest => chain ts :: block rest

end

mutual

/-- Does the tree keep the counts of its productions: at most two arguments, and no empty block? -/
def Proper : Tree → Prop
  | .command _ arguments => arguments.length ≤ 2
  | .parallel _ branches => branches ≠ [] ∧ BlockProper branches
  | .guarded _ _ body => body ≠ [] ∧ BlockProper body
  | .forEach _ _ body => body ≠ [] ∧ BlockProper body

/-- Is every stage of a statement proper? -/
def ChainProper : List Tree → Prop
  | [] => True
  | t :: rest => Proper t ∧ ChainProper rest

/-- Is every statement a non-empty chain of proper stages? -/
def BlockProper : List (List Tree) → Prop
  | [] => True
  | ts :: rest => (ts ≠ [] ∧ ChainProper ts) ∧ BlockProper rest

end

end Tree

/-- A derivation of a program. -/
structure Derivation where
  statements : List (List Tree)
  nonempty : statements ≠ []
  proper : Tree.BlockProper statements

namespace Derivation

/-- The tokens that a derivation yields. -/
def tokens (d : Derivation) : List Token := Tree.blockTokens d.statements

/-- The program that a derivation means. -/
def program (d : Derivation) : Program := ⟨Tree.block d.statements⟩

end Derivation

/-! ### What a stage starts with -/

/-- Can the token open a stage? -/
def Opens (a : Token) : Prop := (Reading.opening? a).isSome

theorem not_opens_arrow : ¬ Opens .arrow := by simp [Opens, Reading.opening?]

theorem not_opens_closeBrace : ¬ Opens .closeBrace := by simp [Opens, Reading.opening?]

theorem not_opens_quoted (s : List Char) : ¬ Opens (.quoted s) := by simp [Opens, Reading.opening?]

/-- Do the tokens start, if at all, with the end of a block? -/
def EndsBlock (ts : List Token) : Prop := ∀ a ∈ ts.head?, a = .closeBrace

/-- Do the tokens start, if at all, with one that may follow a whole statement? -/
def EndsStatement (ts : List Token) : Prop := ∀ a ∈ ts.head?, a = .closeBrace ∨ Opens a

/-- Do the tokens start, if at all, with one that may follow a whole stage? -/
def EndsStage (ts : List Token) : Prop := ∀ a ∈ ts.head?, a = .arrow ∨ a = .closeBrace ∨ Opens a

theorem endsBlock_closeBrace (ts : List Token) : EndsBlock (.closeBrace :: ts) := by
  rintro a ⟨⟩
  rfl

theorem EndsBlock.endsStatement {ts : List Token} (h : EndsBlock ts) : EndsStatement ts :=
  fun a ha => .inl (h a ha)

theorem EndsStatement.endsStage {ts : List Token} (h : EndsStatement ts) : EndsStage ts :=
  fun a ha => .inr (h a ha)

theorem EndsStage.not_quoted {s : List Char} {ts : List Token} :
    ¬ EndsStage (.quoted s :: ts) := by
  intro h
  rcases h _ rfl with h | h | h
  · cases h
  · cases h
  · exact not_opens_quoted s h

namespace Tree

/-- A stage's tokens start with a token that can open a stage. -/
theorem tokens_eq_cons (t : Tree) : ∃ a ts, t.tokens = a :: ts ∧ Opens a := by
  cases t with
  | command name arguments => exact ⟨_, _, tokens.eq_1 .., rfl⟩
  | parallel keyword branches => exact ⟨_, _, tokens.eq_2 .., rfl⟩
  | guarded keyword condition body => exact ⟨_, _, tokens.eq_3 .., rfl⟩
  | forEach keyword strategy body => exact ⟨_, _, tokens.eq_4 .., rfl⟩

theorem endsStatement_blockTokens {body : List (List Tree)} (h : BlockProper body)
    {ts : List Token} (hts : EndsStatement ts) : EndsStatement (blockTokens body ++ ts) := by
  cases body with
  | nil => exact hts
  | cons chain rest =>
    obtain ⟨⟨hne, -⟩, -⟩ := h
    obtain ⟨t, links, rfl⟩ := List.exists_cons_of_ne_nil hne
    obtain ⟨a, as, ha, hopens⟩ := t.tokens_eq_cons
    simp only [blockTokens, chainTokens, ha]
    rintro b ⟨⟩
    exact .inr hopens

theorem endsStage_linkTokens (links : List Tree) {ts : List Token} (hts : EndsStatement ts) :
    EndsStage (linkTokens links ++ ts) := by
  cases links with
  | nil => exact hts.endsStage
  | cons t rest =>
    simp only [linkTokens]
    rintro b ⟨⟩
    exact .inl rfl

/-! ### One derivation for a row of tokens -/

/-- Where two rows of strings are followed by tokens that are none, both parts agree. -/
theorem quoted_cancel {as bs : List (List Char)} {r s : List Token} (hr : EndsStage r)
    (hs : EndsStage s) (h : as.map Token.quoted ++ r = bs.map Token.quoted ++ s) :
    as = bs ∧ r = s := by
  induction as generalizing bs with
  | nil =>
    cases bs with
    | nil => exact ⟨rfl, h⟩
    | cons b bs =>
      simp only [List.map_nil, List.nil_append, List.map_cons, List.cons_append] at h
      exact absurd (h ▸ hr) EndsStage.not_quoted
  | cons a as ih =>
    cases bs with
    | nil =>
      simp only [List.map_nil, List.nil_append, List.map_cons, List.cons_append] at h
      exact absurd (h ▸ hs) EndsStage.not_quoted
    | cons b bs =>
      simp only [List.map_cons, List.cons_append, List.cons.injEq, Token.quoted.injEq] at h
      obtain ⟨rfl, h⟩ := h
      obtain ⟨rfl, rfl⟩ := ih h
      exact ⟨rfl, rfl⟩

mutual

/-- Where two stages are followed by tokens that may follow a stage, both parts agree. -/
theorem tokens_cancel : ∀ {t u : Tree} {r s : List Token}, Proper t → Proper u → EndsStage r →
    EndsStage s → t.tokens ++ r = u.tokens ++ s → t = u ∧ r = s
  | .command name as, u, r, s, _, _, hr, hs, h => by
    cases u with
    | command name' bs =>
      simp only [tokens, List.cons_append, List.cons.injEq, Token.word.injEq] at h
      obtain ⟨rfl, h⟩ := h
      obtain ⟨rfl, rfl⟩ := quoted_cancel hr hs h
      exact ⟨rfl, rfl⟩
    | _ => simp [tokens] at h
  | .parallel k as, u, r, s, ht, hu, _, _, h => by
    cases u with
    | parallel k' bs =>
      simp only [tokens, List.cons_append, List.cons.injEq, Token.keyword.injEq, true_and] at h
      obtain ⟨rfl, h⟩ := h
      obtain ⟨rfl, rfl⟩ := braced_cancel ht.2 hu.2 h
      exact ⟨rfl, rfl⟩
    | _ => simp [tokens] at h
  | .guarded k c as, u, r, s, ht, hu, _, _, h => by
    cases u with
    | guarded k' c' bs =>
      simp only [tokens, List.cons_append, List.cons.injEq, Token.keyword.injEq,
        Token.quoted.injEq, true_and] at h
      obtain ⟨rfl, rfl, h⟩ := h
      obtain ⟨rfl, rfl⟩ := braced_cancel ht.2 hu.2 h
      exact ⟨rfl, rfl⟩
    | _ => simp [tokens] at h
  | .forEach k o as, u, r, s, ht, hu, _, _, h => by
    cases u with
    | forEach k' o' bs =>
      simp only [tokens, List.cons_append, List.append_assoc, List.cons.injEq,
        Token.keyword.injEq, true_and] at h
      obtain ⟨rfl, h⟩ := h
      obtain rfl : o = o' := by
        cases o <;> cases o' <;> simp_all [braced]
      obtain ⟨rfl, rfl⟩ := braced_cancel ht.2 hu.2 (List.append_cancel_left h)
      exact ⟨rfl, rfl⟩
    | _ => simp [tokens] at h

theorem linkTokens_cancel : ∀ {ts us : List Tree} {r s : List Token}, ChainProper ts →
    ChainProper us → EndsStatement r → EndsStatement s →
    linkTokens ts ++ r = linkTokens us ++ s → ts = us ∧ r = s
  | [], [], _, _, _, _, _, _, h => ⟨rfl, h⟩
  | [], _ :: _, _, _, _, _, hr, _, h => by
    simp only [linkTokens, List.nil_append, List.cons_append] at h
    rcases hr .arrow (by rw [h]; rfl) with h | h
    · cases h
    · exact absurd h not_opens_arrow
  | _ :: _, [], _, _, _, _, _, hs, h => by
    simp only [linkTokens, List.nil_append, List.cons_append] at h
    rcases hs .arrow (by rw [← h]; rfl) with h | h
    · cases h
    · exact absurd h not_opens_arrow
  | t :: ts, u :: us, r, s, ht, hu, hr, hs, h => by
    simp only [linkTokens, List.cons_append, List.append_assoc, List.cons.injEq, true_and] at h
    obtain ⟨rfl, h'⟩ := tokens_cancel ht.1 hu.1 (endsStage_linkTokens ts hr)
      (endsStage_linkTokens us hs) h
    obtain ⟨rfl, rfl⟩ := linkTokens_cancel ht.2 hu.2 hr hs h'
    exact ⟨rfl, rfl⟩

theorem blockTokens_cancel : ∀ {as bs : List (List Tree)} {r s : List Token}, BlockProper as →
    BlockProper bs → EndsBlock r → EndsBlock s →
    blockTokens as ++ r = blockTokens bs ++ s → as = bs ∧ r = s
  | [], [], _, _, _, _, _, _, h => ⟨rfl, h⟩
  | [], (u :: us) :: _, _, _, _, _, hr, _, h => by
    obtain ⟨a, ts, ha, hopens⟩ := u.tokens_eq_cons
    simp only [blockTokens, chainTokens, ha, List.nil_append, List.cons_append] at h
    rw [hr a (by rw [h]; rfl)] at hopens
    exact absurd hopens not_opens_closeBrace
  | (t :: ts) :: _, [], _, _, _, _, _, hs, h => by
    obtain ⟨a, us, ha, hopens⟩ := t.tokens_eq_cons
    simp only [blockTokens, chainTokens, ha, List.nil_append, List.cons_append] at h
    rw [hs a (by rw [← h]; rfl)] at hopens
    exact absurd hopens not_opens_closeBrace
  | [] :: _, _, _, _, ha, _, _, _, _ => absurd rfl ha.1.1
  | _, [] :: _, _, _, _, hb, _, _, _ => absurd rfl hb.1.1
  | (t :: ts) :: as, (u :: us) :: bs, r, s, ha, hb, hr, hs, h => by
    have hr' := endsStatement_blockTokens ha.2 hr.endsStatement
    have hs' := endsStatement_blockTokens hb.2 hs.endsStatement
    simp only [blockTokens, chainTokens, List.append_assoc] at h
    obtain ⟨rfl, h₁⟩ := tokens_cancel ha.1.2.1 hb.1.2.1 (endsStage_linkTokens ts hr')
      (endsStage_linkTokens us hs') h
    obtain ⟨rfl, h₂⟩ := linkTokens_cancel ha.1.2.2 hb.1.2.2 hr' hs' h₁
    obtain ⟨rfl, rfl⟩ := blockTokens_cancel ha.2 hb.2 hr hs h₂
    exact ⟨rfl, rfl⟩

theorem braced_cancel : ∀ {as bs : List (List Tree)} {r s : List Token}, BlockProper as →
    BlockProper bs → braced (blockTokens as) ++ r = braced (blockTokens bs) ++ s →
    as = bs ∧ r = s := by
  intro as bs r s ha hb h
  simp only [braced, List.cons_append, List.append_assoc, List.cons.injEq, true_and] at h
  obtain ⟨rfl, h'⟩ := blockTokens_cancel ha hb (endsBlock_closeBrace _) (endsBlock_closeBrace _) h
  exact ⟨rfl, by simpa using h'⟩

end

end Tree

/-- **The grammar is unambiguous**: a row of tokens has at most one derivation. -/
theorem Derivation.tokens_injective : Function.Injective Derivation.tokens := by
  rintro ⟨as, ha, ha'⟩ ⟨bs, hb, hb'⟩ h
  have h : Tree.blockTokens as ++ [] = Tree.blockTokens bs ++ [] := by simpa [tokens] using h
  obtain ⟨rfl, -⟩ := Tree.blockTokens_cancel ha' hb' (by simp [EndsBlock]) (by simp [EndsBlock]) h
  rfl

end PipeScript.Syntax
