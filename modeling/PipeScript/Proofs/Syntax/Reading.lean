import PipeScript.Proofs.Syntax.Grammar

/-!
# Reading follows the grammar

The reader takes one token after the other and keeps what they have built. Here a row of tokens is
fed to it (`Reading.feed`), and the two directions between the reader and the grammar are shown:

* `feed_tokens` to `feed_blockTokens`: the tokens of a derivation can all be taken, and they build
  what the derivation means. What a whole stage leaves behind is a reading that `Completes` a chain;
  how it came to do so no longer matters for what may follow (`take_of_completes`).
* `Sketch.step`: the other way round, what the tokens so far have built is always the image of a
  `Sketch`, a derivation that is not finished yet and yields these very tokens.

Together: a row of tokens can be read as a program exactly if it is derived by the grammar
(`feed_start_iff`).
-/

namespace PipeScript.Syntax

namespace Reading

/-- Take the tokens in turn. -/
def feed (r : Reading) : List Token → Option Reading
  | [] => some r
  | a :: rest =>
    match r.take a with
    | .ok r' => feed r' rest
    | .error _ => none

theorem feed_append (r : Reading) (as bs : List Token) :
    r.feed (as ++ bs) = (r.feed as).bind fun r' => r'.feed bs := by
  induction as generalizing r with
  | nil => rfl
  | cons a as ih =>
    simp only [List.cons_append, feed]
    cases r.take a with
    | ok r' => exact ih r'
    | error _ => rfl

/-- The reading stands in the given block and has completed a chain, the last stage first. -/
structure Completes (r : Reading) (frames : List Frame) (statements : List Statement)
    (chain : List Stage) : Prop where
  frames_eq : r.frames = frames
  statements_eq : r.statements = statements
  chain_eq : r.chain? = some chain

/-! ### Derivations can be read -/

variable {frames : List Frame} {statements : List Statement} {chain : List Stage}

/-- After a complete chain, a token other than a string is taken for the chain alone. -/
theorem take_of_completes {r : Reading} (h : r.Completes frames statements chain) {a : Token}
    (ha : EndsStage [a]) : r.take a = r.takeAfter chain a := by
  obtain ⟨rfl, rfl, hc⟩ := h
  obtain ⟨fs, ss, gs, progress⟩ := r
  cases progress with
  | command action arguments =>
    cases a with
    | quoted s => exact absurd ha EndsStage.not_quoted
    | _ => simp_all [take, chain?]
  | closed => simp_all [take, chain?]
  | _ => simp [chain?] at hc

theorem take_arrow {r : Reading} (h : r.Completes frames statements chain) :
    r.take .arrow = .ok ⟨frames, statements, chain, .due⟩ := by
  rw [take_of_completes h (by rintro a ⟨⟩; exact .inl rfl)]
  obtain ⟨rfl, rfl, -⟩ := h
  rfl

theorem take_closeBrace {r : Reading} {f : Frame}
    (h : r.Completes (f :: frames) statements chain) :
    r.take .closeBrace = .ok ⟨frames, f.statements,
      f.opener.close (chain.reverse :: statements).reverse :: f.stages, .closed⟩ := by
  rw [take_of_completes h (by rintro a ⟨⟩; exact .inr (.inl rfl))]
  obtain ⟨hf, rfl, -⟩ := h
  simp [takeAfter, opening?, hf]

/-- A token that opens a stage puts the complete chain among the statements. -/
theorem take_of_opens {r : Reading} (h : r.Completes frames statements chain) {a : Token}
    (ha : Opens a) : r.take a = take ⟨frames, chain.reverse :: statements, [], .due⟩ a := by
  rw [take_of_completes h (by rintro a ⟨⟩; exact .inr (.inr ha))]
  obtain ⟨progress, hp⟩ := Option.isSome_iff_exists.mp ha
  obtain ⟨rfl, rfl, -⟩ := h
  simp [takeAfter, take, hp]

theorem feed_of_opens {r : Reading} (h : r.Completes frames statements chain) (t : Tree)
    (ts : List Token) : r.feed (t.tokens ++ ts) =
      feed ⟨frames, chain.reverse :: statements, [], .due⟩ (t.tokens ++ ts) := by
  obtain ⟨a, as, hta, ha⟩ := t.tokens_eq_cons
  rw [hta, List.cons_append, feed, feed, take_of_opens h ha]

/-- The strings after a command's name become its arguments. -/
theorem feed_arguments (stages : List Stage) (action : String) (given : List String)
    (as : List (List Char)) (h : given.length + as.length ≤ 2) :
    feed ⟨frames, statements, stages, .command action given⟩ (as.map .quoted) =
      some ⟨frames, statements, stages, .command action (given ++ as.map unquote)⟩ := by
  induction as generalizing given with
  | nil => simp [feed]
  | cons a as ih =>
    simp only [List.length_cons] at h
    have hlt : given.length < 2 := by omega
    simp only [List.map_cons, feed, take, hlt, if_true]
    rw [ih _ (by simp; omega)]
    simp

mutual

/-- **A derivation of a stage can be read** where a stage is due, and completes the chain with the
stage that it means. -/
theorem feed_tokens : ∀ {t : Tree}, t.Proper → ∀ (frames : List Frame)
    (statements : List Statement) (stages : List Stage),
    ∃ r, feed ⟨frames, statements, stages, .due⟩ t.tokens = some r ∧
      r.Completes frames statements (t.stage :: stages)
  | .command name as, h, frames, statements, stages => by
    simp only [Tree.tokens, feed, take, opening?]
    rw [feed_arguments _ _ _ _ (by simpa [Tree.Proper] using h)]
    exact ⟨_, rfl, rfl, rfl, rfl⟩
  | .parallel k body, h, frames, statements, stages => by
    simp only [Tree.tokens, feed, take, opening?]
    exact feed_braced h.1 h.2 ⟨frames, statements, stages, _⟩ .parallel rfl
  | .guarded k c body, h, frames, statements, stages => by
    simp only [Tree.tokens, feed, take, opening?]
    exact feed_braced h.1 h.2 ⟨frames, statements, stages, _⟩ (.guard (unquote c)) rfl
  | .forEach k none body, h, frames, statements, stages => by
    simp only [Tree.tokens, feed, take, opening?, Option.toList_none, List.map_nil,
      List.nil_append]
    exact feed_braced h.1 h.2 ⟨frames, statements, stages, _⟩ (.forEach defaultStrategy) rfl
  | .forEach k (some s) body, h, frames, statements, stages => by
    simp only [Tree.tokens, feed, take, opening?, Option.toList_some, List.map_cons, List.map_nil,
      List.cons_append, List.nil_append]
    exact feed_braced h.1 h.2 ⟨frames, statements, stages, _⟩ (.forEach (unquote s)) rfl

theorem feed_linkTokens : ∀ {ts : List Tree}, Tree.ChainProper ts → ∀ {r : Reading}
    {frames : List Frame} {statements : List Statement} {chain : List Stage},
    r.Completes frames statements chain → ∃ r', r.feed (Tree.linkTokens ts) = some r' ∧
      r'.Completes frames statements ((Tree.chain ts).reverse ++ chain)
  | [], _, r, _, _, _, hr => ⟨r, rfl, by simpa [Tree.chain] using hr⟩
  | t :: ts, h, r, frames, statements, chain, hr => by
    simp only [Tree.linkTokens, feed, take_arrow hr]
    obtain ⟨r₁, h₁, hr₁⟩ := feed_tokens h.1 frames statements chain
    obtain ⟨r₂, h₂, hr₂⟩ := feed_linkTokens h.2 hr₁
    refine ⟨r₂, by rw [feed_append, h₁]; exact h₂, ?_⟩
    simpa [Tree.chain] using hr₂

theorem feed_chainTokens : ∀ {ts : List Tree}, ts ≠ [] → Tree.ChainProper ts →
    ∀ (frames : List Frame) (statements : List Statement),
    ∃ r, feed ⟨frames, statements, [], .due⟩ (Tree.chainTokens ts) = some r ∧
      r.Completes frames statements (Tree.chain ts).reverse
  | [], hne, _, _, _ => absurd rfl hne
  | t :: ts, _, h, frames, statements => by
    obtain ⟨r₁, h₁, hr₁⟩ := feed_tokens h.1 frames statements []
    obtain ⟨r₂, h₂, hr₂⟩ := feed_linkTokens h.2 hr₁
    refine ⟨r₂, by rw [Tree.chainTokens, feed_append, h₁]; exact h₂, ?_⟩
    simpa [Tree.chain] using hr₂

/-- Further statements are read after a complete chain. -/
theorem feed_blockTokens : ∀ {body : List (List Tree)}, Tree.BlockProper body → ∀ {r : Reading}
    {frames : List Frame} {statements : List Statement} {chain : List Stage},
    r.Completes frames statements chain → ∃ r' statements' chain',
      r.feed (Tree.blockTokens body) = some r' ∧ r'.Completes frames statements' chain' ∧
      (chain'.reverse :: statements').reverse =
        (chain.reverse :: statements).reverse ++ Tree.block body
  | [], _, r, _, statements, chain, hr =>
    ⟨r, statements, chain, rfl, hr, by simp [Tree.block]⟩
  | [] :: _, h, _, _, _, _, _ => absurd rfl h.1.1
  | (t :: ts) :: rest, h, r, frames, statements, chain, hr => by
    obtain ⟨r₁, h₁, hr₁⟩ := feed_chainTokens h.1.1 h.1.2 frames (chain.reverse :: statements)
    obtain ⟨r₂, ss, c, h₂, hr₂, hb⟩ := feed_blockTokens h.2 hr₁
    refine ⟨r₂, ss, c, ?_, hr₂, by rw [hb]; simp [Tree.block]⟩
    rw [Tree.blockTokens, Tree.chainTokens, List.append_assoc, feed_of_opens hr,
      ← List.append_assoc, ← Tree.chainTokens, feed_append, h₁]
    exact h₂

/-- The statements of a non-empty block are read where a block has just been opened. -/
theorem feed_body : ∀ {body : List (List Tree)}, body ≠ [] → Tree.BlockProper body →
    ∀ (frames : List Frame), ∃ r statements chain,
      feed ⟨frames, [], [], .due⟩ (Tree.blockTokens body) = some r ∧
      r.Completes frames statements chain ∧
      (chain.reverse :: statements).reverse = Tree.block body
  | [], hne, _, _ => absurd rfl hne
  | ts :: rest, _, h, frames => by
    obtain ⟨r₁, h₁, hr₁⟩ := feed_chainTokens h.1.1 h.1.2 frames []
    obtain ⟨r₂, ss, c, h₂, hr₂, hb⟩ := feed_blockTokens h.2 hr₁
    refine ⟨r₂, ss, c, ?_, hr₂, by rw [hb]; simp [Tree.block]⟩
    rw [Tree.blockTokens, feed_append, h₁]
    exact h₂

/-- A block between its braces is read where the block is due, and becomes a stage. -/
theorem feed_braced : ∀ {body : List (List Tree)}, body ≠ [] → Tree.BlockProper body →
    ∀ (r : Reading) (o : Opener), r.take .openBrace = .ok (r.openBlock o) →
    ∃ r', r.feed (Tree.braced (Tree.blockTokens body)) = some r' ∧
      r'.Completes r.frames r.statements (o.close (Tree.block body) :: r.stages) := by
  intro body hne h r o ho
  obtain ⟨r₁, ss, c, h₁, hr₁, hb⟩ := feed_body hne h (⟨o, r.statements, r.stages⟩ :: r.frames)
  simp only [Tree.braced, feed, ho]
  rw [feed_append, openBlock, h₁]
  simp only [Option.bind_some, feed, take_closeBrace hr₁, hb]
  exact ⟨_, rfl, rfl, rfl, rfl⟩

end

/-- The tokens of a derivation are read as the program that it means. -/
theorem feed_derivation (d : Derivation) :
    ∃ r, start.feed d.tokens = some r ∧ r.program? = some d.program := by
  obtain ⟨r, ss, c, h, ⟨hf, hs, hc⟩, hb⟩ := feed_body d.nonempty d.proper []
  refine ⟨r, h, ?_⟩
  simp only [program?, hf, hs, hc, hb]
  rfl

end Reading

/-! ### What has been read is an unfinished derivation -/

/-- A block's tokens before its brace. -/
inductive Header
  | parallel (keyword : List Char)
  | guarded (keyword condition : List Char)
  | forEach (keyword : List Char) (strategy : Option (List Char))

namespace Header

def tokens : Header → List Token
  | parallel k => [.keyword .parallel k]
  | guarded k c => [.keyword .guard k, .quoted c]
  | forEach k s => .keyword .forEach k :: s.toList.map .quoted

def opener : Header → Opener
  | parallel _ => .parallel
  | guarded _ c => .guard (unquote c)
  | forEach _ s => .forEach ((s.map unquote).getD Reading.defaultStrategy)

/-- The derivation of the block with the given statements. -/
def close : Header → List (List Tree) → Tree
  | parallel k, body => .parallel k body
  | guarded k c, body => .guarded k c body
  | forEach k s, body => .forEach k s body

theorem tokens_close (h : Header) (body : List (List Tree)) :
    (h.close body).tokens = h.tokens ++ Tree.braced (Tree.blockTokens body) := by
  cases h <;> simp [close, tokens, Tree.tokens]

theorem stage_close (h : Header) (body : List (List Tree)) :
    (h.close body).stage = h.opener.close (Tree.block body) := by
  cases h <;> simp [close, opener, Tree.stage, Opener.close, Reading.defaultStrategy]

theorem proper_close (h : Header) {body : List (List Tree)} (hne : body ≠ [])
    (hb : Tree.BlockProper body) : (h.close body).Proper := by
  cases h <;> exact ⟨hne, hb⟩

end Header

/-- How far the derivation of the stage at hand has come. -/
inductive Stub
  | due
  | command (name : List Char) (arguments : List (List Char))
  | closed (t : Tree)
  | conditionDue (keyword : List Char)
  | strategyDue (keyword : List Char)
  | blockDue (header : Header)

namespace Stub

def tokens : Stub → List Token
  | due => []
  | command name as => .word name :: as.map .quoted
  | closed t => t.tokens
  | conditionDue k => [.keyword .guard k]
  | strategyDue k => [.keyword .forEach k]
  | blockDue h => h.tokens

def Proper : Stub → Prop
  | command _ as => as.length ≤ 2
  | closed t => t.Proper
  | _ => True

@[simp] theorem tokens_due : due.tokens = [] := rfl

@[simp] theorem tokens_closed (t : Tree) : (closed t).tokens = t.tokens := rfl

end Stub

/-- The derivations of an open block's finished statements, and of the finished stages of its last
statement, each of which an arrow follows. Both lists hold the last element first. -/
structure Level where
  statements : List (List Tree)
  stages : List Tree

namespace Level

/-- Stages with an arrow behind each. -/
def arrowed (ts : List Tree) : List Token := ts.flatMap fun t => t.tokens ++ [.arrow]

def tokens (l : Level) : List Token :=
  Tree.blockTokens l.statements.reverse ++ arrowed l.stages.reverse

structure Proper (l : Level) : Prop where
  statements : Tree.BlockProper l.statements
  stages : Tree.ChainProper l.stages

end Level

/-- An unfinished derivation: the blocks that are open, the innermost one first, what stands in the
innermost one, and the stage at hand. -/
structure Sketch where
  frames : List (Header × Level)
  level : Level
  stub : Stub

namespace Tree

/-- A command's stage is the one that the reader builds of its name and its arguments. -/
theorem stage_command (name : List Char) (as : List (List Char)) :
    (command name as).stage =
      Reading.commandStage (String.ofList (Text.lower name)) (as.map unquote) :=
  stage.eq_1 ..

theorem chain_eq_map (ts : List Tree) : chain ts = ts.map stage := by
  induction ts with
  | nil => rfl
  | cons t ts ih => rw [chain, ih, List.map_cons]

theorem block_eq_map (body : List (List Tree)) : block body = body.map chain := by
  induction body with
  | nil => rfl
  | cons ts rest ih => rw [block, ih, List.map_cons]

theorem blockTokens_append (as bs : List (List Tree)) :
    blockTokens (as ++ bs) = blockTokens as ++ blockTokens bs := by
  induction as with
  | nil => rfl
  | cons ts rest ih => simp only [List.cons_append, blockTokens, ih, List.append_assoc]

theorem chainProper_append {as bs : List Tree} :
    ChainProper (as ++ bs) ↔ ChainProper as ∧ ChainProper bs := by
  induction as with
  | nil => simp [ChainProper]
  | cons t as ih => simp only [List.cons_append, ChainProper, ih, and_assoc]

theorem blockProper_append {as bs : List (List Tree)} :
    BlockProper (as ++ bs) ↔ BlockProper as ∧ BlockProper bs := by
  induction as with
  | nil => simp [BlockProper]
  | cons ts as ih => simp only [List.cons_append, BlockProper, ih, and_assoc]

theorem chainProper_reverse {ts : List Tree} (h : ChainProper ts) : ChainProper ts.reverse := by
  induction ts with
  | nil => exact h
  | cons t ts ih =>
    rw [List.reverse_cons, chainProper_append]
    exact ⟨ih h.2, h.1, trivial⟩

theorem blockProper_reverse {body : List (List Tree)} (h : BlockProper body) :
    BlockProper body.reverse := by
  induction body with
  | nil => exact h
  | cons ts rest ih =>
    rw [List.reverse_cons, blockProper_append]
    exact ⟨ih h.2, h.1, trivial⟩

/-- Stages with arrows behind them and one last stage are a statement. -/
theorem chainTokens_append_singleton (ts : List Tree) (t : Tree) :
    chainTokens (ts ++ [t]) = Level.arrowed ts ++ t.tokens := by
  induction ts with
  | nil => simp [chainTokens, linkTokens, Level.arrowed]
  | cons u us ih =>
    have hlink : linkTokens (us ++ [t]) = .arrow :: chainTokens (us ++ [t]) := by
      cases us <;> rfl
    simp only [List.cons_append, chainTokens, hlink, ih]
    simp [Level.arrowed]

end Tree

namespace Level

/-- The level when its last statement has been finished by a stage. -/
def finish (l : Level) (t : Tree) : Level := ⟨(t :: l.stages).reverse :: l.statements, []⟩

theorem tokens_finish (l : Level) (t : Tree) : (l.finish t).tokens = l.tokens ++ t.tokens := by
  simp only [finish, tokens, List.reverse_cons, Tree.blockTokens_append, List.reverse_nil]
  simp [Tree.blockTokens, Tree.chainTokens_append_singleton, arrowed]

theorem Proper.finish {l : Level} (h : l.Proper) {t : Tree} (ht : t.Proper) :
    (l.finish t).Proper :=
  ⟨⟨⟨by simp, Tree.chainProper_reverse ⟨ht, h.stages⟩⟩, h.statements⟩, trivial⟩

end Level

namespace Sketch

/-- The tokens of the open blocks up to the innermost brace. -/
def framesTokens : List (Header × Level) → List Token
  | [] => []
  | (h, l) :: rest => framesTokens rest ++ (l.tokens ++ (h.tokens ++ [.openBrace]))

/-- The tokens that the unfinished derivation yields. -/
def tokens (s : Sketch) : List Token := framesTokens s.frames ++ (s.level.tokens ++ s.stub.tokens)

def progress : Stub → Progress
  | .due => .due
  | .command name as => .command (String.ofList (Text.lower name)) (as.map unquote)
  | .closed _ => .closed
  | .conditionDue _ => .conditionDue
  | .strategyDue _ => .strategyDue
  | .blockDue h => .blockDue h.opener

/-- The finished stages of the statement at hand. -/
def stages (l : Level) : Stub → List Stage
  | .closed t => t.stage :: l.stages.map Tree.stage
  | _ => l.stages.map Tree.stage

/-- What the reader holds when it has read the unfinished derivation. -/
def reading (s : Sketch) : Reading where
  frames := s.frames.map fun f => ⟨f.1.opener, f.2.statements.map Tree.chain,
    f.2.stages.map Tree.stage⟩
  statements := s.level.statements.map Tree.chain
  stages := stages s.level s.stub
  progress := progress s.stub

structure Proper (s : Sketch) : Prop where
  frames : ∀ f ∈ s.frames, f.2.Proper
  level : s.level.Proper
  stub : s.stub.Proper

/-- Nothing has been derived. -/
def start : Sketch := ⟨[], ⟨[], []⟩, .due⟩

theorem proper_start : start.Proper := ⟨by simp [start], ⟨trivial, trivial⟩, trivial⟩

/-- The derivation of the stage at hand, if it is whole. -/
def whole? : Stub → Option Tree
  | .command name as => some (.command name as)
  | .closed t => some t
  | _ => none

theorem whole_tokens {b : Stub} {t : Tree} (h : whole? b = some t) : b.tokens = t.tokens := by
  cases b <;> simp only [whole?, Option.some.injEq, reduceCtorEq] at h
  · subst h; rfl
  · subst h; rfl

theorem whole_proper {b : Stub} {t : Tree} (h : whole? b = some t) (hb : b.Proper) :
    t.Proper := by
  cases b <;> simp only [whole?, Option.some.injEq, reduceCtorEq] at h
  · subst h; exact hb
  · subst h; exact hb

/-- The sketch after a token that opens a stage, where one is due. -/
theorem step_opens {frames : List (Header × Level)} {l : Level} {a : Token} {p : Progress}
    (hf : ∀ f ∈ frames, f.2.Proper) (hl : l.Proper) (h : Reading.opening? a = some p) :
    ∃ s : Sketch, s.Proper ∧ s.reading = { reading ⟨frames, l, .due⟩ with progress := p } ∧
      s.tokens = tokens ⟨frames, l, .due⟩ ++ [a] := by
  cases a with
  | word w =>
    simp only [Reading.opening?, Option.some.injEq] at h
    exact ⟨⟨frames, l, .command w []⟩, ⟨hf, hl, by simp [Stub.Proper]⟩,
      by simp [reading, progress, stages, h], by simp [tokens, Stub.tokens]⟩
  | keyword k w =>
    cases k <;> simp only [Reading.opening?, Option.some.injEq] at h
    · exact ⟨⟨frames, l, .blockDue (.parallel w)⟩, ⟨hf, hl, trivial⟩,
        by simp [reading, progress, stages, h, Header.opener],
        by simp [tokens, Stub.tokens, Header.tokens]⟩
    · exact ⟨⟨frames, l, .conditionDue w⟩, ⟨hf, hl, trivial⟩,
        by simp [reading, progress, stages, h], by simp [tokens, Stub.tokens]⟩
    · exact ⟨⟨frames, l, .strategyDue w⟩, ⟨hf, hl, trivial⟩,
        by simp [reading, progress, stages, h], by simp [tokens, Stub.tokens]⟩
  | _ => simp [Reading.opening?] at h

/-- The sketch after a token that follows a whole stage. -/
theorem step_after {s : Sketch} (hs : s.Proper) {t : Tree} (ht : whole? s.stub = some t)
    {a : Token} {r : Reading}
    (h : s.reading.takeAfter (t.stage :: s.level.stages.map Tree.stage) a = .ok r) :
    ∃ s' : Sketch, s'.Proper ∧ s'.reading = r ∧ s'.tokens = s.tokens ++ [a] := by
  obtain ⟨frames, l, b⟩ := s
  obtain ⟨hf, hl, hb⟩ := hs
  have htp : t.Proper := whole_proper ht hb
  have hfin := hl.finish htp
  simp only [Reading.takeAfter] at h
  cases ho : Reading.opening? a with
  | some p =>
    obtain ⟨s', hs', hr, hts⟩ := step_opens hf hfin ho
    refine ⟨s', hs', ?_, ?_⟩
    · simp only [ho, Except.ok.injEq] at h
      rw [hr, ← h]
      simp [reading, stages, Level.finish, Tree.chain_eq_map]
    · rw [hts]
      simp [tokens, Level.tokens_finish, whole_tokens ht]
  | none =>
    cases a with
    | closeBrace =>
      simp only [ho, reading] at h
      cases frames with
      | nil => simp at h
      | cons f frames =>
        obtain ⟨header, outer⟩ := f
        simp only [List.map_cons, Except.ok.injEq] at h
        refine ⟨⟨frames, outer, .closed (header.close (l.finish t).statements.reverse)⟩,
          ⟨fun f hmem => hf f (List.mem_cons_of_mem _ hmem), hf _ (List.mem_cons_self ..),
            header.proper_close (by simp [Level.finish])
              (Tree.blockProper_reverse hfin.statements)⟩, ?_, ?_⟩
        · rw [← h]
          simp [reading, stages, progress, Header.stage_close, Tree.block_eq_map,
            Tree.chain_eq_map, Level.finish]
        · have := l.tokens_finish t
          simp only [Level.tokens, Level.finish, List.reverse_nil] at this
          simp only [tokens, Stub.tokens_closed, Header.tokens_close, framesTokens, Tree.braced,
            Level.finish, whole_tokens ht, Level.tokens] at this ⊢
          simp [Level.arrowed] at this ⊢
          simp [this]
    | arrow =>
      simp only [ho, Except.ok.injEq] at h
      refine ⟨⟨frames, ⟨l.statements, t :: l.stages⟩, .due⟩,
        ⟨hf, ⟨hl.statements, ⟨htp, hl.stages⟩⟩, trivial⟩, ?_, ?_⟩
      · rw [← h]
        simp [reading, stages, progress]
      · simp [tokens, Level.tokens, Level.arrowed, whole_tokens ht]
    | _ => simp [ho] at h

/-- The sketch after the brace of a block. -/
theorem step_brace {s : Sketch} (hs : s.Proper) (header : Header)
    (ht : s.stub.tokens = header.tokens) (hw : stages s.level s.stub = s.level.stages.map Tree.stage) :
    ∃ s' : Sketch, s'.Proper ∧ s'.reading = s.reading.openBlock header.opener ∧
      s'.tokens = s.tokens ++ [.openBrace] := by
  obtain ⟨hf, hl, -⟩ := hs
  refine ⟨⟨(header, s.level) :: s.frames, ⟨[], []⟩, .due⟩, ⟨?_, ⟨trivial, trivial⟩, trivial⟩,
    ?_, ?_⟩
  · intro f hmem
    rcases List.mem_cons.mp hmem with rfl | hmem
    · exact hl
    · exact hf f hmem
  · simp only [reading, Reading.openBlock, hw]
    rfl
  · simp [tokens, framesTokens, ht, Level.tokens, Tree.blockTokens, Level.arrowed]

/-- **One token extends the unfinished derivation**: whatever the reader builds by taking it is
the image of a sketch that yields the token too. -/
theorem step {s : Sketch} (hs : s.Proper) {a : Token} {r : Reading}
    (h : s.reading.take a = .ok r) :
    ∃ s' : Sketch, s'.Proper ∧ s'.reading = r ∧ s'.tokens = s.tokens ++ [a] := by
  obtain ⟨frames, l, b⟩ := s
  cases b with
  | due =>
    simp only [Reading.take, reading, progress] at h
    cases ho : Reading.opening? a with
    | none => simp [ho] at h
    | some p =>
      simp only [ho, Except.ok.injEq] at h
      subst h
      exact step_opens hs.frames hs.level ho
  | command name as =>
    cases a with
    | quoted w =>
      simp only [Reading.take, reading, progress, List.length_map] at h
      split at h
      · rename_i hlt
        simp only [Except.ok.injEq] at h
        refine ⟨⟨frames, l, .command name (as ++ [w])⟩, ⟨hs.frames, hs.level, ?_⟩, ?_, ?_⟩
        · simp only [Stub.Proper, List.length_append, List.length_singleton]
          omega
        · rw [← h]
          simp [reading, progress, stages]
        · simp [tokens, Stub.tokens]
      · simp at h
    | _ =>
      simp only [Reading.take, reading, progress, ← Tree.stage_command] at h
      exact step_after hs rfl (by simpa [reading, progress, stages] using h)
  | closed t =>
    exact step_after hs rfl (by simpa [Reading.take, reading, progress, stages] using h)
  | conditionDue k =>
    cases a with
    | quoted w =>
      simp only [Reading.take, reading, progress, Except.ok.injEq] at h
      refine ⟨⟨frames, l, .blockDue (.guarded k w)⟩, ⟨hs.frames, hs.level, trivial⟩, ?_, ?_⟩
      · rw [← h]
        simp [reading, progress, stages, Header.opener]
      · simp [tokens, Stub.tokens, Header.tokens]
    | _ => simp [Reading.take, reading, progress] at h
  | strategyDue k =>
    cases a with
    | quoted w =>
      simp only [Reading.take, reading, progress, Except.ok.injEq] at h
      refine ⟨⟨frames, l, .blockDue (.forEach k (some w))⟩, ⟨hs.frames, hs.level, trivial⟩, ?_, ?_⟩
      · rw [← h]
        simp [reading, progress, stages, Header.opener]
      · simp [tokens, Stub.tokens, Header.tokens]
    | openBrace =>
      simp only [Reading.take, reading, progress, Except.ok.injEq] at h
      rw [← h]
      exact step_brace hs (.forEach k none) rfl rfl
    | _ => simp [Reading.take, reading, progress] at h
  | blockDue header =>
    cases a with
    | openBrace =>
      simp only [Reading.take, reading, progress, Except.ok.injEq] at h
      rw [← h]
      exact step_brace hs header rfl rfl
    | _ => simp [Reading.take, reading, progress] at h

/-- **Whatever has been read is an unfinished derivation** of the tokens that have been taken. -/
theorem exists_of_feed {s : Sketch} (hs : s.Proper) {ts : List Token} {r : Reading}
    (h : s.reading.feed ts = some r) :
    ∃ s' : Sketch, s'.Proper ∧ s'.reading = r ∧ s'.tokens = s.tokens ++ ts := by
  induction ts generalizing s with
  | nil =>
    simp only [Reading.feed, Option.some.injEq] at h
    exact ⟨s, hs, h, by simp⟩
  | cons a ts ih =>
    simp only [Reading.feed] at h
    cases ht : s.reading.take a with
    | error _ => simp [ht] at h
    | ok r₁ =>
      obtain ⟨s₁, hs₁, rfl, hts₁⟩ := step hs ht
      obtain ⟨s₂, hs₂, hr₂, hts₂⟩ := ih hs₁ (by simpa [ht] using h)
      exact ⟨s₂, hs₂, hr₂, by rw [hts₂, hts₁]; simp⟩

/-- A sketch that can end as a program is a derivation of it. -/
theorem derivation_of_program {s : Sketch} (hs : s.Proper) {p : Program}
    (h : s.reading.program? = some p) :
    ∃ d : Derivation, d.tokens = s.tokens ∧ d.program = p := by
  obtain ⟨frames, l, b⟩ := s
  cases frames with
  | cons f frames => simp [Reading.program?, reading] at h
  | nil =>
    cases hw : whole? b with
    | none => cases b <;> simp [whole?, Reading.program?, Reading.chain?, reading, progress] at hw h
    | some t =>
      have hp := hs.level.finish (whole_proper hw hs.stub)
      refine ⟨⟨(l.finish t).statements.reverse, by simp [Level.finish],
        Tree.blockProper_reverse hp.statements⟩, ?_, ?_⟩
      · have := l.tokens_finish t
        simp only [Level.tokens, Level.finish, List.reverse_nil] at this
        simp only [Derivation.tokens, tokens, framesTokens, whole_tokens hw, Level.finish,
          Level.tokens]
        simpa [Level.arrowed] using this
      · have hc : (reading ⟨[], l, b⟩).chain? = some (t.stage :: l.stages.map Tree.stage) := by
          cases b <;> simp only [whole?, Option.some.injEq, reduceCtorEq] at hw
          · subst hw; simp only [Reading.chain?, reading, progress, stages, ← Tree.stage_command]
          · subst hw; simp [Reading.chain?, reading, progress, stages]
        simp only [Reading.program?, hc] at h
        simp only [reading, List.map_nil, Option.some.injEq] at h
        rw [← h]
        simp [Derivation.program, Tree.block_eq_map, Tree.chain_eq_map, Level.finish]

end Sketch

/-- **Reading follows the grammar**: a row of tokens is read as a program exactly if it has a
derivation, which means that program. -/
theorem Reading.feed_start_iff (ts : List Token) (p : Program) :
    (∃ r, start.feed ts = some r ∧ r.program? = some p) ↔
      ∃ d : Derivation, d.tokens = ts ∧ d.program = p := by
  constructor
  · rintro ⟨r, h, hp⟩
    obtain ⟨s, hs, rfl, hts⟩ := Sketch.exists_of_feed Sketch.proper_start h
    obtain ⟨d, hd, hdp⟩ := Sketch.derivation_of_program hs hp
    refine ⟨d, hd.trans (hts.trans ?_), hdp⟩
    simp [Sketch.tokens, Sketch.start, Sketch.framesTokens, Level.tokens, Tree.blockTokens,
      Level.arrowed, Stub.tokens]
  · rintro ⟨d, rfl, rfl⟩
    exact feed_derivation d

end PipeScript.Syntax
