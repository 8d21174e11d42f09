import PipeScript.Proofs.Execution.Programs
import PipeScript.Proofs.Execution.Sequential

/-!
# What programs come to

Every outcome of a run, whatever its commands do, however its tasks take turns and whenever it is
cancelled, comes about in one of the ways that the program allows: each stage has rules of its own, and
a failure that is not caught passes on.

## The model

The rules are relations between a part of a program, its input, and an outcome (`StageComes`,
`ChainComes`, `BlockComes`). A command comes to anything that its work can end with in some worlds
(`Job.Ends`). A loop comes to the report of what it has recorded, and what it has recorded is what its
body has come to (`Loop.Records`).

Main results: the process of each stage, chain and block comes to what the rules say
(`Engine.comes_runStage`, `Engine.comes_runChain`, `Engine.comes_runBlock`), and so does every run of a
program (`Runtime.comes_of_runFor`).
-/

namespace PipeScript

variable {σ : Type}

/-! ### Processes in any world -/

/-- Can the job end with the outcome, in some worlds? -/
def Job.Ends : Job σ → Outcome → Prop
  | finish r, o => r = o
  | look next, o => ∃ w, (next w).Ends o
  | alter _ next, o => next.Ends o
  | cancel next, o => next.Ends o
  | assign _ _ next, o => next.Ends o
  | log _ next, o => next.Ends o
  | wait _ next, o => next.Ends o
  | nap _ _ next, o => ∃ c, (next c).Ends o

namespace Process

/-- Has every outcome of the process the property, whatever happens to the world? -/
def Comes (p : Process σ) (post : Outcome → Prop) : Prop := p.Yields (fun _ => True) post

namespace Comes

variable {p : Process σ} {post post' : Outcome → Prop}

theorem mono (h : p.Comes post) (hpost : ∀ o, post o → post' o) : p.Comes post' :=
  Yields.mono h hpost

theorem andThen {k : Outcome → Process σ} (h : p.Comes post) (hk : ∀ o, post o → (k o).Comes post') :
    (p.andThen k).Comes post' :=
  Yields.andThen h hk

theorem act {e : Effect σ} (h : p.Comes post) : (Process.act e p).Comes post :=
  ⟨fun _ _ => trivial, h⟩

/-- After a look the process may go on if the run has not been cancelled. -/
theorem afterLook {f : Failure} (hf : post (.error f)) (h : p.Comes post) :
    (look fun w => if w.cancelled then fail f else p).Comes post := by
  intro w _
  show (if w.cancelled then fail f else p).Comes post
  split
  · exact hf
  · exact h

theorem sleep {place : String} {seconds : Binary64} {next : Bool → Process σ}
    (h : ∀ c, (next c).Comes post) : (Process.sleep place seconds next).Comes post :=
  .act fun w _ => h w.cancelled

theorem callIn (h : p.Comes post) (style : CallStyle) : (Engine.callIn style p).Comes post :=
  Yields.callIn h style

theorem ofJob (job : Job σ) : (Process.ofJob job).Comes job.Ends := by
  induction job with
  | finish o => exact rfl
  | look next ih => exact fun w _ => mono (ih w) fun o ho => ⟨w, ho⟩
  | alter f next ih => exact .act ih
  | cancel next ih => exact .act ih
  | assign name value next ih => exact .act ih
  | log line next ih => exact .act ih
  | wait seconds next ih => exact ih
  | nap place seconds next ih => exact .sleep fun c => (ih c).mono fun o ho => ⟨c, ho⟩

end Comes

end Process

/-! ### Rules -/

/-- How the attempts of a call can fail: the number of the last one is given, and what a single one can
end with. -/
inductive AttemptsFail (policy : RetryPolicy) (name : String) (draws : Nat → Binary64) (last : Nat)
    (ends : Outcome → Prop) : Failure → Prop
  /-- The run has been cancelled before an attempt, or between two. -/
  | cancelled : AttemptsFail policy name draws last ends (.cancelled (Process.retryPlace name) [])
  /-- An attempt has failed, and not for a passing reason. -/
  | final {f : Failure} (h : ends (.error f)) (hp : isPassing f.message = false) :
      AttemptsFail policy name draws last ends f
  | exhausted {f : Failure} (h : ends (.error f)) (hp : isPassing f.message = true) :
      AttemptsFail policy name draws last ends (.exhausted name last f)
  /-- There is no delay to wait for. -/
  | delay {f : Failure} (number : Nat) (h : policy.delayAfter number (draws number) = .error f) :
      AttemptsFail policy name draws last ends f

/-- What the attempts of a call can come to. -/
def AttemptsCome (policy : RetryPolicy) (name : String) (draws : Nat → Binary64) (last : Nat)
    (ends : Outcome → Prop) : Outcome → Prop
  | .ok value => ends (.ok value)
  | .error f => AttemptsFail policy name draws last ends f

namespace Engine

/-- How a command is called, by its registration. -/
inductive CommandComes (e : Engine σ) (action a b input : String) : Outcome → Prop
  | unknown (h : e.registry.get? action = none) :
      CommandComes e action a b input (.error (.unknownCommand action))
  | value {s : CommandSpec (Collaborator σ)} {v : String} (h : e.registry.get? action = some s)
      (hv : (s.work a b input).Ends (.ok v)) : CommandComes e action a b input (.ok v)
  | failure {s : CommandSpec (Collaborator σ)} {f : Failure} (h : e.registry.get? action = some s)
      (hlocal : s.effectivePolicy = none) (hf : (s.work a b input).Ends (.error f)) :
      CommandComes e action a b input (.error (commandFailure action f))
  | attempts {s : CommandSpec (Collaborator σ)} {policy : RetryPolicy} {f : Failure} {calls : Nat}
      (h : e.registry.get? action = some s) (hremote : s.effectivePolicy = some policy)
      (hf : AttemptsFail policy action (e.draw.share calls) (policy.maxAttempts - 1 + 1)
        (s.work a b input).Ends f) :
      CommandComes e action a b input (.error (commandFailure action f))

end Engine

/-- What a parallel block can come to, by what its branches can come to. -/
inductive ParallelComes (branches : List (Outcome → Prop)) : Outcome → Prop
  | values {values : List String}
      (h : List.Forall₂ (fun branch v => branch (.ok v)) branches values) :
      ParallelComes branches (.ok (Engine.merge values))
  | cancelled {i : Nat} {branch : Outcome → Prop} {f : Failure} (h : branches[i]? = some branch)
      (hf : branch (.error f)) (hc : f.isCancelled = true) : ParallelComes branches (.error f)
  | failure {i : Nat} {branch : Outcome → Prop} {f : Failure} (h : branches[i]? = some branch)
      (hf : branch (.error f)) (hc : f.isCancelled = false) :
      ParallelComes branches (.error (.branch i f))

/-- What a guarded block can come to, by what its body can come to. -/
inductive GuardComes (condition input : String) (body : Outcome → Prop) : Outcome → Prop
  | unreadable {f : ConditionError} (h : Condition.parse condition = .error f) :
      GuardComes condition input body (.error (.condition f))
  | holds {c : Condition} {vars : Variables} {o : Outcome} (h : Condition.parse condition = .ok c)
      (hc : c.evaluate input vars = true) (ho : body o) : GuardComes condition input body o
  | passes {c : Condition} {vars : Variables} (h : Condition.parse condition = .ok c)
      (hc : c.evaluate input vars = false) : GuardComes condition input body (.ok input)

/-- Are these the records of a loop that has run over the items, one after the other, with a body that
can come to what is recorded? A cancellation is not recorded. -/
structure Loop.Records (body : String → Outcome → Prop) (items : List String)
    (results : List (ItemResult Failure)) : Prop where
  same : results.map (·.item) = items
  places : results.map (·.index) = (List.range items.length).map Int.ofNat
  outcomes : ∀ r ∈ results, body r.item r.outcome ∧ NotCancelled r.outcome

/-- What a loop over some items can come to, by what its body can come to. -/
inductive LoopComes (items : List String) (body : String → Outcome → Prop) : Outcome → Prop
  | all {results : List (ItemResult Failure)} (h : Loop.Records body items results) :
      LoopComes items body (.ok (Loop.report results))
  /-- The records up to the cancellation are handed on with it. -/
  | cancelled {done : List String} {results : List (ItemResult Failure)} (place : String)
      (hdone : done <+: items) (h : Loop.Records body done results) :
      LoopComes items body (.error (.cancelled place results))

/-- What something and then something else can come to. -/
inductive FollowComes (first : Outcome → Prop) (next : String → Outcome → Prop) : Outcome → Prop
  | value {v : String} {o : Outcome} (hv : first (.ok v)) (ho : next v o) : FollowComes first next o
  | failure {f : Failure} (hf : first (.error f)) : FollowComes first next (.error f)

namespace Engine

/-- The items that a loop runs over. -/
def loopItems (e : Engine σ) (strategy input : String) : List String :=
  let plan := Loop.Plan.ofArgument strategy e.loopDelay e.loopLimit
  plan.limit (Loop.itemsOf input plan.separator)

mutual

/-- What a stage can come to. -/
def StageComes (e : Engine σ) : Stage → String → Outcome → Prop
  | .command action a b, input => e.CommandComes action a b input
  | .parallel branches, input => ParallelComes (branchesCome e branches input)
  | .guarded condition body, input => GuardComes condition input (BlockComes e body input)
  | .forEach strategy body, input => LoopComes (e.loopItems strategy input) (BlockComes e body)

/-- What a chain can come to: before each stage it may have been cancelled. -/
def ChainComes (e : Engine σ) : List Stage → String → Outcome → Prop
  | [], value => (· = .ok value)
  | s :: rest, value => fun o =>
      o = .error (.cancelled "" []) ∨ FollowComes (StageComes e s value) (ChainComes e rest) o

/-- What a block can come to. -/
def BlockComes (e : Engine σ) : List (List Stage) → String → Outcome → Prop
  | [], value => (· = .ok value)
  | c :: rest, value => FollowComes (ChainComes e c value) (BlockComes e rest)

/-- What the branches of a parallel block can come to. -/
def branchesCome (e : Engine σ) : List (List Stage) → String → List (Outcome → Prop)
  | [], _ => []
  | c :: rest, value => ChainComes e c value :: branchesCome e rest value

end

end Engine

/-! ### The rules hold of every run -/

namespace Process

theorem comes_attemptsFrom (policy : RetryPolicy) (name : String) (draws : Nat → Binary64) {call : Process σ}
    {ends : Outcome → Prop} (hcall : call.Comes ends) (left number : Nat) :
    (attemptsFrom policy name draws (fun _ => call) left number).Comes
      (AttemptsCome policy name draws (number + left) ends) := by
  have hattempt {last : Nat} {again : Failure → Process σ}
      (hagain : ∀ f, ends (.error f) → isPassing f.message = true →
        (again f).Comes (AttemptsCome policy name draws last ends)) :
      (attempt name call again).Comes (AttemptsCome policy name draws last ends) := by
    refine .afterLook .cancelled (hcall.andThen fun o ho => ?_)
    cases o with
    | ok value => exact ho
    | error f =>
      simp only
      split
      · rename_i hp
        exact hagain f ho hp
      · rename_i hp
        exact .final ho (Bool.eq_false_iff.mpr hp)
  induction left generalizing number with
  | zero =>
    rw [attemptsFrom]
    exact hattempt fun f hf hp => .exhausted hf hp
  | succ left ih =>
    rw [attemptsFrom]
    refine hattempt fun f _ _ => ?_
    cases hd : policy.delayAfter number (draws number) with
    | error g => exact .delay number hd
    | ok delay =>
      refine .act (.sleep fun c => ?_)
      cases c with
      | true => exact .cancelled
      | false =>
        rw [Nat.add_comm left 1, ← Nat.add_assoc]
        exact ih (number + 1)

end Process

namespace Loop.Records

variable {body : String → Outcome → Prop} {items : List String} {results : List (ItemResult Failure)}

theorem nil : Records body [] [] := ⟨rfl, rfl, by simp⟩

/-- One more item is recorded. -/
theorem concat (h : Records body items results) {item : String} {o : Outcome} (ho : body item o)
    (hplain : NotCancelled o) :
    Records body (items ++ [item]) (results ++ [⟨items.length, item, o⟩]) where
  same := by simp [h.same]
  places := by simp [h.places, List.range_succ]
  outcomes r hr := by
    rcases List.mem_append.mp hr with hr | hr
    · exact h.outcomes r hr
    · obtain rfl := List.mem_singleton.mp hr
      exact ⟨ho, hplain⟩

end Loop.Records

namespace Process

/-- A loop with some records goes on with the other items. -/
theorem comes_iterateFrom {process : String → Nat → Process σ} {delay : Binary64}
    {next : List (ItemResult Failure) → Process σ} {body : String → Outcome → Prop}
    {all : List String} (hbody : ∀ item i, (process item i).Comes (body item))
    (hnext : ∀ results, Loop.Records body all results → (next results).Comes (LoopComes all body))
    {items done : List String} {results : List (ItemResult Failure)} (hall : done ++ items = all)
    (h : Loop.Records body done results.reverse) :
    (iterateFrom process delay next items done.length results).Comes (LoopComes all body) := by
  induction items generalizing done results with
  | nil =>
    rw [List.append_nil] at hall
    exact hnext _ (hall ▸ h)
  | cons item rest ih =>
    have hprefix : done <+: all := ⟨_, hall⟩
    have hall' : done ++ [item] ++ rest = all := by
      rw [List.append_assoc]
      exact hall
    rw [iterateFrom]
    refine .afterLook (.cancelled _ hprefix h) ((hbody item done.length).andThen fun o ho => ?_)
    have hrecords (hplain : NotCancelled o) : Loop.Records body (done ++ [item])
        (List.reverse (⟨done.length, item, o⟩ :: results)) := by
      rw [List.reverse_cons]
      exact h.concat ho hplain
    -- the next items are run at once, or after a nap that may be cancelled
    have hgoOn (hplain : NotCancelled o) {b : Bool} {k : Bool → Process σ}
        (htrue : k true = fail (.cancelled loopPlace
          (List.reverse (⟨done.length, item, o⟩ :: results))))
        (hfalse : k false = iterateFrom process delay next rest (done.length + 1)
          (⟨done.length, item, o⟩ :: results)) :
        (if b then k false else sleep loopPlace delay k).Comes (LoopComes all body) := by
      have hrest := ih hall' (hrecords hplain)
      rw [List.length_append, List.length_singleton, ← hfalse] at hrest
      split
      · exact hrest
      · refine .sleep fun c => ?_
        cases c with
        | true =>
          rw [htrue]
          exact .cancelled _ ⟨_, hall'⟩ (hrecords hplain)
        | false => exact hrest
    cases o with
    | ok v => exact hgoOn (notCancelled_ok v) rfl rfl
    | error f =>
      cases f with
      | cancelled place rs => exact .cancelled place hprefix h
      | _ =>
        refine .act (hgoOn (fun g hg => ?_) rfl rfl)
        cases hg
        rfl

end Process

namespace Engine

variable (e : Engine σ)

theorem comes_runCommand (action a b input : String) :
    (e.runCommand action a b input).Comes (e.CommandComes action a b input) := by
  rw [runCommand]
  cases hs : e.registry.get? action with
  | none => exact .unknown hs
  | some s =>
    have hcall : (invoke s action a b input).Comes (s.work a b input).Ends :=
      .act (((Process.Comes.ofJob _).callIn s.style).andThen fun _ ho => .act ho)
    refine .act ?_
    cases hpolicy : s.effectivePolicy with
    | none =>
      refine hcall.andThen fun o ho => ?_
      cases o with
      | ok value => exact .act (.value hs ho)
      | error f => exact .failure hs hpolicy ho
    | some policy =>
      intro w _
      refine (Process.comes_attemptsFrom policy action (e.draw.share w.calls.length) hcall _ 1).andThen
        fun o ho => ?_
      rw [Nat.add_comm] at ho
      cases o with
      | ok value => exact .act (.value hs ho)
      | error f => exact .attempts hs hpolicy ho

/-- A parallel block comes to what its branches come to together. -/
theorem comes_runParallel {branches : List (Process σ)} {posts : List (Outcome → Prop)}
    (h : List.Forall₂ Process.Comes branches posts) :
    (runParallel branches).Comes (ParallelComes posts) := by
  have hlen : branches.length = posts.length := h.length_eq
  refine .act (.act ⟨fun i => posts[i], fun i => ?_, fun j hj => ?_⟩)
  · exact (List.forall₂_iff_get.mp h).2 i i.isLt (hlen ▸ i.isLt)
  · have hposts : (List.ofFn fun i : Fin branches.length => posts[i]) = posts := by
      apply List.ext_getElem (by simp [hlen])
      intro i h₁ h₂
      simp
    rw [hposts] at hj
    cases j with
    | ok values => exact .values hj
    | error g =>
      obtain ⟨i, f⟩ := g
      obtain ⟨post, hpost, hf⟩ := hj
      show ParallelComes posts (.error (if f.isCancelled then f else .branch i f))
      split
      · rename_i hc
        exact .cancelled hpost hf hc
      · rename_i hc
        exact .failure hpost hf (Bool.eq_false_iff.mpr hc)

theorem comes_runGuarded (condition input : String) {body : String → Process σ}
    {post : String → Outcome → Prop} (h : ∀ v, (body v).Comes (post v)) :
    (runGuarded condition input body).Comes (GuardComes condition input (post input)) := by
  rw [runGuarded]
  cases hc : Condition.parse condition with
  | error f => exact .unreadable hc
  | ok c =>
    intro w _
    refine Process.Comes.act (.act ?_)
    split
    · rename_i holds
      exact (h input).mono fun o ho => .holds hc holds ho
    · rename_i holds
      exact .passes hc (Bool.eq_false_iff.mpr holds)

theorem comes_runLoop (strategy input : String) {body : String → Process σ}
    {post : String → Outcome → Prop} (h : ∀ v, (body v).Comes (post v)) :
    (e.runLoop strategy input body).Comes (LoopComes (e.loopItems strategy input) post) := by
  have hnext (results : List (ItemResult Failure))
      (hr : Loop.Records post (e.loopItems strategy input) results) :
      (Process.act (.count (.loop results.length)) (Process.ok (Loop.report results)) :
        Process σ).Comes (LoopComes (e.loopItems strategy input) post) := by
    refine .act ?_
    exact LoopComes.all hr
  have hnone : Loop.Records post [] (List.reverse []) := .nil
  exact .act (Process.comes_iterateFrom (fun item _ => h item) hnext (List.nil_append _) hnone)

theorem comes_bind {p : Process σ} {k : String → Process σ} {first : Outcome → Prop}
    {next : String → Outcome → Prop} (hp : p.Comes first) (hk : ∀ v, (k v).Comes (next v)) :
    (p.bind k).Comes (FollowComes first next) := by
  refine hp.andThen fun o ho => ?_
  cases o with
  | ok v => exact (hk v).mono fun _ => .value ho
  | error f => exact .failure ho

mutual

theorem comes_runStage : ∀ (s : Stage) (value : String),
    (e.runStage s value).Comes (e.StageComes s value)
  | .command action a b, value => by
    rw [runStage, StageComes]
    exact e.comes_runCommand action a b value
  | .parallel branches, value => by
    rw [runStage, StageComes]
    exact comes_runParallel (comes_branchProcesses branches value)
  | .guarded condition body, value => by
    rw [runStage, StageComes]
    exact comes_runGuarded condition value (comes_runBlock body)
  | .forEach strategy body, value => by
    rw [runStage, StageComes]
    exact e.comes_runLoop strategy value (comes_runBlock body)

theorem comes_runChain : ∀ (c : List Stage) (value : String),
    (e.runChain c value).Comes (e.ChainComes c value)
  | [], value => by
    rw [runChain, ChainComes]
    exact rfl
  | s :: rest, value => by
    rw [runChain, ChainComes]
    refine .afterLook (.inl rfl) ?_
    exact (comes_bind (comes_runStage s value) (comes_runChain rest)).mono fun o => .inr

theorem comes_runBlock : ∀ (body : List (List Stage)) (value : String),
    (e.runBlock body value).Comes (e.BlockComes body value)
  | [], value => by
    rw [runBlock, BlockComes]
    exact rfl
  | c :: rest, value => by
    rw [runBlock, BlockComes]
    exact comes_bind (comes_runChain c value) (comes_runBlock rest)

theorem comes_branchProcesses : ∀ (branches : List (List Stage)) (value : String),
    List.Forall₂ Process.Comes (e.branchProcesses branches value) (e.branchesCome branches value)
  | [], value => by
    rw [branchProcesses, branchesCome]
    exact .nil
  | c :: rest, value => by
    rw [branchProcesses, branchesCome]
    exact .cons (comes_runChain c value) (comes_branchProcesses rest value)

end

end Engine

namespace Runtime

theorem comes_process (rt : Runtime σ) (p : Program) (linger : Option Binary64) :
    (lingering linger (rt.process p)).Comes (rt.engine.BlockComes p.statements "") := by
  have hp : (rt.process p).Comes (rt.engine.BlockComes p.statements "") := by
    refine (rt.engine.comes_runBlock p.statements "").andThen fun o ho => ?_
    cases o with
    | ok value => exact .act ho
    | error f => exact ho
  cases linger with
  | none => exact hp
  | some seconds => exact hp.andThen fun o ho => ho

/-- **Each outcome of a run** is one that its program comes to, also when it is cancelled at some time
from outside. -/
theorem comes_of_runFor (rt : Runtime σ) {c : Context} {s : σ} {p : Program}
    {linger : Option Binary64} {alarms : Alarms Turn}
    (hbells : ∀ a ∈ alarms.all, ∀ t, a.event ≠ .release t) {rounds : Nat} {o : Outcome} {w : World σ}
    (hrun : Schedule.runFor rt.settings.cancelSiblings rounds (rt.schedule c s p linger alarms) =
      some (o, w)) :
    rt.engine.BlockComes p.statements "" o :=
  (Schedule.outcome_of_runFor (fun _ _ _ => trivial) trivial (rt.comes_process p linger) hbells
    (fun _ _ _ => trivial) hrun).1

end Runtime

end PipeScript
