import PipeScript.Proofs.Execution.Evaluation
import PipeScript.Proofs.Execution.Yields

/-!
# Programs come to what they evaluate to

Where commands only answer, and no parallel block has two failures, the process of a program yields
exactly the outcome of the sequential evaluation.

## The model

`Job.Gives` says that a job ends with an outcome, however the world looks meanwhile, and `Performs`
that the commands of a registry are local and give their answers in this way. They may wait, log and
change their surroundings as they like; they neither cancel the run nor set variables.

Main result: the process of a program comes to what the program evaluates to (`Engine.gives_run`).
-/

namespace PipeScript

variable {σ : Type}

/-- Does the job end with the outcome, unless the run is cancelled, and leave the variables alone? -/
def Job.Gives : Job σ → Outcome → Prop
  | finish r, o => r = o
  | look next, o => ∀ w, w.cancelled = false → (next w).Gives o
  | alter _ next, o => next.Gives o
  | cancel _, _ => False
  | assign .., _ => False
  | log _ next, o => next.Gives o
  | wait _ next, o => next.Gives o
  | nap _ _ next, o => (next false).Gives o

/-- Is the outcome no cancellation? -/
def NotCancelled (o : Outcome) : Prop := ∀ f, o = .error f → f.isCancelled = false

/-- Are the commands local, and do they give their answers, none of which is a cancellation? -/
def Registry.Performs (r : Registry (Collaborator σ)) (answers : Answers) : Prop :=
  ∀ action, Option.Rel
    (fun s answer => s.remote = false ∧
      ∀ a b input, (s.work a b input).Gives (answer a b input) ∧ NotCancelled (answer a b input))
    (r.get? action) (answers action)

/-- A command is known or not to both the registry and the answers. -/
theorem Registry.Performs.known {r : Registry (Collaborator σ)} {answers : Answers}
    (h : r.Performs answers) (action : String) :
    r.get? action = none ∧ answers action = none ∨
      ∃ s answer, r.get? action = some s ∧ answers action = some answer ∧ s.remote = false ∧
        ∀ a b input, (s.work a b input).Gives (answer a b input) ∧ NotCancelled (answer a b input) := by
  have hrel := h action
  cases hs : r.get? action with
  | none =>
    rw [hs] at hrel
    cases ha : answers action with
    | none => exact .inl ⟨rfl, rfl⟩
    | some answer =>
      rw [ha] at hrel
      cases hrel
  | some s =>
    rw [hs] at hrel
    cases ha : answers action with
    | none =>
      rw [ha] at hrel
      cases hrel
    | some answer =>
      rw [ha] at hrel
      cases hrel with
      | some hrel => exact .inr ⟨s, answer, rfl, rfl, hrel⟩

/-- Is the run not cancelled, and has it these variables? -/
structure World.Calm (vars : Variables) (w : World σ) : Prop where
  running : w.cancelled = false
  vars_eq : w.vars = vars

/-! ### Evaluation is never cancelled -/

theorem notCancelled_ok (v : String) : NotCancelled (.ok v) := by
  intro f h
  cases h

theorem notCancelled_bind {o : Outcome} {k : String → Outcome} (h : NotCancelled o)
    (hk : ∀ v, NotCancelled (k v)) : NotCancelled (o.bind k) := by
  cases o with
  | ok v => exact hk v
  | error f => exact h

namespace Evaluator

variable (e : Evaluator)

theorem notCancelled_merged (outcomes : List Outcome) : NotCancelled (merged outcomes) := by
  intro f h
  unfold merged at h
  split at h
  · cases h
  · cases h
    rfl

mutual

theorem notCancelled_stage : ∀ (s : Stage) (value : String), NotCancelled (e.stage s value)
  | .command action a b, value => by
    intro f h
    rw [stage] at h
    split at h
    · cases h
      rfl
    · rename_i answer _
      cases ho : answer a b value with
      | ok v =>
        rw [ho] at h
        cases h
      | error g =>
        rw [ho] at h
        cases h
        rfl
  | .parallel branches, value => by
    rw [stage]
    exact notCancelled_merged _
  | .guarded condition body, value => by
    rw [stage]
    split
    · intro f h
      cases h
      rfl
    · split
      · exact notCancelled_block body value
      · exact notCancelled_ok value
  | .forEach strategy body, value => by
    rw [stage]
    exact notCancelled_ok _

theorem notCancelled_chain : ∀ (c : List Stage) (value : String), NotCancelled (e.chain c value)
  | [], value => by
    rw [chain]
    exact notCancelled_ok value
  | s :: rest, value => by
    rw [chain]
    exact notCancelled_bind (notCancelled_stage s value) (notCancelled_chain rest)

theorem notCancelled_block : ∀ (body : List (List Stage)) (value : String),
    NotCancelled (e.block body value)
  | [], value => by
    rw [block]
    exact notCancelled_ok value
  | c :: rest, value => by
    rw [block]
    exact notCancelled_bind (notCancelled_chain c value) (notCancelled_block rest)

end

theorem notCancelled_of_mem_branches {o : Outcome} {branches : List (List Stage)} {value : String}
    (h : o ∈ e.branches branches value) : NotCancelled o := by
  induction branches with
  | nil => simp [Evaluator.branches] at h
  | cons c rest ih =>
    rw [Evaluator.branches] at h
    rcases List.mem_cons.mp h with rfl | h
    · exact e.notCancelled_chain c value
    · exact ih h

end Evaluator

/-! ### Joining branches -/

/-- What branches with known outcomes can come to is what their outcomes come to, if one of them fails
at most. -/
theorem eq_joinOutcomes {outcomes : List Outcome} (hlone : LoneFailure outcomes) {j : Joined}
    (h : Joins (outcomes.map fun o => (· = o)) j) : j = joinOutcomes outcomes := by
  induction outcomes generalizing j with
  | nil =>
    cases j with
    | ok values =>
      cases h
      rfl
    | error e =>
      obtain ⟨post, hpost, -⟩ := h
      simp at hpost
  | cons o rest ih =>
    cases j with
    | ok values =>
      cases h with
      | @cons _ v _ vs ho hrest =>
        subst ho
        have hlone' : LoneFailure rest := by simpa [LoneFailure, isFailure] using hlone
        have heq : Except.ok vs = joinOutcomes rest := ih hlone' hrest
        rw [joinOutcomes, ← heq]
    | error e =>
      obtain ⟨i, f⟩ := e
      obtain ⟨post, hpost, hf⟩ := h
      cases i with
      | zero =>
        obtain rfl : (· = o) = post := by simpa using hpost
        obtain rfl : .error f = o := hf
        rfl
      | succ i =>
        obtain ⟨o', ho', rfl⟩ : ∃ o', rest[i]? = some o' ∧ (· = o') = post := by simpa using hpost
        obtain rfl : .error f = o' := hf
        -- the failure is among the other branches, so this one has a value
        have hpos : 0 < rest.countP isFailure :=
          List.countP_pos_iff.mpr ⟨_, List.mem_of_getElem? ho', rfl⟩
        cases o with
        | ok v =>
          have hlone' : LoneFailure rest := by simpa [LoneFailure, isFailure] using hlone
          have heq : Except.error (i, f) = joinOutcomes rest := by
            refine ih hlone' ⟨(· = .error f), ?_, rfl⟩
            simp [ho']
          rw [joinOutcomes, ← heq]
        | error g =>
          rw [LoneFailure, List.countP_cons_of_pos rfl] at hlone
          omega

/-! ### The processes of a program -/

namespace Process

variable {vars : Variables} {o : Outcome}

/-- The judgement that a process comes to one outcome, where nothing is cancelled. -/
def Gives (vars : Variables) (p : Process σ) (o : Outcome) : Prop :=
  p.Yields (World.Calm vars) (· = o)

theorem Gives.andThen {p : Process σ} {k : Outcome → Process σ} {post : Outcome → Prop}
    (h : p.Gives vars o) (hk : (k o).Yields (World.Calm vars) post) :
    (p.andThen k).Yields (World.Calm vars) post :=
  Yields.andThen h fun _ ho => ho ▸ hk

theorem Gives.bind {p : Process σ} {k : String → Process σ} {g : String → Outcome}
    (h : p.Gives vars o) (hk : ∀ v, o = .ok v → (k v).Gives vars (g v)) :
    (p.bind k).Gives vars (o.bind g) := by
  refine h.andThen ?_
  cases o with
  | ok v => exact hk v rfl
  | error f => exact rfl

theorem gives_act {e : Effect σ} {next : Process σ}
    (he : ∀ w : World σ, (e.apply w).cancelled = w.cancelled ∧ (e.apply w).vars = w.vars)
    (h : next.Gives vars o) : (act e next).Gives vars o :=
  ⟨fun w hw => ⟨(he w).1.trans hw.running, (he w).2.trans hw.vars_eq⟩, h⟩

theorem gives_log {level : Level} {text : String} {next : Process σ} (h : next.Gives vars o) :
    (log level text next).Gives vars o :=
  gives_act (fun _ => ⟨rfl, rfl⟩) h

theorem gives_checkpoint {place : String} {next : Process σ} (h : next.Gives vars o) :
    (checkpoint place next).Gives vars o := by
  intro w hw
  simp only [hw.running, Bool.false_eq_true, if_false]
  exact h

theorem gives_sleep {place : String} {seconds : Binary64} {next : Bool → Process σ}
    (h : (next false).Gives vars o) : (sleep place seconds next).Gives vars o := by
  apply gives_act (fun _ => ⟨rfl, rfl⟩)
  intro w hw
  rw [hw.running]
  exact h

theorem gives_ofJob {j : Job σ} (h : j.Gives o) : (ofJob j).Gives vars o := by
  induction j with
  | finish r => exact h
  | look next ih => exact fun w hw => ih w (h w hw.running)
  | alter f next ih => exact gives_act (fun _ => ⟨rfl, rfl⟩) (ih h)
  | cancel next => exact h.elim
  | assign name value next => exact h.elim
  | log line next ih => exact gives_act (fun _ => ⟨rfl, rfl⟩) (ih h)
  | wait seconds next ih => exact ih h
  | nap place seconds next ih => exact gives_sleep (ih false h)

/-- A loop records what each of its items comes to. -/
theorem gives_iterateFrom {process : String → Nat → Process σ} {delay : Binary64}
    {next : List (ItemResult Failure) → Process σ} (outcome : String → Outcome)
    {items : List String} (hitems : ∀ item ∈ items, ∀ i, (process item i).Gives vars (outcome item))
    (hplain : ∀ item ∈ items, NotCancelled (outcome item)) {index : Nat}
    {results : List (ItemResult Failure)}
    (hnext : (next (results.reverse ++
      items.mapIdx fun i item => ⟨((index + i : Nat) : Int), item, outcome item⟩)).Gives vars o) :
    (iterateFrom process delay next items index results).Gives vars o := by
  induction items generalizing index results with
  | nil =>
    rw [List.mapIdx_nil, List.append_nil] at hnext
    exact hnext
  | cons item rest ih =>
    rw [iterateFrom]
    intro w hw
    simp only [hw.running, Bool.false_eq_true, if_false]
    refine (hitems item (List.mem_cons_self ..) index).andThen ?_
    have hgo : (iterateFrom process delay next rest (index + 1)
        (⟨index, item, outcome item⟩ :: results)).Gives vars o := by
      refine ih (fun i hi => hitems i (List.mem_cons_of_mem _ hi))
        (fun i hi => hplain i (List.mem_cons_of_mem _ hi)) ?_
      rw [List.mapIdx_cons] at hnext
      simpa [List.append_assoc, Nat.add_assoc, Nat.add_comm 1] using hnext
    -- the nap between two items is not cut short
    have hnap {b : Bool} {k : Bool → Process σ} (hk : (k false).Gives vars o) :
        (if b then k false else sleep loopPlace delay k).Gives vars o := by
      split
      · exact hk
      · exact gives_sleep hk
    have hplain' := hplain item (List.mem_cons_self ..)
    cases ho : outcome item with
    | ok v =>
      rw [ho] at hgo
      dsimp only
      exact hnap hgo
    | error f =>
      rw [ho] at hgo hplain'
      have hnot := hplain' f rfl
      cases f with
      | cancelled place rs => cases hnot
      | _ => exact gives_log (hnap hgo)

end Process

namespace Engine

variable {e : Engine σ} {v : Evaluator}

/-- A parallel block comes to what its branches come to together, whichever ends first. -/
theorem gives_runParallel {vars : Variables} {branches : List (Process σ)} {outcomes : List Outcome}
    (hb : List.Forall₂ (fun p o => p.Gives vars o) branches outcomes) (hlone : LoneFailure outcomes)
    (hplain : ∀ o ∈ outcomes, NotCancelled o) :
    (runParallel branches).Gives vars (Evaluator.merged outcomes) := by
  have hlen : branches.length = outcomes.length := hb.length_eq
  refine Process.gives_act (fun _ => ⟨rfl, rfl⟩) (Process.gives_log ?_)
  refine ⟨fun i => (· = outcomes[i]), fun i => ?_, fun j hj => ?_⟩
  · exact (List.forall₂_iff_get.mp hb).2 i i.isLt (hlen ▸ i.isLt)
  · have hposts : (List.ofFn fun i : Fin branches.length => (· = outcomes[i])) =
        outcomes.map fun o => (· = o) := by
      apply List.ext_getElem (by simp [hlen])
      intro i h₁ h₂
      simp
    rw [hposts] at hj
    obtain rfl := eq_joinOutcomes hlone hj
    show (joinBranches (joinOutcomes outcomes)).Yields _ _
    cases hjoin : joinOutcomes outcomes with
    | ok values =>
      show Except.ok _ = _
      rw [Evaluator.merged, hjoin]
    | error g =>
      obtain ⟨i, f⟩ := g
      -- the failure is one of an evaluated branch
      have hf : f.isCancelled = false := by
        rw [hjoin] at hj
        obtain ⟨post, hpost, hf⟩ := hj
        obtain ⟨o, ho, rfl⟩ : ∃ o, outcomes[i]? = some o ∧ (· = o) = post := by simpa using hpost
        exact hplain o (List.mem_of_getElem? ho) f hf.symm
      show Except.error _ = _
      rw [Evaluator.merged, hjoin, hf]
      rfl

/-- A command that performs its answer comes to it. -/
theorem gives_runCommand (hr : e.registry.Performs v.answers) (action a b input : String) :
    (e.runCommand action a b input).Gives v.vars (v.stage (.command action a b) input) := by
  rw [runCommand, Evaluator.stage]
  rcases hr.known action with ⟨hs, ha⟩ | ⟨s, answer, hs, ha, hlocal, hgives⟩
  · rw [hs, ha]
    exact rfl
  · obtain ⟨hjob, hplain⟩ := hgives a b input
    have hpolicy : s.effectivePolicy = none := by simp [CommandSpec.effectivePolicy, hlocal]
    rw [hs, ha]
    simp only [hpolicy]
    refine Process.gives_log ?_
    have hwork : (callIn s.style (.ofJob (s.work a b input))).Gives v.vars (answer a b input) :=
      (Process.gives_ofJob hjob).callIn s.style
    have hcall : (invoke s action a b input).Gives v.vars (answer a b input) := by
      refine Process.gives_act (fun _ => ⟨rfl, rfl⟩) (hwork.andThen ?_)
      exact Process.gives_act (fun _ => ⟨rfl, rfl⟩) rfl
    refine hcall.andThen ?_
    cases ho : answer a b input with
    | ok value => exact Process.gives_act (fun _ => ⟨rfl, rfl⟩) rfl
    | error f =>
      rw [ho] at hplain
      show Except.error _ = _
      rw [commandFailure, hplain f rfl]
      rfl

theorem items_eq (v : Evaluator) (strategy value : String) (delay : Binary64) :
    (Loop.Plan.ofArgument strategy delay v.loopLimit).limit
      (Loop.itemsOf value (Loop.Plan.ofArgument strategy delay v.loopLimit).separator) =
        v.items strategy value := by
  simp only [Loop.Plan.limit, Loop.Plan.ofArgument, Evaluator.items, Int.natCast_pos,
    Int.toNat_natCast]

mutual

theorem gives_runStage (hr : e.registry.Performs v.answers) (hlimit : e.loopLimit = v.loopLimit) :
    ∀ (s : Stage) {value : String}, v.StageLone s value →
      (e.runStage s value).Gives v.vars (v.stage s value)
  | .command action a b, value, _ => by
    rw [runStage]
    exact gives_runCommand hr action a b value
  | .parallel branches, value, h => by
    rw [runStage, Evaluator.stage]
    exact gives_runParallel (gives_branchProcesses hr hlimit branches h.1) h.2
      fun o ho => v.notCancelled_of_mem_branches ho
  | .guarded condition body, value, h => by
    rw [runStage, Evaluator.stage, runGuarded]
    cases hc : Condition.parse condition with
    | error f => exact rfl
    | ok c =>
      intro w hw
      refine Process.gives_act (fun _ => ⟨rfl, rfl⟩) (Process.gives_log ?_)
      dsimp only
      rw [hw.vars_eq]
      cases holds : c.evaluate value v.vars with
      | true => exact gives_runBlock hr hlimit body (h c hc holds)
      | false => exact rfl
  | .forEach strategy body, value, h => by
    rw [runStage, Evaluator.stage, runLoop]
    refine Process.gives_log ?_
    rw [Process.iterate, hlimit, items_eq]
    refine Process.gives_iterateFrom (v.block body) ?_ (fun item _ => v.notCancelled_block body item) ?_
    · exact fun item hitem _ => gives_runBlock hr hlimit body (h item hitem)
    · refine Process.gives_act (fun _ => ⟨rfl, rfl⟩) ?_
      simp only [List.reverse_nil, List.nil_append, Nat.zero_add]
      exact rfl

theorem gives_runChain (hr : e.registry.Performs v.answers) (hlimit : e.loopLimit = v.loopLimit) :
    ∀ (c : List Stage) {value : String}, v.ChainLone c value →
      (e.runChain c value).Gives v.vars (v.chain c value)
  | [], value, _ => by
    rw [runChain, Evaluator.chain]
    exact rfl
  | s :: rest, value, h => by
    rw [runChain, Evaluator.chain]
    refine Process.gives_checkpoint ((gives_runStage hr hlimit s h.1).bind fun u hu => ?_)
    exact gives_runChain hr hlimit rest (h.2 u hu)

theorem gives_runBlock (hr : e.registry.Performs v.answers) (hlimit : e.loopLimit = v.loopLimit) :
    ∀ (body : List (List Stage)) {value : String}, v.BlockLone body value →
      (e.runBlock body value).Gives v.vars (v.block body value)
  | [], value, _ => by
    rw [runBlock, Evaluator.block]
    exact rfl
  | c :: rest, value, h => by
    rw [runBlock, Evaluator.block]
    apply (gives_runChain hr hlimit c h.1).bind
    intro u hu
    exact gives_runBlock hr hlimit rest (h.2 u hu)

theorem gives_branchProcesses (hr : e.registry.Performs v.answers)
    (hlimit : e.loopLimit = v.loopLimit) :
    ∀ (branches : List (List Stage)) {value : String}, v.BranchesLone branches value →
      List.Forall₂ (fun p o => p.Gives v.vars o) (e.branchProcesses branches value)
        (v.branches branches value)
  | [], value, _ => by
    rw [branchProcesses, Evaluator.branches]
    exact .nil
  | c :: rest, value, h => by
    rw [branchProcesses, Evaluator.branches]
    exact .cons (gives_runChain hr hlimit c h.1) (gives_branchProcesses hr hlimit rest h.2)

end

/-- **A program comes to what it evaluates to**, if one branch fails at most in each parallel block that
the evaluation reaches. -/
theorem gives_run (hr : e.registry.Performs v.answers) (hlimit : e.loopLimit = v.loopLimit) {p : Program}
    (hlone : v.Lone p) : (e.run p).Gives v.vars (v.program p) :=
  gives_runBlock hr hlimit p.statements hlone

end Engine

end PipeScript
