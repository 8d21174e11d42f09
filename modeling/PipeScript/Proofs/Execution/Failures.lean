import PipeScript.Proofs.Execution.Outcomes

/-!
# What runs fail with

A run that gives no value has been cancelled, or its failure is one of a few that its program raises:
the name of a command is not known, a condition cannot be read, a command has failed, or a branch of a
parallel block has, in one of these ways. A loop raises nothing; it records what its body raises.

## The model

`BlockRaises` and the others follow the syntax, so that they also say where a failure comes from; what
all of them have in common is said by `Failure.Raised`. What the causes of a command's failure may be is
given with them. A failure is plain if no cancellation is among its causes (`Failure.Plain`).

Main results: what parts of a program come to is a cancellation or a failure that they raise
(`Engine.raises_of_stageComes`, `Engine.raises_of_chainComes`, `Engine.raises_of_blockComes`); and the
failures of a run are plain (`Runtime.plain_of_runFor`), as those are that its loops record
(`Runtime.plain_of_records`), as long as no command that is retried cancels with words that speak of a
passing failure: the retries go by the words, and take that for a failure
(`Runtime.cancellation_is_retried`).
-/

namespace PipeScript

variable {σ : Type}

/-! ### Failures that programs raise -/

mutual

/-- Does the stage raise the failure? Cancellations are left out. -/
def StageRaises (causes : String → Failure → Prop) : Stage → Failure → Prop
  | .command action _ _, f =>
      f = .unknownCommand action ∨ ∃ cause, causes action cause ∧ f = .command action cause
  | .parallel branches, f => ∃ i cause, i < branches.length ∧ cause.isCancelled = false ∧
      BranchRaises causes branches i cause ∧ f = .branch i cause
  | .guarded condition body, f =>
      (∃ error, Condition.parse condition = .error error ∧ f = .condition error) ∨
        BlockRaises causes body f
  | .forEach _ _, _ => False

/-- Does a stage of the chain raise the failure? -/
def ChainRaises (causes : String → Failure → Prop) : List Stage → Failure → Prop
  | [], _ => False
  | s :: rest, f => StageRaises causes s f ∨ ChainRaises causes rest f

/-- Does a statement of the block raise the failure? -/
def BlockRaises (causes : String → Failure → Prop) : List (List Stage) → Failure → Prop
  | [], _ => False
  | c :: rest, f => ChainRaises causes c f ∨ BlockRaises causes rest f

/-- Does the branch of that index raise the failure? -/
def BranchRaises (causes : String → Failure → Prop) : List (List Stage) → Nat → Failure → Prop
  | [], _, _ => False
  | c :: _, 0, f => ChainRaises causes c f
  | _ :: rest, i + 1, f => BranchRaises causes rest i f

end

/-- The failures that programs can raise, by the causes from which commands fail. -/
inductive Failure.Raised (causes : String → Failure → Prop) : Failure → Prop
  | unknownCommand (action : String) : Raised causes (.unknownCommand action)
  | condition (error : ConditionError) : Raised causes (.condition error)
  | command {action : String} {cause : Failure} (h : causes action cause) :
      Raised causes (.command action cause)
  | branch (i : Nat) {cause : Failure} (hc : cause.isCancelled = false) (h : Raised causes cause) :
      Raised causes (.branch i cause)

section Raised

variable {causes : String → Failure → Prop}

mutual

theorem raised_of_stageRaises :
    ∀ (s : Stage) {f : Failure}, StageRaises causes s f → f.Raised causes
  | .command action a b, f, h => by
    rw [StageRaises] at h
    rcases h with rfl | ⟨cause, hcause, rfl⟩
    · exact .unknownCommand action
    · exact .command hcause
  | .parallel branches, f, h => by
    rw [StageRaises] at h
    obtain ⟨i, cause, -, hc, hraises, rfl⟩ := h
    exact .branch i hc (raised_of_branchRaises branches hraises)
  | .guarded condition body, f, h => by
    rw [StageRaises] at h
    rcases h with ⟨error, -, rfl⟩ | h
    · exact .condition error
    · exact raised_of_blockRaises body h
  | .forEach strategy body, f, h => by
    rw [StageRaises] at h
    exact h.elim

theorem raised_of_chainRaises :
    ∀ (c : List Stage) {f : Failure}, ChainRaises causes c f → f.Raised causes
  | [], f, h => by
    rw [ChainRaises] at h
    exact h.elim
  | s :: rest, f, h => by
    rw [ChainRaises] at h
    rcases h with h | h
    · exact raised_of_stageRaises s h
    · exact raised_of_chainRaises rest h

theorem raised_of_blockRaises :
    ∀ (body : List (List Stage)) {f : Failure}, BlockRaises causes body f → f.Raised causes
  | [], f, h => by
    rw [BlockRaises] at h
    exact h.elim
  | c :: rest, f, h => by
    rw [BlockRaises] at h
    rcases h with h | h
    · exact raised_of_chainRaises c h
    · exact raised_of_blockRaises rest h

theorem raised_of_branchRaises :
    ∀ (branches : List (List Stage)) {i : Nat} {f : Failure}, BranchRaises causes branches i f →
      f.Raised causes
  | [], i, f, h => by
    rw [BranchRaises] at h
    exact h.elim
  | c :: rest, 0, f, h => by
    rw [BranchRaises] at h
    exact raised_of_chainRaises c h
  | c :: rest, i + 1, f, h => by
    rw [BranchRaises] at h
    exact raised_of_branchRaises rest h

end

/-- What programs raise is reported by the runtime, and is no syntax error. -/
theorem Failure.Raised.isOwn {f : Failure} (h : f.Raised causes) :
    f.isOwn = true ∧ ∀ e, f ≠ .parse e := by
  cases h with
  | unknownCommand action => exact ⟨rfl, nofun⟩
  | condition error => exact ⟨rfl, nofun⟩
  | command h => exact ⟨rfl, nofun⟩
  | branch i hc h => exact ⟨rfl, nofun⟩

end Raised

namespace Engine

/-- Are the causes from which commands fail among those given? -/
def FailsFrom (e : Engine σ) (causes : String → Failure → Prop) : Prop :=
  ∀ action a b input cause, e.CommandComes action a b input (.error (.command action cause)) →
    causes action cause

variable {e : Engine σ} {causes : String → Failure → Prop}

theorem raises_of_commandComes (hcauses : e.FailsFrom causes) {action a b input : String} {f : Failure}
    (h : e.CommandComes action a b input (.error f)) :
    f.isCancelled = true ∨ StageRaises causes (.command action a b) f := by
  -- a failure that is passed on is a cancellation
  have hpassed {g : Failure} (h : e.CommandComes action a b input (.error (commandFailure action g))) :
      (commandFailure action g).isCancelled = true ∨
        StageRaises causes (.command action a b) (commandFailure action g) := by
    rw [StageRaises]
    unfold commandFailure at h ⊢
    cases hc : g.isCancelled with
    | true => exact .inl hc
    | false =>
      rw [hc] at h
      exact .inr (.inr ⟨g, hcauses action a b input g h, rfl⟩)
  cases h with
  | unknown hs =>
    rw [StageRaises]
    exact .inr (.inl rfl)
  | failure hs hlocal hf => exact hpassed (.failure hs hlocal hf)
  | attempts hs hremote hf => exact hpassed (.attempts hs hremote hf)

theorem raises_of_follow {first : Outcome → Prop} {next : String → Outcome → Prop} {P Q : Prop}
    {f : Failure} (hfirst : first (.error f) → f.isCancelled = true ∨ P)
    (hnext : ∀ v, next v (.error f) → f.isCancelled = true ∨ Q)
    (h : FollowComes first next (.error f)) : f.isCancelled = true ∨ P ∨ Q := by
  cases h with
  | value _ ho => exact (hnext _ ho).imp id .inr
  | failure hf => exact (hfirst hf).imp id .inl

mutual

theorem raises_of_stageComes (hcauses : e.FailsFrom causes) :
    ∀ (s : Stage) {input : String} {f : Failure}, e.StageComes s input (.error f) →
      f.isCancelled = true ∨ StageRaises causes s f
  | .command action a b, input, f, h => by
    rw [StageComes] at h
    exact raises_of_commandComes hcauses h
  | .parallel branches, input, f, h => by
    rw [StageComes] at h
    rw [StageRaises]
    cases h with
    | cancelled _ _ hc => exact .inl hc
    | @failure i branch g hbranch hg hc =>
      obtain ⟨hi, hraises⟩ := raises_of_branchesCome hcauses branches hbranch hg
      exact .inr ⟨i, g, hi, hc, hraises.resolve_left (by simp [hc]), rfl⟩
  | .guarded condition body, input, f, h => by
    rw [StageComes] at h
    rw [StageRaises]
    cases h with
    | unreadable hc => exact .inr (.inl ⟨_, hc, rfl⟩)
    | holds _ _ ho => exact (raises_of_blockComes hcauses body ho).imp id .inr
  | .forEach strategy body, input, f, h => by
    rw [StageComes] at h
    cases h with
    | cancelled => exact .inl rfl

theorem raises_of_chainComes (hcauses : e.FailsFrom causes) :
    ∀ (c : List Stage) {input : String} {f : Failure}, e.ChainComes c input (.error f) →
      f.isCancelled = true ∨ ChainRaises causes c f
  | [], input, f, h => by
    rw [ChainComes] at h
    cases h
  | s :: rest, input, f, h => by
    rw [ChainComes] at h
    rw [ChainRaises]
    rcases h with h | h
    · cases h
      exact .inl rfl
    · exact raises_of_follow (raises_of_stageComes hcauses s)
        (fun _ => raises_of_chainComes hcauses rest) h

theorem raises_of_blockComes (hcauses : e.FailsFrom causes) :
    ∀ (body : List (List Stage)) {input : String} {f : Failure}, e.BlockComes body input (.error f) →
      f.isCancelled = true ∨ BlockRaises causes body f
  | [], input, f, h => by
    rw [BlockComes] at h
    cases h
  | c :: rest, input, f, h => by
    rw [BlockComes] at h
    rw [BlockRaises]
    exact raises_of_follow (raises_of_chainComes hcauses c)
      (fun _ => raises_of_blockComes hcauses rest) h

theorem raises_of_branchesCome (hcauses : e.FailsFrom causes) :
    ∀ (branches : List (List Stage)) {input : String} {i : Nat} {branch : Outcome → Prop}
      {f : Failure}, (e.branchesCome branches input)[i]? = some branch → branch (.error f) →
      i < branches.length ∧ (f.isCancelled = true ∨ BranchRaises causes branches i f)
  | [], input, i, branch, f, hi, hf => by
    rw [branchesCome] at hi
    cases hi
  | c :: rest, input, 0, branch, f, hi, hf => by
    rw [branchesCome] at hi
    obtain rfl := Option.some.inj hi
    rw [BranchRaises]
    exact ⟨Nat.succ_pos _, raises_of_chainComes hcauses c hf⟩
  | c :: rest, input, i + 1, branch, f, hi, hf => by
    rw [branchesCome, List.getElem?_cons_succ] at hi
    rw [BranchRaises]
    obtain ⟨hlt, hraises⟩ := raises_of_branchesCome hcauses rest hi hf
    exact ⟨Nat.succ_lt_succ hlt, hraises⟩

end

/-- A loop comes to the report of its records, or hands them on with a cancellation. -/
theorem records_of_stageComes {strategy input : String} {body : List (List Stage)} {o : Outcome}
    (h : e.StageComes (.forEach strategy body) input o) :
    ∃ items results, Loop.Records (e.BlockComes body) items results ∧
      (o = .ok (Loop.report results) ∨ ∃ place, o = .error (.cancelled place results)) := by
  rw [StageComes] at h
  cases h with
  | all hrecords => exact ⟨_, _, hrecords, .inl rfl⟩
  | cancelled place _ hrecords => exact ⟨_, _, hrecords, .inr ⟨place, rfl⟩⟩

/-- What a loop records is no cancellation, but a failure that its body raises. -/
theorem raises_of_records (hcauses : e.FailsFrom causes)
    {body : List (List Stage)} {items : List String} {results : List (ItemResult Failure)}
    (h : Loop.Records (e.BlockComes body) items results) {r : ItemResult Failure} (hr : r ∈ results)
    {f : Failure} (hf : r.outcome = .error f) : f.isCancelled = false ∧ BlockRaises causes body f := by
  obtain ⟨hbody, hplain⟩ := h.outcomes r hr
  have hnot := hplain f hf
  rw [hf] at hbody
  exact ⟨hnot, (raises_of_blockComes hcauses body hbody).resolve_left (by simp [hnot])⟩

end Engine

/-! ### Cancellations among the causes -/

namespace Failure

/-- What the failure is due to, and that in turn. -/
def causes : Failure → List Failure
  | command _ cause => cause :: cause.causes
  | branch _ cause => cause :: cause.causes
  | exhausted _ _ last => last :: last.causes
  | _ => []

/-- Is the failure due to no cancellation? -/
def Plain (f : Failure) : Prop := ∀ g ∈ f.causes, g.isCancelled = false

theorem plain_command {action : String} {cause : Failure} (hc : cause.isCancelled = false)
    (h : cause.Plain) : (command action cause).Plain :=
  List.forall_mem_cons.mpr ⟨hc, h⟩

theorem plain_branch {index : Nat} {cause : Failure} (hc : cause.isCancelled = false)
    (h : cause.Plain) : (branch index cause).Plain :=
  List.forall_mem_cons.mpr ⟨hc, h⟩

theorem plain_exhausted {name : String} {attempts : Nat} {last : Failure}
    (hc : last.isCancelled = false) (h : last.Plain) : (exhausted name attempts last).Plain :=
  List.forall_mem_cons.mpr ⟨hc, h⟩

theorem plain_of_isCancelled {f : Failure} (h : f.isCancelled = true) : f.Plain := by
  cases f with
  | cancelled => simp [Plain, causes]
  | _ => cases h

theorem plain_of_delayAfter {policy : RetryPolicy} {number : Int} {draw : Binary64} {f : Failure}
    (h : policy.delayAfter number draw = .error f) : f.Plain := by
  rcases RetryPolicy.eq_of_delayAfter h with rfl | rfl
  · simp [Plain, causes]
  · simp [Plain, causes]

end Failure

/-- A registry whose commands are plain about cancellations: no failure of theirs is due to one, and
those that are retried do not cancel with words that speak of a passing failure. -/
structure Registry.Plain (r : Registry (Collaborator σ)) : Prop where
  plain : ∀ {action s}, r.get? action = some s →
    ∀ {a b input f}, (s.work a b input).Ends (.error f) → f.Plain
  lasting : ∀ {action s}, r.get? action = some s → s.remote = true →
    ∀ {a b input f}, (s.work a b input).Ends (.error f) → f.isCancelled = true →
      isPassing f.message = false

/-- What programs raise is due to no cancellation if no command fails because of one. -/
theorem Failure.Raised.plain {causes : String → Failure → Prop}
    (hcauses : ∀ action f, causes action f → f.isCancelled = false ∧ f.Plain) {f : Failure}
    (h : f.Raised causes) : f.Plain := by
  induction h with
  | unknownCommand action => simp [Failure.Plain, Failure.causes]
  | condition error => simp [Failure.Plain, Failure.causes]
  | command h =>
    obtain ⟨hc, hplain⟩ := hcauses _ _ h
    exact Failure.plain_command hc hplain
  | branch i hc _ ih => exact Failure.plain_branch hc ih

namespace Engine

/-- A command's failure has a cause that is no cancellation, and in which the work of the command or
its attempts have ended. -/
theorem cause_of_commandComes {e : Engine σ} {action a b input : String} {cause : Failure}
    (h : e.CommandComes action a b input (.error (.command action cause))) :
    cause.isCancelled = false ∧ ∃ s, e.registry.get? action = some s ∧
      ((s.work a b input).Ends (.error cause) ∨ ∃ policy calls, s.effectivePolicy = some policy ∧
        AttemptsFail policy action (e.draw.share calls) (policy.maxAttempts - 1 + 1)
          (s.work a b input).Ends cause) := by
  have hwrapped {g : Failure} (hg : Failure.command action cause = commandFailure action g) :
      g.isCancelled = false ∧ g = cause := by
    unfold commandFailure at hg
    cases hc : g.isCancelled with
    | true =>
      rw [hc, if_pos rfl] at hg
      rw [← hg] at hc
      cases hc
    | false =>
      rw [hc, if_neg Bool.false_ne_true] at hg
      exact ⟨rfl, (Failure.command.inj hg).2.symm⟩
  generalize ho : Except.error (Failure.command action cause) = o at h
  cases h with
  | unknown => cases ho
  | value => cases ho
  | failure hs _ hf =>
    obtain ⟨hc, rfl⟩ := hwrapped (Except.error.inj ho)
    exact ⟨hc, _, hs, .inl hf⟩
  | attempts hs hremote hf =>
    obtain ⟨hc, rfl⟩ := hwrapped (Except.error.inj ho)
    exact ⟨hc, _, hs, .inr ⟨_, _, hremote, hf⟩⟩

/-- The causes from which plain commands fail are no cancellations, nor due to one. -/
theorem failsFrom_plain {e : Engine σ} (hr : e.registry.Plain) :
    e.FailsFrom fun _ cause => cause.isCancelled = false ∧ cause.Plain := by
  intro action a b input cause h
  obtain ⟨hc, s, hs, hend | ⟨policy, _, hremote, hfail⟩⟩ := cause_of_commandComes h
  · exact ⟨hc, hr.plain hs hend⟩
  · refine ⟨hc, ?_⟩
    cases hfail with
    | cancelled => cases hc
    | final hend _ => exact hr.plain hs hend
    | @exhausted last hend hp =>
      refine Failure.plain_exhausted ?_ (hr.plain hs hend)
      have hretried : s.remote = true := by
        by_contra hlocal
        simp [CommandSpec.effectivePolicy, hlocal] at hremote
      by_contra hlast
      rw [hr.lasting hs hretried hend (by simpa using hlast)] at hp
      cases hp
    | delay _ hd => exact Failure.plain_of_delayAfter hd

end Engine

namespace Runtime

/-- **What a run fails with is plain** where the commands are plain about cancellations: a run that does not
come to a value has been cancelled, or has failed for causes none of which is a cancellation. -/
theorem plain_of_runFor (rt : Runtime σ) (hr : rt.registry.Plain) {c : Context} {s : σ} {p : Program}
    {linger : Option Binary64} {alarms : Alarms Turn}
    (hbells : ∀ a ∈ alarms.all, ∀ t, a.event ≠ .release t) {rounds : Nat} {f : Failure} {w : World σ}
    (hrun : Schedule.runFor rt.settings.cancelSiblings rounds (rt.schedule c s p linger alarms) =
      some (.error f, w)) : f.Plain := by
  have hcauses := Engine.failsFrom_plain (e := rt.engine) hr
  rcases Engine.raises_of_blockComes hcauses _ (rt.comes_of_runFor hbells hrun) with hc | hraises
  · exact Failure.plain_of_isCancelled hc
  · exact (raised_of_blockRaises _ hraises).plain fun _ _ h => h

/-- So is what its loops record, and is no cancellation itself. -/
theorem plain_of_records (rt : Runtime σ) (hr : rt.registry.Plain) {body : List (List Stage)}
    {items : List String} {results : List (ItemResult Failure)}
    (h : Loop.Records (rt.engine.BlockComes body) items results) {r : ItemResult Failure} (hmem : r ∈ results)
    {f : Failure} (hf : r.outcome = .error f) : f.isCancelled = false ∧ f.Plain := by
  obtain ⟨hc, hraises⟩ := Engine.raises_of_records (Engine.failsFrom_plain (e := rt.engine) hr) h hmem hf
  exact ⟨hc, (raised_of_blockRaises _ hraises).plain fun _ _ h => h⟩

/-! ### A command that is tried once -/

/-- A runtime with one command, which is tried once. -/
def hasty (work : Collaborator Unit) : Runtime Unit where
  settings := { cacheDirectory := .ofString "" }
  registry := ⟨[{ name := "try", work, remote := true, policy := some { maxAttempts := 1 } }]⟩

/-- A program of one attempt, with a word that speaks of a passing failure. -/
def tryTimeout : Program := ⟨[[.command "try" "timeout" ""]]⟩

/-- A run of the program. -/
def tried (work : Collaborator Unit) : Option (Outcome × World Unit) :=
  Schedule.runFor (hasty work).settings.cancelSiblings 2
    ((hasty work).schedule {} () tryTimeout none {})

/-- Does the run end with a failure of that kind? -/
def failsSo (test : Failure → Bool) : Option (Outcome × World σ) → Bool
  | some (.error f, _) => test f
  | _ => false

theorem exists_of_failsSo {test : Failure → Bool} {run : Option (Outcome × World σ)}
    (h : failsSo test run = true) : ∃ f w, run = some (.error f, w) ∧ test f = true := by
  match run, h with
  | some (.error f, w), h => exact ⟨f, w, rfl, h⟩

/-- A command that fails with its argument for a reason. -/
def failing : Collaborator Unit := fun a _ _ => .fail (.reported .service a)

/-- A command that cancels the run, and stops at the place that is its argument. -/
def stopping : Collaborator Unit := fun a _ _ => .cancel (.fail (.cancelled a []))

/-- **Retries take a cancellation for a failure** where its words speak of a passing one: the failure of
the only attempt is due to the cancellation. -/
theorem cancellation_is_retried : ∃ f w, tried stopping = some (.error f, w) ∧ ¬ f.Plain := by
  have hfails : failsSo (fun f => f.causes.any Failure.isCancelled) (tried stopping) = true := by
    decide +kernel
  obtain ⟨f, w, hrun, hcause⟩ := exists_of_failsSo hfails
  refine ⟨f, w, hrun, fun hplain => ?_⟩
  obtain ⟨g, hg, hc⟩ := List.any_eq_true.mp hcause
  exact absurd hc (by simp [hplain g hg])

end Runtime

end PipeScript
