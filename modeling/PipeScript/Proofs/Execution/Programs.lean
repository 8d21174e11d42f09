import PipeScript.Runtime

/-!
# What holds of every program

The processes of programs are built up by a few constructions. A property that these keep is one of the
process of every program, whatever the commands are.

## The model

A property is given with a flag, which says whether a process goes on right after a look at the world has
shown that the run is not cancelled; it may be weaker for such processes. `Engine.Rules` lists what has
to be shown: that each step of a process keeps the property, and where a call may stand. Naps have a
property of their own, about their seconds.

Main result: what keeps the rules holds of all stages, chains and blocks (`Engine.Rules.runStage`,
`Engine.Rules.runChain`, `Engine.Rules.runBlock`), and so of the process of a program
(`Runtime.holds_of_rules`).
-/

namespace PipeScript

variable {σ : Type}

/-- A run of a program that is about to start. It may go on for some seconds after its end, and alarms
that are set beforehand may cancel it at any time. -/
def Runtime.schedule (rt : Runtime σ) (c : Context) (s : σ) (p : Program) (linger : Option Binary64)
    (alarms : Alarms Turn) : Schedule σ :=
  .start (rt.worldOf c s) (lingering linger (rt.process p)) alarms

namespace Engine

/-- Do the steps of an engine's programs keep the property of processes, and have its naps theirs? -/
structure Rules (e : Engine σ) (Holds : Bool → Process σ → Prop) (Nap : Binary64 → Prop) : Prop where
  weaken : ∀ {p}, Holds false p → Holds true p
  done : ∀ o, Holds false (.done o)
  afterLook : ∀ {f p}, Holds true p → Holds false (.look fun w => if w.cancelled then .fail f else p)
  look : ∀ {next : World σ → Process σ}, (∀ w, Holds false (next w)) → Holds false (.look next)
  log : ∀ {b line p}, Holds b p → Holds b (.act (.log line) p)
  count : ∀ {b event p}, Holds b p → Holds b (.act (.count event) p)
  sleep : ∀ {place seconds next}, Nap seconds → Holds false (next true) → Holds true (next false) →
    Holds false (.sleep place seconds next)
  fork : ∀ {count branch next}, next = joinBranches → (∀ i, Holds false (branch i)) →
    (∀ j, Holds false (next j)) → Holds false (.fork .block count branch next)
  andThen : ∀ {b} {p : Process σ} {k}, Holds b p → (∀ o, Holds false (k o)) → Holds b (p.andThen k)
  begin : ∀ {action a b input p}, Holds true p → Holds true (.act (.begin action a b input) p)
  finish : ∀ {action o p}, Holds false p → Holds false (.act (.finish action o) p)
  work : ∀ {action s}, e.registry.get? action = some s →
    ∀ a b input, Holds false (.ofJob (s.work a b input))
  thread : ∀ {job}, Holds false (.ofJob job) → Holds true (.inThread (.ofJob job))
  retry : ∀ {action s policy}, e.registry.get? action = some s → s.effectivePolicy = some policy →
    ∀ {calls number : Nat} {delay}, 0 < number → number < policy.maxAttempts →
      policy.delayAfter number (e.draw.share calls number) = .ok delay → Nap delay
  loop : Nap e.loopDelay

namespace Rules

variable {e : Engine σ} {Holds : Bool → Process σ → Prop} {Nap : Binary64 → Prop}

theorem bind (h : e.Rules Holds Nap) {b : Bool} {p : Process σ} {k : String → Process σ}
    (hp : Holds b p) (hk : ∀ v, Holds false (k v)) : Holds b (p.bind k) := by
  refine h.andThen hp fun o => ?_
  cases o with
  | ok value => exact hk value
  | error f => exact h.done _

/-! ### Calls, attempts and loops -/

/-- A job holds in whatever style it is called, right after a look. -/
theorem callIn (h : e.Rules Holds Nap) {job : Job σ} (hjob : Holds false (.ofJob job)) :
    ∀ style, Holds true (Engine.callIn style (.ofJob job))
  | .direct => h.weaken hjob
  | .threaded => h.thread hjob
  | .deferred =>
    have hready : Holds false (.ofJob (.ok "" : Job σ)) := h.done _
    h.andThen (h.thread hready) fun _ => hjob

theorem invoke (h : e.Rules Holds Nap) {action : String} {s : CommandSpec (Collaborator σ)}
    (hs : e.registry.get? action = some s) (a b input : String) :
    Holds true (Engine.invoke s action a b input) :=
  h.begin (h.andThen (h.callIn (h.work hs a b input) s.style) fun o => h.finish (h.done o))

/-- Attempts hold where a single one does, and where the naps between them do. -/
theorem attemptsFrom (h : e.Rules Holds Nap) {policy : RetryPolicy} (name : String)
    {draws : Nat → Binary64} {calls : Nat → Process σ} (hcalls : ∀ n, Holds true (calls n)) (left : Nat)
    {number : Nat} (hdelay : ∀ n, number ≤ n → n < number + left → ∀ {delay},
      policy.delayAfter n (draws n) = .ok delay → Nap delay) :
    Holds false (.attemptsFrom policy name draws calls left number) := by
  have hattempt {n : Nat} {again : Failure → Process σ} (hagain : ∀ f, Holds false (again f)) :
      Holds false (.attempt name (calls n) again) := by
    refine h.afterLook (h.andThen (hcalls n) fun o => ?_)
    cases o with
    | ok value => exact h.done _
    | error f =>
      simp only
      split
      · exact hagain f
      · exact h.done _
  induction left generalizing number with
  | zero =>
    rw [Process.attemptsFrom]
    exact hattempt fun f => h.done _
  | succ left ih =>
    rw [Process.attemptsFrom]
    refine hattempt fun f => ?_
    have hrest : Holds false (.attemptsFrom policy name draws calls left (number + 1)) :=
      ih fun n hle hlt => hdelay n (by omega) (by omega)
    cases hd : policy.delayAfter number (draws number) with
    | error g => exact h.done _
    | ok delay =>
      have hnap := hdelay number (Nat.le_refl _) (by omega) hd
      exact h.log (h.sleep hnap (h.done _) (h.weaken hrest))

theorem attempts (h : e.Rules Holds Nap) {action : String} {s : CommandSpec (Collaborator σ)}
    {policy : RetryPolicy} (hs : e.registry.get? action = some s)
    (hpolicy : s.effectivePolicy = some policy) (name : String) {calls : Nat → Process σ}
    (hcalls : ∀ n, Holds true (calls n)) (before : Nat) :
    Holds false (.attempts policy name (e.draw.share before) calls) :=
  h.attemptsFrom name hcalls _ fun _ hle hlt _ hd => h.retry hs hpolicy (by omega) (by omega) hd

theorem iterateFrom (h : e.Rules Holds Nap) {process : String → Nat → Process σ}
    (hprocess : ∀ item index, Holds false (process item index))
    {next : List (ItemResult Failure) → Process σ} (hnext : ∀ results, Holds false (next results))
    (items : List String) (index : Nat) (results : List (ItemResult Failure)) :
    Holds false (.iterateFrom process e.loopDelay next items index results) := by
  induction items generalizing index results with
  | nil => exact hnext _
  | cons item rest ih =>
    rw [Process.iterateFrom]
    refine h.afterLook (h.andThen (h.weaken (hprocess item index)) fun o => ?_)
    have hgoOn {b : Bool} {k : Bool → Process σ} (htrue : Holds false (k true))
        (hfalse : Holds false (k false)) :
        Holds false (if b then k false else .sleep Process.loopPlace e.loopDelay k) := by
      split
      · exact hfalse
      · exact h.sleep h.loop htrue (h.weaken hfalse)
    cases o with
    | ok v => exact hgoOn (h.done _) (ih _ _)
    | error f =>
      cases f with
      | cancelled place rs => exact h.done _
      | _ => exact h.log (hgoOn (h.done _) (ih _ _))

/-! ### Stages -/

theorem runCommand (h : e.Rules Holds Nap) (action a b input : String) :
    Holds true (e.runCommand action a b input) := by
  rw [Engine.runCommand]
  cases hs : e.registry.get? action with
  | none => exact h.weaken (h.done _)
  | some s =>
    have hcall : Holds true (Engine.invoke s action a b input) := h.invoke hs a b input
    refine h.log (h.andThen ?_ fun o => ?_)
    · cases hpolicy : s.effectivePolicy with
      | none => exact hcall
      | some policy => exact h.weaken (h.look fun w => h.attempts hs hpolicy action (fun _ => hcall) _)
    · cases o with
      | ok value => exact h.count (h.done _)
      | error f => exact h.done _

theorem runParallel (h : e.Rules Holds Nap) {branches : List (Process σ)}
    (hbranches : ∀ p ∈ branches, Holds false p) : Holds false (Engine.runParallel branches) := by
  refine h.count (h.log (h.fork rfl (fun i => hbranches _ (List.getElem_mem _)) fun j => ?_))
  cases j with
  | ok values => exact h.done _
  | error f => exact h.done _

theorem runGuarded (h : e.Rules Holds Nap) (condition input : String) {body : String → Process σ}
    (hbody : ∀ v, Holds false (body v)) : Holds false (Engine.runGuarded condition input body) := by
  rw [Engine.runGuarded]
  cases Condition.parse condition with
  | error f => exact h.done _
  | ok c =>
    refine h.look fun w => h.count (h.log ?_)
    split
    · exact hbody input
    · exact h.done _

theorem runLoop (h : e.Rules Holds Nap) (strategy input : String) {body : String → Process σ}
    (hbody : ∀ v, Holds false (body v)) : Holds false (e.runLoop strategy input body) := by
  refine h.log (h.iterateFrom (fun item _ => hbody item) (fun results => ?_) _ _ _)
  exact h.count (h.done _)

mutual

/-- **Stages** hold right after a look at the world. -/
theorem runStage (h : e.Rules Holds Nap) :
    ∀ (s : Stage) (value : String), Holds true (e.runStage s value)
  | .command action a b, value => by
    rw [Engine.runStage]
    exact h.runCommand action a b value
  | .parallel branches, value => by
    rw [Engine.runStage]
    exact h.weaken (h.runParallel (h.branchProcesses branches value))
  | .guarded condition body, value => by
    rw [Engine.runStage]
    exact h.weaken (h.runGuarded condition value (h.runBlock body))
  | .forEach strategy body, value => by
    rw [Engine.runStage]
    exact h.weaken (h.runLoop strategy value (h.runBlock body))

/-- **Chains** hold at any time, since they look at the world before each stage. -/
theorem runChain (h : e.Rules Holds Nap) :
    ∀ (c : List Stage) (value : String), Holds false (e.runChain c value)
  | [], value => by
    rw [Engine.runChain]
    exact h.done _
  | s :: rest, value => by
    rw [Engine.runChain]
    exact h.afterLook (h.bind (h.runStage s value) (h.runChain rest))

theorem runBlock (h : e.Rules Holds Nap) :
    ∀ (body : List (List Stage)) (value : String), Holds false (e.runBlock body value)
  | [], value => by
    rw [Engine.runBlock]
    exact h.done _
  | c :: rest, value => by
    rw [Engine.runBlock]
    exact h.bind (h.runChain c value) (h.runBlock rest)

theorem branchProcesses (h : e.Rules Holds Nap) :
    ∀ (branches : List (List Stage)) (value : String),
      ∀ p ∈ e.branchProcesses branches value, Holds false p
  | [], value => by
    rw [Engine.branchProcesses]
    simp
  | c :: rest, value => by
    rw [Engine.branchProcesses]
    exact List.forall_mem_cons.mpr ⟨h.runChain c value, h.branchProcesses rest value⟩

end

end Rules

end Engine

/-- **What keeps the rules** holds of the process of every program. -/
theorem Runtime.holds_of_rules {rt : Runtime σ} {Holds : Bool → Process σ → Prop}
    {Nap : Binary64 → Prop} (h : rt.engine.Rules Holds Nap) (p : Program) :
    Holds false (rt.process p) :=
  h.bind (h.runBlock p.statements "") fun _ => h.log (h.done _)

end PipeScript
