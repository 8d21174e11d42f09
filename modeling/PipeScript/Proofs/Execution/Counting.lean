import PipeScript.Proofs.Execution.Sequential
import Mathlib.Algebra.BigOperators.Fin
import Mathlib.Algebra.Order.Group.Multiset

/-!
# What programs count

The sequential evaluation of a program says what there is to count: the calls that end well, the parallel
blocks and the conditions that are met, and the loops with their items. The process of the program counts
the same events, its branches each their own, whichever of them goes first.

## The model

`Evaluator.events` lists what a program counts, in the order of the evaluation. A program is clean if its
evaluation meets no error: every command that is met is known and has a value, also in the items of a
loop, and every condition can be read (`Evaluator.Clean`).

`Process.Counts` says that a process comes to a value where nothing is cancelled, and counts some events
on the way. The events are a multiset, as branches may take turns in any order.

Main result: the process of a clean program comes to what the program evaluates to, and counts the events
of the evaluation (`Engine.counts_run`).
-/

namespace PipeScript

variable {σ : Type}

/-! ### The evaluation -/

namespace Evaluator

mutual

/-- What a stage counts. -/
def stageEvents (e : Evaluator) : Stage → String → List Event
  | .command action a b, input =>
    if isFailure (e.stage (.command action a b) input) then [] else [.command action]
  | .parallel branches, input => .parallel :: (e.branchEvents branches input).flatten
  | .guarded condition body, input =>
    match Condition.parse condition with
    | .error _ => []
    | .ok c =>
      let holds := c.evaluate input e.vars
      .guard holds :: if holds then e.blockEvents body input else []
  | .forEach strategy body, input =>
    (e.items strategy input).flatMap (e.blockEvents body) ++ [.loop (e.items strategy input).length]

/-- What a chain counts. -/
def chainEvents (e : Evaluator) : List Stage → String → List Event
  | [], _ => []
  | s :: rest, value =>
    e.stageEvents s value ++
      match e.stage s value with
      | .ok v => e.chainEvents rest v
      | .error _ => []

/-- What a block counts. -/
def blockEvents (e : Evaluator) : List (List Stage) → String → List Event
  | [], _ => []
  | c :: rest, value =>
    e.chainEvents c value ++
      match e.chain c value with
      | .ok v => e.blockEvents rest v
      | .error _ => []

/-- What each branch of a parallel block counts. -/
def branchEvents (e : Evaluator) : List (List Stage) → String → List (List Event)
  | [], _ => []
  | c :: rest, value => e.chainEvents c value :: e.branchEvents rest value

end

/-- What a program counts. -/
def events (e : Evaluator) (p : Program) : List Event := e.blockEvents p.statements ""

mutual

/-- Does the stage meet no error? -/
def StageClean (e : Evaluator) : Stage → String → Prop
  | .command action a b, input => ∃ v, e.stage (.command action a b) input = .ok v
  | .parallel branches, input => e.BranchesClean branches input
  | .guarded condition body, input =>
    ∃ c, Condition.parse condition = .ok c ∧
      (c.evaluate input e.vars = true → e.BlockClean body input)
  | .forEach strategy body, input => ∀ item ∈ e.items strategy input, e.BlockClean body item

/-- Does the chain meet no error? -/
def ChainClean (e : Evaluator) : List Stage → String → Prop
  | [], _ => True
  | s :: rest, value => e.StageClean s value ∧ ∀ v, e.stage s value = .ok v → e.ChainClean rest v

/-- Does the block meet no error? -/
def BlockClean (e : Evaluator) : List (List Stage) → String → Prop
  | [], _ => True
  | c :: rest, value => e.ChainClean c value ∧ ∀ v, e.chain c value = .ok v → e.BlockClean rest v

/-- Do the branches of a parallel block meet no error? -/
def BranchesClean (e : Evaluator) : List (List Stage) → String → Prop
  | [], _ => True
  | c :: rest, value => e.ChainClean c value ∧ e.BranchesClean rest value

end

/-- Does the evaluation of the program meet no error? -/
def Clean (e : Evaluator) (p : Program) : Prop := e.BlockClean p.statements ""

/-- Branches that have values come to all of them. -/
theorem merged_map_ok (values : List String) :
    merged (values.map .ok) = .ok (Engine.merge values) := by
  have hjoin (values : List String) : joinOutcomes (values.map .ok) = .ok values := by
    induction values with
    | nil => rfl
    | cons v rest ih => rw [List.map_cons, joinOutcomes, ih]
  rw [merged, hjoin]

end Evaluator

/-! ### The processes of a program -/

/-- What an effect counts. -/
def Effect.events : Effect σ → List Event
  | count event => [event]
  | _ => []

namespace Process

/-- Does the process come to the value where nothing is cancelled, and count these events on the way,
in whatever order? -/
def Counts (vars : Variables) : Process σ → String → Multiset Event → Prop
  | done o, v, es => o = .ok v ∧ es = 0
  | look next, v, es => ∀ w, World.Calm vars w → (next w).Counts vars v es
  | act e next, v, es => (∀ w, World.Calm vars w → World.Calm vars (e.apply w)) ∧
      ∃ rest, next.Counts vars v rest ∧ es = e.events + rest
  | wait _ next, v, es => next.Counts vars v es
  | nap _ _ next, v, es => (next false).Counts vars v es
  | fork _ count branch next, v, es =>
      ∃ (values : Fin count → String) (parts : Fin count → Multiset Event) (rest : Multiset Event),
        (∀ i, (branch i).Counts vars (values i) (parts i)) ∧
          (next (.ok (List.ofFn values))).Counts vars v rest ∧ es = ∑ i, parts i + rest

variable {vars : Variables} {p next : Process σ} {u v : String} {es es' : Multiset Event}

/-- **What is counted adds up.** -/
theorem Counts.andThen {k : Outcome → Process σ} (h : p.Counts vars u es)
    (hk : (k (.ok u)).Counts vars v es') : (p.andThen k).Counts vars v (es + es') := by
  induction p generalizing es with
  | done o =>
    obtain ⟨rfl, rfl⟩ := h
    rwa [zero_add]
  | look next ih => exact fun w hw => ih w (h w hw)
  | act e next ih =>
    obtain ⟨hcalm, rest, hrest, rfl⟩ := h
    exact ⟨hcalm, rest + es', ih hrest, add_assoc _ _ _⟩
  | wait seconds next ih => exact ih h
  | nap place r next ih => exact ih false h
  | fork kind count branch next _ ih =>
    obtain ⟨values, parts, rest, hb, hnext, rfl⟩ := h
    exact ⟨values, parts, rest + es', hb, ih _ hnext, add_assoc _ _ _⟩

theorem Counts.bind {k : String → Process σ} (h : p.Counts vars u es)
    (hk : (k u).Counts vars v es') : (p.bind k).Counts vars v (es + es') :=
  h.andThen hk

theorem counts_ok (v : String) : (ok v : Process σ).Counts vars v 0 := ⟨rfl, rfl⟩

theorem counts_act {e : Effect σ}
    (he : ∀ w : World σ, (e.apply w).cancelled = w.cancelled ∧ (e.apply w).vars = w.vars)
    (h : next.Counts vars v es) : (act e next).Counts vars v (e.events + es) :=
  ⟨fun w hw => ⟨(he w).1.trans hw.running, (he w).2.trans hw.vars_eq⟩, es, h, rfl⟩

theorem counts_event (event : Event) (h : next.Counts vars v es) :
    (act (.count event) next).Counts vars v (event ::ₘ es) :=
  counts_act (fun _ => ⟨rfl, rfl⟩) h

/-- The other effects count nothing. -/
theorem counts_act_nil {e : Effect σ}
    (he : ∀ w : World σ, (e.apply w).cancelled = w.cancelled ∧ (e.apply w).vars = w.vars)
    (hnil : e.events = []) (h : next.Counts vars v es) : (act e next).Counts vars v es := by
  have hact : (act e next).Counts vars v (e.events + es) := counts_act he h
  rwa [hnil, Multiset.coe_nil, zero_add] at hact

theorem counts_log {level : Level} {text : String} (h : next.Counts vars v es) :
    (log level text next).Counts vars v es :=
  counts_act_nil (fun _ => ⟨rfl, rfl⟩) rfl h

theorem counts_checkpoint {place : String} (h : next.Counts vars v es) :
    (checkpoint place next).Counts vars v es := by
  intro w hw
  simp only [hw.running, Bool.false_eq_true, if_false]
  exact h

theorem counts_sleep {place : String} {seconds : Binary64} {next : Bool → Process σ}
    (h : (next false).Counts vars v es) : (sleep place seconds next).Counts vars v es :=
  counts_act_nil (fun _ => ⟨rfl, rfl⟩) rfl h

/-- A job counts nothing. -/
theorem counts_ofJob {j : Job σ} (h : j.Gives (.ok v)) : (ofJob j).Counts vars v 0 := by
  induction j with
  | finish r => exact ⟨h, rfl⟩
  | look next ih => exact fun w hw => ih w (h w hw.running)
  | alter f next ih => exact counts_act_nil (fun _ => ⟨rfl, rfl⟩) rfl (ih h)
  | cancel next => exact h.elim
  | assign name value next => exact h.elim
  | log line next ih => exact counts_act_nil (fun _ => ⟨rfl, rfl⟩) rfl (ih h)
  | wait seconds next ih => exact ih h
  | nap place seconds next ih => exact counts_sleep (ih false h)

/-- A thread counts what its work counts. -/
theorem counts_inThread (h : p.Counts vars v es) : (inThread p).Counts vars v es :=
  ⟨fun _ => v, fun _ => es, 0, fun _ => h, ⟨rfl, rfl⟩, by rw [Fin.sum_univ_one, add_zero]⟩

/-- Work counts the same in whatever style it is called. -/
theorem counts_callIn (h : p.Counts vars v es) :
    ∀ style, (Engine.callIn style p).Counts vars v es
  | .direct => h
  | .threaded => counts_inThread h
  | .deferred => by
    have hall : ((inThread (ok "")).andThen fun _ => p).Counts vars v (0 + es) :=
      (counts_inThread (counts_ok "")).andThen h
    rwa [zero_add] at hall

/-- A loop counts what its items count. -/
theorem counts_iterateFrom {process : String → Nat → Process σ} {delay : Binary64}
    {next : List (ItemResult Failure) → Process σ} (outcome : String → Outcome)
    (events : String → List Event) {items : List String}
    (hitems : ∀ item ∈ items, ∃ u, outcome item = .ok u ∧
      ∀ i, (process item i).Counts vars u (events item)) {index : Nat}
    {results : List (ItemResult Failure)}
    (hnext : (next (results.reverse ++ items.mapIdx fun i item =>
      ⟨((index + i : Nat) : Int), item, outcome item⟩)).Counts vars v es) :
    (iterateFrom process delay next items index results).Counts vars v
      (items.flatMap events + es) := by
  induction items generalizing index results with
  | nil =>
    rw [List.mapIdx_nil, List.append_nil] at hnext
    rwa [List.flatMap_nil, Multiset.coe_nil, zero_add]
  | cons item rest ih =>
    obtain ⟨u, hu, hitem⟩ := hitems item (List.mem_cons_self ..)
    rw [iterateFrom, List.flatMap_cons, ← Multiset.coe_add, add_assoc]
    intro w hw
    simp only [hw.running, Bool.false_eq_true, if_false]
    have hgo : (iterateFrom process delay next rest (index + 1)
        (⟨index, item, .ok u⟩ :: results)).Counts vars v (rest.flatMap events + es) := by
      refine ih (fun i hi => hitems i (List.mem_cons_of_mem _ hi)) ?_
      rw [List.mapIdx_cons, hu] at hnext
      simpa [List.append_assoc, Nat.add_assoc, Nat.add_comm 1] using hnext
    refine (hitem index).andThen ?_
    dsimp only
    split
    · exact hgo
    · exact counts_sleep hgo

end Process

namespace Engine

variable {e : Engine σ} {v : Evaluator} {vars : Variables}

/-- A parallel block counts what its branches count, and itself. -/
theorem counts_runParallel {branches : List (Process σ)} {shares : List (String × List Event)}
    (hb : List.Forall₂ (fun p share => p.Counts vars share.1 share.2) branches shares) :
    (runParallel branches).Counts vars (merge (shares.map Prod.fst))
      (.parallel :: (shares.map Prod.snd).flatten : List Event) := by
  have hlen : branches.length = shares.length := hb.length_eq
  have hofFn {α : Type} (f : String × List Event → α) :
      (List.ofFn fun i : Fin branches.length => f shares[i]) = shares.map f := by
    apply List.ext_getElem (by simp [hlen])
    intro i h₁ h₂
    simp
  have hparts : ∑ i : Fin branches.length, ((shares[i]).2 : Multiset Event) =
      (shares.map Prod.snd).flatten := by
    rw [← List.sum_ofFn, hofFn fun share => (share.2 : Multiset Event), ← Multiset.coe_join,
      List.map_map]
    rfl
  rw [runParallel, ← Multiset.cons_coe]
  refine Process.counts_event .parallel (Process.counts_log ?_)
  refine ⟨fun i => (shares[i]).1, fun i => (shares[i]).2, 0, fun i => ?_, ?_, ?_⟩
  · exact (List.forall₂_iff_get.mp hb).2 i i.isLt (hlen ▸ i.isLt)
  · rw [hofFn Prod.fst]
    exact Process.counts_ok _
  · rw [hparts, add_zero]

/-- A command that comes to a value is local, and its work gives the value. -/
theorem exists_spec_of_ok (hr : e.registry.Performs v.answers) {action a b input u : String}
    (h : v.stage (.command action a b) input = .ok u) :
    ∃ s, e.registry.get? action = some s ∧ s.remote = false ∧ (s.work a b input).Gives (.ok u) := by
  rw [Evaluator.stage] at h
  rcases hr.known action with ⟨-, ha⟩ | ⟨s, answer, hs, ha, hlocal, hgives⟩
  · rw [ha] at h
    cases h
  · obtain ⟨hjob, -⟩ := hgives a b input
    rw [ha] at h
    dsimp only at h
    cases ho : answer a b input with
    | error f =>
      rw [ho] at h
      cases h
    | ok value =>
      rw [ho] at h hjob
      cases h
      exact ⟨s, hs, hlocal, hjob⟩

/-- A command that has a value counts one call. -/
theorem counts_runCommand (hr : e.registry.Performs v.answers) {action a b input u : String}
    (h : v.stage (.command action a b) input = .ok u) :
    (e.runCommand action a b input).Counts vars u ([.command action] : List Event) := by
  obtain ⟨s, hs, hlocal, hjob⟩ := exists_spec_of_ok hr h
  have hpolicy : s.effectivePolicy = none := by simp [CommandSpec.effectivePolicy, hlocal]
  have hwork : (callIn s.style (.ofJob (s.work a b input))).Counts vars u 0 :=
    Process.counts_callIn (Process.counts_ofJob hjob) s.style
  have hcall : (invoke s action a b input).Counts vars u 0 := by
    refine Process.counts_act_nil (fun _ => ⟨rfl, rfl⟩) rfl ?_
    rw [← zero_add (0 : Multiset Event)]
    exact hwork.andThen (Process.counts_act_nil (fun _ => ⟨rfl, rfl⟩) rfl (Process.counts_ok u))
  rw [runCommand, hs, ← zero_add (([.command action] : List Event) : Multiset Event)]
  simp only [hpolicy]
  refine Process.counts_log (hcall.andThen ?_)
  exact Process.counts_event (.command action) (Process.counts_ok u)

mutual

theorem counts_runStage (hr : e.registry.Performs v.answers) (hlimit : e.loopLimit = v.loopLimit) :
    ∀ (s : Stage) {value : String}, v.StageClean s value → ∃ u, v.stage s value = .ok u ∧
      (e.runStage s value).Counts v.vars u (v.stageEvents s value)
  | .command action a b, value, h => by
    obtain ⟨u, hu⟩ : ∃ u, v.stage (.command action a b) value = .ok u := h
    refine ⟨u, hu, ?_⟩
    rw [runStage, Evaluator.stageEvents, hu]
    exact counts_runCommand hr hu
  | .parallel branches, value, h => by
    obtain ⟨shares, houtcomes, hevents, hb⟩ := counts_branchProcesses hr hlimit branches h
    refine ⟨merge (shares.map Prod.fst), ?_, ?_⟩
    · rw [Evaluator.stage, houtcomes, Evaluator.merged_map_ok]
    · rw [runStage, Evaluator.stageEvents, hevents]
      exact counts_runParallel hb
  | .guarded condition body, value, h => by
    obtain ⟨c, hc, hbody⟩ := h
    rw [Evaluator.stage, runStage, runGuarded, Evaluator.stageEvents, hc]
    cases holds : c.evaluate value v.vars with
    | true =>
      obtain ⟨u, hu, hcounts⟩ := counts_runBlock hr hlimit body (hbody holds)
      refine ⟨u, by simpa [holds] using hu, fun w hw => ?_⟩
      simp only [hw.vars_eq, holds, if_true]
      exact Process.counts_event (.guard true) (Process.counts_log hcounts)
    | false =>
      refine ⟨value, by simp [holds], fun w hw => ?_⟩
      simp only [hw.vars_eq, holds, Bool.false_eq_true, if_false]
      exact Process.counts_event (.guard false) (Process.counts_log (Process.counts_ok value))
  | .forEach strategy body, value, h => by
    rw [Evaluator.stage, runStage, runLoop, Evaluator.stageEvents, Process.iterate, hlimit, items_eq,
      ← Multiset.coe_add]
    refine ⟨_, rfl, Process.counts_log ?_⟩
    refine Process.counts_iterateFrom (v.block body) (v.blockEvents body) ?_ ?_
    · intro item hitem
      obtain ⟨u, hu, hcounts⟩ := counts_runBlock hr hlimit body (h item hitem)
      exact ⟨u, hu, fun _ => hcounts⟩
    · simp only [List.reverse_nil, List.nil_append, Nat.zero_add, List.length_mapIdx]
      exact Process.counts_event (.loop _) (Process.counts_ok _)

theorem counts_runChain (hr : e.registry.Performs v.answers) (hlimit : e.loopLimit = v.loopLimit) :
    ∀ (c : List Stage) {value : String}, v.ChainClean c value → ∃ u, v.chain c value = .ok u ∧
      (e.runChain c value).Counts v.vars u (v.chainEvents c value)
  | [], value, _ => by
    rw [Evaluator.chain, runChain, Evaluator.chainEvents]
    exact ⟨value, rfl, Process.counts_ok value⟩
  | s :: rest, value, h => by
    obtain ⟨x, hx, hs⟩ := counts_runStage hr hlimit s h.1
    obtain ⟨u, hu, hrest⟩ := counts_runChain hr hlimit rest (h.2 x hx)
    rw [Evaluator.chain, runChain, Evaluator.chainEvents, hx, ← Multiset.coe_add]
    exact ⟨u, hu, Process.counts_checkpoint (hs.bind hrest)⟩

theorem counts_runBlock (hr : e.registry.Performs v.answers) (hlimit : e.loopLimit = v.loopLimit) :
    ∀ (body : List (List Stage)) {value : String}, v.BlockClean body value →
      ∃ u, v.block body value = .ok u ∧
        (e.runBlock body value).Counts v.vars u (v.blockEvents body value)
  | [], value, _ => by
    rw [Evaluator.block, runBlock, Evaluator.blockEvents]
    exact ⟨value, rfl, Process.counts_ok value⟩
  | c :: rest, value, h => by
    obtain ⟨x, hx, hc⟩ := counts_runChain hr hlimit c h.1
    obtain ⟨u, hu, hrest⟩ := counts_runBlock hr hlimit rest (h.2 x hx)
    rw [Evaluator.block, runBlock, Evaluator.blockEvents, hx, ← Multiset.coe_add]
    exact ⟨u, hu, hc.bind hrest⟩

theorem counts_branchProcesses (hr : e.registry.Performs v.answers)
    (hlimit : e.loopLimit = v.loopLimit) :
    ∀ (branches : List (List Stage)) {value : String}, v.BranchesClean branches value →
      ∃ shares : List (String × List Event),
        v.branches branches value = (shares.map Prod.fst).map .ok ∧
        v.branchEvents branches value = shares.map Prod.snd ∧
        List.Forall₂ (fun p share => p.Counts v.vars share.1 share.2)
          (e.branchProcesses branches value) shares
  | [], value, _ => by
    rw [Evaluator.branches, branchProcesses, Evaluator.branchEvents]
    exact ⟨[], rfl, rfl, .nil⟩
  | c :: rest, value, h => by
    obtain ⟨u, hu, hc⟩ := counts_runChain hr hlimit c h.1
    obtain ⟨shares, houtcomes, hevents, hrest⟩ := counts_branchProcesses hr hlimit rest h.2
    rw [Evaluator.branches, branchProcesses, Evaluator.branchEvents, hu, houtcomes, hevents]
    exact ⟨(u, v.chainEvents c value) :: shares, rfl, rfl, .cons hc hrest⟩

end

/-- **A clean program counts what its evaluation counts**, and comes to what that comes to. -/
theorem counts_run (hr : e.registry.Performs v.answers) (hlimit : e.loopLimit = v.loopLimit)
    {p : Program} (h : v.Clean p) :
    ∃ u, v.program p = .ok u ∧ (e.run p).Counts v.vars u (v.events p) :=
  counts_runBlock hr hlimit p.statements h

end Engine

end PipeScript
