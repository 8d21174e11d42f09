import PipeScript.Proofs.Execution.Cancellation

/-!
# Chains and sequences of statements

A value can be fed through one chain of stages, or through the first part of the chain and then, as a
statement of its own, through the second. A chain looks for a cancellation before each stage and a
block does nothing between two statements, so the two ways are the same process; and as the process of
a program is built from those of its parts, this stays so wherever in the program it is done.

## The model

`BlockDivided` relates two blocks: somewhere in the second one the statements `a` and `b` stand where
the first one has the statement `a -> b`. That place is in the block itself, or in the body of a
condition or a loop at any depth. The branches of a parallel block are no sequence, so they are never
divided themselves; what is inside a branch may be.

Main result: dividing a chain changes nothing about any run, whether it ends, goes on for ever or is
cancelled from outside (`Runtime.execute_of_divided`).
-/

namespace PipeScript

variable {σ : Type}

/-! ### Dividing a chain -/

mutual

/-- Is one chain inside the stage divided into two statements? -/
inductive StageDivided : Stage → Stage → Prop
  | parallel {branches branches' : List (List Stage)} (h : BranchesDivided branches branches') :
      StageDivided (.parallel branches) (.parallel branches')
  | guarded {condition : String} {body body' : List (List Stage)} (h : BlockDivided body body') :
      StageDivided (.guarded condition body) (.guarded condition body')
  | forEach {strategy : String} {body body' : List (List Stage)} (h : BlockDivided body body') :
      StageDivided (.forEach strategy body) (.forEach strategy body')

/-- Is one chain inside a stage of the chain divided into two statements? -/
inductive ChainDivided : List Stage → List Stage → Prop
  | head {s s' : Stage} {chain : List Stage} (h : StageDivided s s') :
      ChainDivided (s :: chain) (s' :: chain)
  | tail {s : Stage} {chain chain' : List Stage} (h : ChainDivided chain chain') :
      ChainDivided (s :: chain) (s :: chain')

/-- Is one chain inside a branch divided into two statements? -/
inductive BranchesDivided : List (List Stage) → List (List Stage) → Prop
  | head {chain chain' : List Stage} {rest : List (List Stage)} (h : ChainDivided chain chain') :
      BranchesDivided (chain :: rest) (chain' :: rest)
  | tail {chain : List Stage} {rest rest' : List (List Stage)} (h : BranchesDivided rest rest') :
      BranchesDivided (chain :: rest) (chain :: rest')

/-- Is one chain of the block, or inside one of its chains, divided into two statements? -/
inductive BlockDivided : List (List Stage) → List (List Stage) → Prop
  | here {a b : List Stage} {rest : List (List Stage)} (ha : a ≠ []) (hb : b ≠ []) :
      BlockDivided ((a ++ b) :: rest) (a :: b :: rest)
  | head {chain chain' : List Stage} {rest : List (List Stage)} (h : ChainDivided chain chain') :
      BlockDivided (chain :: rest) (chain' :: rest)
  | tail {chain : List Stage} {rest rest' : List (List Stage)} (h : BlockDivided rest rest') :
      BlockDivided (chain :: rest) (chain :: rest')

end

/-- Is one chain of the program divided into two statements? -/
def Program.Divided (p p' : Program) : Prop := BlockDivided p.statements p'.statements

/-! ### The same processes -/

theorem Process.bind_ok (value : String) (k : String → Process σ) :
    (Process.ok value).bind k = k value := rfl

/-- A run that is stopped does not go on. -/
theorem Process.checkpoint_bind (place : String) (p : Process σ) (k : String → Process σ) :
    (Process.checkpoint place p).bind k = .checkpoint place (p.bind k) := by
  simp only [Process.checkpoint, Process.bind, Process.andThen]
  congr 1
  funext w
  split <;> rfl

namespace Engine

variable (e : Engine σ)

/-- **A chain is its parts one after the other.** -/
theorem runChain_append (a b : List Stage) (value : String) :
    e.runChain (a ++ b) value = (e.runChain a value).bind (e.runChain b) := by
  induction a generalizing value with
  | nil => rw [List.nil_append, runChain, Process.bind_ok]
  | cons s a ih =>
    rw [List.cons_append, runChain, runChain, Process.checkpoint_bind, Process.bind_assoc]
    congr 2
    funext v
    exact ih v

/-- Two consecutive statements do what the chain of their stages does. -/
theorem runBlock_append (a b : List Stage) (rest : List (List Stage)) (value : String) :
    e.runBlock ((a ++ b) :: rest) value = e.runBlock (a :: b :: rest) value := by
  have hrest (v : String) : e.runBlock (b :: rest) v = (e.runChain b v).bind (e.runBlock rest) := by
    rw [runBlock]
  rw [runBlock, runBlock, runChain_append, Process.bind_assoc, ← funext hrest]

variable {e}

mutual

theorem runStage_of_divided : ∀ {s s' : Stage}, StageDivided s s' →
    ∀ value, e.runStage s value = e.runStage s' value
  | _, _, .parallel h, value => by
    rw [runStage, runStage, branchProcesses_of_divided h]
  | _, _, .guarded h, value => by
    rw [runStage, runStage, funext (runBlock_of_divided h)]
  | _, _, .forEach h, value => by
    rw [runStage, runStage, funext (runBlock_of_divided h)]

theorem runChain_of_divided : ∀ {c c' : List Stage}, ChainDivided c c' →
    ∀ value, e.runChain c value = e.runChain c' value
  | _, _, .head h, value => by
    rw [runChain, runChain, runStage_of_divided h]
  | _, _, .tail h, value => by
    rw [runChain, runChain, funext (runChain_of_divided h)]

theorem branchProcesses_of_divided : ∀ {bs bs' : List (List Stage)}, BranchesDivided bs bs' →
    ∀ value, e.branchProcesses bs value = e.branchProcesses bs' value
  | _, _, .head h, value => by
    rw [branchProcesses, branchProcesses, runChain_of_divided h]
  | _, _, .tail h, value => by
    rw [branchProcesses, branchProcesses, branchProcesses_of_divided h]

/-- **A divided block is the same process**: at the place itself because a chain is its parts, and
above it because a process is built from those of the parts alone. -/
theorem runBlock_of_divided : ∀ {body body' : List (List Stage)}, BlockDivided body body' →
    ∀ value, e.runBlock body value = e.runBlock body' value
  | _, _, .here _ _, value => e.runBlock_append _ _ _ value
  | _, _, .head h, value => by
    rw [runBlock, runBlock, runChain_of_divided h]
  | _, _, .tail h, value => by
    rw [runBlock, runBlock, funext (runBlock_of_divided h)]

end

end Engine

/-! ### The same runs -/

namespace Runtime

theorem process_of_divided (rt : Runtime σ) {p p' : Program} (h : p.Divided p') :
    rt.process p = rt.process p' := by
  rw [process, process, Engine.run, Engine.run, Engine.runBlock_of_divided h]

/-- **A chain is the same as a sequence.** Where a chain of a program is divided into two statements, an
execution comes to the same outcome and leaves the same world: the calls that were made with their
arguments, inputs and times, the variables, the counters, and whatever the commands keep. The same
things happen at the same moments up to every instant on the way, also where the run is cancelled from
outside or never ends. -/
theorem execute_of_divided (rt : Runtime σ) {p p' : Program} (h : p.Divided p') (c : Context) (s : σ)
    (linger : Option Binary64) :
    rt.execute c s p linger = rt.execute c s p' linger ∧
    ∀ (alarms : Alarms Turn) (ms : List (Moment σ)) (q : Point σ),
      Course rt.settings.cancelSiblings (.of (rt.schedule c s p linger alarms)) ms q ↔
        Course rt.settings.cancelSiblings (.of (rt.schedule c s p' linger alarms)) ms q := by
  have hprocess := rt.process_of_divided h
  refine ⟨?_, fun alarms ms q => ?_⟩
  · rw [execute, execute, hprocess]
  · rw [schedule, schedule, hprocess]

/-- Two branches, of which the first one runs the body on each of two items if a condition holds. -/
def branchesAround (body : List (List Stage)) : Program :=
  ⟨[[.command "say" "p,q" "",
    .parallel [[.guarded "contains p" [[.forEach "csv" body]]], [.command "say" "d" ""]]]]⟩

/-- In a branch, the body of a loop below a condition is divided behind the stage that cancels the
run. -/
theorem execute_branchesAround :
    let say : Stage := .command "say" "a" ""
    let stop : Stage := .command "stop" "" ""
    (branchesAround [[say, stop, say]]).Divided (branchesAround [[say, stop], [say]]) ∧
    stoppable.execute {} () (branchesAround [[say, stop, say]]) =
      stoppable.execute {} () (branchesAround [[say, stop], [say]]) := by
  intro say stop
  have hbody : BlockDivided [[say, stop, say]] [[say, stop], [say]] :=
    .here (a := [say, stop]) (b := [say]) (by simp) (by simp)
  have hdivided : (branchesAround [[say, stop, say]]).Divided (branchesAround [[say, stop], [say]]) :=
    .head (.tail (.head (.parallel (.head (.head (.guarded (.head (.head (.forEach hbody)))))))))
  exact ⟨hdivided, (stoppable.execute_of_divided hdivided {} () none).1⟩

end Runtime

end PipeScript
