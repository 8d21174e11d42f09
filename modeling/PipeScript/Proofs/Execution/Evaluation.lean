import PipeScript.Execution.Interpreter

/-!
# Sequential evaluation

A program can be evaluated without tasks and without time: a chain composes its stages, a block threads
a value through its statements, a loop takes one item after the other, and the branches of a parallel
block are evaluated one after the other on the same value.

## The model

The commands are functions from their arguments and their input to an outcome, the variables do not
change, and nothing is cancelled. An evaluation always has an outcome. Where several branches of a
block fail the evaluator takes the failure of the first; `StageLone`, `ChainLone` and `BlockLone` say
that no block that is reached is of that kind.
-/

namespace PipeScript

/-- What commands answer: for a name that is known, the outcome for two arguments and an input. -/
abbrev Answers := String → Option (String → String → String → Outcome)

/-- Is it a failure? -/
def isFailure : Outcome → Bool
  | .ok _ => false
  | .error _ => true

/-- Does one branch fail at most? -/
def LoneFailure (outcomes : List Outcome) : Prop := outcomes.countP isFailure ≤ 1

/-- The values of the branches, or the first failure among them. -/
def joinOutcomes : List Outcome → Joined
  | [] => .ok []
  | .ok v :: rest =>
    match joinOutcomes rest with
    | .ok values => .ok (v :: values)
    | .error (i, f) => .error (i + 1, f)
  | .error f :: _ => .error (0, f)

/-- What a sequential evaluation goes by: the answers of the commands, the variables, and the greatest
number of items of a loop, unless it is zero. -/
structure Evaluator where
  answers : Answers
  vars : Variables
  loopLimit : Nat

namespace Evaluator

/-- The items of a loop over a value. -/
def items (e : Evaluator) (strategy input : String) : List String :=
  let all := Loop.itemsOf input (Loop.strategyName strategy)
  if 0 < e.loopLimit then all.take e.loopLimit else all

/-- What a parallel block comes to. -/
def merged (outcomes : List Outcome) : Outcome :=
  match joinOutcomes outcomes with
  | .ok values => .ok (Engine.merge values)
  | .error (i, f) => .error (.branch i f)

mutual

/-- The outcome of a stage. -/
def stage (e : Evaluator) : Stage → String → Outcome
  | .command action a b, input =>
    match e.answers action with
    | none => .error (.unknownCommand action)
    | some answer => (answer a b input).mapError (.command action)
  | .parallel branches, input => merged (e.branches branches input)
  | .guarded condition body, input =>
    match Condition.parse condition with
    | .error f => .error (.condition f)
    | .ok c => if c.evaluate input e.vars then e.block body input else .ok input
  | .forEach strategy body, input =>
    .ok (Loop.report ((e.items strategy input).mapIdx fun i item => ⟨i, item, e.block body item⟩))

/-- The outcome of a chain. -/
def chain (e : Evaluator) : List Stage → String → Outcome
  | [], value => .ok value
  | s :: rest, value => (e.stage s value).bind (e.chain rest)

/-- The outcome of a block. -/
def block (e : Evaluator) : List (List Stage) → String → Outcome
  | [], value => .ok value
  | c :: rest, value => (e.chain c value).bind (e.block rest)

/-- The outcomes of the branches of a parallel block. -/
def branches (e : Evaluator) : List (List Stage) → String → List Outcome
  | [], _ => []
  | c :: rest, value => e.chain c value :: e.branches rest value

end

/-- The outcome of a program. -/
def program (e : Evaluator) (p : Program) : Outcome := e.block p.statements ""

mutual

/-- Does one branch fail at most in each parallel block that the stage reaches? -/
def StageLone (e : Evaluator) : Stage → String → Prop
  | .command .., _ => True
  | .parallel branches, input =>
    e.BranchesLone branches input ∧ LoneFailure (e.branches branches input)
  | .guarded condition body, input =>
    ∀ c, Condition.parse condition = .ok c → c.evaluate input e.vars = true → e.BlockLone body input
  | .forEach strategy body, input => ∀ item ∈ e.items strategy input, e.BlockLone body item

/-- Does one branch fail at most in each parallel block that the chain reaches? -/
def ChainLone (e : Evaluator) : List Stage → String → Prop
  | [], _ => True
  | s :: rest, value => e.StageLone s value ∧ ∀ v, e.stage s value = .ok v → e.ChainLone rest v

/-- Does one branch fail at most in each parallel block that the block reaches? -/
def BlockLone (e : Evaluator) : List (List Stage) → String → Prop
  | [], _ => True
  | c :: rest, value => e.ChainLone c value ∧ ∀ v, e.chain c value = .ok v → e.BlockLone rest v

/-- Does one branch fail at most in each parallel block that the branches reach? -/
def BranchesLone (e : Evaluator) : List (List Stage) → String → Prop
  | [], _ => True
  | c :: rest, value => e.ChainLone c value ∧ e.BranchesLone rest value

end

/-- Does one branch fail at most in each parallel block that the program reaches? -/
def Lone (e : Evaluator) (p : Program) : Prop := e.BlockLone p.statements ""

end Evaluator

end PipeScript
