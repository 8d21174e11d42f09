import PipeScript.Execution.Attempts
import PipeScript.Execution.Iteration
import PipeScript.Registry
import PipeScript.Settings
import PipeScript.Syntax.Program

/-!
# Running programs

The process of a program. A chain threads a value through its stages and a block through its
statements; before each stage the run stops if it has been cancelled. A command's failure is
reported with the command's name, a branch's failure with the branch's position; a cancellation
passes through unchanged.

## The model

A call begins as it is made: its work begins in the task itself, or is handed to a thread in that moment.
A thread comes to its first step in a later turn, and takes turns of its own from then on; how long the
work waits for a thread that is free is part of the work. What a call has come to is noted as its task goes
on with it.

The random numbers by which delays are spread are given beforehand. Which one is drawn may depend on how
many calls have begun in the run when a command is met, and on the attempt after which it is drawn.
-/

namespace PipeScript

/-- The random numbers by which delays are spread. -/
structure Draws where
  /-- The number that is drawn for a command that is met after so many calls, after one of its
  attempts. -/
  share (calls attempt : Nat) : Binary64

/-- The same number, whenever one is drawn. -/
def Draws.constant (x : Binary64) : Draws := ⟨fun _ _ => x⟩

instance : Coe Binary64 Draws := ⟨Draws.constant⟩

/-- What a run goes by: the commands, the loop settings, and the random numbers for delays. -/
structure Engine (σ : Type) where
  registry : Registry (Collaborator σ)
  loopDelay : Binary64
  loopLimit : Nat
  draw : Draws

namespace Engine

variable {σ : Type}

/-- The engine of settings. -/
def ofSettings (registry : Registry (Collaborator σ)) (s : Settings) (draw : Draws) : Engine σ :=
  ⟨registry, s.loopDelay, s.loopLimit, draw⟩

/-- The values of branches under a heading each. -/
def merge (values : List String) : String :=
  "\n\n".intercalate (values.mapIdx fun i v => s!"=== Branch {i + 1} ===\n{v}")

/-- Work that is called in a style: by the task itself, by a thread, or by the task after a thread. -/
def callIn : CallStyle → Process σ → Process σ
  | .direct, work => work
  | .threaded, work => .inThread work
  | .deferred, work => (Process.inThread (.ok "")).andThen fun _ => work

/-- One call of a command. If a thread does the work, the call begins as it is handed over. -/
def invoke (s : CommandSpec (Collaborator σ)) (action a b input : String) : Process σ :=
  .act (.begin action a b input) <|
    (callIn s.style (.ofJob (s.work a b input))).andThen fun outcome =>
      .act (.finish action outcome) (.done outcome)

/-- The failure of a command. -/
def commandFailure (action : String) (f : Failure) : Failure :=
  if f.isCancelled then f else .command action f

/-- Run a command. -/
def runCommand (e : Engine σ) (action a b input : String) : Process σ :=
  match e.registry.get? action with
  | none => .fail (.unknownCommand action)
  | some s =>
    let call := invoke s action a b input
    let work := match s.effectivePolicy with
      | none => call
      | some policy => .look fun w =>
        .attempts policy action (e.draw.share w.calls.length) (fun _ => call)
    .log .debug s!"[command] {action} {Text.quote a} {Text.quote b}" <|
      work.andThen fun
        | .ok value => .act (.count (.command action)) (.ok value)
        | .error f => .fail (commandFailure action f)

/-- What a parallel block comes to when its branches are done. -/
def joinBranches : Joined → Process σ
  | .ok values => .ok (merge values)
  | .error (index, f) => .fail (if f.isCancelled then f else .branch index f)

/-- Run branches in parallel. -/
def runParallel (branches : List (Process σ)) : Process σ :=
  .act (.count .parallel) <|
    .log .debug s!"[parallel] begin: {branches.length} branches" <|
      .fork .block branches.length (fun i => branches[i]) joinBranches

/-- Run a block if its condition holds, else pass the value on. -/
def runGuarded (condition input : String) (body : String → Process σ) : Process σ :=
  match Condition.parse condition with
  | .error e => .fail (.condition e)
  | .ok c =>
    .look fun w =>
      let holds := c.evaluate input w.vars
      .act (.count (.guard holds)) <|
        .log .debug s!"[if] {Text.quote condition} -> {holds}" <|
          if holds then body input else .ok input

/-- Run a block on each item of a value, and report. -/
def runLoop (e : Engine σ) (strategy input : String) (body : String → Process σ) : Process σ :=
  let plan := Loop.Plan.ofArgument strategy e.loopDelay e.loopLimit
  let items := Loop.itemsOf input plan.separator
  .log .debug s!"[foreach] {items.length} items (strategy={plan.separator})" <|
    .iterate plan items (fun item _ => body item) fun results =>
      .act (.count (.loop results.length)) (.ok (Loop.report results))

mutual

/-- Run a stage on a value. -/
def runStage (e : Engine σ) : Stage → String → Process σ
  | .command action a b, input => e.runCommand action a b input
  | .parallel branches, input => runParallel (branchProcesses e branches input)
  | .guarded condition body, input => runGuarded condition input (runBlock e body)
  | .forEach strategy body, input => e.runLoop strategy input (runBlock e body)

/-- Run the stages of a chain on a value. -/
def runChain (e : Engine σ) : List Stage → String → Process σ
  | [], value => .ok value
  | s :: rest, value => .checkpoint "" ((runStage e s value).bind (runChain e rest))

/-- Run the statements of a block on a value. -/
def runBlock (e : Engine σ) : List (List Stage) → String → Process σ
  | [], value => .ok value
  | chain :: rest, value => (runChain e chain value).bind (runBlock e rest)

/-- The processes of the branches of a parallel block. -/
def branchProcesses (e : Engine σ) : List (List Stage) → String → List (Process σ)
  | [], _ => []
  | chain :: rest, value => runChain e chain value :: branchProcesses e rest value

end

/-- Run a program. -/
def run (e : Engine σ) (p : Program) : Process σ := e.runBlock p.statements ""

end Engine

end PipeScript
