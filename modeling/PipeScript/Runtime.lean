import PipeScript.Disk
import PipeScript.Execution.Interpreter
import PipeScript.Execution.Scheduler
import PipeScript.Syntax.Parser

/-!
# The runtime

A runtime has its settings and commands, remembers the program that it loaded last, and counts over
all its runs. A run starts in a context, which holds the variables and whether it has been
cancelled, and in surroundings for the commands.
-/

namespace PipeScript

/-- The program in a script file. A file that cannot be read is a syntax error without a place. -/
def Program.ofFile (d : Disk) (path : String) : Except Failure Program :=
  let p := Path.ofString path
  match d.readText p with
  | .ok s => (Syntax.parse s).mapError .parse
  | .error (.disk e) => .error (.parse ⟨.unreadable p.toString e.message, none⟩)
  | .error f => .error f

/-- Where a program comes from. -/
inductive Source
  | text (s : String)
  | file (path : String)
  | program (p : Program)

/-- The program of a source. -/
def Source.program? (d : Disk) : Source → Except Failure Program
  | text s => (Program.parse s).mapError .parse
  | file path => Program.ofFile d path
  | program p => .ok p

/-- What belongs to one execution of a program. -/
structure Context where
  cancelled : Bool := false
  vars : Variables := []

/-- A runtime for commands with surroundings of type `σ`. -/
structure Runtime (σ : Type) where
  settings : Settings
  registry : Registry (Collaborator σ)
  /-- The random numbers by which delays are spread. -/
  draw : Draws := .constant (.ofRatio false 1 2)
  program : Option Program := none
  metrics : Metrics := {}

namespace Runtime

variable {σ : Type}

/-- What the runtime's runs go by. -/
def engine (rt : Runtime σ) : Engine σ := .ofSettings rt.registry rt.settings rt.draw

/-- The program of a source. A text or file becomes the loaded program. -/
def load (rt : Runtime σ) (d : Disk) (source : Source) : Except Failure (Program × Runtime σ) :=
  (source.program? d).map fun p =>
    match source with
    | .program _ => (p, rt)
    | _ => (p, { rt with program := some p })

/-- The world in which a run starts. -/
def worldOf (rt : Runtime σ) (c : Context) (s : σ) : World σ where
  cancelled := c.cancelled
  vars := c.vars
  metrics := rt.metrics
  surroundings := s

/-- A process that goes on for some seconds before it ends, if any are given. -/
def lingering (seconds : Option Binary64) (p : Process σ) : Process σ :=
  match seconds with
  | some x => p.andThen fun outcome => .wait x (.done outcome)
  | none => p

/-- The process of a program, which logs that it has ended well. -/
def process (rt : Runtime σ) (p : Program) : Process σ :=
  (rt.engine.run p).bind fun value => .log .debug "[metrics]" (.ok value)

/-- Run a program. The run may go on for some seconds after its end, in which abandoned branches
still have effects. There is no answer if the run does not end. -/
def execute (rt : Runtime σ) (c : Context) (s : σ) (p : Program)
    (linger : Option Binary64 := none) : Option (Outcome × World σ) :=
  Schedule.run rt.settings.cancelSiblings (rt.worldOf c s) (lingering linger (rt.process p))

end Runtime

end PipeScript
