import PipeScript.Keyed
import PipeScript.Retry

/-!
# Command registry

The commands that a program may use, by name in lower case. Registering a name again replaces the
command. Remote commands are retried, by their own policy or by the one for their name; local ones
are not.

A command whose function is no coroutine is called in a worker thread. What such a function returns may
have to be awaited yet, by the task that has called it.
-/

namespace PipeScript

/-- Where the work of a command is done. -/
inductive CallStyle
  /-- In the task that calls it. -/
  | direct
  /-- In a thread, for which the task waits. -/
  | threaded
  /-- In the task, once a thread has made it ready. -/
  | deferred
deriving DecidableEq, Repr

/-- A command: its name, what it does, and how it is called. -/
structure CommandSpec (φ : Type) where
  name : String
  work : φ
  style : CallStyle := .direct
  remote : Bool := false
  policy : Option RetryPolicy := none
  help : String := ""

/-- The policy by which calls of the command are retried, if they are. -/
def CommandSpec.effectivePolicy {φ : Type} (s : CommandSpec φ) : Option RetryPolicy :=
  if s.remote then some (s.policy.getD (.forCommand s.name)) else none

/-- Commands by name. -/
structure Registry (φ : Type) where
  specs : List (CommandSpec φ) := []

namespace Registry

variable {φ : Type}

/-- The name under which a command is kept. -/
def key (name : String) : String := String.ofList (Text.lower name.toList)

/-- A command under its key. A command without help text is described by the one documented at its
work. -/
def spec (name : String) (work : φ) (remote : Bool) (policy : Option RetryPolicy)
    (help doc : String) : CommandSpec φ :=
  { name := key name, work, remote, policy
    help := if help.isEmpty then String.ofList (Text.trim doc.toList) else help }

/-- The registry with a command added, in place of the one of the same name. -/
def add (r : Registry φ) (s : CommandSpec φ) : Registry φ :=
  ⟨Keyed.put CommandSpec.name s r.specs⟩

/-- The same commands, called in another style. -/
def inStyle (r : Registry φ) (style : CallStyle) : Registry φ :=
  ⟨r.specs.map fun s => { s with style }⟩

/-- The command of a name, in any letter case. -/
def get? (r : Registry φ) (name : String) : Option (CommandSpec φ) :=
  Keyed.find? CommandSpec.name (key name) r.specs

/-- Is there a command of the name? -/
def contains (r : Registry φ) (name : String) : Bool := (r.get? name).isSome

/-- The commands in the order of their names. -/
def sorted (r : Registry φ) : List (CommandSpec φ) :=
  r.specs.mergeSort fun s t => !Condition.textLess t.name.toList s.name.toList

/-- The names in order. -/
def names (r : Registry φ) : List String := r.sorted.map (·.name)

/-- The number of commands. -/
def size (r : Registry φ) : Nat := r.specs.length

theorem get?_add (r : Registry φ) (s : CommandSpec φ) (name : String) :
    (r.add s).get? name = if key name = s.name then some s else r.get? name :=
  Keyed.find?_put CommandSpec.name s (key name) r.specs

end Registry

end PipeScript
