import PipeScript.Execution.Job
import PipeScript.Surroundings

/-!
# Basic commands

Passing a value on, giving a text, setting a variable, and asking the user.
-/

namespace PipeScript.Command

variable {σ : Type}

/-- Pass the value on. A parallel block merges its branches itself. -/
def merge : Collaborator σ := fun _ _ input => .ok input

/-- Give the text, or pass the value on if there is none. -/
def echo : Collaborator σ := fun text _ input => .ok (if text.isEmpty then input else text)

/-- Set a variable to a text, or to the value if there is none, and pass the value on. -/
def set : Collaborator σ := fun name text input =>
  if name.isEmpty then .fail (.requires "set" "a variable name")
  else .assign name (.string (if text.isEmpty then input else text)) (.ok input)

/-- What the user is shown before the input is read. -/
def promptText (prompt : String) : String :=
  if prompt.isEmpty then "Enter text (Ctrl+D to end): " else prompt ++ ": "

/-- Read what is left of the input. -/
def readInput : Errand String := .of fun s =>
  (.ok (String.ofList (Text.trim s.input.toList)), { s with input := "" })

/-- Ask the user for a text. -/
def stdin : Collaborator Surroundings := fun prompt _ _ =>
  .log ⟨.notice, promptText prompt⟩ (.ofWork readInput)

end PipeScript.Command
