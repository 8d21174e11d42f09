import PipeScript.Command.Assistant
import PipeScript.Command.Basic
import PipeScript.Command.Files
import PipeScript.Command.Forecast
import PipeScript.Command.Prices
import PipeScript.Registry

/-!
# The built-in commands

The registry that programs run with unless another one is given. Commands that ask a service are
remote; the others are local. All of them are plain functions, so a program has them called in threads;
the style in which they are called is left to the one who runs it (`Registry.inStyle`).
-/

namespace PipeScript.Command

/-- The work of a command as a job. -/
def errand (w : String → String → String → Errand String) : Collaborator Surroundings :=
  fun a b input => .ofWork (w a b input)

/-- A local command. -/
def builtinLocal (name : String) (work : Collaborator Surroundings) (doc : String) :
    CommandSpec (Collaborator Surroundings) :=
  Registry.spec name work false none "" doc

/-- A remote command. -/
def builtinRemote (name : String) (work : String → String → String → Errand String) (doc : String) :
    CommandSpec (Collaborator Surroundings) :=
  Registry.spec name (errand work) true none "" doc

/-- All built-in commands. -/
def builtins : List (CommandSpec (Collaborator Surroundings)) := [
  builtinLocal "merge" merge
    "merge - combine parallel results (parallel already merges, so this passes input through).",
  builtinLocal "echo" echo
    "echo \"text\" - emit text, or the piped input when no text is given.",
  builtinLocal "set" set
    "set \"name\" [\"value\"] - store a variable for later `if` conditions; passes input through.",
  builtinLocal "save" (errand save)
    "save \"path\" - write the piped input to a file and return the path.",
  builtinLocal "read" (errand read) "read \"path\" - return a file's contents.",
  builtinLocal "list" (errand list) "list \"path\" - list directory entries.",
  builtinLocal "stdin" stdin "stdin \"prompt\" - read text from standard input.",
  builtinRemote "weather" weather
    "weather \"city\" - current conditions and 7-day forecast (Open-Meteo).",
  builtinRemote "crypto" crypto
    "crypto \"BTC,ETH\" | crypto \"top 10\" - spot prices from CoinGecko.",
  builtinRemote "ask" ask
    "ask \"question\" - answer a question, using the piped input as context.",
  builtinRemote "summarize" summarize "summarize - condense the piped input.",
  builtinRemote "analyze" analyze
    "analyze \"focus\" - analyse the piped input, optionally with a focus.",
  builtinRemote "translate" translate "translate \"language\" - translate the piped input."]

/-- The registry of the built-in commands. -/
def registry : Registry (Collaborator Surroundings) := builtins.foldl Registry.add {}

end PipeScript.Command
