import PipeScript.Disk.Path
import PipeScript.Failure
import PipeScript.Text.Casing
import PipeScript.Validation

/-!
# Settings

How a runtime works: where and whether results are cached, how loops and parallel blocks behave, and
what remote services need. Settings are read from environment variables, where an empty variable
counts as unset, and may be overridden one by one.
-/

namespace PipeScript

/-- Environment variables. -/
abbrev Environment := List (String × String)

namespace Environment

/-- The value of an environment variable that is set. -/
def raw? (env : Environment) (name : String) : Option String :=
  (env.find? fun v => v.1 == name).map (·.2)

/-- The value of an environment variable that is set and not empty. -/
def get? (env : Environment) (name : String) : Option String := (env.raw? name).filter (!·.isEmpty)

/-- The home directory, the root directory if it has no name. A name that starts with a tilde stands
for one that is not known. -/
def home (env : Environment) : Except Failure Path :=
  let named := ((env.raw? "HOME").getD "").toList
  let bare := (named.reverse.dropWhile (· == '/')).reverse
  if bare.head? = some '~' then .error .noHome
  else .ok (.ofString (if bare.isEmpty then "/" else String.ofList bare))

end Environment

/-- How a runtime works. -/
structure Settings where
  cacheDirectory : Path
  cacheEnabled : Bool := true
  verbose : Bool := false
  /-- Seconds between two items of a loop. -/
  loopDelay : Binary64 := .ofRatio false 1 2
  /-- The greatest number of items of a loop, unless it is zero. -/
  loopLimit : Nat := 0
  /-- Whether the other branches of a parallel block are cancelled when one fails. -/
  cancelSiblings : Bool := false
  /-- Seconds to wait for a remote answer. -/
  httpTimeout : Binary64 := 15
  model : String := "gpt-4o"
  key : Option String := none
deriving DecidableEq, Repr

namespace Settings

/-- Where results are cached unless the settings say otherwise. -/
def defaultCacheDirectory (env : Environment) : Except Failure Path :=
  match env.get? "AGENTSCRIPT_CACHE_DIR" with
  | some dir => .ok (.ofString dir)
  | none => env.home.map fun home => (home.child ".agentscript").child "cache"

/-- A switch: a text is on if it is one of the usual words, any other value if it counts as true. -/
def switch : Json → Checked Bool
  | .string s =>
    .ok (["1", "true", "yes", "on"].any fun word =>
      word.toList == Text.lower (Text.trim s.toList))
  | v => .ok v.isTruthy

/-- A path. -/
def path : Json → Checked Path
  | .string s => .ok (.ofString s)
  | v => Checked.fail .notPath v

/-- Read settings from data, given the default directory. -/
def ofData (directory : Path) (fields : Json.Fields) : Checked Settings :=
  let base : Settings := { cacheDirectory := directory }
  let field {α : Type} (name : String) (check : Json → Checked α) (default : α) :=
    Rule.defaulted name check default fields
  Checked.ap (Checked.ap (Checked.ap (Checked.ap (Checked.ap (Checked.ap (Checked.ap (Checked.ap
    ((field "cache_dir" path base.cacheDirectory).map Settings.mk)
    (field "cache_enabled" switch base.cacheEnabled))
    (field "verbose" switch base.verbose))
    (field "foreach_delay" (Rule.numberIn .data [.atLeast 0]) base.loopDelay))
    ((field "foreach_max_items" (Rule.integerIn [.atLeast 0]) base.loopLimit).map Int.toNat))
    (field "cancel_parallel_siblings" switch base.cancelSiblings))
    (field "http_timeout" (Rule.numberIn .data [.above 0]) base.httpTimeout))
    (field "model" Rule.string base.model))
    (field "openai_api_key" (Rule.optional Rule.string) base.key)

/-- Read settings from data. The environment gives the default directory, which is looked for only
where the data names none. -/
def ofFields (env : Environment) (fields : Json.Fields) : Except Failure Settings := do
  let directory ← match Json.field? "cache_dir" fields with
    | some _ => pure (Path.ofString "")
    | none => defaultCacheDirectory env
  (ofData directory fields).mapError (.invalid "Settings")

/-- The environment variable of each field. -/
def variableNames : List (String × String) := [
  ("cache_dir", "AGENTSCRIPT_CACHE_DIR"),
  ("cache_enabled", "AGENTSCRIPT_CACHE"),
  ("verbose", "AGENTSCRIPT_VERBOSE"),
  ("foreach_delay", "AGENTSCRIPT_FOREACH_DELAY"),
  ("foreach_max_items", "AGENTSCRIPT_FOREACH_MAX_ITEMS"),
  ("cancel_parallel_siblings", "AGENTSCRIPT_CANCEL_PARALLEL"),
  ("http_timeout", "AGENTSCRIPT_HTTP_TIMEOUT"),
  ("model", "AGENTSCRIPT_MODEL"),
  ("openai_api_key", "OPENAI_API_KEY")]

/-- Does the value override what the environment says? -/
def overrides : Json → Bool
  | .null => false
  | _ => true

/-- Read settings from environment variables; the fields given beside them count where they have a
value. -/
def ofEnvironment (env : Environment) (given : Json.Fields) : Except Failure Settings :=
  let fromEnv : Json.Fields := variableNames.filterMap fun v =>
    (env.get? v.2).map fun text => (v.1, Json.string text)
  ofFields env (fromEnv ++ given.filter fun f => overrides f.2)

end Settings

end PipeScript
