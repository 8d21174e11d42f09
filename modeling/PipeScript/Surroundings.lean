import PipeScript.Cache
import PipeScript.Settings

/-!
# Surroundings

What built-in commands work with: the settings, the disk and the result cache on it, the remote
services, the text-generation service, and the standard input. The services are given by the replies
that they have in store, used in order; what was asked of them is recorded.

As many replies may be in store as requests are made; the last one stays, so that they need not be
counted. What comes of a request with none in store is said apart: unless told otherwise, data cannot be
had, and a text is always the same.
-/

namespace PipeScript

/-- A remote service. -/
inductive Service
  | geocode
  | forecast
  | markets
deriving DecidableEq, Repr

/-- The address of a service. -/
def Service.url : Service → String
  | geocode => "https://geocoding-api.open-meteo.com/v1/search"
  | forecast => "https://api.open-meteo.com/v1/forecast"
  | markets => "https://api.coingecko.com/api/v3/coins/markets"

/-- The body of an answer: a value, or a text that may be one. -/
inductive Body
  | value (v : Json)
  | text (s : String)

/-- What comes of a request. -/
inductive Reply
  | answer (status : Int) (reason : String) (body : Body)
  | failure (text : String)

/-- A request for data. -/
structure DataRequest where
  service : Service
  parameters : List (String × Json)
  /-- Seconds to wait for the answer. -/
  timeout : Binary64

/-- What comes of a request for text: choices, of which the first one counts, or nothing. -/
inductive Completion
  | choices (texts : List (Option String))
  | nothing
  | failure (text : String)
deriving DecidableEq, Repr

/-- A request for text. -/
structure TextRequest where
  key : String
  timeout : Binary64
  model : String
  prompt : String
deriving DecidableEq, Repr

/-- What built-in commands work with. -/
structure Surroundings where
  settings : Settings
  disk : Disk := {}
  /-- The directory of the result cache, if results are cached. -/
  cache : Option Path := none
  /-- The time by which cached results expire, in seconds. -/
  clock : Binary64
  replies : Service → List Reply := fun _ => []
  /-- What comes of a request for data when no reply is in store. -/
  noReply : Reply := .failure "no route to host"
  completions : List Completion := []
  /-- What comes of a request for text when no reply is in store. -/
  noCompletion : Completion := .choices [some "answer"]
  input : String := ""
  dataRequests : List DataRequest := []
  textRequests : List TextRequest := []

/-- The next reply in store, and what is left; the last one stays. Whatever is replied to requests of a
finite number can be put in store. -/
def nextOf {α : Type} : List α → Option α × List α
  | [] => (none, [])
  | [a] => (some a, [a])
  | a :: rest => (some a, rest)

/-- What a program sends with each request to be known by. -/
def userAgent : String := "agentscript/0.1"

/-- Work of a built-in command. -/
abbrev Errand (α : Type) := Work Surroundings α

namespace Surroundings

/-- Work on the disk. -/
def onDisk {α : Type} (w : Work Disk α) : Errand α :=
  Work.within (·.disk) (fun d s => { s with disk := d }) w

/-- The failure of a text that cannot be read as data. -/
def unreadable (s : List Char) (r : Json.Refusal) : Failure :=
  match r.problem with
  | .longInteger digits => .longInteger digits
  | .tooDeep container => .tooDeep container
  | _ => .badJson (r.message s)

/-- The failure that a reply is, or its data. -/
def dataOf (url : String) : Reply → Except Failure Json
  | .failure text => .error (.reported .connection text)
  | .answer status reason body =>
    if 400 ≤ status && status < 600 then .error (.httpStatus status reason url)
    else
      match body with
      | .value v => .ok v
      | .text t =>
        (Json.read Json.answerDialect t.toList).mapError (unreadable t.toList)

/-- Ask a service for data. -/
def fetch (service : Service) (parameters : List (String × Json)) : Errand Json := .of fun s =>
  let (reply, rest) := nextOf (s.replies service)
  let request := ⟨service, parameters, s.settings.httpTimeout⟩
  let s' := { s with
    replies := fun other => if other = service then rest else s.replies other
    dataRequests := s.dataRequests ++ [request] }
  (dataOf service.url (reply.getD s.noReply), s')

/-- The text that a completion is: the first choice, empty if there is none. -/
def textOf : Completion → Outcome
  | .choices (some text :: _) => .ok text
  | .choices _ => .ok ""
  | .nothing => .ok ""
  | .failure text => .error (.reported .service text)

/-- Ask the text-generation service for a text. It waits four times as long as for data. -/
def complete (prompt : String) : Errand String := .of fun s =>
  match s.settings.key.filter (!·.isEmpty) with
  | none => (.error .noKey, s)
  | some key =>
    let (reply, rest) := nextOf s.completions
    let request := ⟨key, s.settings.httpTimeout * 4, s.settings.model, prompt⟩
    let s' := { s with completions := rest, textRequests := s.textRequests ++ [request] }
    (textOf (reply.getD s.noCompletion), s')

/-- The result cache at the present time. -/
def cacheNow (s : Surroundings) : Option Cache := s.cache.map fun dir => ⟨dir, s.clock⟩

/-- The cached text, or the one that `fetch` gives, which is then stored. -/
def cached (space key : String) (lifetime : Nat) (fetch : Errand String) : Errand String := do
  let s ← getThe Surroundings
  let v ← Cache.through onDisk s.cacheNow space key (.int lifetime) (Json.string <$> fetch)
  pure v.display

/-- The value if the data of a source keeps the rules of a record. -/
def fitting {α : Type} (source record : String) (check : Json → Checked α) (v : Json) :
    Except Failure α :=
  (check v).mapError fun es => .misfit source (.fields record es)

/-- Read each row of an answer that has to be a list. The first row with errors fails the answer. -/
def rows {α : Type} (source record : String) (check : Json → Checked α) :
    Json → Except Failure (List α)
  | .array vs => vs.mapM (fitting source record check)
  | v => .error (.misfit source (.notList v.typeName))

end Surroundings

end PipeScript
