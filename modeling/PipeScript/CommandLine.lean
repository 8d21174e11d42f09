import PipeScript.Command.Builtin
import PipeScript.CommandLine.Arguments
import PipeScript.Runtime

/-!
# The command line

Runs a script or checks it, reads and runs lines one after the other, and shows or clears the result
cache. A task writes to the output, and to the error output its notices and the lines of the log; it
ends with a code, or stops the program with one or with a text, or fails.
-/

namespace PipeScript.CommandLine

/-- What a program finds where it is started. -/
structure Host where
  environment : Environment
  disk : Disk := {}
  /-- The time, in seconds. -/
  clock : Binary64
  replies : Service → List Reply := fun _ => []
  noReply : Reply := .failure "no route to host"
  completions : List Completion := []
  noCompletion : Completion := .choices [some "answer"]
  input : String := ""
  /-- How the built-in commands are called. They are no coroutines, so a program at work calls them in
  threads; in a rehearsal they are called directly. -/
  style : CallStyle := .direct
  /-- The random numbers by which delays are spread. -/
  draw : Draws := .constant (.ofRatio false 1 2)

/-- What commands work with at the host. -/
def Host.surroundings (h : Host) (s : Settings) : Surroundings where
  settings := s
  disk := h.disk
  cache := if s.cacheEnabled then some s.cacheDirectory else none
  clock := h.clock
  replies := h.replies
  noReply := h.noReply
  completions := h.completions
  noCompletion := h.noCompletion
  input := h.input

/-- How a program ends. -/
inductive Ending
  /-- The task is done, or says that it is not. -/
  | code (n : Nat)
  /-- The program stops early. -/
  | stop (n : Nat)
  /-- The program stops early with a text for the error output. -/
  | stopWith (text : String)
  | failure (f : Failure)

/-- What has been written, the log with the latest line first, what commands work with, how they are
called, and the random numbers for their delays. -/
structure Console where
  output : String := ""
  log : List LogLine := []
  surroundings : Surroundings
  style : CallStyle := .direct
  draw : Draws := .constant (.ofRatio false 1 2)

namespace Console

/-- Write a text to the output. -/
def write (c : Console) (text : String) : Console := { c with output := c.output ++ text }

/-- Write a text to the error output. -/
def notify (c : Console) (text : String) : Console := { c with log := ⟨.notice, text⟩ :: c.log }

/-- The console after work on the disk, and the outcome. -/
def onDisk {α : Type} (c : Console) (w : Work Disk α) : Except Failure α × Console :=
  let (r, s) := (Surroundings.onDisk w).on c.surroundings
  (r, { c with surroundings := s })

end Console

/-- The text of a log line at the error output; what is only for finding faults is left out unless
all is asked for. -/
def logText (verbose : Bool) (l : LogLine) : String :=
  match l.level with
  | .notice => l.text
  | .warning => "WARNING|" ++ l.text ++ "\n"
  | .debug => if verbose then "DEBUG|" ++ l.text ++ "\n" else ""

/-- How arguments are to be written. -/
def usage : String :=
  "usage: [-h] [-v] [--trace] \x7brun,check,repl,cache\x7d ...\n"

/-! ### Scripts -/

/-- The text of a script: the expression, unless it is empty, or what the file holds. -/
def scriptText (a : ScriptArgument) (c : Console) : Except Ending String × Console :=
  match a.expression.filter (!·.isEmpty), a.file.filter (!·.isEmpty) with
  | some text, _ => (.ok text, c)
  | none, none => (.error (.stopWith "error: provide a script file or -e EXPR"), c)
  | none, some name =>
    let path := Path.ofString name
    match c.surroundings.disk.isFile path with
    | .error f => (.error (.failure f), c)
    | .ok false =>
      (.error (.stop 1), c.notify ("Error: Could not find script file '" ++ name ++ "'\n"))
    | .ok true =>
      match c.surroundings.disk.readText path with
      | .ok s => (.ok (String.ofList s), c)
      | .error f => (.error (.failure f), c)

/-- A runtime with the built-in commands; the directory of its cache is made if need be. -/
def openRuntime (c : Console) : Except Failure (Runtime Surroundings) × Console :=
  let s := c.surroundings.settings
  let rt : Runtime Surroundings :=
    { settings := s, registry := Command.registry.inStyle c.style, draw := c.draw }
  if s.cacheEnabled then
    let (r, c') := c.onDisk (.of fun d => d.makeDirectories s.cacheDirectory)
    (r.map fun _ => rt, c')
  else (.ok rt, c)

/-- The console after a run that has ended in a world. -/
def Console.after (c : Console) (w : World Surroundings) : Console :=
  { c with log := w.log ++ c.log, surroundings := w.surroundings }

/-- Run a program in a context of its own. There is no outcome if it does not end. -/
def execute (rt : Runtime Surroundings) (p : Program) (c : Console) : Option Outcome × Console :=
  match rt.execute {} c.surroundings p with
  | none => (none, c)
  | some (r, w) => (some r, c.after w)

/-- Run a script and write its result. A run that does not end is given up. -/
def runScript (a : ScriptArgument) (c : Console) : Ending × Console :=
  match scriptText a c with
  | (.error e, c) => (e, c)
  | (.ok text, c) =>
    match Program.parse text with
    | .error e => (.code 1, c.notify ("Parse error: " ++ e.message ++ "\n"))
    | .ok p =>
      match openRuntime c with
      | (.error f, c) => (.failure f, c)
      | (.ok rt, c) =>
        match execute rt p c with
        | (some (.ok value), c) => (.code 0, c.write (value ++ "\n"))
        | (some (.error f), c) =>
          if f.isOwn then (.code 1, c.notify ("Execution error: " ++ f.message ++ "\n"))
          else (.failure f, c)
        | (none, c) => (.code 1, c)

/-- Check a script. An error is written with its place in front, as editors expect it. -/
def checkScript (a : ScriptArgument) (c : Console) : Ending × Console :=
  match scriptText a c with
  | (.error e, c) => (e, c)
  | (.ok text, c) =>
    match Program.parse text with
    | .error e => (.code 1, c.write (e.message ++ "\n"))
    | .ok p => (.code 0, c.write s!"OK: {p.size} statement(s)\n")

/-! ### Line by line -/

/-- What is shown before a line is read. -/
def prompt : String := "> "

/-- What is written at the start. -/
def banner : String := "AgentScript REPL\nCommands: :help, :quit\n"

/-- What is written when help is asked for. -/
def lineHelp : String := "
REPL Commands:
  :help, :h   Show this help
  :quit, :q   Exit REPL

Pipe commands with ->:
  weather \"Paris\" -> save \"paris.md\"

Parallel execution:
  parallel \x7b crypto \"BTC\" crypto \"ETH\" \x7d -> merge -> summarize

Conditionals:
  weather \"Paris\" -> if \"rain > 50\" \x7b save \"umbrella.md\" \x7d
"

/-- What a line asks for. -/
inductive Line
  | blank
  | quit
  | help
  | script (text : String)
deriving DecidableEq, Repr

/-- What a line asks for, whatever blanks are around it. -/
def Line.ofText (s : List Char) : Line :=
  let text := String.ofList (Text.trim s)
  if text.isEmpty then .blank
  else if [":quit", ":q"].contains text then .quit
  else if [":help", ":h"].contains text then .help
  else .script text

/-- What is written about the outcome of a line. -/
def outcomeText : Outcome → Except Failure String
  | .ok value => .ok ("\n" ++ value ++ "\n\n")
  | .error (.parse e) => .ok ("Parse error: " ++ e.message ++ "\n")
  | .error f => if f.isOwn then .ok ("Execution error: " ++ f.message ++ "\n") else .error f

/-- The outcome of the script of a line. -/
def lineOutcome (rt : Runtime Surroundings) (text : String) (c : Console) :
    Option Outcome × Console :=
  match Program.parse text with
  | .error e => (some (.error (.parse e)), c)
  | .ok p => execute rt p c

/-- Run the script of a line and write its result or its error. The program ends with a failure that
the runtime does not report; a run that does not end is given up, and the program with it. -/
def runLine (rt : Runtime Surroundings) (text : String) (c : Console) : Option Ending × Console :=
  match lineOutcome rt text c with
  | (none, c) => (some (.code 1), c)
  | (some outcome, c) =>
    match outcomeText outcome with
    | .ok answer => (none, c.write answer)
    | .error f => (some (.failure f), c)

/-- The first line of a text without its newline, and the rest. -/
def nextLine (s : List Char) : List Char × List Char :=
  (s.takeWhile (· ≠ '\n'), (s.dropWhile (· ≠ '\n')).drop 1)

/-- The next line of the input, which it is taken from, unless the input is at its end. -/
def readLine (c : Console) : Option (Line × Console) :=
  let input := c.surroundings.input.toList
  if input.isEmpty then none
  else
    let (line, rest) := nextLine input
    some (.ofText line, { c with surroundings := { c.surroundings with input := String.ofList rest } })

/-- Do what a line asks for; the program may end with it. -/
def answerLine (rt : Runtime Surroundings) (line : Line) (c : Console) : Option Ending × Console :=
  match line with
  | .blank => (none, c)
  | .quit => (some (.code 0), c.write "Goodbye!\n")
  | .help => (none, c.write (lineHelp ++ "\n"))
  | .script text => runLine rt text c

/-- Read and run lines until the input ends or one ends the program. No more lines are read than the
given number. -/
def runLines (rt : Runtime Surroundings) : Nat → Console → Ending × Console
  | 0, c => (.code 0, c)
  | n + 1, c =>
    match readLine (c.write prompt) with
    | none => (.code 0, (c.write prompt).write "\n")
    | some (line, c) =>
      match answerLine rt line c with
      | (none, c) => runLines rt n c
      | (some ending, c) => (ending, c)

/-- Read and run the lines of the input. Every line takes at least one character of it. -/
def repl (c : Console) : Ending × Console :=
  match openRuntime c with
  | (.error f, c) => (.failure f, c)
  | (.ok rt, c) => runLines rt (c.surroundings.input.length + 1) (c.write banner)

/-! ### The cache -/

/-- Do something with the result cache and write what came of it. -/
def withCache (act : Cache → Console → Except Failure String × Console) (c : Console) :
    Ending × Console :=
  let s := c.surroundings
  match c.onDisk (.of fun d => d.makeDirectories s.settings.cacheDirectory) with
  | (.error f, c) => (.failure f, c)
  | (.ok _, c) =>
    match act ⟨s.settings.cacheDirectory, s.clock⟩ c with
    | (.ok text, c) => (.code 0, c.write (text ++ "\n"))
    | (.error f, c) => (.failure f, c)

/-- Show the state of the cache. -/
def cacheStats (cache : Cache) (c : Console) : Except Failure String × Console :=
  (.ok (cache.stats c.surroundings.disk), c)

/-- Clear the cache. -/
def cacheClear (cache : Cache) (c : Console) : Except Failure String × Console :=
  let (r, c) := c.onDisk cache.clear
  match r with
  | .ok n =>
    let line := ⟨.debug, s!"[cache] CLEARED {n} entries"⟩
    (.ok s!"Removed {n} cache entries", { c with log := line :: c.log })
  | .error f => (.error f, c)

/-! ### Tasks -/

/-- Do a task. -/
def perform : Task → Console → Ending × Console
  | .run script => runScript script
  | .check script => checkScript script
  | .repl => repl
  | .cacheStats => withCache cacheStats
  | .cacheClear => withCache cacheClear

/-- What a program leaves behind: how it ended, what it wrote, and the disk. -/
structure Result where
  ending : Ending
  output : String := ""
  errors : String := ""
  /-- Whether the error output holds lines that only a verbose log has. -/
  detailed : Bool := false
  disk : Disk

/-- The result of a task. -/
def Result.ofConsole (ending : Ending) (c : Console) : Result where
  ending := ending
  output := c.output
  errors := String.join (c.log.reverse.map (logText c.surroundings.settings.verbose))
  detailed := c.surroundings.settings.verbose && c.log.any (·.level = .debug)
  disk := c.surroundings.disk

/-- The console for arguments at a host, with the settings that they make. -/
def openConsole (a : Arguments) (h : Host) : Except Failure Console :=
  let given : Json.Fields := if a.verbose then [("verbose", .bool true)] else []
  (Settings.ofEnvironment h.environment given).map fun s =>
    { surroundings := h.surroundings s, style := h.style, draw := h.draw }

/-- Run the program with its arguments. -/
def run (arguments : List String) (h : Host) : Result :=
  match Arguments.parse arguments with
  | .error .help => { ending := .stop 0, output := usage, disk := h.disk }
  | .error .misuse => { ending := .stop 2, errors := usage, disk := h.disk }
  | .ok a =>
    match openConsole a h with
    | .error f => { ending := .failure f, disk := h.disk }
    | .ok c =>
      match a.task with
      | none => { ending := .code 1, output := usage, disk := h.disk }
      | some task =>
        let (ending, c) := perform task c
        .ofConsole ending c

end PipeScript.CommandLine
