import PipeScript.CommandLine

/-!
# The program

The outer layer: it loads the files that a task may touch, runs the task, writes what the task has
written, and makes the changed files. There is no connection to any remote service.
-/

namespace PipeScript.Outer

open CommandLine

/-! ### The disk -/

/-- The path of a location. -/
def pathOf : Location → String
  | "/" :: names => "/" ++ "/".intercalate names
  | names => "/".intercalate names

/-- A moment in seconds. -/
def moment (t : IO.FS.SystemTime) : Binary64 :=
  .ofRatio (t.sec < 0) (t.sec.natAbs * 1000000000 + t.nsec.toNat) 1000000000

/-- The time, which is that of a file just made. -/
def now : IO Binary64 := do
  let (_, file) ← IO.FS.createTempFile
  let made ← file.metadata
  IO.FS.removeFile file
  pure (moment made.modified)

/-- Load what is at a location. -/
def look (clock : Binary64) (d : Disk) (l : Location) : IO Disk := do
  let path := (← IO.currentDir) / pathOf l
  if Location.isFixed l then pure d
  else if ← path.isDir then pure (d.put l .directory)
  else if ← path.pathExists then
    let changed := moment (← path.metadata).modified
    let bytes ← IO.FS.readBinFile path
    pure (d.put l (.file bytes.toList (clock - changed)))
  else pure (d.erase l)

/-- Load what names lead to from a location, and the entries of a directory there. -/
def loadFrom (clock : Binary64) (d : Disk) (l : Location) : List String → IO Disk
  | [] => do
    let path := (← IO.currentDir) / pathOf l
    if ← path.isDir then
      (← path.readDir).toList.foldlM (fun d e => look clock d (l ++ [e.fileName])) d
    else pure d
  | name :: rest => do
    if name = ".." then loadFrom clock d (Location.parent l) rest
    else loadFrom clock (← look clock d (l ++ [name])) (l ++ [name]) rest

/-- Load what a path leads to. -/
def load (clock : Binary64) (d : Disk) (p : Path) : IO Disk :=
  if p.hasNul then pure d
  else loadFrom clock d (if p.slashes = 0 then [] else Location.root) p.names

/-- Make the files and directories that are new or changed, and remove the files that are gone. -/
def store (before after : Disk) : IO Unit := do
  for (l, n) in after.nodes do
    if before.node? l ≠ some n then
      match n with
      | .directory => IO.FS.createDirAll (pathOf l)
      | .file bytes _ => IO.FS.writeBinFile (pathOf l) (ByteArray.mk bytes.toArray)
  for (l, _) in before.nodes do
    if (after.node? l).isNone then IO.FS.removeFile (pathOf l)

/-! ### Tasks -/

/-- The environment variables that settings come from. -/
def readEnvironment : IO Environment :=
  ("HOME" :: Settings.variableNames.map (·.2)).filterMapM fun name => do
    pure ((← IO.getEnv name).map (name, ·))

/-- Load what a program may touch. -/
def loadFor (clock : Binary64) (d : Disk) (p : Program) : IO Disk :=
  p.commands.foldlM (fun d c => load clock d (Path.ofString c.argument1)) d

/-- The input, if the program asks for it. -/
def inputFor (p : Program) : IO String := do
  if p.commands.any (·.action == "stdin") then (← IO.getStdin).readToEnd else pure ""

/-- The program of a script, if it can be read. -/
def programOf (a : ScriptArgument) (d : Disk) : Option Program :=
  let text := (a.expression.filter (!·.isEmpty)).or
    (a.file.bind fun f => ((d.readText (Path.ofString f)).toOption).map String.ofList)
  text.bind fun s => (Program.parse s).toOption

/-- What the program finds where it is started, before any file is loaded but the cached ones. -/
def hostHere (environment : Environment) : IO Host := do
  let clock ← now
  let directory := match Settings.ofEnvironment environment [] with
    | .ok s => s.cacheDirectory
    | .error _ => Path.ofString ""
  let disk ← load clock {} directory
  pure { environment, disk, clock, completions := [.failure "no route to host"] }

/-- The host with what a task may touch. -/
def hostFor (h : Host) : Task → IO Host
  | .run a => do
    let disk ← load h.clock h.disk (Path.ofString (a.file.getD ""))
    match programOf a disk with
    | none => pure { h with disk }
    | some p => pure { h with disk := ← loadFor h.clock disk p, input := ← inputFor p }
  | .check a => do
    pure { h with disk := ← load h.clock h.disk (Path.ofString (a.file.getD "")) }
  | _ => pure h

/-- Write what was written, and give the exit code. -/
def finish (r : Result) : IO UInt32 := do
  IO.print r.output
  IO.eprint r.errors
  match r.ending with
  | .code n => pure n.toUInt32
  | .stop n => pure n.toUInt32
  | .stopWith text => do
    IO.eprintln text
    pure 1
  | .failure f => do
    IO.eprintln f.message
    pure 1

/-- Answer the lines of the input one by one, and give the exit code. -/
partial def converse (rt : Runtime Surroundings) (c : Console) : IO UInt32 := do
  IO.print prompt
  (← IO.getStdout).flush
  let text ← (← IO.getStdin).getLine
  if text.isEmpty then
    IO.println ""
    pure 0
  else
    let line := Line.ofText text.toList
    let c ← match line with
      | .script s =>
        match Program.parse s with
        | .ok p => do
          let s := c.surroundings
          pure { c with surroundings := { s with
            disk := ← loadFor s.clock s.disk p, input := ← inputFor p } }
        | .error _ => pure c
      | _ => pure c
    let (ending, after) := answerLine rt line c
    let code ← finish (.ofConsole (ending.getD (.code 0)) after)
    store c.surroundings.disk after.surroundings.disk
    if ending.isNone then converse rt { surroundings := after.surroundings } else pure code

/-- Read and run lines. -/
def talk (a : Arguments) (h : Host) : IO UInt32 := do
  match openConsole a h with
  | .error f => finish { ending := .failure f, disk := h.disk }
  | .ok c =>
    match openRuntime c with
    | (.error f, _) => finish { ending := .failure f, disk := h.disk }
    | (.ok rt, c) => do
      store h.disk c.surroundings.disk
      IO.print banner
      converse rt c

end PipeScript.Outer

open PipeScript PipeScript.Outer PipeScript.CommandLine in
/-- Run the program with its arguments. -/
def main (arguments : List String) : IO UInt32 := do
  let h ← hostHere (← readEnvironment)
  match Arguments.parse arguments with
  | .ok a =>
    match a.task with
    | some .repl => talk a h
    | some task => do
      let h ← hostFor h task
      let r := CommandLine.run arguments h
      store h.disk r.disk
      finish r
    | none => finish (CommandLine.run arguments h)
  | .error _ => finish (CommandLine.run arguments h)
