import PipeScript.Surroundings

/-!
# File commands

Saving the value to a file, reading a file, and listing a directory.
-/

namespace PipeScript.Command

open Surroundings

/-- Save the value to a file; the result is the file's path. -/
def save (path _second input : String) : Errand String := do
  if path.isEmpty then throw (.requires "save" "a file path")
  let p := Path.ofString path
  -- Directories stay even if the file then cannot be written.
  if !p.parent.isHere then onDisk (.of fun d => d.makeDirectories p.parent)
  onDisk (.edit fun d => d.writeText p input.toList)
  pure p.toString

/-- The contents of a file. -/
def read (path _second _input : String) : Errand String := do
  if path.isEmpty then throw (.requires "read" "a file path")
  let s ← onDisk (Work.check fun d => d.readText (.ofString path))
  pure (String.ofList s)

/-- The line for an entry of a directory. -/
def entryLine (e : String × Node) : String :=
  (if e.2.isDirectory then "📁 " else "📄 ") ++ e.1

/-- The entries of a directory, the working directory if none is named. -/
def list (path _second _input : String) : Errand String := do
  let entries ← onDisk (Work.check fun d => d.list (.ofString path))
  pure ("\n".intercalate (entries.map entryLine))

end PipeScript.Command
