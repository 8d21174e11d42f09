import PipeScript.Text.Split

/-!
# Paths

A path is a sequence of names after an optional root. Repeated slashes and the name `.` mean
nothing; the name `..` is kept, because what it means depends on the disk. A path that starts with
exactly two slashes keeps both.
-/

namespace PipeScript

/-- A path: the number of slashes it starts with, and its names. -/
structure Path where
  slashes : Nat
  names : List String
deriving DecidableEq, Repr

namespace Path

/-- The path that a text means. -/
def ofString (s : String) : Path :=
  let cs := s.toList
  let lead := (cs.takeWhile (· == '/')).length
  let names := (Text.splitOn ['/'] cs).filter fun n => !n.isEmpty && n != ['.']
  ⟨if lead = 2 then 2 else min lead 1, names.map String.ofList⟩

/-- The text of a path. -/
def toString (p : Path) : String :=
  let body := "/".intercalate p.names
  if p.slashes = 0 then (if p.names.isEmpty then "." else body)
  else String.ofList (List.replicate p.slashes '/') ++ body

/-- Is the path the working directory itself? -/
def isHere (p : Path) : Bool := p.slashes == 0 && p.names.isEmpty

/-- The path without its last name. -/
def parent (p : Path) : Path := { p with names := p.names.dropLast }

/-- The path with one more name. -/
def child (p : Path) (name : String) : Path := { p with names := p.names ++ [name] }

/-- Does the path hold the character that no file name can hold? -/
def hasNul (p : Path) : Bool := p.names.any fun n => n.toList.any (·.val == 0)

end Path

end PipeScript
