import PipeScript.Text.Quoted

/-!
# File errors

Why an operation on a file or directory fails, with the path it was asked for.
-/

namespace PipeScript

/-- What is wrong with a path. -/
inductive DiskProblem
  | notFound
  | occupied
  | notDirectory
  | isDirectory
  | nameTooLong
deriving DecidableEq, Repr

/-- The system's number and words for the problem. -/
def DiskProblem.code : DiskProblem → Nat × String
  | notFound => (2, "No such file or directory")
  | occupied => (17, "File exists")
  | notDirectory => (20, "Not a directory")
  | isDirectory => (21, "Is a directory")
  | nameTooLong => (36, "File name too long")

/-- A problem with a path, or with moving a path to a target. -/
structure DiskError where
  problem : DiskProblem
  path : String
  target : Option String := none
deriving DecidableEq, Repr

/-- The error in words. -/
def DiskError.message (e : DiskError) : String :=
  let (number, words) := e.problem.code
  s!"[Errno {number}] {words}: {Text.quote e.path}"
    ++ match e.target with
       | some t => " -> " ++ Text.quote t
       | none => ""

end PipeScript
