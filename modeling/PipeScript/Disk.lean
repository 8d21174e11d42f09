import PipeScript.Binary64
import PipeScript.Disk.Path
import PipeScript.Failure
import PipeScript.Keyed
import PipeScript.Text.Utf8

/-!
# The disk

Files and directories, as they are seen from the working directory.

## The model

A disk is a finite map from locations to nodes, where a location is a list of names from the working
directory. The root directory and the directories above the working directory have locations of
their own, `["/"]` and `[".."]`, `["..", ".."]` and so on; like the working directory they are
always there, and nothing is known of what lies below them but what has been put there. An operation
first finds the target of a path, which is either there or could be made in a directory that is
there, and then acts on it. A file remembers how many seconds ago it was last written, as far as
that matters for cleaning up.
-/

namespace PipeScript

/-- The names that lead to a node from the working directory. -/
abbrev Location := List String

namespace Location

/-- The root directory. -/
def root : Location := ["/"]

/-- Is it the working directory or a directory above it? -/
def isAbove (l : Location) : Bool := l.all (· == "..")

/-- Is it a directory that is always there? -/
def isFixed (l : Location) : Bool := isAbove l || l == root

/-- The directory that holds it. -/
def parent (l : Location) : Location :=
  if l == root then root else if isAbove l then l ++ [".."] else l.dropLast

end Location

/-- A file or a directory. -/
inductive Node
  | file (bytes : List UInt8) (age : Binary64 := .finite false 0)
  | directory
deriving DecidableEq, Repr

/-- Is the node a directory? -/
def Node.isDirectory : Node → Bool
  | directory => true
  | file .. => false

/-- The nodes below the working directory. -/
structure Disk where
  nodes : List (Location × Node) := []
deriving DecidableEq, Repr

namespace Disk

/-- The node at a location. -/
def node? (d : Disk) (l : Location) : Option Node :=
  if Location.isFixed l then some .directory else (Keyed.find? Prod.fst l d.nodes).map (·.2)

/-- The disk with a node at a location. -/
def put (d : Disk) (l : Location) (n : Node) : Disk :=
  ⟨Keyed.put Prod.fst (l, n) d.nodes⟩

/-- The disk without the node at a location. -/
def erase (d : Disk) (l : Location) : Disk := ⟨Keyed.without Prod.fst l d.nodes⟩

theorem node?_put {d : Disk} {l m : Location} {n : Node} (hl : Location.isFixed l = false) :
    (d.put l n).node? m = if m = l then some n else d.node? m := by
  by_cases hm : Location.isFixed m
  · have : m ≠ l := fun h => by simp [h, hl] at hm
    simp [node?, hm, this]
  · simp only [node?, put, hm, Keyed.find?_put]
    by_cases h : m = l <;> simp [h]

theorem node?_erase {d : Disk} {l m : Location} (hm : Location.isFixed m = false) :
    (d.erase l).node? m = if m = l then none else d.node? m := by
  simp only [node?, erase, hm, Keyed.find?_without]
  by_cases h : m = l <;> simp [h]

/-! ### Finding the target of a path -/

/-- The greatest number of bytes in a name. -/
def nameLimit : Nat := 255

/-- The number of bytes that no path reaches. -/
def pathLimit : Nat := 4096

/-- Follow names from a location; every one has to be there. -/
def follow (d : Disk) : Location → List String → Except DiskProblem Location
  | l, [] => .ok l
  | l, name :: rest =>
    match d.node? l with
    | some .directory =>
      if name = ".." then follow d (Location.parent l) rest
      else if nameLimit < name.utf8ByteSize then .error .nameTooLong
      else if (d.node? (l ++ [name])).isSome then follow d (l ++ [name]) rest
      else .error .notFound
    | _ => .error .notDirectory

/-- What a path leads to: a node that is there, or a free name in a directory that is there. -/
inductive Target
  | existing (l : Location) (n : Node)
  | free (l : Location)
deriving DecidableEq, Repr

/-- The target of a path. -/
def target (d : Disk) (p : Path) : Except DiskProblem Target :=
  let start := if p.slashes = 0 then [] else Location.root
  match p.names.getLast? with
  | none => .ok (.existing start .directory)
  | some name =>
    match follow d start p.names.dropLast with
    | .error e => .error e
    | .ok l =>
      match follow d l [name] with
      | .ok m => .ok (.existing m ((d.node? m).getD .directory))
      | .error .notFound => .ok (.free (l ++ [name]))
      | .error e => .error e

/-! ### Operations -/

/-- The failure of an operation on a path. -/
def failAt {α : Type} (p : Path) (problem : DiskProblem) : Except Failure α :=
  .error (.disk { problem := problem, path := p.toString })

/-- Do something with the target of a path. A path with the character that no name can hold has
none, and neither has one that is too long. -/
def atTarget {α : Type} (d : Disk) (p : Path) (act : Target → Except DiskProblem α) :
    Except Failure α :=
  if p.hasNul then .error .nulInPath
  else if pathLimit ≤ p.toString.utf8ByteSize then failAt p .nameTooLong
  else
    match (d.target p).bind act with
    | .ok a => .ok a
    | .error e => failAt p e

/-- The bytes of a file. -/
def readBytes (d : Disk) (p : Path) : Except Failure (List UInt8) :=
  d.atTarget p fun
    | .existing _ (.file bytes _) => .ok bytes
    | .existing _ .directory => .error .isDirectory
    | .free _ => .error .notFound

/-- The text with each line ending, `\r\n` or `\r` or `\n`, as a newline. -/
def plainLines : List Char → List Char
  | [] => []
  | '\r' :: '\n' :: rest => '\n' :: plainLines rest
  | c :: rest => (if c = '\r' then '\n' else c) :: plainLines rest

/-- The text of a file. -/
def readText (d : Disk) (p : Path) : Except Failure (List Char) :=
  (d.readBytes p).bind fun bytes =>
    match Text.Utf8.decode bytes with
    | .ok s => .ok (plainLines s)
    | .error e => .error (.badText e)

/-- The disk after bytes are written to a file, which is made if need be. -/
def writeBytes (d : Disk) (p : Path) (bytes : List UInt8) : Except Failure Disk :=
  d.atTarget p fun
    | .existing l (.file ..) => .ok (d.put l (.file bytes))
    | .existing _ .directory => .error .isDirectory
    | .free l => .ok (d.put l (.file bytes))

/-- The disk after a text is written to a file. -/
def writeText (d : Disk) (p : Path) (s : List Char) : Except Failure Disk :=
  d.writeBytes p (Text.Utf8.encode s)

/-- The disk after a file is removed. -/
def remove (d : Disk) (p : Path) : Except Failure Disk :=
  d.atTarget p fun
    | .existing l (.file ..) => .ok (d.erase l)
    | .existing _ .directory => .error .isDirectory
    | .free _ => .error .notFound

/-- The number of the first of some names that is free in the directory at a location. As many names as
there are nodes, and one more, are enough. -/
def freeNumber (d : Disk) (l : Location) (names : Nat → String) : Nat :=
  ((List.range d.nodes.length).find? fun n => (d.node? (l ++ [names n])).isNone).getD d.nodes.length

/-- The disk after an empty file is made in a directory, under one of some names that is free there; and
the location of the file. -/
def makeFresh (d : Disk) (p : Path) (names : Nat → String) : Except Failure (Location × Disk) :=
  d.atTarget p fun
    | .existing l .directory =>
      let file := l ++ [names (d.freeNumber l names)]
      .ok (file, d.put file (.file []))
    | .existing _ (.file ..) => .error .notDirectory
    | .free _ => .error .notFound

/-- The disk after the file at a location is moved to a path, in place of a file that is there. -/
def move (d : Disk) (l : Location) (p : Path) : Except Failure Disk :=
  d.atTarget p fun
    | .existing _ .directory => .error .isDirectory
    | .existing m (.file ..) | .free m =>
      match d.node? l with
      | some n => .ok ((d.erase l).put m n)
      | none => .error .notFound

/-- The disk after a directory is made in one that is there. -/
def makeDirectory (d : Disk) (p : Path) : Except Failure Disk :=
  d.atTarget p fun
    | .existing .. => .error .occupied
    | .free l => .ok (d.put l .directory)

/-- Is there a file at the path? A path that leads nowhere is no file; a name that is too long
cannot be asked for. -/
def isFile (d : Disk) (p : Path) : Except Failure Bool :=
  match d.atTarget p .ok with
  | .ok (.existing _ (.file ..)) => .ok true
  | .error (.disk e) => if e.problem = .nameTooLong then .error (.disk e) else .ok false
  | _ => .ok false

/-- Is there a directory at the path? -/
def isDirectory (d : Disk) (p : Path) : Bool :=
  match d.atTarget p .ok with
  | .ok (.existing _ .directory) => true
  | _ => false

/-- A directory that is there already is as good as a new one. -/
def settle (d : Disk) (p : Path) : Except Failure Disk → Except Failure Disk
  | .error e => if d.isDirectory p then .ok d else .error e
  | made => made

/-- What an operation comes to, and the disk after it; a failure leaves the disk as it was. -/
def after (d : Disk) : Except Failure Disk → Except Failure Unit × Disk
  | .ok d' => (.ok (), d')
  | .error e => (.error e, d)

/-- Make a directory, and the directories that lead to it; the number bounds how many are tried.
What was made before a failure stays. -/
def makeWithin : Nat → Disk → Path → Except Failure Unit × Disk
  | 0, d, p => d.after (d.makeDirectory p)
  | n + 1, d, p =>
    match d.makeDirectory p with
    | .error (.disk e) =>
      if e.problem = .notFound then
        if p.names.isEmpty then (.error (.disk e), d)
        else
          match makeWithin n d p.parent with
          | (.error f, d') => (.error f, d')
          | (.ok (), d') =>
            match d'.makeDirectory p with
            | .error (.disk e') =>
              if e'.problem = .notFound then (.error (.disk e'), d')
              else d'.after (d'.settle p (.error (.disk e')))
            | made => d'.after made
      else d.after (d.settle p (.error (.disk e)))
    | made => d.after made

/-- Make a directory, with the directories that lead to it, unless it is there. What was made before
a failure stays. -/
def makeDirectories (d : Disk) (p : Path) : Except Failure Unit × Disk :=
  makeWithin (p.names.length + 1) d p

/-- The entries of the directory at a location, by name. -/
def entries (d : Disk) (l : Location) : List (String × Node) :=
  d.nodes.filterMap fun (m, n) =>
    match m.getLast? with
    | some name => if m.dropLast == l then some (name, n) else none
    | none => none

/-- Does the first name come before the second or is it the same? -/
def nameLe (a b : String) : Bool := !Condition.textLess b.toList a.toList

/-- The entries of a directory in the order of their names. -/
def list (d : Disk) (p : Path) : Except Failure (List (String × Node)) :=
  d.atTarget p fun
    | .existing l .directory => .ok ((d.entries l).mergeSort fun a b => nameLe a.1 b.1)
    | .existing _ (.file ..) => .error .notDirectory
    | .free _ => .error .notFound

end Disk

end PipeScript
