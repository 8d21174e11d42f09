import PipeScript.CommandLine
import PipeScript.Proofs.Disk.ReadBack
import PipeScript.Proofs.Syntax.Messages
import PipeScript.Proofs.Text.Utf8

/-!
# Script files

A script file may be missing or a directory, and if it is there it may hold any bytes. Whoever reads it wants
a program or an error that says what is wrong with it, and whoever checks it on the command line wants that on
one line.

Two readers stand in front of the parser, one for the runtime and one for the command line. Both take the
bytes of a file for a text, and a failure to do so is none of the errors that they tell.

## The model

`Program.IsAnswered` says that a program or a syntax error has come of a file, and `CommandLine.AnswersInLine`
that one line has been written, nothing else has changed, and the code is 0 or 1. `Text.Utf8.IsEncoded` says
that bytes are those of a text.

Main result: both readers answer for a file exactly if its bytes are those of a text, and otherwise let the
same failure out (`CommandLine.script_answered_iff`). All other states of a path, but for a path with a NUL in
it, are answered with a syntax error.
-/

namespace PipeScript

/-! ### Files that can be read -/

namespace Disk

variable {d : Disk} {p : Path} {f : Failure} {bytes : List UInt8}

theorem atTarget_of_hasNul {α : Type} (h : p.hasNul = true) (act : Target → Except DiskProblem α) :
    d.atTarget p act = .error .nulInPath := by
  rw [atTarget, if_pos h]

/-- Unless its path has a NUL, an operation that fails tells what is wrong with the disk. -/
theorem exists_of_atTarget_error {α : Type} {act : Target → Except DiskProblem α} (hnul : p.hasNul = false)
    (h : d.atTarget p act = .error f) : ∃ e, f = .disk e := by
  unfold atTarget failAt at h
  rw [if_neg (by simp [hnul])] at h
  split at h
  · exact ⟨_, (Except.error.inj h).symm⟩
  · split at h
    · cases h
    · exact ⟨_, (Except.error.inj h).symm⟩

/-- A path whose bytes can be read leads to a file. -/
theorem isFile_of_readBytes (h : d.readBytes p = .ok bytes) : d.isFile p = .ok true := by
  obtain ⟨hnul, hshort⟩ := listable_of_atTarget h
  obtain ⟨t, ht, hact⟩ := exists_target_of_atTarget h
  have htarget : d.atTarget p .ok = .ok t := by
    rw [atTarget, if_neg (by simp [hnul]), if_neg (Nat.not_le.mpr hshort), ht]
    rfl
  cases t with
  | free l => cases hact
  | existing l n =>
    cases n with
    | directory => cases hact
    | file bytes age => rw [isFile, htarget]

/-- The empty path leads to the working directory, which has no bytes. -/
theorem ne_empty_of_readBytes {name : String} (h : d.readBytes (Path.ofString name) = .ok bytes) :
    name ≠ "" := by
  rintro rfl
  obtain ⟨t, ht, hact⟩ := exists_target_of_atTarget h
  obtain rfl : .existing [] .directory = t := Except.ok.inj ht
  cases hact

end Disk

namespace Text.Utf8

/-- Are these the bytes of a text? -/
def IsEncoded (bytes : List UInt8) : Prop := ∃ s, bytes = encode s

theorem exists_flaw {bytes : List UInt8} (h : ¬IsEncoded bytes) : ∃ e, decode bytes = .error e := by
  cases hdecode : decode bytes with
  | error e => exact ⟨e, rfl⟩
  | ok s => exact absurd ⟨s, decode_eq_ok_iff.mp hdecode⟩ h

end Text.Utf8

open Text Text.Utf8

/-! ### The reader of the runtime -/

namespace Program

variable {d : Disk} {path : String} {bytes : List UInt8} {s : List Char} {e : Text.Utf8.Error}

/-- Has a program or a syntax error come of a script? -/
def IsAnswered (r : Except Failure Program) : Prop := (∃ p, r = .ok p) ∨ ∃ e, r = .error (.parse e)

theorem ofFile_of_encode (h : d.readBytes (Path.ofString path) = .ok (encode s)) :
    ofFile d path = (Syntax.parse (Disk.plainLines s)).mapError .parse := by
  simp only [ofFile, Disk.readText, h, Except.bind, decode_encode]

theorem ofFile_of_flaw (h : d.readBytes (Path.ofString path) = .ok bytes) (he : decode bytes = .error e) :
    ofFile d path = .error (.badText e) := by
  simp only [ofFile, Disk.readText, h, Except.bind, he]

/-- A script that cannot be read is a syntax error, if that is the fault of the disk. -/
theorem ofFile_of_disk {e : DiskError} (h : d.readBytes (Path.ofString path) = .error (.disk e)) :
    ofFile d path = .error (.parse ⟨.unreadable (Path.ofString path).toString e.message, none⟩) := by
  simp only [ofFile, Disk.readText, h, Except.bind]

theorem ofFile_of_hasNul (h : (Path.ofString path).hasNul = true) : ofFile d path = .error .nulInPath := by
  simp only [ofFile, Disk.readText, Disk.readBytes, Disk.atTarget_of_hasNul h, Except.bind]

theorem not_isAnswered {f : Failure} (h : ∀ e, f ≠ .parse e) : ¬IsAnswered (.error f) := by
  rintro (⟨p, hp⟩ | ⟨e, he⟩)
  · cases hp
  · exact h e (Except.error.inj he)

theorem isAnswered_mapError (r : Except ParseError Program) : IsAnswered (r.mapError .parse) := by
  cases r with
  | ok p => exact .inl ⟨p, rfl⟩
  | error e => exact .inr ⟨e, rfl⟩

/-- **A script file** comes to a program or a syntax error exactly if its path has no NUL and its bytes, if it
has any, are those of a text. -/
theorem isAnswered_ofFile_iff (d : Disk) (path : String) :
    IsAnswered (ofFile d path) ↔ (Path.ofString path).hasNul = false ∧
      ∀ bytes, d.readBytes (Path.ofString path) = .ok bytes → IsEncoded bytes := by
  constructor
  · intro hanswered
    constructor
    · by_contra hnul
      rw [ofFile_of_hasNul (by simpa using hnul)] at hanswered
      exact not_isAnswered (by simp) hanswered
    · intro bytes hbytes
      by_contra hbad
      obtain ⟨e, he⟩ := exists_flaw hbad
      rw [ofFile_of_flaw hbytes he] at hanswered
      exact not_isAnswered (by simp) hanswered
  · rintro ⟨hnul, hencoded⟩
    cases hread : d.readBytes (Path.ofString path) with
    | ok bytes =>
      obtain ⟨s, rfl⟩ := hencoded bytes hread
      rw [ofFile_of_encode hread]
      exact isAnswered_mapError _
    | error f =>
      obtain ⟨e, rfl⟩ := Disk.exists_of_atTarget_error hnul hread
      exact .inr ⟨_, ofFile_of_disk hread⟩

end Program

/-! ### The reader of the command line -/

namespace CommandLine

variable {c : Console} {path : String} {bytes : List UInt8} {s : List Char} {e : Text.Utf8.Error}

/-- Has one line been written, with nothing else changed, and is the code 0 or 1? -/
def AnswersInLine (c : Console) (r : Ending × Console) : Prop :=
  ∃ code line, code ≤ 1 ∧ IsLine line ∧ r = (.code code, c.write (line ++ "\n"))

theorem not_answersInLine_failure {f : Failure} {c' : Console} : ¬AnswersInLine c (.failure f, c') := by
  rintro ⟨code, line, -, -, h⟩
  cases h

theorem scriptText_of_readBytes (h : c.surroundings.disk.readBytes (Path.ofString path) = .ok bytes) :
    scriptText { file := some path } c =
      match decode bytes with
      | .ok s => (.ok (String.ofList (Disk.plainLines s)), c)
      | .error e => (.error (.failure (.badText e)), c) := by
  have hfile : (some path).filter (!·.isEmpty) = some path := by
    simpa using Disk.ne_empty_of_readBytes h
  simp only [scriptText, hfile, Option.filter_none, Disk.isFile_of_readBytes h, Disk.readText, h, Except.bind]
  cases decode bytes <;> rfl

/-- A file whose bytes are those of a text is checked, and the answer is one line. -/
theorem answersInLine_of_encode
    (h : c.surroundings.disk.readBytes (Path.ofString path) = .ok (encode s)) :
    AnswersInLine c (checkScript { file := some path } c) := by
  rw [checkScript, scriptText_of_readBytes h, decode_encode]
  simp only [Program.parse, String.toList_ofList]
  cases hparse : Syntax.parse (Disk.plainLines s) with
  | error e => exact ⟨1, e.message, le_refl 1, Syntax.isLine_of_parse hparse, rfl⟩
  | ok p =>
    have hline : IsLine ("OK: " ++ toString p.size ++ " statement(s)") :=
      (IsLine.append (by decide) (isLine_toString_nat p.size)).append (by decide)
    refine ⟨0, _, Nat.zero_le 1, hline, ?_⟩
    rw [String.append_assoc]
    rfl

/-- The check agrees with the reader of the runtime on which files are programs. -/
theorem checkScript_eq_zero_iff {code : Nat}
    (h : c.surroundings.disk.readBytes (Path.ofString path) = .ok (encode s))
    (hcode : (checkScript { file := some path } c).1 = .code code) :
    code = 0 ↔ ∃ p, Program.ofFile c.surroundings.disk path = .ok p := by
  rw [checkScript, scriptText_of_readBytes h, decode_encode] at hcode
  rw [Program.ofFile_of_encode h]
  simp only [Program.parse, String.toList_ofList] at hcode
  cases hparse : Syntax.parse (Disk.plainLines s) with
  | error e =>
    rw [hparse] at hcode
    obtain rfl := Ending.code.inj hcode
    refine iff_of_false (by decide) ?_
    rintro ⟨p, hp⟩
    cases hp
  | ok p =>
    rw [hparse] at hcode
    obtain rfl := Ending.code.inj hcode
    exact iff_of_true rfl ⟨p, rfl⟩

/-- A file with other bytes is not checked, and the failure to read it comes out. -/
theorem checkScript_of_flaw (h : c.surroundings.disk.readBytes (Path.ofString path) = .ok bytes)
    (he : decode bytes = .error e) : checkScript { file := some path } c = (.failure (.badText e), c) := by
  rw [checkScript, scriptText_of_readBytes h, he]

/-- **A script file** is answered for exactly if its bytes are those of a text: the runtime gets a program or a
syntax error from each path without a NUL that leads to no other file, and the check of a file writes one line
and ends with 0 or 1, with 0 exactly if the runtime gets a program. Of a file with other bytes both let out that
they are no text, and the check writes nothing. -/
theorem script_answered_iff (c : Console) (path : String) :
    (Program.IsAnswered (Program.ofFile c.surroundings.disk path) ↔ (Path.ofString path).hasNul = false ∧
      ∀ bytes, c.surroundings.disk.readBytes (Path.ofString path) = .ok bytes → IsEncoded bytes) ∧
    ∀ bytes, c.surroundings.disk.readBytes (Path.ofString path) = .ok bytes →
      (AnswersInLine c (checkScript { file := some path } c) ↔ IsEncoded bytes) ∧
      (∀ code, (checkScript { file := some path } c).1 = .code code →
        (code = 0 ↔ ∃ p, Program.ofFile c.surroundings.disk path = .ok p)) ∧
      (¬IsEncoded bytes → ∃ e, Program.ofFile c.surroundings.disk path = .error (.badText e) ∧
        checkScript { file := some path } c = (.failure (.badText e), c)) := by
  refine ⟨Program.isAnswered_ofFile_iff _ path, ?_⟩
  intro bytes hbytes
  have hflaw (hbad : ¬IsEncoded bytes) : ∃ e, Program.ofFile c.surroundings.disk path = .error (.badText e) ∧
      checkScript { file := some path } c = (.failure (.badText e), c) := by
    obtain ⟨e, he⟩ := exists_flaw hbad
    exact ⟨e, Program.ofFile_of_flaw hbytes he, checkScript_of_flaw hbytes he⟩
  refine ⟨⟨?_, ?_⟩, ?_, hflaw⟩
  · intro hline
    by_contra hbad
    obtain ⟨e, -, he⟩ := hflaw hbad
    rw [he] at hline
    exact not_answersInLine_failure hline
  · rintro ⟨s, rfl⟩
    exact answersInLine_of_encode hbytes
  · intro code hcode
    by_cases hencoded : IsEncoded bytes
    · obtain ⟨s, rfl⟩ := hencoded
      exact checkScript_eq_zero_iff hbytes hcode
    · obtain ⟨e, -, he⟩ := hflaw hencoded
      rw [he] at hcode
      cases hcode

/-- A program with letters of two bytes. -/
def readableScript : List Char := "echo \"één\" -> save \"x\"".toList

/-- A console in a directory with one file, which holds a program. -/
def besideReadable : Console where
  surroundings :=
    { settings := { cacheDirectory := Path.ofString "cache" }
      disk := Disk.put {} ["p.as"] (.file (encode readableScript))
      clock := 0 }

/-- Both readers answer for the program, and the check ends with 0. -/
theorem readable_answered :
    besideReadable.surroundings.disk.readBytes (Path.ofString "p.as") = .ok (encode readableScript) ∧
    Program.IsAnswered (Program.ofFile besideReadable.surroundings.disk "p.as") ∧
    AnswersInLine besideReadable (checkScript { file := some "p.as" } besideReadable) ∧
    (checkScript { file := some "p.as" } besideReadable).1 = .code 0 := by
  have hread : besideReadable.surroundings.disk.readBytes (Path.ofString "p.as") =
      .ok (encode readableScript) := rfl
  have hsize : (Program.ofFile besideReadable.surroundings.disk "p.as").toOption.map Program.size =
      some 1 := by decide +kernel
  obtain ⟨p, hp⟩ : ∃ p, Program.ofFile besideReadable.surroundings.disk "p.as" = .ok p := by
    cases hfile : Program.ofFile besideReadable.surroundings.disk "p.as" with
    | ok p => exact ⟨p, rfl⟩
    | error f =>
      rw [hfile] at hsize
      cases hsize
  obtain ⟨hanswered, hfile⟩ := script_answered_iff besideReadable "p.as"
  obtain ⟨hanswers, hzero, -⟩ := hfile _ hread
  have hline := hanswers.mpr ⟨_, rfl⟩
  obtain ⟨code, line, -, -, hcheck⟩ := id hline
  have hcode : (checkScript { file := some "p.as" } besideReadable).1 = .code code := by rw [hcheck]
  obtain rfl := (hzero code hcode).mpr ⟨p, hp⟩
  refine ⟨hread, hanswered.mpr ⟨rfl, fun bytes hbytes => ?_⟩, hline, hcode⟩
  rw [hread] at hbytes
  exact ⟨_, (Except.ok.inj hbytes).symm⟩

/-- A console in a directory with one file, which holds a byte that stands in no text. -/
def besideGarbled : Console where
  surroundings :=
    { settings := { cacheDirectory := Path.ofString "cache" }
      disk := Disk.put {} ["b.as"] (.file [0xff])
      clock := 0 }

/-- The byte comes out of both readers as a failure that is no syntax error. -/
theorem garbled_not_answered :
    besideGarbled.surroundings.disk.readBytes (Path.ofString "b.as") = .ok [0xff] ∧
    Program.ofFile besideGarbled.surroundings.disk "b.as" = .error (.badText ⟨.badStart, 0xff, 0, 1⟩) ∧
    ¬Program.IsAnswered (Program.ofFile besideGarbled.surroundings.disk "b.as") ∧
    checkScript { file := some "b.as" } besideGarbled =
      (.failure (.badText ⟨.badStart, 0xff, 0, 1⟩), besideGarbled) ∧
    ¬AnswersInLine besideGarbled (checkScript { file := some "b.as" } besideGarbled) := by
  have hread : besideGarbled.surroundings.disk.readBytes (Path.ofString "b.as") = .ok [0xff] := rfl
  have hflaw : decode [0xff] = .error ⟨.badStart, 0xff, 0, 1⟩ := rfl
  have hfile := Program.ofFile_of_flaw hread hflaw
  have hcheck := checkScript_of_flaw hread hflaw
  refine ⟨hread, hfile, ?_, hcheck, ?_⟩
  · rw [hfile]
    exact Program.not_isAnswered (by simp)
  · rw [hcheck]
    exact not_answersInLine_failure

end CommandLine

end PipeScript
