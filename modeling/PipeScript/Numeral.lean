import PipeScript.Text.Casing
import PipeScript.Text.Digit
import PipeScript.Text.Split

/-!
# Numbers in prose

Conditions look numbers up in reports that are written for people. The first number of a text starts
at its first ASCII digit, with a minus sign if one stands right before that digit, and goes on over
digits and at most one point. The number for a subject is the first number of the first line that
mentions it, whatever the letter case.
-/

namespace PipeScript.Numeral

open PipeScript.Text

/-- The digits at the start of a text, with at most one point among or after them. -/
def body (pointSeen : Bool) : List Char → List Char
  | [] => []
  | c :: rest =>
    if isAsciiDigit c then c :: body pointSeen rest
    else if c = '.' && !pointSeen then c :: body true rest
    else []

/-- The first number of a text that stands after a minus sign or another character. -/
def firstAfter (minus : Bool) : List Char → List Char
  | [] => ['0']
  | c :: rest =>
    if isAsciiDigit c then (if minus then ['-'] else []) ++ c :: body false rest
    else firstAfter (c == '-') rest

/-- The first number of a text, `0` if it has none. -/
def first (s : List Char) : List Char := firstAfter false s

/-- Does the line mention the subject, in any letter case? -/
def mentions (line subject : List Char) : Bool := occursIn (lower subject) (lower line)

/-- The first number of the first line that mentions one of the anchors, `0` if none does. -/
def anchored (s : List Char) (anchors : List (List Char)) : List Char :=
  match (lines s).find? fun line => anchors.any (mentions line) with
  | some line => first line
  | none => ['0']

/-- The first number of the first line that mentions the subject, nothing if none does. -/
def near (s subject : List Char) : List Char :=
  match (lines s).find? fun line => mentions line subject with
  | some line => first line
  | none => []

end PipeScript.Numeral
