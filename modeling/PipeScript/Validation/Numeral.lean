import PipeScript.Text.Split
import PipeScript.Validation.Problem
import PipeScript.WholeNumber

/-!
# Numerals in data

Where a field asks for a number, a string may stand that spells one. Such numerals are read strictly
at first and leniently then: a whole number may have a plus sign, zeros before and after it, and
underscores between its digits; the underscores of any other number may stand wherever two of them
do not meet and none is at an end.
-/

namespace PipeScript.Rule

open PipeScript.Text

/-- Are there underscores only inside the text, no two of them side by side? -/
def hasLooseUnderscores (s : List Char) : Bool :=
  s.head? != some '_' && s.getLast? != some '_' && !occursIn ['_', '_'] s

/-! ### Whole numbers -/

/-- Is there a minus sign, and what follows it? -/
def splitMinus : List Char → Bool × List Char
  | '-' :: rest => (true, rest)
  | s => (false, s)

/-- Does the text start with a whole number that has too many digits to be read? -/
def startsTooLong (s : List Char) : Bool :=
  let t := (splitMinus s).2
  t.head? != some '0' && WholeNumber.digitLimit < (t.takeWhile isAsciiDigit).length

/-- The text after a plus sign, if no minus sign stands there. -/
def afterPlus? : List Char → Option (List Char)
  | '+' :: '-' :: _ => none
  | '+' :: rest => some rest
  | s => some s

/-- The text from its first digit that counts, or from a minus sign before it. Zeros and underscores
before it are dropped, but for the last of them where no other digit follows. -/
def dropZeros? (s : List Char) : Option (List Char) :=
  let filler := s.takeWhile fun c => c == '0' || c == '_'
  let rest := s.drop filler.length
  match filler.head? with
  | some '0' =>
    match rest with
    | [] => some (filler.drop (filler.length - 1))
    | '.' :: _ => some (filler.drop (filler.length - 1) ++ rest)
    | c :: _ => if isAsciiDigit c || c == '-' then some rest else none
  | some _ => none
  | none =>
    match rest with
    | [] => none
    | c :: _ => if isAsciiDigit c || c == '-' then some rest else none

/-- The text without a fraction that is all zeros. -/
def dropZeroFraction (s : List Char) : List Char :=
  let fraction := (s.dropWhile (· != '.')).drop 1
  if !fraction.isEmpty && fraction.all (· == '0') then s.takeWhile (· != '.') else s

/-- The whole number that a text is: perhaps a minus sign, and digits of which the first is no zero
unless it stands alone. -/
def strictInteger? (s : List Char) : Option Int :=
  let (negative, digits) := splitMinus s
  let wellFormed := !digits.isEmpty && digits.all isAsciiDigit
    && (digits.head? != some '0' || digits.length == 1)
  if wellFormed && digits.length ≤ WholeNumber.digitLimit then
    let n : Int := Binary64.digitsValue digits
    some (if negative then -n else n)
  else none

/-- The whole number that a lenient numeral means. -/
def lenientInteger? (s : List Char) : Option Int := do
  let t ← afterPlus? (stripWhere Binary64.isMargin s)
  let (negative, t) := splitMinus t
  let t ← dropZeros? t
  let t := dropZeroFraction t
  let t := if hasLooseUnderscores t then t.filter (· != '_') else t
  strictInteger? (if negative then '-' :: t else t)

/-- A whole number written as a numeral. -/
def readInteger (s : List Char) : Except FieldProblem Int :=
  if startsTooLong s then .error .integerSize
  else
    match lenientInteger? s with
    | some i => .ok i
    | none => .error .integerText

/-! ### Other numbers -/

/-- A number written as a numeral in ASCII digits. Blanks may stand beside it unless it has
underscores. -/
def readNumber? (s : List Char) : Option Binary64 :=
  match Binary64.readPlain? (stripWhere Binary64.isMargin s) with
  | some x => some x
  | none =>
    if hasLooseUnderscores s then Binary64.readPlain? (s.filter (· != '_')) else none

end PipeScript.Rule
