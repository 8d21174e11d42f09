import PipeScript.Binary64.Decimal

/-!
# Reading whole numbers

A whole number is an optional sign and digits of any script, with single underscores between them
and blanks beside it. A number with too many digits is not converted; zeros at its start count, and
whatever stands behind its digits is not looked at then.
-/

namespace PipeScript.WholeNumber

/-- The most digits of a whole number that are converted. -/
def digitLimit : Nat := 4300

/-- Why a text gives no whole number. -/
inductive Problem
  | malformed
  | tooLong (digits : Nat)
deriving DecidableEq, Repr

/-- Does each underscore of a row of digits stand between two digits? -/
def isRow (run : List Char) : Bool :=
  !run.isEmpty && Binary64.underscoresOk false run

/-- The whole number that a text means. -/
def read (s : List Char) : Except Problem Int :=
  let (negative, t) :=
    Binary64.readSign ((Text.stripWhere Binary64.isMargin s).map Binary64.asciiDigit)
  let run := t.takeWhile fun c => Text.isAsciiDigit c || c == '_'
  let digits := run.filter (· != '_')
  if !isRow run then .error .malformed
  else if digitLimit < digits.length then .error (.tooLong digits.length)
  else if run.length < t.length then .error .malformed
  else
    let n : Int := Binary64.digitsValue digits
    .ok (if negative then -n else n)

end PipeScript.WholeNumber
