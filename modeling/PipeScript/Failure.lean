import PipeScript.Condition
import PipeScript.Disk.Error
import PipeScript.Syntax.ParseError
import PipeScript.Text.Utf8
import PipeScript.Validation.Report
import PipeScript.WholeNumber

/-!
# Failures

What can go wrong while a script is read and run, by cause. A failure that is due to another one
carries it: a command's failure its cause, a branch's failure the failure of the branch, exhausted
attempts the last failure. Cancellation is no failure of a command: it carries the place where it
was noticed and the results of the loop that it stopped.
-/

namespace PipeScript

/-- What a loop made of one item. -/
structure ItemResult (ε : Type) where
  index : Int
  item : String
  outcome : Except ε String

/-- What a service outside the program reports when it fails. -/
inductive ReportKind
  | value
  | connection
  | service
deriving DecidableEq, Repr

/-- What does not fit when a remote answer is checked. -/
inductive Misfit
  | fields (record : String) (errors : List FieldError)
  | notList (typeName : String)

/-- Why a run, or a part of it, gives no value. -/
inductive Failure
  | parse (error : ParseError)
  | condition (error : ConditionError)
  | unknownCommand (action : String)
  | noProgram
  | command (action : String) (cause : Failure)
  | branch (index : Nat) (cause : Failure)
  | exhausted (name : String) (attempts : Nat) (last : Failure)
  | cancelled (place : String) (results : List (ItemResult Failure))
  | misfit (source : String) (misfit : Misfit)
  | invalid (record : String) (errors : List FieldError)
  /-- A command lacks an argument that it needs. -/
  | requires (action what : String)
  | unknownPlace (location : String)
  | noPrices (query : String)
  | noKey
  | badNumber (text : String)
  | badInteger (text : String)
  /-- A whole number has more digits than are converted. -/
  | longInteger (digits : Nat)
  /-- A whole number is too large to be a `Binary64`. -/
  | hugeInteger
  /-- Data nests too deep: the kind of the innermost container. -/
  | tooDeep (container : String)
  | noHome
  | nulInPath
  | disk (error : DiskError)
  | badText (error : Text.Utf8.Error)
  | httpStatus (status : Int) (reason url : String)
  | badJson (message : String)
  | outOfRange
  | reported (kind : ReportKind) (text : String)

/-- The text after `cancelled`, if a place is known. -/
def duringText (place : String) : String := if place.isEmpty then "" else " during " ++ place

/-- The bytes that are no text, in words. -/
def badTextMessage (e : Text.Utf8.Error) : String :=
  if e.stop = e.start + 1 then
    let byte := String.ofList (Text.hexDigits 2 e.byte.toNat)
    s!"'utf-8' codec can't decode byte 0x{byte} in position {e.start}: {e.flaw.message}"
  else
    s!"'utf-8' codec can't decode bytes in position {e.start}-{e.stop - 1}: {e.flaw.message}"

/-- A misfit in words. -/
def Misfit.message : Misfit → String
  | fields record es => FieldError.reportAll record es
  | notList typeName => "expected a list, got " ++ typeName

namespace Failure

/-- The failure to read a text as a whole number. -/
def ofWholeNumber (text : String) : WholeNumber.Problem → Failure
  | .malformed => badInteger text
  | .tooLong digits => longInteger digits

/-- How many characters of a quoted text are shown that should be a whole number. -/
def shownNumeral : Nat := 200

/-- The failure in words, given the words for what does not fit. -/
def describe (words : Misfit → String) : Failure → String
  | parse e => e.message
  | condition e => e.message
  | unknownCommand action => "UnknownCommand: " ++ action
  | noProgram => "No program loaded"
  | command action cause => action ++ " failed: " ++ cause.describe words
  | branch index cause => s!"parallel branch {index + 1} failed: {cause.describe words}"
  | exhausted name attempts last =>
    s!"{name} failed after {attempts} attempts: {last.describe words}"
  | cancelled place _ => "execution cancelled" ++ duringText place
  | misfit source m => source ++ " response failed schema validation: " ++ words m
  | invalid record es => words (.fields record es)
  | requires action what => action ++ " requires " ++ what
  | unknownPlace location => "could not find location " ++ Text.quote location
  | noPrices query => "no prices found for " ++ Text.quote query
  | noKey => "OPENAI_API_KEY not set - required for this command"
  | badNumber text => "could not convert string to float: " ++ Text.quote text
  | badInteger text =>
    "invalid literal for int() with base 10: "
      ++ String.ofList ((Text.quoted text.toList).take shownNumeral)
  | longInteger digits =>
    s!"Exceeds the limit ({WholeNumber.digitLimit} digits) for integer string conversion: "
      ++ s!"value has {digits} digits; use sys.set_int_max_str_digits() to increase the limit"
  | hugeInteger => "int too large to convert to float"
  | tooDeep container =>
    s!"maximum recursion depth exceeded while decoding a JSON {container} from a unicode string"
  | noHome => "Could not determine home directory."
  | nulInPath => "embedded null byte"
  | disk e => e.message
  | badText e => badTextMessage e
  | httpStatus status reason url =>
    let side := if status < 500 then "Client" else "Server"
    s!"{status} {side} Error: {reason} for url: {url}"
  | badJson m => m
  | outOfRange => "(34, 'Numerical result out of range')"
  | reported _ text => text

/-- The failure in words. -/
def message : Failure → String := describe Misfit.message

/-- Is it a failure that the runtime itself reports? The others come from what commands work with. -/
def isOwn : Failure → Bool
  | parse _ | condition _ | unknownCommand _ | noProgram | command .. | branch .. => true
  | exhausted .. | cancelled .. | misfit .. => true
  | _ => false

/-- Is the failure a cancellation? -/
def isCancelled : Failure → Bool
  | cancelled .. => true
  | _ => false

end Failure

/-- The value of a piece of work, or why there is none. -/
abbrev Outcome := Except Failure String

end PipeScript
