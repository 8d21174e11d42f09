import PipeScript.Text.Utf8
import PipeScript.Validation.Problem

/-!
# Reports on data

The problems of a record in words, one after the other: where each is, what it is, and the value
that was found. Values are cut in the middle to a fixed number of bytes.
-/

namespace PipeScript

/-- A step of a path in words. -/
def Segment.text : Segment → String
  | field name => name
  | index i => toString i

/-- The beginning of a text that has at most so many bytes. -/
def leadingBytes (limit : Nat) : List Char → List Char
  | [] => []
  | c :: rest =>
    if limit < c.utf8Size then [] else c :: leadingBytes (limit - c.utf8Size) rest

/-- A text of more than 50 bytes with its middle left out: at most 25 bytes stay before the gap, and
at most 24 after it. -/
def abridged (s : List Char) : List Char :=
  if (Text.Utf8.encode s).length ≤ 50 then s
  else leadingBytes 25 s ++ "...".toList ++ (leadingBytes 24 s.reverse).reverse

namespace FieldError

/-- The line with the path, if there is one. -/
def place (e : FieldError) : String :=
  if e.path.isEmpty then "" else ".".intercalate (e.path.map Segment.text) ++ "\n"

/-- Where the kinds of problems are explained. -/
def explanations : String := "errors.pydantic.dev/2.14/v"

/-- The problem in words, and where its kind is explained. -/
def report (e : FieldError) : String :=
  let value := String.ofList (abridged e.found.inner.toList)
  s!"{e.place}  {e.problem.message} [type={e.problem.kind}, input_value={value}, "
    ++ s!"input_type={e.found.typeName}]\n"
    ++ s!"    For further information visit https://{explanations}/{e.problem.kind}"

/-- The problems with a record of a kind in words. -/
def reportAll (record : String) (es : List FieldError) : String :=
  let count := if es.length = 1 then "1 validation error" else s!"{es.length} validation errors"
  s!"{count} for {record}\n" ++ "\n".intercalate (es.map report)

end FieldError

end PipeScript
