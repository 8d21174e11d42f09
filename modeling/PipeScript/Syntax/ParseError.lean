import PipeScript.Text.Position
import PipeScript.Text.Quoted

/-!
# Syntax errors

Why a text is no script, and where. A token or character that cannot stand where it stands is
reported at its place; a text that ends too early is reported at its last token.
-/

namespace PipeScript

namespace Syntax

/-- What may stand at a place in a script. -/
inductive Terminal
  | endOfInput
  | forEach
  | word
  | guard
  | openBrace
  | parallel
  | closeBrace
  | quoted
  | arrow
deriving DecidableEq, Repr

/-- How a message names it. -/
def Terminal.name : Terminal → String
  | endOfInput => "$END"
  | forEach => "FOREACH"
  | word => "IDENT"
  | guard => "IF"
  | openBrace => "LBRACE"
  | parallel => "PARALLEL"
  | closeBrace => "RBRACE"
  | quoted => "STRING"
  | arrow => "__ANON_0"

/-- Why a text is no script. -/
inductive Fault
  /-- There is nothing but blanks. -/
  | empty
  /-- The text ends inside a block or where a stage must follow. -/
  | cutShort
  /-- A token stands where only the expected ones may. -/
  | token (spelling : String) (expected : List Terminal)
  /-- No token starts with the character. -/
  | character (c : Char)
  /-- The script file cannot be read. -/
  | unreadable (path reason : String)
deriving DecidableEq, Repr

/-- The fault in words. -/
def Fault.message : Fault → String
  | empty => "empty program"
  | cutShort => "unexpected end of input (unbalanced braces or dangling '->'?)"
  | token spelling expected =>
    "unexpected token " ++ Text.quote spelling
      ++ if expected.isEmpty then ""
         else ", expected one of: " ++ ", ".intercalate (expected.map Terminal.name)
  | character c =>
    "unexpected character " ++ Text.quote (String.singleton c)
      ++ if c = '"' || c = '\'' then " (missing closing quote?)" else ""
  | unreadable path reason => "cannot read script " ++ path ++ ": " ++ reason

/-- The text at fault. -/
def Fault.spelling? : Fault → Option String
  | token spelling _ => some spelling
  | character c => some (String.singleton c)
  | _ => none

end Syntax

/-- A fault and its place, if it has one. -/
structure ParseError where
  fault : Syntax.Fault
  position : Option Text.Position
deriving DecidableEq, Repr

/-- The error in words, with its place in front. -/
def ParseError.message (e : ParseError) : String :=
  match e.position with
  | some p => s!"line {p.line}, col {p.column}: {e.fault.message}"
  | none => e.fault.message

end PipeScript
