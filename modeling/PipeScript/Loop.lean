import PipeScript.Binary64
import PipeScript.Text.Blank
import PipeScript.Text.Casing
import PipeScript.Text.Split

/-!
# Loop items

A loop runs over the items of a value. How the value is cut into items is named by a strategy:
lines, sections between rules of dashes, comma-separated values, paragraphs, or rows of a table. Any
other strategy is a separator, taken literally. The named strategies trim their items and drop the
empty ones; the line strategy also passes over headings, rules and the head of a table.
-/

namespace PipeScript.Loop

open Text

/-- How a value is cut into items. -/
inductive Strategy
  | lines
  | sections
  | commas
  | paragraphs
  | rows
  | separator (text : List Char)
deriving DecidableEq, Repr

/-- The strategy of a name; an empty name means lines. -/
def Strategy.ofName (name : List Char) : Strategy :=
  if ["", "line", "lines", "\n"].any (·.toList == name) then .lines
  else if ["section", "sections"].any (·.toList == name) then .sections
  else if ["csv", ","].any (·.toList == name) then .commas
  else if ["paragraph", "paragraphs"].any (·.toList == name) then .paragraphs
  else if ["table", "rows"].any (·.toList == name) then .rows
  else .separator name

/-- Does the text start with the given one? -/
def startsWith (start : String) (s : List Char) : Bool := start.toList.isPrefixOf s

/-- Does the line strategy keep a trimmed line? -/
def keepsLine (line : List Char) : Bool :=
  !(line.isEmpty || line == "---".toList || startsWith "#" line || startsWith "|--" line
    || startsWith "| #" line || startsWith "| -" line)

/-- Does the row strategy keep a trimmed line? -/
def keepsRow (line : List Char) : Bool := startsWith "|" line && !occursIn "---".toList line

/-- The pieces, trimmed, without the empty ones. -/
def trimmed (pieces : List (List Char)) : List (List Char) :=
  (pieces.map trim).filter (!·.isEmpty)

/-- The items of a value. -/
def items (s : List Char) : Strategy → List (List Char)
  | .lines => ((Text.lines s).map trim).filter keepsLine
  | .sections => trimmed (splitOn "---".toList s)
  | .commas => trimmed (splitOn [','] s)
  | .paragraphs => trimmed (splitOn ['\n', '\n'] s)
  | .rows => ((Text.lines s).map trim).filter keepsRow
  | .separator sep => splitOn sep s

/-- The name of a strategy as a script gives it: without blanks and quotation marks around it, in
lower case, and `line` if nothing is left. -/
def strategyName (argument : String) : String :=
  let name := lower (bare argument.toList)
  if name.isEmpty then "line" else String.ofList name

/-- How a loop goes through its items. -/
structure Plan where
  separator : String := "line"
  /-- Seconds between two items. -/
  delay : Binary64
  /-- The greatest number of items, unless it is zero or less. -/
  maxItems : Int := 0

/-- The plan of a loop with the given strategy argument. -/
def Plan.ofArgument (argument : String) (delay : Binary64) (maxItems : Int) : Plan :=
  ⟨strategyName argument, delay, maxItems⟩

/-- The items that a loop over a value goes through, before the limit on their number. -/
def itemsOf (input separator : String) : List String :=
  (items input.toList (Strategy.ofName separator.toList)).map String.ofList

/-- The items within the limit of a plan. -/
def Plan.limit (plan : Plan) (items : List String) : List String :=
  if 0 < plan.maxItems then items.take plan.maxItems.toNat else items

/-- The first `k` elements, or all but the last `-k` if `k` is negative. -/
def takeTo {α : Type} (k : Int) (xs : List α) : List α :=
  if 0 ≤ k then xs.take k.toNat else xs.take (xs.length - k.natAbs)

/-- A text on one line and of limited length; what is cut off is marked by three dots within the
limit. -/
def truncate (s : List Char) (limit : Int) : List Char :=
  let flat := s.map fun c => if c = '\n' then ' ' else c
  if limit < (flat.length : Int) then takeTo (limit - 3) flat ++ "...".toList else flat

end PipeScript.Loop
