import PipeScript.Failure
import PipeScript.Loop

/-!
# Loop reports

What a loop made of its items, as a text for people: a summary, and for each item its output or its
error.
-/

namespace PipeScript.Loop

/-- Did the item give an output? -/
def isSuccess {ε : Type} (r : ItemResult ε) : Bool :=
  match r.outcome with
  | .ok _ => true
  | .error _ => false

/-- The part of a report about one item. -/
def reportItem (r : ItemResult Failure) : String :=
  let body := match r.outcome with
    | .ok output => s!"## Item {r.index + 1} ✓\n" ++ if output.isEmpty then "" else output ++ "\n\n"
    | .error f =>
      s!"## Item {r.index + 1} ❌\n" ++ "Input: "
        ++ String.ofList (truncate r.item.toList 100) ++ "\n"
        ++ "Error: " ++ f.message ++ "\n\n"
  body ++ "---\n\n"

/-- The report on all items. -/
def report (results : List (ItemResult Failure)) : String :=
  let total := results.length
  let successes := results.countP isSuccess
  s!"**Summary:** {successes} succeeded, {total - successes} failed out of {total} total\n\n"
    ++ s!"# Processed {total} items\n\n"
    ++ String.join (results.map reportItem)

end PipeScript.Loop
