import PipeScript.Execution.Process
import PipeScript.Loop.Report

/-!
# Iteration

A loop runs over its items one after the other. An item that fails is recorded and the loop goes on;
a cancellation stops the loop and carries the results so far. Between two items the loop naps.
-/

namespace PipeScript.Process

variable {σ : Type}

/-- The place of a loop's naps. -/
def loopPlace : String := "foreach"

/-- The warning about a failed item. -/
def itemWarning (index : Nat) (f : Failure) : String :=
  s!"[foreach] item {index + 1} error: {f.message}"

/-- The rest of a loop, from the item of the given index on, with the results so far, the latest one
first. -/
def iterateFrom (process : String → Nat → Process σ) (delay : Binary64)
    (next : List (ItemResult Failure) → Process σ) :
    List String → Nat → List (ItemResult Failure) → Process σ
  | [], _, results => next results.reverse
  | item :: rest, index, results =>
    look fun w =>
      if w.cancelled then fail (.cancelled loopPlace results.reverse)
      else
        (process item index).andThen fun outcome =>
          let results' := ⟨index, item, outcome⟩ :: results
          let goOn : Process σ :=
            if rest.isEmpty || !Binary64.lt 0 delay then
              iterateFrom process delay next rest (index + 1) results'
            else
              sleep loopPlace delay fun
                | true => fail (.cancelled loopPlace results'.reverse)
                | false => iterateFrom process delay next rest (index + 1) results'
          match outcome with
          | .ok _ => goOn
          | .error (.cancelled place _) => fail (.cancelled place results.reverse)
          | .error f => log .warning (itemWarning index f) goOn

/-- A loop over the items that a plan allows. -/
def iterate (plan : Loop.Plan) (items : List String) (process : String → Nat → Process σ)
    (next : List (ItemResult Failure) → Process σ) : Process σ :=
  iterateFrom process plan.delay next (plan.limit items) 0 []

end PipeScript.Process
