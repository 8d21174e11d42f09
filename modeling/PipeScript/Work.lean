import PipeScript.Disk

/-!
# Work on a state

A piece of work reads and changes a state and ends with a value or a failure. What it changed before
a failure stays changed.
-/

namespace PipeScript

/-- Work on a state of type `σ`. -/
abbrev Work (σ α : Type) := ExceptT Failure (StateM σ) α

namespace Work

variable {σ τ α : Type}

/-- Work from a function that gives the outcome and the new state. -/
def of (f : σ → Except Failure α × σ) : Work σ α := ExceptT.mk fun s => f s

/-- The outcome of work on a state, and the new state. -/
def on (w : Work σ α) (s : σ) : Except Failure α × σ := w.run s

/-- Work that may fail and changes nothing. -/
def check (f : σ → Except Failure α) : Work σ α := of fun s => (f s, s)

/-- Work that changes the state unless it fails. -/
def edit (f : σ → Except Failure σ) : Work σ Unit :=
  of fun s => match f s with
    | .ok s' => (.ok (), s')
    | .error e => (.error e, s)

/-- Work on a part of a larger state. -/
def within (get : τ → σ) (set : σ → τ → τ) (w : Work σ α) : Work τ α :=
  of fun t => let (r, s) := w.on (get t); (r, set s t)

@[simp] theorem on_of (f : σ → Except Failure α × σ) (s : σ) : (of f).on s = f s := rfl

/-- Work that goes on with the value of other work. -/
theorem on_bind {β : Type} (w : Work σ α) (k : α → Work σ β) (s : σ) :
    (w >>= k).on s = match w.on s with
      | (.ok a, s') => (k a).on s'
      | (.error f, s') => (.error f, s') := by
  show StateT.bind w (ExceptT.bindCont k) s = match (w s : Except Failure α × σ) with
      | (.ok a, s') => (k a).on s'
      | (.error f, s') => (.error f, s')
  unfold StateT.bind
  show (match (w s : Except Failure α × σ) with | (a, s') => ExceptT.bindCont k a s') = _
  obtain ⟨r, s'⟩ := (w s : Except Failure α × σ)
  cases r with
  | ok a => rfl
  | error f => rfl

end Work

end PipeScript
