import PipeScript.Execution.Job

/-!
# Processes

What a run does, as a tree: a process looks at the world, changes it, waits, naps, or forks into
branches and goes on when they are done. Waiting is left to the scheduler, so a process is a pure
value, built by recursion on the program; its own steps between two waits are not interrupted.

A call that is handed to a thread is forked as well, as a branch of its own for which its caller waits.
-/

namespace PipeScript

/-- What is forked: the branches of a parallel block, or the thread that is at work on a call. -/
inductive Fork
  | block
  | thread
deriving DecidableEq, Repr

/-- What the branches of a fork come to: their values in order, or the first failure found and the
position of its branch. -/
abbrev Joined := Except (Nat × Failure) (List String)

/-- A process in a world with surroundings of type `σ`. -/
inductive Process (σ : Type)
  | done (outcome : Outcome)
  | look (next : World σ → Process σ)
  | act (effect : Effect σ) (next : Process σ)
  | wait (seconds : Binary64) (next : Process σ)
  | nap (place : String) (remaining : Binary64) (next : Bool → Process σ)
  | fork (kind : Fork) (count : Nat) (branch : Fin count → Process σ) (next : Joined → Process σ)

/-- What the only branch of a fork comes to. -/
def soleOutcome : Joined → Outcome
  | .ok values => .ok (values.headD "")
  | .error (_, f) => .error f

namespace Process

variable {σ : Type}

/-- End well. -/
def ok (value : String) : Process σ := done (.ok value)

/-- End with a failure. -/
def fail (f : Failure) : Process σ := done (.error f)

/-- Go on with the outcome. -/
def andThen : Process σ → (Outcome → Process σ) → Process σ
  | done outcome, k => k outcome
  | look next, k => look fun w => (next w).andThen k
  | act effect next, k => act effect (next.andThen k)
  | wait seconds next, k => wait seconds (next.andThen k)
  | nap place remaining next, k => nap place remaining fun c => (next c).andThen k
  | fork kind count branch next, k => fork kind count branch fun j => (next j).andThen k

/-- Go on with the value, unless there is none. -/
def bind (p : Process σ) (k : String → Process σ) : Process σ :=
  p.andThen fun
    | .ok value => k value
    | .error f => fail f

@[simp] theorem andThen_done (r : Outcome) (k : Outcome → Process σ) :
    (done r).andThen k = k r := rfl

theorem andThen_assoc (p : Process σ) (j k : Outcome → Process σ) :
    (p.andThen j).andThen k = p.andThen fun r => (j r).andThen k := by
  induction p with
  | done r => rfl
  | look next ih => simp only [andThen, ih]
  | act e next ih => simp only [andThen, ih]
  | wait s next ih => simp only [andThen, ih]
  | nap place r next ih => simp only [andThen, ih]
  | fork kind n branch next _ ih => simp only [andThen, ih]

theorem andThen_id (p : Process σ) : p.andThen done = p := by
  induction p with
  | done r => rfl
  | look next ih => simp only [andThen, ih]
  | act e next ih => simp only [andThen, ih]
  | wait s next ih => simp only [andThen, ih]
  | nap place r next ih => simp only [andThen, ih]
  | fork kind n branch next _ ih => simp only [andThen, ih]

theorem bind_assoc (p : Process σ) (j k : String → Process σ) :
    (p.bind j).bind k = p.bind fun v => (j v).bind k := by
  simp only [bind, andThen_assoc]
  congr 1
  funext r
  cases r <;> rfl

/-- Go on unless the run has been cancelled. -/
def checkpoint (place : String) (next : Process σ) : Process σ :=
  look fun w => if w.cancelled then fail (.cancelled place []) else next

/-- Ask for a nap and take it; the continuation learns whether it was cut short. -/
def sleep (place : String) (seconds : Binary64) (next : Bool → Process σ) : Process σ :=
  act (.nap place seconds) (nap place seconds next)

/-- Write a line of the log. -/
def log (level : Level) (text : String) (next : Process σ) : Process σ :=
  act (.log ⟨level, text⟩) next

/-- Hand work to a thread and wait for what it comes to. The thread goes on whatever becomes of the one
who waits. -/
def inThread (work : Process σ) : Process σ :=
  fork .thread 1 (fun _ => work) fun j => done (soleOutcome j)

/-- The process of a job. -/
def ofJob : Job σ → Process σ
  | .finish outcome => done outcome
  | .look next => look fun w => ofJob (next w)
  | .alter f next => act (.alter f) (ofJob next)
  | .cancel next => act .cancel (ofJob next)
  | .assign name value next => act (.assign name value) (ofJob next)
  | .log line next => act (.log line) (ofJob next)
  | .wait seconds next => wait seconds (ofJob next)
  | .nap place seconds next => act (.nap place seconds) (nap place seconds fun c => ofJob (next c))

end Process

end PipeScript
