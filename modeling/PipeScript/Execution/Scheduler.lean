import PipeScript.Execution.Alarm
import PipeScript.Execution.Process

/-!
# The scheduler

Runs a process and its branches on virtual time. Tasks take turns in a queue, first come first
served; a task's turn lasts until it waits, forks or ends. Time advances only when the queue is
empty, to the earliest alarm.

## The model

A schedule holds the world, all tasks by number, the queue and the alarms. The main task has number
zero, and the branches of a fork get consecutive numbers. A task that ends takes one more turn to
announce it, and the task that forked it another one to gather what has ended by then: it goes on at
the first failure, or when all branches have ended, and else waits for the next announcement. A task
that is dropped takes one more turn to let go of its alarm or of its branches, which go on alone.

The queue is worked off in rounds: the turns that come up in one round are taken in the next. At the
start of a round the alarms that are due are queued behind them; an alarm wakes its task, which goes
on in the round after. A run is over with the round after the one in which the main task ends;
whatever is still going on then has no further effect.

A thread is a task like any other, and nobody drops it: a task that is dropped while it waits for a thread
lets go of it as of a branch, and the thread goes on by itself. It is taken to be at work as soon as it has
been forked. Its steps and those of other tasks are interleaved where its work waits, be it for no time at
all.
-/

namespace PipeScript

/-- A turn that is due. -/
inductive Turn
  /-- A task goes on. -/
  | resume (task : Nat)
  /-- The alarm of a task goes off. -/
  | wake (task : Nat)
  /-- A task announces that it has ended. -/
  | announce (task : Nat)
  /-- A task gathers the branches that have ended. -/
  | gather (task : Nat)
  /-- A task that has been dropped lets go of what it waited for. -/
  | release (task : Nat)
  /-- The run is cancelled from outside. -/
  | interrupt
deriving DecidableEq, Repr

/-- How far a task has come. -/
inductive TaskState (σ : Type)
  /-- It goes on with this in a turn that is due. -/
  | ready (work : Process σ)
  /-- It goes on with this when its alarm has gone off. -/
  | asleep (work : Process σ)
  /-- It waits for branches: the number of the first one, how many there are, those that it has not
  gathered yet, and whether its turn to gather is due. -/
  | joining (first count : Nat) (awaited : List Nat) (due : Bool) (next : Joined → Process σ)
  /-- It has ended. -/
  | ended (outcome : Outcome)
  /-- It never goes on. -/
  | dropped

/-- A task and the one that is told of its end: the one that forked it, as long as that one waits or
has abandoned it. -/
structure TaskEntry (σ : Type) where
  state : TaskState σ
  parent : Option Nat
  /-- What it has been forked as. The main task counts as a branch of a block. -/
  kind : Fork

/-- Everything that a run consists of. -/
structure Schedule (σ : Type) where
  world : World σ
  tasks : List (TaskEntry σ)
  queue : List Turn
  alarms : Alarms Turn

/-- Why a task pauses. -/
inductive Pause (σ : Type)
  | ended (outcome : Outcome)
  /-- It goes on in the next round. -/
  | yielded (rest : Process σ)
  /-- It goes on after some seconds. -/
  | asleep (seconds : Binary64) (rest : Process σ)
  | forked (kind : Fork) (count : Nat) (branch : Fin count → Process σ) (next : Joined → Process σ)

/-- The seconds of the longest nap that is taken at once. -/
def napSlice : Binary64 := .ofRatio false 1 20

namespace Process

variable {σ : Type}

/-- Run a process until it pauses. A nap is taken in slices, with a look at the world before each
one. -/
def advance (w : World σ) : Process σ → World σ × Pause σ
  | done outcome => (w, .ended outcome)
  | look next => (next w).advance w
  | act effect next => next.advance (effect.apply w)
  | wait seconds next =>
    if Binary64.le seconds 0 then (w, .yielded next) else (w, .asleep seconds next)
  | nap place remaining next =>
    if w.cancelled then (next true).advance w
    else if Binary64.lt 0 remaining then
      (w, .asleep (Binary64.min napSlice remaining) (nap place (remaining - napSlice) next))
    else (next false).advance w
  | fork kind count branch next =>
    if count = 0 then (next (.ok [])).advance w else (w, .forked kind count branch next)

end Process

namespace Schedule

variable {σ : Type}

/-- How far a task has come. -/
def state? (s : Schedule σ) (task : Nat) : Option (TaskState σ) := (s.tasks[task]?).map (·.state)

/-- The schedule with another state of a task. -/
def setState (s : Schedule σ) (task : Nat) (state : TaskState σ) : Schedule σ :=
  { s with tasks := s.tasks.modify task fun e => { e with state } }

/-- The schedule with turns added to the queue. -/
def enqueue (s : Schedule σ) (turns : List Turn) : Schedule σ :=
  { s with queue := s.queue ++ turns }

/-- The schedule with an alarm set for a task. -/
def setAlarm (s : Schedule σ) (seconds : Binary64) (task : Nat) : Schedule σ :=
  { s with alarms := s.alarms.add { time := s.world.now + seconds, event := .wake task } }

/-- The outcome of a task that has ended. -/
def outcome? (s : Schedule σ) (task : Nat) : Option Outcome :=
  match s.state? task with
  | some (.ended outcome) => some outcome
  | _ => none

/-- Note why a task pauses. -/
def record (s : Schedule σ) (task : Nat) : Pause σ → Schedule σ
  | .ended outcome =>
    let s := s.setState task (.ended outcome)
    match (s.tasks[task]?).bind (·.parent) with
    | some _ => s.enqueue [.announce task]
    | none => s
  | .yielded rest => (s.setState task (.ready rest)).enqueue [.resume task]
  | .asleep seconds rest => (s.setState task (.asleep rest)).setAlarm seconds task
  | .forked kind count branch next =>
    let first := s.tasks.length
    let numbers := (List.range count).map (first + ·)
    let s := s.setState task (.joining first count numbers false next)
    let branches : List (TaskEntry σ) :=
      (List.finRange count).map fun i => ⟨.ready (branch i), some task, kind⟩
    { s with tasks := s.tasks ++ branches }.enqueue (numbers.map .resume)

/-- Let a task go on with a process until it pauses. -/
def proceed (s : Schedule σ) (task : Nat) (p : Process σ) : Schedule σ :=
  let (world, pause) := p.advance s.world
  { s with world }.record task pause

/-- The first of the tasks that has failed, with its failure. -/
def firstFailure? (s : Schedule σ) (tasks : List Nat) : Option (Nat × Failure) :=
  tasks.findSome? fun t =>
    match s.outcome? t with
    | some (.error f) => some (t, f)
    | _ => none

/-- The values of tasks that have ended well. -/
def valuesOf (s : Schedule σ) (tasks : List Nat) : List String :=
  tasks.filterMap fun t =>
    match s.outcome? t with
    | some (.ok value) => some value
    | _ => none

/-- Drop a task. If it waits, it takes a turn to let go of what it waits for; else it does so in the
turn that is due. -/
def drop (s : Schedule σ) (task : Nat) : Schedule σ :=
  match s.state? task with
  | some (.asleep _) | some (.joining _ _ _ false _) =>
    (s.setState task .dropped).enqueue [.release task]
  | _ => s.setState task .dropped

/-- The schedule after a dropped task has let go: its alarm is called off, and the end of its
branches is no longer announced. -/
def release (s : Schedule σ) (task : Nat) : Schedule σ :=
  { s with
    alarms := s.alarms.callOff (.wake task)
    tasks := s.tasks.map fun e => if e.parent = some task then { e with parent := none } else e }

/-- The schedule after tasks are abandoned: dropped, or left to go on by themselves. -/
def abandon (s : Schedule σ) (cancel : Bool) (tasks : List Nat) : Schedule σ :=
  if cancel then tasks.foldl drop s else s

/-- Let a task gather the branches that have ended. -/
def gather (s : Schedule σ) (cancelSiblings : Bool) (task first count : Nat) (awaited : List Nat)
    (next : Joined → Process σ) : Schedule σ :=
  let pending := awaited.filter fun t => (s.outcome? t).isNone
  match s.firstFailure? awaited with
  | some (t, f) => (s.abandon cancelSiblings pending).proceed task (next (.error (t - first, f)))
  | none =>
    if pending.isEmpty then
      s.proceed task (next (.ok (s.valuesOf ((List.range count).map (first + ·)))))
    else s.setState task (.joining first count pending false next)

/-- Take a turn. A turn of a task that is not in the state for it is void. -/
def take (cancelSiblings : Bool) (s : Schedule σ) : Turn → Schedule σ
  | .resume task =>
    match s.state? task with
    | some (.ready p) => s.proceed task p
    | _ => s
  | .wake task =>
    match s.state? task with
    | some (.asleep p) => (s.setState task (.ready p)).enqueue [.resume task]
    | _ => s
  | .announce task =>
    match (s.tasks[task]?).bind (·.parent) with
    | some parent =>
      match s.state? parent with
      | some (.joining first count awaited false next) =>
        if awaited.contains task then
          (s.setState parent (.joining first count awaited true next)).enqueue [.gather parent]
        else s
      | _ => s
    | none => s
  | .gather task =>
    match s.state? task with
    | some (.joining first count awaited true next) =>
      s.gather cancelSiblings task first count awaited next
    | some .dropped => s.release task
    | _ => s
  | .release task => s.release task
  | .interrupt => { s with world := { s.world with cancelled := true } }

/-- Alarms that are less than this number of seconds ahead are due. -/
def resolution : Binary64 := .ofRatio false 1 1000000000

/-- Is a time still to come? A time that has been reached is not, even where the numbers are too far
apart to tell the next moment from this one. -/
def isToCome (now time : Binary64) : Bool :=
  Binary64.lt now time && Binary64.le (now + resolution) time

/-- Queue the alarms that are due. -/
def ring (s : Schedule σ) : Schedule σ :=
  let (turns, alarms) := s.alarms.due (isToCome s.world.now)
  { s with alarms }.enqueue turns

/-- Take all turns of the queue. -/
def takeAll (cancelSiblings : Bool) (s : Schedule σ) : Schedule σ :=
  s.queue.foldl (take cancelSiblings) { s with queue := [] }

/-- One round. -/
def round (cancelSiblings : Bool) (s : Schedule σ) : Schedule σ := s.ring.takeAll cancelSiblings

/-- The schedule at a time, unless it is that time already or later. -/
def atTime (s : Schedule σ) (time : Binary64) : Schedule σ :=
  if Binary64.lt s.world.now time then { s with world := { s.world with now := time } } else s

/-- Advance the time to the earliest alarm if no turn is due. Without turns, and with no alarm at a
time that is ever reached, nothing will happen. -/
def advance (s : Schedule σ) : Option (Schedule σ) :=
  let s := { s with alarms := s.alarms.dropCalledOff }
  if s.queue.isEmpty then
    match s.alarms.first? with
    | none => none
    | some ⟨.infinite _, _, _⟩ => none
    | some a => some (s.atTime a.time)
  else some s

/-- Run until the main task has ended. The number bounds the rounds; without an outcome the run has
not ended within it, or never will. -/
def runFor (cancelSiblings : Bool) : Nat → Schedule σ → Option (Outcome × World σ)
  | 0, _ => none
  | rounds + 1, s =>
    match s.outcome? 0 with
    | some outcome => some (outcome, (s.round cancelSiblings).world)
    | none =>
      match s.advance with
      | some s' => runFor cancelSiblings rounds (s'.round cancelSiblings)
      | none => none

/-- A process about to start in a world, with the alarms that are set beforehand. -/
def start (w : World σ) (p : Process σ) (alarms : Alarms Turn := {}) : Schedule σ :=
  ⟨w, [⟨.ready p, none, .block⟩], [.resume 0], alarms⟩

/-- The number of rounds after which a run is given up. -/
def patience : Nat := 1000000000000000

/-- The outcome of a process in a world, and the world in the end. -/
def run (cancelSiblings : Bool) (w : World σ) (p : Process σ) (alarms : Alarms Turn := {}) :
    Option (Outcome × World σ) :=
  runFor cancelSiblings patience (start w p alarms)

end Schedule

end PipeScript
