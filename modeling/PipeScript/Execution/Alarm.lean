import PipeScript.Binary64

/-!
# Alarms

Events at later times, the earliest first. Alarms are kept in a binary heap, which also settles the
order of alarms of the same time: it is the one in which they come to the root. An alarm may be
called off; it keeps its place until it comes to the root.

A time may be `nan`, which is neither earlier nor later than any time; such an alarm stays where it
is put until others have left.
-/

namespace PipeScript

/-- An event at a time. -/
structure Alarm (α : Type) where
  time : Binary64
  event : α
  /-- Whether it has been called off. -/
  off : Bool := false
deriving DecidableEq, Repr

/-- Alarms in a heap: the alarms below position `i` are at `2 i + 1` and `2 i + 2`. -/
structure Alarms (α : Type) where
  row : Array (Alarm α) := #[]
deriving DecidableEq, Repr

namespace Alarms

variable {α : Type}

/-- Does the first alarm come before the second by its time? -/
def precedes (a b : Alarm α) : Bool := Binary64.lt a.time b.time

/-- Move the alarm at a position towards the root, past the ones that it precedes. -/
def rise (row : Array (Alarm α)) (i : Nat) : Array (Alarm α) :=
  if h : 0 < i ∧ i < row.size then
    let above := (i - 1) / 2
    have : above < i := by omega
    if precedes row[i] row[above] then rise (row.swap i above) above else row
  else row
termination_by i

/-- The position below `i` that is filled first when `i` becomes free: the left one only if its
alarm precedes the right one. -/
def heir (row : Array (Alarm α)) (i : Nat) : Nat :=
  if h : 2 * i + 2 < row.size then
    if precedes row[2 * i + 1] row[2 * i + 2] then 2 * i + 1 else 2 * i + 2
  else 2 * i + 1

theorem lt_heir (row : Array (Alarm α)) (i : Nat) : i < heir row i := by
  unfold heir; split <;> (try split) <;> omega

theorem heir_lt {row : Array (Alarm α)} {i : Nat} (h : 2 * i + 1 < row.size) :
    heir row i < row.size := by
  unfold heir; split <;> (try split) <;> omega

/-- Move the alarm at a position away from the root until none is below it, and then up again to
where it belongs. -/
def sink (row : Array (Alarm α)) (i : Nat) : Array (Alarm α) :=
  if h : 2 * i + 1 < row.size then
    sink (row.swap i (heir row i) (by omega) (heir_lt h)) (heir row i)
  else rise row i
termination_by row.size - i
decreasing_by
  have := lt_heir row i
  have := heir_lt h
  simp only [Array.size_swap]
  omega

/-- The alarms with one more. -/
def add (s : Alarms α) (a : Alarm α) : Alarms α := ⟨rise (s.row.push a) s.row.size⟩

/-- The first alarm. -/
def first? (s : Alarms α) : Option (Alarm α) := s.row[0]?

/-- The alarms without the first one: the last one takes its place, and sinks from there. -/
def removeFirst (s : Alarms α) : Alarms α :=
  match s.row.back? with
  | none => s
  | some last =>
    let rest := s.row.pop
    ⟨if h : 0 < rest.size then sink (rest.set 0 last) 0 else rest⟩

/-- The alarms with those of an event called off. -/
def callOff [DecidableEq α] (s : Alarms α) (event : α) : Alarms α :=
  ⟨s.row.map fun a => if a.event = event then { a with off := true } else a⟩

theorem size_rise (row : Array (Alarm α)) (i : Nat) : (rise row i).size = row.size := by
  fun_induction rise row i <;> simp_all

theorem size_sink (row : Array (Alarm α)) (i : Nat) : (sink row i).size = row.size := by
  fun_induction sink row i <;> simp_all [size_rise]

theorem size_removeFirst (s : Alarms α) : s.removeFirst.row.size = s.row.size - 1 := by
  unfold removeFirst
  split
  · rename_i h
    simp_all
  · simp only
    split <;> simp_all [size_sink]

/-- The alarms from the first one on that is not called off. -/
def dropCalledOff (s : Alarms α) : Alarms α :=
  if h : 0 < s.row.size then
    if s.row[0].off then s.removeFirst.dropCalledOff else s
  else s
termination_by s.row.size
decreasing_by rw [size_removeFirst]; omega

/-- The events of the alarms up to the first one whose time is still to come, in order, and the
alarms that are left. -/
def due (s : Alarms α) (toCome : Binary64 → Bool) : List α × Alarms α :=
  if h : 0 < s.row.size then
    if toCome s.row[0].time then ([], s)
    else
      let (events, rest) := s.removeFirst.due toCome
      (s.row[0].event :: events, rest)
  else ([], s)
termination_by s.row.size
decreasing_by rw [size_removeFirst]; omega

end Alarms

end PipeScript
