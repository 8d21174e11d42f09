import PipeScript.Proofs.Execution.Tasks
import PipeScript.Proofs.Execution.Time
import Mathlib.Logic.Hydra

/-!
# Runs end

A run ends if each of its waits and naps does: every turn either brings some task closer to its end,
though it may leave several tasks in place of one, or uses up a turn or an alarm.

## The model

What is left to do is the multiset of all that the tasks have still to do. A step of a task replaces
one element of it by any number of smaller ones, so the order is the one of the hydra; a turn that
leaves it as it is lowers the `burden`, the weight of the turns and the alarms that are left.

Main results: taking a turn lowers the measure (`improves_take`), a schedule in which the main task has
not ended goes on (`exists_advance`), and a run of a timely process ends (`exists_runFor`).
-/

namespace PipeScript

open Relation Binary64

variable {σ : Type}

/-! ### What is left to do -/

/-- Something that a task has still to do: a process, or what comes after its branches. -/
inductive Item (σ : Type)
  | work (p : Process σ)
  | join (next : Joined → Process σ)

/-- Is the first item what is left of the second after a step? -/
inductive Item.Below : Item σ → Item σ → Prop
  | look (next : World σ → Process σ) (w : World σ) : Below (.work (next w)) (.work (.look next))
  | act (e : Effect σ) (next : Process σ) : Below (.work next) (.work (.act e next))
  | wait (seconds : Binary64) (next : Process σ) : Below (.work next) (.work (.wait seconds next))
  | nap (place : String) (r : Binary64) (next : Bool → Process σ) (c : Bool) :
      Below (.work (next c)) (.work (.nap place r next))
  /-- A slice of a nap that is over some time. -/
  | slice (place : String) {r : Binary64} (next : Bool → Process σ) (h : Elapses (r - napSlice))
      (hpos : lt 0 r = true) : Below (.work (.nap place (r - napSlice) next)) (.work (.nap place r next))
  | branch {kind : Fork} {count : Nat} (branch : Fin count → Process σ) (next : Joined → Process σ)
      (i : Fin count) :
      Below (.work (branch i)) (.work (.fork kind count branch next))
  | join {kind : Fork} {count : Nat} (branch : Fin count → Process σ) (next : Joined → Process σ) :
      Below (.join next) (.work (.fork kind count branch next))
  | joined (next : Joined → Process σ) (j : Joined) : Below (.work (next j)) (.join next)

/-- What is left of a process can be done in finitely many steps. -/
theorem Item.acc_work (p : Process σ) : Acc Item.Below (Item.work p) := by
  induction p with
  | done o => exact ⟨_, fun y hy => by cases hy⟩
  | look next ih =>
    refine ⟨_, fun y hy => ?_⟩
    cases hy with
    | look _ w => exact ih w
  | act e next ih =>
    refine ⟨_, fun y hy => ?_⟩
    cases hy with
    | act => exact ih
  | wait seconds next ih =>
    refine ⟨_, fun y hy => ?_⟩
    cases hy with
    | wait => exact ih
  | nap place r next ih =>
    -- the slices of a nap that is over some time
    have key (r : Binary64) (h : Elapses r) : Acc Item.Below (Item.work (.nap place r next)) := by
      induction h with
      | past hpast =>
        refine ⟨_, fun y hy => ?_⟩
        cases hy with
        | nap _ _ _ c => exact ih c
        | slice _ _ _ hpos => simp [hpast] at hpos
      | slice _ ihr =>
        refine ⟨_, fun y hy => ?_⟩
        cases hy with
        | nap _ _ _ c => exact ih c
        | slice => exact ihr
    refine ⟨_, fun y hy => ?_⟩
    cases hy with
    | nap _ _ _ c => exact ih c
    | slice _ _ h => exact key _ h
  | fork kind count branch next ihb ih =>
    refine ⟨_, fun y hy => ?_⟩
    cases hy with
    | branch _ _ i => exact ihb i
    | join =>
      refine ⟨_, fun y hy => ?_⟩
      cases hy with
      | joined _ j => exact ih j

theorem Item.wellFounded_below : WellFounded (Item.Below : Item σ → Item σ → Prop) := by
  constructor
  intro x
  cases x with
  | work p => exact Item.acc_work p
  | join next =>
    refine ⟨_, fun y hy => ?_⟩
    cases hy with
    | joined _ j => exact Item.acc_work (next j)

/-- Is the first item what is left of the second after some steps? -/
abbrev Item.Lower : Item σ → Item σ → Prop := TransGen Item.Below

/-- What a task in a state has still to do. -/
def TaskState.load : TaskState σ → Multiset (Item σ)
  | .ready p => {.work p}
  | .asleep p => {.work p}
  | .joining _ _ _ _ next => {.join next}
  | .ended _ => 0
  | .dropped => 0

/-- What branches have to do. -/
def Item.branches {count : Nat} (branch : Fin count → Process σ) : Multiset (Item σ) :=
  ((List.finRange count).map fun i => Item.work (branch i) : List (Item σ))

/-- What a pausing task has still to do, with its branches. -/
def Pause.load : Pause σ → Multiset (Item σ)
  | .ended _ => 0
  | .yielded rest => {.work rest}
  | .asleep _ rest => {.work rest}
  | .forked _ _ branch next => {.join next} + Item.branches branch

/-- How much it takes to use up a turn: more than the turns that it leads to by itself. -/
def Turn.weight : Turn → Nat
  | .wake _ | .announce _ => 2
  | _ => 1

theorem Turn.weight_pos (u : Turn) : 0 < u.weight := by
  cases u <;> simp [weight]

theorem Turn.weight_le (u : Turn) : u.weight ≤ 2 := by
  cases u <;> simp [weight]

namespace Schedule

/-- What all tasks have still to do. -/
def load (s : Schedule σ) : Multiset (Item σ) := (s.tasks.map fun e => e.state.load).sum

/-- The weight of the turns and the alarms that are left. -/
def burden (turns : List Turn) (s : Schedule σ) : Nat :=
  ((turns ++ s.queue).map Turn.weight).sum + 3 * s.alarms.all.length

/-- What is left to do, with the turns and the alarms that are left. -/
def remaining (turns : List Turn) (s : Schedule σ) : Multiset (Item σ) × Nat :=
  (s.load, burden turns s)

/-- Is there less left to do, or as much with fewer turns and alarms? -/
def Lighter : Multiset (Item σ) × Nat → Multiset (Item σ) × Nat → Prop :=
  Prod.Lex (TransGen (CutExpand Item.Lower)) (· < ·)

theorem wellFounded_lighter : WellFounded (Lighter (σ := σ)) :=
  WellFounded.prod_lex Item.wellFounded_below.transGen.cutExpand.transGen Nat.lt_wfRel.wf

theorem sum_map_modify {α : Type} {β : Type} [AddCommMonoid β] {xs : List α} {i : Nat} {x : α}
    (h : xs[i]? = some x) (f : α → α) (g : α → β) :
    ((xs.modify i f).map g).sum + g x = (xs.map g).sum + g (f x) := by
  induction xs generalizing i with
  | nil => simp at h
  | cons y ys ih =>
    cases i with
    | zero =>
      obtain rfl : y = x := by simpa using h
      simp only [List.modify_zero_cons, List.map_cons, List.sum_cons]
      rw [add_right_comm, add_comm (g (f y)), add_assoc, add_comm (g (f y)), ← add_assoc]
    | succ i =>
      have := ih (by simpa using h)
      simp only [List.modify_succ_cons, List.map_cons, List.sum_cons, add_assoc, this]

theorem load_setState {s : Schedule σ} {t : Nat} {st : TaskState σ} (h : s.state? t = some st)
    (st' : TaskState σ) : (s.setState t st').load + st.load = s.load + st'.load := by
  obtain ⟨e, he, rfl⟩ := Option.map_eq_some_iff.mp h
  exact sum_map_modify he (fun e => { e with state := st' }) fun e => e.state.load

theorem load_addBranches (s : Schedule σ) (t : Nat) (kind : Fork) (count : Nat)
    (branch : Fin count → Process σ) :
    (s.addBranches t kind count branch).load = s.load + Item.branches branch := by
  have hsum (xs : List (Fin count)) :
      (xs.map fun i => ({Item.work (branch i)} : Multiset (Item σ))).sum =
        (xs.map fun i => Item.work (branch i) : List (Item σ)) := by
    induction xs with
    | nil => rfl
    | cons i xs ih => rw [List.map_cons, List.sum_cons, ih]; rfl
  simp only [load, addBranches, List.map_append, List.sum_append, List.map_map]
  exact congrArg (s.load + ·) (hsum _)

/-- A task's pause leaves the others as they are. -/
theorem load_record {s : Schedule σ} {t : Nat} {st : TaskState σ} (h : s.state? t = some st)
    (pause : Pause σ) : (s.record t pause).load + st.load = s.load + pause.load := by
  cases pause with
  | ended o =>
    have hload := load_setState h (.ended o)
    simp only [record]
    split <;> exact hload
  | yielded rest => exact load_setState h (.ready rest)
  | asleep seconds rest => exact load_setState h (.asleep rest)
  | forked kind count branch next =>
    have hlt := lt_length_of_state? h
    rw [record_forked s t kind count branch hlt]
    have hst := (state?_addBranches_of_lt s t kind count branch hlt).trans h
    have hload := load_setState hst (.joining s.tasks.length count
      ((List.range count).map (s.tasks.length + ·)) false next)
    refine Eq.trans hload ?_
    rw [load_addBranches, Pause.load, TaskState.load, add_assoc, add_comm (Item.branches branch)]

theorem load_release (s : Schedule σ) (t : Nat) : (s.release t).load = s.load := by
  simp only [load, release, List.map_map]
  congr 1
  apply List.map_congr_left
  intro e _
  simp only [Function.comp]
  split <;> rfl

/-- Dropping a task leaves less to do, or as much. -/
theorem load_drop (s : Schedule σ) (b : Nat) :
    ReflTransGen (CutExpand Item.Lower) (s.drop b).load s.load := by
  cases hst : s.state? b with
  | none =>
    have heq : s.drop b = s := by
      have hb : s.tasks.length ≤ b := by
        by_contra hlt
        simp [state?, List.getElem?_eq_getElem (Nat.lt_of_not_le hlt)] at hst
      unfold drop
      simp [hst, setState, List.modify_eq_self hb]
    rw [heq]
  | some st =>
    have hload : (s.drop b).load + st.load = s.load := by
      have hset : (s.setState b .dropped).load + st.load = s.load :=
        (load_setState hst .dropped).trans (add_zero _)
      unfold drop
      split <;> exact hset
    have hcut (x : Item σ) (hx : st.load = {x}) :
        ReflTransGen (CutExpand Item.Lower) (s.drop b).load s.load :=
      .single ⟨0, x, by simp, by rw [← hx, hload, add_zero]⟩
    cases st with
    | ready p => exact hcut _ rfl
    | asleep p => exact hcut _ rfl
    | joining first count awaited due next => exact hcut _ rfl
    | ended o =>
      rw [← hload, TaskState.load, add_zero]
    | dropped =>
      rw [← hload, TaskState.load, add_zero]

theorem load_abandon (s : Schedule σ) (cancel : Bool) (tasks : List Nat) :
    ReflTransGen (CutExpand Item.Lower) (s.abandon cancel tasks).load s.load :=
  abandon_induction (P := fun s' => ReflTransGen (CutExpand Item.Lower) s'.load s.load) cancel .refl
    fun s' hs' b _ => (load_drop s' b).trans hs'

end Schedule

/-! ### Timely processes -/

/-- Does each wait of the process pass, and does each nap elapse? -/
def Process.Timely : Process σ → Prop
  | done _ => True
  | look next => ∀ w, (next w).Timely
  | act _ next => next.Timely
  | wait seconds next => Passes seconds ∧ next.Timely
  | nap _ r next => Elapses r ∧ ∀ c, (next c).Timely
  | fork _ _ branch next => (∀ i, (branch i).Timely) ∧ ∀ j, (next j).Timely

/-- Is all that is left of a task timely? -/
def TaskState.Timely : TaskState σ → Prop
  | .ready p => p.Timely
  | .asleep p => p.Timely
  | .joining _ _ _ _ next => ∀ j, (next j).Timely
  | .ended _ => True
  | .dropped => True

/-- Is all that is left of a pausing task timely, and the alarm that it sets at a time? -/
def Pause.Timely : Pause σ → Prop
  | .ended _ => True
  | .yielded rest => rest.Timely
  | .asleep seconds rest => (∀ now, IsTime now → IsTime (now + seconds)) ∧ rest.Timely
  | .forked _ _ branch next => (∀ i, (branch i).Timely) ∧ ∀ j, (next j).Timely

/-- **A timely process goes on timely**, and what it has left to do is less. -/
theorem Process.Timely.advance {p : Process σ} (h : p.Timely) (w : World σ) :
    (p.advance w).2.Timely ∧ (p.advance w).1.now = w.now ∧
      ∀ x ∈ (p.advance w).2.load, Item.Lower x (.work p) := by
  induction p generalizing w with
  | done o => exact ⟨trivial, rfl, by simp [Process.advance, Pause.load]⟩
  | look next ih =>
    obtain ⟨ht, hnow, hx⟩ := ih w (h w) w
    exact ⟨ht, hnow, fun x hmem => (hx x hmem).tail (.look next w)⟩
  | act e next ih =>
    obtain ⟨ht, hnow, hx⟩ := ih h (e.apply w)
    refine ⟨ht, hnow.trans (by cases e <;> rfl), fun x hmem => (hx x hmem).tail (.act e next)⟩
  | wait seconds next ih =>
    have hx : ∀ x ∈ ({.work next} : Multiset (Item σ)), Item.Lower x (.work (.wait seconds next)) := by
      intro x hmem
      obtain rfl := Multiset.mem_singleton.mp hmem
      exact .single (.wait seconds next)
    rw [Process.advance]
    split
    · exact ⟨h.2, rfl, hx⟩
    · rename_i hpos
      exact ⟨⟨h.1 (by simpa using hpos), h.2⟩, rfl, hx⟩
  | nap place r next ih =>
    have hnext (c : Bool) : (next c |>.advance w).2.Timely ∧ (next c |>.advance w).1.now = w.now ∧
        ∀ x ∈ (next c |>.advance w).2.load, Item.Lower x (.work (.nap place r next)) := by
      obtain ⟨ht, hnow, hx⟩ := ih c (h.2 c) w
      exact ⟨ht, hnow, fun x hmem => (hx x hmem).tail (.nap place r next c)⟩
    rw [Process.advance]
    split
    · exact hnext true
    · split
      · rename_i hpos
        have hrest : Elapses (r - napSlice) := by
          cases h.1 with
          | past hpast => simp [hpast] at hpos
          | slice hrest => exact hrest
        refine ⟨⟨fun now hnow => hnow.add_slice hpos, hrest, h.2⟩, rfl, fun x hmem => ?_⟩
        obtain rfl := Multiset.mem_singleton.mp hmem
        exact .single (.slice place next hrest hpos)
      · exact hnext false
  | fork kind count branch next _ ih =>
    rw [Process.advance]
    split
    · obtain ⟨ht, hnow, hx⟩ := ih (.ok []) (h.2 _) w
      exact ⟨ht, hnow, fun x hmem =>
        ((hx x hmem).tail (.joined next (.ok []))).tail (.join branch next)⟩
    · refine ⟨h, rfl, fun x hmem => ?_⟩
      rcases Multiset.mem_add.mp hmem with hmem | hmem
      · obtain rfl := Multiset.mem_singleton.mp hmem
        exact .single (.join branch next)
      · obtain ⟨i, -, rfl⟩ := List.mem_map.mp (Multiset.mem_coe.mp hmem)
        exact .single (.branch branch next i)

/-! ### Timely schedules -/

namespace Schedule

/-- Does the clock show a time, is each alarm set to one, and is each task timely? -/
structure Timed (s : Schedule σ) : Prop where
  started : 0 < s.tasks.length
  now : IsTime s.world.now
  alarms : ∀ a ∈ s.alarms.all, IsTime a.time
  tasks : ∀ t st, s.state? t = some st → st.Timely

namespace Timed

variable {s : Schedule σ} {t : Nat}

theorem setState (h : Timed s) (t : Nat) {st : TaskState σ} (hst : st.Timely) :
    Timed (s.setState t st) := by
  refine ⟨by simpa [Schedule.setState] using h.started, h.now, h.alarms, ?_⟩
  intro u st' hst'
  rcases state?_setState_cases hst' with ⟨-, rfl⟩ | ⟨-, hst'⟩
  · exact hst
  · exact h.tasks u st' hst'

theorem enqueue (h : Timed s) (more : List Turn) : Timed (s.enqueue more) :=
  ⟨h.started, h.now, h.alarms, h.tasks⟩

theorem setAlarm (h : Timed s) {seconds : Binary64} (t : Nat)
    (hs : ∀ now, IsTime now → IsTime (now + seconds)) : Timed (s.setAlarm seconds t) := by
  refine ⟨h.started, h.now, fun a ha => ?_, h.tasks⟩
  rcases Alarms.mem_add.mp ha with rfl | ha
  · exact hs _ h.now
  · exact h.alarms a ha

theorem addBranches (h : Timed s) (t : Nat) {kind : Fork} {count : Nat} {branch : Fin count → Process σ}
    (hb : ∀ i, (branch i).Timely) : Timed (s.addBranches t kind count branch) := by
  refine ⟨?_, h.now, h.alarms, fun u st hst => ?_⟩
  · simp only [Schedule.addBranches, List.length_append]
    have := h.started
    omega
  · rcases lt_or_exists_of_addBranches s t kind count branch hst with hu | ⟨i, rfl⟩
    · rw [state?_addBranches_of_lt s t kind count branch hu] at hst
      exact h.tasks u st hst
    · obtain rfl : TaskState.ready (branch i) = st :=
        Option.some.inj ((state?_addBranches s t kind count branch i).symm.trans hst)
      exact hb i

theorem record (h : Timed s) (ht : t < s.tasks.length) {pause : Pause σ} (hp : pause.Timely) :
    Timed (s.record t pause) := by
  cases pause with
  | ended o =>
    have hend : Timed (s.setState t (.ended o)) := h.setState t trivial
    simp only [Schedule.record]
    split
    · exact hend.enqueue _
    · exact hend
  | yielded rest =>
    have hrest : (TaskState.ready rest).Timely := hp
    exact (h.setState t hrest).enqueue _
  | asleep seconds rest =>
    have hrest : (TaskState.asleep rest).Timely := hp.2
    exact (h.setState t hrest).setAlarm t hp.1
  | forked kind count branch next =>
    rw [record_forked s t kind count branch ht]
    exact ((h.addBranches t hp.1).enqueue _).setState t hp.2

theorem proceed (h : Timed s) (ht : t < s.tasks.length) {p : Process σ} (hp : p.Timely) :
    Timed (s.proceed t p) := by
  obtain ⟨hpause, hnow, -⟩ := hp.advance s.world
  have hworld : Timed { s with world := (p.advance s.world).1 } :=
    ⟨h.started, hnow ▸ h.now, h.alarms, h.tasks⟩
  exact hworld.record ht hpause

theorem drop (h : Timed s) (b : Nat) : Timed (s.drop b) := by
  have hb : Timed (s.setState b .dropped) := h.setState b trivial
  unfold Schedule.drop
  split
  · exact hb.enqueue _
  · exact hb.enqueue _
  · exact hb

theorem abandon (h : Timed s) (cancel : Bool) (tasks : List Nat) : Timed (s.abandon cancel tasks) :=
  abandon_induction cancel h fun _ hs b _ => hs.drop b

theorem release (h : Timed s) (t : Nat) : Timed (s.release t) := by
  refine ⟨by simpa [Schedule.release] using h.started, h.now, fun a ha => ?_, fun u st hst => ?_⟩
  · obtain ⟨b, hb, rfl⟩ := Alarms.mem_callOff.mp ha
    have := h.alarms b hb
    split <;> exact this
  · rw [state?_release] at hst
    exact h.tasks u st hst

end Timed

/-! ### Every turn leaves less to do -/

theorem burden_cons (u : Turn) (turns : List Turn) (s : Schedule σ) :
    burden (u :: turns) s = u.weight + burden turns s := by
  simp only [burden, List.cons_append, List.map_cons, List.sum_cons, Nat.add_assoc]

theorem burden_enqueue (turns more : List Turn) (s : Schedule σ) :
    burden turns (s.enqueue more) = burden turns s + (more.map Turn.weight).sum := by
  simp only [burden, enqueue, List.map_append, List.sum_append]
  omega

theorem burden_setState (turns : List Turn) (s : Schedule σ) (t : Nat) (st : TaskState σ) :
    burden turns (s.setState t st) = burden turns s := rfl

theorem burden_release (turns : List Turn) (s : Schedule σ) (t : Nat) :
    burden turns (s.release t) = burden turns s := by
  simp only [burden, release, Alarms.length_callOff]

variable {s : Schedule σ} {turns : List Turn} {t : Nat}

/-- A task that goes on has less left to do. -/
theorem load_proceed {st : TaskState σ} (hst : s.state? t = some st) {x : Item σ}
    (hx : st.load = {x}) {p : Process σ} (hp : p.Timely)
    (hpx : ∀ y, Item.Lower y (.work p) → Item.Lower y x) :
    CutExpand Item.Lower (s.proceed t p).load s.load := by
  obtain ⟨-, -, hlower⟩ := hp.advance s.world
  have hst' : Schedule.state? { s with world := (p.advance s.world).1 } t = some st := hst
  refine ⟨_, x, fun y hy => hpx y (hlower y hy), ?_⟩
  rw [← hx]
  exact load_record hst' _

/-- Is a schedule timely, with less left to do than the one before the turn? -/
def Improves (turns : List Turn) (u : Turn) (s s' : Schedule σ) : Prop :=
  Timed s' ∧ Lighter (remaining turns s') (remaining (u :: turns) s)

namespace Timed

variable {u : Turn}

/-- There is as much left to do, with lighter turns. -/
theorem improves_of_burden {s' : Schedule σ} (h : Timed s') (hload : s'.load = s.load)
    (hburden : burden turns s' < burden (u :: turns) s) : Improves turns u s s' := by
  refine ⟨h, ?_⟩
  rw [remaining, hload]
  exact .right _ hburden

theorem improves_void (h : Timed s) : Improves turns u s s := by
  refine h.improves_of_burden rfl ?_
  rw [burden_cons]
  have := u.weight_pos
  omega

theorem improves_release (h : Timed s) (t : Nat) : Improves turns u s (s.release t) := by
  refine (h.release t).improves_of_burden (load_release s t) ?_
  rw [burden_release, burden_cons]
  have := u.weight_pos
  omega

theorem improves_setState (h : Timed s) {st : TaskState σ} (hst : s.state? t = some st)
    (st' : TaskState σ) (hload : st'.load = st.load) (hlive : st'.Timely) (more : List Turn)
    (hmore : (more.map Turn.weight).sum < u.weight) :
    Improves turns u s ((s.setState t st').enqueue more) := by
  refine ((h.setState t hlive).enqueue more).improves_of_burden ?_ ?_
  · have hsum := load_setState hst st'
    rw [hload] at hsum
    exact add_right_cancel hsum
  · rw [burden_enqueue, burden_setState, burden_cons]
    omega

/-- A task that gathers goes on, or waits for the branches that have not ended. -/
theorem improves_gather (cancel : Bool) (htidy : Tidy none (u :: turns) s) (h : Timed s)
    {first count : Nat} {awaited : List Nat} {next : Joined → Process σ}
    (hst : s.state? t = some (.joining first count awaited true next)) :
    Improves turns u s (s.gather cancel t first count awaited next) := by
  have hnext : ∀ j, (next j).Timely := h.tasks t _ hst
  have hjoin (j : Joined) (y : Item σ) (hy : Item.Lower y (.work (next j))) :
      Item.Lower y (.join next) := hy.tail (.joined next j)
  rcases gather_cases s cancel t first count awaited next with
    ⟨b, f, -, -, heq⟩ | ⟨-, heq⟩ | ⟨pending, -, -, -, heq⟩
  · rw [heq]
    have hnot : t ∉ awaited.filter fun t => (s.outcome? t).isNone := by
      intro hmem
      have hbr := (htidy.branches t _ _ _ _ _ (by simp) hst).1 t (List.mem_of_mem_filter hmem)
      exact Nat.lt_irrefl t hbr.above
    have hst' := (state?_abandon_of_not_mem s cancel hnot).trans hst
    refine ⟨(h.abandon cancel _).proceed (lt_length_of_state? hst') (hnext _), .left _ _ ?_⟩
    exact .head' (load_proceed hst' rfl (hnext _) (hjoin _)) (load_abandon s cancel _)
  · rw [heq]
    refine ⟨h.proceed (lt_length_of_state? hst) (hnext _), .left _ _ (.single ?_)⟩
    exact load_proceed hst rfl (hnext _) (hjoin _)
  · rw [heq]
    have hwait : Improves turns u s
        ((s.setState t (.joining first count pending false next)).enqueue []) :=
      h.improves_setState hst (.joining first count pending false next) rfl hnext [] u.weight_pos
    rwa [Schedule.enqueue, List.append_nil] at hwait

end Timed

/-- **Taking a turn** keeps a schedule timely and lowers the measure. -/
theorem improves_take (cancel : Bool) {u : Turn} (htidy : Tidy none (u :: turns) s) (h : Timed s) :
    Improves turns u s (s.take cancel u) := by
  cases u with
  | resume t =>
    simp only [take]
    split
    · rename_i p hst
      have hp : p.Timely := h.tasks t _ hst
      refine ⟨h.proceed (lt_length_of_state? hst) hp, .left _ _ (.single ?_)⟩
      exact load_proceed hst rfl hp fun y hy => hy
    · exact h.improves_void
  | wake t =>
    simp only [take]
    split
    · rename_i p hst
      have hp : (TaskState.asleep p).Timely := h.tasks t _ hst
      exact h.improves_setState hst (.ready p) rfl hp [.resume t] (by simp [Turn.weight])
    · exact h.improves_void
  | announce b =>
    simp only [take]
    split
    · split
      · rename_i parent _ _ first count awaited next hst
        split
        · have hnext : ∀ j, (next j).Timely := h.tasks _ _ hst
          exact h.improves_setState hst (.joining first count awaited true next) rfl hnext
            [.gather parent] (by simp [Turn.weight])
        · exact h.improves_void
      · exact h.improves_void
    · exact h.improves_void
  | gather t =>
    simp only [take]
    split
    · rename_i hst
      exact h.improves_gather cancel htidy hst
    · exact h.improves_release t
    · exact h.improves_void
  | release t => exact h.improves_release t
  | interrupt => exact ⟨⟨h.started, h.now, h.alarms, h.tasks⟩, h.improves_void.2⟩

/-! ### Every round leaves less to do -/

/-- Taking all turns leaves less to do, if there is one. -/
theorem takeAll_lighter (cancel : Bool) (htidy : Tidy none [] s) (h : Timed s) (hne : s.queue ≠ []) :
    Timed (s.takeAll cancel) ∧
      TransGen Lighter (remaining [] (s.takeAll cancel)) (remaining [] s) := by
  obtain ⟨u, turns, hqueue⟩ := List.exists_cons_of_ne_nil hne
  have htidy' : Tidy none (u :: turns) { s with queue := [] } :=
    htidy.congr rfl rfl fun v => by simp [hqueue]
  have htimed' : Timed { s with queue := [] } := ⟨h.started, h.now, h.alarms, h.tasks⟩
  have hsame : remaining (u :: turns) { s with queue := [] } = remaining [] s := by
    simp only [remaining, burden, hqueue, List.append_nil, List.nil_append]
    rfl
  -- the first turn leaves less to do, and so do the others
  obtain ⟨htimed, hlighter⟩ := improves_take cancel htidy' htimed'
  have hall := foldl_take_induction (P := fun turns s' => Tidy none turns s' ∧ Timed s' ∧
      TransGen Lighter (remaining turns s') (remaining [] s)) cancel
    (fun v turns s' hs' => by
      obtain ⟨htimed, hlighter⟩ := improves_take cancel hs'.1 hs'.2.1
      exact ⟨hs'.1.take cancel, htimed, .head hlighter hs'.2.2⟩)
    ⟨htidy'.take cancel, htimed, .single (hsame ▸ hlighter)⟩
  unfold takeAll
  rw [hqueue]
  exact hall.2

/-- An alarm weighs more than the turn that it leads to. -/
theorem burden_ring (s : Schedule σ) : burden [] s.ring ≤ burden [] s := by
  obtain ⟨rung, hevents, hperm⟩ := s.alarms.exists_due (isToCome s.world.now)
  have hqueue : s.ring.queue = s.queue ++ rung.map (·.event) := by rw [← hevents]; rfl
  have hlen : s.alarms.all.length = rung.length + s.ring.alarms.all.length := by
    rw [hperm.length_eq, List.length_append]
    rfl
  have hsum : ((rung.map (·.event)).map Turn.weight).sum ≤ 2 * rung.length := by
    rw [List.map_map, Nat.mul_comm, ← smul_eq_mul, ← List.length_map (f := Turn.weight ∘ (·.event))]
    apply List.sum_le_card_nsmul _ _
    intro n hn
    obtain ⟨a, -, rfl⟩ := List.mem_map.mp hn
    exact a.event.weight_le
  simp only [burden, List.nil_append, hqueue, List.map_append, List.sum_append, hlen]
  omega

theorem Timed.ring (h : Timed s) : Timed s.ring := by
  obtain ⟨rung, -, hperm⟩ := s.alarms.exists_due (isToCome s.world.now)
  exact ⟨h.started, h.now, fun a ha => h.alarms a (hperm.mem_iff.mpr (List.mem_append_right _ ha)),
    h.tasks⟩

/-- A time that has been reached is not still to come. -/
theorem isToCome_of_not_lt {now time : Binary64} (h : lt now time = false) :
    isToCome now time = false := by
  rw [isToCome, h, Bool.false_and]

/-! ### Time goes on -/

theorem Timed.atTime (h : Timed s) {time : Binary64} (ht : IsTime time) : Timed (s.atTime time) := by
  unfold Schedule.atTime
  split
  · exact ⟨h.started, ht, h.alarms, h.tasks⟩
  · exact h

theorem remaining_atTime (s : Schedule σ) (time : Binary64) :
    remaining [] (s.atTime time) = remaining [] s := by
  unfold atTime
  split <;> rfl

/-- An alarm rings at its time. -/
theorem ring_atTime {a : Alarm Turn} (ha : s.alarms.first? = some a) :
    (s.atTime a.time).ring.queue ≠ [] := by
  have halarms : (s.atTime a.time).alarms = s.alarms := by
    unfold atTime
    split <;> rfl
  have hnow : lt (s.atTime a.time).world.now a.time = false := by
    unfold atTime
    split
    · exact lt_irrefl a.time
    · rename_i hlt
      simpa using hlt
  have hrung := Alarms.due_ne_nil (halarms ▸ ha) (isToCome_of_not_lt hnow)
  show (s.atTime a.time).queue ++ _ ≠ []
  exact fun hnil => hrung (List.append_eq_nil_iff.mp hnil).2

/-- Without a turn, a schedule in which the main task has not ended has an alarm. -/
theorem exists_alarm (htidy : Tidy none [] s) (h : Timed s) (hlive : s.outcome? 0 = none)
    (hqueue : s.queue = []) : ∃ a, s.alarms.first? = some a := by
  rw [Alarms.first?_eq]
  cases halarms : s.alarms.all with
  | cons a rest => exact ⟨a, rfl⟩
  | nil =>
    obtain ⟨e, he⟩ : ∃ e, s.tasks[0]? = some e := ⟨_, List.getElem?_eq_getElem h.started⟩
    have hst : s.state? 0 = some e.state := by rw [state?, he]; rfl
    have hkept : e.state ≠ .dropped := fun hd => htidy.kept (hst.trans (congrArg some hd))
    obtain ⟨o, ho⟩ := htidy.ended_of_idle hqueue halarms 0 e.state hst hkept
    exact absurd (hst.trans (congrArg some ho)) (outcome?_eq_none_iff.mp hlive o)

/-- With a turn that is due, no time passes. -/
theorem advance_of_turn (h : s.queue ≠ []) :
    s.advance = some { s with alarms := s.alarms.dropCalledOff } := by
  simp [advance, h]

/-- Without a turn, the time passes until the first alarm. -/
theorem advance_of_alarm (h : s.queue = []) {a : Alarm Turn}
    (ha : s.alarms.dropCalledOff.first? = some a) (ht : IsTime a.time) :
    s.advance = some (atTime { s with alarms := s.alarms.dropCalledOff } a.time) := by
  obtain ⟨time, event, off⟩ := a
  obtain ⟨u, -, rfl⟩ := ht
  simp [advance, h, ha]

theorem Timed.dropCalledOff (h : Timed s) : Timed { s with alarms := s.alarms.dropCalledOff } := by
  obtain ⟨gone, -, hperm⟩ := s.alarms.exists_dropCalledOff
  exact ⟨h.started, h.now, fun a ha => h.alarms a (hperm.mem_iff.mpr (List.mem_append_right _ ha)),
    h.tasks⟩

theorem burden_dropCalledOff (s : Schedule σ) :
    burden [] { s with alarms := s.alarms.dropCalledOff } ≤ burden [] s := by
  obtain ⟨gone, -, hperm⟩ := s.alarms.exists_dropCalledOff
  have hlen := hperm.length_eq
  rw [List.length_append] at hlen
  simp only [burden]
  omega

/-- **A schedule goes on** until the main task has ended: with a turn that is due, or at the time of
the first alarm. -/
theorem exists_advance (htidy : Tidy none [] s) (h : Timed s) (hlive : s.outcome? 0 = none) :
    ∃ s', s.advance = some s' ∧ Timed s' ∧ s'.load = s.load ∧ burden [] s' ≤ burden [] s ∧
      s'.ring.queue ≠ [] := by
  by_cases hqueue : s.queue = []
  · obtain ⟨a, ha⟩ := exists_alarm htidy.dropCalledOff h.dropCalledOff hlive hqueue
    have hmem : a ∈ s.alarms.dropCalledOff.all := by
      rw [Alarms.first?_eq] at ha
      exact List.mem_of_mem_head? ha
    have ht : IsTime a.time := h.dropCalledOff.alarms a hmem
    have hsame := remaining_atTime { s with alarms := s.alarms.dropCalledOff } a.time
    refine ⟨_, advance_of_alarm hqueue ha ht, h.dropCalledOff.atTime ht, ?_, ?_, ring_atTime ha⟩
    · exact congrArg Prod.fst hsame
    · exact (congrArg Prod.snd hsame).le.trans (burden_dropCalledOff s)
  · refine ⟨_, advance_of_turn hqueue, h.dropCalledOff, rfl, burden_dropCalledOff s, ?_⟩
    show s.queue ++ _ ≠ []
    exact fun hnil => hqueue (List.append_eq_nil_iff.mp hnil).1

/-! ### Runs end -/

theorem Lighter.mono {x : Multiset (Item σ) × Nat} {load : Multiset (Item σ)} {m n : Nat}
    (h : TransGen Lighter x (load, m)) (hle : m ≤ n) : TransGen Lighter x (load, n) := by
  rcases Nat.eq_or_lt_of_le hle with rfl | hlt
  · exact h
  · exact h.tail (.right _ hlt)

/-- A round leaves less to do, if a turn or an alarm is due. -/
theorem round_lighter (cancel : Bool) (htidy : Tidy none [] s) (h : Timed s)
    (hne : s.ring.queue ≠ []) :
    Timed (s.round cancel) ∧ TransGen Lighter (remaining [] (s.round cancel)) (remaining [] s) := by
  obtain ⟨htimed, hlighter⟩ := takeAll_lighter cancel htidy.ring h.ring hne
  exact ⟨htimed, Lighter.mono hlighter (burden_ring s)⟩

/-- A run that has ended within some rounds has the same end within more. -/
theorem runFor_mono {cancel : Bool} {rounds more : Nat} {r : Outcome × World σ}
    (h : runFor cancel rounds s = some r) (hle : rounds ≤ more) : runFor cancel more s = some r := by
  induction rounds generalizing s more with
  | zero => cases h
  | succ rounds ih =>
    obtain ⟨more, rfl⟩ : ∃ m, more = m + 1 := ⟨more - 1, by omega⟩
    rw [runFor] at h ⊢
    split at h
    · exact h
    · split at h
      · exact ih h (by omega)
      · cases h

/-- **A timely run ends.** -/
theorem exists_runFor (cancel : Bool) (htidy : Tidy none [] s) (h : Timed s) :
    ∃ rounds r, runFor cancel rounds s = some r := by
  obtain ⟨x, hx⟩ : ∃ x, x = remaining [] s := ⟨_, rfl⟩
  induction x using wellFounded_lighter.transGen.induction generalizing s with
  | h x ih =>
    subst hx
    cases hend : s.outcome? 0 with
    | some o => exact ⟨1, (o, (s.round cancel).world), by simp only [runFor, hend]⟩
    | none =>
      obtain ⟨s', hadvance, htimed, hload, hburden, hne⟩ := exists_advance htidy h hend
      have htidy' := htidy.advance hadvance
      obtain ⟨hround, hlighter⟩ := round_lighter cancel htidy' htimed hne
      have hless : TransGen Lighter (remaining [] (s'.round cancel)) (remaining [] s) :=
        Lighter.mono (hload ▸ hlighter) hburden
      obtain ⟨rounds, r, hrun⟩ := ih _ hless (htidy'.round cancel) hround rfl
      exact ⟨rounds + 1, r, by simp only [runFor, hend, hadvance, hrun]⟩

/-- A run starts timely. -/
theorem Timed.start {w : World σ} (hw : IsTime w.now) {p : Process σ} (hp : p.Timely)
    {alarms : Alarms Turn} (h : ∀ a ∈ alarms.all, IsTime a.time) : Timed (start w p alarms) := by
  refine ⟨Nat.one_pos, hw, h, fun t st hst => ?_⟩
  have hlt := lt_length_of_state? hst
  obtain rfl : t = 0 := by simpa [Schedule.start] using hlt
  obtain rfl : TaskState.ready p = st := Option.some.inj hst
  exact hp

end Schedule

end PipeScript
