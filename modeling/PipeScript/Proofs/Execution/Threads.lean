import PipeScript.Proofs.Execution.Course
import PipeScript.Proofs.Execution.Programs

/-!
# What threads do

A thread is at work on a call of a command. It may set variables, cancel the run and change what there is
around it, but the beginning and the end of calls and what is counted are left to the task that waits for
it, or that did.

## The model

A process is mere work if it forks nothing and has no effect that is the program's own
(`Process.IsWork`); jobs are such processes. A process hands work to threads if all its threads are given
mere work (`Process.HandsWork`).

Main results: the process of every program hands work to threads (`Runtime.handsWork_process`); each task
stays what it was forked as (`Course.kind?_eq`); and so a thread is never found waiting for branches, and no
moment of a thread is the program's own, in any course of a run (`Course.threads`,
`Schedule.Threads.isProgram_eq_false`).
-/

namespace PipeScript

variable {σ : Type}

/-- Is the effect one of the program itself: a call begins or ends, or something is counted? -/
def Effect.isProgram : Effect σ → Bool
  | begin .. => true
  | finish .. => true
  | count _ => true
  | _ => false

/-- Is the deed one of the program itself? -/
def Deed.isProgram : Deed σ → Bool
  | change e => e.isProgram
  | slice .. => false

theorem Moment.isProgram_of_call? {m : Moment σ} {c : Call} (h : m.call? = some c) :
    m.deed.isProgram = true := by
  obtain ⟨task, world, deed⟩ := m
  cases deed with
  | slice => cases h
  | change e =>
    cases e with
    | begin => rfl
    | _ => cases h

namespace Process

/-! ### Mere work -/

/-- Does the process fork nothing, and leave to the program what is the program's own? -/
def IsWork : Process σ → Prop
  | done _ => True
  | look next => ∀ w, (next w).IsWork
  | act e next => e.isProgram = false ∧ next.IsWork
  | wait _ next => next.IsWork
  | nap _ _ next => ∀ c, (next c).IsWork
  | fork .. => False

/-- The job of a command is mere work. -/
theorem isWork_ofJob (job : Job σ) : (ofJob job).IsWork := by
  induction job with
  | finish o => trivial
  | look next ih => exact ih
  | alter f next ih => exact ⟨rfl, ih⟩
  | cancel next ih => exact ⟨rfl, ih⟩
  | assign name value next ih => exact ⟨rfl, ih⟩
  | log line next ih => exact ⟨rfl, ih⟩
  | wait seconds next ih => exact ih
  | nap place seconds next ih => exact ⟨rfl, ih⟩

/-- **What mere work does** is not the program's own, and it leaves mere work to do. -/
theorem IsWork.advance {p : Process σ} (h : p.IsWork) (t : Nat) (w : World σ) :
    (∀ m ∈ p.moments t w, m.deed.isProgram = false) ∧ (p.advance w).2.All IsWork ∧
      (p.advance w).2.kind? = none := by
  induction p generalizing w with
  | done o => exact ⟨by simp [moments], trivial, rfl⟩
  | look next ih => exact ih w (h w) w
  | act e next ih =>
    obtain ⟨hmoments, hpause⟩ := ih h.2 (e.apply w)
    exact ⟨List.forall_mem_cons.mpr ⟨h.1, hmoments⟩, hpause⟩
  | wait seconds next ih =>
    refine ⟨by simp [moments], ?_⟩
    rw [Process.advance]
    split <;> exact ⟨h, rfl⟩
  | nap place r next ih =>
    rw [Process.advance, moments]
    by_cases hc : w.cancelled = true
    · simp only [if_pos hc]
      exact ih true (h true) w
    · by_cases hr : Binary64.lt 0 r = true
      · simp only [if_neg hc, if_pos hr]
        exact ⟨List.forall_mem_singleton.mpr rfl, h, rfl⟩
      · simp only [if_neg hc, if_neg hr]
        exact ih false (h false) w
  | fork kind count branch next _ ih => exact h.elim

/-! ### Work that is handed to threads -/

/-- Are all threads of the process given mere work? -/
def HandsWork : Process σ → Prop
  | done _ => True
  | look next => ∀ w, (next w).HandsWork
  | act _ next => next.HandsWork
  | wait _ next => next.HandsWork
  | nap _ _ next => ∀ c, (next c).HandsWork
  | fork kind _ branch next =>
      (kind = .thread → ∀ i, (branch i).IsWork) ∧ (∀ i, (branch i).HandsWork) ∧ ∀ j, (next j).HandsWork

/-- Mere work hands nothing to a thread. -/
theorem IsWork.handsWork {p : Process σ} (h : p.IsWork) : p.HandsWork := by
  induction p with
  | done o => trivial
  | look next ih => exact fun w => ih w (h w)
  | act e next ih => exact ih h.2
  | wait seconds next ih => exact ih h
  | nap place r next ih => exact fun c => ih c (h c)
  | fork kind count branch next _ _ => exact h.elim

namespace HandsWork

theorem andThen {p : Process σ} {k : Outcome → Process σ} (h : p.HandsWork) (hk : ∀ o, (k o).HandsWork) :
    (p.andThen k).HandsWork := by
  induction p with
  | done o => exact hk o
  | look next ih => exact fun w => ih w (h w)
  | act e next ih => exact ih h
  | wait seconds next ih => exact ih h
  | nap place r next ih => exact fun c => ih c (h c)
  | fork kind count branch next _ ih => exact ⟨h.1, h.2.1, fun j => ih j (h.2.2 j)⟩

/-- Threads that are forked are given mere work, and all that is left to do hands work to threads. -/
theorem advance {p : Process σ} (h : p.HandsWork) (w : World σ) :
    (p.advance w).2.All HandsWork ∧ ∀ {count branch next},
      (p.advance w).2 = .forked .thread count branch next → ∀ i, (branch i).IsWork := by
  induction p generalizing w with
  | done o => exact ⟨trivial, by rintro _ _ _ ⟨⟩⟩
  | look next ih => exact ih w (h w) w
  | act e next ih => exact ih h (e.apply w)
  | wait seconds next ih =>
    rw [Process.advance]
    split <;> exact ⟨h, by rintro _ _ _ ⟨⟩⟩
  | nap place r next ih =>
    rw [Process.advance]
    split
    · exact ih true (h true) w
    · split
      · exact ⟨h, by rintro _ _ _ ⟨⟩⟩
      · exact ih false (h false) w
  | fork kind count branch next _ ih =>
    rw [Process.advance]
    split
    · exact ih (.ok []) (h.2.2 _) w
    · refine ⟨h.2, fun heq => ?_⟩
      cases heq
      exact h.1 rfl

end HandsWork

theorem inherited_handsWork : Inherited fun p : Process σ => p.HandsWork :=
  fun _ w h => (h.advance w).1

end Process

/-- The processes of programs give nothing but jobs to threads. -/
theorem Engine.rules_handsWork (e : Engine σ) :
    e.Rules (fun _ (p : Process σ) => p.HandsWork) fun _ => True where
  weaken h := h
  done _ := trivial
  afterLook {f p} h := by
    intro w
    show (if w.cancelled then Process.fail f else p).HandsWork
    split
    · exact trivial
    · exact h
  look h := h
  log h := h
  count h := h
  sleep _ htrue hfalse := Bool.rec hfalse htrue
  fork _ hbranch hnext := ⟨nofun, hbranch, hnext⟩
  andThen h hk := h.andThen hk
  begin h := h
  finish h := h
  work _ _ _ _ := (Process.isWork_ofJob _).handsWork
  thread h := ⟨fun _ _ => Process.isWork_ofJob _, fun _ => h, fun _ => trivial⟩
  retry _ _ _ _ _ _ _ _ := trivial
  loop := trivial

/-- **The process of a program hands work to threads**, and nothing else. -/
theorem Runtime.handsWork_process (rt : Runtime σ) (p : Program) (linger : Option Binary64) :
    (lingering linger (rt.process p)).HandsWork := by
  have hp : (rt.process p).HandsWork := holds_of_rules rt.engine.rules_handsWork p
  cases linger with
  | none => exact hp
  | some seconds => exact hp.andThen fun o => trivial

/-! ### What tasks have been forked as -/

/-- What the branches are that are forked. -/
def Pause.kinds : Pause σ → List Fork
  | forked kind count .. => List.replicate count kind
  | _ => []

/-- Is a task in this state at mere work, or gone? -/
def TaskState.IsWork : TaskState σ → Prop
  | ready p => p.IsWork
  | asleep p => p.IsWork
  | joining .. => False
  | ended _ => True
  | dropped => True

namespace Schedule

variable {s : Schedule σ} {u : Turn} {t : Nat}

/-- What each task has been forked as. -/
def kinds (s : Schedule σ) : List Fork := s.tasks.map (·.kind)

/-- What the task has been forked as. -/
def kind? (s : Schedule σ) (t : Nat) : Option Fork := s.kinds[t]?

@[simp] theorem length_kinds (s : Schedule σ) : s.kinds.length = s.tasks.length :=
  List.length_map _

@[simp] theorem kinds_setState (s : Schedule σ) (t : Nat) (st : TaskState σ) :
    (s.setState t st).kinds = s.kinds := by
  simp only [kinds, setState]
  refine List.ext_getElem? fun i => ?_
  rw [List.getElem?_map, List.getElem?_map, List.getElem?_modify, Option.map_eq_map, Option.map_map]
  congr 1
  funext e
  simp only [Function.comp]
  split <;> rfl

@[simp] theorem kinds_enqueue (s : Schedule σ) (turns : List Turn) : (s.enqueue turns).kinds = s.kinds :=
  rfl

@[simp] theorem kinds_drop (s : Schedule σ) (b : Nat) : (s.drop b).kinds = s.kinds := by
  unfold drop
  split <;> simp

@[simp] theorem kinds_abandon (s : Schedule σ) (cancel : Bool) (tasks : List Nat) :
    (s.abandon cancel tasks).kinds = s.kinds :=
  abandon_induction (P := fun s' => s'.kinds = s.kinds) cancel rfl
    fun s' hs' b _ => (kinds_drop s' b).trans hs'

@[simp] theorem kinds_release (s : Schedule σ) (t : Nat) : (s.release t).kinds = s.kinds := by
  simp only [kinds, release, List.map_map]
  refine List.map_congr_left fun e _ => ?_
  simp only [Function.comp]
  split <;> rfl

/-- A task that pauses adds the branches that it forks. -/
theorem kinds_record (s : Schedule σ) (t : Nat) (pause : Pause σ) :
    (s.record t pause).kinds = s.kinds ++ pause.kinds := by
  cases pause with
  | ended o =>
    simp only [record, Pause.kinds, List.append_nil]
    split <;> simp
  | yielded rest => simp [record, Pause.kinds]
  | asleep seconds rest => exact (kinds_setState s t _).trans (List.append_nil _).symm
  | forked kind count branch next =>
    have hbranches : ((List.finRange count).map fun _ => kind) = List.replicate count kind := by
      simp
    have hold := kinds_setState s t (.joining s.tasks.length count
      ((List.range count).map (s.tasks.length + ·)) false next)
    rw [kinds] at hold
    simp only [record, kinds_enqueue, Pause.kinds]
    rw [kinds, List.map_append, hold, List.map_map]
    exact congrArg (s.kinds ++ ·) hbranches

/-- **A turn adds the branches** that are forked in it, and leaves the other tasks what they are. -/
theorem kinds_take (s : Schedule σ) (cancel : Bool) (u : Turn) : (s.take cancel u).kinds =
    s.kinds ++ (s.work? u).elim [] fun tp => (tp.2.advance s.world).2.kinds := by
  generalize hs' : s.take cancel u = s'
  cases hs' ▸ s.taken_take cancel u with
  | works h =>
    rw [proceed_eq, kinds_record, world_abandon, h]
    exact congrArg (· ++ _) (kinds_abandon s cancel _)
  | void _ h => simp [h]
  | woken => simp [work?]
  | told => simp [work?]
  | waits h => simp [h]
  | released _ h => simp [h]
  | interrupted => simp [work?, kinds]

/-- **A task stays** what it has been forked as. -/
theorem kind?_take {kind : Fork} (h : s.kind? t = some kind) (cancel : Bool) (u : Turn) :
    (s.take cancel u).kind? t = some kind := by
  obtain ⟨ht, -⟩ := List.getElem?_eq_some_iff.mp h
  rw [kind?, kinds_take, List.getElem?_append_left ht]
  exact h

/-- There is a kind to each task. -/
theorem exists_kind?_of_lt (h : t < s.tasks.length) : ∃ kind, s.kind? t = some kind := by
  rw [← length_kinds] at h
  exact ⟨_, List.getElem?_eq_getElem h⟩

/-- A branch is what has been forked. -/
theorem kind?_take_branch {p : Process σ} {parent count : Nat} {kind : Fork}
    {branch : Fin count → Process σ} {next : Joined → Process σ} (hw : s.work? u = some (parent, p))
    (hp : (p.advance s.world).2 = .forked kind count branch next) (cancel : Bool) (i : Fin count) :
    (s.take cancel u).kind? (s.tasks.length + i) = some kind := by
  rw [kind?, kinds_take, hw, ← length_kinds, List.getElem?_append_right (Nat.le_add_right _ _)]
  simp [hp, Pause.kinds, i.isLt]

/-! ### Threads -/

/-- Are all threads at mere work? -/
def Threads (s : Schedule σ) : Prop :=
  ∀ t st, s.kind? t = some .thread → s.state? t = some st → st.IsWork

namespace Threads

/-- The tasks are all that matters. -/
theorem congr (h : s.Threads) {s' : Schedule σ} (htasks : s'.tasks = s.tasks) : s'.Threads := by
  obtain ⟨world, tasks, queue, alarms⟩ := s'
  obtain rfl : tasks = s.tasks := htasks
  exact h

/-- A thread that goes on is at mere work. -/
theorem work (h : s.Threads) (ht : s.kind? t = some .thread) {p : Process σ}
    (hw : s.work? u = some (t, p)) : p.IsWork := by
  rcases work?_cases hw with hst | ⟨_, _, _, _, _, -, hst, -, -⟩
  · exact h t _ ht hst
  · exact (h t _ ht hst).elim

/-- **A turn leaves threads at mere work.** -/
theorem take (h : s.Threads) (hall : s.All (·.HandsWork)) (cancel : Bool) (u : Turn) :
    (s.take cancel u).Threads := by
  intro t st hkind hst
  -- a task that is there before the turn
  have hold {st' : TaskState σ} (hst' : s.state? t = some st') : s.kind? t = some .thread := by
    obtain ⟨kind, hk⟩ := exists_kind?_of_lt (lt_length_of_state? hst')
    rwa [kind?_take hk cancel u, ← hk] at hkind
  cases becomes_of_take hst with
  | same hst' => exact h t _ (hold hst') hst'
  | dropped => trivial
  | woken hst' =>
    have hasleep := h t _ (hold hst') hst'
    exact hasleep
  | told _ hst' => exact (h t _ (hold hst') hst').elim
  | gathers _ hst' => exact (h t _ (hold hst') hst').elim
  | @paused p hw =>
    obtain ⟨st', hst'⟩ : ∃ st', s.state? t = some st' := by
      rcases work?_cases hw with hst' | ⟨_, _, _, _, _, -, hst', -, -⟩
      · exact ⟨_, hst'⟩
      · exact ⟨_, hst'⟩
    obtain ⟨-, hrest, hforks⟩ := (h.work (hold hst') hw).advance t s.world
    generalize (p.advance s.world).2 = pause at hrest hforks
    cases pause with
    | ended o => trivial
    | yielded rest => exact hrest
    | asleep seconds rest => exact hrest
    | forked => cases hforks
  | @branch _ _ kind p _ _ hw hp i ht =>
    subst ht
    obtain rfl : kind = .thread := by
      rw [kind?_take_branch hw hp cancel i] at hkind
      exact Option.some.inj hkind
    exact ((hall.work hw).advance s.world).2 hp i

/-- **What a thread does** is not the program's own. -/
theorem isProgram_eq_false (h : s.Threads) {m : Moment σ} (hm : m ∈ s.moments u) (ht : m.task = some t)
    (hkind : s.kind? t = some .thread) : m.deed.isProgram = false := by
  obtain ⟨p, hw, hm⟩ := exists_work?_of_mem_moments hm ht
  exact ((h.work hkind hw).advance t s.world).1 m hm

/-- The main task is no thread. -/
theorem start (w : World σ) (p : Process σ) (alarms : Alarms Turn) : (start w p alarms).Threads := by
  intro t st hkind hst
  obtain rfl : t = 0 := by simpa [Schedule.start] using lt_length_of_state? hst
  cases hkind

end Threads

end Schedule

/-! ### Courses -/

namespace Course

variable {cancel : Bool} {q q' : Point σ} {ms : List (Moment σ)} {t : Nat}

/-- **A task stays** what it has been forked as, in any course. -/
theorem kind?_eq (h : Course cancel q ms q') {kind : Fork} (ht : q.schedule.kind? t = some kind) :
    q'.schedule.kind? t = some kind := by
  induction h with
  | refl => exact ht
  | step _ hstep ih =>
    cases hstep with
    | turn u turns s => exact Schedule.kind?_take ih cancel u
    | round s => exact ih
    | advance hs' =>
      rw [Schedule.kind?, Schedule.kinds, Point.of, Schedule.tasks_of_advance hs']
      exact ih

/-- **Threads stay at mere work**, in any course. -/
theorem threads (h : Course cancel q ms q') (hall : q.schedule.All (·.HandsWork))
    (hq : q.schedule.Threads) : q'.schedule.Threads := by
  induction h with
  | refl => exact hq
  | step hcourse hstep ih =>
    cases hstep with
    | turn u turns s => exact ih.take (hcourse.all Process.inherited_handsWork hall) cancel u
    | round s => exact ih.congr rfl
    | advance hs' => exact ih.congr (Schedule.tasks_of_advance hs')

end Course

end PipeScript
