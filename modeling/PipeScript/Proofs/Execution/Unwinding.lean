import PipeScript.Proofs.Execution.Cancellation
import PipeScript.Proofs.Execution.Failures
import PipeScript.Proofs.Execution.Traces

/-!
# How a cancellation comes through

A cancellation is raised between two stages, before an attempt or an item, in a nap that is cut short, or
by a command. Whatever the program has around that place, the branch ends there with the cancellation.

## The model

`Process.Unwinds` says what a process makes of a cancellation wherever one can come up: where it looks
whether the run has been cancelled, where a nap is cut short, where a call has come to an outcome, and where
it has waited for branches. What the work of a command does by itself is no concern of the program; a flag
says whether a process is in the middle of a call.

A call that comes to a cancellation is made again if the command is retried and the words of the cancellation
speak of a passing failure (`Registry.Retries`); such calls are left out.

Main results: the process of every program unwinds (`Runtime.unwinds_process`); what unwinds leaves only such
work to do (`Process.inherited_unwinds`); and so, in every course of a run, a call that comes to a
cancellation is the last thing that its branch does, which ends with the cancellation, while no failure is due
to one (`Runtime.cancellation_comes_through`).
-/

namespace PipeScript

variable {σ : Type}

/-- Is a call of the command made again when it has come to the failure? -/
def Registry.Retries (r : Registry (Collaborator σ)) (action : String) (f : Failure) : Prop :=
  ∃ s, r.get? action = some s ∧ s.remote = true ∧ isPassing f.message = true

/-- The effect is the end of a call. -/
def Effect.isFinish : Effect σ → Bool
  | finish .. => true
  | _ => false

namespace Process

/-- Is the process over, with a cancellation at the place? -/
def Stops (place : String) (p : Process σ) : Prop := ∃ results, p = .done (.error (.cancelled place results))

/-- Does what goes on with an outcome stop at a cancellation? -/
def Passes (k : Outcome → Process σ) : Prop :=
  ∀ place results, (k (.error (.cancelled place results))).Stops place

/-- Does a look at the world end the process if the run has been cancelled, unless it is not there to find
that out? -/
def Checks (next : World σ → Process σ) : Prop :=
  (∃ place, ∀ w, w.cancelled = true → (next w).Stops place) ∨
    ∀ w cancelled, next { w with cancelled } = next w

/-- Does the process stop wherever a cancellation comes up in it? The flag says whether it starts in the
middle of a call. -/
def Unwinds (r : Registry (Collaborator σ)) : Process σ → Bool → Prop
  | done _, _ => True
  | look next, busy => (busy = false → Checks next) ∧ ∀ w, (next w).Unwinds r busy
  | act e next, busy =>
      (∀ action place results, e = .finish action (.error (.cancelled place results)) →
        ¬ r.Retries action (.cancelled place results) → next.Stops place) ∧
      next.Unwinds r (e.isBegin || (busy && !e.isFinish))
  | wait _ next, busy => next.Unwinds r busy
  | nap place _ next, busy => (busy = false → (next true).Stops place) ∧ ∀ c, (next c).Unwinds r busy
  | fork kind _ branch next, busy =>
      (kind = .block → ∀ i place results, (next (.error (i, .cancelled place results))).Stops place) ∧
      (∀ i, (branch i).Unwinds r (decide (kind = .thread))) ∧ ∀ j, (next j).Unwinds r busy

theorem stops_fail (place : String) (results : List (ItemResult Failure)) :
    (fail (.cancelled place results) : Process σ).Stops place := ⟨results, rfl⟩

theorem Stops.andThen {place : String} {p : Process σ} {k : Outcome → Process σ} (h : p.Stops place)
    (hk : Passes k) : (p.andThen k).Stops place := by
  obtain ⟨results, rfl⟩ := h
  exact hk place results

theorem Checks.andThen {next : World σ → Process σ} {k : Outcome → Process σ} (h : Checks next)
    (hk : Passes k) : Checks fun w => (next w).andThen k := by
  rcases h with ⟨place, h⟩ | h
  · exact .inl ⟨place, fun w hw => (h w hw).andThen hk⟩
  · exact .inr fun w cancelled => congrArg (·.andThen k) (h w cancelled)

namespace Unwinds

variable {r : Registry (Collaborator σ)}

/-- What unwinds between calls does so in the middle of one. -/
theorem busy {p : Process σ} (h : p.Unwinds r false) (busy : Bool) : p.Unwinds r busy := by
  induction p generalizing busy with
  | done o => trivial
  | look next ih => exact ⟨fun _ => h.1 rfl, fun w => ih w (h.2 w) busy⟩
  | act e next ih =>
    refine ⟨h.1, ?_⟩
    have hnext := h.2
    rw [Bool.false_and, Bool.or_false] at hnext
    cases hbegin : e.isBegin with
    | true => rwa [hbegin] at hnext
    | false =>
      rw [hbegin] at hnext
      exact ih hnext _
  | wait seconds next ih => exact ih h busy
  | nap place seconds next ih => exact ⟨fun _ => h.1 rfl, fun c => ih c (h.2 c) busy⟩
  | fork kind count branch next _ ih => exact ⟨h.1, h.2.1, fun j => ih j (h.2.2 j) busy⟩

theorem andThen {p : Process σ} {b : Bool} {k : Outcome → Process σ} (h : p.Unwinds r b) (hpass : Passes k)
    (hk : ∀ o, (k o).Unwinds r false) : (p.andThen k).Unwinds r b := by
  induction p generalizing b with
  | done o => exact (hk o).busy b
  | look next ih => exact ⟨fun hb => (h.1 hb).andThen hpass, fun w => ih w (h.2 w)⟩
  | act e next ih =>
    exact ⟨fun action place results he hr => (h.1 action place results he hr).andThen hpass, ih h.2⟩
  | wait seconds next ih => exact ih h
  | nap place seconds next ih => exact ⟨fun hb => (h.1 hb).andThen hpass, fun c => ih c (h.2 c)⟩
  | fork kind count branch next _ ih =>
    exact ⟨fun hk i place results => (h.1 hk i place results).andThen hpass, h.2.1,
      fun j => ih j (h.2.2 j)⟩

theorem bind {p : Process σ} {b : Bool} {k : String → Process σ} (h : p.Unwinds r b)
    (hk : ∀ v, (k v).Unwinds r false) : (p.bind k).Unwinds r b := by
  refine h.andThen stops_fail fun o => ?_
  cases o with
  | ok v => exact hk v
  | error f => trivial

/-- Effects that are no end of a call leave a cancellation alone. -/
theorem act {e : Effect σ} {p : Process σ} (hbegin : e.isBegin = false) (hfinish : e.isFinish = false)
    {b : Bool} (h : p.Unwinds r b) : (Process.act e p).Unwinds r b := by
  refine ⟨fun action place results he => ?_, by simpa [hbegin, hfinish] using h⟩
  rw [he] at hfinish
  cases hfinish

/-- After a look the process may go on if the run has not been cancelled. -/
theorem afterLook {place : String} {results : List (ItemResult Failure)} {p : Process σ}
    (h : p.Unwinds r false) :
    (look fun w => if w.cancelled then fail (.cancelled place results) else p).Unwinds r false := by
  refine ⟨fun _ => .inl ⟨place, fun w hw => ?_⟩, fun w => ?_⟩
  · simp only [if_pos hw]
    exact stops_fail place results
  · simp only
    split
    · trivial
    · exact h

theorem sleep {place : String} {seconds : Binary64} {next : Bool → Process σ}
    (htrue : (next true).Stops place) (hfalse : (next false).Unwinds r false) :
    (Process.sleep place seconds next).Unwinds r false := by
  refine .act rfl rfl ⟨fun _ => htrue, fun c => ?_⟩
  cases c with
  | true =>
    obtain ⟨results, hstop⟩ := htrue
    rw [hstop]
    trivial
  | false => exact hfalse

/-! ### Calls -/

/-- The work of a call, and then what follows. -/
theorem ofJob (job : Job σ) {k : Outcome → Process σ} (hk : ∀ o, (k o).Unwinds r true) :
    ((Process.ofJob job).andThen k).Unwinds r true := by
  induction job with
  | finish o => exact hk o
  | look next ih => exact ⟨nofun, ih⟩
  | alter f next ih => exact .act rfl rfl ih
  | cancel next ih => exact .act rfl rfl ih
  | assign name value next ih => exact .act rfl rfl ih
  | log line next ih => exact .act rfl rfl ih
  | wait seconds next ih => exact ih
  | nap place seconds next ih => exact .act rfl rfl ⟨nofun, ih⟩

theorem callIn (job : Job σ) {k : Outcome → Process σ} (hk : ∀ o, (k o).Unwinds r true) :
    ∀ style, ((Engine.callIn style (.ofJob job)).andThen k).Unwinds r true
  | .direct => .ofJob job hk
  | .threaded => by
    have hwork : (Process.ofJob job).Unwinds r true := by
      rw [← andThen_id (Process.ofJob job)]
      exact .ofJob job fun _ => trivial
    exact ⟨nofun, fun _ => hwork, fun j => hk (soleOutcome j)⟩
  | .deferred => ⟨nofun, fun _ => trivial, fun _ => .ofJob job hk⟩

/-- **A call** unwinds if what follows it stops at the cancellations after which it is not made again. -/
theorem invoke (s : CommandSpec (Collaborator σ)) (action a b input : String) {k : Outcome → Process σ}
    (hstop : ∀ place results, ¬ r.Retries action (.cancelled place results) →
      (k (.error (.cancelled place results))).Stops place)
    (hk : ∀ o, (k o).Unwinds r false) : ((Engine.invoke s action a b input).andThen k).Unwinds r false := by
  rw [Engine.invoke, Process.andThen, andThen_assoc]
  have hfinish (o : Outcome) : (Process.act (.finish action o) (k o)).Unwinds r true := by
    refine ⟨fun action' place results he hr => ?_, hk o⟩
    obtain ⟨rfl, rfl⟩ := Effect.finish.inj he
    exact hstop place results hr
  exact ⟨by rintro _ _ _ ⟨⟩, .callIn _ hfinish s.style⟩

theorem attemptsFrom {s : CommandSpec (Collaborator σ)} {action : String} (hs : r.get? action = some s)
    (hremote : s.remote = true) (policy : RetryPolicy) (draws : Nat → Binary64) (a b input : String)
    (left number : Nat) :
    (Process.attemptsFrom policy action draws (fun _ => Engine.invoke s action a b input) left number).Unwinds
      r false := by
  have hattempt {again : Failure → Process σ} (hagain : ∀ f, (again f).Unwinds r false) :
      (attempt action (Engine.invoke s action a b input) again).Unwinds r false := by
    refine .afterLook (.invoke s action a b input (fun place results hr => ?_) fun o => ?_)
    · have hlasting : isPassing (Failure.cancelled place results).message = false :=
        Bool.eq_false_iff.mpr fun hp => hr ⟨s, hs, hremote, hp⟩
      simp only [hlasting, Bool.false_eq_true, if_false]
      exact stops_fail place results
    · cases o with
      | ok value => trivial
      | error f =>
        simp only
        split
        · exact hagain f
        · trivial
  induction left generalizing number with
  | zero =>
    rw [Process.attemptsFrom]
    exact hattempt fun f => trivial
  | succ left ih =>
    rw [Process.attemptsFrom]
    refine hattempt fun f => ?_
    cases policy.delayAfter number (draws number) with
    | error g => trivial
    | ok delay => exact .act rfl rfl (.sleep (stops_fail _ _) (ih (number + 1)))

end Unwinds

end Process

namespace Engine

open Process

variable (e : Engine σ)

theorem unwinds_runCommand (action a b input : String) :
    (e.runCommand action a b input).Unwinds e.registry false := by
  rw [runCommand]
  cases hs : e.registry.get? action with
  | none => trivial
  | some s =>
    have hcall : (invoke s action a b input).Unwinds e.registry false := by
      rw [← andThen_id (invoke s action a b input)]
      exact .invoke s action a b input (fun place results _ => ⟨results, rfl⟩) fun _ => trivial
    refine .act rfl rfl (Unwinds.andThen ?_ stops_fail fun o => ?_)
    · cases hpolicy : s.effectivePolicy with
      | none => exact hcall
      | some policy =>
        have hremote : s.remote = true := by
          by_contra hlocal
          simp [CommandSpec.effectivePolicy, hlocal] at hpolicy
        -- the look finds out how many calls there have been
        exact ⟨fun _ => .inr fun w cancelled => rfl, fun w => .attemptsFrom hs hremote policy _ a b input _ _⟩
    · cases o with
      | ok value => exact .act rfl rfl trivial
      | error f => trivial

theorem unwinds_runParallel {branches : List (Process σ)}
    (h : ∀ p ∈ branches, p.Unwinds e.registry false) :
    (runParallel branches).Unwinds e.registry false := by
  refine .act rfl rfl (.act rfl rfl ⟨fun _ i => stops_fail, fun i => h _ (List.getElem_mem _), fun j => ?_⟩)
  cases j with
  | ok values => trivial
  | error f => trivial

theorem unwinds_runGuarded (condition input : String) {body : String → Process σ}
    (h : ∀ v, (body v).Unwinds e.registry false) :
    (runGuarded condition input body).Unwinds e.registry false := by
  rw [runGuarded]
  cases Condition.parse condition with
  | error f => trivial
  | ok c =>
    refine ⟨fun _ => .inr fun w cancelled => rfl, fun w => .act rfl rfl (.act rfl rfl ?_)⟩
    split
    · exact h input
    · trivial

theorem unwinds_iterateFrom {process : String → Nat → Process σ} {delay : Binary64}
    {next : List (ItemResult Failure) → Process σ}
    (hprocess : ∀ item index, (process item index).Unwinds e.registry false)
    (hnext : ∀ results, (next results).Unwinds e.registry false) (items : List String) (index : Nat)
    (results : List (ItemResult Failure)) :
    (iterateFrom process delay next items index results).Unwinds e.registry false := by
  induction items generalizing index results with
  | nil => exact hnext _
  | cons item rest ih =>
    rw [iterateFrom]
    refine .afterLook ((hprocess item index).andThen (fun place _ => stops_fail place _) fun o => ?_)
    have hgoOn {c : Bool} {k : Bool → Process σ} (htrue : (k true).Stops loopPlace)
        (hfalse : (k false).Unwinds e.registry false) :
        (if c then k false else sleep loopPlace delay k).Unwinds e.registry false := by
      split
      · exact hfalse
      · exact .sleep htrue hfalse
    cases o with
    | ok v => exact hgoOn (stops_fail _ _) (ih _ _)
    | error f =>
      cases f with
      | cancelled place rs => trivial
      | _ => exact .act rfl rfl (hgoOn (stops_fail _ _) (ih _ _))

theorem unwinds_runLoop (strategy input : String) {body : String → Process σ}
    (h : ∀ v, (body v).Unwinds e.registry false) :
    (e.runLoop strategy input body).Unwinds e.registry false := by
  refine .act rfl rfl (e.unwinds_iterateFrom (fun item _ => h item) (fun results => ?_) _ _ _)
  exact .act rfl rfl trivial

mutual

/-- **Every stage** unwinds. -/
theorem unwinds_runStage :
    ∀ (s : Stage) (value : String), (e.runStage s value).Unwinds e.registry false
  | .command action a b, value => by
    rw [runStage]
    exact e.unwinds_runCommand action a b value
  | .parallel branches, value => by
    rw [runStage]
    exact e.unwinds_runParallel (unwinds_branchProcesses branches value)
  | .guarded condition body, value => by
    rw [runStage]
    exact e.unwinds_runGuarded condition value (unwinds_runBlock body)
  | .forEach strategy body, value => by
    rw [runStage]
    exact e.unwinds_runLoop strategy value (unwinds_runBlock body)

theorem unwinds_runChain :
    ∀ (c : List Stage) (value : String), (e.runChain c value).Unwinds e.registry false
  | [], value => by
    rw [runChain]
    trivial
  | s :: rest, value => by
    rw [runChain]
    exact .afterLook ((unwinds_runStage s value).bind (unwinds_runChain rest))

theorem unwinds_runBlock :
    ∀ (body : List (List Stage)) (value : String), (e.runBlock body value).Unwinds e.registry false
  | [], value => by
    rw [runBlock]
    trivial
  | c :: rest, value => by
    rw [runBlock]
    exact (unwinds_runChain c value).bind (unwinds_runBlock rest)

theorem unwinds_branchProcesses :
    ∀ (branches : List (List Stage)) (value : String),
      ∀ p ∈ e.branchProcesses branches value, p.Unwinds e.registry false
  | [], value => by
    rw [branchProcesses]
    simp
  | c :: rest, value => by
    rw [branchProcesses]
    exact List.forall_mem_cons.mpr ⟨unwinds_runChain c value, unwinds_branchProcesses rest value⟩

end

end Engine

/-- **The process of a program unwinds**, whatever its commands do. -/
theorem Runtime.unwinds_process (rt : Runtime σ) (p : Program) :
    (rt.process p).Unwinds rt.registry false :=
  (rt.engine.unwinds_runBlock p.statements "").bind fun _ => .act rfl rfl trivial

/-! ### Calls in a run -/

namespace Process

variable {r : Registry (Collaborator σ)}

/-- **What unwinds leaves only such work to do.** -/
theorem inherited_unwinds : Inherited fun p : Process σ => ∃ busy, p.Unwinds r busy := by
  rintro p w ⟨busy, h⟩
  induction p generalizing busy w with
  | done o => trivial
  | look next ih => exact ih w w busy (h.2 w)
  | act e next ih => exact ih _ _ h.2
  | wait seconds next ih =>
    rw [advance]
    split
    · exact ⟨busy, h⟩
    · exact ⟨busy, h⟩
  | nap place seconds next ih =>
    rw [advance]
    by_cases hc : w.cancelled = true
    · simp only [if_pos hc]
      exact ih true w busy (h.2 true)
    · by_cases hr : Binary64.lt 0 seconds = true
      · simp only [if_neg hc, if_pos hr]
        exact ⟨busy, h.1, h.2⟩
      · simp only [if_neg hc, if_neg hr]
        exact ih false w busy (h.2 false)
  | fork kind count branch next _ ih =>
    rw [advance]
    split
    · exact ih _ w busy (h.2.2 _)
    · exact ⟨fun i => ⟨_, h.2.1 i⟩, fun j => ⟨busy, h.2.2 j⟩⟩

/-- A call that comes to a cancellation ends the turn in which it does so. -/
theorem Unwinds.ended_of_finish {p : Process σ} {busy : Bool} (h : p.Unwinds r busy) {t : Nat} {w : World σ}
    {before after : List (Deed σ)} {action place : String} {results : List (ItemResult Failure)}
    (hr : ¬ r.Retries action (.cancelled place results))
    (hdeeds : (p.moments t w).map (·.deed) =
      before ++ .change (.finish action (.error (.cancelled place results))) :: after) :
    after = [] ∧ ∃ rest, (p.advance w).2 = .ended (.error (.cancelled place rest)) := by
  induction p generalizing busy w before with
  | done o => simp [moments] at hdeeds
  | look next ih => exact ih w (h.2 w) hdeeds
  | act e next ih =>
    rw [moments, List.map_cons, List.cons_eq_append_iff] at hdeeds
    rcases hdeeds with ⟨rfl, hcons⟩ | ⟨before', rfl, hrest⟩
    · obtain ⟨he, hafter⟩ := List.cons.inj hcons
      obtain ⟨rest, hstop⟩ := h.1 action place results (Deed.change.inj he).symm hr
      rw [advance, hstop]
      rw [hstop] at hafter
      exact ⟨hafter, rest, rfl⟩
    · exact ih h.2 hrest
  | wait seconds next ih => simp [moments] at hdeeds
  | nap place' seconds next ih =>
    rw [moments] at hdeeds
    rw [advance]
    split at hdeeds
    · rename_i hc
      rw [if_pos hc]
      exact ih true (h.2 true) hdeeds
    · rename_i hc
      rw [if_neg hc]
      split at hdeeds
      · rw [List.map_singleton, List.singleton_eq_append_iff] at hdeeds
        simp at hdeeds
      · rename_i hr'
        rw [if_neg hr']
        exact ih false (h.2 false) hdeeds
  | fork kind count branch next _ ih =>
    rw [moments] at hdeeds
    rw [advance]
    split at hdeeds
    · rename_i hzero
      rw [if_pos hzero]
      exact ih _ (h.2.2 _) hdeeds
    · simp at hdeeds

end Process

namespace Course

variable {cancel : Bool} {q q' : Point σ} {ms : List (Moment σ)} {t : Nat} {o : Outcome}

/-- A task that has ended does nothing more. -/
theorem deedsOf_of_ended (hstep : Point.Step cancel q ms q') (ho : q.schedule.outcome? t = some o) :
    Moment.deedsOf t ms = [] ∧ q'.schedule.outcome? t = some o := by
  cases hstep with
  | turn u turns s =>
    refine ⟨Schedule.deedsOf_moments_of_not_work fun p hw => ?_, Schedule.outcome?_take ho cancel u⟩
    have hst := Schedule.outcome?_eq_some_iff.mp ho
    rcases Schedule.work?_cases hw with hready | ⟨_, _, _, _, _, -, hjoining, -, -⟩
    · cases hst.symm.trans hready
    · cases hst.symm.trans hjoining
  | round s => exact ⟨rfl, ho⟩
  | advance h =>
    refine ⟨rfl, ?_⟩
    rwa [Point.of, Schedule.outcome?, Schedule.state?, Schedule.tasks_of_advance h]

/-- A call that comes to a cancellation ends its task in a single step. -/
theorem ended_of_finish_step {r : Registry (Collaborator σ)} (hstep : Point.Step cancel q ms q')
    (hq : q.schedule.All fun p => ∃ busy, p.Unwinds r busy) {before after : List (Deed σ)}
    {action place : String} {results : List (ItemResult Failure)}
    (hr : ¬ r.Retries action (.cancelled place results))
    (hdeeds : Moment.deedsOf t ms =
      before ++ .change (.finish action (.error (.cancelled place results))) :: after) :
    after = [] ∧ ∃ rest, q'.schedule.outcome? t = some (.error (.cancelled place rest)) := by
  cases hstep with
  | turn u turns s =>
    by_cases hwork : ∃ p, s.work? u = some (t, p)
    · obtain ⟨p, hw⟩ := hwork
      obtain ⟨busy, hp⟩ := hq.work hw
      rw [Schedule.moments_of_work? hw, Moment.deedsOf_moments] at hdeeds
      obtain ⟨hafter, rest, hended⟩ := hp.ended_of_finish hr hdeeds
      refine ⟨hafter, rest, Schedule.outcome?_eq_some_iff.mpr ?_⟩
      rw [Schedule.state?_take_of_work? hw, hended]
      rfl
    · rw [Schedule.deedsOf_moments_of_not_work (not_exists.mp hwork)] at hdeeds
      simp at hdeeds
  | round s => simp at hdeeds
  | advance h => simp at hdeeds

/-- **A call that comes to a cancellation** is the last thing that its task does, which ends with it. -/
theorem ended_of_finish {r : Registry (Collaborator σ)} (h : Course cancel q ms q')
    (hq : q.schedule.All fun p => ∃ busy, p.Unwinds r busy) {before after : List (Deed σ)}
    {action place : String} {results : List (ItemResult Failure)}
    (hr : ¬ r.Retries action (.cancelled place results))
    (hdeeds : Moment.deedsOf t ms =
      before ++ .change (.finish action (.error (.cancelled place results))) :: after) :
    after = [] ∧ ∃ rest, q'.schedule.outcome? t = some (.error (.cancelled place rest)) := by
  induction h generalizing before after with
  | refl => simp at hdeeds
  | @step ms ns q' q'' hcourse hstep ih =>
    have hall := hcourse.all Process.inherited_unwinds hq
    rw [Moment.deedsOf_append, List.append_eq_append_iff] at hdeeds
    rcases hdeeds with ⟨between, -, hlate⟩ | ⟨between, hearly, hrest⟩
    · exact ended_of_finish_step hstep hall hr hlate
    · cases between with
      | nil =>
        rw [List.nil_append] at hrest
        exact ended_of_finish_step hstep hall hr (hrest.symm.trans (List.nil_append _).symm)
      | cons d between =>
        obtain ⟨rfl, rfl⟩ := List.cons.inj hrest
        obtain ⟨rfl, rest, hended⟩ := ih hearly
        obtain ⟨hnone, hstays⟩ := deedsOf_of_ended hstep hended
        exact ⟨hnone, rest, hstays⟩

end Course

namespace Runtime

/-- **A cancellation comes through as one.** Where the commands are plain about it, a run that gives no value
has been cancelled, or has failed for causes none of which is a cancellation; and what loops record is no
cancellation, nor due to one. Whatever the commands are, the process of the program stops wherever a
cancellation comes up. In every course of a run, a call that comes to a cancellation and is not made again is
the last thing that its task does, be it the main task or that of a branch, which ends with the cancellation. -/
theorem cancellation_comes_through (rt : Runtime σ) (c : Context) (s : σ) (p : Program)
    (alarms : Alarms Turn) (hbells : ∀ a ∈ alarms.all, ∀ t, a.event ≠ .release t) :
    (rt.registry.Plain →
      (∀ linger rounds f w, Schedule.runFor rt.settings.cancelSiblings rounds
          (rt.schedule c s p linger alarms) = some (.error f, w) → f.Plain) ∧
      ∀ body items results, Loop.Records (rt.engine.BlockComes body) items results →
        ∀ r ∈ results, ∀ f, r.outcome = .error f → f.isCancelled = false ∧ f.Plain) ∧
    (rt.process p).Unwinds rt.registry false ∧
    ∀ ms q, Course rt.settings.cancelSiblings (.of (rt.schedule c s p none alarms)) ms q →
      ∀ t before after action place results, ¬ rt.registry.Retries action (.cancelled place results) →
        Moment.deedsOf t ms =
          before ++ .change (.finish action (.error (.cancelled place results))) :: after →
        after = [] ∧ ∃ rest, q.schedule.outcome? t = some (.error (.cancelled place rest)) := by
  refine ⟨fun hr => ⟨fun linger rounds f w hrun => rt.plain_of_runFor hr hbells hrun,
    fun body items results h r hmem f hf => rt.plain_of_records hr h hmem hf⟩, rt.unwinds_process p, ?_⟩
  intro ms q h t before after action place results hr hdeeds
  exact h.ended_of_finish (.start _ ⟨false, rt.unwinds_process p⟩ alarms) hr hdeeds

/-- A command that cancels the run, and stops at a place of its own. -/
def halt : Collaborator Unit := fun _ _ _ => .cancel (.fail (.cancelled "shutdown" []))

/-- A runtime with a command that says a word, and one that halts in a thread and may be tried three times. -/
def halting : Runtime Unit where
  settings := { cacheDirectory := .ofString "" }
  registry := ⟨[
    { name := "say", work := fun a _ _ => .ok a },
    { name := "halt", work := halt, style := .threaded, remote := true,
      policy := some { maxAttempts := 3 } }]⟩

/-- A program with a branch that halts in a loop. -/
def haltInLoop : Program :=
  ⟨[[.parallel [
    [.command "say" "a,b" "", .forEach "csv" [[.command "halt" "" "", .command "say" "x" ""]],
      .command "say" "y" ""],
    [.command "say" "z" ""]]]]⟩

/-- The words of the cancellation speak of no passing failure. -/
theorem not_retries_halt (r : Registry (Collaborator Unit)) (action : String)
    (results : List (ItemResult Failure)) : ¬ r.Retries action (.cancelled "shutdown" results) := by
  rintro ⟨s, -, -, hp⟩
  have hlasting : isPassing ("execution cancelled" ++ duringText "shutdown") = false := by decide +kernel
  exact absurd (hp.symm.trans hlasting) (by simp)

theorem plain_halting : halting.registry.Plain := by
  have hwork {action : String} {s : CommandSpec (Collaborator Unit)}
      (hs : halting.registry.get? action = some s) {a b input : String} {f : Failure}
      (h : (s.work a b input).Ends (.error f)) : f = .cancelled "shutdown" [] := by
    have hmem := List.mem_of_find?_eq_some hs
    rcases List.mem_pair.mp hmem with rfl | rfl
    · cases h
    · exact (Except.error.inj h).symm
  constructor
  · intro action s hs a b input f h
    rw [hwork hs h]
    exact Failure.plain_of_isCancelled rfl
  · intro action s hs hremote a b input f h _
    rw [hwork hs h]
    exact Bool.eq_false_iff.mpr fun hp => not_retries_halt halting.registry action [] ⟨s, hs, hremote, hp⟩

/-- The command and the place of a call that comes to a cancellation. -/
def halt? : Deed Unit → Option (String × String)
  | .change (.finish action (.error (.cancelled place _))) => some (action, place)
  | _ => none

/-- **A command halts in a thread**, in a loop within a branch. The branch has said one word before it, has
nothing more to do after it, and ends with the cancellation, as does the run. -/
theorem halt_comes_through :
    (∃ ms q before results rest,
      Course halting.settings.cancelSiblings (.of (halting.schedule {} () haltInLoop none {})) ms q ∧
      Moment.deedsOf 1 ms = before ++ [.change (.finish "halt" (.error (.cancelled "shutdown" results)))] ∧
      q.schedule.outcome? 1 = some (.error (.cancelled "shutdown" rest))) ∧
    ∃ f w, Schedule.runFor halting.settings.cancelSiblings 9 (halting.schedule {} () haltInLoop none {}) =
      some (.error f, w) ∧ f.isCancelled = true ∧ f.Plain := by
  obtain ⟨hplain, -, hends⟩ :=
    halting.cancellation_comes_through {} () haltInLoop {} (by simp [Alarms.all])
  constructor
  · have hcourse := Course.rounds halting.settings.cancelSiblings 9 (halting.schedule {} () haltInLoop none {})
    have hhalt : (Moment.deedsOf 1 ((halting.schedule {} () haltInLoop none {}).rounds
        halting.settings.cancelSiblings 9).1).findSome? halt? = some ("halt", "shutdown") := by
      decide +kernel
    generalize Schedule.rounds halting.settings.cancelSiblings 9 _ = r at hcourse hhalt
    obtain ⟨d, hd, hshape⟩ := List.exists_of_findSome?_eq_some hhalt
    obtain ⟨results, rfl⟩ :
        ∃ results, d = .change (.finish "halt" (.error (.cancelled "shutdown" results))) := by
      unfold halt? at hshape
      split at hshape
      · obtain ⟨rfl, rfl⟩ := Prod.mk.inj (Option.some.inj hshape)
        exact ⟨_, rfl⟩
      · cases hshape
    obtain ⟨before, after, hdeeds⟩ := List.append_of_mem hd
    obtain ⟨rfl, rest, hended⟩ := hends _ _ hcourse _ _ _ _ _ _ (not_retries_halt _ _ _) hdeeds
    exact ⟨_, _, before, results, rest, hcourse, hdeeds, hended⟩
  · have hfails : failsSo Failure.isCancelled (Schedule.runFor halting.settings.cancelSiblings 9
        (halting.schedule {} () haltInLoop none {})) = true := by
      decide +kernel
    obtain ⟨f, w, hrun, hc⟩ := exists_of_failsSo hfails
    exact ⟨f, w, hrun, hc, (hplain plain_halting).1 none 9 f w hrun⟩

end Runtime

end PipeScript
