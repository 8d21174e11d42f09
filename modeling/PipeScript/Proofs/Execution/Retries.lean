import PipeScript.Proofs.Execution.Delays
import PipeScript.Proofs.Execution.Traces

/-!
# The attempts of a call

How often a call is made, how long the run naps between two calls, and what comes of it all, as long as
the run is not cancelled.

## The model

The calls are any processes, one for each attempt, and may go by the world as they find it. An outcome
`Settles` the attempts if it is a value or a failure that is not passing. `Process.Tried` lists the
calls that attempts consist of, each with what it does, what it comes to, and what is done between it
and the next one.

## What is assumed

Nothing is assumed of the delays where a run has ended. That it does end is shown for calls that are
timely and naps that elapse: all naps of at most `2^49` seconds do (`Binary64.elapses_of_le`), and one that
is longer may not get any shorter by its slices, so that the run never comes to the end of it.

Main results: what attempts do is such a list (`Process.exists_tried`); it ends with the first outcome
that settles the attempts, or with the last attempt allowed (`Process.Tried.exists_last`), and has a
warning and a nap between two calls and nothing else (`Process.Tried.after`); and so the attempts follow
their policy (`Process.attempts_follow_policy`): they end if the calls do, after the calls and naps that
the outcomes call for, and come to what those say.
-/

namespace PipeScript

variable {σ : Type}

/-- Does the outcome of a call end its attempts? -/
def Settles : Outcome → Prop
  | .ok _ => True
  | .error f => isPassing f.message = false

theorem not_settles {f : Failure} (h : isPassing f.message = true) : ¬ Settles (.error f) := by
  simp [Settles, h]

/-- Is it the number, counted from 1, of the first outcome that ends the attempts? -/
structure FirstSettled (r : Nat → Outcome) (k : Nat) : Prop where
  pos : 0 < k
  settles : Settles (r k)
  before : ∀ j, 0 < j → j < k → ¬ Settles (r j)

/-- Is it the warning about a failed attempt and the nap that follows? -/
def IsPause (policy : RetryPolicy) (name : String) (number : Nat) (f : Failure) (delay : Binary64)
    (ds : List (Deed σ)) : Prop :=
  ∃ nap, ds = .change (.log ⟨.warning, Process.retryWarning policy name number f delay⟩) :: nap ∧
    Deed.IsNap (Process.retryPlace name) delay nap

/-- Are these the calls that a policy makes when they have these outcomes, with these delays between
them, and is this what it comes to? -/
structure FollowsPolicy (policy : RetryPolicy) (name : String) (r : Nat → Outcome)
    (delays : Nat → Binary64) (visits : List (Visit σ)) (o : Outcome) : Prop where
  /-- After each call but the last one there are a warning and a nap for its delay, and nothing else. -/
  pauses : ∀ i v, visits[i]? = some v →
    if i + 1 < visits.length then
      ∃ f, r (i + 1) = .error f ∧ IsPause policy name (i + 1) f (delays (i + 1)) v.after
    else v.after = []
  settled : ∀ k ≤ policy.maxAttempts, FirstSettled r k → visits.length = k ∧ o = r k
  exhausted : (∀ k, FirstSettled r k → policy.maxAttempts < k) →
    visits.length = policy.maxAttempts ∧ ∃ f, r policy.maxAttempts = .error f ∧
      o = .error (.exhausted name policy.maxAttempts f)

/-! ### What attempts do -/

namespace Process

/-- Can the process do this and come to that while the run is not cancelled? -/
abbrev Performs (p : Process σ) (ds : List (Deed σ)) (o : Outcome) : Prop :=
  p.Goes (fun w => w.cancelled = false) ds (done o)

/-- What attempts do and come to, from the one of the second number on, with so many left after it as
the first one says. -/
inductive Tried (policy : RetryPolicy) (name : String) (draws : Nat → Binary64)
    (calls : Nat → Process σ) : Nat → Nat → List (Visit σ) → Outcome → Prop
  | settled {left number : Nat} {ds : List (Deed σ)} {o : Outcome}
      (h : (calls number).Performs ds o) (ho : Settles o) :
      Tried policy name draws calls left number [⟨ds, o, []⟩] o
  | exhausted {number : Nat} {ds : List (Deed σ)} {f : Failure}
      (h : (calls number).Performs ds (.error f)) (hf : isPassing f.message = true) :
      Tried policy name draws calls 0 number [⟨ds, .error f, []⟩] (.error (.exhausted name number f))
  | undelayed {left number : Nat} {ds : List (Deed σ)} {f g : Failure}
      (h : (calls number).Performs ds (.error f)) (hf : isPassing f.message = true)
      (hdelay : policy.delayAfter number (draws number) = .error g) :
      Tried policy name draws calls (left + 1) number [⟨ds, .error f, []⟩] (.error g)
  | again {left number : Nat} {ds after : List (Deed σ)} {f : Failure} {delay : Binary64}
      {visits : List (Visit σ)} {o : Outcome}
      (h : (calls number).Performs ds (.error f)) (hf : isPassing f.message = true)
      (hdelay : policy.delayAfter number (draws number) = .ok delay)
      (hafter : IsPause policy name number f delay after)
      (hrest : Tried policy name draws calls left (number + 1) visits o) :
      Tried policy name draws calls (left + 1) number (⟨ds, .error f, after⟩ :: visits) o

section

variable {policy : RetryPolicy} {name : String} {draws : Nat → Binary64} {calls : Nat → Process σ}
  {left number : Nat} {visits : List (Visit σ)} {ds : List (Deed σ)} {o : Outcome}

/-- An attempt is a call, and all of the attempts if it settles them. -/
theorem Performs.exists_of_attempt {call : Process σ} {again : Failure → Process σ}
    (h : (attempt name call again).Performs ds o) :
    ∃ first o' rest, ds = first ++ rest ∧ call.Performs first o' ∧
      (Settles o' ∧ rest = [] ∧ o = o' ∨
        ∃ f, o' = .error f ∧ isPassing f.message = true ∧ (again f).Performs rest o) := by
  rcases Goes.exists_of_unless h with ⟨w, hw, hc, -⟩ | h
  · rw [hw] at hc
    cases hc
  · obtain ⟨first, o', rest, rfl, hfirst, hrest⟩ := Goes.exists_of_andThen h
    refine ⟨first, o', rest, rfl, hfirst, ?_⟩
    cases o' with
    | ok value => exact .inl ⟨trivial, Goes.eq_of_done hrest⟩
    | error f =>
      by_cases hf : isPassing f.message = true
      · simp only [if_pos hf] at hrest
        exact .inr ⟨f, rfl, hf, hrest⟩
      · simp only [if_neg hf] at hrest
        exact .inl ⟨by simpa [Settles] using hf, Goes.eq_of_done hrest⟩

/-- Between two attempts there are a warning and a nap. -/
theorem Performs.exists_of_between {f : Failure} {next : Process σ} {delay : Binary64}
    (h : (between policy name number f next (.ok delay)).Performs ds o) :
    ∃ after rest, ds = after ++ rest ∧ IsPause policy name number f delay after ∧
      next.Performs rest o := by
  cases h with
  | act _ h =>
    obtain ⟨nap, w, rest, rfl, hnap, hw, hrest⟩ := Goes.exists_of_sleep h
    rw [hw] at hrest
    exact ⟨_ :: nap, rest, rfl, ⟨nap, rfl, hnap⟩, hrest⟩

/-- **What attempts do** is call after call. -/
theorem exists_tried (h : (attemptsFrom policy name draws calls left number).Performs ds o) :
    ∃ visits, ds = Visit.trace visits ∧ Tried policy name draws calls left number visits o := by
  induction left generalizing number ds with
  | zero =>
    obtain ⟨first, o', rest, rfl, hfirst, ⟨hs, rfl, rfl⟩ | ⟨f, rfl, hf, hrest⟩⟩ :=
      Performs.exists_of_attempt h
    · exact ⟨_, by simp, .settled hfirst hs⟩
    · obtain ⟨rfl, rfl⟩ := Goes.eq_of_done hrest
      exact ⟨_, by simp, .exhausted hfirst hf⟩
  | succ left ih =>
    obtain ⟨first, o', rest, rfl, hfirst, ⟨hs, rfl, rfl⟩ | ⟨f, rfl, hf, hrest⟩⟩ :=
      Performs.exists_of_attempt h
    · exact ⟨_, by simp, .settled hfirst hs⟩
    · cases hdelay : policy.delayAfter number (draws number) with
      | error g =>
        rw [hdelay] at hrest
        obtain ⟨rfl, rfl⟩ := Goes.eq_of_done hrest
        exact ⟨_, by simp, .undelayed hfirst hf hdelay⟩
      | ok delay =>
        rw [hdelay] at hrest
        obtain ⟨after, rest', rfl, hafter, hrest⟩ := Performs.exists_of_between hrest
        obtain ⟨visits, rfl, hvisits⟩ := ih hrest
        exact ⟨_, by simp, .again hfirst hf hdelay hafter hvisits⟩

namespace Tried

theorem pos (h : Tried policy name draws calls left number visits o) : 0 < visits.length := by
  cases h <;> exact Nat.succ_pos _

/-- Each call is that of its number. -/
theorem performs (h : Tried policy name draws calls left number visits o) {i : Nat} {v : Visit σ}
    (hv : visits[i]? = some v) : (calls (number + i)).Performs v.deeds v.outcome := by
  induction h generalizing i with
  | again h _ _ _ _ ih =>
    cases i with
    | zero =>
      obtain rfl := Option.some.inj hv
      exact h
    | succ i =>
      rw [Nat.add_comm i 1, ← Nat.add_assoc]
      exact ih hv
  | settled h | exhausted h | undelayed h =>
    obtain ⟨rfl, rfl⟩ : i = 0 ∧ _ = v := by simpa [List.getElem?_singleton] using hv
    exact h

/-- After each call but the last one there is a pause. -/
theorem after (h : Tried policy name draws calls left number visits o) {i : Nat} {v : Visit σ}
    (hv : visits[i]? = some v) :
    if i + 1 < visits.length then
      i < left ∧ ∃ f delay, v.outcome = .error f ∧ isPassing f.message = true ∧
        policy.delayAfter ↑(number + i) (draws (number + i)) = .ok delay ∧
        IsPause policy name (number + i) f delay v.after
    else v.after = [] := by
  induction h generalizing i with
  | again h hf hdelay hafter hrest ih =>
    cases i with
    | zero =>
      obtain rfl := Option.some.inj hv
      rw [if_pos (by simpa using hrest.pos)]
      exact ⟨Nat.succ_pos _, _, _, rfl, hf, hdelay, hafter⟩
    | succ i =>
      have hi := ih hv
      rw [Nat.add_assoc, Nat.add_comm 1 i] at hi
      simpa only [List.length_cons, Nat.add_lt_add_iff_right] using hi
  | settled | exhausted | undelayed =>
    obtain ⟨rfl, rfl⟩ : i = 0 ∧ _ = v := by simpa [List.getElem?_singleton] using hv
    rfl

/-- **The last call** is the first one that settles the attempts, or the last one allowed. -/
theorem exists_last (h : Tried policy name draws calls left number visits o) {r : Nat → Outcome}
    (hr : ∀ i v, visits[i]? = some v → v.outcome = r (number + i))
    (hdelay : ∀ n f, number ≤ n → n < number + left → r n = .error f → isPassing f.message = true →
      ∃ delay, policy.delayAfter n (draws n) = .ok delay) :
    ∃ k, number ≤ k ∧ k ≤ number + left ∧ visits.length + number = k + 1 ∧
      (∀ j, number ≤ j → j < k → ¬ Settles (r j)) ∧
      (Settles (r k) ∧ o = r k ∨
        k = number + left ∧ ∃ f, r k = .error f ∧ isPassing f.message = true ∧
          o = .error (.exhausted name k f)) := by
  have hnone {number : Nat} : ∀ j, number ≤ j → j < number → ¬ Settles (r j) :=
    fun j hle hlt => absurd hle (Nat.not_le.mpr hlt)
  have hone {number : Nat} {v : Visit σ} : [v].length + number = number + 1 := Nat.add_comm 1 number
  induction h with
  | @settled left number ds o h ho =>
    obtain rfl : o = r number := hr 0 _ rfl
    exact ⟨number, Nat.le_refl _, by omega, hone, hnone, .inl ⟨ho, rfl⟩⟩
  | @exhausted number ds f h hf =>
    have hrf : r number = .error f := (hr 0 _ rfl).symm
    exact ⟨number, Nat.le_refl _, by omega, hone, hnone, .inr ⟨rfl, f, hrf, hf, rfl⟩⟩
  | @undelayed left number ds f g h hf hundelayed =>
    have hrf : r number = .error f := (hr 0 _ rfl).symm
    obtain ⟨delay, htold⟩ := hdelay number f (Nat.le_refl _) (by omega) hrf hf
    rw [hundelayed] at htold
    cases htold
  | @again left number ds after f delay visits o h hf _ _ hrest ih =>
    have hrf : r number = .error f := (hr 0 _ rfl).symm
    obtain ⟨k, hle, hlast, hlength, hbefore, hend⟩ := ih
      (fun i v hv => by rw [hr (i + 1) v hv, Nat.add_assoc, Nat.add_comm 1 i])
      (fun n f hle hlt => hdelay n f (by omega) (by omega))
    refine ⟨k, by omega, by omega, by rw [List.length_cons]; omega, ?_, ?_⟩
    · intro j hj hjk
      by_cases hjn : j = number
      · rw [hjn, hrf]
        exact not_settles hf
      · exact hbefore j (by omega) hjk
    · refine hend.imp id ?_
      rintro ⟨hk, hex⟩
      exact ⟨by omega, hex⟩

end Tried

end

/-! ### Attempts end -/

/-- Can the process come to the outcome, in some worlds? -/
def Ends : Process σ → Outcome → Prop
  | done r, o => r = o
  | look next, o => ∃ w, (next w).Ends o
  | act _ next, o => next.Ends o
  | wait _ next, o => next.Ends o
  | nap _ _ next, o => ∃ c, (next c).Ends o
  | fork _ _ _ next, o => ∃ j, (next j).Ends o

/-- A process with a continuation is timely if the continuation is after each outcome that there is. -/
theorem Timely.andThen_of_ends {p : Process σ} {k : Outcome → Process σ} (h : p.Timely)
    (hk : ∀ o, p.Ends o → (k o).Timely) : (p.andThen k).Timely := by
  induction p with
  | done o => exact hk o rfl
  | look next ih => exact fun w => ih w (h w) fun o ho => hk o ⟨w, ho⟩
  | act e next ih => exact ih h hk
  | wait seconds next ih => exact ⟨h.1, ih h.2 hk⟩
  | nap place r next ih => exact ⟨h.1, fun c => ih c (h.2 c) fun o ho => hk o ⟨c, ho⟩⟩
  | fork kind count branch next _ ih => exact ⟨h.1, fun j => ih j (h.2 j) fun o ho => hk o ⟨j, ho⟩⟩

/-- Attempts are timely if the calls are, and if the naps elapse that can come between them. -/
theorem timely_attemptsFrom {policy : RetryPolicy} {name : String} {draws : Nat → Binary64}
    {calls : Nat → Process σ} (hcalls : ∀ n, (calls n).Timely) {left number : Nat}
    (hdelay : ∀ n f delay, number ≤ n → n < number + left → (calls n).Ends (.error f) →
      isPassing f.message = true → policy.delayAfter n (draws n) = .ok delay →
      Binary64.Elapses delay) : (attemptsFrom policy name draws calls left number).Timely := by
  have hattempt {n : Nat} {again : Failure → Process σ}
      (hagain : ∀ f, (calls n).Ends (.error f) → isPassing f.message = true → (again f).Timely) :
      (attempt name (calls n) again).Timely := by
    refine timely_unless ((hcalls n).andThen_of_ends fun o ho => ?_)
    cases o with
    | ok value => exact trivial
    | error f =>
      by_cases hf : isPassing f.message = true
      · simp only [if_pos hf]
        exact hagain f ho hf
      · simp only [if_neg hf]
        exact trivial
  induction left generalizing number with
  | zero =>
    rw [attemptsFrom]
    exact hattempt fun _ _ _ => trivial
  | succ left ih =>
    rw [attemptsFrom]
    refine hattempt fun f hends hf => ?_
    cases hd : policy.delayAfter number (draws number) with
    | error g => exact trivial
    | ok delay =>
      refine ⟨hdelay number f delay (Nat.le_refl _) (by omega) hends hf hd, fun c => ?_⟩
      cases c with
      | true => exact trivial
      | false => exact ih fun n f delay hle hlt => hdelay n f delay (by omega) (by omega)

/-- **What tried calls amount to** is what the policy says, if it tells the delays. -/
theorem Tried.followsPolicy {policy : RetryPolicy} (hmax : 0 < policy.maxAttempts) {name : String}
    {draws : Nat → Binary64} {calls : Nat → Process σ} {visits : List (Visit σ)} {o : Outcome}
    (h : Tried policy name draws calls (policy.maxAttempts - 1) 1 visits o) {r : Nat → Outcome}
    {delays : Nat → Binary64} (hr : ∀ i v, visits[i]? = some v → v.outcome = r (i + 1))
    (hdelay : ∀ n f, 0 < n → n < policy.maxAttempts → r n = .error f → isPassing f.message = true →
      policy.delayAfter n (draws n) = .ok (delays n)) :
    FollowsPolicy policy name r delays visits o := by
  have hlimit : 1 + (policy.maxAttempts - 1) = policy.maxAttempts := by omega
  obtain ⟨k, hpos, hlast, hlength, hbefore, hend⟩ := h.exists_last
    (fun i v hv => by rw [hr i v hv, Nat.add_comm])
    (fun n f hle hlt hrf hf => ⟨_, hdelay n f hle (hlimit ▸ hlt) hrf hf⟩)
  have hcalls : visits.length = k := Nat.succ.inj hlength
  refine ⟨fun i v hv => ?_, fun k' hk' hfirst => ?_, fun hnone => ?_⟩
  · have hafter := h.after hv
    by_cases hi : i + 1 < visits.length
    · rw [if_pos hi] at hafter ⊢
      obtain ⟨hlt, f, delay, hf, hpassing, htold, hpause⟩ := hafter
      rw [Nat.add_comm 1 i] at htold hpause
      have hrf : r (i + 1) = .error f := (hr i v hv).symm.trans hf
      obtain rfl : delay = delays (i + 1) := Except.ok.inj
        (htold.symm.trans (hdelay (i + 1) f (Nat.succ_pos i) (by omega) hrf hpassing))
      exact ⟨f, hrf, hpause⟩
    · rwa [if_neg hi] at hafter ⊢
  · -- the first outcome that settles the attempts is that of the last call
    have hle : k ≤ k' := by
      by_contra hlt
      exact hbefore k' hfirst.pos (by omega) hfirst.settles
    rcases hend with ⟨hs, ho⟩ | ⟨hk, f, hrf, hf, -⟩
    · obtain rfl : k = k' := by
        by_contra hne
        exact hfirst.before k hpos (by omega) hs
      exact ⟨hcalls, ho⟩
    · obtain rfl : k = k' := by omega
      have hs := hfirst.settles
      rw [hrf] at hs
      exact absurd hs (not_settles hf)
  · rcases hend with ⟨hs, -⟩ | ⟨hk, f, hrf, -, ho⟩
    · have hlt := hnone k ⟨hpos, hs, hbefore⟩
      omega
    · rw [hlimit] at hk
      subst hk
      exact ⟨hcalls, f, hrf, ho⟩

/-- **Attempts follow their policy.** When a run of them has ended without being cancelled, it has made
the calls one after the other, with the pauses that the policy asks for between them. For all outcomes
that agree with those of the calls, the number of the calls, the naps and the end are those of the
policy. And the run does end if each call does, with one outcome each, and the naps elapse that these
outcomes lead to, as those of at most `2^49` seconds do; the slices of a longer one are lost in rounding. -/
theorem attempts_follow_policy {policy : RetryPolicy} (hmax : 0 < policy.maxAttempts) (name : String)
    (draws : Nat → Binary64) (calls : Nat → Process σ) (cancel : Bool) (w : World σ)
    (alarms : Alarms Turn) :
    (∀ {ms : List (Moment σ)} {q : Point σ} {o : Outcome},
      Course cancel (.of (.start w (attempts policy name draws calls) alarms)) ms q →
      q.schedule.outcome? 0 = some o → q.schedule.world.cancelled = false →
      ∃ visits : List (Visit σ), Moment.deedsOf 0 ms = Visit.trace visits ∧
        (∀ i v, visits[i]? = some v → (calls (i + 1)).Performs v.deeds v.outcome) ∧
        ∀ (r : Nat → Outcome) (delays : Nat → Binary64),
          (∀ i v, visits[i]? = some v → v.outcome = r (i + 1)) →
          (∀ n f, 0 < n → n < policy.maxAttempts → r n = .error f → isPassing f.message = true →
            policy.delayAfter n (draws n) = .ok (delays n)) →
          FollowsPolicy policy name r delays visits o) ∧
    (∀ r : Nat → Outcome, (∀ n, (calls n).Timely ∧ ∀ o, (calls n).Ends o → o = r n) →
      (∀ n f delay, 0 < n → n < policy.maxAttempts → r n = .error f → isPassing f.message = true →
        policy.delayAfter n (draws n) = .ok delay → Binary64.Elapses delay) →
      Binary64.IsTime w.now → (∀ a ∈ alarms.all, a.event = .interrupt ∧ Binary64.IsTime a.time) →
      ∃ ms s o, Course cancel (.of (.start w (attempts policy name draws calls) alarms)) ms (.of s) ∧
        s.outcome? 0 = some o ∧ ∃ rounds, ∀ more ≥ rounds,
          Schedule.runFor cancel more (.start w (attempts policy name draws calls) alarms) =
            some (o, (s.round cancel).world)) := by
  constructor
  · intro ms q o h ho hw
    obtain ⟨visits, htrace, htried⟩ := exists_tried (h.goes World.receding_uncancelled ho hw)
    refine ⟨visits, htrace, fun i v hv => ?_, fun r delays hr hdelay => ?_⟩
    · rw [Nat.add_comm]
      exact htried.performs hv
    · exact htried.followsPolicy hmax hr hdelay
  · intro r hcalls hdelay hnow halarms
    have htimely : (attempts policy name draws calls).Timely := by
      refine timely_attemptsFrom (fun n => (hcalls n).1) fun n f delay hpos hlt hends => ?_
      exact hdelay n f delay hpos (by omega) ((hcalls n).2 _ hends).symm
    have htidy : Schedule.Tidy none [] (.start w (attempts policy name draws calls) alarms) := by
      refine Schedule.Tidy.start _ _ fun a ha t => ?_
      rw [(halarms a ha).1]
      simp
    have htimed : Schedule.Timed (.start w (attempts policy name draws calls) alarms) :=
      Schedule.Timed.start hnow htimely fun a ha => (halarms a ha).2
    obtain ⟨rounds, ⟨o, w'⟩, hrun⟩ := Schedule.exists_runFor cancel htidy htimed
    obtain ⟨ms, s, hcourse, ho, rfl⟩ := Schedule.exists_course_to_end hrun
    exact ⟨ms, s, o, hcourse, ho, rounds, fun more hmore => Schedule.runFor_mono hrun hmore⟩

/-- Two attempts with no delay between them. -/
def twiceAtOnce : RetryPolicy := { maxAttempts := 2, initialDelay := 0 }

/-- What calls give of which the first one fails for a passing reason. -/
def failsOnce (n : Nat) : Outcome := if n = 1 then .error (.reported .connection "timeout") else .ok "v"

/-- The run of two attempts at such calls. -/
def triedTwice : Schedule Unit :=
  .start { surroundings := () } (attempts twiceAtOnce "svc" (fun _ => 0) fun n => done (failsOnce n))

theorem delayAfter_twiceAtOnce {n : Nat} (hpos : 0 < n) (hlt : n < twiceAtOnce.maxAttempts) :
    twiceAtOnce.delayAfter n 0 = .ok 0 := by
  have htold : (twiceAtOnce.delayAfter (1 : Nat) 0).toOption = some 0 := by decide +kernel
  obtain rfl : n = 1 := Nat.le_antisymm (Nat.le_of_lt_succ hlt) hpos
  generalize twiceAtOnce.delayAfter (1 : Nat) 0 = delay at htold ⊢
  cases delay with
  | error g => cases htold
  | ok delay => exact congrArg _ (Option.some.inj htold)

theorem firstSettled_failsOnce : FirstSettled failsOnce 2 where
  pos := by decide
  settles := trivial
  before j hpos hlt := by
    obtain rfl : j = 1 := by omega
    have hf : isPassing (Failure.reported .connection "timeout").message = true := by decide +kernel
    exact not_settles hf

/-- **The second attempt** settles it. -/
theorem attempts_failsOnce : ∃ ms s, Course false (.of triedTwice) ms (.of s) ∧
    s.outcome? 0 = some (.ok "v") ∧ (∃ visits : List (Visit Unit),
      Moment.deedsOf 0 ms = Visit.trace visits ∧ visits.length = 2 ∧
        ∀ v, visits[0]? = some v → ∃ f, IsPause twiceAtOnce "svc" 1 f 0 v.after) ∧
    ∃ rounds r, Schedule.runFor false rounds triedTwice = some r := by
  have hmax : 0 < twiceAtOnce.maxAttempts := by decide
  obtain ⟨hdone, hends⟩ := attempts_follow_policy hmax "svc" (fun _ => 0) (fun n => done (failsOnce n))
    false { surroundings := () } {}
  obtain ⟨ms, hcourse⟩ := Course.exists_round false triedTwice
  have hend : ((triedTwice.round false).outcome? 0).map Except.toOption = some (some "v") := by
    decide +kernel
  have hgoing : (triedTwice.round false).world.cancelled = false := by decide +kernel
  obtain ⟨o, ho, hv⟩ := Option.map_eq_some_iff.mp hend
  obtain rfl : o = .ok "v" := by
    cases o with
    | error f => cases hv
    | ok value => exact congrArg _ (Option.some.inj hv)
  generalize triedTwice.round false = s at hcourse hgoing ho
  refine ⟨ms, s, hcourse, ho, ?_, ?_⟩
  · obtain ⟨visits, htrace, hperforms, hfollows⟩ := hdone hcourse ho hgoing
    have h := hfollows failsOnce (fun _ => 0) (fun i v hv => (Goes.eq_of_done (hperforms i v hv)).2)
      fun n f hpos hlt _ _ => delayAfter_twiceAtOnce hpos hlt
    have hlength := (h.settled 2 (Nat.le_refl 2) firstSettled_failsOnce).1
    refine ⟨visits, htrace, hlength, fun v hv => ?_⟩
    have hpause := h.pauses 0 v hv
    rw [if_pos (by omega)] at hpause
    obtain ⟨f, -, hpause⟩ := hpause
    exact ⟨f, hpause⟩
  · have helapses {n : Nat} {delay : Binary64} (hpos : 0 < n) (hlt : n < twiceAtOnce.maxAttempts)
        (hd : twiceAtOnce.delayAfter n 0 = .ok delay) : Binary64.Elapses delay := by
      rw [delayAfter_twiceAtOnce hpos hlt] at hd
      obtain rfl := Except.ok.inj hd
      exact .past (by decide +kernel)
    obtain ⟨_, _, o', -, -, rounds, hrun⟩ := hends failsOnce (fun n => ⟨trivial, fun o ho => ho.symm⟩)
      (fun n f delay hpos hlt _ _ => helapses hpos hlt) ⟨0, Nat.zero_le _, Binary64.zero_eq⟩
      (by simp [Alarms.all])
    exact ⟨rounds, _, hrun rounds (Nat.le_refl _)⟩

end Process

end PipeScript
