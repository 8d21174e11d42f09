import PipeScript.Proofs.Binary64.Arithmetic
import PipeScript.Proofs.Execution.Retries
import PipeScript.Proofs.Validation

/-!
# Backoff

How long a run waits between attempts, and how attempts end at calls that keep failing.

## The model

A delay is the first one times a power of the factor, cut off at the limit and then spread at random. It is
computed with numbers of limited precision, so each step rounds; the numbers of the policy are taken for
finite, and the random number is any `IsShare`. The power is taken first: it has to lie within the range
of numbers although what is left of it after the limit always does. Where it does not, the policy tells
no delay.

## What is assumed

Nothing is assumed of the powers. `RetryPolicy.growth` says of each attempt whether there is one, and the
statements go by that. A nap of more than `2^49` seconds need not get any shorter by its slices, so that a
run is said to come to its end only for policies with shorter ones.

Main results: a policy that is read from data keeps its bounds (`RetryPolicy.keepsBounds_of_ofFields`); a
delay that is told is not negative and at most the longest one (`RetryPolicy.delayAfter_bounded`); calls
that all fail for passing reasons are made until they are exhausted or no delay is told
(`Process.Tried.exhausted_or_undelayed`); together these are the backoff of a policy
(`Process.backoff_of_policy`), and where the power is out of range the attempts end with that
(`Process.steepGrowth_outOfRange`).
-/

namespace PipeScript

open Binary64

/-! ### Random shares -/

namespace Binary64

/-- Is it a number from zero to one, without one itself? -/
def IsShare (x : Binary64) : Prop := le 0 x = true ∧ lt x 1 = true

/-- A share, spread from minus one to one. -/
theorem IsShare.exists_units {draw : Binary64} (h : IsShare draw) :
    ∃ c, HasUnits (draw * 2 - 1) c ∧ c.natAbs ≤ unitsPerOne := by
  obtain ⟨i, hi, hpos, hone⟩ := exists_units_of_between hasUnits_zero hasUnits_one h.1 (le_of_lt h.2)
  have hrange : 2 * unitsPerOne < unitsLimit := by decide +kernel
  -- the double of the share
  have hdouble : (rounded (i * (2 * unitsPerOne : Nat)) unitsPerOne).natAbs ≤ 2 * unitsPerOne := by
    refine natAbs_rounded_le unitsPerOne_pos fits_two ?_
    rw [Int.natAbs_mul, Int.natAbs_natCast, Nat.mul_comm]
    exact Nat.mul_le_mul_left _ (by omega)
  have htwice := hi.mul hasUnits_two (hdouble.trans_lt hrange)
  have htwicePos := rounded_nonneg (Int.mul_nonneg hpos (Int.natCast_nonneg (2 * unitsPerOne))) unitsPerOne
  generalize rounded (i * (2 * unitsPerOne : Nat)) unitsPerOne = j at hdouble htwice htwicePos
  -- less one
  have hless : (rounded (j + -unitsPerOne) 1).natAbs ≤ unitsPerOne := by
    refine natAbs_rounded_le Nat.one_pos fits_unitsPerOne ?_
    omega
  exact ⟨_, htwice.add hasUnits_one.neg (hless.trans_lt (by omega)), hless⟩

end Binary64

/-- Are the numbers shares, whenever they are drawn? -/
def Draws.AreShares (d : Draws) : Prop := ∀ calls attempt, IsShare (d.share calls attempt)

theorem Draws.areShares_constant {x : Binary64} (h : IsShare x) : (constant x).AreShares := fun _ _ => h

/-! ### Delays -/

namespace RetryPolicy

variable {p : RetryPolicy} {steps : Int} {draw g : Binary64}

/-- Does the policy keep the bounds that data is checked for? -/
structure KeepsBounds (p : RetryPolicy) : Prop where
  maxAttempts : 0 < p.maxAttempts
  initialDelay : le 0 p.initialDelay = true
  maxDelay : le 0 p.maxDelay = true
  multiplier : le 1 p.multiplier = true
  jitter : le 0 p.jitter = true
  jitterOne : le p.jitter 1 = true

/-- **A policy that is read** keeps the bounds. -/
theorem keepsBounds_of_ofFields {fields : Json.Fields} (h : ofFields fields = .ok p) : p.KeepsBounds := by
  obtain ⟨_, jitter, h₁, hjitter, rfl⟩ := Checked.ap_eq_ok h
  obtain ⟨_, multiplier, h₂, hmultiplier, rfl⟩ := Checked.ap_eq_ok h₁
  obtain ⟨_, maxDelay, h₃, hmaxDelay, rfl⟩ := Checked.ap_eq_ok h₂
  obtain ⟨_, initialDelay, h₄, hinitialDelay, rfl⟩ := Checked.ap_eq_ok h₃
  obtain ⟨n, hn, rfl⟩ := Checked.map_eq_ok h₄
  have hattempts := Rule.keeps_of_defaulted (by decide) hn (.atLeast 1) (by simp)
  have hpos : (1 : Int) ≤ n := by simpa [Rule.keepsInt] using hattempts
  have hjitter := Rule.keeps_of_defaulted (by decide +kernel) hjitter
  constructor
  · exact Int.pos_iff_toNat_pos.mp hpos
  · exact Rule.keeps_of_defaulted (by decide +kernel) hinitialDelay (.atLeast 0) (by simp)
  · exact Rule.keeps_of_defaulted (by decide +kernel) hmaxDelay (.atLeast 0) (by simp)
  · exact Rule.keeps_of_defaulted (by decide +kernel) hmultiplier (.atLeast 1) (by simp)
  · exact hjitter (.atLeast 0) (by simp)
  · exact hjitter (.atMost 1) (by simp)

/-- Are the numbers of the policy finite? -/
structure HasNumbers (p : RetryPolicy) : Prop where
  initialDelay : p.initialDelay.IsNumber
  maxDelay : p.maxDelay.IsNumber
  multiplier : p.multiplier.IsNumber
  jitter : p.jitter.IsNumber

/-- The greatest delay of the policy. -/
def longestDelay (p : RetryPolicy) : Binary64 := p.maxDelay + p.maxDelay * p.jitter

/-- A power of a positive number that lies within the range is not negative. -/
theorem exists_of_pow? {u : Nat} {n : Int} (hu : u ≠ 0) (h : (finite false u).pow? n = some g) :
    ∃ v, g = finite false v := by
  rw [pow?] at h
  split at h
  · obtain rfl := Option.some.inj h
    exact ⟨unitsPerOne, one_eq⟩
  · simp only at h
    split at h
    · exact ⟨_, (Option.some.inj h).symm⟩
    · cases h

/-- **The growth of a policy** is a finite number that is not negative. -/
theorem exists_of_growth (hp : p.KeepsBounds) (hn : p.HasNumbers) (h : p.growth steps = .ok g) :
    ∃ v, g = finite false v := by
  obtain ⟨s, u, hm, -, -⟩ := hn.multiplier.exists_eq
  have hunits := hasUnits_finite s u
  have hone := hp.multiplier
  rw [hm, hasUnits_one.le_iff hunits] at hone
  have hpos := unitsPerOne_pos
  have hu : u ≠ 0 := by
    rintro rfl
    have hzero := natAbs_signedUnits s 0
    omega
  have hs : s = false := eq_false_of_nonneg hu (by omega)
  rw [growth] at h
  cases hsteps : (ofInt steps).toInt? with
  | none =>
    rw [hsteps] at h
    cases h
  | some n =>
    rw [hsteps, Option.elim_some, hm, hs] at h
    cases hpower : (finite false u).pow? n with
    | none =>
      rw [hpower] at h
      cases h
    | some power =>
      rw [hpower] at h
      obtain rfl := Except.ok.inj h
      exact exists_of_pow? hu hpower

/-- A delay is cut off at the limit. -/
theorem exists_units_capped (hp : p.KeepsBounds) (hn : p.HasNumbers) (h : p.growth steps = .ok g) {m : Int}
    (hm : HasUnits p.maxDelay m) (hfits : Fits m.natAbs) (hlimit : m.natAbs < unitsLimit) :
    ∃ k, HasUnits (Binary64.min (p.initialDelay * g) p.maxDelay) k ∧ 0 ≤ k ∧ k ≤ m ∧
      Fits k.natAbs ∧ k.natAbs < unitsLimit := by
  obtain ⟨v, rfl⟩ := exists_of_growth hp hn h
  obtain ⟨a, ha, hpos, -, -⟩ := hn.initialDelay.exists_units hp.initialDelay
  have hmpos : 0 ≤ m := (hasUnits_zero.le_iff hm).mp hp.maxDelay
  have hv : 0 ≤ signedUnits false v := by simp [signedUnits]
  have hproduct := ha.isRounded_mul (hasUnits_finite false v) hpos hv
  unfold Binary64.min
  by_cases hlt : lt p.maxDelay (p.initialDelay * finite false v) = true
  · rw [if_pos hlt]
    exact ⟨m, hm, hmpos, le_rfl, hfits, hlimit⟩
  · rw [if_neg hlt]
    cases hproduct with
    | within hrange hproduct =>
      rw [hm.lt_iff hproduct] at hlt
      exact ⟨_, hproduct, rounded_nonneg (Int.mul_nonneg hpos hv) _, not_lt.mp hlt,
        fits_natAbs_rounded _ _, hrange⟩
    | beyond _ hproduct =>
      rw [hproduct, hm.lt_infinite] at hlt
      exact absurd rfl hlt

/-- **A delay that is told** is not negative, and not above the longest one. -/
theorem delayAfter_bounded (hp : p.KeepsBounds) (hn : p.HasNumbers) (hdraw : IsShare draw)
    {attempt : Int} (h : p.growth (attempt - 1) = .ok g) :
    ∃ delay, p.delayAfter attempt draw = .ok delay ∧ le 0 delay = true ∧
      le delay p.longestDelay = true := by
  obtain ⟨m, hm, hmpos, hfits, hlimit⟩ := hn.maxDelay.exists_units hp.maxDelay
  obtain ⟨k, hk, hkpos, hkm, hkfits, hklimit⟩ := exists_units_capped hp hn h hm hfits hlimit
  obtain ⟨j, hj, hjpos, hjone⟩ :=
    exists_units_of_between hasUnits_zero hasUnits_one hp.jitter hp.jitterOne
  obtain ⟨c, hc, hcone⟩ := hdraw.exists_units
  have hjabs : j.natAbs ≤ unitsPerOne := by omega
  -- the share of the delay that is added or taken away, and that of the longest delay
  obtain ⟨e, he, heq, hek⟩ := hk.mul_le hj hkfits hklimit hjabs
  obtain ⟨f, hf, hfeq, -⟩ := hm.mul_le hj hfits hlimit hjabs
  have hefits : Fits e.natAbs := by
    rw [heq]
    exact fits_natAbs_rounded _ _
  have hepos : 0 ≤ e := by
    rw [heq]
    exact rounded_nonneg (Int.mul_nonneg hkpos hjpos) _
  have hef : e ≤ f := by
    rw [heq, hfeq]
    exact rounded_mono (Int.mul_nonneg hkpos hjpos) (Int.mul_le_mul_of_nonneg_right hkm hjpos) _
  obtain ⟨r, hr, -, hre⟩ := he.mul_le hc hefits (hek.trans_lt hklimit) hcone
  have hpos : 0 ≤ k + r := by omega
  obtain ⟨hnonneg, hzero⟩ := (hk.isRounded_add hr hpos).nonneg hpos
  refine ⟨_, ?_, hzero, add_le_add hk hr hm hf hpos (by omega)⟩
  rw [delayAfter, h, Except.map]
  exact congrArg Except.ok (if_neg (Bool.eq_false_iff.mp hnonneg))

/-- A delay that is not told is not for want of a growth that is. -/
theorem growth_of_delayAfter {attempt : Int} {f : Failure} (h : p.delayAfter attempt draw = .error f) :
    p.growth (attempt - 1) = .error f := by
  rw [delayAfter] at h
  cases hgrowth : p.growth (attempt - 1) with
  | error g =>
    rw [hgrowth] at h
    exact h
  | ok g =>
    rw [hgrowth] at h
    cases h

theorem delayAfter_of_growth {attempt : Int} {f : Failure} (h : p.growth (attempt - 1) = .error f) :
    p.delayAfter attempt draw = .error f := by
  rw [delayAfter, h]
  rfl

/-- **The naps of a policy elapse** if the longest delay does not go beyond the longest nap. -/
theorem elapses_of_delayAfter (hp : p.KeepsBounds) (hn : p.HasNumbers) (hdraw : IsShare draw)
    (hlong : lt longestNap p.longestDelay = false) {attempt : Int} {delay : Binary64}
    (h : p.delayAfter attempt draw = .ok delay) : Elapses delay := by
  refine elapses_of_le (Bool.eq_false_iff.mpr fun hlt => ?_)
  cases hgrowth : p.growth (attempt - 1) with
  | error f =>
    rw [delayAfter_of_growth hgrowth] at h
    cases h
  | ok g =>
    obtain ⟨delay', htold, -, hle⟩ := delayAfter_bounded hp hn hdraw hgrowth
    obtain rfl := Except.ok.inj (h.symm.trans htold)
    rw [lt_of_lt_of_le hlt hle] at hlong
    cases hlong

theorem forCommand_cases (name : String) : forCommand name = patient ∨
    forCommand name = { standard with maxAttempts := 3, initialDelay := 5 } ∨
    forCommand name = standard := by
  simp only [forCommand]
  split
  · exact .inl rfl
  · split
    · exact .inr (.inl rfl)
    · exact .inr (.inr rfl)

/-- **The usual naps elapse**: those between the attempts of a command without a policy of its own. -/
theorem elapses_of_forCommand {name : String} (hdraw : IsShare draw) {attempt : Int} {delay : Binary64}
    (h : (forCommand name).delayAfter attempt draw = .ok delay) : Elapses delay := by
  have husual : (forCommand name).KeepsBounds ∧ (forCommand name).HasNumbers ∧
      lt longestNap (forCommand name).longestDelay = false := by
    rcases forCommand_cases name with hp | hp | hp <;> rw [hp] <;>
      exact ⟨by constructor <;> decide +kernel, by constructor <;> decide +kernel, by decide +kernel⟩
  obtain ⟨hp, hn, hlong⟩ := husual
  exact elapses_of_delayAfter hp hn hdraw hlong h

end RetryPolicy

/-! ### Attempts -/

namespace Process

variable {σ : Type} {policy : RetryPolicy} {name : String} {draws : Nat → Binary64}
  {calls : Nat → Process σ} {left number : Nat} {visits : List (Visit σ)} {o : Outcome}

/-- **The run of a timely process ends**, which may be interrupted at some times. -/
theorem Timely.exists_end {p : Process σ} (h : p.Timely) (cancel : Bool) {w : World σ} {alarms : Alarms Turn}
    (hnow : IsTime w.now) (halarms : ∀ a ∈ alarms.all, a.event = .interrupt ∧ IsTime a.time) :
    ∃ ms s o, Course cancel (.of (.start w p alarms)) ms (.of s) ∧ s.outcome? 0 = some o ∧
      ∃ rounds, ∀ more ≥ rounds,
        Schedule.runFor cancel more (.start w p alarms) = some (o, (s.round cancel).world) := by
  have htidy : Schedule.Tidy none [] (.start w p alarms) := by
    refine Schedule.Tidy.start _ _ fun a ha t => ?_
    rw [(halarms a ha).1]
    simp
  have htimed : Schedule.Timed (.start w p alarms) :=
    Schedule.Timed.start hnow h fun a ha => (halarms a ha).2
  obtain ⟨rounds, ⟨o, w'⟩, hrun⟩ := Schedule.exists_runFor cancel htidy htimed
  obtain ⟨ms, s, hcourse, ho, rfl⟩ := Schedule.exists_course_to_end hrun
  exact ⟨ms, s, o, hcourse, ho, rounds, fun more hmore => Schedule.runFor_mono hrun hmore⟩

/-- Does each call fail for a passing reason, as long as the run is not cancelled? -/
def FailPassing (calls : Nat → Process σ) : Prop :=
  ∀ n ds o, (calls n).Performs ds o → ∃ f, o = .error f ∧ isPassing f.message = true

/-- **Calls that all fail** for passing reasons are made until the attempts are exhausted, or until no
delay is told. -/
theorem Tried.exhausted_or_undelayed (h : Tried policy name draws calls left number visits o)
    (hfail : FailPassing calls) :
    (visits.length = left + 1 ∧ ∃ v f, visits.getLast? = some v ∧ v.outcome = .error f ∧
      o = .error (.exhausted name (number + left) f)) ∨
    ∃ before g, visits.length = before + 1 ∧ before < left ∧
      policy.delayAfter ↑(number + before) (draws (number + before)) = .error g ∧ o = .error g := by
  induction h with
  | settled h ho =>
    obtain ⟨f, rfl, hf⟩ := hfail _ _ _ h
    exact absurd ho (not_settles hf)
  | exhausted h hf => exact .inl ⟨rfl, _, _, rfl, rfl, rfl⟩
  | undelayed h hf hdelay => exact .inr ⟨0, _, rfl, Nat.succ_pos _, hdelay, rfl⟩
  | @again left number ds after f delay visits o h hf _ _ hrest ih =>
    rcases ih with ⟨hlength, v, g, hlast, hv, ho⟩ | ⟨before, g, hlength, hlt, hdelay, ho⟩
    · refine .inl ⟨by rw [List.length_cons, hlength], v, g, ?_, hv, ?_⟩
      · rw [List.getLast?_cons, hlast]
        rfl
      · rw [ho, Nat.add_assoc, Nat.add_comm 1 left]
    · rw [Nat.add_assoc, Nat.add_comm 1 before] at hdelay
      refine .inr ⟨before + 1, g, ?_, Nat.succ_lt_succ hlt, hdelay, ho⟩
      rw [List.length_cons, hlength]

/-- Is it the failure of the last one of some calls, after so many of them? -/
def Exhausts (name : String) (count : Nat) (visits : List (Visit σ)) (o : Outcome) : Prop :=
  visits.length = count ∧ ∃ v f, visits.getLast? = some v ∧ v.outcome = .error f ∧
    o = .error (.exhausted name count f)

/-- **The backoff of a policy** that is read from data and whose numbers are finite. A delay is told exactly
if the growth is, of which the power has to lie within the range of numbers, and then it is not negative
and at most the longest one. Attempts at calls that all fail for passing reasons are made until they are
exhausted, or until a growth is not told; and they come to an end if the calls do and the longest delay is
not beyond the longest nap. -/
theorem backoff_of_policy {fields : Json.Fields} {p : RetryPolicy} (hread : RetryPolicy.ofFields fields = .ok p)
    (hn : p.HasNumbers) :
    (∀ (attempt : Int) (draw : Binary64), IsShare draw →
      (∀ g, p.growth (attempt - 1) = .ok g → ∃ delay, p.delayAfter attempt draw = .ok delay ∧
        le 0 delay = true ∧ le delay p.longestDelay = true) ∧
      ∀ f, p.growth (attempt - 1) = .error f → p.delayAfter attempt draw = .error f) ∧
    ∀ (name : String) (draws : Nat → Binary64) (calls : Nat → Process σ) (cancel : Bool) (w : World σ)
      (alarms : Alarms Turn), (∀ n, IsShare (draws n)) → FailPassing calls →
      (∀ {ms : List (Moment σ)} {q : Point σ} {o : Outcome},
        Course cancel (.of (.start w (attempts p name draws calls) alarms)) ms q →
        q.schedule.outcome? 0 = some o → q.schedule.world.cancelled = false →
        ∃ visits : List (Visit σ), Moment.deedsOf 0 ms = Visit.trace visits ∧
          (∀ i v, visits[i]? = some v → (calls (i + 1)).Performs v.deeds v.outcome) ∧
          (Exhausts name p.maxAttempts visits o ∨
            ∃ before g, visits.length = before + 1 ∧ before + 1 < p.maxAttempts ∧
              p.growth before = .error g ∧ o = .error g)) ∧
      ((∀ n, (calls n).Timely) → lt longestNap p.longestDelay = false →
        IsTime w.now → (∀ a ∈ alarms.all, a.event = .interrupt ∧ IsTime a.time) →
        ∃ ms s o, Course cancel (.of (.start w (attempts p name draws calls) alarms)) ms (.of s) ∧
          s.outcome? 0 = some o ∧ ∃ rounds, ∀ more ≥ rounds,
            Schedule.runFor cancel more (.start w (attempts p name draws calls) alarms) =
              some (o, (s.round cancel).world)) := by
  have hp := RetryPolicy.keepsBounds_of_ofFields hread
  constructor
  · intro attempt draw hdraw
    exact ⟨fun g hg => RetryPolicy.delayAfter_bounded hp hn hdraw hg,
      fun f hf => RetryPolicy.delayAfter_of_growth hf⟩
  · intro name draws calls cancel w alarms hdraws hfail
    constructor
    · intro ms q o h ho hw
      obtain ⟨visits, htrace, htried⟩ := exists_tried (h.goes World.receding_uncancelled ho hw)
      refine ⟨visits, htrace, fun i v hv => ?_, ?_⟩
      · rw [Nat.add_comm]
        exact htried.performs hv
      · have hpos := hp.maxAttempts
        rcases htried.exhausted_or_undelayed hfail with
          ⟨hlength, v, f, hlast, hv, ho⟩ | ⟨before, g, hlength, hlt, hdelay, ho⟩
        · have hmax : p.maxAttempts - 1 + 1 = p.maxAttempts := Nat.sub_add_cancel hpos
          rw [hmax] at hlength
          rw [Nat.add_comm, hmax] at ho
          exact .inl ⟨hlength, v, f, hlast, hv, ho⟩
        · refine .inr ⟨before, g, hlength, by omega, ?_, ho⟩
          have hgrowth := RetryPolicy.growth_of_delayAfter hdelay
          rwa [Int.natCast_add, Int.natCast_one, add_sub_cancel_left] at hgrowth
    · intro htimely hlong hnow halarms
      have hattempts : (attempts p name draws calls).Timely := by
        refine timely_attemptsFrom htimely fun n f delay _ _ _ _ hdelay => ?_
        exact RetryPolicy.elapses_of_delayAfter hp hn (hdraws n) hlong hdelay
      exact hattempts.exists_end cancel hnow halarms

/-- A failure that is taken for passing. -/
def timedOut : Failure := .reported .connection "timeout"

/-- The run of attempts at calls that time out. -/
def timesOut (p : RetryPolicy) (draws : Nat → Binary64 := fun _ => 0) : Schedule Unit :=
  .start { surroundings := () } (attempts p "svc" draws fun _ => done (.error timedOut))

theorem failPassing_timedOut : FailPassing fun _ => (done (.error timedOut) : Process Unit) := by
  have hf : isPassing timedOut.message = true := by decide +kernel
  intro n ds o h
  exact ⟨timedOut, (Goes.eq_of_done h).2, hf⟩

theorem isShare_zero : IsShare 0 := by
  constructor <;> decide +kernel

/-- Three attempts, with a delay after the second one that is cut off at the limit, as data. -/
def threeAttempts : Json.Fields :=
  [("max_attempts", .int 3), ("initial_delay", .number (.ofRatio false 1 16)),
    ("max_delay", .number (.ofRatio false 3 32))]

/-- The least share after the first attempt, and the middle one after any other. -/
def twoShares (attempt : Nat) : Binary64 := if attempt = 1 then 0 else .ofRatio false 1 2

theorem isShare_twoShares (attempt : Nat) : IsShare (twoShares attempt) := by
  unfold twoShares
  split <;> constructor <;> decide +kernel

/-- **Three calls** are made and the attempts are exhausted, after delays that take one slice of a nap and
two of them. -/
theorem backoff_waitsTwice : ∃ p, RetryPolicy.ofFields threeAttempts = .ok p ∧ p.HasNumbers ∧
    (∃ delay, p.delayAfter 2 (twoShares 2) = .ok delay ∧ le 0 delay = true ∧
      le delay p.longestDelay = true) ∧
    ∃ ms s o, Course false (.of (timesOut p twoShares)) ms (.of s) ∧ s.outcome? 0 = some o ∧
      (ms.filter (·.deed.begins)).length = 3 ∧
      s.world.naps.map Prod.snd = [.ofRatio false 3 32, .ofRatio false 3 64] ∧
      ∃ visits : List (Visit Unit), Moment.deedsOf 0 ms = Visit.trace visits ∧ Exhausts "svc" 3 visits o := by
  obtain ⟨p, hp⟩ : ∃ p : RetryPolicy,
    p = { maxAttempts := 3, initialDelay := .ofRatio false 1 16, maxDelay := .ofRatio false 3 32 } := ⟨_, rfl⟩
  have hread : RetryPolicy.ofFields threeAttempts = .ok p := by
    rw [hp]
    exact eq_ok_of_toOption (by decide +kernel)
  have hn : p.HasNumbers := by
    rw [hp]
    constructor <;> decide +kernel
  have hmax : p.maxAttempts = 3 := by rw [hp]
  have hgrowth : ∀ before : Nat, before < 2 → ∃ g, p.growth before = .ok g := by
    rw [hp]
    intro before hlt
    refine exists_of_isSome_toOption ?_
    revert before
    decide +kernel
  have hcourse := Course.rounds false 8 (timesOut p twoShares)
  have hend : (((timesOut p twoShares).rounds false 8).2.outcome? 0).isSome = true ∧
      ((timesOut p twoShares).rounds false 8).2.world.cancelled = false ∧
      (((timesOut p twoShares).rounds false 8).1.filter (·.deed.begins)).length = 3 ∧
      ((timesOut p twoShares).rounds false 8).2.world.naps.map Prod.snd =
        [.ofRatio false 3 32, .ofRatio false 3 64] := by
    rw [hp]
    decide +kernel
  obtain ⟨hdelays, hattempts⟩ := backoff_of_policy (σ := Unit) hread hn
  obtain ⟨hcourses, -⟩ := hattempts "svc" twoShares (fun _ => done (.error timedOut)) false
    { surroundings := () } {} isShare_twoShares failPassing_timedOut
  generalize ((timesOut p twoShares).rounds false 8).1 = ms at hcourse hend
  generalize ((timesOut p twoShares).rounds false 8).2 = s at hcourse hend
  obtain ⟨hended, hgoing, hslices, hnaps⟩ := hend
  obtain ⟨o, ho⟩ := Option.isSome_iff_exists.mp hended
  obtain ⟨visits, htrace, -, hcase⟩ := hcourses hcourse ho hgoing
  obtain ⟨g, hg⟩ := hgrowth 1 (by decide)
  refine ⟨p, hread, hn, (hdelays 2 _ (isShare_twoShares 2)).1 g hg, ms, s, o, hcourse, ho, hslices, hnaps,
    visits, htrace, ?_⟩
  rcases hcase with hexhausts | ⟨before, g, -, hlt, hnone, -⟩
  · rwa [hmax] at hexhausts
  · obtain ⟨g', hg'⟩ := hgrowth before (by omega)
    rw [hg'] at hnone
    cases hnone

/-- Attempts of which the third delay is out of range, as data: the power is taken before the delay is cut
off at the limit. -/
def steepGrowth : Json.Fields :=
  [("max_attempts", .int 4), ("initial_delay", .int 0), ("multiplier", .int (10 ^ 200))]

/-- A delay is not told, and the attempts end with that after three calls of four. -/
theorem steepGrowth_outOfRange : ∃ p, RetryPolicy.ofFields steepGrowth = .ok p ∧ p.HasNumbers ∧
    p.maxAttempts = 4 ∧ IsShare 0 ∧ FailPassing (fun _ => (done (.error timedOut) : Process Unit)) ∧
    p.delayAfter 3 0 = .error .outOfRange ∧
    (((timesOut p).round false).outcome? 0).map (Except.mapError Failure.message) =
      some (.error Failure.outOfRange.message) ∧
    ((timesOut p).round false).world.naps.length = 2 := by
  obtain ⟨p, hp⟩ : ∃ p : RetryPolicy,
    p = { maxAttempts := 4, initialDelay := 0, multiplier := .ofNat (10 ^ 200) } := ⟨_, rfl⟩
  have hread : RetryPolicy.ofFields steepGrowth = .ok p := by
    rw [hp]
    exact eq_ok_of_toOption (by decide +kernel)
  have hn : p.HasNumbers := by
    rw [hp]
    constructor <;> decide +kernel
  have hsteps : (ofInt (3 - 1)).toInt? = some 2 := by decide +kernel
  have hpower : p.multiplier.pow? 2 = none := by
    rw [hp]
    decide +kernel
  refine ⟨p, hread, hn, by rw [hp], isShare_zero, failPassing_timedOut, ?_, ?_⟩
  · refine RetryPolicy.delayAfter_of_growth ?_
    rw [RetryPolicy.growth, hsteps, Option.elim_some, hpower, Option.elim_none]
  · rw [hp]
    decide +kernel

end Process

end PipeScript
