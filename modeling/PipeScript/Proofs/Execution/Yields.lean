import PipeScript.Execution.Interpreter
import PipeScript.Proofs.Execution.Tasks

/-!
# What processes come to

A process is judged alone, as if its branches were done one by one; the judgement then holds of every
run, however its tasks take turns, whenever its alarms ring, and whether or not branches that nobody
waits for are dropped.

## The model

`Process.Yields` says that each outcome of a process has a property, as long as the worlds that the
process looks at are of some kind, here called calm. Each effect keeps the world calm. Every branch of
a fork has a property of its own, and the process goes on from all that the branches can come to
together (`Joins`).

Main results: a judgement about a process is one about all that it does next (`Yields.advance`);
judgements compose (`Yields.andThen`); and the outcome of a run has the property that its process
yields (`Schedule.outcome_of_runFor`).
-/

namespace PipeScript

variable {σ : Type}

/-- What branches can come to when each has an outcome of some kind: values, or the failure of one. -/
def Joins (posts : List (Outcome → Prop)) : Joined → Prop
  | .ok values => List.Forall₂ (fun post v => post (.ok v)) posts values
  | .error (i, f) => ∃ post, posts[i]? = some post ∧ post (.error f)

namespace Process

/-- Has every outcome of the process the property, in calm worlds? -/
def Yields (calm : World σ → Prop) : Process σ → (Outcome → Prop) → Prop
  | done o, post => post o
  | look next, post => ∀ w, calm w → (next w).Yields calm post
  | act e next, post => (∀ w, calm w → calm (e.apply w)) ∧ next.Yields calm post
  | wait _ next, post => next.Yields calm post
  | nap _ _ next, post => ∀ w, calm w → (next w.cancelled).Yields calm post
  | fork _ count branch next, post => ∃ posts : Fin count → Outcome → Prop,
      (∀ i, (branch i).Yields calm (posts i)) ∧
        ∀ j, Joins (List.ofFn posts) j → (next j).Yields calm post

namespace Yields

variable {calm : World σ → Prop}

theorem mono {p : Process σ} {post post' : Outcome → Prop} (h : p.Yields calm post)
    (hpost : ∀ o, post o → post' o) : p.Yields calm post' := by
  induction p with
  | done o => exact hpost o h
  | look next ih => exact fun w hw => ih w (h w hw)
  | act e next ih => exact ⟨h.1, ih h.2⟩
  | wait seconds next ih => exact ih h
  | nap place r next ih => exact fun w hw => ih _ (h w hw)
  | fork kind count branch next _ ih =>
    obtain ⟨posts, hb, hj⟩ := h
    exact ⟨posts, hb, fun j hjoin => ih j (hj j hjoin)⟩

/-- **Judgements compose.** -/
theorem andThen {p : Process σ} {k : Outcome → Process σ} {post post' : Outcome → Prop}
    (h : p.Yields calm post) (hk : ∀ o, post o → (k o).Yields calm post') :
    (p.andThen k).Yields calm post' := by
  induction p with
  | done o => exact hk o h
  | look next ih => exact fun w hw => ih w (h w hw)
  | act e next ih => exact ⟨h.1, ih h.2⟩
  | wait seconds next ih => exact ih h
  | nap place r next ih => exact fun w hw => ih _ (h w hw)
  | fork kind count branch next _ ih =>
    obtain ⟨posts, hb, hj⟩ := h
    exact ⟨posts, hb, fun j hjoin => ih j (hj j hjoin)⟩

/-- A thread comes to what its work comes to. -/
theorem inThread {p : Process σ} {post : Outcome → Prop} (h : p.Yields calm post) :
    (Process.inThread p).Yields calm post := by
  refine ⟨fun _ => post, fun _ => h, fun j hj => ?_⟩
  cases j with
  | ok values =>
    cases hj with
    | cons hv hrest =>
      cases hrest
      exact hv
  | error e =>
    obtain ⟨i, f⟩ := e
    obtain ⟨post', hpost, hf⟩ := hj
    obtain rfl := List.mem_singleton.mp (List.mem_of_getElem? hpost)
    exact hf

/-- So does work in any style. -/
theorem callIn {p : Process σ} {post : Outcome → Prop} (h : p.Yields calm post) :
    ∀ style, (Engine.callIn style p).Yields calm post
  | .direct => h
  | .threaded => h.inThread
  | .deferred => by
    have hready : (Process.ok "" : Process σ).Yields calm fun _ => True := trivial
    exact hready.inThread.andThen fun _ _ => h

end Yields

end Process

/-- Has every outcome of a pausing task the property? -/
def Pause.Yields (calm : World σ → Prop) (post : Outcome → Prop) : Pause σ → Prop
  | .ended o => post o
  | .yielded rest => rest.Yields calm post
  | .asleep _ rest => rest.Yields calm post
  | .forked kind count branch next => (Process.fork kind count branch next).Yields calm post

/-- **A judgement lasts**: the world stays calm while a process goes on, and what it has left to do
yields the same. -/
theorem Process.Yields.advance {calm : World σ → Prop} {p : Process σ} {post : Outcome → Prop}
    {w : World σ} (h : p.Yields calm post) (hw : calm w) :
    calm (p.advance w).1 ∧ (p.advance w).2.Yields calm post := by
  induction p generalizing w with
  | done o => exact ⟨hw, h⟩
  | look next ih => exact ih w (h w hw) hw
  | act e next ih => exact ih h.2 (h.1 w hw)
  | wait seconds next ih =>
    rw [Process.advance]
    split
    · exact ⟨hw, h⟩
    · exact ⟨hw, h⟩
  | nap place r next ih =>
    have hnext := h w hw
    rw [Process.advance]
    split
    · rename_i hc
      rw [hc] at hnext
      exact ih true hnext hw
    · rename_i hc
      split
      · exact ⟨hw, h⟩
      · rw [Bool.not_eq_true] at hc
        rw [hc] at hnext
        exact ih false hnext hw
  | fork kind count branch next _ ih =>
    rw [Process.advance]
    split
    · rename_i hzero
      subst hzero
      obtain ⟨posts, -, hj⟩ := h
      exact ih (.ok []) (hj _ (by simp [Joins])) hw
    · exact ⟨hw, h⟩

namespace Schedule

variable {calm : World σ → Prop}

/-- Has every outcome of a task in a state the property? A task that waits for branches has gathered
values from the others. -/
def Fits (calm : World σ → Prop) (posts : List (Outcome → Prop)) (s : Schedule σ)
    (post : Outcome → Prop) : TaskState σ → Prop
  | .ready p => p.Yields calm post
  | .asleep p => p.Yields calm post
  | .joining first count awaited _ next =>
      first + count ≤ posts.length ∧
      (∀ j, Joins ((posts.drop first).take count) j → (next j).Yields calm post) ∧
      ∀ b, first ≤ b → b < first + count → b ∉ awaited → ∃ v, s.state? b = some (.ended (.ok v))
  | .ended o => post o
  | .dropped => True

/-- What fits a state fits it in every schedule in which ended tasks are still ended. -/
theorem Fits.mono {s s' : Schedule σ} {posts : List (Outcome → Prop)} {post : Outcome → Prop}
    {st : TaskState σ} (h : s.Fits calm posts post st) (more : List (Outcome → Prop))
    (hended : ∀ b o, s.state? b = some (.ended o) → s'.state? b = some (.ended o)) :
    s'.Fits calm (posts ++ more) post st := by
  cases st with
  | ready p => exact h
  | asleep p => exact h
  | joining first count awaited due next =>
    obtain ⟨hlen, hj, hgathered⟩ := h
    refine ⟨by simp only [List.length_append]; omega, ?_, ?_⟩
    · rw [List.drop_append_of_le_length (by omega),
        List.take_append_of_le_length (by rw [List.length_drop]; omega)]
      exact hj
    · intro b hb hlt hnot
      obtain ⟨v, hv⟩ := hgathered b hb hlt hnot
      exact ⟨v, hended b _ hv⟩
  | ended o => exact h
  | dropped => trivial

theorem Fits.of_ended {s s' : Schedule σ} {posts : List (Outcome → Prop)} {post : Outcome → Prop}
    {st : TaskState σ} (h : s.Fits calm posts post st)
    (hended : ∀ b o, s.state? b = some (.ended o) → s'.state? b = some (.ended o)) :
    s'.Fits calm posts post st := by
  have hmono := h.mono [] hended
  rwa [List.append_nil] at hmono

/-- Do the tasks of a schedule, apart from the exempt one, have outcomes with the properties listed,
and is the world calm, also after it is cancelled if that may happen? -/
structure Sound (calm : World σ → Prop) (posts : List (Outcome → Prop)) (exempt : Option Nat)
    (turns : List Turn) (s : Schedule σ) : Prop where
  world : calm s.world
  length : posts.length = s.tasks.length
  fits : ∀ t st post, some t ≠ exempt → s.state? t = some st → posts[t]? = some post →
    s.Fits calm posts post st
  disturbed : (.interrupt ∈ turns ++ s.queue ∨ ∃ a ∈ s.alarms.all, a.event = .interrupt) →
    ∀ w, calm w → calm { w with cancelled := true }

namespace Sound

variable {posts : List (Outcome → Prop)} {x : Option Nat} {turns : List Turn} {s : Schedule σ}
  {t : Nat}

theorem congr (h : Sound calm posts x turns s) {s' : Schedule σ} {turns' : List Turn}
    (htasks : s'.tasks = s.tasks) (hworld : calm s'.world)
    (hdisturbed : (.interrupt ∈ turns' ++ s'.queue ∨ ∃ a ∈ s'.alarms.all, a.event = .interrupt) →
      .interrupt ∈ turns ++ s.queue ∨ ∃ a ∈ s.alarms.all, a.event = .interrupt) :
    Sound calm posts x turns' s' := by
  have hstate (u : Nat) : s'.state? u = s.state? u := by simp only [state?, htasks]
  refine ⟨hworld, by rw [htasks]; exact h.length, ?_, fun hd => h.disturbed (hdisturbed hd)⟩
  intro u st post hx hst hpost
  rw [hstate] at hst
  exact (h.fits u st post hx hst hpost).of_ended fun b o hb => (hstate b).trans hb

/-- A task may be exempt. -/
theorem exempt (h : Sound calm posts none turns s) (t : Nat) : Sound calm posts (some t) turns s :=
  ⟨h.world, h.length, fun u st post _ hst hpost => h.fits u st post (by simp) hst hpost, h.disturbed⟩

/-- The exempt task, which has not ended, takes a new state that fits it. -/
theorem setState (h : Sound calm posts (some t) turns s) {st : TaskState σ}
    (hnot : ∀ o, s.state? t ≠ some (.ended o))
    (hst : ∀ post, posts[t]? = some post → s.Fits calm posts post st) :
    Sound calm posts none turns (s.setState t st) := by
  have hended {b : Nat} {o : Outcome} (hb : s.state? b = some (.ended o)) :
      (s.setState t st).state? b = some (.ended o) := by
    have hne : b ≠ t := by
      rintro rfl
      exact hnot o hb
    rwa [state?_setState_of_ne s st hne]
  refine ⟨h.world, ?_, ?_, h.disturbed⟩
  · rw [h.length]
    simp [Schedule.setState]
  · intro u st' post _ hst' hpost
    have hfits : s.Fits calm posts post st' := by
      rcases state?_setState_cases hst' with ⟨rfl, rfl⟩ | ⟨hu, hst'⟩
      · exact hst post hpost
      · exact h.fits u st' post (by simpa using hu) hst' hpost
    exact hfits.of_ended fun b o hb => hended hb

theorem enqueue (h : Sound calm posts x turns s) (more : List Turn) (hmore : .interrupt ∉ more) :
    Sound calm posts x turns (s.enqueue more) := by
  refine h.congr rfl h.world ?_
  rintro (hd | hd)
  · rw [Schedule.enqueue, ← List.append_assoc] at hd
    exact .inl ((List.mem_append.mp hd).resolve_right hmore)
  · exact .inr hd

theorem setAlarm (h : Sound calm posts x turns s) (seconds : Binary64) :
    Sound calm posts x turns (s.setAlarm seconds t) := by
  refine h.congr rfl h.world ?_
  rintro (hd | ⟨a, ha, heq⟩)
  · exact .inl hd
  · rcases Alarms.mem_add.mp ha with rfl | ha
    · cases heq
    · exact .inr ⟨a, ha, heq⟩

/-- Branches are added, each with a property that it yields. -/
theorem addBranches (h : Sound calm posts x turns s) (t : Nat) {kind : Fork} {count : Nat}
    {branch : Fin count → Process σ} {more : Fin count → Outcome → Prop}
    (hb : ∀ i, (branch i).Yields calm (more i)) :
    Sound calm (posts ++ List.ofFn more) x turns (s.addBranches t kind count branch) := by
  have hlen := h.length
  refine ⟨h.world, by simp [Schedule.addBranches, hlen], ?_, h.disturbed⟩
  intro u st post hx hst hpost
  rcases lt_or_exists_of_addBranches s t kind count branch hst with hu | ⟨i, rfl⟩
  · rw [state?_addBranches_of_lt s t kind count branch hu] at hst
    rw [List.getElem?_append_left (by omega)] at hpost
    apply (h.fits u st post hx hst hpost).mono _
    intro b o hbo
    rwa [state?_addBranches_of_lt s t kind count branch (lt_length_of_state? hbo)]
  · obtain rfl : st = .ready (branch i) :=
      Option.some.inj (hst.symm.trans (state?_addBranches s t kind count branch i))
    rw [List.getElem?_append_right (by omega), hlen, Nat.add_sub_cancel_left] at hpost
    obtain rfl : more i = post := by simpa using hpost
    exact hb i

/-- Noting why the exempt task pauses gives it a state that fits it. -/
theorem record (h : Sound calm posts (some t) turns s) {st : TaskState σ}
    (hst : s.state? t = some st) (hnot : ∀ o, st ≠ .ended o) {post : Outcome → Prop}
    (hpost : posts[t]? = some post) {pause : Pause σ} (hp : pause.Yields calm post) :
    ∃ more, Sound calm (posts ++ more) none turns (s.record t pause) := by
  have hnot' (o : Outcome) : s.state? t ≠ some (.ended o) := by
    rw [hst]
    exact fun heq => hnot o (Option.some.inj heq)
  have hfit {st' : TaskState σ} (hst' : s.Fits calm posts post st') (post' : Outcome → Prop)
      (hpost' : posts[t]? = some post') : s.Fits calm posts post' st' := by
    rwa [← Option.some.inj (hpost.symm.trans hpost')]
  cases pause with
  | ended o =>
    refine ⟨[], ?_⟩
    rw [List.append_nil]
    have hend : Sound calm posts none turns (s.setState t (.ended o)) := h.setState hnot' (hfit hp)
    simp only [Schedule.record]
    split
    · exact hend.enqueue _ (by simp)
    · exact hend
  | yielded rest =>
    refine ⟨[], ?_⟩
    rw [List.append_nil]
    have hrest : s.Fits calm posts post (.ready rest) := hp
    exact (h.setState hnot' (hfit hrest)).enqueue _ (by simp)
  | asleep seconds rest =>
    refine ⟨[], ?_⟩
    rw [List.append_nil]
    have hrest : s.Fits calm posts post (.asleep rest) := hp
    exact (h.setState hnot' (hfit hrest)).setAlarm seconds
  | forked kind count branch next =>
    obtain ⟨more, hb, hj⟩ := hp
    refine ⟨List.ofFn more, ?_⟩
    have hlt := lt_length_of_state? hst
    rw [record_forked s t kind count branch hlt]
    refine ((h.addBranches t hb).enqueue _ (by simp)).setState ?_ ?_
    · intro o
      exact (state?_addBranches_of_lt s t kind count branch hlt).symm ▸ hnot' o
    · intro post' hpost'
      rw [List.getElem?_append_left (by rw [h.length]; exact hlt)] at hpost'
      obtain rfl := Option.some.inj (hpost.symm.trans hpost')
      refine ⟨by simp [h.length], ?_, ?_⟩
      · rw [← h.length, List.drop_left, List.take_of_length_le (by simp)]
        exact hj
      · intro b hle hlt hnotin
        refine absurd (List.mem_map.mpr ⟨b - s.tasks.length, ?_, ?_⟩) hnotin
        · exact List.mem_range.mpr (by omega)
        · omega

theorem proceed (h : Sound calm posts (some t) turns s) {st : TaskState σ}
    (hst : s.state? t = some st) (hnot : ∀ o, st ≠ .ended o) {post : Outcome → Prop}
    (hpost : posts[t]? = some post) {p : Process σ} (hp : p.Yields calm post) :
    ∃ more, Sound calm (posts ++ more) none turns (s.proceed t p) := by
  obtain ⟨hw, hpause⟩ := hp.advance h.world
  have hworld : Sound calm posts (some t) turns { s with world := (p.advance s.world).1 } :=
    h.congr rfl hw id
  exact hworld.record hst hnot hpost hpause

/-- A task that has not ended may be dropped. -/
theorem drop (h : Sound calm posts x turns s) {b : Nat} (ho : s.outcome? b = none) :
    Sound calm posts x turns (s.drop b) := by
  have hended {c : Nat} {o : Outcome} (hc : s.state? c = some (.ended o)) :
      (s.drop b).state? c = some (.ended o) := by
    have hne : c ≠ b := by
      rintro rfl
      exact outcome?_eq_none_iff.mp ho o hc
    rwa [state?_drop_of_ne s hne]
  refine ⟨by simpa using h.world, by simpa using h.length, ?_, ?_⟩
  · intro u st post hx hst hpost
    have hfits : s.Fits calm posts post st := by
      by_cases hu : u = b
      · rw [state?_drop, if_pos hu] at hst
        obtain ⟨_, _, rfl⟩ := Option.map_eq_some_iff.mp hst
        trivial
      · rw [state?_drop_of_ne s hu] at hst
        exact h.fits u st post hx hst hpost
    exact hfits.of_ended fun c o hc => hended hc
  · rintro (hd | hd)
    · refine h.disturbed (.inl ?_)
      rcases List.mem_append.mp hd with hd | hd
      · exact List.mem_append_left _ hd
      · exact List.mem_append_right _ ((mem_queue_drop hd).resolve_right (by simp))
    · exact h.disturbed (.inr (by simpa using hd))

theorem abandon (h : Sound calm posts x turns s) (cancel : Bool) {tasks : List Nat}
    (ho : ∀ b ∈ tasks, s.outcome? b = none) : Sound calm posts x turns (s.abandon cancel tasks) := by
  have hall : Sound calm posts x turns (s.abandon cancel tasks) ∧
      ∀ b ∈ tasks, (s.abandon cancel tasks).outcome? b = none := by
    refine abandon_induction (P := fun s' => Sound calm posts x turns s' ∧
      ∀ b ∈ tasks, s'.outcome? b = none) cancel ⟨h, ho⟩ ?_
    intro s' hs' b hmem
    refine ⟨hs'.1.drop (hs'.2 b hmem), fun c hc => outcome?_eq_none_iff.mpr fun o heq => ?_⟩
    exact outcome?_eq_none_iff.mp (hs'.2 c hc) o (state?_of_drop heq (by simp))
  exact hall.1

theorem release (h : Sound calm posts x turns s) (t : Nat) :
    Sound calm posts x turns (s.release t) := by
  refine ⟨h.world, by simp [Schedule.release, h.length], ?_, ?_⟩
  · intro u st post hx hst hpost
    rw [state?_release] at hst
    exact (h.fits u st post hx hst hpost).of_ended fun b o hb => (state?_release s t b).trans hb
  · rintro (hd | ⟨a, ha, heq⟩)
    · exact h.disturbed (.inl hd)
    · obtain ⟨b, hb, rfl⟩ := Alarms.mem_callOff.mp ha
      refine h.disturbed (.inr ⟨b, hb, ?_⟩)
      split at heq <;> exact heq

/-- The values of branches that have all ended well. -/
theorem joins_valuesOf (h : Sound calm posts none turns s) {first : Nat} :
    ∀ {count : Nat}, first + count ≤ posts.length →
      (∀ b, first ≤ b → b < first + count → ∃ v, s.state? b = some (.ended (.ok v))) →
      List.Forall₂ (fun post v => post (.ok v)) ((posts.drop first).take count)
        (s.valuesOf (List.range' first count))
  | 0, _, _ => by simp [valuesOf]
  | count + 1, hlen, hended => by
    obtain ⟨v, hv⟩ := hended first (by omega) (by omega)
    have hfits := h.fits first _ posts[first] (by simp) hv (List.getElem?_eq_getElem (by omega))
    have hvalues : s.valuesOf (List.range' first (count + 1)) =
        v :: s.valuesOf (List.range' (first + 1) count) := by
      simp [valuesOf, List.range'_succ, outcome?_eq_some_iff.mpr hv]
    rw [hvalues, List.drop_eq_getElem_cons (by omega), List.take_succ_cons]
    exact .cons hfits (joins_valuesOf h (by omega) fun b hb hlt => hended b (by omega) (by omega))

/-- **The branches of a block join** whichever of them ends first. -/
theorem gather (h : Sound calm posts none turns s) (cancel : Bool) {first count : Nat}
    {awaited : List Nat} {due : Bool} {next : Joined → Process σ}
    (hst : s.state? t = some (.joining first count awaited due next))
    (hb : ∀ b ∈ awaited, s.IsBranch t first count b) :
    ∃ more, Sound calm (posts ++ more) none turns (s.gather cancel t first count awaited next) := by
  have hlt : t < posts.length := by
    rw [h.length]
    exact lt_length_of_state? hst
  have hpost : posts[t]? = some posts[t] := List.getElem?_eq_getElem hlt
  obtain ⟨hlen, hj, hgathered⟩ := h.fits t _ _ (by simp) hst hpost
  rcases gather_cases s cancel t first count awaited next with
    ⟨b, f, hmem, hbst, heq⟩ | ⟨hall, heq⟩ | ⟨pending, hne, hpending, hrest, heq⟩
  · rw [heq]
    have hnot : t ∉ awaited.filter fun t => (s.outcome? t).isNone :=
      fun hc => Nat.lt_irrefl t (hb t (List.mem_of_mem_filter hc)).above
    have hst' := (state?_abandon_of_not_mem s cancel hnot).trans hst
    have hnone : ∀ c ∈ awaited.filter fun t => (s.outcome? t).isNone, s.outcome? c = none := by
      intro c hc
      simpa using (List.mem_filter.mp hc).2
    refine ((h.exempt t).abandon cancel hnone).proceed hst' (by simp) hpost (hj _ ?_)
    -- the failure is one that the branch can have
    have hbr := hb b hmem
    have hblt : b < posts.length := by have := hbr.lt_end; omega
    have hfits := h.fits b _ posts[b] (by simp) hbst (List.getElem?_eq_getElem hblt)
    refine ⟨posts[b], ?_, hfits⟩
    have hfirst := hbr.first_le
    have hend := hbr.lt_end
    rw [List.getElem?_take_of_lt (by omega), List.getElem?_drop, Nat.add_sub_cancel' hfirst]
    exact List.getElem?_eq_getElem hblt
  · rw [heq]
    refine (h.exempt t).proceed hst (by simp) hpost (hj _ ?_)
    rw [← List.range'_eq_map_range]
    apply h.joins_valuesOf hlen
    intro b hle hlt
    by_cases hmem : b ∈ awaited
    · exact hall b hmem
    · exact hgathered b hle hlt hmem
  · rw [heq]
    refine ⟨[], ?_⟩
    rw [List.append_nil]
    apply (h.exempt t).setState (by simp [hst])
    intro post hpost'
    obtain rfl := Option.some.inj (hpost.symm.trans hpost')
    refine ⟨hlen, hj, fun b hle hlt hnot => ?_⟩
    by_cases hmem : b ∈ awaited
    · exact hrest b hmem hnot
    · exact hgathered b hle hlt hmem

/-- **Taking a turn** keeps what is known about the outcomes. -/
theorem take (cancel : Bool) {u : Turn} (htidy : Tidy none (u :: turns) s)
    (h : Sound calm posts none (u :: turns) s) :
    ∃ more, Sound calm (posts ++ more) none turns (s.take cancel u) := by
  have hpass : Sound calm posts none turns s :=
    h.congr rfl h.world (Or.imp_left (List.mem_cons_of_mem u))
  have hpost {t : Nat} {st : TaskState σ} (hst : s.state? t = some st) :
      ∃ post, posts[t]? = some post ∧ s.Fits calm posts post st := by
    have hlt : t < posts.length := by
      rw [h.length]
      exact lt_length_of_state? hst
    exact ⟨posts[t], List.getElem?_eq_getElem hlt,
      h.fits t st _ (by simp) hst (List.getElem?_eq_getElem hlt)⟩
  have hsame {s' : Schedule σ} (hs' : Sound calm posts none turns s') :
      ∃ more, Sound calm (posts ++ more) none turns s' :=
    ⟨[], by rwa [List.append_nil]⟩
  -- a task that stays in a state of the same meaning
  have hset {t : Nat} {st st' : TaskState σ} (hst : s.state? t = some st)
      (hnot : ∀ o, st ≠ .ended o) (hfits : ∀ post, s.Fits calm posts post st →
        s.Fits calm posts post st') : Sound calm posts none turns (s.setState t st') := by
    obtain ⟨post, hp, hfit⟩ := hpost hst
    refine (hpass.exempt t).setState (fun o heq => ?_) fun post' hp' => ?_
    · exact hnot o (Option.some.inj (hst.symm.trans heq))
    · obtain rfl := Option.some.inj (hp.symm.trans hp')
      exact hfits post hfit
  cases u with
  | resume t =>
    simp only [Schedule.take]
    split
    · rename_i p hst
      obtain ⟨post, hp, hfit⟩ := hpost hst
      exact (hpass.exempt t).proceed hst (by simp) hp hfit
    · exact hsame hpass
  | wake t =>
    simp only [Schedule.take]
    split
    · rename_i p hst
      have hready : Sound calm posts none turns (s.setState t (.ready p)) :=
        hset hst (by simp) fun post hfit => hfit
      exact hsame (hready.enqueue _ (by simp))
    · exact hsame hpass
  | announce b =>
    simp only [Schedule.take]
    split
    · rename_i t _
      split
      · rename_i first count awaited next hst
        split
        · have hdue : Sound calm posts none turns
              (s.setState t (.joining first count awaited true next)) :=
            hset hst (by simp) fun post hfit => hfit
          exact hsame (hdue.enqueue _ (by simp))
        · exact hsame hpass
      · exact hsame hpass
    · exact hsame hpass
  | gather t =>
    simp only [Schedule.take]
    split
    · rename_i hst
      exact hpass.gather cancel hst (htidy.branches t _ _ _ _ _ (by simp) hst).1
    · exact hsame (hpass.release t)
    · exact hsame hpass
  | release t => exact hsame (hpass.release t)
  | interrupt =>
    have hcalm := h.disturbed (.inl (List.mem_append_left _ (List.mem_cons_self ..))) _ h.world
    exact hsame (hpass.congr rfl hcalm id)

theorem takeAll (htidy : Tidy none [] s) (h : Sound calm posts none [] s) (cancel : Bool) :
    ∃ more, Sound calm (posts ++ more) none [] (s.takeAll cancel) := by
  have htidy' : Tidy none s.queue { s with queue := [] } := htidy.congr rfl rfl fun u => by simp
  have h' : Sound calm (posts ++ []) none s.queue { s with queue := [] } := by
    rw [List.append_nil]
    exact h.congr rfl h.world (Or.imp_left fun hu => by simpa using hu)
  have hall := foldl_take_induction (P := fun turns s' => Tidy none turns s' ∧
      ∃ more, Sound calm (posts ++ more) none turns s') cancel
    (fun u turns s' hs' => by
      obtain ⟨htidy, more, hmore⟩ := hs'
      obtain ⟨more', hmore'⟩ := hmore.take cancel htidy
      exact ⟨htidy.take cancel, more ++ more', by rwa [← List.append_assoc]⟩)
    ⟨htidy', [], h'⟩
  exact hall.2

theorem ring (h : Sound calm posts none [] s) : Sound calm posts none [] s.ring := by
  obtain ⟨rung, hevents, hperm⟩ := s.alarms.exists_due (isToCome s.world.now)
  refine h.congr rfl h.world ?_
  have hqueue : s.ring.queue = s.queue ++ rung.map (·.event) := by
    rw [← hevents]
    rfl
  simp only [hqueue, List.nil_append]
  rintro (hd | ⟨a, ha, heq⟩)
  · rcases List.mem_append.mp hd with hd | hd
    · exact .inl hd
    · obtain ⟨a, ha, heq⟩ := List.mem_map.mp hd
      exact .inr ⟨a, hperm.mem_iff.mpr (List.mem_append_left _ ha), heq⟩
  · exact .inr ⟨a, hperm.mem_iff.mpr (List.mem_append_right _ ha), heq⟩

theorem round (htidy : Tidy none [] s) (h : Sound calm posts none [] s) (cancel : Bool) :
    ∃ more, Sound calm (posts ++ more) none [] (s.round cancel) :=
  h.ring.takeAll htidy.ring cancel

theorem advance (htime : ∀ w now, calm w → calm { w with now }) (h : Sound calm posts none [] s)
    {s' : Schedule σ} (heq : s.advance = some s') : Sound calm posts none [] s' := by
  obtain ⟨gone, -, hperm⟩ := s.alarms.exists_dropCalledOff
  have hd : Sound calm posts none [] { s with alarms := s.alarms.dropCalledOff } := by
    refine h.congr rfl h.world (Or.imp_right ?_)
    rintro ⟨a, ha, ha'⟩
    exact ⟨a, hperm.mem_iff.mpr (List.mem_append_right _ ha), ha'⟩
  unfold Schedule.advance at heq
  simp only at heq
  split at heq
  · split at heq
    · cases heq
    · cases heq
    · obtain rfl := Option.some.inj heq
      unfold atTime
      split
      · exact hd.congr rfl (htime _ _ h.world) id
      · exact hd
  · obtain rfl := Option.some.inj heq
    exact hd

/-- A run starts with one task. -/
theorem start {w : World σ} (hw : calm w) {p : Process σ} {post : Outcome → Prop}
    (hp : p.Yields calm post) {alarms : Alarms Turn}
    (hcancel : (∃ a ∈ alarms.all, a.event = .interrupt) →
      ∀ w, calm w → calm { w with cancelled := true }) :
    Sound calm [post] none [] (start w p alarms) := by
  refine ⟨hw, rfl, ?_, ?_⟩
  · intro t st post' _ hst hpost
    have hlt := lt_length_of_state? hst
    obtain rfl : t = 0 := by simpa [Schedule.start] using hlt
    obtain rfl : post = post' := by simpa using hpost
    obtain rfl : TaskState.ready p = st := Option.some.inj hst
    exact hp
  · rintro (hd | hd)
    · simp [Schedule.start] at hd
    · exact hcancel hd

end Sound

/-- A run from a tidy schedule ends with an outcome of its main task. -/
theorem outcome_of_sound (htime : ∀ w now, calm w → calm { w with now }) {cancel : Bool}
    {rounds : Nat} {s : Schedule σ} {post : Outcome → Prop} {posts : List (Outcome → Prop)}
    (htidy : Tidy none [] s) (h : Sound calm (post :: posts) none [] s) {o : Outcome} {w : World σ}
    (hrun : runFor cancel rounds s = some (o, w)) : post o ∧ calm w := by
  induction rounds generalizing s posts with
  | zero => simp [runFor] at hrun
  | succ rounds ih =>
    rw [runFor] at hrun
    split at hrun
    · rename_i o' ho
      obtain ⟨rfl, rfl⟩ : o' = o ∧ (s.round cancel).world = w := by simpa using hrun
      obtain ⟨more, hround⟩ := h.round htidy cancel
      have hst := outcome?_eq_some_iff.mp ho
      exact ⟨h.fits 0 _ post (by simp) hst rfl, hround.world⟩
    · split at hrun
      · rename_i s' hs'
        obtain ⟨more, hround⟩ := (h.advance htime hs').round (htidy.advance hs') cancel
        exact ih ((htidy.advance hs').round cancel) hround hrun
      · cases hrun

/-- **The outcome of a run is one that its process yields**, however long the run takes and in
whatever order its tasks go on; and the world is calm in the end. The alarms that are set beforehand
may cancel the run where calm worlds stay calm then. -/
theorem outcome_of_runFor (htime : ∀ w now, calm w → calm { w with now }) {w : World σ} (hw : calm w)
    {p : Process σ} {post : Outcome → Prop} (hp : p.Yields calm post) {alarms : Alarms Turn}
    (hbells : ∀ a ∈ alarms.all, ∀ t, a.event ≠ .release t)
    (hcancel : (∃ a ∈ alarms.all, a.event = .interrupt) →
      ∀ w, calm w → calm { w with cancelled := true })
    {cancel : Bool} {rounds : Nat} {o : Outcome} {w' : World σ}
    (hrun : runFor cancel rounds (start w p alarms) = some (o, w')) : post o ∧ calm w' :=
  outcome_of_sound htime (Tidy.start w p hbells) (Sound.start hw hp hcancel) hrun

end Schedule

end PipeScript
