import PipeScript.CommandLine
import PipeScript.Proofs.Command.Builtin
import PipeScript.Proofs.Execution.Failures

/-!
# Sessions line by line

A session reads lines until the input ends or the user quits, and answers each of them: help, the error
of a text that is no program, or what the run of a program has come to, be it a value or a failure. No
line ends the session in another way.

## The model

`Answers` says what the console is after a line has been answered, and `Session` what it is when all
lines have been. Both speak of runs of any length, while the program gives a run up when its patience is
at an end.

Main results: the failures of runs are of a closed family, and a session answers every line
(`failures_closed_lines_answered`). It is assembled from what one line does (`answerLine_cases`,
`exists_answers`) and what all lines do (`runLines_session`, `exists_session`).
-/

namespace PipeScript

namespace CommandLine

variable {rt : Runtime Surroundings} {c d : Console} {line : Line}

/-! ### Sessions -/

/-- Does a run of the program in these surroundings come to the outcome and leave that world, after
however many rounds? -/
def Runs (rt : Runtime Surroundings) (p : Program) (s : Surroundings) (o : Outcome)
    (w : World Surroundings) : Prop :=
  ∃ rounds, Schedule.runFor rt.settings.cancelSiblings rounds (rt.schedule {} s p none {}) = some (o, w)

/-- Does a run of the program in these surroundings go on for ever? -/
def RunsOn (rt : Runtime Surroundings) (p : Program) (s : Surroundings) : Prop :=
  ∀ rounds, Schedule.runFor rt.settings.cancelSiblings rounds (rt.schedule {} s p none {}) = none

/-- Is a run of the program in these surroundings given up? -/
def GivenUp (rt : Runtime Surroundings) (p : Program) (s : Surroundings) : Prop :=
  rt.execute {} s p = none

/-- How a line is answered: the console before and after. -/
inductive Answers (rt : Runtime Surroundings) : Line → Console → Console → Prop
  | blank (c : Console) : Answers rt .blank c c
  | help (c : Console) : Answers rt .help c (c.write (lineHelp ++ "\n"))
  /-- A text that is no program is answered with its error. -/
  | unreadable {text : String} {e : ParseError} (c : Console) (h : Program.parse text = .error e) :
      Answers rt (.script text) c (c.write ("Parse error: " ++ e.message ++ "\n"))
  | value {text : String} {p : Program} {c : Console} {v : String} {w : World Surroundings}
      (h : Program.parse text = .ok p) (hrun : Runs rt p c.surroundings (.ok v) w) :
      Answers rt (.script text) c ((c.after w).write ("\n" ++ v ++ "\n\n"))
  /-- A run that fails is answered with its failure. -/
  | failure {text : String} {p : Program} {c : Console} {f : Failure} {w : World Surroundings}
      (h : Program.parse text = .ok p) (hrun : Runs rt p c.surroundings (.error f) w) :
      Answers rt (.script text) c ((c.after w).write ("Execution error: " ++ f.message ++ "\n"))

/-- A session: every line is answered, up to the end of the input or until the user quits. -/
inductive Session (rt : Runtime Surroundings) : Console → Console → Prop
  | finished {c : Console} (h : readLine (c.write prompt) = none) :
      Session rt c ((c.write prompt).write "\n")
  | quit {c d : Console} (h : readLine (c.write prompt) = some (.quit, d)) :
      Session rt c (d.write "Goodbye!\n")
  | answered {c d d' e : Console} {line : Line} (h : readLine (c.write prompt) = some (line, d))
      (ha : Answers rt line d d') (hs : Session rt d' e) : Session rt c e

/-- A session that stops at a program of the given kind, after all lines before have been answered. -/
inductive StopsAt (rt : Runtime Surroundings) (kind : Program → Surroundings → Prop) : Console → Prop
  | here {c d : Console} {text : String} {p : Program}
      (h : readLine (c.write prompt) = some (.script text, d)) (hp : Program.parse text = .ok p)
      (hkind : kind p d.surroundings) : StopsAt rt kind c
  | later {c d d' : Console} {line : Line} (h : readLine (c.write prompt) = some (line, d))
      (ha : Answers rt line d d') (hs : StopsAt rt kind d') : StopsAt rt kind c

/-! ### One line -/

/-- A line takes something of the input. -/
theorem length_of_readLine (h : readLine c = some (line, d)) :
    d.surroundings.input.length < c.surroundings.input.length := by
  unfold readLine at h
  simp only at h
  split at h
  · cases h
  · rename_i hinput
    obtain ⟨-, rfl⟩ := Prod.mk.inj (Option.some.inj h)
    have hpos := List.length_pos_iff.mpr (mt List.isEmpty_iff.mpr hinput)
    have hdrop : (c.surroundings.input.toList.dropWhile (· ≠ '\n')).length ≤
        c.surroundings.input.toList.length := (List.dropWhile_sublist _).length_le
    rw [← String.length_toList, String.toList_ofList, ← String.length_toList]
    show (nextLine c.surroundings.input.toList).2.length < _
    rw [nextLine, List.length_drop]
    exact Nat.lt_of_le_of_lt (Nat.sub_le_sub_right hdrop 1) (Nat.sub_lt hpos Nat.one_pos)

/-- A run takes from the input at most. -/
theorem length_of_runs (hr : Command.AreBuiltin rt.registry) {p : Program} {s : Surroundings}
    {o : Outcome} {w : World Surroundings} (h : Runs rt p s o w) :
    w.surroundings.input.length ≤ s.input.length := by
  obtain ⟨rounds, hrun⟩ := h
  exact Runtime.keeps_of_runFor (hr.keeps s.input.length) (Nat.le_refl _) hrun

theorem length_of_answers (hr : Command.AreBuiltin rt.registry) (h : Answers rt line c d) :
    d.surroundings.input.length ≤ c.surroundings.input.length := by
  cases h with
  | blank => exact Nat.le_refl _
  | help => exact Nat.le_refl _
  | unreadable _ h => exact Nat.le_refl _
  | value h hrun => exact length_of_runs hr hrun
  | failure h hrun => exact length_of_runs hr hrun

/-- A run fails with what the runtime reports. -/
theorem outcomeText_of_runs {p : Program} {s : Surroundings} {f : Failure} {w : World Surroundings}
    (h : Runs rt p s (.error f) w) :
    outcomeText (.error f) = .ok ("Execution error: " ++ f.message ++ "\n") := by
  obtain ⟨rounds, hrun⟩ := h
  have hcomes := rt.comes_of_runFor (by simp [Alarms.all]) hrun
  have hown : f.isOwn = true ∧ ∀ e, f ≠ .parse e := by
    have hcauses : rt.engine.FailsFrom fun _ _ => True := fun _ _ _ _ _ _ => trivial
    rcases Engine.raises_of_blockComes hcauses p.statements hcomes with hc | hraises
    · cases f with
      | cancelled => exact ⟨rfl, fun e he => Failure.noConfusion he⟩
      | _ => cases hc
    · exact (raised_of_blockRaises p.statements hraises).isOwn
  cases f with
  | parse e => exact absurd rfl (hown.2 e)
  | _ => simp only [outcomeText, hown.1, if_true]

/-- **What one line does.** The program quits when it is asked to; else the line is answered, unless its
run is given up. -/
theorem answerLine_cases (rt : Runtime Surroundings) (line : Line) (c : Console) :
    (line = .quit ∧ answerLine rt line c = (some (.code 0), c.write "Goodbye!\n")) ∨
      (∃ d, answerLine rt line c = (none, d) ∧ Answers rt line c d) ∨
      ∃ text p d, line = .script text ∧ Program.parse text = .ok p ∧
        answerLine rt line c = (some (.code 1), d) ∧ GivenUp rt p c.surroundings := by
  cases line with
  | blank => exact .inr (.inl ⟨c, rfl, .blank c⟩)
  | quit => exact .inl ⟨rfl, rfl⟩
  | help => exact .inr (.inl ⟨_, rfl, .help c⟩)
  | script text =>
    refine .inr ?_
    rw [answerLine, runLine, lineOutcome]
    cases hparse : Program.parse text with
    | error e => exact .inl ⟨_, rfl, .unreadable c hparse⟩
    | ok p =>
      simp only [execute]
      cases hrun : rt.execute {} c.surroundings p with
      | none => exact .inr ⟨text, p, c, rfl, hparse, rfl, hrun⟩
      | some r =>
        obtain ⟨o, w⟩ := r
        cases o with
        | ok v => exact .inl ⟨_, rfl, .value hparse ⟨_, hrun⟩⟩
        | error f =>
          have hruns : Runs rt p c.surroundings (.error f) w := ⟨_, hrun⟩
          simp only [outcomeText_of_runs hruns]
          exact .inl ⟨_, rfl, .failure hparse hruns⟩

/-- A line other than the one that quits has an answer, unless its run goes on for ever. -/
theorem exists_answers (rt : Runtime Surroundings) {line : Line} (hline : line ≠ .quit) (c : Console) :
    (∃ d, Answers rt line c d) ∨
      ∃ text p, line = .script text ∧ Program.parse text = .ok p ∧ RunsOn rt p c.surroundings := by
  cases line with
  | blank => exact .inl ⟨_, .blank c⟩
  | quit => exact absurd rfl hline
  | help => exact .inl ⟨_, .help c⟩
  | script text =>
    cases hparse : Program.parse text with
    | error e => exact .inl ⟨_, .unreadable c hparse⟩
    | ok p =>
      by_cases hrun : ∃ o w, Runs rt p c.surroundings o w
      · obtain ⟨o, w, hrun⟩ := hrun
        cases o with
        | ok v => exact .inl ⟨_, .value hparse hrun⟩
        | error f => exact .inl ⟨_, .failure hparse hrun⟩
      · have hon : RunsOn rt p c.surroundings := fun rounds =>
          Option.eq_none_iff_forall_not_mem.mpr fun r hr => hrun ⟨r.1, r.2, rounds, hr⟩
        exact .inr ⟨text, p, rfl, hparse, hon⟩

/-! ### All lines -/

/-- **What all lines do**: the program ends well and has answered all of them, unless it stops at one
whose run is given up. -/
theorem runLines_session (hr : Command.AreBuiltin rt.registry) :
    ∀ {n : Nat} {c : Console}, c.surroundings.input.length < n →
      (∃ d, runLines rt n c = (.code 0, d) ∧ Session rt c d) ∨
        ∃ d, runLines rt n c = (.code 1, d) ∧ StopsAt rt (GivenUp rt) c
  | 0, c, hn => absurd hn (Nat.not_lt_zero _)
  | n + 1, c, hn => by
    rw [runLines]
    cases hread : readLine (c.write prompt) with
    | none => exact .inl ⟨_, rfl, .finished hread⟩
    | some r =>
      obtain ⟨line, d⟩ := r
      rcases answerLine_cases rt line d with
        ⟨rfl, hquit⟩ | ⟨d', hnone, ha⟩ | ⟨text, p, d', rfl, hparse, hend, hgiven⟩
      · simp only [hquit]
        exact .inl ⟨_, rfl, .quit hread⟩
      · simp only [hnone]
        have hshort := length_of_readLine hread
        have hrest := length_of_answers hr ha
        have hn' : d'.surroundings.input.length < n :=
          Nat.lt_of_le_of_lt hrest (Nat.lt_of_lt_of_le hshort (Nat.lt_succ_iff.mp hn))
        rcases runLines_session hr hn' with ⟨e, he, hs⟩ | ⟨e, he, hs⟩
        · exact .inl ⟨e, he, .answered hread ha hs⟩
        · exact .inr ⟨e, he, .later hread ha hs⟩
      · simp only [hend]
        exact .inr ⟨d', rfl, .here hread hparse hgiven⟩

/-- A session comes to its end, unless it stops at a line whose run goes on for ever. -/
theorem exists_session (hr : Command.AreBuiltin rt.registry) (c : Console) :
    (∃ d, Session rt c d) ∨ StopsAt rt (RunsOn rt) c := by
  induction hn : c.surroundings.input.length using Nat.strong_induction_on generalizing c with
  | h n ih =>
    subst hn
    cases hread : readLine (c.write prompt) with
    | none => exact .inl ⟨_, .finished hread⟩
    | some r =>
      obtain ⟨line, d⟩ := r
      by_cases hline : line = .quit
      · subst hline
        exact .inl ⟨_, .quit hread⟩
      · rcases exists_answers rt hline d with ⟨d', ha⟩ | ⟨text, p, rfl, hparse, hon⟩
        · have hlt := Nat.lt_of_le_of_lt (length_of_answers hr ha) (length_of_readLine hread)
          rcases ih _ hlt d' rfl with ⟨e, hs⟩ | hs
          · exact .inl ⟨e, .answered hread ha hs⟩
          · exact .inr (.later hread ha hs)
        · exact .inr (.here hread hparse hon)

/-- No run goes on for ever if the naps of loops elapse. -/
theorem not_runsOn (hr : Command.AreBuiltin rt.registry) (hdraw : rt.draw.AreShares)
    (hloop : Binary64.Elapses rt.settings.loopDelay) (p : Program) (s : Surroundings) :
    ¬ RunsOn rt p s := by
  intro hon
  obtain ⟨rounds, r, hrun⟩ := Runtime.exists_runFor (Runtime.timely_of_builtins hr hdraw hloop) {} s p
  have hsome := hrun rounds (Nat.le_refl _)
  rw [hon rounds] at hsome
  cases hsome

theorem not_stopsAt {kind : Program → Surroundings → Prop} (hkind : ∀ p s, ¬ kind p s) :
    ¬ StopsAt rt kind c := by
  intro h
  induction h with
  | here h hp hk => exact hkind _ _ hk
  | later h ha hs ih => exact ih

/-! ### The program -/

/-- A runtime that has been opened goes by the built-in commands, called in the style of the console, and
draws the console's numbers. -/
theorem registry_of_openRuntime {c₀ : Console} (h : openRuntime c = (.ok rt, c₀)) :
    rt.registry = Command.registry.inStyle c.style ∧ rt.draw = c.draw := by
  unfold openRuntime at h
  simp only at h
  split at h
  · cases hd : c.onDisk (.of fun d => d.makeDirectories c.surroundings.settings.cacheDirectory) with
    | mk r c' =>
      rw [hd] at h
      cases r with
      | error f => cases h
      | ok u =>
        cases h
        exact ⟨rfl, rfl⟩
  · cases h
    exact ⟨rfl, rfl⟩

/-- **The failures of runs are of a closed family.** Whatever the commands do and whenever it is
cancelled, a run that gives no value has been cancelled or fails with what its program raises, and a
loop records only what its body raises, and no cancellation.

**Every line is answered.** With a runtime that has been opened, the program answers all lines up to the
end of the input or to the one that quits, and ends well, unless it gives a run up for which its patience
does not last. Runs of any length given, only one that goes on for ever keeps a session from its end, and
there is none if the naps of loops elapse, whatever shares are drawn for the delays of retries. -/
theorem failures_closed_lines_answered :
    (∀ {σ : Type} (rt : Runtime σ) (c : Context) (s : σ) (p : Program) (linger : Option Binary64)
        (alarms : Alarms Turn), (∀ a ∈ alarms.all, ∀ t, a.event ≠ .release t) →
      ∀ rounds f w, Schedule.runFor rt.settings.cancelSiblings rounds
          (rt.schedule c s p linger alarms) = some (.error f, w) →
        f.isCancelled = true ∨ BlockRaises (fun _ _ => True) p.statements f) ∧
    (∀ {σ : Type} (rt : Runtime σ) (strategy input : String) (body : List (List Stage)),
      (rt.engine.runStage (.forEach strategy body) input).Comes fun o =>
        ∃ items results, Loop.Records (rt.engine.BlockComes body) items results ∧
          (o = .ok (Loop.report results) ∨ ∃ place, o = .error (.cancelled place results)) ∧
          ∀ r ∈ results, ∀ f, r.outcome = .error f →
            f.isCancelled = false ∧ BlockRaises (fun _ _ => True) body f) ∧
    ∀ c c₀ rt, openRuntime c = (.ok rt, c₀) →
      ((∃ d, repl c = (.code 0, d) ∧ Session rt (c₀.write banner) d) ∨
        ∃ d, repl c = (.code 1, d) ∧ StopsAt rt (GivenUp rt) (c₀.write banner)) ∧
      ((∃ d, Session rt (c₀.write banner) d) ∨ StopsAt rt (RunsOn rt) (c₀.write banner)) ∧
      (c.draw.AreShares → Binary64.Elapses rt.settings.loopDelay →
        ∃ d, Session rt (c₀.write banner) d) := by
  refine ⟨?_, ?_, ?_⟩
  · intro σ rt c s p linger alarms hbells rounds f w hrun
    exact Engine.raises_of_blockComes (fun _ _ _ _ _ _ => trivial) p.statements
      (rt.comes_of_runFor hbells hrun)
  · intro σ rt strategy input body
    refine (rt.engine.comes_runStage (.forEach strategy body) input).mono fun o ho => ?_
    obtain ⟨items, results, hrecords, hreport⟩ := Engine.records_of_stageComes ho
    refine ⟨items, results, hrecords, hreport, fun r hr f hf => ?_⟩
    exact Engine.raises_of_records (fun _ _ _ _ _ _ => trivial) hrecords hr hf
  · intro c c₀ rt hopen
    obtain ⟨hregistry, hdraw⟩ := registry_of_openRuntime hopen
    have hr : Command.AreBuiltin rt.registry := hregistry ▸ Command.areBuiltin_inStyle c.style
    refine ⟨?_, exists_session hr _, fun hshares hloop => ?_⟩
    · rw [repl, hopen]
      exact runLines_session hr (Nat.lt_succ_self _)
    · exact (exists_session hr _).resolve_right (not_stopsAt (not_runsOn hr (hdraw ▸ hshares) hloop))

/-- A console at which an unknown command, a text that is no program, and a loop are typed. Commands are
called in threads. -/
def typed : Console where
  surroundings := {
    settings := { cacheDirectory := .ofString "", cacheEnabled := false }
    clock := 0
    input := "nothing\n->\necho \"a,b\" -> foreach \"csv\" \x7b echo \x7d\n" }
  style := .threaded

/-- The runtime that is opened for it. -/
def typedRuntime : Runtime Surroundings where
  settings := typed.surroundings.settings
  registry := Command.registry.inStyle .threaded

/-- The only attempt of a command fails as its program says, and what is typed is answered. -/
theorem tryTimeout_raises_and_typed_answered :
    (∃ f w, Runtime.tried Runtime.failing = some (.error f, w) ∧
      (f.isCancelled = true ∨ BlockRaises (fun _ _ => True) Runtime.tryTimeout.statements f)) ∧
    openRuntime typed = (.ok typedRuntime, typed) ∧
    typed.draw.AreShares ∧ Binary64.Elapses typedRuntime.settings.loopDelay ∧
    ∃ d, Session typedRuntime (typed.write banner) d := by
  obtain ⟨hraises, -, hlines⟩ := failures_closed_lines_answered
  have hfails : Runtime.failsSo (fun _ => true) (Runtime.tried Runtime.failing) = true := by
    decide +kernel
  obtain ⟨f, w, hrun, -⟩ := Runtime.exists_of_failsSo hfails
  have hopen : openRuntime typed = (.ok typedRuntime, typed) := rfl
  have hshares : typed.draw.AreShares := Draws.areShares_constant ⟨by decide +kernel, by decide +kernel⟩
  have hloop : Binary64.Elapses typedRuntime.settings.loopDelay :=
    Binary64.elapses_of_le (by decide +kernel)
  have hraised := hraises (Runtime.hasty Runtime.failing) {} () Runtime.tryTimeout none {}
    (by simp [Alarms.all]) _ f w hrun
  exact ⟨⟨f, w, hrun, hraised⟩, hopen, hshares, hloop, (hlines _ _ _ hopen).2.2 hshares hloop⟩

end CommandLine

end PipeScript
