import PipeScript.Command.Builtin
import PipeScript.Proofs.Execution.Backoff
import PipeScript.Proofs.Execution.Delays
import PipeScript.Proofs.Execution.Keeping

/-!
# What the built-in commands do to a run

A built-in command works at once: it neither waits nor naps. The delays of the policies by which the
remote ones are retried are short. No command puts anything back into the input that others read from.

All this is so in whatever style the commands are called (`Command.AreBuiltin`).

Main results: a runtime with the built-in commands is timely, whatever random numbers are drawn for its
delays (`Runtime.timely_of_builtins`), and the commands leave the input no longer than it was
(`Command.AreBuiltin.keeps`).
-/

namespace PipeScript

variable {σ α β : Type}

/-! ### What work keeps -/

namespace Work

/-- Does the work keep the property of the state, whether or not it fails? -/
def Keeps (P : σ → Prop) (w : Work σ α) : Prop := ∀ s, P s → P (w.on s).2

namespace Keeps

variable {P : σ → Prop}

theorem of {f : σ → Except Failure α × σ} (h : ∀ s, P s → P (f s).2) : (Work.of f).Keeps P := h

theorem check (f : σ → Except Failure α) : (Work.check f).Keeps P := fun _ h => h

theorem pure (a : α) : (pure a : Work σ α).Keeps P := fun _ h => h

theorem throw (f : Failure) : (throw f : Work σ α).Keeps P := fun _ h => h

theorem bind {w : Work σ α} {k : α → Work σ β} (hw : w.Keeps P) (hk : ∀ a, (k a).Keeps P) :
    (w >>= k).Keeps P := by
  intro s hs
  have hw := hw s hs
  rw [on_bind]
  split
  · rename_i heq
    rw [heq] at hw
    exact hk _ _ hw
  · rename_i heq
    rwa [heq] at hw

/-- Work with a first part that is done under a condition only. -/
theorem ite {c : Prop} [Decidable c] {w : Work σ PUnit} {k : PUnit → Work σ α} (hw : w.Keeps P)
    (hk : ∀ r, (k r).Keeps P) : (if c then w >>= k else k ⟨⟩).Keeps P := by
  split
  · exact hw.bind hk
  · exact hk _

end Keeps

end Work

/-! ### The input -/

namespace Command

open Surroundings

/-- Is the input no longer than that? -/
def Within (n : Nat) (s : Surroundings) : Prop := s.input.length ≤ n

variable {n : Nat}

theorem within_onDisk (w : Work Disk α) : (onDisk w).Keeps (Within n) := fun _ h => h

theorem within_fetch (service : Service) (parameters : List (String × Json)) :
    (fetch service parameters).Keeps (Within n) := fun _ h => h

theorem within_complete (prompt : String) : (complete prompt).Keeps (Within n) := by
  refine .of fun s h => ?_
  split
  · exact h
  · exact h

theorem within_through (cache : Option Cache) (space key : String) (lifetime : Json)
    {fetch : Work Surroundings Json} (h : fetch.Keeps (Within n)) :
    (Cache.through onDisk cache space key lifetime fetch).Keeps (Within n) := by
  unfold Cache.through
  split
  · exact h
  · refine (within_onDisk _).bind fun found => ?_
    split
    · exact .pure _
    · exact h.bind fun value => (within_onDisk _).bind fun _ => .pure _

theorem within_cached (space key : String) (lifetime : Nat) {fetch : Errand String}
    (h : fetch.Keeps (Within n)) : (cached space key lifetime fetch).Keeps (Within n) := by
  have hjson : (Json.string <$> fetch).Keeps (Within n) := by
    rw [← bind_pure_comp]
    exact h.bind fun _ => .pure _
  refine Work.Keeps.bind (fun _ hs => hs) fun s => ?_
  exact (within_through s.cacheNow space key (.int lifetime) hjson).bind fun v => .pure _

/-! ### Commands -/

theorem within_save (path second input : String) : (save path second input).Keeps (Within n) :=
  .ite (.throw _) fun _ => .ite (within_onDisk _) fun _ => (within_onDisk _).bind fun _ => .pure _

theorem within_read (path second input : String) : (read path second input).Keeps (Within n) :=
  .ite (.throw _) fun _ => (within_onDisk _).bind fun _ => .pure _

theorem within_list (path second input : String) : (list path second input).Keeps (Within n) :=
  (within_onDisk _).bind fun _ => .pure _

theorem within_translate (language second input : String) :
    (translate language second input).Keeps (Within n) :=
  .ite (.throw _) fun _ => within_complete _

theorem within_weather (argument second input : String) :
    (weather argument second input).Keeps (Within n) := by
  rw [weather]
  refine .ite (.throw _) fun _ => within_cached _ _ _ (.bind ?_ fun place => .bind ?_ fun _ => .pure _)
  · refine (within_fetch _ _).bind fun v => (Work.Keeps.check _).bind fun places => ?_
    split
    · exact .throw _
    · exact .pure _
  · exact (within_fetch _ _).bind fun v => .check _

theorem within_crypto (argument second input : String) :
    (crypto argument second input).Keeps (Within n) := by
  refine .bind (.check _) fun request => within_cached _ _ _ ?_
  exact (within_fetch _ _).bind fun v => (Work.Keeps.check _).bind fun coins =>
    .ite (.throw _) fun _ => .pure _

/-- What is read from the input is taken from it. -/
theorem within_readInput : readInput.Keeps (Within n) := fun _ _ => Nat.zero_le n

theorem within_errand {w : String → String → String → Errand String}
    (h : ∀ a b input, (w a b input).Keeps (Within n)) (a b input : String) :
    (errand w a b input).Keeps (Within n) :=
  Job.keeps_ofWork (h a b input)

theorem within_set (name text input : String) :
    (set name text input : Job Surroundings).Keeps (Within n) := by
  unfold set
  split
  · exact trivial
  · exact trivial

theorem within_stdin (prompt second input : String) :
    (stdin prompt second input).Keeps (Within n) := by
  show (Job.ofWork readInput).Keeps (Within n)
  exact Job.keeps_ofWork within_readInput

theorem work_builtinLocal (name : String) (work : Collaborator Surroundings) (doc : String) :
    (builtinLocal name work doc).work = work := rfl

theorem work_builtinRemote (name : String) (work : String → String → String → Errand String)
    (doc : String) : (builtinRemote name work doc).work = errand work := rfl

theorem within_builtins : ∀ s ∈ builtins, ∀ a b input, (s.work a b input).Keeps (Within n) := by
  have merge (a b input) : (merge a b input : Job Surroundings).Keeps (Within n) := trivial
  have echo (a b input) : (echo a b input : Job Surroundings).Keeps (Within n) := trivial
  have ask (a b input) : (ask a b input).Keeps (Within n) := within_complete _
  have summarize (a b input) : (summarize a b input).Keeps (Within n) := within_complete _
  have analyze (a b input) : (analyze a b input).Keeps (Within n) := within_complete _
  simp only [builtins, List.forall_mem_cons, List.not_mem_nil, false_implies, implies_true, and_true,
    work_builtinLocal, work_builtinRemote]
  exact ⟨merge, echo, within_set, @within_errand n _ within_save, @within_errand n _ within_read,
    @within_errand n _ within_list, within_stdin, @within_errand n _ within_weather,
    @within_errand n _ within_crypto, @within_errand n _ ask, @within_errand n _ summarize,
    @within_errand n _ analyze, @within_errand n _ within_translate⟩

theorem timely_errand (w : String → String → String → Errand String) (a b input : String) :
    (errand w a b input).Timely :=
  fun _ => trivial

theorem timely_set (name text input : String) : (set name text input : Job Surroundings).Timely := by
  unfold set
  split
  · exact trivial
  · exact trivial

theorem timely_stdin (prompt second input : String) : (stdin prompt second input).Timely := by
  show (Job.ofWork readInput).Timely
  exact fun _ => trivial

/-- The built-in commands work at once. -/
theorem timely_builtins : ∀ s ∈ builtins, ∀ a b input, (s.work a b input).Timely := by
  simp only [builtins, List.forall_mem_cons, List.not_mem_nil, false_implies, implies_true, and_true,
    work_builtinLocal, work_builtinRemote]
  have merge (a b input) : (merge a b input : Job Surroundings).Timely := trivial
  have echo (a b input) : (echo a b input : Job Surroundings).Timely := trivial
  exact ⟨merge, echo, timely_set, timely_errand _, timely_errand _, timely_errand _, timely_stdin,
    timely_errand _, timely_errand _, timely_errand _, timely_errand _, timely_errand _, timely_errand _⟩

/-! ### The registry -/

/-- What is registered is one of the commands that have been added. -/
theorem mem_of_get?_foldl {φ : Type} {specs : List (CommandSpec φ)} {r : Registry φ}
    {s : CommandSpec φ} (h : s ∈ (specs.foldl Registry.add r).specs) : s ∈ r.specs ∨ s ∈ specs := by
  induction specs generalizing r with
  | nil => exact .inl h
  | cons t rest ih =>
    rcases ih h with h | h
    · rcases List.mem_append.mp h with h | h
      · exact .inl (List.mem_of_mem_filter h)
      · exact .inr (List.mem_cons.mpr (.inl (List.mem_singleton.mp h)))
    · exact .inr (List.mem_cons_of_mem _ h)

theorem mem_builtins {action : String} {s : CommandSpec (Collaborator Surroundings)}
    (h : registry.get? action = some s) : s ∈ builtins :=
  (mem_of_get?_foldl (List.mem_of_find?_eq_some h)).resolve_left List.not_mem_nil

/-- Does each command of the registry do the work of a built-in one, and is it retried like that? -/
def AreBuiltin (r : Registry (Collaborator Surroundings)) : Prop :=
  ∀ action s, r.get? action = some s → ∃ t ∈ builtins, s.work = t.work ∧ s.effectivePolicy = t.effectivePolicy

theorem areBuiltin_registry : AreBuiltin registry := fun _ s hs => ⟨s, mem_builtins hs, rfl, rfl⟩

/-- They are the built-in commands in whatever style they are called. -/
theorem areBuiltin_inStyle (style : CallStyle) : AreBuiltin (registry.inStyle style) := by
  intro action s hs
  obtain ⟨t, ht, rfl⟩ := List.mem_map.mp (List.mem_of_find?_eq_some hs)
  exact ⟨t, (mem_of_get?_foldl ht).resolve_left List.not_mem_nil, rfl, rfl⟩

/-- **The built-in commands** leave the input as it is, or take from it. -/
theorem AreBuiltin.keeps {r : Registry (Collaborator Surroundings)} (h : AreBuiltin r) (n : Nat) :
    r.Keeps (Within n) := by
  intro action s hs
  obtain ⟨t, ht, hwork, -⟩ := h action s hs
  rw [hwork]
  exact within_builtins t ht

/-- No built-in command has a policy of its own. -/
theorem policy_builtins : ∀ s ∈ builtins, s.policy = none := by
  simp only [builtins, List.forall_mem_cons, List.not_mem_nil, false_implies, implies_true, and_true]
  exact ⟨rfl, rfl, rfl, rfl, rfl, rfl, rfl, rfl, rfl, rfl, rfl, rfl, rfl⟩

theorem eq_forCommand_of_builtins {s : CommandSpec (Collaborator Surroundings)} (h : s ∈ builtins)
    {policy : RetryPolicy} (hpolicy : s.effectivePolicy = some policy) :
    policy = .forCommand s.name := by
  rw [CommandSpec.effectivePolicy, policy_builtins s h] at hpolicy
  split at hpolicy
  · exact (Option.some.inj hpolicy).symm
  · cases hpolicy

end Command

open Command in
/-- **A runtime with the built-in commands is timely**, whatever shares are drawn for its delays, as long as
the naps of its loops elapse. -/
theorem Runtime.timely_of_builtins {rt : Runtime Surroundings} (hr : AreBuiltin rt.registry)
    (hdraw : rt.draw.AreShares) (hloop : Binary64.Elapses rt.settings.loopDelay) :
    rt.engine.Timely where
  work hs := by
    obtain ⟨t, ht, hwork, -⟩ := hr _ _ hs
    rw [hwork]
    exact timely_builtins t ht
  retry hs hpolicy := by
    intro calls number delay _ _ hdelay
    obtain ⟨t, ht, -, hsame⟩ := hr _ _ hs
    rw [eq_forCommand_of_builtins ht (hsame.symm.trans hpolicy)] at hdelay
    exact RetryPolicy.elapses_of_forCommand (hdraw calls number) hdelay
  loop := hloop

end PipeScript
