import PipeScript.Proofs.Command.NotFound
import PipeScript.Proofs.Disk.ReadBack

/-!
# Saved and read again

What has been saved at a path is read at the same path, and at the path that saving gave: whether the path
has dots and repeated slashes, leads up or through directories that had to be made, and whether the file was
there before. All of the text comes back but its carriage returns, which are read as newlines, alone or with
the newline behind them; saving writes them down as they are.

## The model

Both stages are run up to where they end (`Process.advance`); neither of them waits. Between them anything may
happen that leaves the disk as it was.

Main result: `Engine.read_of_saved`.
-/

namespace PipeScript

namespace Command

open Surroundings

variable {path second text saved : String} {s s' : Surroundings}

theorem on_onDisk {α : Type} (w : Work Disk α) (s : Surroundings) :
    (onDisk w).on s = ((w.on s.disk).1, { s with disk := (w.on s.disk).2 }) := rfl

/-- What reading a file comes to. -/
theorem on_read (h : path ≠ "") (second input : String) (s : Surroundings) :
    (read path second input).on s = ((s.disk.readText (.ofString path)).map String.ofList, s) := by
  have hempty : ¬ path.isEmpty = true := by simpa [String.isEmpty_iff] using h
  have hread : read path second input = (do
      let cs ← onDisk (Work.check fun d => d.readText (.ofString path))
      pure (String.ofList cs)) := if_neg hempty
  rw [hread, Work.on_bind, on_onDisk]
  simp only [Work.check, Work.on_of]
  cases s.disk.readText (.ofString path) <;> rfl

/-- Write a text to a file in a directory that is there. -/
def writeAt (p : Path) (text : String) : Errand String := do
  onDisk (.edit fun d => d.writeText p text.toList)
  pure p.toString

theorem writeText_of_writeAt {p : Path} (h : (writeAt p text).on s = (.ok saved, s')) :
    saved = p.toString ∧ s.disk.writeText p text.toList = .ok s'.disk := by
  rw [writeAt, Work.on_bind, on_onDisk, Work.edit, Work.on_of] at h
  cases hwrite : s.disk.writeText p text.toList with
  | error f =>
    rw [hwrite] at h
    cases h
  | ok d =>
    rw [hwrite] at h
    obtain ⟨hsaved, rfl⟩ := Prod.mk.inj h
    exact ⟨(Except.ok.inj hsaved).symm, rfl⟩

/-- **Saving that ends well** has written the text at the path, on the disk with the directories that lead to
it. -/
theorem writeText_of_save (h : (save path second text).on s = (.ok saved, s')) :
    path ≠ "" ∧ saved = (Path.ofString path).toString ∧
      ∃ d, Disk.writeText d (.ofString path) text.toList = .ok s'.disk := by
  unfold save at h
  split at h
  · cases h
  · rename_i hempty
    have hne : path ≠ "" := by simpa [String.isEmpty_iff] using hempty
    let p := Path.ofString path
    have hsave : (if (!p.parent.isHere) = true then do
        onDisk (.of fun d => d.makeDirectories p.parent)
        writeAt p text
      else writeAt p text : Errand String).on s = (.ok saved, s') := h
    suffices hwrite : ∃ s₁, (writeAt p text).on s₁ = (.ok saved, s') by
      obtain ⟨s₁, hwrite⟩ := hwrite
      obtain ⟨hsaved, hdisk⟩ := writeText_of_writeAt hwrite
      exact ⟨hne, hsaved, _, hdisk⟩
    split at hsave
    · rw [Work.on_bind] at hsave
      split at hsave
      · exact ⟨_, hsave⟩
      · cases hsave
    · exact ⟨_, hsave⟩

/-- Is this the work of the built-in command, and is it done once? -/
def IsDoneOnce (action : String) (work : String → String → String → Errand String) : Prop :=
  ∃ s, registry.get? action = some s ∧ s.work = errand work ∧ s.style = .direct ∧ s.effectivePolicy = none

theorem isDoneOnce_save : IsDoneOnce "save" save := ⟨_, rfl, rfl, rfl, by decide +kernel⟩

theorem isDoneOnce_read : IsDoneOnce "read" read := ⟨_, rfl, rfl, rfl, by decide +kernel⟩

end Command

namespace Engine

open Command

variable {e : Engine Surroundings} {action : String} {work : String → String → String → Errand String}

/-- **A command that is done once** comes to what its work comes to. -/
theorem advance_doneOnce (hr : e.registry = Command.registry) (h : IsDoneOnce action work)
    (a b input : String) (w : World Surroundings) :
    (e.runStage (.command action a b) input).advance w =
      (finishCommand action ((work a b input).on w.surroundings).1).advance
        (called action a b input ((work a b input).on w.surroundings).1
          ((work a b input).on w.surroundings).2 w) := by
  obtain ⟨s, hs, hwork, hstyle, hpolicy⟩ := h
  have hcall : (invoke s action a b input).advance (announced action a b w) =
      (called action a b input ((work a b input).on w.surroundings).1
          ((work a b input).on w.surroundings).2 w,
        .ended ((work a b input).on w.surroundings).1) := by
    rw [invoke, hwork, hstyle]
    rfl
  have hwhole : (e.runStage (.command action a b) input).advance w =
      ((invoke s action a b input).andThen (finishCommand action)).advance (announced action a b w) := by
    rw [runStage, runCommand, hr, hs]
    simp only [hpolicy]
    rfl
  rw [hwhole, Process.advance_andThen hcall]

/-- A command that has ended well has left the surroundings that its work left. -/
theorem on_of_ended (hr : e.registry = Command.registry) (h : IsDoneOnce action work)
    {a b input value : String} {w w' : World Surroundings}
    (hended : (e.runStage (.command action a b) input).advance w = (w', .ended (.ok value))) :
    (work a b input).on w.surroundings = (.ok value, w'.surroundings) := by
  rw [advance_doneOnce hr h] at hended
  cases hrun : (work a b input).on w.surroundings with
  | mk outcome after =>
    rw [hrun] at hended
    cases outcome with
    | error f => cases hended
    | ok v =>
      obtain ⟨rfl, hvalue⟩ := Prod.mk.inj hended
      cases hvalue
      rfl

/-- **A text that has been saved** is read with newlines as its line endings, at the path as it was given and
as it was answered. It comes back as it was exactly if it has no carriage return. -/
theorem read_of_saved (hr : e.registry = Command.registry) {path second text saved : String}
    {w w' : World Surroundings}
    (hsaved : (e.runStage (.command "save" path second) text).advance w = (w', .ended (.ok saved))) :
    (∀ place ∈ [path, saved], ∀ other input (now : World Surroundings),
      now.surroundings.disk = w'.surroundings.disk →
      ((e.runStage (.command "read" place other) input).advance now).2 =
        .ended (.ok (String.ofList (Disk.plainLines text.toList)))) ∧
    (String.ofList (Disk.plainLines text.toList) = text ↔ '\r' ∉ text.toList) := by
  obtain ⟨hne, rfl, d, hwrite⟩ := writeText_of_save (on_of_ended hr isDoneOnce_save hsaved)
  have hnormal := Path.isNormal_ofString path
  have hroot : "/" ∉ (Path.ofString path).names := fun h => hnormal.no_slash _ h (by decide)
  have hread := Disk.readText_of_writeText hwrite hroot
  constructor
  · intro place hplace other input now hnow
    have hsame : place ≠ "" ∧ Path.ofString place = Path.ofString path := by
      rcases List.mem_pair.mp hplace with rfl | rfl
      · exact ⟨hne, rfl⟩
      · exact ⟨Path.toString_ne_empty hnormal, Path.ofString_toString hnormal⟩
    rw [advance_doneOnce hr isDoneOnce_read, on_read hsame.1, hsame.2, hnow, hread]
    rfl
  · rw [← Disk.plainLines_eq_self_iff, ← String.toList_inj, String.toList_ofList]

/-! ### Runs -/

/-- What saving on an empty disk comes to. -/
theorem exists_saved (path text : String) {saved : String}
    (h : ((save path "" text).on (barren none)).1 = .ok saved) :
    ∃ w', (builtinEngine.runStage (.command "save" path "") text).advance { surroundings := barren none } =
      (w', .ended (.ok saved)) := by
  rw [advance_doneOnce rfl isDoneOnce_save]
  exact ⟨_, by rw [h]; rfl⟩

/-- **A text of several scripts** at a path with repeated slashes, which leads through a directory that has to
be made and up again. -/
theorem read_of_saved_upwards :
    ∃ w', (builtinEngine.runStage (.command "save" "out//./a/../note" "") "Grüße\n\n¥ 5\t\u2028").advance
        { surroundings := barren none } = (w', .ended (.ok "out/a/../note")) ∧
      ∀ place ∈ ["out//./a/../note", "out/a/../note"],
        ((builtinEngine.runStage (.command "read" place "") "").advance w').2 =
          .ended (.ok "Grüße\n\n¥ 5\t\u2028") := by
  obtain ⟨w', hsaved⟩ := exists_saved "out//./a/../note" "Grüße\n\n¥ 5\t\u2028" rfl
  obtain ⟨hread, hsame⟩ := read_of_saved rfl hsaved
  refine ⟨w', hsaved, fun place hplace => ?_⟩
  rw [hread place hplace "" "" w' rfl, hsame.mpr (by decide)]

/-- **A carriage return** is saved and does not come back. -/
theorem read_of_saved_return :
    ∃ w', (builtinEngine.runStage (.command "save" "note" "") "one\r\ntwo\rthree").advance
        { surroundings := barren none } = (w', .ended (.ok "note")) ∧
      ((builtinEngine.runStage (.command "read" "note" "") "").advance w').2 =
        .ended (.ok "one\ntwo\nthree") := by
  obtain ⟨w', hsaved⟩ := exists_saved "note" "one\r\ntwo\rthree" rfl
  obtain ⟨-, -, d, hwrite⟩ := writeText_of_save (on_of_ended rfl isDoneOnce_save hsaved)
  refine ⟨w', hsaved, ?_⟩
  rw [advance_doneOnce rfl isDoneOnce_read, on_read (by decide),
    Disk.readText_of_writeText hwrite (by decide)]
  rfl

end Engine

end PipeScript
