import Awk.Proofs.Outcome
import Awk.Proofs.StreamTable
import Awk.World.Close

/-!
# Closing streams

Closing always comes to an end, whatever goes wrong with a stream being reported.  It takes the name off both tables of
streams, and leaves all other streams and the standard input as they are (`World.run_close`).
-/

namespace Awk.World

/-- The streams and the standard input are as they were. -/
structure SameStreams (start w : World) : Prop where
  outputs : w.outputs = start.outputs
  inputs : w.inputs = start.inputs
  input : w.input = start.input

/-- The action leaves the streams alone. -/
abbrev Leaves {α : Type} (start : World) (allowed : Fault → Prop) (act : Action α) : Prop :=
  Yields start.SameStreams allowed (fun _ => True) act

variable {start : World} {allowed : Fault → Prop}

theorem leaves_modify {f : World → World} (h : ∀ w : World, w.SameStreams (f w)) :
    Leaves start allowed (modify f : Action PUnit) :=
  Yields.modify fun w hw =>
    ⟨(h w).outputs.trans hw.outputs, (h w).inputs.trans hw.inputs, (h w).input.trans hw.input⟩

theorem leaves_warn (message : Text) : Leaves start allowed (warn message) := by
  refine Yields.get.andThen fun w => ?_
  split
  · exact leaves_modify fun _ => ⟨rfl, rfl, rfl⟩
  · exact Yields.pure trivial

/-- A command that gets its input from a pipe leaves the standard input to the others. -/
theorem leaves_runShown (piped command : Text) : Leaves start (fun _ => True) (runShown (some piped) command) := by
  have hcheck : Leaves start (fun _ => True) (checkName command) := by
    unfold checkName
    split
    · exact Yields.throw trivial
    · exact Yields.pure trivial
  have hrun : Leaves start (fun _ => True) (runCommand (some piped) command) := by
    refine hcheck.andThen fun _ => ?_
    refine Yields.get.bind fun w hw => ?_
    exact (Yields.set ⟨hw.outputs, hw.inputs, hw.input⟩).andThen fun _ => Yields.pure trivial
  exact hrun.andThen fun _ => Yields.andThen (leaves_modify fun _ => ⟨rfl, rfl, rfl⟩) fun _ => Yields.pure trivial

theorem leaves_flushOutput (o : Output) : Leaves start (fun _ => True) (flushOutput o) := by
  unfold flushOutput
  split
  · exact Yields.andThen (leaves_modify fun _ => ⟨rfl, rfl, rfl⟩) fun _ => Yields.pure trivial
  · exact Yields.andThen (leaves_modify fun _ => ⟨rfl, rfl, rfl⟩) fun _ => Yields.pure trivial
  · exact Yields.andThen (leaves_modify fun _ => ⟨rfl, rfl, rfl⟩) fun _ => Yields.pure trivial
  · exact Yields.pure trivial
  · split
    · exact Yields.pure trivial
    · exact Yields.throw trivial
  · exact Yields.pure trivial
  · exact Yields.pure trivial

theorem leaves_closeOutput (o : Output) : Leaves start (fun _ => True) (closeOutput o) := by
  unfold closeOutput
  split
  · exact (leaves_runShown _ _).andThen fun _ => Yields.pure trivial
  · exact (leaves_flushOutput o).andThen fun _ => Yields.pure trivial

/-- What cannot fail gives a result. -/
theorem Leaves.run {α : Type} {act : Action α} {w : World} (h : Leaves w (fun _ => False) act) :
    ∃ a w', act.run w = (.ok a, w') ∧ w.SameStreams w' := by
  obtain ⟨hsame, hresult⟩ := h w ⟨rfl, rfl, rfl⟩
  generalize act.run w = outcome at hsame hresult
  obtain ⟨f | a, w'⟩ := outcome
  · exact absurd hresult id
  · exact ⟨a, w', rfl, hsame⟩

/-- Whatever goes wrong with an output is reported. -/
theorem run_closeOutputNamed (name : Text) (w : World) : ∃ status w',
    (closeOutputNamed name).run w = (.ok status, w') ∧
      SameStreams { w with outputs := dropStream name w.outputs } w' := by
  unfold closeOutputNamed
  rw [Action.run_bind, Action.run_get]
  dsimp only
  split
  · rename_i hnone
    refine ⟨none, w, rfl, ?_, rfl, rfl⟩
    exact (dropStream_of_lookup hnone).symm
  · rename_i o ho
    rw [Action.run_bind, Action.run_modify]
    refine Leaves.run ?_
    refine (leaves_closeOutput o).observed.andThen fun outcome => ?_
    cases outcome with
    | ok status => exact Yields.pure trivial
    | error fault => exact (leaves_warn _).andThen fun _ => Yields.pure trivial

theorem run_closeInputNamed (name : Text) (w : World) : ∃ status,
    (closeInputNamed name).run w = (.ok status, { w with inputs := dropStream name w.inputs }) := by
  unfold closeInputNamed
  rw [Action.run_bind, Action.run_get]
  dsimp only
  split
  · rename_i hnone
    rw [dropStream_of_lookup hnone]
    exact ⟨none, rfl⟩
  · exact ⟨_, rfl⟩

/-- Closing takes a name off the streams. -/
theorem run_close (name : Text) (w : World) : ∃ status w', (close name).run w = (.ok status, w') ∧
    w'.outputs = dropStream name w.outputs ∧ w'.inputs = dropStream name w.inputs ∧ w'.input = w.input := by
  obtain ⟨output, w₁, houtput, hsame⟩ := run_closeOutputNamed name w
  obtain ⟨input, hinput⟩ := run_closeInputNamed name w₁
  unfold close
  rw [Action.run_bind, houtput]
  dsimp only
  rw [Action.run_bind, hinput]
  have hanswer {act : Action Int}
      (hact : Leaves { w₁ with inputs := dropStream name w₁.inputs } (fun _ => False) act) :
      ∃ status w', act.run { w₁ with inputs := dropStream name w₁.inputs } = (.ok status, w') ∧
        w'.outputs = dropStream name w.outputs ∧ w'.inputs = dropStream name w.inputs ∧ w'.input = w.input := by
    obtain ⟨status, w', hrun, hkept⟩ := hact.run
    refine ⟨status, w', hrun, hkept.outputs.trans hsame.outputs, ?_, hkept.input.trans hsame.input⟩
    exact hkept.inputs.trans (congrArg (dropStream name) hsame.inputs)
  refine hanswer ?_
  split
  · exact Yields.pure trivial
  · exact (leaves_warn _).andThen fun _ => Yields.pure trivial

end Awk.World
