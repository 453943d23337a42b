import Awk.Proofs.Calm

/-!
# What survives in the world

Opening, reading, writing and closing streams and running commands change the world in a few ways only.  A property that
survives each of these is kept by all operations (`World.Robust`), whether they give a result or fail, and no operation
fails in a way that says that the program should not have been accepted.  So what has been reported stays reported
(`robust_follows`), and a run stays where it is (`robust_samePlace`).
-/

namespace Awk.World

/-- The property survives an action, and only some faults are allowed. -/
abbrev Survives {α : Type} (inv : World → Prop) (allowed : Fault → Prop) (act : Action α) : Prop :=
  Yields inv allowed (fun _ => True) act

theorem Survives.pure {α : Type} {inv : World → Prop} {allowed : Fault → Prop} {a : α} :
    Survives inv allowed (Pure.pure a : Action α) :=
  Yields.pure trivial

/-- The property survives whatever is done in the world without taking from the standard input; and faults that say
nothing about the program's form are allowed. -/
structure Robust (allowed : Fault → Prop) (inv : World → Prop) : Prop where
  ordinary : ∀ {f : Fault}, f.IsOrdinary → allowed f
  errors : ∀ {w : World} {t : Text}, inv w → inv { w with errors := w.errors ++ t }
  standard : ∀ {w : World} {shown held : Text}, inv w → inv { w with shown := shown, held := held }
  outputs : ∀ {w : World} {outputs : List (Text × Output)}, inv w → inv { w with outputs := outputs }
  inputs : ∀ {w : World} {inputs : List (Text × Input)}, inv w → inv { w with inputs := inputs }
  files : ∀ {w : World} {files : Files}, files.home = w.files.home → inv w → inv { w with files := files }
  piped : ∀ {w : World} {input command : Text}, inv w → inv (w.commandRun (some input) command).2

/-- The property survives commands that share the standard input. -/
abbrev Shares (inv : World → Prop) : Prop := ∀ {w : World} {command : Text}, inv w → inv (w.commandRun none command).2

/-- The property survives reading from the standard input, and sharing it with commands, as well. -/
structure InputRobust (allowed : Fault → Prop) (inv : World → Prop) : Prop extends Robust allowed inv where
  shared : Shares inv
  kept : ∀ {w : World} {i : Input} {before : Source} {reader : Reader}, inv w → inv (keepSource i before reader w).2

end Awk.World

namespace Awk.Files

variable (files : Files) (name : Text)

theorem home_seek : (files.seek name).home = files.home := by
  unfold seek
  split <;> rfl

theorem home_toRead : (files.toRead name).2.home = files.home := by
  unfold toRead
  split
  · exact files.home_seek name
  · rfl
  · rfl
  · rfl
  · exact files.home_seek name

theorem home_toWrite (anew : Bool) : (files.toWrite anew name).2.home = files.home := by
  unfold toWrite
  split
  · exact files.home_seek name
  · rfl
  · rfl
  · cases anew <;> rfl
  · cases anew
    · exact files.home_seek name
    · rfl

end Awk.Files

namespace Awk.World

namespace Robust

variable {allowed : Fault → Prop} {inv : World → Prop} (h : Robust allowed inv)

include h

/-! ### Reports and commands -/

theorem report (message : Text) : Survives inv allowed (report message) := by
  refine Yields.modify fun w hw => ?_
  have hreported := h.errors (t := "awk: ".toList ++ message ++ ['\n']) hw
  simpa only [List.append_assoc] using hreported

theorem warnAlways (message : Text) : Survives inv allowed (warnAlways message) := h.report _

theorem warn (message : Text) : Survives inv allowed (warn message) := by
  refine Yields.get.andThen fun w => ?_
  split
  · exact h.warnAlways message
  · exact Survives.pure

theorem checkName (name : Text) : Survives inv allowed (checkName name) := by
  unfold World.checkName
  split
  · exact Yields.throw (h.ordinary not_false)
  · exact Survives.pure

theorem runCommand {piped : Option Text} (command : Text)
    (hrun : ∀ {w : World}, inv w → inv (w.commandRun piped command).2) :
    Survives inv allowed (runCommand piped command) := by
  refine (h.checkName command).andThen fun _ => ?_
  refine Yields.get.bind fun w hw => ?_
  exact (Yields.set (hrun hw)).andThen fun _ => Survives.pure

theorem runShown {piped : Option Text} (command : Text)
    (hrun : ∀ {w : World}, inv w → inv (w.commandRun piped command).2) :
    Survives inv allowed (runShown piped command) := by
  refine (h.runCommand command hrun).andThen fun _ => ?_
  exact (Yields.modify fun w hw => h.standard (by exact hw)).andThen fun _ => Survives.pure

/-! ### Output -/

theorem flushStandard : Survives inv allowed flushStandard := Yields.modify fun _ hw => h.standard hw

theorem putOutput (name : Text) (o : Output) : Survives inv allowed (putOutput name o) :=
  Yields.modify fun _ hw => h.outputs hw

theorem flushOutput (o : Output) : Survives inv allowed (flushOutput o) := by
  unfold World.flushOutput
  split
  · exact h.flushStandard.andThen fun _ => Survives.pure
  · exact (Yields.modify fun _ hw => h.files (by rfl) hw).andThen fun _ => Survives.pure
  · exact (Yields.modify fun _ hw => h.files (by rfl) hw).andThen fun _ => Survives.pure
  · exact Survives.pure
  · split
    · exact Survives.pure
    · exact Yields.throw (h.ordinary not_false)
  · exact Survives.pure
  · exact Survives.pure

theorem flushNamed (name : Text) (o : Output) : Survives inv allowed (flushNamed name o) := by
  refine (h.flushOutput o).observed.andThen fun outcome => ?_
  cases outcome with
  | ok o => exact h.putOutput name o
  | error fault => exact h.warn _

theorem flushEach (streams : List (Text × Output)) : Survives inv allowed (flushEach streams) := by
  induction streams with
  | nil => exact Survives.pure
  | cons stream rest ih => exact (h.flushNamed stream.1 stream.2).andThen fun _ => ih

theorem flushAll : Survives inv allowed flushAll := by
  refine h.flushStandard.andThen fun _ => ?_
  exact Yields.get.andThen fun w => h.flushEach w.outputs

theorem openSink (anew : Bool) (name : Text) : Survives inv allowed (openSink anew name) := by
  refine (h.checkName name).andThen fun _ => ?_
  refine Yields.get.bind fun w hw => ?_
  dsimp only
  refine (Yields.set (h.files (w.files.home_toWrite name anew) hw)).andThen fun _ => ?_
  split
  · exact Yields.throw (h.ordinary not_false)
  all_goals exact Survives.pure

theorem openOutput (op : RedirectOp) (name : Text) : Survives inv allowed (openOutput op name) := by
  have hfile : Survives inv allowed (do
      let sink ← if isStandardOutput name then pure .standard
        else if name = standardErrorName then pure .errors
        else World.openSink (op = .write) name
      World.putOutput name ⟨sink, []⟩) := by
    dsimp only
    split
    · exact h.putOutput _ _
    · split
      · exact h.putOutput _ _
      · exact (h.openSink _ name).andThen fun _ => h.putOutput _ _
  refine Yields.get.andThen fun w => ?_
  dsimp only
  split
  · exact Survives.pure
  · cases op with
    | pipe => exact h.flushAll.andThen fun _ => (h.checkName name).andThen fun _ => h.putOutput _ _
    | write => exact hfile
    | append => exact hfile

theorem print (t : Text) : Survives inv allowed (print t) := Yields.modify fun _ hw => h.standard hw

theorem printTo (name t : Text) : Survives inv allowed (printTo name t) := by
  refine Yields.get.andThen fun w => ?_
  split
  · exact Survives.pure
  · split
    · exact h.print t
    · exact Yields.modify fun _ hw => h.errors hw
    · exact h.putOutput _ _

theorem redirect (op : RedirectOp) (name t : Text) : Survives inv allowed (redirect op name t) :=
  (h.openOutput op name).andThen fun _ => h.printTo name t

theorem closeOutput (o : Output) : Survives inv allowed (closeOutput o) := by
  unfold World.closeOutput
  split
  · exact (h.runShown _ h.piped).andThen fun _ => Survives.pure
  · exact (h.flushOutput o).andThen fun _ => Survives.pure

/-! ### Input -/

theorem openFile (name : Text) : Survives inv allowed (openFile name) := by
  unfold World.openFile
  dsimp only
  split
  · exact Survives.pure
  · refine (h.checkName name).andThen fun _ => ?_
    refine Yields.get.bind fun w hw => ?_
    refine (Yields.set (h.files (w.files.home_toRead name) hw)).andThen fun _ => ?_
    split
    · exact Yields.throw (h.ordinary not_false)
    all_goals exact Survives.pure

/-! ### Closing -/

theorem closeOutputNamed (name : Text) : Survives inv allowed (closeOutputNamed name) := by
  refine Yields.get.andThen fun w => ?_
  split
  · exact Survives.pure
  · refine (Yields.modify fun _ hw => h.outputs hw).andThen fun _ => ?_
    refine (h.closeOutput _).observed.andThen fun outcome => ?_
    cases outcome with
    | ok status => exact Survives.pure
    | error fault => exact (h.warn _).andThen fun _ => Survives.pure

theorem closeInputNamed (name : Text) : Survives inv allowed (closeInputNamed name) := by
  refine Yields.get.andThen fun w => ?_
  split
  · exact Survives.pure
  · exact (Yields.modify fun _ hw => h.inputs hw).andThen fun _ => Survives.pure

theorem close (name : Text) : Survives inv allowed (close name) := by
  refine (h.closeOutputNamed name).andThen fun output => ?_
  refine (h.closeInputNamed name).andThen fun input => ?_
  split
  · exact Survives.pure
  · exact (h.warn _).andThen fun _ => Survives.pure

theorem flush (name : Text) : Survives inv allowed (flush name) := by
  refine Yields.get.andThen fun w => ?_
  split
  · exact (h.warn _).andThen fun _ => Survives.pure
  · exact (h.flushOutput _).andThen fun _ => (h.putOutput _ _).andThen fun _ => Survives.pure

/-! ### Commands that share the standard input -/

theorem system (hshared : Shares inv) (command : Text) : Survives inv allowed (system command) :=
  h.flushAll.andThen fun _ => (h.runShown _ hshared).andThen fun _ => Survives.pure

end Robust

namespace InputRobust

variable {allowed : Fault → Prop} {inv : World → Prop} (h : InputRobust allowed inv)

include h

theorem openCommand (command : Text) : Survives inv allowed (openCommand command) := by
  refine h.flushAll.andThen fun _ => ?_
  exact (h.runCommand _ h.shared).andThen fun _ => Survives.pure

theorem inputNamed (kind : InputKind) (name : Text) : Survives inv allowed (inputNamed kind name) := by
  have hput (i : Input) : Survives inv allowed (do
      modify fun w => { w with inputs := putStream name i w.inputs }
      return i : Action Input) :=
    (Yields.modify fun _ hw => h.inputs hw).andThen fun _ => Survives.pure
  refine Yields.get.andThen fun w => ?_
  split
  · exact Survives.pure
  · cases kind with
    | file => exact (h.openFile name).andThen hput
    | command => exact (h.openCommand name).andThen hput

/-- A record may be a fault, which is for the caller to report. -/
theorem readInput (i : Input) (separator : Text) :
    Yields inv allowed (fun (read : Except Fault (Option Text) × Input) => Calm read.1) (readInput i separator) := by
  refine Yields.get.bind fun w hw => ?_
  exact (Yields.set (h.kept hw)).andThen fun _ => Yields.pure (calm_readRecord _ _)

theorem readNamed (kind : InputKind) (name separator : Text) :
    Survives inv allowed (readNamed kind name separator) := by
  refine (h.inputNamed kind name).andThen fun i => ?_
  refine (h.readInput i separator).bind fun (record, i) hrecord => ?_
  refine (Yields.modify fun _ hw => h.inputs hw).andThen fun _ => ?_
  cases record with
  | ok record => exact Survives.pure
  | error fault => exact Yields.throw (h.ordinary hrecord)

end InputRobust

/-! ### What is reported -/

/-- The error text of a world is that of an earlier one, and perhaps more. -/
def Follows (start w : World) : Prop := start.errors <+: w.errors

theorem Follows.of_eq {w w' : World} (h : w'.errors = w.errors) : w.Follows w' := ⟨[], by rw [List.append_nil, h]⟩

theorem Follows.trans {w₁ w₂ w₃ : World} (h : w₁.Follows w₂) (h' : w₂.Follows w₃) : w₁.Follows w₃ :=
  List.IsPrefix.trans h h'

/-- Whatever goes wrong is not the program's form, and the world follows the one that it was. -/
theorem robust_follows (start : World) : InputRobust Fault.IsOrdinary start.Follows where
  ordinary h := h
  errors h := h.trans ⟨_, rfl⟩
  standard h := h
  outputs h := h
  inputs h := h
  files _ h := h
  piped h := h
  shared h := h
  kept h := h.trans (.of_eq (by unfold keepSource; split <;> rfl))

/-! ### Where a run takes place -/

/-- The shell and the working directory are as they were. -/
structure SamePlace (start w : World) : Prop where
  shell : w.shell = start.shell
  home : w.files.home = start.files.home

theorem robust_samePlace (start : World) : InputRobust (fun _ => True) start.SamePlace where
  ordinary _ := trivial
  errors h := ⟨h.shell, h.home⟩
  standard h := ⟨h.shell, h.home⟩
  outputs h := ⟨h.shell, h.home⟩
  inputs h := ⟨h.shell, h.home⟩
  files hhome h := ⟨h.shell, hhome.trans h.home⟩
  piped h := ⟨h.shell, h.home⟩
  shared h := ⟨h.shell, h.home⟩
  kept h := by
    unfold keepSource
    split <;> exact ⟨h.shell, h.home⟩

/-! ### The standard input -/

/-- Nothing has been taken from the standard input, and the shell is as it was. -/
structure SameInput (start w : World) : Prop where
  shell : w.shell = start.shell
  input : w.input = start.input

theorem robust_sameInput (start : World) : Robust (fun _ => True) start.SameInput where
  ordinary _ := trivial
  errors h := ⟨h.shell, h.input⟩
  standard h := ⟨h.shell, h.input⟩
  outputs h := ⟨h.shell, h.input⟩
  inputs h := ⟨h.shell, h.input⟩
  files _ h := ⟨h.shell, h.input⟩
  piped h := ⟨h.shell, h.input⟩

/-- A command that takes nothing from its input leaves all of it to others. -/
theorem shares_sameInput {start : World} (hspares : start.shell.SparesInput) : Shares start.SameInput := by
  intro w command h
  refine ⟨h.shell, ?_⟩
  rw [← h.shell] at hspares
  have hleft : (w.shell w.environment w.files w.input.beyond command).left = w.input.beyond := hspares ..
  rw [← h.input]
  exact congrArg (Source.mk w.input.pending) hleft

end Awk.World
