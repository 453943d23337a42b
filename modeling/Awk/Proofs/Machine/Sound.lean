import Awk.Machine.Run
import Awk.Proofs.World

/-!
# Sound evaluations

An evaluation is sound if it keeps the functions of the program and is not interrupted by a fault of the program's
form (`Sound`).  Which jumps may interrupt it is left open.  It is steady if it keeps the exit code as well, and notes
and reports every operand that cannot be opened (`Steady`), as all evaluations do; that is what is proved of them.  Here
are the actions that evaluate no expressions: those on the record and the world, on variables and targets, and on the
main input.
-/

namespace Awk

/-- What may interrupt an evaluation: an ordinary fault, the end of the fuel, and some of the jumps. -/
def Interruption.Allowed (jumps : Interruption → Prop) : Interruption → Prop
  | .failure f => f.fault.IsOrdinary
  | .exhausted => True
  | i => jumps i

/-- What is left when some interruptions have been taken care of. -/
theorem Interruption.Allowed.unhandled {handled jumps : Interruption → Prop} {i : Interruption}
    (h : i.Allowed fun i => handled i ∨ jumps i) (hi : ¬handled i) : i.Allowed jumps := by
  cases i with
  | failure f => exact h
  | exhausted => exact h
  | _ => exact h.resolve_left hi

def Machine.Runs (functions : List Function) (m : Machine) : Prop := m.functions = functions

abbrev Sound {α : Type} (functions : List Function) (jumps : Interruption → Prop) (act : Eval α) : Prop :=
  Yields (Machine.Runs functions) (Interruption.Allowed jumps) (fun _ => True) act

/-- What is reported of an operand that cannot be opened. -/
def missingNote (t : Text) (reason : OpenReason) : Text :=
  "cannot open file '".toList ++ t ++ "' for reading: ".toList ++ reason.message

/-- Between two worlds, an operand that names a file could not be opened, and this has been reported. -/
inductive OperandMissed (start finish : World) : Prop
  | intro {t : Text} {reason : OpenReason} {w w' : World} (hfile : t ≠ [] ∧ assignment? t = none)
    (hbefore : start.Follows w) (hopen : (World.openFile t).run w = (.error (.cannotOpen t reason), w'))
    (hafter : ((World.warnAlways (missingNote t reason)).run w').2.Follows finish)

/-- What no part of a run changes or undoes: the functions, and that an operand could not be opened, which is noted if
and only if it has happened. -/
structure Machine.Follows (start m : Machine) : Prop where
  functions : m.functions = start.functions
  world : start.world.Follows m.world
  inputFailed : start.inputFailed = true → m.inputFailed = true
  missed : m.inputFailed = true → start.inputFailed = true ∨ OperandMissed start.world m.world

/-- What no evaluation changes: the exit code as well. -/
structure Machine.Keeps (start m : Machine) : Prop extends start.Follows m where
  exitCode : m.exitCode = start.exitCode

/-- Sound, and nothing is changed that was the same since a machine has started. -/
abbrev Steady {α : Type} (start : Machine) (jumps : Interruption → Prop) (act : Eval α) : Prop :=
  Yields start.Keeps (Interruption.Allowed jumps) (fun _ => True) act

theorem OperandMissed.mono {start start' finish finish' : World} (hstart : start'.Follows start)
    (hfinish : finish.Follows finish') (h : OperandMissed start finish) : OperandMissed start' finish' := by
  obtain ⟨hfile, hbefore, hopen, hafter⟩ := h
  exact ⟨hfile, hstart.trans hbefore, hopen, hafter.trans hfinish⟩

namespace Machine

theorem Follows.of_world {m m' : Machine} (hfunctions : m'.functions = m.functions)
    (hfailed : m'.inputFailed = m.inputFailed) (hworld : m.world.Follows m'.world) : m.Follows m' :=
  ⟨hfunctions, hworld, hfailed.trans, fun h => .inl (hfailed.symm.trans h)⟩

theorem Follows.refl (m : Machine) : m.Follows m := .of_world rfl rfl (.of_eq rfl)

theorem Follows.trans {start m m' : Machine} (h : start.Follows m) (h' : m.Follows m') : start.Follows m' where
  functions := h'.functions.trans h.functions
  world := h.world.trans h'.world
  inputFailed := h'.inputFailed ∘ h.inputFailed
  missed hfailed := by
    rcases h'.missed hfailed with hfailed | hmissed
    · exact (h.missed hfailed).imp_right (.mono (.of_eq rfl) h'.world)
    · exact .inr (hmissed.mono h.world (.of_eq rfl))

theorem Keeps.of_world {m m' : Machine} (hfunctions : m'.functions = m.functions) (hcode : m'.exitCode = m.exitCode)
    (hfailed : m'.inputFailed = m.inputFailed) (hworld : m.world.Follows m'.world) : m.Keeps m' :=
  ⟨.of_world hfunctions hfailed hworld, hcode⟩

theorem Keeps.of_eq {m m' : Machine} (hfunctions : m'.functions = m.functions) (hcode : m'.exitCode = m.exitCode)
    (hfailed : m'.inputFailed = m.inputFailed) (hworld : m'.world = m.world) : m.Keeps m' :=
  .of_world hfunctions hcode hfailed (.of_eq (congrArg World.errors hworld))

theorem Keeps.refl (m : Machine) : m.Keeps m := ⟨.refl m, rfl⟩

theorem Keeps.trans {start m m' : Machine} (h : start.Keeps m) (h' : m.Keeps m') : start.Keeps m' :=
  ⟨h.toFollows.trans h'.toFollows, h'.exitCode.trans h.exitCode⟩

end Machine

theorem Sound.of_steady {α : Type} {functions : List Function} {jumps : Interruption → Prop} {act : Eval α}
    (h : ∀ {start : Machine}, start.Runs functions → Steady start jumps act) : Sound functions jumps act := by
  intro m hm
  obtain ⟨hkeeps, hout⟩ := h hm m (.refl m)
  exact ⟨hkeeps.functions.trans hm, hout⟩

namespace Steady

variable {α : Type} {start : Machine} {jumps jumps' : Interruption → Prop}

theorem pure {a : α} : Steady start jumps (Pure.pure a : Eval α) := Yields.pure trivial

theorem get : Steady start jumps (MonadState.get : Eval Machine) := Yields.get.weaken

theorem modify {f : Machine → Machine} (h : ∀ m : Machine, m.Keeps (f m)) :
    Steady start jumps (modify f : Eval PUnit) :=
  Yields.modify fun m hm => hm.trans (h m)

theorem fail {f : Fault} (h : f.IsOrdinary) : Steady start jumps (Eval.fail f : Eval α) := Yields.throw h

theorem ofExcept {x : Except Fault α} (h : Calm x) : Steady start jumps (Eval.ofExcept x) := by
  cases x with
  | ok a => exact pure
  | error f => exact fail h

/-- More jumps may be allowed. -/
theorem jumping {act : Eval α} (hjumps : ∀ i, jumps i → jumps' i) (h : Steady start jumps act) :
    Steady start jumps' act := by
  refine h.mono (fun {i} hi => ?_) id
  cases i with
  | failure f => exact hi
  | exhausted => exact hi
  | _ => exact hjumps _ hi

private theorem outcome_mapError {x : Except Fault α} {post : α → Prop} (h : Outcome Fault.IsOrdinary post x) :
    Outcome (Interruption.Allowed jumps) post (x.mapError fun f => .failure ⟨f, none⟩) := by
  cases x with
  | ok a => exact h
  | error f => exact h

theorem onRecord {act : Variables → Record.Action α} (h : ∀ vars, CalmAction (act vars)) :
    Steady start jumps (Eval.onRecord act) :=
  fun m hm => ⟨hm.trans (.of_eq rfl rfl rfl rfl), outcome_mapError (h m.scalars m.record trivial).2⟩

/-- An action on the world, with what it says of its result. -/
theorem onWorld {act : World.Action α} {post : α → Prop}
    (h : ∀ w : World, Yields w.Follows Fault.IsOrdinary post act) :
    Yields start.Keeps (Interruption.Allowed jumps) post (Eval.onWorld act) := by
  intro m hm
  obtain ⟨hworld, hout⟩ := h m.world m.world (.of_eq rfl)
  exact ⟨hm.trans (.of_world rfl rfl rfl hworld), outcome_mapError hout⟩

theorem located {act : Eval α} (span : Option Span) (h : Steady start jumps act) :
    Steady start jumps (Eval.located span act) := by
  intro m hm
  obtain ⟨hm', hout⟩ := h m hm
  unfold Eval.located
  rw [ExceptT.run_mk]
  split
  · rename_i fault m' hrun
    rw [hrun] at hm' hout
    exact ⟨hm', hout⟩
  · exact ⟨hm', hout⟩

theorem catching {act : Eval α} (h : Steady start jumps act) :
    Yields start.Keeps (Interruption.Allowed jumps')
      (Outcome (Interruption.Allowed jumps) fun _ => True) (Eval.catching act) :=
  fun m hm => h m hm

end Steady

namespace Eval

variable {start : Machine} {jumps : Interruption → Prop}

/-! ### Settings and counters -/

theorem steady_convfmt : Steady start jumps convfmt :=
  Steady.get.andThen fun _ => Steady.ofExcept (Variables.calm_convfmt _)

theorem steady_setting (name : String) : Steady start jumps (setting name) :=
  Steady.get.andThen fun _ => Steady.ofExcept (Variables.calm_setting ..)

theorem steady_counter (name : String) : Steady start jumps (counter name) := Steady.get.andThen fun _ => Steady.pure

theorem steady_setGlobal (name : String) (v : Value) : Steady start jumps (setGlobal name v) :=
  Steady.modify fun _ => .of_eq rfl rfl rfl rfl

theorem steady_textOf (v : Value) : Steady start jumps (textOf v) :=
  steady_convfmt.andThen fun _ => Steady.ofExcept (v.calm_toText _)

/-! ### Variables and targets -/

theorem steady_slotOf (name : Text) : Steady start jumps (slotOf name) := Steady.get.andThen fun _ => Steady.pure

theorem steady_readSlot (slot : Slot) : Steady start jumps (readSlot slot) := by
  unfold readSlot
  split
  · exact (Steady.onRecord fun _ => Record.calm_count).andThen fun _ => Steady.pure
  · exact Steady.get.andThen fun _ => Steady.ofExcept (Store.calm_scalarAt ..)

theorem steady_assignSlot (slot : Slot) (v : Value) : Steady start jumps (assignSlot slot v) := by
  refine Steady.get.andThen fun m => ?_
  refine (Steady.ofExcept (Store.calm_setScalar ..)).andThen fun store => ?_
  split
  · refine (Steady.ofExcept (calm_toInt _)).andThen fun count => ?_
    exact (Steady.onRecord fun vars => Record.calm_setCount vars count).andThen fun _ => Steady.pure
  · refine Yields.andThen (Steady.modify fun m => ?_) fun _ => Steady.pure
    exact .of_eq rfl rfl rfl rfl

theorem steady_readVariable (name : Text) : Steady start jumps (readVariable name) :=
  (steady_slotOf name).andThen steady_readSlot

theorem steady_assignVariable (name : Text) (v : Value) : Steady start jumps (assignVariable name v) :=
  (steady_slotOf name).andThen fun slot => steady_assignSlot slot v

theorem steady_assignGlobal (name : Text) (v : Value) : Steady start jumps (assignGlobal name v) :=
  (steady_assignSlot _ v).andThen fun _ => Steady.pure

theorem steady_arrayNamed (name : Text) : Steady start jumps (arrayNamed name) := by
  refine Steady.get.andThen fun m => ?_
  refine (steady_slotOf name).andThen fun slot => ?_
  refine (Steady.ofExcept (Store.calm_arrayAt ..)).andThen fun (id, store) => ?_
  refine Yields.andThen (Steady.modify fun m => ?_) fun _ => Steady.pure
  exact .of_eq rfl rfl rfl rfl

theorem steady_array (id : Nat) : Steady start jumps (array id) := Steady.get.andThen fun _ => Steady.pure

theorem steady_setArray (id : Nat) (a : Assoc) : Steady start jumps (setArray id a) :=
  Steady.modify fun _ => .of_eq rfl rfl rfl rfl

theorem steady_element (id : Nat) (key : Text) : Steady start jumps (element id key) :=
  (steady_array id).andThen fun _ => (steady_setArray id _).andThen fun _ => Steady.pure

theorem steady_readTarget (target : Target) : Steady start jumps (readTarget target) := by
  cases target with
  | var name => exact steady_readVariable name
  | element id key => exact steady_element id key
  | field index => exact Steady.onRecord fun _ => Record.calm_getField index

theorem steady_assignTarget (target : Target) (v : Value) : Steady start jumps (assignTarget target v) := by
  cases target with
  | var name => exact steady_assignVariable name v
  | element id key =>
    exact (steady_array id).andThen fun _ => (steady_setArray id _).andThen fun _ => Steady.pure
  | field index =>
    exact (Steady.onRecord fun vars => Record.calm_setField vars index v).andThen fun _ => Steady.pure

/-! ### The main input -/

theorem steady_modifyInput (f : MainInput → MainInput) : Steady start jumps (modifyInput f) :=
  Steady.modify fun _ => .of_eq rfl rfl rfl rfl

theorem yields_applyAssignment (t : Text) :
    Yields start.Keeps (Interruption.Allowed jumps) (fun applied => applied = (assignment? t).isSome)
      (applyAssignment t) := by
  unfold applyAssignment
  split
  · rename_i hnone
    exact Yields.pure (by rw [hnone]; rfl)
  · rename_i hsome
    exact (steady_assignGlobal _ _).andThen fun _ => Yields.pure (by rw [hsome]; rfl)

theorem steady_applyAssignment (t : Text) : Steady start jumps (applyAssignment t) := (yields_applyAssignment t).weaken

theorem steady_operand (index : Nat) : Steady start jumps (operand index) := by
  refine Steady.get.andThen fun m => ?_
  split
  · split
    · exact (steady_textOf _).andThen fun _ => Steady.pure
    · exact Steady.pure
  · exact Steady.pure

theorem steady_startFile (name : Text) (i : Input) : Steady start jumps (startFile name i) := by
  refine (steady_modifyInput _).andThen fun _ => ?_
  exact (steady_setGlobal _ _).andThen fun _ => steady_setGlobal _ _

theorem run_onWorld {α : Type} (act : World.Action α) (m : Machine) :
    (onWorld act).run m =
      (((act.run m.world).1).mapError fun f => .failure ⟨f, none⟩, { m with world := (act.run m.world).2 }) :=
  rfl

theorem run_catching {α : Type} (act : Eval α) (m : Machine) :
    (catching act).run m = (.ok (act.run m).1, (act.run m).2) :=
  rfl

/-- An operand that names a file is opened, or else it is noted and reported that it cannot be. -/
theorem run_openOperand {t : Text} (hnonempty : t ≠ []) (hfile : assignment? t = none) (m : Machine) :
    (openOperand t).run m =
      match (World.openFile t).run m.world with
      | (.ok i, w) =>
        (do
          startFile t i
          return true : Eval Bool).run { m with mainInput := { m.mainInput with usedFile := true }, world := w }
      | (.error (.cannotOpen _ reason), w) =>
        (.ok false, { m with
          mainInput := { m.mainInput with usedFile := true }
          world := ((World.warnAlways (missingNote t reason)).run w).2
          inputFailed := true })
      | (.error f, w) =>
        (.error (.failure ⟨f, none⟩), { m with mainInput := { m.mainInput with usedFile := true }, world := w }) := by
  have hempty : ¬t.isEmpty = true := by simpa using hnonempty
  unfold openOperand applyAssignment
  rw [if_neg hempty, hfile, Action.run_bind, Action.run_pure]
  simp only [Bool.false_eq_true, ↓reduceIte, modifyInput, Action.run_bind, Action.run_modify, run_onWorld,
    Action.run_observing]
  generalize (World.openFile t).run m.world = opened
  obtain ⟨result, w⟩ := opened
  cases result with
  | ok i => rfl
  | error f => cases f <;> rfl

theorem openFile_cannotOpen {t name : Text} {reason : OpenReason} {w w' : World}
    (h : (World.openFile t).run w = (.error (.cannotOpen name reason), w')) : name = t := by
  have hnames : Yields (fun _ => True) (fun f => ∀ name reason, f = .cannotOpen name reason → name = t)
      (fun _ => True) (World.openFile t) := by
    unfold World.openFile World.checkName
    dsimp only
    split
    · exact Yields.pure trivial
    · split
      · exact Yields.stop nofun
      · refine Yields.get.andThen fun w => ?_
        refine Yields.andThen (show Yields _ _ (fun _ => True) _ from fun _ _ => ⟨trivial, trivial⟩) fun _ => ?_
        split
        · exact Yields.throw fun name reason h => by cases h; rfl
        all_goals exact Yields.pure trivial
  have hallowed := (hnames w trivial).2
  rw [h] at hallowed
  exact hallowed name reason rfl

theorem steady_openOperand (t : Text) : Steady start jumps (openOperand t) := by
  by_cases hempty : t = []
  · subst hempty
    exact Steady.pure
  cases hfile : assignment? t with
  | some entry =>
    unfold openOperand
    rw [if_neg (by simpa using hempty)]
    refine (yields_applyAssignment t).bind fun applied happlied => ?_
    rw [if_pos (by rw [happlied, hfile]; rfl)]
    exact Steady.pure
  | none =>
    intro m hm
    rw [run_openOperand hempty hfile]
    obtain ⟨hworld, hout⟩ := (World.robust_follows m.world).openFile t m.world (.of_eq rfl)
    generalize hopen : (World.openFile t).run m.world = opened at hworld hout
    obtain ⟨result, w⟩ := opened
    split
    · rename_i i w' heq
      cases heq
      have hstarted : Steady start jumps (do
          startFile t i
          return true) := (steady_startFile t i).andThen fun _ => Steady.pure
      exact hstarted _ (hm.trans (.of_world rfl rfl rfl hworld))
    · rename_i name reason w' heq
      cases heq
      have hreported : w.Follows ((World.warnAlways (missingNote t reason)).run w).2 :=
        ((World.robust_follows w).warnAlways _ w (.of_eq rfl)).1
      obtain rfl := openFile_cannotOpen hopen
      have hmissed : OperandMissed m.world ((World.warnAlways (missingNote name reason)).run w).2 :=
        ⟨⟨hempty, hfile⟩, .of_eq rfl, hopen, .of_eq rfl⟩
      exact ⟨hm.trans ⟨⟨rfl, hworld.trans hreported, fun _ => rfl, fun _ => .inr hmissed⟩, rfl⟩, trivial⟩
    · rename_i f w' hother heq
      cases heq
      exact ⟨hm.trans (.of_world rfl rfl rfl hworld), hout⟩

theorem steady_openNext (fuel : Nat) : Steady start jumps (openNext fuel) := by
  induction fuel with
  | zero => exact Yields.throw trivial
  | succ fuel ih =>
    refine Steady.get.andThen fun m => ?_
    refine (steady_counter _).andThen fun _ => ?_
    refine (Steady.ofExcept (calm_toInt _)).andThen fun count => ?_
    split
    · refine (steady_operand _).andThen fun t => ?_
      refine (steady_modifyInput _).andThen fun _ => ?_
      refine (steady_openOperand _).andThen fun opened => ?_
      split
      · exact Steady.pure
      · exact ih
    · refine Steady.get.andThen fun m => ?_
      split
      · exact Steady.pure
      · refine (steady_modifyInput _).andThen fun _ => ?_
        exact (steady_startFile _ _).andThen fun _ => Steady.pure

theorem steady_countUp (name : String) : Steady start jumps (countUp name) :=
  (steady_counter name).andThen fun _ => steady_setGlobal _ _

theorem steady_skipFile : Steady start jumps skipFile := steady_modifyInput _

theorem steady_nextRecord (fuel : Nat) : Steady start jumps (nextRecord fuel) := by
  induction fuel with
  | zero => exact Yields.throw trivial
  | succ fuel ih =>
    refine Steady.get.andThen fun m => ?_
    dsimp only
    split
    · exact Steady.pure
    · split
      · refine (steady_openNext fuel).andThen fun opened => ?_
        split
        · exact ih
        · exact (steady_modifyInput _).andThen fun _ => Steady.pure
      · refine (steady_setting _).andThen fun separator => ?_
        refine (Steady.onWorld fun w => (World.robust_follows w).readInput _ separator).bind fun (record, i) hrecord => ?_
        refine (steady_modifyInput _).andThen fun _ => ?_
        refine (Steady.ofExcept hrecord).andThen fun t => ?_
        cases t with
        | some t =>
          exact (steady_countUp _).andThen fun _ => (steady_countUp _).andThen fun _ => Steady.pure
        | none => exact steady_skipFile.andThen fun _ => ih

end Eval

end Awk
