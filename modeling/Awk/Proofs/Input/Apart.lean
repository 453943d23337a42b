import Awk.Proofs.Input.Streams
import Awk.Proofs.Machine.Sound

/-!
# What the main input has to do with other streams

Nothing: what a read of the main input comes to depends on the variables, the record, the files, the main input itself
and what nobody has fetched of the standard input, and it leaves all other streams as they are
(`Eval.apart_nextRecord`).  Two states that agree in these stay in agreement.
-/

namespace Awk

namespace World

/-- Agreement of two worlds in what reading the main input depends on. -/
structure Agrees (w₁ w₂ : World) : Prop where
  files : w₁.files = w₂.files
  input : w₁.input = w₂.input

/-- From worlds in agreement the action comes to the same result and to worlds in agreement, and it leaves the input
streams alone. -/
def Apart {α : Type} (act : Action α) : Prop :=
  ∀ w₁ w₂ : World, w₁.Agrees w₂ →
    (act.run w₁).1 = (act.run w₂).1 ∧ (act.run w₁).2.Agrees (act.run w₂).2 ∧ (act.run w₁).2.inputs = w₁.inputs

theorem Apart.observing {α : Type} {act : Action α} (h : Apart act) : Apart (observing act) := by
  intro w₁ w₂ hagrees
  obtain ⟨hresult, hworld, hinputs⟩ := h w₁ w₂ hagrees
  rw [Action.run_observing, Action.run_observing]
  exact ⟨congrArg Except.ok hresult, hworld, hinputs⟩

theorem apart_warnAlways (message : Text) : Apart (warnAlways message) :=
  fun _ _ h => ⟨rfl, ⟨h.files, h.input⟩, rfl⟩

theorem apart_openFile (name : Text) : Apart (openFile name) := by
  intro w₁ w₂ h
  unfold openFile
  split
  · exact ⟨rfl, h, rfl⟩
  · cases hname : name.contains '\x00' with
    | true =>
      have hcheck (w : World) : (checkName name).run w = (.error .nulInName, w) := by
        unfold checkName
        rw [hname]
        rfl
      dsimp only
      rw [Action.run_bind, Action.run_bind, hcheck, hcheck]
      exact ⟨rfl, h, rfl⟩
    | false =>
      dsimp only
      rw [Action.run_bind, Action.run_bind, run_checkName hname, run_checkName hname]
      dsimp only
      rw [Action.run_bind, Action.run_bind, Action.run_get, Action.run_get]
      dsimp only
      rw [h.files]
      rcases w₂.files.toRead name with ⟨_ | _ | d, files⟩
      · exact ⟨rfl, ⟨rfl, h.input⟩, rfl⟩
      · exact ⟨rfl, ⟨rfl, h.input⟩, rfl⟩
      · cases d <;> exact ⟨rfl, ⟨rfl, h.input⟩, rfl⟩

theorem apart_readInput (i : Input) (separator : Text) : Apart (readInput i separator) := by
  intro w₁ w₂ h
  have hsource : sourceOf i w₁ = sourceOf i w₂ := by
    unfold sourceOf
    rw [h.files, h.input]
  have hreader : readerOf i w₁ = readerOf i w₂ := by rw [readerOf, hsource, readerOf]
  rw [run_readInput, run_readInput, hsource, hreader]
  unfold keepSource
  split
  · exact ⟨rfl, ⟨h.files, rfl⟩, rfl⟩
  · exact ⟨rfl, h, rfl⟩
  · exact ⟨rfl, h, rfl⟩
  · exact ⟨rfl, h, rfl⟩

end World

namespace Machine

/-- Agreement of two states in what reading the main input depends on. -/
structure Agrees (m₁ m₂ : Machine) : Prop where
  store : m₁.store = m₂.store
  record : m₁.record = m₂.record
  mainInput : m₁.mainInput = m₂.mainInput
  world : m₁.world.Agrees m₂.world

theorem Agrees.refl (m : Machine) : m.Agrees m := ⟨rfl, rfl, rfl, rfl, rfl⟩

end Machine

namespace Eval

variable {α β : Type}

/-- From states in agreement the action comes to the same result and to states in agreement, and it leaves the input
streams alone. -/
def Apart (act : Eval α) : Prop :=
  ∀ m₁ m₂ : Machine, m₁.Agrees m₂ →
    (act.run m₁).1 = (act.run m₂).1 ∧ (act.run m₁).2.Agrees (act.run m₂).2 ∧
      (act.run m₁).2.world.inputs = m₁.world.inputs

namespace Apart

theorem pure {a : α} : Apart (Pure.pure a : Eval α) := fun _ _ h => ⟨rfl, h, rfl⟩

theorem throw {i : Interruption} : Apart (MonadExcept.throw i : Eval α) := fun _ _ h => ⟨rfl, h, rfl⟩

theorem modify {f : Machine → Machine} (hf : ∀ m₁ m₂ : Machine, m₁.Agrees m₂ → (f m₁).Agrees (f m₂))
    (hinputs : ∀ m, (f m).world.inputs = m.world.inputs) : Apart (modify f : Eval PUnit) :=
  fun m₁ m₂ h => ⟨rfl, hf m₁ m₂ h, hinputs m₁⟩

theorem andThen {act : Eval α} {f : α → Eval β} (hact : Apart act) (hf : ∀ a, Apart (f a)) : Apart (act >>= f) := by
  intro m₁ m₂ h
  have hact := hact m₁ m₂ h
  rw [Action.run_bind, Action.run_bind]
  generalize act.run m₁ = outcome₁ at hact ⊢
  generalize act.run m₂ = outcome₂ at hact ⊢
  obtain ⟨result₁, m₁'⟩ := outcome₁
  obtain ⟨result₂, m₂'⟩ := outcome₂
  obtain ⟨rfl, hagrees, hinputs⟩ := hact
  dsimp only at hagrees hinputs ⊢
  cases result₁ with
  | error i => exact ⟨rfl, hagrees, hinputs⟩
  | ok a =>
    obtain ⟨hresult, hagrees', hinputs'⟩ := hf a m₁' m₂' hagrees
    exact ⟨hresult, hagrees', hinputs'.trans hinputs⟩

/-- What goes on in the same way from states in agreement may look at the state. -/
theorem get {f : Machine → Eval α} (hf : ∀ m₁ m₂ : Machine, m₁.Agrees m₂ → f m₁ = f m₂) (h : ∀ m, Apart (f m)) :
    Apart (MonadState.get >>= f) := by
  intro m₁ m₂ hagrees
  rw [Action.run_bind, Action.run_bind, Action.run_get, Action.run_get]
  dsimp only
  rw [hf m₁ m₂ hagrees]
  exact h m₂ m₁ m₂ hagrees

theorem fail {f : Fault} : Apart (Eval.fail f : Eval α) := throw

theorem ofExcept {x : Except Fault α} : Apart (Eval.ofExcept x) := by
  cases x with
  | ok a => exact pure
  | error f => exact fail

theorem onRecord {act : Variables → Record.Action α} : Apart (Eval.onRecord act) := by
  intro m₁ m₂ h
  have hrun : (act m₁.scalars).run m₁.record = (act m₂.scalars).run m₂.record := by
    rw [Machine.scalars, h.store, h.record, Machine.scalars]
  have heq (m : Machine) : (Eval.onRecord act).run m =
      (((act m.scalars).run m.record).1.mapError fun f => .failure ⟨f, none⟩,
        { m with record := ((act m.scalars).run m.record).2 }) := rfl
  rw [heq, heq, hrun]
  exact ⟨rfl, ⟨h.store, rfl, h.mainInput, h.world⟩, rfl⟩

theorem onWorld {act : World.Action α} (h : World.Apart act) : Apart (Eval.onWorld act) := by
  intro m₁ m₂ hagrees
  obtain ⟨hresult, hworld, hinputs⟩ := h m₁.world m₂.world hagrees.world
  rw [run_onWorld, run_onWorld, hresult]
  exact ⟨rfl, ⟨hagrees.store, hagrees.record, hagrees.mainInput, hworld⟩, hinputs⟩

end Apart

/-! ### Reading the main input -/

theorem apart_setting (name : String) : Apart (setting name) := by
  refine Apart.get (fun m₁ m₂ h => ?_) fun _ => Apart.ofExcept
  rw [Machine.scalars, h.store, Machine.scalars]

theorem apart_convfmt : Apart convfmt := by
  refine Apart.get (fun m₁ m₂ h => ?_) fun _ => Apart.ofExcept
  rw [Machine.scalars, h.store, Machine.scalars]

theorem apart_counter (name : String) : Apart (counter name) :=
  Apart.get (fun m₁ m₂ h => by rw [h.store]) fun _ => Apart.pure

theorem apart_textOf (v : Value) : Apart (textOf v) := apart_convfmt.andThen fun _ => Apart.ofExcept

theorem apart_setGlobal (name : String) (v : Value) : Apart (setGlobal name v) :=
  Apart.modify (fun _ _ h => ⟨congrArg (·.setGlobal name.toList v) h.store, h.record, h.mainInput, h.world⟩)
    fun _ => rfl

theorem apart_countUp (name : String) : Apart (countUp name) :=
  (apart_counter name).andThen fun _ => apart_setGlobal name _

theorem apart_modifyInput (f : MainInput → MainInput) : Apart (modifyInput f) :=
  Apart.modify (fun _ _ h => ⟨h.store, h.record, congrArg f h.mainInput, h.world⟩) fun _ => rfl

theorem apart_assignSlot (slot : Slot) (v : Value) : Apart (assignSlot slot v) := by
  refine Apart.get (fun m₁ m₂ h => by rw [h.store]) fun _ => ?_
  refine Apart.ofExcept.andThen fun store => ?_
  split
  · exact Apart.ofExcept.andThen fun _ => Apart.onRecord.andThen fun _ => Apart.pure
  · refine Apart.andThen (Apart.modify (fun _ _ h => ?_) fun _ => rfl) fun _ => Apart.pure
    exact ⟨rfl, h.record, h.mainInput, h.world⟩

theorem apart_applyAssignment (t : Text) : Apart (applyAssignment t) := by
  unfold applyAssignment
  split
  · exact Apart.pure
  · exact ((apart_assignSlot _ _).andThen fun _ => Apart.pure).andThen fun _ => Apart.pure

theorem apart_operand (index : Nat) : Apart (operand index) := by
  refine Apart.get (fun m₁ m₂ h => by rw [h.store]) fun m => ?_
  split
  · split
    · exact (apart_textOf _).andThen fun _ => Apart.pure
    · exact Apart.pure
  · exact Apart.pure

theorem apart_startFile (name : Text) (i : Input) : Apart (startFile name i) := by
  refine (apart_modifyInput _).andThen fun _ => ?_
  exact (apart_setGlobal _ _).andThen fun _ => apart_setGlobal _ _

theorem apart_openOperand (t : Text) : Apart (openOperand t) := by
  unfold openOperand
  split
  · exact Apart.pure
  · refine (apart_applyAssignment t).andThen fun applied => ?_
    split
    · exact Apart.pure
    · refine (apart_modifyInput _).andThen fun _ => ?_
      refine (Apart.onWorld (World.apart_openFile t).observing).andThen fun opened => ?_
      split
      · exact (apart_startFile _ _).andThen fun _ => Apart.pure
      · refine (Apart.onWorld (World.apart_warnAlways _)).andThen fun _ => ?_
        refine Apart.andThen (Apart.modify (fun _ _ h => ?_) fun _ => rfl) fun _ => Apart.pure
        exact ⟨h.store, h.record, h.mainInput, h.world⟩
      · exact Apart.fail

theorem apart_openNext (fuel : Nat) : Apart (openNext fuel) := by
  induction fuel with
  | zero => exact Apart.throw
  | succ fuel ih =>
    refine Apart.get (fun m₁ m₂ h => by rw [h.mainInput]) fun m => ?_
    refine (apart_counter _).andThen fun _ => ?_
    refine Apart.ofExcept.andThen fun count => ?_
    split
    · refine (apart_operand _).andThen fun t => ?_
      refine (apart_modifyInput _).andThen fun _ => ?_
      refine (apart_openOperand _).andThen fun opened => ?_
      split
      · exact Apart.pure
      · exact ih
    · refine Apart.get (fun m₁ m₂ h => by rw [h.mainInput]) fun m => ?_
      split
      · exact Apart.pure
      · refine (apart_modifyInput _).andThen fun _ => ?_
        exact (apart_startFile _ _).andThen fun _ => Apart.pure

theorem apart_nextRecord (fuel : Nat) : Apart (nextRecord fuel) := by
  induction fuel with
  | zero => exact Apart.throw
  | succ fuel ih =>
    refine Apart.get (fun m₁ m₂ h => by rw [h.mainInput]) fun m => ?_
    dsimp only
    split
    · exact Apart.pure
    · split
      · refine (apart_openNext fuel).andThen fun opened => ?_
        split
        · exact ih
        · exact (apart_modifyInput _).andThen fun _ => Apart.pure
      · refine (apart_setting _).andThen fun separator => ?_
        refine (Apart.onWorld (World.apart_readInput _ separator)).andThen fun (record, i) => ?_
        refine (apart_modifyInput _).andThen fun _ => ?_
        refine Apart.ofExcept.andThen fun t => ?_
        cases t with
        | some t => exact (apart_countUp _).andThen fun _ => (apart_countUp _).andThen fun _ => Apart.pure
        | none => exact (apart_modifyInput _).andThen fun _ => ih

end Eval

end Awk
