import Awk.Proofs.Machine.Composed
import Awk.Proofs.Machine.Invariant
import Awk.Proofs.Machine.Sound

/-!
# What a run does in the world, in order

A trace of an action lists the events that it does in the world, in the order in which it does them and up to where it
is interrupted (`Eval.Performs`): it is put together along the way in which the action is put together, so that each
event in it is one that the action has come to.  The world after the action is that after its trace (`Performs.world`),
and whatever a program does has a trace (`traced_runParts`), however it ends.  A print statement with a redirection adds
its output to the trace of its operands (`performs_print`), a call of `close` adds the closing (`performs_close`).
-/

namespace Awk.Eval

/-- The events that an action does in the world, one after the other, when it is run in a state. -/
inductive Performs : {α : Type} → Eval α → Machine → List World.Event → Prop
  /-- An action that never touches the world does none. -/
  | quiet {α : Type} {act : Eval α} (h : ∀ m, (act.run m).2.world = m.world) (m : Machine) : Performs act m []
  | event {α : Type} {e : World.Event} {act : World.Action α} (h : e.Is act) (m : Machine) : Performs (onWorld act) m [e]
  | andThen {α β : Type} {act : Eval α} {f : α → Eval β} {m m' : Machine} {a : α} {events events' : List World.Event}
    (hact : Performs act m events) (hrun : act.run m = (.ok a, m')) (hf : Performs (f a) m' events') :
    Performs (act >>= f) m (events ++ events')
  /-- Nothing follows an interruption. -/
  | stopped {α β : Type} {act : Eval α} {f : α → Eval β} {m m' : Machine} {i : Interruption} {events : List World.Event}
    (hact : Performs act m events) (hrun : act.run m = (.error i, m')) : Performs (act >>= f) m events
  | catching {α : Type} {act : Eval α} {m : Machine} {events : List World.Event} (h : Performs act m events) :
    Performs (catching act) m events
  | located {α : Type} {act : Eval α} {m : Machine} {events : List World.Event} (span : Option Span)
    (h : Performs act m events) : Performs (located span act) m events

variable {α β : Type} {act : Eval α} {m m' : Machine} {events : List World.Event}

theorem snd_located (span : Option Span) (act : Eval α) (m : Machine) :
    ((located span act).run m).2 = (act.run m).2 := by
  unfold located
  rw [ExceptT.run_mk]
  split
  · rename_i hrun
    exact (congrArg Prod.snd hrun).symm
  · rfl

/-- The world after an action is that after its trace. -/
theorem Performs.world (h : Performs act m events) : (act.run m).2.world = m.world.performAll events := by
  induction h with
  | quiet h m => exact h m
  | @event _ e act h m =>
    rw [run_onWorld]
    exact h.run m.world
  | andThen hact hrun hf ihact ihf =>
    rw [hrun] at ihact
    rw [Action.run_bind, hrun, World.performAll_append, ← ihact]
    exact ihf
  | stopped hact hrun ihact =>
    rw [hrun] at ihact
    rw [Action.run_bind, hrun]
    exact ihact
  | catching h ih =>
    rw [run_catching]
    exact ih
  | located span h ih =>
    rw [snd_located]
    exact ih

/-- What is done after the first part of an action, if anything is. -/
theorem Performs.then {f : α → Eval β} {last : α → List World.Event} (hact : Performs act m events)
    (hf : ∀ a m', act.run m = (.ok a, m') → Performs (f a) m' (last a)) :
    Performs (act >>= f) m (events ++ (act.run m).1.toOption.elim [] last) := by
  generalize hrun : act.run m = ran
  obtain ⟨i | a, m'⟩ := ran
  · rw [Except.toOption, Option.elim_none, List.append_nil]
    exact .stopped hact hrun
  · exact .andThen hact hrun (hf a m' hrun)

/-- What never touches the world adds nothing. -/
theorem Performs.andQuiet {f : α → Eval β} (hact : Performs act m events)
    (hf : ∀ a m, ((f a).run m).2.world = m.world) : Performs (act >>= f) m events := by
  generalize hrun : act.run m = ran
  obtain ⟨i | a, m'⟩ := ran
  · exact .stopped hact hrun
  · rw [← List.append_nil events]
    exact .andThen hact hrun (.quiet (hf a) m')

/-! ### Everything that is done has a trace -/

/-- Whatever the state, what the action does in the world is a list of events. -/
def Traced (act : Eval α) : Prop := ∀ m, ∃ events, Performs act m events

namespace Traced

theorem quiet (h : ∀ m, (act.run m).2.world = m.world) : Traced act := fun m => ⟨[], .quiet h m⟩

theorem pure {a : α} : Traced (Pure.pure a : Eval α) := quiet fun _ => rfl

theorem throw {i : Interruption} : Traced (MonadExcept.throw i : Eval α) := quiet fun _ => rfl

theorem get : Traced (MonadState.get : Eval Machine) := quiet fun _ => rfl

theorem modify {f : Machine → Machine} (h : ∀ m, (f m).world = m.world) : Traced (modify f : Eval PUnit) := quiet h

theorem andThen {f : α → Eval β} (hact : Traced act) (hf : ∀ a, Traced (f a)) : Traced (act >>= f) := by
  intro m
  obtain ⟨events, hevents⟩ := hact m
  generalize hrun : act.run m = ran
  obtain ⟨i | a, m'⟩ := ran
  · exact ⟨events, .stopped hevents hrun⟩
  · obtain ⟨events', hevents'⟩ := hf a m'
    exact ⟨events ++ events', .andThen hevents hrun hevents'⟩

theorem catching (h : Traced act) : Traced (Eval.catching act) := fun m => (h m).imp fun _ => .catching

theorem located (span : Option Span) (h : Traced act) : Traced (Eval.located span act) :=
  fun m => (h m).imp fun _ => .located span

theorem onRecord {act : Variables → Record.Action α} : Traced (Eval.onRecord act) := quiet fun _ => rfl

theorem assignSlot (slot : Slot) (v : Value) : Traced (assignSlot slot v) :=
  quiet fun m => ((storing_world m.world).assignSlot slot v m rfl).1

theorem callWith {eval : Evaluate} {run : Stmt → Eval Unit} (hrun : ∀ s, Traced (run s))
    (hbind : ∀ params args, Traced (bindArguments eval params args)) (function : Token) (args : List Expr) :
    Traced (callWith eval run function args) := by
  refine get.andThen fun m => ?_
  split
  · exact throw
  · dsimp only
    split
    · exact throw (i := _)
    · refine (hbind _ _).andThen fun table => ?_
      refine andThen (modify fun _ => rfl) fun _ => ?_
      refine (catching (hrun _)).andThen fun result => ?_
      refine andThen (modify fun _ => rfl) fun _ => ?_
      split
      · exact pure
      · exact pure
      · exact throw

end Traced

/-- What is composed of steps does the events of these steps. -/
theorem Composed.traced (h : Composed act) : Traced act := by
  induction h with
  | pure => exact Traced.pure
  | throw => exact Traced.throw
  | andThen _ _ hact hf => exact hact.andThen hf
  | catching _ hact => exact hact.catching
  | located span _ hact => exact hact.located span
  | look _ _ hf => exact Traced.get.andThen hf
  | onRecord => exact Traced.onRecord
  | onWorld h => exact fun m => ⟨_, .event h m⟩
  | setGlobal _ v => exact Traced.modify fun _ => rfl
  | assignVariable name v => exact Traced.get.andThen fun m => Traced.assignSlot _ v
  | assignGlobal name v => exact (Traced.assignSlot _ v).andThen fun _ => Traced.pure
  | arrayNamed name => exact Traced.quiet fun m => ((storing_world m.world).arrayNamed name m rfl).1
  | changeArray id htidy => exact Traced.quiet fun _ => rfl
  | modifyInput f => exact Traced.modify fun _ => rfl
  | inputFailed => exact Traced.modify fun _ => rfl
  | setRandom _ _ => exact Traced.quiet fun _ => rfl
  | callWith _ _ _ function args _ hrun hbind => exact Traced.callWith hrun hbind function args

theorem traced_setActive (rule : Nat) (active : Bool) : Traced (setActive rule active) := Traced.modify fun _ => rfl

theorem traced_applies (fuel rule : Nat) (selector : Option Selector) : Traced (applies fuel rule selector) := by
  have hholds (e : Expr) := (composed_holds (composed_eval fuel).expr e).traced
  cases selector with
  | none => exact Traced.pure
  | some s =>
    cases s with
    | single span test => exact hholds test
    | range span first last =>
      have hend : Traced (do
          if ← holds (expr fuel) last then setActive rule false
          return true) := by
        refine (hholds last).andThen fun b => ?_
        split
        · exact (traced_setActive rule false).andThen fun _ => Traced.pure
        · exact Traced.pure
      refine Traced.get.andThen fun m => ?_
      dsimp only
      split
      · refine (hholds first).andThen fun b => ?_
        split
        · exact Traced.pure
        · exact (traced_setActive rule true).andThen fun _ => hend
      · exact hend

theorem traced_runRules (fuel rule : Nat) (rules : List Rule) : Traced (runRules fuel rule rules) := by
  induction rules generalizing rule with
  | nil => exact Traced.pure
  | cons r rules ih =>
    refine (traced_applies fuel rule r.selector).andThen fun b => ?_
    split
    · exact (composed_runAction fuel r.action).traced.andThen fun _ => ih _
    · exact ih _

theorem traced_runRecords (rules : List Rule) (fuel : Nat) : Traced (runRecords rules fuel) := by
  induction fuel with
  | zero => exact Traced.throw
  | succ fuel ih =>
    refine (composed_nextRecord fuel).traced.andThen fun record => ?_
    cases record with
    | none => exact Traced.pure
    | some t =>
      refine Traced.onRecord.andThen fun _ => ?_
      refine (traced_runRules fuel 0 rules).catching.andThen fun outcome => ?_
      split
      · exact ih
      · exact ih
      · exact composed_skipFile.traced.andThen fun _ => ih
      · exact Traced.throw

theorem traced_catchingExit {act : Eval Unit} (h : Traced act) : Traced (catchingExit act) := by
  refine h.catching.andThen fun outcome => ?_
  split
  · exact Traced.modify fun _ => rfl
  · exact Traced.throw
  · exact Traced.pure

theorem traced_runParts (fuel : Nat) (parts : Parts) : Traced (runParts fuel parts) := by
  have hactions (rule : String) (actions : List Stmt) := (composed_runOutsideRecords fuel rule actions).traced
  have hbefore : Traced (do
      runOutsideRecords fuel "BEGIN" parts.begins
      if parts.needsInput then runRecords parts.rules fuel) := by
    refine (hactions _ _).andThen fun _ => ?_
    split
    · exact traced_runRecords parts.rules fuel
    · exact Traced.pure
  exact (traced_catchingExit hbefore).andThen fun _ => traced_catchingExit (hactions _ _)

/-! ### Printing and closing -/

/-- The text that a print statement writes, and the name it goes to. -/
def written (fuel : Nat) (formatted : Bool) (items : List Expr) (target : Expr) : Eval (Text × Text) := do
  let t ← printed (expr fuel) formatted items
  let name ← textOf (← expr fuel target)
  return (t, name)

/-- The name that a call of `close` closes. -/
def closed (fuel : Nat) (arg : Expr) : Eval Text := do textOf (← expr fuel arg)

variable {fuel : Nat}

/-- A print statement with a redirection writes its text under the name, once both are there. -/
theorem performs_print {formatted : Bool} {items : List Expr} {r : Redirect}
    (h : Performs (written fuel formatted items r.target) m events) (span : Span) (token : Token) :
    Performs (stmt (fuel + 1) (.print span token formatted items (some r))) m
      (events ++ ((written fuel formatted items r.target).run m).1.toOption.elim [] fun (t, name) =>
        [.redirect r.op name t]) := by
  -- The text comes first, then the name, and the output last.
  have hprint : stmt (fuel + 1) (.print span token formatted items (some r)) = located (some span) (do
      let (t, name) ← written fuel formatted items r.target
      onWorld (World.redirect r.op name t)) := by
    simp only [written, bind_assoc, pure_bind]
    rfl
  rw [hprint]
  exact (h.then fun _ _ _ => .event (.redirect ..) _).located _

/-- A call of `close` closes the name that its argument gives. -/
theorem performs_close {arg : Expr} (h : Performs (closed fuel arg) m events) (span : Span) (token : Token) :
    Performs (expr (fuel + 1) (.builtin span .close token [arg])) m
      (events ++ ((closed fuel arg).run m).1.toOption.elim [] fun name => [.close name]) := by
  -- A list of one argument is evaluated as the argument is, and nothing is done between its text and the closing.
  have hcall : expr (fuel + 1) (.builtin span .close token [arg]) = located (some span) (do
      let name ← closed fuel arg
      return .ofInt (← onWorld (World.close name))) := by
    have happlied (v : Value) : applyBuiltin .close [v] =
        (do return .ofInt (← onWorld (World.close (← textOf v))) : Eval Value) := rfl
    have hbuiltin : callBuiltin (expr fuel) .close [arg] =
        (do applyBuiltin .close (← valuesOf (expr fuel) [arg]) : Eval Value) := rfl
    change located (some span) (callBuiltin (expr fuel) .close [arg]) = _
    rw [hbuiltin]
    simp only [closed, valuesOf, bind_assoc, pure_bind, happlied]
  rw [hcall]
  exact (h.then fun name m' _ => (Performs.event (.close name) m').andQuiet fun _ _ => rfl).located _

end Awk.Eval
