import Awk.Proofs.Machine.Walk
import Awk.Proofs.Machine.Passing
import Awk.Proofs.Outcome

/-!
# What outlasts changes of the store

A property of stores that outlasts each operation on them (`Store.Lasting`) is kept by every evaluation, whatever it is
composed of (`Eval.Composed.preserves`).  What entering a call does to it is left to be shown: the parameters are bound
to what the arguments came to.
-/

namespace Awk

/-- The property outlasts what is done to a store, apart from entering a call. -/
structure Store.Lasting (inv : Store → Prop) : Prop where
  scalar : ∀ {s : Store} (slot : Slot) (v : Value), inv s → inv (s.bind slot (.scalar v))
  arrayAt : ∀ {s s' : Store} {slot : Slot} {id : Nat}, inv s → s.arrayAt slot = .ok (id, s') → inv s'
  setArray : ∀ {s : Store} (id : Nat) {a : Assoc}, inv s → ((s.array id).Tidy → a.Tidy) → inv (s.setArray id a)
  pop : ∀ {s : Store}, inv s → inv s.pop

/-- Names and calls do not matter to a property of arrays. -/
theorem Store.Lasting.of_arrays {inv : Store → Prop} (hof : ∀ {s s' : Store}, s'.arrays = s.arrays → inv s → inv s')
    (harrayAt : ∀ {s s' : Store} {slot : Slot} {id : Nat}, inv s → s.arrayAt slot = .ok (id, s') → inv s')
    (hsetArray : ∀ {s : Store} (id : Nat) {a : Assoc}, inv s → ((s.array id).Tidy → a.Tidy) → inv (s.setArray id a)) :
    Store.Lasting inv where
  scalar slot _ hs := hof (arrays_bind _ slot _) hs
  arrayAt := harrayAt
  setArray := hsetArray
  pop {s} hs := hof (show s.pop.arrays = s.arrays from rfl) hs

namespace Eval

variable {α : Type} {inv : Store → Prop} {act : Eval α}

/-- The action keeps the property. -/
abbrev Preserves (inv : Store → Prop) (act : Eval α) : Prop :=
  Yields (fun m : Machine => inv m.store) (fun _ => True) (fun _ => True) act

/-- A call can be entered with what the arguments came to. -/
def Enters (inv : Store → Prop) : Prop :=
  ∀ {eval : Evaluate} {params : List Text} {args : List Expr} {m m' : Machine} {table : Table},
    (∀ e, Composed (eval e)) → (∀ e, Preserves inv (eval e)) → inv m.store →
      (bindArguments eval params args).run m = (.ok table, m') → inv m'.store → inv (m'.store.push table)

namespace Preserves

theorem of_run (h : ∀ m, inv m.store → inv (act.run m).2.store) : Preserves inv act :=
  fun m hm => ⟨h m hm, by cases (act.run m).1 <;> trivial⟩

theorem onRecord {act : Variables → Record.Action α} : Preserves inv (Eval.onRecord act) := of_run fun _ hm => hm

theorem ofExcept {x : Except Fault α} : Preserves inv (Eval.ofExcept x) :=
  of_run fun m hm => by cases x <;> exact hm

theorem located (span : Option Span) (h : Preserves inv act) : Preserves inv (Eval.located span act) := by
  refine of_run fun m hm => ?_
  have hact := (h m hm).1
  unfold Eval.located
  rw [ExceptT.run_mk]
  split
  · rename_i hrun
    rw [hrun] at hact
    exact hact
  · exact hact

theorem assignSlot (h : Store.Lasting inv) (slot : Slot) (v : Value) : Preserves inv (assignSlot slot v) := by
  have hcount : Preserves inv (do
      let count ← Eval.ofExcept v.toNumber.toInt
      Eval.onRecord fun vars => Record.setCount vars count
      return Value.ofInt count) :=
    ofExcept.andThen fun _ => onRecord.andThen fun _ => Yields.pure trivial
  refine of_run fun m hm => ?_
  unfold Eval.assignSlot
  rw [Action.run_bind, Action.run_get]
  dsimp only
  cases hset : m.store.setScalar slot v with
  | error f => exact hm
  | ok store =>
    cases isFieldCount slot with
    | true => exact (hcount m hm).1
    | false =>
      unfold Store.setScalar at hset
      split at hset
      · cases hset
      · cases hset
        exact h.scalar slot v hm

theorem arrayNamed (h : Store.Lasting inv) (name : Text) : Preserves inv (arrayNamed name) := by
  refine of_run fun m hm => ?_
  rw [run_arrayNamed_eq]
  cases hat : m.store.arrayAt (m.store.slotOf name) with
  | error f => exact hm
  | ok found => exact h.arrayAt hm hat

theorem callWith (h : Store.Lasting inv) (henters : Enters inv) {eval : Evaluate} {run : Stmt → Eval Unit}
    (heval : ∀ e, Composed (eval e)) (hkeeps : ∀ e, Preserves inv (eval e)) (hrun : ∀ s, Preserves inv (run s))
    (hbind : ∀ params args, Preserves inv (bindArguments eval params args)) (function : Token) (args : List Expr) :
    Preserves inv (callWith eval run function args) := by
  refine of_run fun m hm => ?_
  rw [run_callWith_eq]
  cases callee m.functions function args with
  | error i => exact hm
  | ok f =>
    dsimp only
    cases hbound : (bindArguments eval f.params args).run m with
    | mk result m₁ =>
      have hm₁ := (hbind f.params args m hm).1
      rw [hbound] at hm₁
      cases result with
      | error i => exact hm₁
      | ok table => exact h.pop (hrun f.body _ (henters heval hkeeps hm hbound hm₁)).1

end Preserves

/-- What outlasts each step outlasts every evaluation. -/
theorem Composed.preserves (hlasting : Store.Lasting inv) (henters : Enters inv) (h : Composed act) :
    Preserves inv act := by
  induction h with
  | pure => exact Yields.pure trivial
  | throw => exact Yields.throw trivial
  | andThen _ _ hact hf => exact hact.andThen hf
  | catching _ hact => exact .of_run fun m hm => (hact m hm).1
  | located span _ hact => exact Preserves.located span hact
  | look _ _ hf => exact Yields.get.andThen hf
  | onRecord => exact Preserves.onRecord
  | onWorld => exact .of_run fun _ hm => hm
  | setGlobal _ v => exact Yields.modify fun _ hm => hlasting.scalar ⟨.globals, _⟩ v hm
  | assignVariable name v => exact .of_run fun m hm => (Preserves.assignSlot hlasting _ v m hm).1
  | assignGlobal name v => exact (Preserves.assignSlot hlasting _ v).andThen fun _ => Yields.pure trivial
  | arrayNamed name => exact Preserves.arrayNamed hlasting name
  | changeArray id htidy => exact .of_run fun m hm => hlasting.setArray id hm (htidy _)
  | modifyInput f => exact Yields.modify fun _ hm => hm
  | inputFailed => exact Yields.modify fun _ hm => hm
  | setRandom _ _ => exact .of_run fun _ hm => hm
  | callWith heval _ _ function args hkeeps hrun hbind =>
    exact Preserves.callWith hlasting henters heval hkeeps hrun hbind function args

end Eval

end Awk
