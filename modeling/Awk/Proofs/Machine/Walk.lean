import Awk.Proofs.Machine.Composed
import Awk.Proofs.Machine.Path

/-!
# Every evaluation walks

However an evaluation ends, the state has come by some path to one with the same running calls (`walks_eval`): each kind
of step that evaluations are composed of walks (`Composed.walks`).
-/

namespace Awk.Eval

variable {m : Machine} {eval : Evaluate}

/-! ### Names, arrays and subscripts -/

theorem walks_convfmt : Walks convfmt := Walks.get.andThen fun _ => Walks.ofExcept

theorem walks_setting (name : String) : Walks (setting name) := Walks.get.andThen fun _ => Walks.ofExcept

theorem walks_textOf (v : Value) : Walks (textOf v) := walks_convfmt.andThen fun _ => Walks.ofExcept

theorem walks_slotOf (name : Text) : Walks (slotOf name) := Walks.get.andThen fun _ => Walks.pure

/-- What is assigned to is found from within the innermost call, or is global. -/
theorem walksTo_assignSlot (hm : m.store.Scoped) {slot : Slot}
    (hslot : slot.scope = .globals ∨ slot = m.store.slotOf slot.name) (v : Value) :
    m.WalksTo ((assignSlot slot v).run m).2 := by
  unfold assignSlot
  rw [Action.run_bind, Action.run_get]
  dsimp only
  cases hset : m.store.setScalar slot v with
  | error f => exact .refl m
  | ok store =>
    cases hcount : isFieldCount slot with
    | true =>
      have hrecord : Walks (do
          let count ← ofExcept v.toNumber.toInt
          onRecord fun vars => Record.setCount vars count
          return Value.ofInt count) :=
        Walks.ofExcept.andThen fun _ => Walks.onRecord.andThen fun _ => Walks.pure
      exact hrecord m hm
    | false => exact .of_change (.assign hslot hcount hset) hm

theorem walks_assignVariable (name : Text) (v : Value) : Walks (assignVariable name v) :=
  fun _ hm => walksTo_assignSlot hm (.inr rfl) v

theorem walks_assignGlobal (name : Text) (v : Value) : Walks (assignGlobal name v) :=
  Walks.andThen (fun _ hm => walksTo_assignSlot hm (.inl rfl) v) fun _ => Walks.pure

theorem walks_arrayNamed (name : Text) : Walks (arrayNamed name) := by
  intro m hm
  unfold arrayNamed slotOf
  simp only [Action.run_bind, Action.run_get, Action.run_pure]
  cases harray : m.store.arrayAt (m.store.slotOf name) with
  | error f => exact .refl m
  | ok made => exact .of_change (.array harray) hm

theorem walks_array (id : Nat) : Walks (array id) := Walks.get.andThen fun _ => Walks.pure

theorem walks_setArray (id : Nat) (a : Assoc) : Walks (setArray id a) := Walks.modify fun m => .element m id a

theorem walks_textsOf (heval : ∀ e, Walks (eval e)) (format : Text) (es : List Expr) :
    Walks (textsOf eval format es) := by
  induction es with
  | nil => exact Walks.pure
  | cons e es ih =>
    exact (heval e).andThen fun _ => Walks.ofExcept.andThen fun _ => ih.andThen fun _ => Walks.pure

theorem walks_subscriptKey (heval : ∀ e, Walks (eval e)) (subscripts : List Expr) :
    Walks (subscriptKey eval subscripts) := by
  refine walks_convfmt.andThen fun format => ?_
  refine (walks_textsOf heval format subscripts).andThen fun texts => ?_
  split
  · exact Walks.pure
  · exact (walks_setting _).andThen fun _ => Walks.pure

/-! ### Calls -/

/-- A binding refers, if to anything, to what can be bound. -/
def Refers (m : Machine) (b : Binding) : Prop := ∀ slot, b = .untyped (some slot) → m.store.Has slot

theorem Refers.walksTo {m' : Machine} {b : Binding} (h : Refers m b) (hm : m.store.Scoped) (hwalk : m.WalksTo m') :
    Refers m' b :=
  fun slot hb => hwalk.has hm (h slot hb)

/-- An argument is bound to what can be bound, where it is not bound by its value. -/
theorem walks_bindArgument (heval : ∀ e, Walks (eval e)) (arg : Expr) :
    Walks (bindArgument eval arg) ∧ ∀ {m m' b}, (bindArgument eval arg).run m = (.ok b, m') → Refers m' b := by
  have hvalue : Walks (do return Binding.scalar (← eval arg)) := (heval arg).andThen fun _ => Walks.pure
  have hscalar : ∀ {m m' b}, (do return Binding.scalar (← eval arg) : Eval Binding).run m = (.ok b, m') →
      Refers m' b := by
    intro m m' b hrun
    rw [Action.run_bind] at hrun
    split at hrun
    · cases hrun
      exact fun _ hb => by cases hb
    · cases hrun
  unfold bindArgument
  dsimp only
  split
  · rename_i name
    constructor
    · refine (walks_slotOf _).andThen fun slot => Walks.get.andThen fun m => ?_
      split
      · exact Walks.pure
      · exact Walks.pure
      · exact hvalue
      · split
        · exact hvalue
        · exact Walks.pure
    · intro m m' b hrun
      simp only [slotOf, Action.run_bind, Action.run_get, Action.run_pure] at hrun
      have hslot : Refers m (.untyped (some (m.store.slotOf name.text))) :=
        fun _ hb => by cases hb; exact m.store.has_slotOf name.text
      split at hrun
      · cases hrun
        exact fun _ hb => by cases hb
      · cases hrun
        exact hslot
      · exact hscalar hrun
      · split at hrun
        · exact hscalar hrun
        · cases hrun
          exact hslot
  · exact ⟨hvalue, hscalar⟩

/-- The parameters of a call, bound. -/
theorem walks_bindArguments (heval : ∀ e, Walks (eval e)) (params : List Text) (args : List Expr) :
    Walks (bindArguments eval params args) ∧
      ∀ {m m' table}, m.store.Scoped → (bindArguments eval params args).run m = (.ok table, m') →
        table.map Prod.fst = params ∧ ∀ entry ∈ table, Refers m' entry.2 := by
  induction params generalizing args with
  | nil =>
    refine ⟨Walks.pure, fun _ hrun => ?_⟩
    cases hrun
    exact ⟨rfl, List.forall_mem_nil _⟩
  | cons param params ih =>
    cases args with
    | nil =>
      obtain ⟨hwalks, hbinds⟩ := ih []
      refine ⟨hwalks.andThen fun _ => Walks.pure, fun {m m' table} hm hrun => ?_⟩
      unfold bindArguments at hrun
      rw [Action.run_bind] at hrun
      split at hrun
      · rename_i rest m₁ hrest
        cases hrun
        obtain ⟨hparams, hrefers⟩ := hbinds hm hrest
        refine ⟨by rw [List.map_cons, hparams], List.forall_mem_cons.2 ⟨fun _ hb => ?_, hrefers⟩⟩
        cases hb
      · cases hrun
    | cons arg args =>
      obtain ⟨hwalks, hbinds⟩ := ih args
      obtain ⟨hwalks', hrefers'⟩ := walks_bindArgument heval arg
      refine ⟨hwalks'.andThen fun _ => hwalks.andThen fun _ => Walks.pure, fun {m m' table} hm hrun => ?_⟩
      unfold bindArguments at hrun
      rw [Action.run_bind] at hrun
      split at hrun
      · rename_i b m₁ hb
        have hwalk₁ : m.WalksTo m₁ := by simpa [hb] using hwalks' m hm
        rw [Action.run_bind] at hrun
        split at hrun
        · rename_i rest hrest
          cases hrun
          have hwalk₂ : m₁.WalksTo m' := by simpa [hrest] using hwalks m₁ (hwalk₁.scoped hm)
          obtain ⟨hparams, hrefers⟩ := hbinds (hwalk₁.scoped hm) hrest
          -- What the argument refers to is still there when the others have been evaluated.
          have hfirst : Refers m' b := (hrefers' hb).walksTo (hwalk₁.scoped hm) hwalk₂
          exact ⟨by rw [List.map_cons, hparams], List.forall_mem_cons.2 ⟨hfirst, hrefers⟩⟩
        · cases hrun
      · cases hrun

/-- The table with which a call is entered. -/
theorem enters_of_bindArguments (heval : ∀ e, Walks (eval e)) {params : List Text} {args : List Expr} {table : Table}
    {m₁ : Machine} (hm : m.store.Scoped) (hbound : (bindArguments eval params args).run m = (.ok table, m₁)) :
    m.WalksTo m₁ ∧ table.map Prod.fst = params ∧
      ∀ {name slot}, table.lookup name = some (.untyped (some slot)) → m₁.store.Has slot := by
  obtain ⟨hwalks, hbinds⟩ := walks_bindArguments heval params args
  have hwalk₁ := hwalks m hm
  rw [hbound] at hwalk₁
  obtain ⟨hparams, hrefers⟩ := hbinds hm hbound
  refine ⟨hwalk₁, hparams, fun {name slot} hlookup => ?_⟩
  obtain ⟨before, after, rfl, -⟩ := List.lookup_eq_some_iff.1 hlookup
  exact hrefers (name, .untyped (some slot)) (by simp) slot rfl

/-- What a call gives when its body has ended. -/
def returned : Except Interruption Unit → Except Interruption Value
  | .ok () => .ok .unset
  | .error (.return v) => .ok v
  | .error other => .error other

/-- The function that is called, if it is defined and takes the arguments. -/
def callee (functions : List Function) (function : Token) (args : List Expr) : Except Interruption Function :=
  match functions.find? fun f => f.name == function.text with
  | none => .error (.failure ⟨.undefinedFunction function.text, none⟩)
  | some f =>
    if f.params.length < args.length then
      .error (.failure ⟨.tooManyArguments f.name args.length f.params.length, none⟩)
    else .ok f

theorem mem_of_callee {functions : List Function} {function : Token} {args : List Expr} {f : Function}
    (h : callee functions function args = .ok f) : f ∈ functions := by
  unfold callee at h
  split at h
  · cases h
  · rename_i hfound
    split at h
    · cases h
    · cases h
      exact List.mem_of_find?_eq_some hfound

/-- The arguments are bound, and the body runs within. -/
theorem run_callWith_eq (run : Stmt → Eval Unit) (function : Token) (args : List Expr) :
    (callWith eval run function args).run m =
      match callee m.functions function args with
      | .error i => (.error i, m)
      | .ok f =>
        match (bindArguments eval f.params args).run m with
        | (.ok table, m₁) =>
          (returned ((run f.body).run (m₁.enter table)).1, ((run f.body).run (m₁.enter table)).2.leave)
        | (.error i, m₁) => (.error i, m₁) := by
  unfold callWith callee
  rw [Action.run_bind, Action.run_get]
  dsimp only
  cases m.functions.find? fun f => f.name == function.text with
  | none => rfl
  | some f =>
    dsimp only
    split
    · rfl
    · rw [Action.run_bind]
      dsimp only
      rcases (bindArguments eval f.params args).run m with ⟨i | table, m₁⟩
      · rfl
      · have hbody : (catching (run f.body)).run (m₁.enter table) =
            (.ok ((run f.body).run (m₁.enter table)).1, ((run f.body).run (m₁.enter table)).2) := rfl
        unfold Machine.enter at hbody ⊢
        dsimp only
        simp only [Action.run_bind, Action.run_modify, hbody]
        rcases (run f.body).run _ with ⟨i | u, m₂⟩
        · cases i <;> rfl
        · rfl

/-- A call of a function that takes the arguments. -/
theorem run_callWith {run : Stmt → Eval Unit} {function : Token} {args : List Expr} {f : Function}
    (hfound : m.functions.find? (fun f => f.name == function.text) = some f) (hcount : args.length ≤ f.params.length) :
    (callWith eval run function args).run m =
      match (bindArguments eval f.params args).run m with
      | (.ok table, m₁) =>
        (returned ((run f.body).run (m₁.enter table)).1, ((run f.body).run (m₁.enter table)).2.leave)
      | (.error i, m₁) => (.error i, m₁) := by
  have hcallee : callee m.functions function args = .ok f := by
    rw [callee, hfound]
    exact if_neg (Nat.not_lt.2 hcount)
  rw [run_callWith_eq, hcallee]

/-- A call is left however its body ends. -/
theorem walks_callWith (heval : ∀ e, Walks (eval e)) {run : Stmt → Eval Unit} (hrun : ∀ s, Walks (run s))
    (function : Token) (args : List Expr) : Walks (callWith eval run function args) := by
  intro m hm
  rw [run_callWith_eq]
  cases hcallee : callee m.functions function args with
  | error i => exact .refl m
  | ok f =>
    have hwalk₁ := (walks_bindArguments heval f.params args).1 m hm
    dsimp only
    generalize hbound : (bindArguments eval f.params args).run m = bound at hwalk₁
    obtain ⟨i | table, m₁⟩ := bound
    · exact hwalk₁
    · obtain ⟨hwalk₁, hparams, htable⟩ := enters_of_bindArguments heval hm hbound
      have hbody := hrun f.body (m₁.enter table) ((hwalk₁.scoped hm).push htable)
      exact hwalk₁.trans (.call (hwalk₁.path.functions ▸ mem_of_callee hcallee) hparams htable hbody)

/-! ### Everything at once -/

theorem Composed.walks {α : Type} {act : Eval α} (h : Composed act) : Walks act := by
  induction h with
  | pure => exact Walks.pure
  | throw => exact Walks.throw
  | andThen _ _ hact hf => exact hact.andThen hf
  | catching _ hact => exact Walks.catching hact
  | located span _ hact => exact Walks.located span hact
  | look _ _ hf => exact Walks.get.andThen hf
  | onRecord => exact Walks.onRecord
  | onWorld => exact Walks.onWorld
  | setGlobal hname v => exact Walks.modify fun m => .maintain m hname v
  | assignVariable name v => exact walks_assignVariable name v
  | assignGlobal name v => exact walks_assignGlobal name v
  | arrayNamed name => exact walks_arrayNamed name
  | changeArray id _ => exact (walks_array id).andThen fun _ => (walks_setArray id _).andThen fun _ => Walks.pure
  | modifyInput f => exact Walks.aside (fun _ => rfl) (fun _ => rfl) (fun _ => rfl) fun _ => rfl
  | inputFailed => exact Walks.aside (fun _ => rfl) (fun _ => rfl) (fun _ => rfl) fun _ => rfl
  | setRandom _ _ => exact fun _ hm => .of_change (.aside rfl rfl rfl rfl) hm
  | callWith _ _ _ function args heval hrun => exact walks_callWith heval hrun function args

/-- What walks with a fuel. -/
structure WalksEval (fuel : Nat) : Prop where
  expr : ∀ e, Walks (expr fuel e)
  call : ∀ function args, Walks (call fuel function args)
  stmt : ∀ s, Walks (stmt fuel s)

theorem walks_eval (fuel : Nat) : WalksEval fuel where
  expr e := ((composed_eval fuel).expr e).walks
  call function args := ((composed_eval fuel).call function args).walks
  stmt s := ((composed_eval fuel).stmt s).walks

/-! ### Whole programs -/

theorem walks_setActive (rule : Nat) (active : Bool) : Walks (setActive rule active) :=
  Walks.aside (fun _ => rfl) (fun _ => rfl) (fun _ => rfl) fun _ => rfl

theorem walks_applies (fuel rule : Nat) (selector : Option Selector) : Walks (applies fuel rule selector) := by
  have hholds (e : Expr) := (composed_holds (composed_eval fuel).expr e).walks
  cases selector with
  | none => exact Walks.pure
  | some s =>
    cases s with
    | single span test => exact hholds test
    | range span first last =>
      have hend : Walks (do
          if ← holds (expr fuel) last then setActive rule false
          return true) := by
        refine (hholds last).andThen fun b => ?_
        split
        · exact (walks_setActive rule false).andThen fun _ => Walks.pure
        · exact Walks.pure
      refine Walks.get.andThen fun m => ?_
      dsimp only
      split
      · refine (hholds first).andThen fun b => ?_
        split
        · exact Walks.pure
        · exact (walks_setActive rule true).andThen fun _ => hend
      · exact hend

theorem walks_runRules (fuel rule : Nat) (rules : List Rule) : Walks (runRules fuel rule rules) := by
  induction rules generalizing rule with
  | nil => exact Walks.pure
  | cons r rules ih =>
    refine (walks_applies fuel rule r.selector).andThen fun b => ?_
    split
    · exact (composed_runAction fuel r.action).walks.andThen fun _ => ih _
    · exact ih _

theorem walks_runRecords (rules : List Rule) (fuel : Nat) : Walks (runRecords rules fuel) := by
  induction fuel with
  | zero => exact Walks.throw
  | succ fuel ih =>
    refine (composed_nextRecord fuel).walks.andThen fun record => ?_
    cases record with
    | none => exact Walks.pure
    | some t =>
      refine Walks.onRecord.andThen fun _ => ?_
      refine (Walks.catching (walks_runRules fuel 0 rules)).andThen fun outcome => ?_
      split
      · exact ih
      · exact ih
      · exact composed_skipFile.walks.andThen fun _ => ih
      · exact Walks.throw

theorem walks_catchingExit {act : Eval Unit} (h : Walks act) : Walks (catchingExit act) := by
  refine (Walks.catching h).andThen fun outcome => ?_
  split
  · exact Walks.aside (fun _ => rfl) (fun _ => rfl) (fun _ => rfl) fun _ => rfl
  · exact Walks.throw
  · exact Walks.pure

theorem walks_runParts (fuel : Nat) (parts : Parts) : Walks (runParts fuel parts) := by
  have hactions (rule : String) (actions : List Stmt) := (composed_runOutsideRecords fuel rule actions).walks
  have hbefore : Walks (do
      runOutsideRecords fuel "BEGIN" parts.begins
      if parts.needsInput then runRecords parts.rules fuel) := by
    refine (hactions _ _).andThen fun _ => ?_
    split
    · exact walks_runRecords parts.rules fuel
    · exact Walks.pure
  exact (walks_catchingExit hbefore).andThen fun _ => walks_catchingExit (hactions _ _)

end Awk.Eval
