import Awk.Proofs.Machine.Bindings
import Awk.Proofs.Machine.Expr
import Awk.Proofs.Machine.Keys
import Awk.Proofs.Output.Events
import Awk.Run

/-!
# What evaluations are composed of

Whatever is evaluated, it is composed of a few kinds of steps (`Eval.Composed`): the state is looked at, but not which
range rules are in a range, and the store, the record and the random numbers are changed in the ways listed there, the
world by events; calls are entered and left.  There is one lemma for each operation; then expressions, calls,
statements and loops together by induction on the fuel (`composed_eval`).  What each step keeps, every evaluation keeps.
-/

namespace Awk.Eval

/-- The action is put together from steps of these kinds. -/
inductive Composed : {α : Type} → Eval α → Prop
  | pure {α : Type} {a : α} : Composed (Pure.pure a)
  | throw {α : Type} {i : Interruption} : Composed (MonadExcept.throw i : Eval α)
  | andThen {α β : Type} {act : Eval α} {f : α → Eval β} (hact : Composed act) (hf : ∀ a, Composed (f a)) :
    Composed (act >>= f)
  | catching {α : Type} {act : Eval α} (h : Composed act) : Composed (catching act)
  | located {α : Type} {act : Eval α} (span : Option Span) (h : Composed act) : Composed (located span act)
  /-- What is done next does not depend on the rules that are in a range. -/
  | look {α : Type} {f : Machine → Eval α} (hranges : ∀ m ranges, f { m with activeRanges := ranges } = f m)
    (hf : ∀ m, Composed (f m)) : Composed (MonadState.get >>= f)
  | onRecord {α : Type} {act : Variables → Record.Action α} : Composed (onRecord act)
  | onWorld {α : Type} {e : World.Event} {act : World.Action α} (h : e.Is act) : Composed (onWorld act)
  | setGlobal {name : String} (hname : name ∈ Store.maintained) (v : Value) : Composed (setGlobal name v)
  | assignVariable (name : Text) (v : Value) : Composed (assignVariable name v)
  | assignGlobal (name : Text) (v : Value) : Composed (assignGlobal name v)
  | arrayNamed (name : Text) : Composed (arrayNamed name)
  /-- An array is changed in place, and no key stands in it twice because of that. -/
  | changeArray {α : Type} {f : Assoc → α × Assoc} (id : Nat) (htidy : ∀ a : Assoc, a.Tidy → (f a).2.Tidy) :
    Composed (do
      let a ← array id
      setArray id (f a).2
      return (f a).1)
  | modifyInput (f : MainInput → MainInput) : Composed (modifyInput f)
  | inputFailed : Composed (modify fun m => { m with inputFailed := true } : Eval PUnit)
  | setRandom {random : Machine → Random} {v : Machine → Value}
    (hrandom : ∀ m ranges, random { m with activeRanges := ranges } = random m)
    (hv : ∀ m ranges, v { m with activeRanges := ranges } = v m) :
    Composed (do
      let m ← MonadState.get
      MonadStateOf.set { m with random := random m }
      return v m : Eval Value)
  | callWith {eval : Evaluate} {run : Stmt → Eval Unit} (heval : ∀ e, Composed (eval e)) (hrun : ∀ s, Composed (run s))
    (hbind : ∀ params args, Composed (bindArguments eval params args)) (function : Token) (args : List Expr) :
    Composed (callWith eval run function args)

namespace Composed

variable {α β : Type}

theorem fail {f : Fault} : Composed (Eval.fail f : Eval α) := throw

/-- Nothing follows an interruption. -/
theorem stop {i : Interruption} {f : α → Eval β} : Composed ((MonadExcept.throw i : Eval α) >>= f) :=
  throw (i := i)

theorem ofExcept {x : Except Fault α} : Composed (Eval.ofExcept x) := by
  cases x with
  | ok a => exact pure
  | error f => exact fail

end Composed

variable {eval : Evaluate}

/-! ### Settings and counters -/

theorem composed_convfmt : Composed convfmt := Composed.look (fun _ _ => rfl) fun _ => Composed.ofExcept

theorem composed_setting (name : String) : Composed (setting name) := Composed.look (fun _ _ => rfl) fun _ => Composed.ofExcept

theorem composed_counter (name : String) : Composed (counter name) := Composed.look (fun _ _ => rfl) fun _ => Composed.pure

theorem composed_textOf (v : Value) : Composed (textOf v) := composed_convfmt.andThen fun _ => Composed.ofExcept

/-! ### Variables and targets -/

theorem composed_slotOf (name : Text) : Composed (slotOf name) := Composed.look (fun _ _ => rfl) fun _ => Composed.pure

theorem composed_readSlot (slot : Slot) : Composed (readSlot slot) := by
  unfold readSlot
  split
  · exact Composed.onRecord.andThen fun _ => Composed.pure
  · exact Composed.look (fun _ _ => rfl) fun _ => Composed.ofExcept

theorem composed_readVariable (name : Text) : Composed (readVariable name) := (composed_slotOf name).andThen composed_readSlot

theorem composed_array (id : Nat) : Composed (array id) := Composed.look (fun _ _ => rfl) fun _ => Composed.pure

theorem composed_setArray (id : Nat) {a : Assoc} (ha : a.Tidy) : Composed (setArray id a) :=
  Composed.changeArray (f := fun _ => (PUnit.unit, a)) id fun _ _ => ha

theorem composed_element (id : Nat) (key : Text) : Composed (element id key) :=
  Composed.changeArray id fun _ ha => ha.fetch key

theorem composed_readTarget (target : Target) : Composed (readTarget target) := by
  cases target with
  | var name => exact composed_readVariable name
  | element id key => exact composed_element id key
  | field index =>
    unfold readTarget
    exact Composed.onRecord

theorem composed_assignTarget (target : Target) (v : Value) : Composed (assignTarget target v) := by
  cases target with
  | var name => exact Composed.assignVariable name v
  | element id key => exact Composed.changeArray (f := fun a => (v, a.insert key v)) id fun _ ha => ha.insert key v
  | field index => exact Composed.onRecord.andThen fun _ => Composed.pure

/-! ### The main input -/

theorem composed_applyAssignment (t : Text) : Composed (applyAssignment t) := by
  unfold applyAssignment
  split
  · exact Composed.pure
  · exact (Composed.assignGlobal _ _).andThen fun _ => Composed.pure

theorem composed_operand (index : Nat) : Composed (operand index) := by
  refine Composed.look (fun _ _ => rfl) fun m => ?_
  split
  · split
    · exact (composed_textOf _).andThen fun _ => Composed.pure
    · exact Composed.pure
  · exact Composed.pure

theorem composed_startFile (name : Text) (i : Input) : Composed (startFile name i) := by
  refine (Composed.modifyInput _).andThen fun _ => ?_
  exact (Composed.setGlobal (by decide) _).andThen fun _ => Composed.setGlobal (by decide) _

theorem composed_openOperand (t : Text) : Composed (openOperand t) := by
  unfold openOperand
  split
  · exact Composed.pure
  · refine (composed_applyAssignment t).andThen fun applied => ?_
    split
    · exact Composed.pure
    · refine (Composed.modifyInput _).andThen fun _ => ?_
      refine (Composed.onWorld (.observed (.openFile t))).andThen fun opened => ?_
      split
      · exact (composed_startFile _ _).andThen fun _ => Composed.pure
      · refine (Composed.onWorld (.warnAlways _)).andThen fun _ => ?_
        exact Composed.inputFailed.andThen fun _ => Composed.pure
      · exact Composed.fail

theorem composed_openNext (fuel : Nat) : Composed (openNext fuel) := by
  induction fuel with
  | zero => exact Composed.throw
  | succ fuel ih =>
    refine Composed.look (fun _ _ => rfl) fun m => ?_
    refine (composed_counter _).andThen fun _ => ?_
    refine Composed.ofExcept.andThen fun count => ?_
    split
    · refine (composed_operand _).andThen fun t => ?_
      refine (Composed.modifyInput _).andThen fun _ => ?_
      refine (composed_openOperand _).andThen fun opened => ?_
      split
      · exact Composed.pure
      · exact ih
    · refine Composed.look (fun _ _ => rfl) fun m => ?_
      split
      · exact Composed.pure
      · refine (Composed.modifyInput _).andThen fun _ => ?_
        exact (composed_startFile _ _).andThen fun _ => Composed.pure

theorem composed_countUp {name : String} (hname : name ∈ Store.maintained) : Composed (countUp name) :=
  (composed_counter name).andThen fun _ => Composed.setGlobal hname _

theorem composed_skipFile : Composed skipFile := Composed.modifyInput _

theorem composed_nextRecord (fuel : Nat) : Composed (nextRecord fuel) := by
  induction fuel with
  | zero => exact Composed.throw
  | succ fuel ih =>
    refine Composed.look (fun _ _ => rfl) fun m => ?_
    dsimp only
    split
    · exact Composed.pure
    · split
      · refine (composed_openNext fuel).andThen fun opened => ?_
        split
        · exact ih
        · exact (Composed.modifyInput _).andThen fun _ => Composed.pure
      · refine (composed_setting _).andThen fun separator => ?_
        refine (Composed.onWorld (.readInput _ separator)).andThen fun (record, i) => ?_
        refine (Composed.modifyInput _).andThen fun _ => ?_
        refine Composed.ofExcept.andThen fun t => ?_
        cases t with
        | some t =>
          exact (composed_countUp (by decide)).andThen fun _ => (composed_countUp (by decide)).andThen fun _ => Composed.pure
        | none => exact composed_skipFile.andThen fun _ => ih

/-! ### Operands -/

theorem composed_valuesOf (heval : ∀ e, Composed (eval e)) (es : List Expr) : Composed (valuesOf eval es) := by
  induction es with
  | nil => exact Composed.pure
  | cons e es ih => exact (heval e).andThen fun _ => ih.andThen fun _ => Composed.pure

theorem composed_textsOf (heval : ∀ e, Composed (eval e)) (format : Text) (es : List Expr) :
    Composed (textsOf eval format es) := by
  induction es with
  | nil => exact Composed.pure
  | cons e es ih =>
    exact (heval e).andThen fun _ => Composed.ofExcept.andThen fun _ => ih.andThen fun _ => Composed.pure

theorem composed_subscriptKey (heval : ∀ e, Composed (eval e)) (subscripts : List Expr) :
    Composed (subscriptKey eval subscripts) := by
  refine composed_convfmt.andThen fun format => ?_
  refine (composed_textsOf heval format subscripts).andThen fun texts => ?_
  split
  · exact Composed.pure
  · exact (composed_setting _).andThen fun _ => Composed.pure

theorem composed_targetOf (heval : ∀ e, Composed (eval e)) (target : LValue) : Composed (targetOf eval target) := by
  cases target with
  | var name => exact Composed.pure
  | index span array subscripts subscriptsAt =>
    refine (composed_subscriptKey heval subscripts).andThen fun _ => ?_
    exact (Composed.arrayNamed _).andThen fun _ => Composed.pure
  | field span index => exact (heval index).andThen fun _ => Composed.pure

theorem composed_holds (heval : ∀ e, Composed (eval e)) (e : Expr) : Composed (holds eval e) :=
  (heval e).andThen fun _ => Composed.pure

theorem composed_ereOf (heval : ∀ e, Composed (eval e)) (e : Expr) : Composed (ereOf eval e) := by
  unfold ereOf
  split
  · exact Composed.pure
  · exact (heval _).andThen composed_textOf

theorem composed_compiled (ere : Text) : Composed (compiled ere) := Composed.ofExcept

theorem composed_patternOf (heval : ∀ e, Composed (eval e)) (e : Expr) : Composed (patternOf eval e) :=
  (composed_ereOf heval e).andThen composed_compiled

theorem composed_recordText : Composed recordText := Composed.look (fun _ _ => rfl) fun _ => Composed.pure

/-! ### Built-in functions -/

theorem composed_argumentText (args : List Value) (i : Nat) : Composed (argumentText args i) := composed_textOf _

theorem composed_ofNonnegative (function : String) (f : Number → Number) (args : List Value) :
    Composed (ofNonnegative function f args) := by
  unfold ofNonnegative
  dsimp only
  split
  · exact Composed.ofExcept.andThen fun _ => Composed.stop
  · exact Composed.pure

/-- The random numbers are set by for themselves. -/
theorem composed_applyBuiltin (b : Builtin) (args : List Value) : Composed (applyBuiltin b args) := by
  cases b with
  | substr => exact (composed_argumentText args 0).andThen fun _ => Composed.ofExcept.andThen fun _ => Composed.pure
  | index =>
    exact (composed_argumentText args 0).andThen fun _ => (composed_argumentText args 1).andThen fun _ => Composed.pure
  | sprintf =>
    refine (composed_argumentText args 0).andThen fun format => ?_
    exact composed_convfmt.andThen fun _ => Composed.ofExcept.andThen fun _ => Composed.pure
  | tolower => exact (composed_argumentText args 0).andThen fun _ => Composed.pure
  | toupper => exact (composed_argumentText args 0).andThen fun _ => Composed.pure
  | log => exact composed_ofNonnegative _ _ args
  | sqrt => exact composed_ofNonnegative _ _ args
  | rand => exact Composed.setRandom (fun _ _ => rfl) fun _ _ => rfl
  | srand => exact Composed.setRandom (fun _ _ => rfl) fun _ _ => rfl
  | close =>
    refine (composed_argumentText args 0).andThen fun name => ?_
    exact (Composed.onWorld (.close name)).andThen fun _ => Composed.pure
  | fflush =>
    cases args with
    | nil => exact (Composed.onWorld .flushAll).andThen fun _ => Composed.pure
    | cons v args =>
      refine (composed_textOf v).andThen fun name => ?_
      exact (Composed.onWorld (.flush name)).andThen fun _ => Composed.pure
  | system =>
    refine (composed_argumentText args 0).andThen fun command => ?_
    exact (Composed.onWorld (.system command)).andThen fun _ => Composed.pure
  | _ => exact Composed.pure

theorem composed_length (heval : ∀ e, Composed (eval e)) (args : List Expr) : Composed (length eval args) := by
  cases args with
  | nil => exact composed_recordText.andThen fun _ => Composed.pure
  | cons e es =>
    have htext : Composed (do return Value.ofNat (← textOf (← eval e)).length) :=
      (heval e).andThen fun _ => (composed_textOf _).andThen fun _ => Composed.pure
    unfold length
    dsimp only
    split
    · refine (composed_slotOf _).andThen fun slot => ?_
      refine Composed.look (fun _ _ => rfl) fun m => ?_
      split
      · exact (composed_array _).andThen fun _ => Composed.pure
      · exact Composed.pure
      · exact htext
    · exact htext

theorem composed_piecesOf (heval : ∀ e, Composed (eval e)) (t : Text) (separator : Option Expr) :
    Composed (piecesOf eval t separator) := by
  unfold piecesOf
  split
  · exact (composed_compiled _).andThen fun _ => Composed.pure
  · exact (heval _).andThen fun v => (composed_textOf v).andThen fun _ => Composed.ofExcept
  · exact (composed_setting _).andThen fun _ => Composed.ofExcept

theorem composed_split (heval : ∀ e, Composed (eval e)) (text array : Expr) (separator : Option Expr) :
    Composed (split eval text array separator) := by
  refine (heval text).andThen fun v => ?_
  refine (composed_textOf v).andThen fun t => ?_
  split
  · refine (Composed.arrayNamed _).andThen fun id => ?_
    refine (composed_piecesOf heval t separator).andThen fun pieces => ?_
    exact (composed_setArray _ (Assoc.tidy_ofPieces _)).andThen fun _ => Composed.pure
  · exact Composed.fail

theorem composed_replaceIn (all : Bool) (format : Text) (p : Pattern) (new : Text) (target : Target) :
    Composed (do
      let old ← ofExcept ((← readTarget target).toText format)
      let (result, count) := substitute (p.search old) new old all
      if count != 0 then
        let _ ← assignTarget target (.str result)
      return Value.ofNat count) := by
  refine (composed_readTarget target).andThen fun v => ?_
  refine Composed.ofExcept.andThen fun old => ?_
  dsimp only
  split
  · exact (composed_assignTarget _ _).andThen fun _ => Composed.pure
  · exact Composed.pure

theorem composed_replace (heval : ∀ e, Composed (eval e)) (all : Bool) (pattern replacement : Expr)
    (target : Option Expr) : Composed (replace eval all pattern replacement target) := by
  refine composed_convfmt.andThen fun format => ?_
  refine (composed_patternOf heval pattern).andThen fun p => ?_
  refine (heval replacement).andThen fun v => ?_
  refine Composed.ofExcept.andThen fun new => ?_
  dsimp only
  split
  · exact composed_replaceIn all format p new _
  · exact (composed_targetOf heval _).andThen fun target => composed_replaceIn all format p new target
  · exact (heval _).andThen fun v => Composed.ofExcept.andThen fun _ => Composed.pure

theorem composed_findMatch (heval : ∀ e, Composed (eval e)) (text pattern : Expr) : Composed (findMatch eval text pattern) := by
  refine (heval text).andThen fun v => ?_
  refine (composed_textOf v).andThen fun t => ?_
  refine (composed_patternOf heval pattern).andThen fun p => ?_
  exact (Composed.setGlobal (by decide) _).andThen fun _ => (Composed.setGlobal (by decide) _).andThen fun _ => Composed.pure

theorem composed_callBuiltin (heval : ∀ e, Composed (eval e)) (b : Builtin) (args : List Expr) :
    Composed (callBuiltin eval b args) := by
  unfold callBuiltin
  dsimp only
  split
  · exact Composed.stop
  · split
    · exact composed_length heval _
    · exact composed_split heval _ _ _
    · exact composed_replace heval false _ _ _
    · exact composed_replace heval true _ _ _
    · exact composed_findMatch heval _ _
    · exact (composed_valuesOf heval _).andThen fun values => composed_applyBuiltin _ values

/-! ### Reading records -/

theorem composed_keepRecord (heval : ∀ e, Composed (eval e)) (target : Option LValue) (t : Text) :
    Composed (keepRecord eval target t) := by
  cases target with
  | none =>
    unfold keepRecord
    exact Composed.onRecord
  | some target =>
    refine (composed_targetOf heval target).andThen fun target => ?_
    exact (composed_assignTarget target _).andThen fun _ => Composed.pure

theorem composed_readStream (kind : World.InputKind) (name : Text) : Composed (readStream kind name) := by
  refine (composed_setting _).andThen fun separator => ?_
  refine (Composed.onWorld (.observed (.readNamed kind name _))).andThen fun outcome => ?_
  split
  · exact Composed.pure
  · exact (Composed.onWorld (.warn _)).andThen fun _ => Composed.pure
  · exact Composed.fail

theorem composed_getline (heval : ∀ e, Composed (eval e)) (fuel : Nat) (target : Option LValue) :
    Composed (getline eval fuel target) := by
  refine (composed_nextRecord fuel).andThen fun record => ?_
  cases record with
  | none => exact Composed.pure
  | some t => exact (composed_keepRecord heval target t).andThen fun _ => Composed.pure

theorem composed_getlineFile (heval : ∀ e, Composed (eval e)) (target : Option LValue) (file : Expr) :
    Composed (getlineFile eval target file) := by
  refine (heval file).andThen fun v => ?_
  refine (composed_textOf v).andThen fun name => ?_
  refine (composed_readStream _ name).andThen fun record => ?_
  split
  · exact Composed.pure
  · exact Composed.pure
  · exact (composed_keepRecord heval target _).andThen fun _ => Composed.pure

theorem composed_readCommand (heval : ∀ e, Composed (eval e)) (command : Text) (target : Option LValue) :
    Composed (readCommand eval command target) := by
  refine (composed_readStream _ command).andThen fun record => ?_
  split
  · exact Composed.pure
  · exact Composed.pure
  · exact (composed_countUp (by decide)).andThen fun _ => (composed_keepRecord heval target _).andThen fun _ => Composed.pure

theorem composed_getlineCommand (heval : ∀ e, Composed (eval e)) (command : Expr) (target : Option LValue) :
    Composed (getlineCommand eval command target) := by
  fun_induction getlineCommand eval command target with
  | case1 =>
    rename_i ih
    exact ih.andThen fun found => (composed_readCommand heval found.1 _).andThen fun _ => Composed.pure
  | case2 command target =>
    refine (heval command).andThen fun v => ?_
    refine (composed_textOf v).andThen fun name => ?_
    exact (composed_readCommand heval name target).andThen fun _ => Composed.pure

/-! ### Operators -/

theorem composed_assign (heval : ∀ e, Composed (eval e)) (target : LValue) (op : AssignOp) (right : Expr) :
    Composed (assign eval target op right) := by
  refine (composed_targetOf heval target).andThen fun target => ?_
  refine (heval right).andThen fun v => ?_
  cases op with
  | set => exact composed_assignTarget target v
  | update op =>
    refine (composed_readTarget target).andThen fun old => ?_
    exact Composed.ofExcept.andThen fun new => composed_assignTarget target new

theorem composed_stepTarget (heval : ∀ e, Composed (eval e)) (op : StepOp) (target : LValue) :
    Composed (stepTarget eval op target) := by
  refine (composed_targetOf heval target).andThen fun target => ?_
  refine (composed_readTarget target).andThen fun old => ?_
  exact (composed_assignTarget target _).andThen fun _ => Composed.pure

theorem composed_logical (heval : ∀ e, Composed (eval e)) (op : LogicalOp) (left right : Expr) :
    Composed (logical eval op left right) := by
  refine (composed_holds heval left).andThen fun l => ?_
  split
  · exact Composed.pure
  · exact Composed.pure
  · exact (composed_holds heval right).andThen fun _ => Composed.pure

theorem composed_evalWith (heval : ∀ e, Composed (eval e)) {call : Call} (hcall : ∀ function args, Composed (call function args))
    (fuel : Nat) (e : Expr) : Composed (evalWith eval call fuel e) := by
  cases e with
  | literal v => exact Composed.pure
  | number token => exact Composed.ofExcept
  | string token => exact Composed.pure
  | group span inner => exact heval inner
  | regex token => exact (composed_compiled _).andThen fun _ => composed_recordText.andThen fun _ => Composed.pure
  | lvalue target => exact (composed_targetOf heval target).andThen composed_readTarget
  | assign span target op token right => exact composed_assign heval target op right
  | conditional span test yes no =>
    refine (composed_holds heval test).andThen fun b => ?_
    split
    · exact heval yes
    · exact heval no
  | logical span op left right => exact composed_logical heval op left right
  | member span subscripts subscriptsAt array =>
    refine (composed_subscriptKey heval subscripts).andThen fun key => ?_
    refine (Composed.arrayNamed _).andThen fun id => ?_
    exact (composed_array id).andThen fun _ => Composed.pure
  | matching span left negated token right =>
    refine (heval left).andThen fun v => ?_
    refine (composed_textOf v).andThen fun t => ?_
    exact (composed_patternOf heval right).andThen fun _ => Composed.pure
  | compare span left op token right =>
    refine (heval left).andThen fun l => ?_
    refine (heval right).andThen fun r => ?_
    exact composed_convfmt.andThen fun _ => Composed.ofExcept.andThen fun _ => Composed.pure
  | concat span parts => exact composed_convfmt.andThen fun _ => (composed_textsOf heval _ parts).andThen fun _ => Composed.pure
  | arith span left op token right => exact (heval left).andThen fun _ => (heval right).andThen fun _ => Composed.ofExcept
  | sign span op token operand => exact (heval operand).andThen fun _ => Composed.pure
  | power span base exponent => exact (heval base).andThen fun _ => (heval exponent).andThen fun _ => Composed.pure
  | preStep span op token target => exact (composed_stepTarget heval op target).andThen fun _ => Composed.pure
  | postStep span target op token => exact (composed_stepTarget heval op target).andThen fun _ => Composed.pure
  | call span function args => exact hcall function args
  | builtin span function token args => exact composed_callBuiltin heval function args
  | getline span target => exact composed_getline heval fuel target
  | getlineFile span target file => exact composed_getlineFile heval target file
  | getlineCommand span command target => exact (composed_getlineCommand heval command target).andThen fun _ => Composed.pure

/-! ### Arguments -/

theorem composed_bindArgument (heval : ∀ e, Composed (eval e)) (arg : Expr) : Composed (bindArgument eval arg) := by
  have hvalue : Composed (do return Binding.scalar (← eval arg)) := (heval arg).andThen fun _ => Composed.pure
  unfold bindArgument
  dsimp only
  split
  · refine (composed_slotOf _).andThen fun slot => Composed.look (fun _ _ => rfl) fun m => ?_
    split
    · exact Composed.pure
    · exact Composed.pure
    · exact hvalue
    · split
      · exact hvalue
      · exact Composed.pure
  · exact hvalue

theorem composed_bindArguments (heval : ∀ e, Composed (eval e)) (params : List Text) (args : List Expr) :
    Composed (bindArguments eval params args) := by
  induction params generalizing args with
  | nil => exact Composed.pure
  | cons param params ih =>
    cases args with
    | nil => exact (ih []).andThen fun _ => Composed.pure
    | cons arg args =>
      exact (composed_bindArgument heval arg).andThen fun _ => (ih args).andThen fun _ => Composed.pure

/-! ### Statements -/

theorem composed_printed (heval : ∀ e, Composed (eval e)) (formatted : Bool) (items : List Expr) :
    Composed (printed eval formatted items) := by
  unfold printed
  split
  · refine (composed_valuesOf heval items).andThen fun values => ?_
    exact composed_convfmt.andThen fun _ => Composed.ofExcept
  · split
    · exact composed_recordText.andThen fun _ => (composed_setting _).andThen fun _ => Composed.pure
    · refine (composed_setting _).andThen fun format => ?_
      refine (composed_textsOf heval format items).andThen fun texts => ?_
      exact (composed_setting _).andThen fun _ => (composed_setting _).andThen fun _ => Composed.pure

theorem composed_print (heval : ∀ e, Composed (eval e)) (formatted : Bool) (items : List Expr) (redirect : Option Redirect) :
    Composed (print eval formatted items redirect) := by
  refine (composed_printed heval formatted items).andThen fun t => ?_
  cases redirect with
  | none => exact Composed.onWorld (.print t)
  | some r =>
    refine (heval r.target).andThen fun v => ?_
    refine (composed_textOf v).andThen fun name => ?_
    exact Composed.onWorld (.redirect r.op name t)

theorem composed_delete (heval : ∀ e, Composed (eval e)) (name : Text) (subscripts : Option Subscripts) :
    Composed (delete eval name subscripts) := by
  refine (Composed.arrayNamed name).andThen fun id => ?_
  cases subscripts with
  | none => exact composed_setArray id Assoc.tidy_empty
  | some s =>
    refine (composed_subscriptKey heval s.items).andThen fun key => ?_
    exact Composed.changeArray (f := fun a => (PUnit.unit, a.erase key)) id fun _ ha => ha.erase key

theorem composed_round {body : Eval Unit} (h : Composed body) : Composed (round body) := by
  refine (Composed.catching h).andThen fun outcome => ?_
  split
  · exact Composed.pure
  · exact Composed.pure
  · exact Composed.pure
  · exact Composed.throw

theorem composed_visit {body : Eval Unit} (h : Composed body) (element : Text) (id : Nat) (keys : List Text) :
    Composed (visit body element id keys) := by
  induction keys with
  | nil => exact Composed.pure
  | cons key keys ih =>
    refine (composed_array id).andThen fun a => ?_
    split
    · refine (Composed.assignVariable element _).andThen fun _ => ?_
      refine (composed_round h).andThen fun again => ?_
      split
      · exact ih
      · exact Composed.pure
    · exact ih

theorem composed_sequence {run : Stmt → Eval Unit} (h : ∀ s, Composed (run s)) (body : List Stmt) :
    Composed (sequence run body) := by
  induction body with
  | nil => exact Composed.pure
  | cons s body ih => exact (h s).andThen fun _ => ih

theorem composed_holdsOrAbsent (heval : ∀ e, Composed (eval e)) (test : Option Expr) : Composed (holdsOrAbsent eval test) := by
  cases test with
  | none => exact Composed.pure
  | some e => exact composed_holds heval e

/-! ### Everything at once -/

/-- What walks with a fuel. -/
structure ComposedEval (fuel : Nat) : Prop where
  expr : ∀ e, Composed (expr fuel e)
  call : ∀ function args, Composed (call fuel function args)
  stmt : ∀ s, Composed (stmt fuel s)
  loop : ∀ test update body, Composed (loop fuel test update body)

variable {fuel : Nat}

theorem composed_stmt (ih : ComposedEval fuel) (s : Stmt) : Composed (stmt (fuel + 1) s) := by
  refine Composed.located _ ?_
  cases s with
  | block span body => exact composed_sequence ih.stmt body
  | ifElse span test yes no =>
    refine (composed_holds ih.expr test).andThen fun b => ?_
    split
    · exact ih.stmt yes
    · cases no with
      | none => exact Composed.pure
      | some no => exact ih.stmt no
  | «while» span test body => exact ih.loop _ _ _
  | doWhile span body test =>
    refine (composed_round (ih.stmt body)).andThen fun again => ?_
    split
    · exact ih.loop _ _ _
    · exact Composed.pure
  | «for» span first test update body =>
    cases first with
    | none => exact ih.loop test update body
    | some first => exact (ih.stmt first).andThen fun _ => ih.loop test update body
  | forIn span element array body =>
    refine (Composed.arrayNamed _).andThen fun id => ?_
    exact (composed_array id).andThen fun _ => composed_visit (ih.stmt body) _ _ _
  | empty span => exact Composed.pure
  | print span token formatted items redirect => exact composed_print ih.expr formatted items redirect
  | delete span array subscripts => exact composed_delete ih.expr _ subscripts
  | «break» span => exact Composed.throw
  | «continue» span => exact Composed.throw
  | next span => exact Composed.throw
  | nextFile span => exact Composed.throw
  | exit span code =>
    cases code with
    | none => exact Composed.throw
    | some code => exact (ih.expr code).andThen fun _ => Composed.throw
  | «return» span value =>
    cases value with
    | none => exact Composed.throw
    | some value => exact (ih.expr value).andThen fun _ => Composed.throw
  | expr span e => exact (ih.expr e).andThen fun _ => Composed.pure

theorem composed_loop (ih : ComposedEval fuel) (test : Option Expr) (update : Option Stmt) (body : Stmt) :
    Composed (loop (fuel + 1) test update body) := by
  refine (composed_holdsOrAbsent ih.expr test).andThen fun b => ?_
  split
  · refine (composed_round (ih.stmt body)).andThen fun again => ?_
    split
    · cases update with
      | none => exact ih.loop test none body
      | some step => exact (ih.stmt step).andThen fun _ => ih.loop test (some step) body
    · exact Composed.pure
  · exact Composed.pure

theorem composed_eval (fuel : Nat) : ComposedEval fuel := by
  -- All four together, for each hands less fuel to the others.
  induction fuel with
  | zero =>
    exact {
      expr := fun _ => Composed.throw
      call := fun _ _ => Composed.throw
      stmt := fun _ => Composed.throw
      loop := fun _ _ _ => Composed.throw }
  | succ fuel ih =>
    exact {
      expr := fun e => Composed.located _ (composed_evalWith ih.expr ih.call fuel e)
      call := Composed.callWith ih.expr ih.stmt (composed_bindArguments ih.expr)
      stmt := composed_stmt ih
      loop := composed_loop ih }

/-! ### Whole programs -/

theorem composed_runOutsideRecords (fuel : Nat) (rule : String) (actions : List Stmt) :
    Composed (runOutsideRecords fuel rule actions) := by
  refine (Composed.catching (composed_sequence (composed_eval fuel).stmt actions)).andThen fun outcome => ?_
  split
  · exact Composed.fail
  · exact Composed.fail
  · exact Composed.throw
  · exact Composed.pure

theorem composed_runAction (fuel : Nat) (action : Option Stmt) : Composed (runAction fuel action) := by
  cases action with
  | none =>
    refine composed_recordText.andThen fun t => ?_
    exact (composed_setting _).andThen fun _ => Composed.onWorld (.print _)
  | some s => exact (composed_eval fuel).stmt s

theorem composed_findM? {α : Type} {p : α → Eval Bool} (hp : ∀ a, Composed (p a)) (l : List α) : Composed (l.findM? p) := by
  induction l with
  | nil => exact Composed.pure
  | cons a l ih =>
    refine (hp a).andThen fun b => ?_
    split
    · exact Composed.pure
    · exact ih

theorem composed_applyOptions (fieldSep : Option Text) (assignments : List Text) :
    Composed (applyOptions fieldSep assignments) := by
  have hrefused (t : Text) : Composed (do return !(← applyAssignment t)) :=
    (composed_applyAssignment t).andThen fun _ => Composed.pure
  unfold applyOptions
  cases fieldSep with
  | none =>
    refine (composed_findM? hrefused _).andThen fun found => ?_
    cases found <;> exact Composed.pure
  | some t =>
    refine (Composed.assignGlobal _ _).andThen fun _ => (composed_findM? hrefused _).andThen fun found => ?_
    cases found <;> exact Composed.pure

end Awk.Eval
