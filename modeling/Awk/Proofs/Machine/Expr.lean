import Awk.Proofs.Machine.Sound
import Awk.Proofs.Syntax.Parts

/-!
# Expressions are evaluated soundly

The value of a well-formed expression is computed soundly and steadily, provided that its operands are evaluated and
functions are called in this way (`steady_evalWith`).  So is a call, if the function is defined with enough parameters,
its arguments are well formed and bodies run in this way (`steady_callWith`).
-/

namespace Awk.Eval

variable {start : Machine} {jumps : Interruption → Prop} {accepts : Accepts} {eval : Evaluate}

/-- Well-formed expressions are evaluated soundly and steadily. -/
def Evaluates (start : Machine) (jumps : Interruption → Prop) (accepts : Accepts) (eval : Evaluate) : Prop :=
  ∀ {e : Expr}, e.WellFormed accepts true → Steady start jumps (eval e)

/-! ### Operands -/

theorem steady_valuesOf (heval : Evaluates start jumps accepts eval) {es : List Expr}
    (h : AllWellFormed accepts true es) : Steady start jumps (valuesOf eval es) := by
  induction es with
  | nil => exact Steady.pure
  | cons e es ih => exact (heval h.1).andThen fun _ => (ih h.2).andThen fun _ => Steady.pure

theorem steady_textsOf (heval : Evaluates start jumps accepts eval) (format : Text) {es : List Expr}
    (h : AllWellFormed accepts true es) : Steady start jumps (textsOf eval format es) := by
  induction es with
  | nil => exact Steady.pure
  | cons e es ih =>
    refine (heval h.1).andThen fun v => ?_
    exact (Steady.ofExcept (v.calm_toText _)).andThen fun _ => (ih h.2).andThen fun _ => Steady.pure

theorem steady_subscriptKey (heval : Evaluates start jumps accepts eval) {subscripts : List Expr}
    (h : AllWellFormed accepts true subscripts) : Steady start jumps (subscriptKey eval subscripts) := by
  refine steady_convfmt.andThen fun format => ?_
  refine (steady_textsOf heval format h).andThen fun texts => ?_
  split
  · exact Steady.pure
  · exact (steady_setting _).andThen fun _ => Steady.pure

theorem steady_targetOf (heval : Evaluates start jumps accepts eval) {target : LValue}
    (h : target.WellFormed accepts true) : Steady start jumps (targetOf eval target) := by
  cases target with
  | var name => exact Steady.pure
  | index span array subscripts subscriptsAt =>
    refine (steady_subscriptKey heval h).andThen fun _ => ?_
    exact (steady_arrayNamed _).andThen fun _ => Steady.pure
  | field span index =>
    have hindex : index.WellFormed accepts true := h
    exact (heval hindex).andThen fun _ => Steady.pure

theorem steady_holds (heval : Evaluates start jumps accepts eval) {e : Expr} (h : e.WellFormed accepts true) :
    Steady start jumps (holds eval e) :=
  (heval h).andThen fun _ => Steady.pure

theorem steady_ereOf (heval : Evaluates start jumps accepts eval) {e : Expr} (h : e.WellFormed accepts true) :
    Steady start jumps (ereOf eval e) := by
  unfold ereOf
  split
  · exact Steady.pure
  · exact (heval h).andThen steady_textOf

theorem steady_compiled (ere : Text) : Steady start jumps (compiled ere) := Steady.ofExcept (calm_compileEre ere)

theorem steady_patternOf (heval : Evaluates start jumps accepts eval) {e : Expr} (h : e.WellFormed accepts true) :
    Steady start jumps (patternOf eval e) :=
  (steady_ereOf heval h).andThen steady_compiled

theorem steady_recordText : Steady start jumps recordText := Steady.get.andThen fun _ => Steady.pure

/-! ### Built-in functions -/

theorem steady_argumentText (args : List Value) (i : Nat) : Steady start jumps (argumentText args i) := steady_textOf _

theorem steady_ofNonnegative (function : String) (f : Number → Number) (args : List Value) :
    Steady start jumps (ofNonnegative function f args) := by
  unfold ofNonnegative
  dsimp only
  split
  · refine (Steady.ofExcept (Value.calm_toText _ _)).andThen fun _ => ?_
    exact Yields.stop not_false
  · exact Steady.pure

theorem steady_sow (args : List Value) : Steady start jumps (sow args) := by
  refine Yields.get.bind fun m hm => ?_
  exact (Yields.set (by exact hm.trans (.of_eq rfl rfl rfl rfl))).andThen fun _ => Steady.pure

theorem steady_drawRandom : Steady start jumps drawRandom := by
  refine Yields.get.bind fun m hm => ?_
  exact (Yields.set (by exact hm.trans (.of_eq rfl rfl rfl rfl))).andThen fun _ => Steady.pure

theorem steady_applyBuiltin (b : Builtin) (args : List Value) : Steady start jumps (applyBuiltin b args) := by
  cases b with
  | substr =>
    refine (steady_argumentText args 0).andThen fun t => ?_
    exact (Steady.ofExcept (calm_substring ..)).andThen fun _ => Steady.pure
  | index =>
    exact (steady_argumentText args 0).andThen fun _ => (steady_argumentText args 1).andThen fun _ => Steady.pure
  | sprintf =>
    refine (steady_argumentText args 0).andThen fun format => ?_
    refine steady_convfmt.andThen fun convfmt => ?_
    exact (Steady.ofExcept (calm_sprintf ..)).andThen fun _ => Steady.pure
  | tolower => exact (steady_argumentText args 0).andThen fun _ => Steady.pure
  | toupper => exact (steady_argumentText args 0).andThen fun _ => Steady.pure
  | sin => exact Steady.pure
  | cos => exact Steady.pure
  | exp => exact Steady.pure
  | atan2 => exact Steady.pure
  | log => exact steady_ofNonnegative _ _ args
  | sqrt => exact steady_ofNonnegative _ _ args
  | int => exact Steady.pure
  | rand => exact steady_drawRandom
  | srand => exact steady_sow args
  | close =>
    refine (steady_argumentText args 0).andThen fun name => ?_
    exact (Steady.onWorld fun w => (World.robust_follows w).close name).andThen fun _ => Steady.pure
  | fflush =>
    cases args with
    | nil => exact (Steady.onWorld fun w => (World.robust_follows w).flushAll).andThen fun _ => Steady.pure
    | cons v args =>
      refine (steady_textOf v).andThen fun name => ?_
      exact (Steady.onWorld fun w => (World.robust_follows w).flush name).andThen fun _ => Steady.pure
  | system =>
    refine (steady_argumentText args 0).andThen fun command => ?_
    have hsystem (w : World) := (World.robust_follows w).system (World.robust_follows w).shared command
    exact (Steady.onWorld hsystem).andThen fun _ => Steady.pure
  | length => exact Steady.pure
  | split => exact Steady.pure
  | sub => exact Steady.pure
  | gsub => exact Steady.pure
  | «match» => exact Steady.pure

theorem steady_length (heval : Evaluates start jumps accepts eval) {args : List Expr}
    (h : AllWellFormed accepts true args) : Steady start jumps (length eval args) := by
  cases args with
  | nil => exact steady_recordText.andThen fun _ => Steady.pure
  | cons e es =>
    have htext : Steady start jumps (do return Value.ofNat (← textOf (← eval e)).length) :=
      (heval h.1).andThen fun _ => (steady_textOf _).andThen fun _ => Steady.pure
    unfold length
    dsimp only
    split
    · refine (steady_slotOf _).andThen fun slot => ?_
      refine Steady.get.andThen fun m => ?_
      split
      · exact (steady_array _).andThen fun _ => Steady.pure
      · exact Steady.pure
      · exact htext
    · exact htext

theorem steady_piecesOf (heval : Evaluates start jumps accepts eval) (t : Text) {separator : Option Expr}
    (h : ∀ e ∈ separator, e.WellFormed accepts true) : Steady start jumps (piecesOf eval t separator) := by
  unfold piecesOf
  split
  · exact (steady_compiled _).andThen fun _ => Steady.pure
  · refine (heval (h _ rfl)).andThen fun v => ?_
    exact (steady_textOf v).andThen fun _ => Steady.ofExcept (calm_splitFields ..)
  · exact (steady_setting _).andThen fun _ => Steady.ofExcept (calm_splitFields ..)

theorem steady_split (heval : Evaluates start jumps accepts eval) {text array : Expr} {separator : Option Expr}
    (htext : text.WellFormed accepts true) (hseparator : ∀ e ∈ separator, e.WellFormed accepts true) :
    Steady start jumps (split eval text array separator) := by
  refine (heval htext).andThen fun v => ?_
  refine (steady_textOf v).andThen fun t => ?_
  split
  · refine (steady_arrayNamed _).andThen fun id => ?_
    refine (steady_piecesOf heval t hseparator).andThen fun pieces => ?_
    exact (steady_setArray _ _).andThen fun _ => Steady.pure
  · exact Steady.fail not_false

theorem steady_replaceIn (all : Bool) (format : Text) (p : Pattern) (new : Text) (target : Target) :
    Steady start jumps (do
      let old ← ofExcept ((← readTarget target).toText format)
      let (result, count) := substitute (p.search old) new old all
      if count != 0 then
        let _ ← assignTarget target (.str result)
      return Value.ofNat count) := by
  refine (steady_readTarget target).andThen fun v => ?_
  refine (Steady.ofExcept (v.calm_toText _)).andThen fun old => ?_
  dsimp only
  split
  · exact (steady_assignTarget _ _).andThen fun _ => Steady.pure
  · exact Steady.pure

theorem steady_replace (heval : Evaluates start jumps accepts eval) (all : Bool) {pattern replacement : Expr}
    {target : Option Expr} (hpattern : pattern.WellFormed accepts true)
    (hreplacement : replacement.WellFormed accepts true) (htarget : ∀ e ∈ target, e.WellFormed accepts true) :
    Steady start jumps (replace eval all pattern replacement target) := by
  refine steady_convfmt.andThen fun format => ?_
  refine (steady_patternOf heval hpattern).andThen fun p => ?_
  refine (heval hreplacement).andThen fun v => ?_
  refine (Steady.ofExcept (v.calm_toText _)).andThen fun new => ?_
  dsimp only
  split
  · exact steady_replaceIn all format p new _
  · have hlvalue := htarget _ rfl
    exact (steady_targetOf heval hlvalue).andThen fun target => steady_replaceIn all format p new target
  · refine (heval (htarget _ rfl)).andThen fun v => ?_
    exact (Steady.ofExcept (v.calm_toText _)).andThen fun _ => Steady.pure

theorem steady_findMatch (heval : Evaluates start jumps accepts eval) {text pattern : Expr}
    (htext : text.WellFormed accepts true) (hpattern : pattern.WellFormed accepts true) :
    Steady start jumps (findMatch eval text pattern) := by
  refine (heval htext).andThen fun v => ?_
  refine (steady_textOf v).andThen fun t => ?_
  refine (steady_patternOf heval hpattern).andThen fun p => ?_
  dsimp only
  refine (steady_setGlobal _ _).andThen fun _ => ?_
  exact (steady_setGlobal _ _).andThen fun _ => Steady.pure

theorem wellFormed_of_mem_head? {es : List Expr} (h : AllWellFormed accepts true es) :
    ∀ e ∈ es.head?, e.WellFormed accepts true := by
  cases es with
  | nil => exact forall_mem_none
  | cons e es => exact forall_mem_some h.1

theorem steady_callBuiltin (heval : Evaluates start jumps accepts eval) (b : Builtin) {args : List Expr}
    (h : AllWellFormed accepts true args) : Steady start jumps (callBuiltin eval b args) := by
  unfold callBuiltin
  dsimp only
  split
  · exact Yields.stop not_false
  · split
    · exact steady_length heval h
    · exact steady_split heval h.1 (wellFormed_of_mem_head? h.2.2)
    · exact steady_replace heval false h.1 h.2.1 (wellFormed_of_mem_head? h.2.2)
    · exact steady_replace heval true h.1 h.2.1 (wellFormed_of_mem_head? h.2.2)
    · exact steady_findMatch heval h.1 h.2.1
    · exact (steady_valuesOf heval h).andThen fun values => steady_applyBuiltin _ values

/-! ### Reading records -/

theorem steady_keepRecord (heval : Evaluates start jumps accepts eval) {target : Option LValue}
    (h : TargetWellFormed accepts true target) (t : Text) : Steady start jumps (keepRecord eval target t) := by
  cases target with
  | none => exact Steady.onRecord fun vars => Record.calm_setText vars t
  | some target =>
    have htarget : target.WellFormed accepts true := h
    refine (steady_targetOf heval htarget).andThen fun target => ?_
    exact (steady_assignTarget target _).andThen fun _ => Steady.pure

theorem steady_readStream (kind : World.InputKind) (name : Text) : Steady start jumps (readStream kind name) := by
  refine (steady_setting _).andThen fun separator => ?_
  refine (Steady.onWorld fun _ =>
    ((World.robust_follows _).readNamed kind name separator).observed).bind fun outcome houtcome => ?_
  split
  · exact Steady.pure
  · exact (Steady.onWorld fun w => (World.robust_follows w).warn _).andThen fun _ => Steady.pure
  · exact Steady.fail houtcome

theorem steady_getline (heval : Evaluates start jumps accepts eval) (fuel : Nat) {target : Option LValue}
    (h : TargetWellFormed accepts true target) : Steady start jumps (getline eval fuel target) := by
  refine (steady_nextRecord fuel).andThen fun record => ?_
  cases record with
  | none => exact Steady.pure
  | some t => exact (steady_keepRecord heval h t).andThen fun _ => Steady.pure

theorem steady_getlineFile (heval : Evaluates start jumps accepts eval) {target : Option LValue} {file : Expr}
    (htarget : TargetWellFormed accepts true target) (hfile : file.WellFormed accepts true) :
    Steady start jumps (getlineFile eval target file) := by
  refine (heval hfile).andThen fun v => ?_
  refine (steady_textOf v).andThen fun name => ?_
  refine (steady_readStream _ name).andThen fun record => ?_
  split
  · exact Steady.pure
  · exact Steady.pure
  · exact (steady_keepRecord heval htarget _).andThen fun _ => Steady.pure

theorem steady_readCommand (heval : Evaluates start jumps accepts eval) (command : Text) {target : Option LValue}
    (h : TargetWellFormed accepts true target) : Steady start jumps (readCommand eval command target) := by
  refine (steady_readStream _ command).andThen fun record => ?_
  split
  · exact Steady.pure
  · exact Steady.pure
  · exact (steady_countUp _).andThen fun _ => (steady_keepRecord heval h _).andThen fun _ => Steady.pure

theorem steady_getlineCommand (heval : Evaluates start jumps accepts eval) {command : Expr}
    {target : Option LValue} (hcommand : command.WellFormed accepts true)
    (htarget : TargetWellFormed accepts true target) : Steady start jumps (getlineCommand eval command target) := by
  fun_induction getlineCommand eval command target with
  | case1 target span command first ih =>
    refine (ih hcommand.1 hcommand.2).andThen fun (name, _) => ?_
    exact (steady_readCommand heval name htarget).andThen fun _ => Steady.pure
  | case2 command target =>
    refine (heval hcommand).andThen fun v => ?_
    refine (steady_textOf v).andThen fun name => ?_
    exact (steady_readCommand heval name htarget).andThen fun _ => Steady.pure

/-! ### Operators -/

theorem steady_assign (heval : Evaluates start jumps accepts eval) {target : LValue} (op : AssignOp) {right : Expr}
    (htarget : target.WellFormed accepts true) (hright : right.WellFormed accepts true) :
    Steady start jumps (assign eval target op right) := by
  refine (steady_targetOf heval htarget).andThen fun target => ?_
  refine (heval hright).andThen fun v => ?_
  cases op with
  | set => exact steady_assignTarget target v
  | update op =>
    refine (steady_readTarget target).andThen fun old => ?_
    exact (Steady.ofExcept (calm_arith op old v)).andThen fun new => steady_assignTarget target new

theorem steady_stepTarget (heval : Evaluates start jumps accepts eval) (op : StepOp) {target : LValue}
    (h : target.WellFormed accepts true) : Steady start jumps (stepTarget eval op target) := by
  refine (steady_targetOf heval h).andThen fun target => ?_
  refine (steady_readTarget target).andThen fun old => ?_
  exact (steady_assignTarget target _).andThen fun _ => Steady.pure

theorem steady_logical (heval : Evaluates start jumps accepts eval) (op : LogicalOp) {left right : Expr}
    (hleft : left.WellFormed accepts true) (hright : right.WellFormed accepts true) :
    Steady start jumps (logical eval op left right) := by
  refine (steady_holds heval hleft).andThen fun l => ?_
  split
  · exact Steady.pure
  · exact Steady.pure
  · exact (steady_holds heval hright).andThen fun _ => Steady.pure

/-- The value of an expression is computed steadily if its operands are. -/
theorem steady_evalWith (heval : Evaluates start jumps accepts eval) {call : Call}
    (hcall : ∀ {function args}, accepts function args.length → AllWellFormed accepts true args →
      Steady start jumps (call function args)) (fuel : Nat) {e : Expr} (h : e.WellFormed accepts true) :
    Steady start jumps (evalWith eval call fuel e) := by
  cases e with
  | literal v => exact Steady.pure
  | number token => exact Steady.ofExcept (calm_literalNumber _)
  | string token => exact Steady.pure
  | group span inner => exact heval h.2
  | regex token =>
    exact (steady_compiled _).andThen fun _ => steady_recordText.andThen fun _ => Steady.pure
  | lvalue target =>
    have htarget : target.WellFormed accepts true := h
    exact (steady_targetOf heval htarget).andThen steady_readTarget
  | assign span target op token right => exact steady_assign heval op h.2.2.1 h.2.2.2
  | conditional span test yes no =>
    refine (steady_holds heval h.1).andThen fun b => ?_
    split
    · exact heval h.2.1
    · exact heval h.2.2
  | logical span op left right => exact steady_logical heval op h.1 h.2
  | member span subscripts subscriptsAt array =>
    refine (steady_subscriptKey heval h).andThen fun key => ?_
    exact (steady_arrayNamed _).andThen fun id => (steady_array id).andThen fun _ => Steady.pure
  | matching span left negated token right =>
    refine (heval h.2.1).andThen fun v => ?_
    refine (steady_textOf v).andThen fun t => ?_
    exact (steady_patternOf heval h.2.2).andThen fun _ => Steady.pure
  | compare span left op token right =>
    refine (heval h.2.1).andThen fun l => ?_
    refine (heval h.2.2).andThen fun r => ?_
    refine steady_convfmt.andThen fun format => ?_
    exact (Steady.ofExcept (Value.calm_compare format l r)).andThen fun _ => Steady.pure
  | concat span parts =>
    exact steady_convfmt.andThen fun format => (steady_textsOf heval format h).andThen fun _ => Steady.pure
  | arith span left op token right =>
    exact (heval h.2.1).andThen fun l => (heval h.2.2).andThen fun r => Steady.ofExcept (calm_arith op l r)
  | sign span op token operand => exact (heval h.2).andThen fun _ => Steady.pure
  | power span base exponent => exact (heval h.1).andThen fun _ => (heval h.2).andThen fun _ => Steady.pure
  | preStep span op token target => exact (steady_stepTarget heval op h.2).andThen fun _ => Steady.pure
  | postStep span target op token => exact (steady_stepTarget heval op h.2).andThen fun _ => Steady.pure
  | call span function args => exact hcall h.1 h.2
  | builtin span b token args => exact steady_callBuiltin heval b h.2
  | getline span target => exact steady_getline heval fuel h
  | getlineFile span target file => exact steady_getlineFile heval h.1 h.2
  | getlineCommand span command target =>
    exact (steady_getlineCommand heval h.1 h.2).andThen fun _ => Steady.pure

/-! ### Calls -/

theorem steady_bindArgument (heval : Evaluates start jumps accepts eval) {arg : Expr}
    (h : arg.WellFormed accepts true) : Steady start jumps (bindArgument eval arg) := by
  have hvalue : Steady start jumps (do return Binding.scalar (← eval arg)) :=
    (heval h).andThen fun _ => Steady.pure
  unfold bindArgument
  dsimp only
  split
  · refine (steady_slotOf _).andThen fun slot => ?_
    refine Steady.get.andThen fun m => ?_
    split
    · exact Steady.pure
    · exact Steady.pure
    · exact hvalue
    · split
      · exact hvalue
      · exact Steady.pure
  · exact hvalue

theorem steady_bindArguments (heval : Evaluates start jumps accepts eval) (params : List Text) {args : List Expr}
    (h : AllWellFormed accepts true args) : Steady start jumps (bindArguments eval params args) := by
  induction params generalizing args with
  | nil => exact Steady.pure
  | cons param params ih =>
    cases args with
    | nil => exact (ih h).andThen fun _ => Steady.pure
    | cons arg args =>
      exact (steady_bindArgument heval h.1).andThen fun _ => (ih h.2).andThen fun _ => Steady.pure

/-- A call that is accepted finds its function, and returns from it. -/
theorem steady_callWith {functions : List Function} (hstart : start.Runs functions)
    (heval : Evaluates start jumps (Accepted functions) eval) {run : Stmt → Eval Unit}
    (hrun : ∀ f ∈ functions, Steady start (fun i => (∃ v, i = .return v) ∨ jumps i) (run f.body)) {function : Token}
    {args : List Expr} (hcall : Accepted functions function args.length)
    (hargs : AllWellFormed (Accepted functions) true args) :
    Steady start jumps (callWith eval run function args) := by
  obtain ⟨f, hf, hcount⟩ := hcall
  -- The machine still has the functions of the program, so the one that was accepted is found.
  refine Yields.get.bind fun m hm => ?_
  have hfound : m.functions.find? (fun f => f.name == function.text) = some f :=
    (hm.functions.trans hstart).symm ▸ hf
  rw [hfound]
  dsimp only
  rw [if_neg (Nat.not_lt.2 hcount)]
  have hstore (change : Store → Store) : Steady start jumps (modify fun m => { m with store := change m.store }) :=
    Steady.modify fun _ => .of_eq rfl rfl rfl rfl
  refine (steady_bindArguments heval f.params hargs).andThen fun table => ?_
  refine (hstore fun s => s.push table).andThen fun _ => ?_
  refine (Steady.catching (hrun f (List.mem_of_find?_eq_some hf))).bind fun result hresult => ?_
  refine (hstore Store.pop).andThen fun _ => ?_
  split
  · exact Steady.pure
  · exact Steady.pure
  · -- Any other end of the body is passed on, and may be.
    rename_i hnoreturn
    exact Yields.throw (hresult.unhandled fun ⟨v, hv⟩ => hnoreturn v hv)

end Awk.Eval
