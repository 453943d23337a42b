import Awk.Machine.Builtins

/-!
# Evaluating expressions

The value of an expression, given how its operands are evaluated and how a function is called (`evalWith`).  Operands
are evaluated from the left; the number format is looked up after them, except by a concatenation and by subscripts,
which look it up first.
-/

namespace Awk

/-- A way to call the functions of the program. -/
abbrev Call := (function : Token) → (args : List Expr) → Eval Value

namespace Eval

def step (op : StepOp) (n : Number) : Number :=
  match op with
  | .up => n.add .one
  | .down => n.add (Number.neg .one)

/-! ### Reading records -/

/-- What `getline` gives: one for a record, zero at the end, minus one for a failure. -/
def gotRecord : Value := .num .one

def gotNothing : Value := .num .zero

def gotFailure : Value := .num (Number.neg .one)

/-- Store a record in a target, or else as the current record. -/
def keepRecord (eval : Evaluate) (target : Option LValue) (t : Text) : Eval Unit := do
  match target with
  | none => onRecord fun vars => Record.setText vars t
  | some target =>
    let _ ← assignTarget (← targetOf eval target) (.strnum t)

/-- The next record of a stream; none when the stream cannot be opened, which is worth a warning. -/
def readStream (kind : World.InputKind) (name : Text) : Eval (Option (Option Text)) := do
  let separator ← setting "RS"
  match ← onWorld (observing (World.readNamed kind name separator)) with
  | .ok record => return some record
  | .error (.cannotOpen target reason) =>
    onWorld (World.warn (Fault.cannotOpen target reason).message)
    return none
  | .error f => fail f

/-- Read from the main input. -/
def getline (eval : Evaluate) (fuel : Nat) (target : Option LValue) : Eval Value := do
  match ← nextRecord fuel with
  | none => return gotNothing
  | some t =>
    keepRecord eval target t
    return gotRecord

/-- Read from a file; the counters stay. -/
def getlineFile (eval : Evaluate) (target : Option LValue) (file : Expr) : Eval Value := do
  let name ← textOf (← eval file)
  match ← readStream .file name with
  | none => return gotFailure
  | some none => return gotNothing
  | some (some t) =>
    keepRecord eval target t
    return gotRecord

/-- Read what a command prints; its records are counted. -/
def readCommand (eval : Evaluate) (command : Text) (target : Option LValue) : Eval Value := do
  match ← readStream .command command with
  | none => return gotFailure
  | some none => return gotNothing
  | some (some t) =>
    countUp "NR"
    keepRecord eval target t
    return gotRecord

/-- Read from a command; one that is itself such a read is made first, and its command is read again. -/
def getlineCommand (eval : Evaluate) : Expr → Option LValue → Eval (Text × Value)
  | .getlineCommand _ command first, target => do
    let (name, _) ← getlineCommand eval command first
    return (name, ← readCommand eval name target)
  | command, target => do
    let name ← textOf (← eval command)
    return (name, ← readCommand eval name target)

/-! ### Operators -/

def assign (eval : Evaluate) (target : LValue) (op : AssignOp) (right : Expr) : Eval Value := do
  let target ← targetOf eval target
  let v ← eval right
  match op with
  | .set => assignTarget target v
  | .update op =>
    let old ← readTarget target
    assignTarget target (← ofExcept (Value.arith op old v))

/-- Count a target up or down: the number before and the value after. -/
def stepTarget (eval : Evaluate) (op : StepOp) (target : LValue) : Eval (Number × Value) := do
  let target ← targetOf eval target
  let old := (← readTarget target).toNumber
  return (old, ← assignTarget target (.num (step op old)))

def logical (eval : Evaluate) (op : LogicalOp) (left right : Expr) : Eval Value := do
  let l ← holds eval left
  match op, l with
  | .and, false => return .ofBool false
  | .or, true => return .ofBool true
  | _, _ => return .ofBool (← holds eval right)

def sign (op : SignOp) (v : Value) : Value :=
  match op with
  | .minus => .num v.toNumber.neg
  | .plus => .num v.toNumber
  | .not => .ofBool !v.truthy

/-- The value of an expression. -/
def evalWith (eval : Evaluate) (call : Call) (fuel : Nat) : Expr → Eval Value
  | .literal v => return v
  | .number token => ofExcept (literalNumber token.text)
  | .string token => return .str (decodeEscapes token.text)
  | .group _ inner => eval inner
  | .regex token => do
    let p ← compiled token.text
    return .ofBool (p.search (← recordText) 0).isSome
  | .lvalue target => do readTarget (← targetOf eval target)
  | .assign _ target op _ right => assign eval target op right
  | .conditional _ test yes no => do if ← holds eval test then eval yes else eval no
  | .logical _ op left right => logical eval op left right
  | .member _ subscripts _ array => do
    let key ← subscriptKey eval subscripts
    let id ← arrayNamed array.text
    return .ofBool ((← Eval.array id).contains key)
  | .matching _ left negated _ right => do
    let t ← textOf (← eval left)
    let p ← patternOf eval right
    return .ofBool ((p.search t 0).isSome != negated)
  | .compare _ left op _ right => do
    let l ← eval left
    let r ← eval right
    return .ofBool (op.holds (← ofExcept (Value.compare (← convfmt) l r)))
  | .concat _ parts => do return .str (← textsOf eval (← convfmt) parts).flatten
  | .arith _ left op _ right => do
    let l ← eval left
    let r ← eval right
    ofExcept (Value.arith op l r)
  | .sign _ op _ operand => do return sign op (← eval operand)
  | .power _ base exponent => do
    let b ← eval base
    let e ← eval exponent
    return .num (b.toNumber.pow e.toNumber)
  | .preStep _ op _ target => do return (← stepTarget eval op target).2
  | .postStep _ target op _ => do return .num (← stepTarget eval op target).1
  | .call _ function args => call function args
  | .builtin _ function _ args => callBuiltin eval function args
  | .getline _ target => getline eval fuel target
  | .getlineFile _ target file => getlineFile eval target file
  | .getlineCommand _ command target => do return (← getlineCommand eval command target).2

/-! ### Calls -/

/-- What a parameter is bound to: an array, or a name that has no kind yet, as such, and anything else by its value. -/
def bindArgument (eval : Evaluate) (arg : Expr) : Eval Binding := do
  let byValue : Eval Binding := do return .scalar (← eval arg)
  match arg with
  | .lvalue (.var name) =>
    let slot ← slotOf name.text
    match (← get).store.lookup slot with
    | some (.array id) => return .array id
    | some (.untyped _) => return .untyped (some slot)
    | some (.scalar _) => byValue
    | none => if isFieldCount slot then byValue else return .untyped (some slot)
  | _ => byValue

/-- The table of a call: arguments for the first parameters, and nothing for the others. -/
def bindArguments (eval : Evaluate) : List Text → List Expr → Eval Table
  | [], _ => return []
  | param :: params, [] => do return (param, .untyped none) :: (← bindArguments eval params [])
  | param :: params, arg :: args => do
    let b ← bindArgument eval arg
    return (param, b) :: (← bindArguments eval params args)

/-- Call a function of the program; its parameters are gone afterwards, however it ends. -/
def callWith (eval : Evaluate) (run : Stmt → Eval Unit) (function : Token) (args : List Expr) : Eval Value := do
  match (← get).functions.find? fun f => f.name == function.text with
  | none => fail (.undefinedFunction function.text)
  | some f =>
    if f.params.length < args.length then
      fail (.tooManyArguments f.name args.length f.params.length)
    let table ← bindArguments eval f.params args
    modify fun m => { m with store := m.store.push table }
    let result ← catching (run f.body)
    modify fun m => { m with store := m.store.pop }
    match result with
    | .ok () => return .unset
    | .error (.return v) => return v
    | .error other => throw other

end Eval

end Awk
