import Awk.Machine.Operand
import Awk.Substitute
import Awk.Value.Arith

/-!
# Built-in functions

Most of them take the values of their arguments (`applyBuiltin`).  Those that need an array, something to assign to or
a regular expression take their arguments unevaluated (`callBuiltin`).
-/

namespace Awk

/-- The whole number nearest to a number, a half going up; a NaN or an infinity stays. -/
def Number.roundHalfUp (n : Number) : Number :=
  match n with
  | .finite .. =>
    match (n.add .half).floor? with
    | some i => .ofInt i
    | none => n.add .half
  | n => n

/-- The characters at positions from `start` on, up to `length` of them; positions count from one, and both numbers
are rounded.  Without a `length` the text's end is the limit. -/
def substring (t : Text) (start : Number) (length : Option Number) : Except Fault Text :=
  let start := start.roundHalfUp
  let length := length.elim (Number.infinite false) Number.roundHalfUp
  if start.isNan || length.isNan then .ok []
  else
    let stop := start.add length
    let limit := Number.ofNat (t.length + 1)
    let first := if start.lt .one then .one else start
    let last := if limit.lt stop then limit else stop
    if last.le first then .ok []
    else do
      let first ← first.toInt
      let last ← last.toInt
      .ok (t.slice (first - 1).toNat (last - 1).toNat)

namespace Eval

/-! ### Functions of values -/

/-- The value of an argument by its place, unset if it is not there. -/
def argument (args : List Value) (i : Nat) : Value := (args[i]?).getD .unset

/-- A function of one number. -/
def ofNumber (f : Number → Number) (args : List Value) : Eval Value :=
  return .num (f (argument args 0).toNumber)

/-- A function of a number that must not be negative. -/
def ofNonnegative (function : String) (f : Number → Number) (args : List Value) : Eval Value := do
  let v := argument args 0
  let n := v.toNumber
  if n.lt .zero then
    fail (.negativeArgument function (← ofExcept (v.toText defaultFormat)))
  return .num (f n)

/-- The whole part of a number; a NaN or an infinity stays. -/
def wholePart (n : Number) : Number := n.truncate?.elim n .ofInt

/-- Sow a new sequence of random numbers; the result is the seed before. -/
def sow (args : List Value) : Eval Value := do
  let m ← get
  let seed := match args with
    | [] => Number.ofNat m.world.clock
    | v :: _ => v.toNumber
  set { m with random := .ofSeed seed }
  return .num m.random.seed

def drawRandom : Eval Value := do
  let m ← get
  let (n, random) := m.random.next
  set { m with random := random }
  return .num n

/-- Text of an argument, by its place. -/
def argumentText (args : List Value) (i : Nat) : Eval Text := textOf (argument args i)

/-- A function of the values of its arguments. -/
def applyBuiltin (b : Builtin) (args : List Value) : Eval Value := do
  match b with
  | .substr =>
    let t ← argumentText args 0
    let start := (argument args 1).toNumber
    return .str (← ofExcept (substring t start ((args[2]?).map Value.toNumber)))
  | .index =>
    let t ← argumentText args 0
    let wanted ← argumentText args 1
    return .ofNat ((Text.find? wanted t).elim 0 (· + 1))
  | .sprintf =>
    let format ← argumentText args 0
    return .str (← ofExcept (Awk.sprintf (← convfmt) format args.tail))
  | .tolower => return .str (Unicode.toLower (← argumentText args 0))
  | .toupper => return .str (Unicode.toUpper (← argumentText args 0))
  | .sin => ofNumber Number.sin args
  | .cos => ofNumber Number.cos args
  | .exp => ofNumber Number.exp args
  | .atan2 => return .num (Number.atan2 (argument args 0).toNumber (argument args 1).toNumber)
  | .log => ofNonnegative "log" Number.log args
  | .sqrt => ofNonnegative "sqrt" Number.sqrt args
  | .int => ofNumber wholePart args
  | .rand => drawRandom
  | .srand => sow args
  | .close => do return .ofInt (← onWorld (World.close (← argumentText args 0)))
  | .fflush =>
    match args with
    | [] =>
      onWorld World.flushAll
      return .num .zero
    | v :: _ =>
      let name ← textOf v
      return .ofInt (← onWorld (World.flush name))
  | .system => do return .ofNat (← onWorld (World.system (← argumentText args 0)))
  | .length | .split | .sub | .gsub | .match => return .unset

/-! ### Functions of expressions -/

/-- The number of elements of an array, or else of characters; a parameter without a kind has none. -/
def length (eval : Evaluate) : List Expr → Eval Value
  | [] => do return .ofNat (← recordText).length
  | e :: _ => do
    let byText : Eval Value := do return .ofNat (← textOf (← eval e)).length
    match e with
    | .lvalue (.var name) =>
      let slot ← slotOf name.text
      match (← get).store.lookup slot with
      | some (.array id) => return .ofNat (← array id).size
      | some (.untyped _) => return .num .zero
      | _ => byText
    | _ => byText

/-- The pieces of a text under a separator: a regular expression written as such, or a field separator. -/
def piecesOf (eval : Evaluate) (t : Text) : Option Expr → Eval (List Text)
  | some (.regex token) => do return splitPattern t (← compiled token.text)
  | some e => do ofExcept (splitFields t (← textOf (← eval e)) false)
  | none => do ofExcept (splitFields t (← setting "FS") false)

/-- Cut a text into the elements of an array, which is left alone until the pieces are there. -/
def split (eval : Evaluate) (text array : Expr) (separator : Option Expr) : Eval Value := do
  let t ← textOf (← eval text)
  match array with
  | .lvalue (.var name) =>
    let id ← arrayNamed name.text
    let pieces ← piecesOf eval t separator
    setArray id (.ofPieces pieces)
    return .ofNat pieces.length
  | _ => fail .splitIntoNonArray

/-- Replace the first match, or all matches, in a target or in the record; the result is their number.  What cannot
be assigned to is only searched. -/
def replace (eval : Evaluate) (all : Bool) (pattern replacement : Expr) (target : Option Expr) : Eval Value := do
  let format ← convfmt
  let p ← patternOf eval pattern
  let new ← ofExcept ((← eval replacement).toText format)
  let replaceIn (target : Target) : Eval Value := do
    let old ← ofExcept ((← readTarget target).toText format)
    let (result, count) := substitute (p.search old) new old all
    if count != 0 then
      let _ ← assignTarget target (.str result)
    return .ofNat count
  match target with
  | none => replaceIn (.field 0)
  | some (.lvalue target) => replaceIn (← targetOf eval target)
  | some e =>
    let old ← ofExcept ((← eval e).toText format)
    return .ofNat (substitute (p.search old) new old all).2

/-- Find the first match in a text; its place is left in two variables. -/
def findMatch (eval : Evaluate) (text pattern : Expr) : Eval Value := do
  let t ← textOf (← eval text)
  let p ← patternOf eval pattern
  let (start, length) : Nat × Int := match p.search t 0 with
    | some (start, stop) => (start + 1, stop - start)
    | none => (0, -1)
  setGlobal "RSTART" (.ofNat start)
  setGlobal "RLENGTH" (.ofInt length)
  return .ofNat start

/-- Call a built-in function. -/
def callBuiltin (eval : Evaluate) (b : Builtin) (args : List Expr) : Eval Value := do
  if !b.accepts args.length then
    fail (.argumentCount b.name.toList args.length b.arityText)
  match b, args with
  | .length, args => length eval args
  | .split, text :: array :: more => split eval text array more.head?
  | .sub, pattern :: replacement :: more => replace eval false pattern replacement more.head?
  | .gsub, pattern :: replacement :: more => replace eval true pattern replacement more.head?
  | .match, text :: pattern :: _ => findMatch eval text pattern
  | b, args => do applyBuiltin b (← valuesOf eval args)

end Eval

end Awk
