import Awk.Machine.MainInput
import Awk.Syntax.Prune

/-!
# Operands

Parts of expressions that are more than a value: subscripts, what can be assigned to, and regular expressions.  How
an expression is evaluated is a parameter.
-/

namespace Awk

/-- A way to evaluate expressions. -/
abbrev Evaluate := Expr → Eval Value

namespace Eval

/-- The values of expressions, from the left. -/
def valuesOf (eval : Evaluate) : List Expr → Eval (List Value)
  | [] => return []
  | e :: es => do
    let v ← eval e
    return v :: (← valuesOf eval es)

/-- The texts of expressions, from the left, under one format. -/
def textsOf (eval : Evaluate) (format : Text) : List Expr → Eval (List Text)
  | [] => return []
  | e :: es => do
    let t ← ofExcept ((← eval e).toText format)
    return t :: (← textsOf eval format es)

/-- The key that subscripts make together. -/
def subscriptKey (eval : Evaluate) (subscripts : List Expr) : Eval Text := do
  match ← textsOf eval (← convfmt) subscripts with
  | [key] => return key
  | parts => return Text.join (← setting "SUBSEP") parts

/-- The target of an lvalue; its subscripts or its index are evaluated. -/
def targetOf (eval : Evaluate) : LValue → Eval Target
  | .var name => return .var name.text
  | .index _ array subscripts _ => do
    let key ← subscriptKey eval subscripts
    return .element (← arrayNamed array.text) key
  | .field _ index => do return .field (← eval index).toInt

def holds (eval : Evaluate) (e : Expr) : Eval Bool := do return (← eval e).truthy

/-- The regular expression of an operand: a literal as it is written, anything else by its text. -/
def ereOf (eval : Evaluate) : Expr → Eval Text
  | .regex token => return token.text
  | e => do textOf (← eval e)

def compiled (ere : Text) : Eval Pattern := ofExcept (compileEre ere)

def patternOf (eval : Evaluate) (e : Expr) : Eval Pattern := do compiled (← ereOf eval e)

def recordText : Eval Text := do return (← get).record.text

end Eval

end Awk
