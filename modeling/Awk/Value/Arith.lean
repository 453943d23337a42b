import Awk.Number.Elementary
import Awk.Syntax.Operator
import Awk.Value.Basic

/-!
# Arithmetic on values

The binary operators on the numbers that two values stand for.  Only division and remainder can fail, on a zero
divisor.
-/

namespace Awk

/-- The operator that a text writes. -/
def ArithOp.named (t : Text) : Except Fault ArithOp :=
  match ArithOp.ofText? t with
  | some op => .ok op
  | none => .error (.unknownOperator t)

def Value.arith (op : ArithOp) (a b : Value) : Except Fault Value :=
  let x := a.toNumber
  let y := b.toNumber
  match op with
  | .add => .ok (.num (x.add y))
  | .sub => .ok (.num (x.sub y))
  | .mul => .ok (.num (x.mul y))
  | .div => if y.isZero then .error (.divisionByZero ['/']) else .ok (.num (x.div y))
  | .mod => if y.isZero then .error (.divisionByZero ['%']) else .ok (.num (x.remainder y))
  | .pow => .ok (.num (x.pow y))

end Awk
