import Awk.Syntax.Token

/-!
# Operators

The operators of the expression grammar as types of their own, and which token writes which.
-/

namespace Awk

inductive ArithOp where
  | add
  | sub
  | mul
  | div
  | mod
  | pow
  deriving DecidableEq, Repr

inductive CompareOp where
  | lt
  | le
  | eq
  | ne
  | gt
  | ge
  deriving DecidableEq, Repr

inductive LogicalOp where
  | and
  | or
  deriving DecidableEq, Repr

inductive SignOp where
  | minus
  | plus
  | not
  deriving DecidableEq, Repr

/-- Increment or decrement. -/
inductive StepOp where
  | up
  | down
  deriving DecidableEq, Repr

/-- Assignment, plain or combined with an arithmetic operator. -/
inductive AssignOp where
  | set
  | update (op : ArithOp)
  deriving DecidableEq, Repr

/-- Where output goes: into a file anew, to the end of a file, or into a command. -/
inductive RedirectOp where
  | write
  | append
  | pipe
  deriving DecidableEq, Repr

namespace ArithOp

def sum? : TokenKind → Option ArithOp
  | .plus => some add
  | .minus => some sub
  | _ => none

def product? : TokenKind → Option ArithOp
  | .star => some mul
  | .slash => some div
  | .mod => some mod
  | _ => none

def text : ArithOp → String
  | add => "+"
  | sub => "-"
  | mul => "*"
  | div => "/"
  | mod => "%"
  | pow => "^"

def ofText? (t : Text) : Option ArithOp := [add, sub, mul, div, mod, pow].find? fun op => op.text.toList == t

end ArithOp

def CompareOp.ofKind? : TokenKind → Option CompareOp
  | .lt => some lt
  | .lte => some le
  | .eq => some eq
  | .neq => some ne
  | .gt => some gt
  | .gte => some ge
  | _ => none

def SignOp.ofKind? : TokenKind → Option SignOp
  | .minus => some minus
  | .plus => some plus
  | .not => some not
  | _ => none

def StepOp.ofKind? : TokenKind → Option StepOp
  | .incr => some up
  | .decr => some down
  | _ => none

def AssignOp.ofKind? : TokenKind → Option AssignOp
  | .assign => some set
  | .addAssign => some (update .add)
  | .subAssign => some (update .sub)
  | .mulAssign => some (update .mul)
  | .divAssign => some (update .div)
  | .modAssign => some (update .mod)
  | .powAssign => some (update .pow)
  | _ => none

def RedirectOp.ofKind? : TokenKind → Option RedirectOp
  | .gt => some write
  | .append => some append
  | .pipe => some pipe
  | _ => none

/-- The operator holds for a comparison with this outcome. -/
def CompareOp.holds : CompareOp → Ordering → Bool
  | lt, o => o == .lt
  | le, o => o != .gt
  | eq, o => o == .eq
  | ne, o => o != .eq
  | gt, o => o == .gt
  | ge, o => o != .lt

end Awk
