import Awk.Escape
import Awk.Syntax.Tree

/-!
# Folding literals

`prune` prepares a tree for evaluation: a number or string literal becomes its value, an expression in parentheses
becomes the expression, and both spellings of the exponent operator become one.  It fails on a number literal with a
digit that has no decimal value.
-/

namespace Awk

/-- The value of a number literal, whose text is a numeral and nothing else. -/
def literalNumber (t : Text) : Except Fault Value :=
  match Numeral.read? t with
  | some (n, []) => .ok (.num n.toNumber)
  | _ => .error (.badNumeral t)

/-- The token of an assignment operator in its one spelling. -/
def canonicalToken (token : Token) : Token :=
  if token.kind = .powAssign then { token with text := "^=".toList } else token

mutual

def Expr.prune : Expr → Except Fault Expr
  | .number token => do .ok (.literal (← literalNumber token.text))
  | .string token => .ok (.literal (.str (decodeEscapes token.text)))
  | .literal v => .ok (.literal v)
  | .regex token => .ok (.regex token)
  | .group _ inner => inner.prune
  | .lvalue target => do .ok (.lvalue (← target.prune))
  | .assign span target op token right => do
    .ok (.assign span (← target.prune) op (canonicalToken token) (← right.prune))
  | .conditional span test yes no => do .ok (.conditional span (← test.prune) (← yes.prune) (← no.prune))
  | .logical span op left right => do .ok (.logical span op (← left.prune) (← right.prune))
  | .member span subscripts subscriptsAt array => do
    .ok (.member span (← pruneAll subscripts) subscriptsAt array)
  | .matching span left negated token right => do
    .ok (.matching span (← left.prune) negated token (← right.prune))
  | .compare span left op token right => do .ok (.compare span (← left.prune) op token (← right.prune))
  | .concat span parts => do .ok (.concat span (← pruneAll parts))
  | .arith span left op token right => do .ok (.arith span (← left.prune) op token (← right.prune))
  | .sign span op token operand => do .ok (.sign span op token (← operand.prune))
  | .power span base exponent => do .ok (.power span (← base.prune) (← exponent.prune))
  | .preStep span op token target => do .ok (.preStep span op token (← target.prune))
  | .postStep span target op token => do .ok (.postStep span (← target.prune) op token)
  | .call span function args => do .ok (.call span function (← pruneAll args))
  | .builtin span function token args => do .ok (.builtin span function token (← pruneAll args))
  | .getline span target => do .ok (.getline span (← pruneTarget target))
  | .getlineFile span target file => do .ok (.getlineFile span (← pruneTarget target) (← file.prune))
  | .getlineCommand span command target => do
    .ok (.getlineCommand span (← command.prune) (← pruneTarget target))

def LValue.prune : LValue → Except Fault LValue
  | .var name => .ok (.var name)
  | .index span array subscripts subscriptsAt => do .ok (.index span array (← pruneAll subscripts) subscriptsAt)
  | .field span index => do .ok (.field span (← index.prune))

def pruneAll : List Expr → Except Fault (List Expr)
  | [] => .ok []
  | e :: es => do .ok ((← e.prune) :: (← pruneAll es))

def pruneTarget : Option LValue → Except Fault (Option LValue)
  | none => .ok none
  | some target => do .ok (some (← target.prune))

end

def Expr.pruneOption : Option Expr → Except Fault (Option Expr)
  | none => .ok none
  | some e => do .ok (some (← e.prune))

def Redirect.prune (r : Redirect) : Except Fault Redirect := do .ok { r with target := ← r.target.prune }

def Subscripts.prune (s : Subscripts) : Except Fault Subscripts := do .ok { s with items := ← pruneAll s.items }

mutual

def Stmt.prune : Stmt → Except Fault Stmt
  | .block span body => do .ok (.block span (← pruneStmts body))
  | .ifElse span test yes no => do .ok (.ifElse span (← test.prune) (← yes.prune) (← pruneStmt? no))
  | .while span test body => do .ok (.while span (← test.prune) (← body.prune))
  | .doWhile span body test => do .ok (.doWhile span (← body.prune) (← test.prune))
  | .for span start test update body => do
    .ok (.for span (← pruneStmt? start) (← Expr.pruneOption test) (← pruneStmt? update) (← body.prune))
  | .forIn span element array body => do .ok (.forIn span element array (← body.prune))
  | .empty span => .ok (.empty span)
  | .print span token formatted items redirect => do
    let redirect ← match redirect with
      | none => .ok none
      | some r => do .ok (some (← r.prune))
    .ok (.print span token formatted (← pruneAll items) redirect)
  | .delete span array subscripts => do
    let subscripts ← match subscripts with
      | none => .ok none
      | some s => do .ok (some (← s.prune))
    .ok (.delete span array subscripts)
  | .break span => .ok (.break span)
  | .continue span => .ok (.continue span)
  | .next span => .ok (.next span)
  | .nextFile span => .ok (.nextFile span)
  | .exit span code => do .ok (.exit span (← Expr.pruneOption code))
  | .return span value => do .ok (.return span (← Expr.pruneOption value))
  | .expr span e => do .ok (.expr span (← e.prune))

def pruneStmts : List Stmt → Except Fault (List Stmt)
  | [] => .ok []
  | s :: ss => do .ok ((← s.prune) :: (← pruneStmts ss))

def pruneStmt? : Option Stmt → Except Fault (Option Stmt)
  | none => .ok none
  | some s => do .ok (some (← s.prune))

end

def Selector.prune : Selector → Except Fault Selector
  | .single span test => do .ok (.single span (← test.prune))
  | .range span first last => do .ok (.range span (← first.prune) (← last.prune))

def Item.prune : Item → Except Fault Item
  | .begin span body => do .ok (.begin span (← body.prune))
  | .end span body => do .ok (.end span (← body.prune))
  | .rule span selector action => do
    let selector ← match selector with
      | none => .ok none
      | some s => do .ok (some (← s.prune))
    .ok (.rule span selector (← pruneStmt? action))
  | .function span name params body => do .ok (.function span name params (← body.prune))

def Program.prune (p : Program) : Except Fault Program := do .ok ⟨p.span, ← p.items.mapM Item.prune⟩

end Awk
