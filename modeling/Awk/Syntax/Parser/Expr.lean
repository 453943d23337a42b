import Awk.Syntax.Parser.State

/-!
# Expressions

The grammar of expressions by levels of precedence (`Level`), loosest first.  `level` reads an expression of a level
or tighter; `chain` goes on with the operators that associate to the left.  In a print statement outside parentheses
`>` and `|` belong to the statement, which the flag `inPrint` tells.

The number of recursive calls is bounded by a fuel, of which each call uses one.
-/

namespace Awk

/-- Levels of precedence, from assignment down to operands. -/
inductive Level where
  | assignment
  | conditional
  | disjunction
  | conjunction
  | membership
  | matching
  | comparison
  | concatenation
  | sum
  | product
  | sign
  | power
  | step
  | primary
  deriving DecidableEq, Repr

/-- The next tighter level. -/
def Level.tighter : Level → Level
  | assignment => conditional
  | conditional => disjunction
  | disjunction => conjunction
  | conjunction => membership
  | membership => matching
  | matching => comparison
  | comparison => concatenation
  | concatenation => sum
  | sum => product
  | product => sign
  | sign => power
  | power => step
  | step | primary => primary

namespace Parser

/-- Kinds of tokens that begin a further part of a concatenation; signs do not, so that `a -1` is a difference. -/
def startsPart : TokenKind → Bool
  | .number | .string | .name | .funcName | .builtin _ | .dollar | .not | .lpar | .incr | .decr => true
  | _ => false

mutual

/-- An expression of a level, or of a tighter one. -/
def level : Nat → Level → Bool → Parser Expr
  | 0, _, _ => do failAt .tooDeep (← current)
  | n + 1, .assignment, inPrint => do
    let start ← current
    let left ← level n .conditional inPrint
    match AssignOp.ofKind? (← kind), left.asLValue? with
    | some op, some target =>
      let token ← advance
      skipNewlines
      let right ← level n .assignment inPrint
      return .assign (← spanFrom start) target op token right
    | _, _ => return left
  | n + 1, .conditional, inPrint => do
    let start ← current
    let test ← level n .disjunction inPrint
    if ← accept .qmark then
      skipNewlines
      let yes ← level n .assignment inPrint
      skipNewlines
      let _ ← expect .colon "':'"
      skipNewlines
      let no ← level n .assignment inPrint
      return .conditional (← spanFrom start) test yes no
    else
      return test
  | n + 1, .comparison, inPrint => do
    let start ← current
    let left ← level n .concatenation inPrint
    let left ← if inPrint then pure left else pipes n start left
    match CompareOp.ofKind? (← kind) with
    | some op =>
      if inPrint && op = .gt then return left
      else
        let token ← advance
        let right ← level n .concatenation inPrint
        let right ← if inPrint then pure right else pipes n start right
        return .compare (← spanFrom start) left op token right
    | none => return left
  | n + 1, .concatenation, inPrint => do
    let start ← current
    let first ← level n .sum inPrint
    match ← parts n inPrint with
    | [] => return first
    | more => return .concat (← spanFrom start) (first :: more)
  | n + 1, .sign, inPrint => signed n .power inPrint
  | n + 1, .power, inPrint => do
    let start ← current
    let base ← level n .step inPrint
    if ← accept .pow then
      let exponent ← signed n .power inPrint
      return .power (← spanFrom start) base exponent
    else
      return base
  | n + 1, .step, inPrint => do
    let start ← current
    match StepOp.ofKind? start.kind with
    | some op =>
      let token ← advance
      let target ← lvalue n
      return .preStep (← spanFrom start) op token target
    | none =>
      let e ← level n .primary inPrint
      match e.asLValue?, StepOp.ofKind? (← kind) with
      | some target, some op =>
        let token ← advance
        return .postStep (← spanFrom start) target op token
      | _, _ => return e
  | n + 1, .primary, _ => primary n
  | n + 1, lvl, inPrint => do
    let start ← current
    let left ← level n lvl.tighter inPrint
    chain n lvl inPrint start left

/-- Further operators of a level that associates to the left, after what has been read of it from `start` on. -/
def chain : Nat → Level → Bool → Token → Expr → Parser Expr
  | 0, _, _, _, _ => do failAt .tooDeep (← current)
  | n + 1, lvl, inPrint, start, left => do
    match lvl, (← kind) with
    | .disjunction, .or =>
      let _ ← advance
      skipNewlines
      let right ← level n .conjunction inPrint
      chain n lvl inPrint start (.logical (← spanFrom start) .or left right)
    | .conjunction, .and =>
      let _ ← advance
      skipNewlines
      let right ← level n .membership inPrint
      chain n lvl inPrint start (.logical (← spanFrom start) .and left right)
    | .membership, .in =>
      let _ ← advance
      let array ← expect .name "array name"
      chain n lvl inPrint start (.member (← spanFrom start) [left] none array)
    | .matching, .tilde =>
      let token ← advance
      let right ← level n .comparison inPrint
      chain n lvl inPrint start (.matching (← spanFrom start) left false token right)
    | .matching, .noMatch =>
      let token ← advance
      let right ← level n .comparison inPrint
      chain n lvl inPrint start (.matching (← spanFrom start) left true token right)
    | .sum, k =>
      match ArithOp.sum? k with
      | some op =>
        let token ← advance
        let right ← level n .product inPrint
        chain n lvl inPrint start (.arith (← spanFrom start) left op token right)
      | none => return left
    | .product, k =>
      match ArithOp.product? k with
      | some op =>
        let token ← advance
        let right ← level n .sign inPrint
        chain n lvl inPrint start (.arith (← spanFrom start) left op token right)
      | none => return left
    | _, _ => return left

/-- Signs in front of an expression of a level. -/
def signed : Nat → Level → Bool → Parser Expr
  | 0, _, _ => do failAt .tooDeep (← current)
  | n + 1, lvl, inPrint => do
    let start ← current
    match SignOp.ofKind? start.kind with
    | some op =>
      let token ← advance
      let operand ← signed n lvl inPrint
      return .sign (← spanFrom start) op token operand
    | none => level n lvl inPrint

/-- Further parts of a concatenation. -/
def parts : Nat → Bool → Parser (List Expr)
  | 0, _ => do failAt .tooDeep (← current)
  | n + 1, inPrint => do
    if startsPart (← kind) then
      let part ← level n .sum inPrint
      return part :: (← parts n inPrint)
    else
      return []

/-- Pipes into `getline` after a command. -/
def pipes : Nat → Token → Expr → Parser Expr
  | 0, _, _ => do failAt .tooDeep (← current)
  | n + 1, start, command => do
    if (← kind) = .pipe then
      if (← nextKind) = .getline then
        let _ ← advance
        let _ ← advance
        let target ← getlineTarget n
        pipes n start (.getlineCommand (← spanFrom start) command target)
      else
        return command
    else
      return command

/-- A variable, an element or a field. -/
def lvalue : Nat → Parser LValue
  | 0 => do failAt .tooDeep (← current)
  | n + 1 => do
    match ← kind with
    | .dollar => field n
    | .name => name n
    | _ => failExpecting "lvalue"

/-- A field: its number binds tighter than any operator that follows. -/
def field : Nat → Parser LValue
  | 0 => do failAt .tooDeep (← current)
  | n + 1 => do
    let start ← advance
    let first ← current
    match StepOp.ofKind? first.kind with
    | some op =>
      let token ← advance
      let target ← lvalue n
      let number := Expr.preStep (← spanFrom first) op token target
      return .field (← spanFrom start) number
    | none =>
      let number ← signed n .primary false
      return .field (← spanFrom start) number

/-- A variable, or an element when a bracket follows the name. -/
def name : Nat → Parser LValue
  | 0 => do failAt .tooDeep (← current)
  | n + 1 => do
    let token ← expect .name "name"
    if ← accept .lsqb then
      let subs ← subscripts n
      return .index (← spanFrom token) token subs.items subs.span
    else
      return .var token

/-- Subscripts up to and including the closing bracket. -/
def subscripts : Nat → Parser Subscripts
  | 0 => do failAt .tooDeep (← current)
  | n + 1 => do
    let start ← current
    let first ← level n .assignment false
    let more ← moreItems n false
    let _ ← expect .rsqb "']'"
    return ⟨← spanFrom start, first :: more⟩

/-- Further expressions of a list, each after a comma. -/
def moreItems : Nat → Bool → Parser (List Expr)
  | 0, _ => do failAt .tooDeep (← current)
  | n + 1, inPrint => do
    if ← accept .comma then
      skipNewlines
      let e ← level n .assignment inPrint
      return e :: (← moreItems n inPrint)
    else
      return []

/-- Arguments up to and including the closing parenthesis. -/
def arguments : Nat → Parser (List Expr)
  | 0 => do failAt .tooDeep (← current)
  | n + 1 => do
    skipNewlines
    if ← accept .rpar then
      return []
    else
      let first ← level n .assignment false
      let more ← moreItems n false
      skipNewlines
      let _ ← expect .rpar "')'"
      return first :: more

/-- What `getline` reads into, if it is named. -/
def getlineTarget : Nat → Parser (Option LValue)
  | 0 => do failAt .tooDeep (← current)
  | n + 1 => do
    match ← kind with
    | .name => return some (← name n)
    | .dollar => return some (← field n)
    | _ => return none

/-- Literals, variables, calls, `getline` and what stands in parentheses. -/
def primary : Nat → Parser Expr
  | 0 => do failAt .tooDeep (← current)
  | n + 1 => do
    let start ← current
    match start.kind with
    | .number => return .number (← advance)
    | .string => return .string (← advance)
    | .slash | .divAssign => return .regex (← takeRegex)
    | .dollar => return .lvalue (← field n)
    | .name => return .lvalue (← name n)
    | .funcName =>
      let function ← advance
      let _ ← expect .lpar "'('"
      let args ← arguments n
      modify fun s => { s with calls := (function, args.length) :: s.calls }
      return .call (← spanFrom start) function args
    | .builtin b =>
      let token ← advance
      if ← accept .lpar then
        let args ← arguments n
        return .builtin (← spanFrom start) b token args
      else if b = .length then
        return .builtin (← spanFrom start) b token []
      else
        failExpecting "'('"
    | .getline =>
      let _ ← advance
      let target ← getlineTarget n
      if ← accept .lt then
        let file ← level n .step false
        return .getlineFile (← spanFrom start) target file
      else
        return .getline (← spanFrom start) target
    | .lpar =>
      let _ ← advance
      let first ← level n .assignment false
      if (← kind) = .comma then
        let more ← moreItems n false
        let close ← expect .rpar "')'"
        if ← accept .in then
          let array ← expect .name "array name"
          return .member (← spanFrom start) (first :: more)
            (some { start.span with stop := close.span.stop }) array
        else
          failExpecting "'in'"
      else
        let _ ← expect .rpar "')'"
        return .group (← spanFrom start) first
    | _ => failExpecting "expression"

end

/-- A whole expression. -/
def expr (fuel : Nat) (inPrint : Bool) : Parser Expr := level fuel .assignment inPrint

end Parser

end Awk
