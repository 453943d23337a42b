import Awk.Syntax.Parser.Expr

/-!
# Statements

The grammar of statements.  What is allowed depends on where a statement stands (`Context`): `break` and `continue`
in loops, `return` in functions, `next` outside `BEGIN` and `END`.
-/

namespace Awk

/-- Where a statement stands. -/
structure Context where
  inLoop : Bool
  inFunction : Bool
  /-- In the action of `BEGIN` or `END`. -/
  inSpecial : Bool

namespace Parser

/-- Kinds of tokens that begin an output redirection. -/
def isRedirect (k : TokenKind) : Bool := (RedirectOp.ofKind? k).isSome

/-- An expression, unless the statement ends here. -/
def optionalExpr (fuel : Nat) : Parser (Option Expr) := do
  if ← atTerminator then return none else return some (← expr fuel false)

/-- A parenthesised list of at least two items that the statement ends after, or its redirection begins.  Anything
else is left to be read as an expression, from where it began. -/
def parenthesisedItems (fuel : Nat) : Parser (Option (List Expr)) := do
  let saved ← get
  let _ ← advance
  let first ← expr fuel false
  match ← moreItems fuel false with
  | [] =>
    set saved
    return none
  | more =>
    if ← accept .rpar then
      if (← atTerminator) || isRedirect (← kind) then return some (first :: more)
    set saved
    return none

/-- The items of a print statement outside parentheses. -/
def plainItems (fuel : Nat) : Parser (List Expr) := do
  if (← atTerminator) || isRedirect (← kind) then
    return []
  else
    let first ← expr fuel true
    return first :: (← moreItems fuel true)

/-- A print statement; `printf` needs at least a format. -/
def printStmt (fuel : Nat) : Parser Stmt := do
  let start ← advance
  let formatted := start.kind == .printf
  let listed ← if (← kind) = .lpar then parenthesisedItems fuel else pure none
  let items ← match listed with
    | some items => pure items
    | none => plainItems fuel
  if formatted && items.isEmpty then failExpecting "format string"
  match RedirectOp.ofKind? (← kind) with
  | some op =>
    let token ← advance
    let target ← level fuel .concatenation true
    let redirect : Redirect := ⟨← spanFrom token, op, token, target⟩
    return .print (← spanFrom start) start formatted items (some redirect)
  | none => return .print (← spanFrom start) start formatted items none

/-- A statement without a body, up to what ends it. -/
def simpleStmt (fuel : Nat) (context : Context) : Parser Stmt := do
  let start ← current
  match start.kind with
  | .print | .printf => printStmt fuel
  | .delete =>
    let _ ← advance
    let array ← expect .name "array name"
    if ← accept .lsqb then
      let subs ← subscripts fuel
      return .delete (← spanFrom start) array (some subs)
    else
      return .delete (← spanFrom start) array none
  | .break | .continue =>
    let _ ← advance
    if !context.inLoop then failAt (.outsideLoop start.text) start
    let span ← spanFrom start
    return if start.kind = .break then .break span else .continue span
  | .next | .nextFile =>
    let _ ← advance
    if context.inSpecial then failAt (.outsideRecordRule start.text) start
    let span ← spanFrom start
    return if start.kind = .next then .next span else .nextFile span
  | .exit =>
    let _ ← advance
    let code ← optionalExpr fuel
    return .exit (← spanFrom start) code
  | .return =>
    let _ ← advance
    if !context.inFunction then failAt .returnOutsideFunction start
    let value ← optionalExpr fuel
    return .return (← spanFrom start) value
  | _ =>
    let e ← expr fuel false
    return .expr (← spanFrom start) e

/-- A simple statement, unless a token of a kind stands here. -/
def optionalStmt (fuel : Nat) (context : Context) (absent : TokenKind) : Parser (Option Stmt) := do
  if (← kind) = absent then return none else return some (← simpleStmt fuel context)

/-- The current token and the three after it read `name in name )`. -/
def startsForIn : Parser Bool := do
  let s ← get
  if s.current.kind = .name then
    let (first, behind) ← s.behind.token
    if first.kind = .in then
      let (second, behind) ← behind.token
      if second.kind = .name then
        let (third, _) ← behind.token
        return third.kind == .rpar
  return false

/-- An expression in parentheses. -/
def parenthesised (fuel : Nat) : Parser Expr := do
  let _ ← expect .lpar "'('"
  let e ← expr fuel false
  let _ ← expect .rpar "')'"
  return e

mutual

/-- Statements in braces. -/
def block : Nat → Context → Parser Stmt
  | 0, _ => do failAt .tooDeep (← current)
  | n + 1, context => do
    let start ← expect .lbrace "'\x7b'"
    let body ← blockBody n context
    return .block (← spanFrom start) body

/-- Statements up to and including the closing brace. -/
def blockBody : Nat → Context → Parser (List Stmt)
  | 0, _ => do failAt .tooDeep (← current)
  | n + 1, context => do
    skipTerminators
    if ← accept .rbrace then
      return []
    else if (← kind) = .eof then
      failExpecting "'\x7d'"
    else
      let first ← statement n context
      return first :: (← blockBody n context)

/-- Any statement. -/
def statement : Nat → Context → Parser Stmt
  | 0, _ => do failAt .tooDeep (← current)
  | n + 1, context => do
    let start ← current
    match start.kind with
    | .lbrace => block n context
    | .if =>
      let _ ← advance
      let test ← parenthesised n
      let yes ← bodyStmt n context
      let saved ← get
      skipNewlines
      let _ ← accept .semi
      skipNewlines
      if ← accept .else then
        let no ← bodyStmt n context
        return .ifElse (← spanFrom start) test yes (some no)
      else
        set saved
        return .ifElse (← spanFrom start) test yes none
    | .while =>
      let _ ← advance
      let test ← parenthesised n
      let body ← bodyStmt n { context with inLoop := true }
      return .while (← spanFrom start) test body
    | .do =>
      let _ ← advance
      let body ← bodyStmt n { context with inLoop := true }
      skipTerminators
      let _ ← expect .while "'while'"
      let test ← parenthesised n
      if !(← atTerminator) then failExpecting "';' or newline"
      return .doWhile (← spanFrom start) body test
    | .for => forStmt n context
    | .semi =>
      let _ ← advance
      return .empty (← spanFrom start)
    | _ =>
      let s ← simpleStmt n context
      if !(← atTerminator) then failExpecting "';' or newline"
      return s

/-- A loop over the keys of an array, or one with a start, a test and an update. -/
def forStmt : Nat → Context → Parser Stmt
  | 0, _ => do failAt .tooDeep (← current)
  | n + 1, context => do
    let start ← advance
    let _ ← expect .lpar "'('"
    if ← startsForIn then
      let element ← advance
      let _ ← advance
      let array ← advance
      let _ ← advance
      let body ← bodyStmt n { context with inLoop := true }
      return .forIn (← spanFrom start) element array body
    else
      let first ← optionalStmt n context .semi
      let _ ← expect .semi "';'"
      skipNewlines
      let test ← if (← kind) = .semi then pure none else do pure (some (← expr n false))
      let _ ← expect .semi "';'"
      skipNewlines
      let update ← optionalStmt n context .rpar
      let _ ← expect .rpar "')'"
      let body ← bodyStmt n { context with inLoop := true }
      return .for (← spanFrom start) first test update body

/-- The statement that a loop or a branch governs, which newlines may precede. -/
def bodyStmt : Nat → Context → Parser Stmt
  | 0, _ => do failAt .tooDeep (← current)
  | n + 1, context => do
    skipNewlines
    statement n context

end

end Parser

end Awk
