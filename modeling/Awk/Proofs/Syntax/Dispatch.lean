import Awk.Proofs.Syntax.Spelling
import Awk.Syntax.Outline

/-!
# Taking outlines apart

Whoever evaluates a program by its outline goes by the labels of the nodes, counts on a number of parts for each label,
and tells operators by their texts.  `readExpr` and `readStmt` take an outline apart in this way and make an expression
or a statement of it; where an evaluator would have to stop, they say why (`Misshapen`).  They are the other way round
to `Expr.outline` and `Stmt.outline`.
-/

namespace Awk

/-- Why an outline cannot be evaluated. -/
inductive Misshapen where
  | unknownNode (label : String)
  | notAssignable (label : String)
  /-- A node without a value, or none at all, stands where a value is wanted. -/
  | noValue (label : String)
  | wrongParts (label : String) (count : Nat)
  | unknownOperator (label : String) (operator : Text)
  | unknownBuiltin (name : Text)
  | unexpectedItem (label : String)
  deriving DecidableEq, Repr

/-! ### Labels -/

inductive LValueForm where
  | var
  | index
  | field
  deriving DecidableEq, Repr

inductive ExprForm where
  | lvalue (form : LValueForm)
  | regex
  | assign
  | conditional
  | logical (op : LogicalOp)
  | member
  | matching
  | compare
  | concat
  | arith
  | sign
  | power
  | preStep
  | postStep
  | call
  | builtin
  | getline
  | getlineFile
  | getlineCommand
  deriving DecidableEq, Repr

inductive StmtForm where
  | block
  | ifElse
  | while
  | doWhile
  | for
  | forIn
  | empty
  | print
  | delete
  | break
  | continue
  | next
  | nextFile
  | exit
  | return
  | expr
  deriving DecidableEq, Repr

inductive ItemForm where
  | begin
  | end
  | rule
  | function
  deriving DecidableEq, Repr

def lvalueForms : List (String × LValueForm) := [("var", .var), ("index", .index), ("field", .field)]

def exprForms : List (String × ExprForm) :=
  [("assign", .assign), ("ternary", .conditional), ("in_expr", .member), ("match", .matching), ("compare", .compare),
   ("concat", .concat), ("arith", .arith), ("unary", .sign), ("power", .power), ("pre_incdec", .preStep),
   ("post_incdec", .postStep), ("var", .lvalue .var), ("index", .lvalue .index), ("field", .lvalue .field),
   ("regex", .regex), ("call", .call), ("builtin_call", .builtin), ("simple_getline", .getline),
   ("file_getline", .getlineFile), ("pipe_getline", .getlineCommand), ("and", .logical .and), ("or", .logical .or)]

def stmtForms : List (String × StmtForm) :=
  [("block", .block), ("if_stmt", .ifElse), ("while_stmt", .while), ("do_stmt", .doWhile), ("for_stmt", .for),
   ("for_in_stmt", .forIn), ("expr_stmt", .expr), ("print_stmt", .print), ("delete_stmt", .delete),
   ("break_stmt", .break), ("continue_stmt", .continue), ("next_stmt", .next), ("nextfile_stmt", .nextFile),
   ("exit_stmt", .exit), ("return_stmt", .return), ("empty_stmt", .empty)]

def itemForms : List (String × ItemForm) :=
  [("begin", .begin), ("end", .end), ("rule", .rule), ("function_def", .function)]

namespace Outline

/-- The label of a node; a token and a value have none. -/
def label : Outline → String
  | node label _ _ => label
  | _ => "None"

/-- What stands for a part that is missing. -/
def isNothing (o : Outline) : Bool := o.label == "empty"

/-- A node that can be evaluated, but not to a value. -/
def isValueless (label : String) : Bool := label == "empty" || (stmtForms.lookup label).isSome

/-- The operator that a token of a node writes. -/
def operator {α : Type} (label : String) (ofText? : Text → Option α) (token : Token) : Except Misshapen α :=
  match ofText? token.text with
  | some op => .ok op
  | none => .error (.unknownOperator label token.text)

/-- A part that may be missing. -/
def ifPresent {α : Type} (o : Outline) (part : Except Misshapen α) : Except Misshapen (Option α) :=
  if o.isNothing then .ok none else do .ok (some (← part))

def builtin (token : Token) : Except Misshapen Builtin :=
  match Builtin.ofName? token.text with
  | some b => .ok b
  | none => .error (.unknownBuiltin token.text)

/-! ### Expressions -/

-- The reader of a form gets all the parts of a node and may hand them on as they are, so that it counts for one more
-- than its parts.

mutual

def readExpr (o : Outline) : Except Misshapen Expr :=
  match o with
  | value v => .ok (.literal v)
  | leaf _ => .error (.unknownNode "None")
  | node label span parts =>
    match exprForms.lookup label with
    | some form => readForm label form span parts
    | none => .error (if isValueless label then .noValue label else .unknownNode label)
termination_by 2 * sizeOf o
decreasing_by
  all_goals simp only [node.sizeOf_spec]
  all_goals omega

/-- An expression of a form, from its parts. -/
def readForm (label : String) (form : ExprForm) (span : Option Span) (parts : List Outline) : Except Misshapen Expr :=
  match form, span, parts with
  | .lvalue form, span, parts => do .ok (.lvalue (← readLValueForm label form span parts))
  | .regex, some _, [leaf token] => .ok (.regex token)
  | .assign, some span, [target, leaf token, right] => do
    .ok (.assign span (← readLValue target) (← operator label AssignOp.ofText? token) token (← readExpr right))
  | .conditional, some span, [test, yes, no] => do
    .ok (.conditional span (← readExpr test) (← readExpr yes) (← readExpr no))
  | .logical op, some span, [left, right] => do .ok (.logical span op (← readExpr left) (← readExpr right))
  | .member, some span, [node _ subscriptsAt subscripts, leaf array] => do
    .ok (.member span (← readExprs subscripts) subscriptsAt array)
  | .matching, some span, [left, leaf token, right] => do
    .ok (.matching span (← readExpr left) (← operator label negation? token) token (← readExpr right))
  | .compare, some span, [left, leaf token, right] => do
    .ok (.compare span (← readExpr left) (← operator label CompareOp.ofText? token) token (← readExpr right))
  | .concat, some span, parts => do .ok (.concat span (← readExprs parts))
  | .arith, some span, [left, leaf token, right] => do
    .ok (.arith span (← readExpr left) (← operator label ArithOp.ofText? token) token (← readExpr right))
  | .sign, some span, [leaf token, operand] => do
    .ok (.sign span (← operator label SignOp.ofText? token) token (← readExpr operand))
  | .power, some span, [base, exponent] => do .ok (.power span (← readExpr base) (← readExpr exponent))
  | .preStep, some span, [leaf token, target] => do
    .ok (.preStep span (← operator label StepOp.ofText? token) token (← readLValue target))
  | .postStep, some span, [target, leaf token] => do
    .ok (.postStep span (← readLValue target) (← operator label StepOp.ofText? token) token)
  | .call, some span, [leaf function, node _ _ args] => do .ok (.call span function (← readExprs args))
  | .builtin, some span, [leaf token, node _ _ args] => do
    .ok (.builtin span (← builtin token) token (← readExprs args))
  | .getline, some span, [target] => do .ok (.getline span (← ifPresent target (readLValue target)))
  | .getlineFile, some span, [target, file] => do
    .ok (.getlineFile span (← ifPresent target (readLValue target)) (← readExpr file))
  | .getlineCommand, some span, [command, target] => do
    .ok (.getlineCommand span (← readExpr command) (← ifPresent target (readLValue target)))
  | _, _, parts => .error (.wrongParts label parts.length)
termination_by 2 * sizeOf parts + 1
decreasing_by
  all_goals try simp only [node.sizeOf_spec, List.cons.sizeOf_spec, List.nil.sizeOf_spec]
  all_goals omega

def readLValue (o : Outline) : Except Misshapen LValue :=
  match o with
  | node label span parts =>
    match lvalueForms.lookup label with
    | some form => readLValueForm label form span parts
    | none => .error (.notAssignable label)
  | _ => .error (.notAssignable "None")
termination_by 2 * sizeOf o
decreasing_by
  all_goals simp only [node.sizeOf_spec]
  all_goals omega

def readLValueForm (label : String) (form : LValueForm) (span : Option Span) (parts : List Outline) :
    Except Misshapen LValue :=
  match form, span, parts with
  | .var, some _, [leaf name] => .ok (.var name)
  | .index, some span, [leaf array, node _ (some subscriptsAt) subscripts] => do
    .ok (.index span array (← readExprs subscripts) subscriptsAt)
  | .field, some span, [index] => do .ok (.field span (← readExpr index))
  | _, _, parts => .error (.wrongParts label parts.length)
termination_by 2 * sizeOf parts
decreasing_by
  all_goals simp only [node.sizeOf_spec, leaf.sizeOf_spec, List.cons.sizeOf_spec, List.nil.sizeOf_spec]
  all_goals omega

def readExprs (parts : List Outline) : Except Misshapen (List Expr) :=
  match parts with
  | [] => .ok []
  | o :: os => do .ok ((← readExpr o) :: (← readExprs os))
termination_by 2 * sizeOf parts
decreasing_by
  all_goals simp only [List.cons.sizeOf_spec]
  all_goals omega

end

theorem readExpr_node {label : String} {form : ExprForm} (h : exprForms.lookup label = some form) (span : Option Span)
    (parts : List Outline) : readExpr (node label span parts) = readForm label form span parts := by
  rw [readExpr, h]

theorem readLValue_node {label : String} {form : LValueForm} (h : lvalueForms.lookup label = some form)
    (span : Option Span) (parts : List Outline) :
    readLValue (node label span parts) = readLValueForm label form span parts := by
  rw [readLValue, h]

/-! ### Statements -/

def readRedirect (label : String) (span : Span) (token : Token) (target : Outline) : Except Misshapen Redirect := do
  .ok ⟨span, ← operator label RedirectOp.ofText? token, token, ← readExpr target⟩

mutual

def readStmt (o : Outline) : Except Misshapen Stmt :=
  match o with
  | node label span parts =>
    match stmtForms.lookup label with
    | some form => readStmtForm label form span parts
    | none => .error (.unknownNode label)
  | _ => .error (.unknownNode "None")
termination_by 2 * sizeOf o
decreasing_by
  all_goals simp only [node.sizeOf_spec]
  all_goals omega

/-- A statement of a form, from its parts. -/
def readStmtForm (label : String) (form : StmtForm) (span : Option Span) (parts : List Outline) :
    Except Misshapen Stmt :=
  match form, span, parts with
  | .block, some span, parts => do .ok (.block span (← readStmts parts))
  | .ifElse, some span, [test, yes] => do .ok (.ifElse span (← readExpr test) (← readStmt yes) none)
  | .ifElse, some span, [test, yes, no] => do
    .ok (.ifElse span (← readExpr test) (← readStmt yes) (some (← readStmt no)))
  | .while, some span, [test, body] => do .ok (.while span (← readExpr test) (← readStmt body))
  | .doWhile, some span, [body, test] => do .ok (.doWhile span (← readStmt body) (← readExpr test))
  | .for, some span, [start, test, update, body] => do
    .ok (.for span (← ifPresent start (readStmt start)) (← ifPresent test (readExpr test))
      (← ifPresent update (readStmt update)) (← readStmt body))
  | .forIn, some span, [leaf element, leaf array, body] => do .ok (.forIn span element array (← readStmt body))
  | .empty, some span, [] => .ok (.empty span)
  | .print, some span, [leaf token, node _ _ items] => do
    .ok (.print span token (← operator label formatted? token) (← readExprs items) none)
  | .print, some span, [leaf token, node _ _ items, node redirectLabel (some redirectAt) [leaf op, target]] => do
    .ok (.print span token (← operator label formatted? token) (← readExprs items)
      (some (← readRedirect redirectLabel redirectAt op target)))
  | .delete, some span, [leaf array] => .ok (.delete span array none)
  | .delete, some span, [leaf array, node _ (some subscriptsAt) subscripts] => do
    .ok (.delete span array (some ⟨subscriptsAt, ← readExprs subscripts⟩))
  | .break, some span, [] => .ok (.break span)
  | .continue, some span, [] => .ok (.continue span)
  | .next, some span, [] => .ok (.next span)
  | .nextFile, some span, [] => .ok (.nextFile span)
  | .exit, some span, [] => .ok (.exit span none)
  | .exit, some span, [code] => do .ok (.exit span (some (← readExpr code)))
  | .return, some span, [] => .ok (.return span none)
  | .return, some span, [result] => do .ok (.return span (some (← readExpr result)))
  | .expr, some span, [e] => do .ok (.expr span (← readExpr e))
  | _, _, parts => .error (.wrongParts label parts.length)
termination_by 2 * sizeOf parts + 1
decreasing_by
  all_goals try simp only [List.cons.sizeOf_spec, List.nil.sizeOf_spec]
  all_goals omega

def readStmts (parts : List Outline) : Except Misshapen (List Stmt) :=
  match parts with
  | [] => .ok []
  | o :: os => do .ok ((← readStmt o) :: (← readStmts os))
termination_by 2 * sizeOf parts
decreasing_by
  all_goals simp only [List.cons.sizeOf_spec]
  all_goals omega

end

theorem readStmt_node {label : String} {form : StmtForm} (h : stmtForms.lookup label = some form) (span : Option Span)
    (parts : List Outline) : readStmt (node label span parts) = readStmtForm label form span parts := by
  rw [readStmt, h]

/-! ### Items -/

/-- A range is told from a single expression by the label. -/
def readSelector : Outline → Except Misshapen Selector
  | node label (some span) parts =>
    if label == "pattern" then
      match parts with
      | [test] => do .ok (.single span (← readExpr test))
      | parts => .error (.wrongParts label parts.length)
    else
      match parts with
      | [first, last] => do .ok (.range span (← readExpr first) (← readExpr last))
      | parts => .error (.wrongParts label parts.length)
  | o => .error (.unknownNode o.label)

/-- A block among the parts of a rule is its action, anything else its selector. -/
def readRule : List Outline → Except Misshapen (Option Selector × Option Stmt)
  | [] => .ok (none, none)
  | o :: os => do
    let (selector, action) ← readRule os
    if o.label == "block" then .ok (selector, action <|> some (← readStmt o))
    else .ok (selector <|> some (← readSelector o), action)

def readParams : List Outline → Except Misshapen (List Token)
  | [] => .ok []
  | leaf token :: os => do .ok (token :: (← readParams os))
  | o :: _ => .error (.unknownNode o.label)

def readItem : Outline → Except Misshapen Item
  | node label (some span) parts =>
    match itemForms.lookup label, parts with
    | some .begin, [body] => do .ok (.begin span (← readStmt body))
    | some .end, [body] => do .ok (.end span (← readStmt body))
    | some .rule, parts => do
      let (selector, action) ← readRule parts
      .ok (.rule span selector action)
    | some .function, [leaf name, node _ _ params, body] => do
      .ok (.function span name (← readParams params) (← readStmt body))
    | some _, parts => .error (.wrongParts label parts.length)
    | none, _ => .error (.unexpectedItem label)
  | o => .error (.unexpectedItem o.label)

def readProgram : Outline → Except Misshapen Program
  | node _ (some span) items => do .ok ⟨span, ← items.mapM readItem⟩
  | o => .error (.unknownNode o.label)

end Outline

end Awk
