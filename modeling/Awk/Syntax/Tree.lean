import Awk.Syntax.Operator
import Awk.Value.Basic

/-!
# Programs as trees

Expressions, statements and the items of a program.  Every node keeps the place of the text it was read from, and
every leaf its token.  What can be assigned to (`LValue`) is a type of its own, so that an assignment to anything
else cannot be written.
-/

namespace Awk

mutual

inductive Expr where
  | number (token : Token)
  | string (token : Token)
  /-- The value of a number or string literal, in place of the literal. -/
  | literal (value : Value)
  | regex (token : Token)
  | group (span : Span) (inner : Expr)
  | lvalue (target : LValue)
  | assign (span : Span) (target : LValue) (op : AssignOp) (token : Token) (right : Expr)
  | conditional (span : Span) (test yes no : Expr)
  | logical (span : Span) (op : LogicalOp) (left right : Expr)
  /-- The subscripts have a place of their own when they stand in parentheses. -/
  | member (span : Span) (subscripts : List Expr) (subscriptsAt : Option Span) (array : Token)
  | matching (span : Span) (left : Expr) (negated : Bool) (token : Token) (right : Expr)
  | compare (span : Span) (left : Expr) (op : CompareOp) (token : Token) (right : Expr)
  | concat (span : Span) (parts : List Expr)
  | arith (span : Span) (left : Expr) (op : ArithOp) (token : Token) (right : Expr)
  | sign (span : Span) (op : SignOp) (token : Token) (operand : Expr)
  | power (span : Span) (base exponent : Expr)
  | preStep (span : Span) (op : StepOp) (token : Token) (target : LValue)
  | postStep (span : Span) (target : LValue) (op : StepOp) (token : Token)
  | call (span : Span) (function : Token) (args : List Expr)
  | builtin (span : Span) (function : Builtin) (token : Token) (args : List Expr)
  | getline (span : Span) (target : Option LValue)
  | getlineFile (span : Span) (target : Option LValue) (file : Expr)
  | getlineCommand (span : Span) (command : Expr) (target : Option LValue)

inductive LValue where
  | var (name : Token)
  | index (span : Span) (array : Token) (subscripts : List Expr) (subscriptsAt : Span)
  | field (span : Span) (index : Expr)

end

/-- Where a print statement sends its output. -/
structure Redirect where
  span : Span
  op : RedirectOp
  token : Token
  target : Expr

/-- Subscripts in brackets and their place. -/
structure Subscripts where
  span : Span
  items : List Expr

inductive Stmt where
  | block (span : Span) (body : List Stmt)
  | ifElse (span : Span) (test : Expr) (yes : Stmt) (no : Option Stmt)
  | while (span : Span) (test : Expr) (body : Stmt)
  | doWhile (span : Span) (body : Stmt) (test : Expr)
  | for (span : Span) (start : Option Stmt) (test : Option Expr) (update : Option Stmt) (body : Stmt)
  | forIn (span : Span) (element array : Token) (body : Stmt)
  | empty (span : Span)
  | print (span : Span) (token : Token) (formatted : Bool) (items : List Expr) (redirect : Option Redirect)
  | delete (span : Span) (array : Token) (subscripts : Option Subscripts)
  | break (span : Span)
  | continue (span : Span)
  | next (span : Span)
  | nextFile (span : Span)
  | exit (span : Span) (code : Option Expr)
  | return (span : Span) (value : Option Expr)
  | expr (span : Span) (e : Expr)

/-- Which records a rule applies to: those for which an expression holds, or ranges from one to another. -/
inductive Selector where
  | single (span : Span) (test : Expr)
  | range (span : Span) (first last : Expr)

/-- An item of a program.  A rule without an action prints the record. -/
inductive Item where
  | begin (span : Span) (body : Stmt)
  | end (span : Span) (body : Stmt)
  | rule (span : Span) (selector : Option Selector) (action : Option Stmt)
  | function (span : Span) (name : Token) (params : List Token) (body : Stmt)

structure Program where
  span : Span
  items : List Item

/-- The expression as something to assign to, if it is that. -/
def Expr.asLValue? : Expr → Option LValue
  | .lvalue target => some target
  | _ => none

def LValue.span : LValue → Span
  | var name => name.span
  | index span .. | field span _ => span

/-- The place of an expression; a folded literal has none. -/
def Expr.span? : Expr → Option Span
  | number token | string token | regex token => some token.span
  | literal _ => none
  | lvalue target => some target.span
  | group span _ | assign span .. | conditional span .. | logical span .. | member span .. | matching span ..
  | compare span .. | concat span _ | arith span .. | sign span .. | power span .. | preStep span .. | postStep span ..
  | call span .. | builtin span .. | getline span _ | getlineFile span .. | getlineCommand span .. => some span

def Stmt.span : Stmt → Span
  | block span _ | ifElse span .. | .while span .. | doWhile span .. | .for span .. | forIn span .. | empty span
  | print span .. | delete span .. | .break span | .continue span | next span | nextFile span | exit span _
  | .return span _ | expr span _ => span

end Awk
