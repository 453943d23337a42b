import Awk.Syntax.Tree

/-!
# Outlines

An outline shows a program as a tree of labelled nodes, tokens and values, in which every construct has the same
shape.  Searching by label (`find?`) and counting (`count`) work on outlines.
-/

namespace Awk

inductive Outline where
  | node (label : String) (span : Option Span) (children : List Outline)
  | leaf (token : Token)
  | value (v : Value)

namespace Outline

mutual

/-- The first node, in order of the text, whose label is one of those given. -/
def find? (labels : List Text) : Outline → Option Outline
  | node label span children =>
    if labels.contains label.toList then some (node label span children) else findIn? labels children
  | _ => none

def findIn? (labels : List Text) : List Outline → Option Outline
  | [] => none
  | o :: os =>
    match find? labels o with
    | some found => some found
    | none => findIn? labels os

end

mutual

/-- Number of nodes with a label. -/
def count (label : Text) : Outline → Nat
  | node l _ children => (if l.toList = label then 1 else 0) + countIn label children
  | _ => 0

def countIn (label : Text) : List Outline → Nat
  | [] => 0
  | o :: os => count label o + countIn label os

end

/-- What stands for a part that is missing. -/
def nothing : Outline := node "empty" none []

end Outline

open Outline (node leaf nothing)

mutual

def Expr.outline : Expr → Outline
  | .number token => node "number" (some token.span) [leaf token]
  | .string token => node "string" (some token.span) [leaf token]
  | .literal v => .value v
  | .regex token => node "regex" (some token.span) [leaf token]
  | .group span inner => node "group" (some span) [inner.outline]
  | .lvalue target => target.outline
  | .assign span target _ token right => node "assign" (some span) [target.outline, leaf token, right.outline]
  | .conditional span test yes no => node "ternary" (some span) [test.outline, yes.outline, no.outline]
  | .logical span op left right =>
    node (match op with
      | .and => "and"
      | .or => "or") (some span) [left.outline, right.outline]
  | .member span subscripts subscriptsAt array =>
    node "in_expr" (some span) [node "subscripts" subscriptsAt (outlines subscripts), leaf array]
  | .matching span left _ token right => node "match" (some span) [left.outline, leaf token, right.outline]
  | .compare span left _ token right => node "compare" (some span) [left.outline, leaf token, right.outline]
  | .concat span parts => node "concat" (some span) (outlines parts)
  | .arith span left _ token right => node "arith" (some span) [left.outline, leaf token, right.outline]
  | .sign span _ token operand => node "unary" (some span) [leaf token, operand.outline]
  | .power span base exponent => node "power" (some span) [base.outline, exponent.outline]
  | .preStep span _ token target => node "pre_incdec" (some span) [leaf token, target.outline]
  | .postStep span target _ token => node "post_incdec" (some span) [target.outline, leaf token]
  | .call span function args => node "call" (some span) [leaf function, node "args" none (outlines args)]
  | .builtin span _ token args => node "builtin_call" (some span) [leaf token, node "args" none (outlines args)]
  | .getline span target => node "simple_getline" (some span) [targetOutline target]
  | .getlineFile span target file => node "file_getline" (some span) [targetOutline target, file.outline]
  | .getlineCommand span command target =>
    node "pipe_getline" (some span) [command.outline, targetOutline target]

def LValue.outline : LValue → Outline
  | .var name => node "var" (some name.span) [leaf name]
  | .index span array subscripts subscriptsAt =>
    node "index" (some span) [leaf array, node "subscripts" (some subscriptsAt) (outlines subscripts)]
  | .field span index => node "field" (some span) [index.outline]

def outlines : List Expr → List Outline
  | [] => []
  | e :: es => e.outline :: outlines es

def targetOutline : Option LValue → Outline
  | none => nothing
  | some target => target.outline

end

def exprOutline : Option Expr → Outline
  | none => nothing
  | some e => e.outline

def Redirect.outline (r : Redirect) : Outline :=
  node "output_redirect" (some r.span) [leaf r.token, r.target.outline]

def Subscripts.outline (s : Subscripts) : Outline := node "subscripts" (some s.span) (outlines s.items)

mutual

def Stmt.outline : Stmt → Outline
  | .block span body => node "block" (some span) (stmtOutlines body)
  | .ifElse span test yes no => node "if_stmt" (some span) (test.outline :: yes.outline :: elseOutline no)
  | .while span test body => node "while_stmt" (some span) [test.outline, body.outline]
  | .doWhile span body test => node "do_stmt" (some span) [body.outline, test.outline]
  | .for span start test update body =>
    node "for_stmt" (some span) [stmtOutline start, exprOutline test, stmtOutline update, body.outline]
  | .forIn span element array body => node "for_in_stmt" (some span) [leaf element, leaf array, body.outline]
  | .empty span => node "empty_stmt" (some span) []
  | .print span token _ items redirect =>
    node "print_stmt" (some span)
      (leaf token :: node "expr_list" none (outlines items) :: (redirect.map Redirect.outline).toList)
  | .delete span array subscripts =>
    node "delete_stmt" (some span) (leaf array :: (subscripts.map Subscripts.outline).toList)
  | .break span => node "break_stmt" (some span) []
  | .continue span => node "continue_stmt" (some span) []
  | .next span => node "next_stmt" (some span) []
  | .nextFile span => node "nextfile_stmt" (some span) []
  | .exit span code => node "exit_stmt" (some span) (code.map Expr.outline).toList
  | .return span value => node "return_stmt" (some span) (value.map Expr.outline).toList
  | .expr span e => node "expr_stmt" (some span) [e.outline]

def stmtOutlines : List Stmt → List Outline
  | [] => []
  | s :: ss => s.outline :: stmtOutlines ss

def stmtOutline : Option Stmt → Outline
  | none => nothing
  | some s => s.outline

def elseOutline : Option Stmt → List Outline
  | none => []
  | some s => [s.outline]

end

/-- The label of the outline of a selector. -/
def Selector.label : Selector → String
  | .single .. => "pattern"
  | .range .. => "range_pattern"

def Selector.outline : Selector → Outline
  | .single span test => node "pattern" (some span) [test.outline]
  | .range span first last => node "range_pattern" (some span) [first.outline, last.outline]

def Item.outline : Item → Outline
  | .begin span body => node "begin" (some span) [body.outline]
  | .end span body => node "end" (some span) [body.outline]
  | .rule span selector action =>
    node "rule" (some span) ((selector.map Selector.outline).toList ++ (action.map Stmt.outline).toList)
  | .function span name params body =>
    node "function_def" (some span) [leaf name, node "params" none (params.map leaf), body.outline]

def Program.outline (p : Program) : Outline := node "program" (some p.span) (p.items.map Item.outline)

end Awk
