import Awk.Proofs.Syntax.Parts

/-!
# Nodes of a program

The expressions and statements that a program consists of, at any depth (`Parts.Contains`).  What can be assigned to
counts as the expression that reads it.  In a well-formed program every node is well formed (`Parts.wellFormed_node`).
-/

namespace Awk

inductive Node where
  | expr (e : Expr)
  | stmt (s : Stmt)

/-- The expressions of which an lvalue is made. -/
def LValue.operands : LValue → List Expr
  | .var _ => []
  | .index _ _ subscripts _ => subscripts
  | .field _ number => [number]

/-- The expressions right below an expression. -/
def Expr.operands : Expr → List Expr
  | .number _ | .string _ | .literal _ | .regex _ => []
  | .group _ inner => [inner]
  | .lvalue target => target.operands
  | .assign _ target _ _ right => [.lvalue target, right]
  | .conditional _ test yes no => [test, yes, no]
  | .logical _ _ left right | .matching _ left _ _ right | .compare _ left _ _ right | .arith _ left _ _ right =>
    [left, right]
  | .member _ subscripts _ _ => subscripts
  | .concat _ parts => parts
  | .sign _ _ _ operand => [operand]
  | .power _ base exponent => [base, exponent]
  | .preStep _ _ _ target | .postStep _ target _ _ => [.lvalue target]
  | .call _ _ args | .builtin _ _ _ args => args
  | .getline _ target => (target.map Expr.lvalue).toList
  | .getlineFile _ target file => file :: (target.map Expr.lvalue).toList
  | .getlineCommand _ command target => command :: (target.map Expr.lvalue).toList

/-- The expressions right below a statement. -/
def Stmt.operands : Stmt → List Expr
  | .ifElse _ test _ _ | .while _ test _ | .doWhile _ _ test => [test]
  | .for _ _ test _ _ => test.toList
  | .print _ _ _ items redirect => items ++ (redirect.map Redirect.target).toList
  | .delete _ _ subscripts => (subscripts.map Subscripts.items).getD []
  | .exit _ e | .return _ e => e.toList
  | .expr _ e => [e]
  | .block .. | .forIn .. | .empty _ | .break _ | .continue _ | .next _ | .nextFile _ => []

/-- The statements right below a statement. -/
def Stmt.inner : Stmt → List Stmt
  | .block _ body => body
  | .ifElse _ _ yes no => yes :: no.toList
  | .while _ _ body | .doWhile _ body _ | .forIn _ _ _ body => [body]
  | .for _ start _ update body => body :: (start.toList ++ update.toList)
  | _ => []

def Selector.operands : Selector → List Expr
  | .single _ test => [test]
  | .range _ first last => [first, last]

def Node.children : Node → List Node
  | .expr e => e.operands.map .expr
  | .stmt s => s.operands.map .expr ++ s.inner.map .stmt

/-- A node of a program, at any depth. -/
inductive Parts.Contains (p : Parts) : Node → Prop
  | begin {s : Stmt} (hs : s ∈ p.begins) : p.Contains (.stmt s)
  | selector {r : Rule} {s : Selector} {e : Expr} (hr : r ∈ p.rules) (hs : s ∈ r.selector) (he : e ∈ s.operands) :
    p.Contains (.expr e)
  | action {r : Rule} {s : Stmt} (hr : r ∈ p.rules) (hs : s ∈ r.action) : p.Contains (.stmt s)
  | end {s : Stmt} (hs : s ∈ p.ends) : p.Contains (.stmt s)
  | body {f : Function} (hf : f ∈ p.functions) : p.Contains (.stmt f.body)
  | child {node child : Node} (hnode : p.Contains node) (hchild : child ∈ node.children) : p.Contains child

def Node.WellFormed (accepts : Accepts) (folded : Bool) : Node → Prop
  | .expr e => e.WellFormed accepts folded
  | .stmt s => s.WellFormed accepts folded

variable {accepts : Accepts} {folded : Bool}

theorem wellFormed_of_mem_target {target : Option LValue} (h : TargetWellFormed accepts folded target) {e : Expr}
    (he : e ∈ (target.map Expr.lvalue).toList) : e.WellFormed accepts folded := by
  cases target with
  | none => cases he
  | some target =>
    cases List.mem_singleton.1 he
    exact h

theorem LValue.WellFormed.operand {target : LValue} (h : target.WellFormed accepts folded) {e : Expr}
    (he : e ∈ target.operands) : e.WellFormed accepts folded := by
  cases target with
  | var name => cases he
  | index span array subscripts subscriptsAt => exact wellFormed_of_mem_exprs h he
  | field span index =>
    cases List.mem_singleton.1 he
    exact h

theorem wellFormed_pair {left right e : Expr} (hleft : left.WellFormed accepts folded)
    (hright : right.WellFormed accepts folded) (he : e ∈ [left, right]) : e.WellFormed accepts folded := by
  rcases List.mem_cons.1 he with rfl | he
  · exact hleft
  · cases List.mem_singleton.1 he
    exact hright

theorem Expr.WellFormed.operand {e operand : Expr} (h : e.WellFormed accepts folded) (hoperand : operand ∈ e.operands) :
    operand.WellFormed accepts folded := by
  cases e with
  | number token => cases hoperand
  | string token => cases hoperand
  | literal v => cases hoperand
  | regex token => cases hoperand
  | group span inner =>
    cases List.mem_singleton.1 hoperand
    exact h.2
  | lvalue target => exact LValue.WellFormed.operand h hoperand
  | assign span target op token right =>
    have htarget : (Expr.lvalue target).WellFormed accepts folded := h.2.2.1
    exact wellFormed_pair htarget h.2.2.2 hoperand
  | conditional span test yes no =>
    rcases List.mem_cons.1 hoperand with rfl | hoperand
    · exact h.1
    · exact wellFormed_pair h.2.1 h.2.2 hoperand
  | logical span op left right => exact wellFormed_pair h.1 h.2 hoperand
  | member span subscripts subscriptsAt array => exact wellFormed_of_mem_exprs h hoperand
  | matching span left negated token right => exact wellFormed_pair h.2.1 h.2.2 hoperand
  | compare span left op token right => exact wellFormed_pair h.2.1 h.2.2 hoperand
  | concat span parts => exact wellFormed_of_mem_exprs h hoperand
  | arith span left op token right => exact wellFormed_pair h.2.1 h.2.2 hoperand
  | sign span op token e =>
    cases List.mem_singleton.1 hoperand
    exact h.2
  | power span base exponent => exact wellFormed_pair h.1 h.2 hoperand
  | preStep span op token target =>
    cases List.mem_singleton.1 hoperand
    exact h.2
  | postStep span target op token =>
    cases List.mem_singleton.1 hoperand
    exact h.2
  | call span function args => exact wellFormed_of_mem_exprs h.2 hoperand
  | builtin span b token args => exact wellFormed_of_mem_exprs h.2 hoperand
  | getline span target => exact wellFormed_of_mem_target h hoperand
  | getlineFile span target file =>
    rcases List.mem_cons.1 hoperand with rfl | hoperand
    · exact h.2
    · exact wellFormed_of_mem_target h.1 hoperand
  | getlineCommand span command target =>
    rcases List.mem_cons.1 hoperand with rfl | hoperand
    · exact h.1
    · exact wellFormed_of_mem_target h.2 hoperand

theorem Stmt.WellFormed.operand {s : Stmt} {e : Expr} (h : s.WellFormed accepts folded) (he : e ∈ s.operands) :
    e.WellFormed accepts folded := by
  cases s with
  | ifElse span test yes no =>
    cases List.mem_singleton.1 he
    exact h.1
  | «while» span test body =>
    cases List.mem_singleton.1 he
    exact h.1
  | doWhile span body test =>
    cases List.mem_singleton.1 he
    exact h.2
  | «for» span start test update body => exact h.2.1 e (Option.mem_toList.1 he)
  | print span token formatted items redirect =>
    rcases List.mem_append.1 he with he | he
    · exact wellFormed_of_mem_exprs h.2.1 he
    · obtain ⟨r, hr, rfl⟩ := Option.map_eq_some_iff.1 (Option.mem_toList.1 he)
      exact (h.2.2 r hr).2
  | delete span array subscripts =>
    cases subscripts with
    | none => cases he
    | some s => exact wellFormed_of_mem_exprs (h s rfl) he
  | exit span code => exact h e (Option.mem_toList.1 he)
  | «return» span value => exact h e (Option.mem_toList.1 he)
  | expr span e' =>
    cases List.mem_singleton.1 he
    exact h
  | _ => cases he

theorem wellFormed_of_mem_stmt? {s : Option Stmt} (h : StmtWellFormed? accepts folded s) {inner : Stmt}
    (hinner : inner ∈ s.toList) : inner.WellFormed accepts folded := by
  cases s with
  | none => cases hinner
  | some s =>
    cases List.mem_singleton.1 hinner
    exact h

theorem Stmt.WellFormed.inner {s inner : Stmt} (h : s.WellFormed accepts folded) (hinner : inner ∈ s.inner) :
    inner.WellFormed accepts folded := by
  cases s with
  | block span body => exact wellFormed_of_mem_stmts h hinner
  | ifElse span test yes no =>
    rcases List.mem_cons.1 hinner with rfl | hinner
    · exact h.2.1
    · exact wellFormed_of_mem_stmt? h.2.2 hinner
  | «while» span test body =>
    cases List.mem_singleton.1 hinner
    exact h.2
  | doWhile span body test =>
    cases List.mem_singleton.1 hinner
    exact h.1
  | forIn span element array body =>
    cases List.mem_singleton.1 hinner
    exact h
  | «for» span start test update body =>
    rcases List.mem_cons.1 hinner with rfl | hinner
    · exact h.2.2.2
    · rcases List.mem_append.1 hinner with hinner | hinner
      · exact wellFormed_of_mem_stmt? h.1 hinner
      · exact wellFormed_of_mem_stmt? h.2.2.1 hinner
  | _ => cases hinner

theorem Node.WellFormed.child {node child : Node} (h : node.WellFormed accepts folded)
    (hchild : child ∈ node.children) : child.WellFormed accepts folded := by
  cases node with
  | expr e =>
    obtain ⟨operand, hoperand, rfl⟩ := List.mem_map.1 hchild
    exact Expr.WellFormed.operand h hoperand
  | stmt s =>
    rcases List.mem_append.1 hchild with hchild | hchild
    · obtain ⟨operand, hoperand, rfl⟩ := List.mem_map.1 hchild
      exact Stmt.WellFormed.operand h hoperand
    · obtain ⟨inner, hinner, rfl⟩ := List.mem_map.1 hchild
      exact Stmt.WellFormed.inner h hinner

theorem Selector.WellFormed.operand {s : Selector} {e : Expr} (h : s.WellFormed accepts folded)
    (he : e ∈ s.operands) : e.WellFormed accepts folded := by
  cases s with
  | single span test =>
    cases List.mem_singleton.1 he
    exact h
  | range span first last => exact wellFormed_pair h.1 h.2 he

/-- Every node of a well-formed program is well formed. -/
theorem Parts.wellFormed_node {p : Parts} (h : p.WellFormed accepts) {node : Node} (hnode : p.Contains node) :
    node.WellFormed accepts true := by
  induction hnode with
  | begin hs => exact h.begins _ hs
  | selector hr hs he => exact (h.selectors _ hr _ hs).operand he
  | action hr hs => exact h.actions _ hr _ hs
  | «end» hs => exact h.ends _ hs
  | body hf => exact h.functions _ hf
  | child _ hchild ih => exact Node.WellFormed.child ih hchild

end Awk
