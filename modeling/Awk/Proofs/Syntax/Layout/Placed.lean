import Awk.Syntax.Tree

/-!
# Trees with other places

A tree keeps its form when its places are changed (`placed`).  Changing them twice is changing them once
(`placed_placed`), and changing none of them leaves the tree (`placed_id`).  Trees that differ in their places only are
those that become the same when all places are forgotten (`Program.bare`).
-/

namespace Awk

variable (f g : Span → Span)

def Token.placed (token : Token) : Token := { token with span := f token.span }

mutual

def Expr.placed : Expr → Expr
  | .number token => .number (token.placed f)
  | .string token => .string (token.placed f)
  | .literal v => .literal v
  | .regex token => .regex (token.placed f)
  | .group span inner => .group (f span) inner.placed
  | .lvalue target => .lvalue target.placed
  | .assign span target op token right => .assign (f span) target.placed op (token.placed f) right.placed
  | .conditional span test yes no => .conditional (f span) test.placed yes.placed no.placed
  | .logical span op left right => .logical (f span) op left.placed right.placed
  | .member span subscripts subscriptsAt array =>
    .member (f span) (placedAll subscripts) (subscriptsAt.map f) (array.placed f)
  | .matching span left negated token right =>
    .matching (f span) left.placed negated (token.placed f) right.placed
  | .compare span left op token right => .compare (f span) left.placed op (token.placed f) right.placed
  | .concat span parts => .concat (f span) (placedAll parts)
  | .arith span left op token right => .arith (f span) left.placed op (token.placed f) right.placed
  | .sign span op token operand => .sign (f span) op (token.placed f) operand.placed
  | .power span base exponent => .power (f span) base.placed exponent.placed
  | .preStep span op token target => .preStep (f span) op (token.placed f) target.placed
  | .postStep span target op token => .postStep (f span) target.placed op (token.placed f)
  | .call span function args => .call (f span) (function.placed f) (placedAll args)
  | .builtin span function token args => .builtin (f span) function (token.placed f) (placedAll args)
  | .getline span target => .getline (f span) (placedTarget target)
  | .getlineFile span target file => .getlineFile (f span) (placedTarget target) file.placed
  | .getlineCommand span command target => .getlineCommand (f span) command.placed (placedTarget target)

def LValue.placed : LValue → LValue
  | .var name => .var (name.placed f)
  | .index span array subscripts subscriptsAt =>
    .index (f span) (array.placed f) (placedAll subscripts) (f subscriptsAt)
  | .field span index => .field (f span) index.placed

def placedAll : List Expr → List Expr
  | [] => []
  | e :: es => e.placed :: placedAll es

def placedTarget : Option LValue → Option LValue
  | none => none
  | some target => some target.placed

end

def Redirect.placed (r : Redirect) : Redirect := ⟨f r.span, r.op, r.token.placed f, r.target.placed f⟩

def Subscripts.placed (s : Subscripts) : Subscripts := ⟨f s.span, placedAll f s.items⟩

mutual

def Stmt.placed : Stmt → Stmt
  | .block span body => .block (f span) (placedBody body)
  | .ifElse span test yes no => .ifElse (f span) (test.placed f) yes.placed (placedStmt no)
  | .while span test body => .while (f span) (test.placed f) body.placed
  | .doWhile span body test => .doWhile (f span) body.placed (test.placed f)
  | .for span start test update body =>
    .for (f span) (placedStmt start) (test.map (Expr.placed f)) (placedStmt update) body.placed
  | .forIn span element array body => .forIn (f span) (element.placed f) (array.placed f) body.placed
  | .empty span => .empty (f span)
  | .print span token formatted items redirect =>
    .print (f span) (token.placed f) formatted (placedAll f items) (redirect.map (Redirect.placed f))
  | .delete span array subscripts => .delete (f span) (array.placed f) (subscripts.map (Subscripts.placed f))
  | .break span => .break (f span)
  | .continue span => .continue (f span)
  | .next span => .next (f span)
  | .nextFile span => .nextFile (f span)
  | .exit span code => .exit (f span) (code.map (Expr.placed f))
  | .return span value => .return (f span) (value.map (Expr.placed f))
  | .expr span e => .expr (f span) (e.placed f)

def placedBody : List Stmt → List Stmt
  | [] => []
  | s :: ss => s.placed :: placedBody ss

def placedStmt : Option Stmt → Option Stmt
  | none => none
  | some s => some s.placed

end

def Selector.placed : Selector → Selector
  | .single span test => .single (f span) (test.placed f)
  | .range span first last => .range (f span) (first.placed f) (last.placed f)

def Item.placed : Item → Item
  | .begin span body => .begin (f span) (body.placed f)
  | .end span body => .end (f span) (body.placed f)
  | .rule span selector action =>
    .rule (f span) (selector.map (Selector.placed f)) (action.map (Stmt.placed f))
  | .function span name params body =>
    .function (f span) (name.placed f) (params.map (Token.placed f)) (body.placed f)

def Program.placed (p : Program) : Program := ⟨f p.span, p.items.map (Item.placed f)⟩

/-- The program with its places forgotten. -/
def Program.bare (p : Program) : Program := p.placed fun _ => ⟨0, 0, 0, 0⟩

/-! ### Changing places twice -/

theorem Token.placed_placed (token : Token) : (token.placed g).placed f = token.placed (f ∘ g) := rfl

mutual

theorem Expr.placed_placed (e : Expr) : (e.placed g).placed f = e.placed (f ∘ g) := by
  cases e with
  | number token | string token | literal v | regex token => rfl
  | group span inner => simp [Expr.placed, inner.placed_placed]
  | lvalue target => simp [Expr.placed, target.placed_placed]
  | assign span target op token right =>
    simp [Expr.placed, target.placed_placed, right.placed_placed, Token.placed_placed]
  | conditional span test yes no =>
    simp [Expr.placed, test.placed_placed, yes.placed_placed, no.placed_placed]
  | logical span op left right | power span left right =>
    simp [Expr.placed, left.placed_placed, right.placed_placed]
  | member span subscripts subscriptsAt array =>
    simp [Expr.placed, placedAll_placedAll subscripts, Token.placed_placed]
  | matching span left negated token right | compare span left op token right | arith span left op token right =>
    simp [Expr.placed, left.placed_placed, right.placed_placed, Token.placed_placed]
  | concat span parts => simp [Expr.placed, placedAll_placedAll parts]
  | sign span op token operand => simp [Expr.placed, operand.placed_placed, Token.placed_placed]
  | preStep span op token target | postStep span target op token =>
    simp [Expr.placed, target.placed_placed, Token.placed_placed]
  | call span function args | builtin span function token args =>
    simp [Expr.placed, placedAll_placedAll args, Token.placed_placed]
  | getline span target => simp [Expr.placed, placedTarget_placedTarget target]
  | getlineFile span target file => simp [Expr.placed, placedTarget_placedTarget target, file.placed_placed]
  | getlineCommand span command target =>
    simp [Expr.placed, placedTarget_placedTarget target, command.placed_placed]

theorem LValue.placed_placed (target : LValue) : (target.placed g).placed f = target.placed (f ∘ g) := by
  cases target with
  | var name => rfl
  | index span array subscripts subscriptsAt =>
    simp [LValue.placed, placedAll_placedAll subscripts, Token.placed_placed]
  | field span index => simp [LValue.placed, index.placed_placed]

theorem placedAll_placedAll (es : List Expr) : placedAll f (placedAll g es) = placedAll (f ∘ g) es := by
  cases es with
  | nil => rfl
  | cons e es => simp [placedAll, e.placed_placed, placedAll_placedAll es]

theorem placedTarget_placedTarget (target : Option LValue) :
    placedTarget f (placedTarget g target) = placedTarget (f ∘ g) target := by
  cases target with
  | none => rfl
  | some target => simp [placedTarget, target.placed_placed]

end

theorem Redirect.placed_placed (r : Redirect) : (r.placed g).placed f = r.placed (f ∘ g) := by
  simp [Redirect.placed, r.target.placed_placed, Token.placed_placed]

theorem Subscripts.placed_placed (s : Subscripts) : (s.placed g).placed f = s.placed (f ∘ g) := by
  simp [Subscripts.placed, placedAll_placedAll]

theorem Expr.map_placed_placed (e : Option Expr) :
    (e.map (Expr.placed g)).map (Expr.placed f) = e.map (Expr.placed (f ∘ g)) := by
  cases e <;> simp [Expr.placed_placed]

mutual

theorem Stmt.placed_placed (s : Stmt) : (s.placed g).placed f = s.placed (f ∘ g) := by
  cases s with
  | block span body => simp [Stmt.placed, placedBody_placedBody body]
  | ifElse span test yes no =>
    simp [Stmt.placed, test.placed_placed, yes.placed_placed, placedStmt_placedStmt no]
  | «while» span test body | doWhile span body test => simp [Stmt.placed, test.placed_placed, body.placed_placed]
  | «for» span start test update body =>
    simp only [Stmt.placed, placedStmt_placedStmt start, Expr.map_placed_placed, placedStmt_placedStmt update,
      body.placed_placed, Function.comp_apply]
  | forIn span element array body => simp [Stmt.placed, body.placed_placed, Token.placed_placed]
  | print span token formatted items redirect =>
    cases redirect <;> simp [Stmt.placed, placedAll_placedAll, Redirect.placed_placed, Token.placed_placed]
  | delete span array subscripts =>
    cases subscripts <;> simp [Stmt.placed, Subscripts.placed_placed, Token.placed_placed]
  | exit span e | «return» span e => simp only [Stmt.placed, Expr.map_placed_placed, Function.comp_apply]
  | expr span e => simp [Stmt.placed, e.placed_placed]
  | _ => rfl

theorem placedBody_placedBody (body : List Stmt) : placedBody f (placedBody g body) = placedBody (f ∘ g) body := by
  cases body with
  | nil => rfl
  | cons s body => simp [placedBody, s.placed_placed, placedBody_placedBody body]

theorem placedStmt_placedStmt (s : Option Stmt) : placedStmt f (placedStmt g s) = placedStmt (f ∘ g) s := by
  cases s with
  | none => rfl
  | some s => simp [placedStmt, s.placed_placed]

end

theorem Item.placed_placed (item : Item) : (item.placed g).placed f = item.placed (f ∘ g) := by
  cases item with
  | begin span body | «end» span body => simp [Item.placed, body.placed_placed]
  | rule span selector action =>
    cases selector with
    | none => cases action <;> simp [Item.placed, Stmt.placed_placed]
    | some selector =>
      cases selector <;> cases action <;> simp [Item.placed, Selector.placed, Stmt.placed_placed, Expr.placed_placed]
  | function span name params body => simp [Item.placed, body.placed_placed, Token.placed_placed]

/-- Items with other places make the same program, its places forgotten. -/
theorem Program.bare_eq_of_items {p p' : Program} (h : p'.items = p.items.map (Item.placed f)) : p'.bare = p.bare := by
  simp [Program.bare, Program.placed, h, Item.placed_placed, Function.comp_def]

/-! ### Changing no places -/

theorem Token.placed_id (token : Token) : token.placed id = token := rfl

mutual

theorem Expr.placed_id (e : Expr) : e.placed id = e := by
  cases e with
  | number token | string token | literal v | regex token => rfl
  | group span inner => simp [Expr.placed, inner.placed_id]
  | lvalue target => simp [Expr.placed, target.placed_id]
  | assign span target op token right =>
    simp [Expr.placed, target.placed_id, right.placed_id, Token.placed_id]
  | conditional span test yes no => simp [Expr.placed, test.placed_id, yes.placed_id, no.placed_id]
  | logical span op left right | power span left right => simp [Expr.placed, left.placed_id, right.placed_id]
  | member span subscripts subscriptsAt array => simp [Expr.placed, placedAll_id subscripts, Token.placed_id]
  | matching span left negated token right | compare span left op token right | arith span left op token right =>
    simp [Expr.placed, left.placed_id, right.placed_id, Token.placed_id]
  | concat span parts => simp [Expr.placed, placedAll_id parts]
  | sign span op token operand => simp [Expr.placed, operand.placed_id, Token.placed_id]
  | preStep span op token target | postStep span target op token =>
    simp [Expr.placed, target.placed_id, Token.placed_id]
  | call span function args | builtin span function token args =>
    simp [Expr.placed, placedAll_id args, Token.placed_id]
  | getline span target => simp [Expr.placed, placedTarget_id target]
  | getlineFile span target file => simp [Expr.placed, placedTarget_id target, file.placed_id]
  | getlineCommand span command target => simp [Expr.placed, placedTarget_id target, command.placed_id]

theorem LValue.placed_id (target : LValue) : target.placed id = target := by
  cases target with
  | var name => rfl
  | index span array subscripts subscriptsAt => simp [LValue.placed, placedAll_id subscripts, Token.placed_id]
  | field span index => simp [LValue.placed, index.placed_id]

theorem placedAll_id (es : List Expr) : placedAll id es = es := by
  cases es with
  | nil => rfl
  | cons e es => simp [placedAll, e.placed_id, placedAll_id es]

theorem placedTarget_id (target : Option LValue) : placedTarget id target = target := by
  cases target with
  | none => rfl
  | some target => simp [placedTarget, target.placed_id]

end

theorem Expr.map_placed_id (e : Option Expr) : e.map (Expr.placed id) = e := by
  cases e <;> simp [Expr.placed_id]

mutual

theorem Stmt.placed_id (s : Stmt) : s.placed id = s := by
  cases s with
  | block span body => simp [Stmt.placed, placedBody_id body]
  | ifElse span test yes no => simp [Stmt.placed, test.placed_id, yes.placed_id, placedStmt_id no]
  | «while» span test body | doWhile span body test => simp [Stmt.placed, test.placed_id, body.placed_id]
  | «for» span start test update body =>
    simp only [Stmt.placed, placedStmt_id start, Expr.map_placed_id, placedStmt_id update, body.placed_id, id_eq]
  | forIn span element array body => simp [Stmt.placed, body.placed_id, Token.placed_id]
  | print span token formatted items redirect =>
    cases redirect <;> simp [Stmt.placed, placedAll_id, Redirect.placed, Expr.placed_id, Token.placed_id]
  | delete span array subscripts =>
    cases subscripts <;> simp [Stmt.placed, Subscripts.placed, placedAll_id, Token.placed_id]
  | exit span e | «return» span e => simp only [Stmt.placed, Expr.map_placed_id, id_eq]
  | expr span e => simp [Stmt.placed, e.placed_id]
  | _ => rfl

theorem placedBody_id (body : List Stmt) : placedBody id body = body := by
  cases body with
  | nil => rfl
  | cons s body => simp [placedBody, s.placed_id, placedBody_id body]

theorem placedStmt_id (s : Option Stmt) : placedStmt id s = s := by
  cases s with
  | none => rfl
  | some s => simp [placedStmt, s.placed_id]

end

theorem Item.placed_id (item : Item) : item.placed id = item := by
  cases item with
  | begin span body | «end» span body => simp [Item.placed, body.placed_id]
  | rule span selector action =>
    cases selector with
    | none => cases action <;> simp [Item.placed, Stmt.placed_id]
    | some selector =>
      cases selector <;> cases action <;> simp [Item.placed, Selector.placed, Stmt.placed_id, Expr.placed_id]
  | function span name params body =>
    have hparams : params.map (Token.placed id) = params := List.map_id params
    simp [Item.placed, body.placed_id, hparams, Token.placed_id]

end Awk
