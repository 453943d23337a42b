import Awk.Proofs.Syntax.Dispatch
import Awk.Proofs.Syntax.WellFormed

/-!
# Reading outlines back

The outline of a well-formed folded program can be taken apart without meeting anything unexpected, and that gives the
program again (`readExpr_outline`, `readStmt_outline`, `readProgram_outline`).  There is one case for each construct;
in each of them the label, the number of parts and the text of the operator are those that `readForm` counts on.
-/

namespace Awk

open Outline

variable {accepts : Accepts}

theorem operator_eq {α : Type} {ofText? : Text → Option α} {token : Token} {a : α} (label : String)
    (h : ofText? token.text = some a) : operator label ofText? token = .ok a := by
  rw [operator, h]

theorem builtin_eq {token : Token} {b : Builtin} (h : Builtin.ofName? token.text = some b) :
    Outline.builtin token = .ok b := by
  rw [Outline.builtin, h]

/-- What can be assigned to is read in the same way where it is an expression. -/
theorem readExpr_of_readLValue {target : LValue} (h : readLValue target.outline = .ok target) :
    readExpr target.outline = .ok (.lvalue target) := by
  cases target with
  | var name =>
    rw [LValue.outline, readLValue_node rfl] at h
    rw [LValue.outline, readExpr_node rfl, readForm, h]
    rfl
  | index span array subscripts subscriptsAt =>
    rw [LValue.outline, readLValue_node rfl] at h
    rw [LValue.outline, readExpr_node rfl, readForm, h]
    rfl
  | field span index =>
    rw [LValue.outline, readLValue_node rfl] at h
    rw [LValue.outline, readExpr_node rfl, readForm, h]
    rfl

theorem isNothing_outline_lvalue (target : LValue) : target.outline.isNothing = false := by
  cases target <;> rfl

theorem isNothing_outline_expr (e : Expr) : e.outline.isNothing = false := by
  cases e with
  | lvalue target => exact isNothing_outline_lvalue target
  | logical span op left right => cases op <;> rfl
  | _ => rfl

theorem isNothing_outline_stmt (s : Stmt) : s.outline.isNothing = false := by
  cases s <;> rfl

theorem ifPresent_eq {α : Type} {o : Outline} {part : Except Misshapen α} {a : α} (ho : o.isNothing = false)
    (ha : part = .ok a) : ifPresent o part = .ok (some a) := by
  rw [ifPresent, ho, ha]
  rfl

theorem ifPresent_nothing {α : Type} (part : Except Misshapen α) : ifPresent nothing part = .ok none := rfl

mutual

theorem readExpr_outline {e : Expr} (h : e.WellFormed accepts true) : readExpr e.outline = .ok e := by
  cases e with
  | number token => cases h
  | string token => cases h
  | literal v => rw [Expr.outline, readExpr]
  | regex token => rw [Expr.outline, readExpr_node rfl, readForm]
  | group span inner => cases h.1
  | lvalue target => rw [Expr.outline, readExpr_of_readLValue (readLValue_outline h)]
  | assign span target op token right =>
    obtain ⟨hop, hcanonical, htarget, hright⟩ := h
    rw [hcanonical rfl] at hop
    rw [Expr.outline, readExpr_node rfl, readForm, readLValue_outline htarget, operator_eq _ hop,
      readExpr_outline hright]
    rfl
  | conditional span test yes no =>
    rw [Expr.outline, readExpr_node rfl, readForm, readExpr_outline h.1, readExpr_outline h.2.1,
      readExpr_outline h.2.2]
    rfl
  | logical span op left right =>
    cases op with
    | and =>
      rw [Expr.outline, readExpr_node rfl, readForm, readExpr_outline h.1, readExpr_outline h.2]
      rfl
    | or =>
      rw [Expr.outline, readExpr_node rfl, readForm, readExpr_outline h.1, readExpr_outline h.2]
      rfl
  | member span subscripts subscriptsAt array =>
    rw [Expr.outline, readExpr_node rfl, readForm, readExprs_outlines h]
    rfl
  | matching span left negated token right =>
    rw [Expr.outline, readExpr_node rfl, readForm, readExpr_outline h.2.1, operator_eq _ h.1, readExpr_outline h.2.2]
    rfl
  | compare span left op token right =>
    rw [Expr.outline, readExpr_node rfl, readForm, readExpr_outline h.2.1, operator_eq _ h.1, readExpr_outline h.2.2]
    rfl
  | concat span parts =>
    rw [Expr.outline, readExpr_node rfl, readForm, readExprs_outlines h]
    rfl
  | arith span left op token right =>
    rw [Expr.outline, readExpr_node rfl, readForm, readExpr_outline h.2.1, operator_eq _ h.1, readExpr_outline h.2.2]
    rfl
  | sign span op token operand =>
    rw [Expr.outline, readExpr_node rfl, readForm, operator_eq _ h.1, readExpr_outline h.2]
    rfl
  | power span base exponent =>
    rw [Expr.outline, readExpr_node rfl, readForm, readExpr_outline h.1, readExpr_outline h.2]
    rfl
  | preStep span op token target =>
    rw [Expr.outline, readExpr_node rfl, readForm, operator_eq _ h.1, readLValue_outline h.2]
    rfl
  | postStep span target op token =>
    rw [Expr.outline, readExpr_node rfl, readForm, readLValue_outline h.2, operator_eq _ h.1]
    rfl
  | call span function args =>
    rw [Expr.outline, readExpr_node rfl, readForm, readExprs_outlines h.2]
    rfl
  | builtin span b token args =>
    rw [Expr.outline, readExpr_node rfl, readForm, builtin_eq h.1, readExprs_outlines h.2]
    rfl
  | getline span target =>
    rw [Expr.outline, readExpr_node rfl, readForm, ifPresent_targetOutline h]
    rfl
  | getlineFile span target file =>
    rw [Expr.outline, readExpr_node rfl, readForm, ifPresent_targetOutline h.1, readExpr_outline h.2]
    rfl
  | getlineCommand span command target =>
    rw [Expr.outline, readExpr_node rfl, readForm, readExpr_outline h.1, ifPresent_targetOutline h.2]
    rfl
termination_by structural e

theorem readLValue_outline {target : LValue} (h : target.WellFormed accepts true) :
    readLValue target.outline = .ok target := by
  cases target with
  | var name => rw [LValue.outline, readLValue_node rfl, readLValueForm]
  | index span array subscripts subscriptsAt =>
    rw [LValue.outline, readLValue_node rfl, readLValueForm, readExprs_outlines h]
    rfl
  | field span index =>
    have hindex : index.WellFormed accepts true := h
    rw [LValue.outline, readLValue_node rfl, readLValueForm, readExpr_outline hindex]
    rfl
termination_by structural target

theorem readExprs_outlines {es : List Expr} (h : AllWellFormed accepts true es) : readExprs (outlines es) = .ok es := by
  cases es with
  | nil => rw [outlines, readExprs]
  | cons e es =>
    rw [outlines, readExprs, readExpr_outline h.1, readExprs_outlines h.2]
    rfl
termination_by structural es

theorem ifPresent_targetOutline {target : Option LValue} (h : TargetWellFormed accepts true target) :
    ifPresent (targetOutline target) (readLValue (targetOutline target)) = .ok target := by
  cases target with
  | none => rw [targetOutline, ifPresent_nothing]
  | some target =>
    have htarget : target.WellFormed accepts true := h
    rw [targetOutline, ifPresent_eq (isNothing_outline_lvalue target) (readLValue_outline htarget)]
termination_by structural target

end

theorem ifPresent_exprOutline {e : Option Expr} (h : ∀ x ∈ e, x.WellFormed accepts true) :
    ifPresent (exprOutline e) (readExpr (exprOutline e)) = .ok e := by
  cases e with
  | none => rw [exprOutline, ifPresent_nothing]
  | some e => rw [exprOutline, ifPresent_eq (isNothing_outline_expr e) (readExpr_outline (h e rfl))]

theorem readRedirect_outline {r : Redirect} (h : r.WellFormed accepts true) (label : String) :
    readRedirect label r.span r.token r.target.outline = .ok r := by
  rw [readRedirect, operator_eq _ h.1, readExpr_outline h.2]
  rfl

mutual

theorem readStmt_outline {s : Stmt} (h : s.WellFormed accepts true) : readStmt s.outline = .ok s := by
  cases s with
  | block span body =>
    rw [Stmt.outline, readStmt_node rfl, readStmtForm, readStmts_outlines h]
    rfl
  | ifElse span test yes no =>
    cases no with
    | none =>
      rw [Stmt.outline, elseOutline, readStmt_node rfl, readStmtForm, readExpr_outline h.1, readStmt_outline h.2.1]
      rfl
    | some no =>
      have hno : no.WellFormed accepts true := h.2.2
      rw [Stmt.outline, elseOutline, readStmt_node rfl, readStmtForm, readExpr_outline h.1, readStmt_outline h.2.1,
        readStmt_outline hno]
      rfl
  | «while» span test body =>
    rw [Stmt.outline, readStmt_node rfl, readStmtForm, readExpr_outline h.1, readStmt_outline h.2]
    rfl
  | doWhile span body test =>
    rw [Stmt.outline, readStmt_node rfl, readStmtForm, readStmt_outline h.1, readExpr_outline h.2]
    rfl
  | «for» span start test update body =>
    rw [Stmt.outline, readStmt_node rfl, readStmtForm, ifPresent_stmtOutline h.1, ifPresent_exprOutline h.2.1,
      ifPresent_stmtOutline h.2.2.1, readStmt_outline h.2.2.2]
    rfl
  | forIn span element array body =>
    have hbody : body.WellFormed accepts true := h
    rw [Stmt.outline, readStmt_node rfl, readStmtForm, readStmt_outline hbody]
    rfl
  | empty span => rw [Stmt.outline, readStmt_node rfl, readStmtForm]
  | print span token formatted items redirect =>
    cases redirect with
    | none =>
      rw [Stmt.outline, readStmt_node rfl, Option.map_none, Option.toList_none, readStmtForm, operator_eq _ h.1,
        readExprs_outlines h.2.1]
      rfl
    | some r =>
      rw [Stmt.outline, readStmt_node rfl, Option.map_some, Option.toList_some, Redirect.outline, readStmtForm,
        operator_eq _ h.1, readExprs_outlines h.2.1, readRedirect_outline (h.2.2 r rfl)]
      rfl
  | delete span array subscripts =>
    cases subscripts with
    | none => rw [Stmt.outline, readStmt_node rfl, Option.map_none, Option.toList_none, readStmtForm]
    | some s =>
      have hitems : AllWellFormed accepts true s.items := h s rfl
      rw [Stmt.outline, readStmt_node rfl, Option.map_some, Option.toList_some, Subscripts.outline, readStmtForm,
        readExprs_outlines hitems]
      rfl
  | «break» span => rw [Stmt.outline, readStmt_node rfl, readStmtForm]
  | «continue» span => rw [Stmt.outline, readStmt_node rfl, readStmtForm]
  | next span => rw [Stmt.outline, readStmt_node rfl, readStmtForm]
  | nextFile span => rw [Stmt.outline, readStmt_node rfl, readStmtForm]
  | exit span code =>
    cases code with
    | none => rw [Stmt.outline, readStmt_node rfl, Option.map_none, Option.toList_none, readStmtForm]
    | some e =>
      rw [Stmt.outline, readStmt_node rfl, Option.map_some, Option.toList_some, readStmtForm,
        readExpr_outline (h e rfl)]
      rfl
  | «return» span value =>
    cases value with
    | none => rw [Stmt.outline, readStmt_node rfl, Option.map_none, Option.toList_none, readStmtForm]
    | some e =>
      rw [Stmt.outline, readStmt_node rfl, Option.map_some, Option.toList_some, readStmtForm,
        readExpr_outline (h e rfl)]
      rfl
  | expr span e =>
    have he : e.WellFormed accepts true := h
    rw [Stmt.outline, readStmt_node rfl, readStmtForm, readExpr_outline he]
    rfl
termination_by structural s

theorem readStmts_outlines {ss : List Stmt} (h : StmtsWellFormed accepts true ss) :
    readStmts (stmtOutlines ss) = .ok ss := by
  cases ss with
  | nil => rw [stmtOutlines, readStmts]
  | cons s ss =>
    rw [stmtOutlines, readStmts, readStmt_outline h.1, readStmts_outlines h.2]
    rfl
termination_by structural ss

theorem ifPresent_stmtOutline {s : Option Stmt} (h : StmtWellFormed? accepts true s) :
    ifPresent (stmtOutline s) (readStmt (stmtOutline s)) = .ok s := by
  cases s with
  | none => rw [stmtOutline, ifPresent_nothing]
  | some s =>
    have hs : s.WellFormed accepts true := h
    rw [stmtOutline, ifPresent_eq (isNothing_outline_stmt s) (readStmt_outline hs)]
termination_by structural s

end

/-! ### Items -/

theorem readSelector_outline {s : Selector} (h : s.WellFormed accepts true) : readSelector s.outline = .ok s := by
  cases s with
  | single span test =>
    have htest : test.WellFormed accepts true := h
    show (do .ok (.single span (← readExpr test.outline)) : Except Misshapen Selector) = _
    rw [readExpr_outline htest]
    rfl
  | range span first last =>
    show (do .ok (.range span (← readExpr first.outline) (← readExpr last.outline)) : Except Misshapen Selector) = _
    rw [readExpr_outline h.1, readExpr_outline h.2]
    rfl

theorem readParams_leaves (params : List Token) : readParams (params.map leaf) = .ok params := by
  induction params with
  | nil => rfl
  | cons token params ih =>
    rw [List.map_cons, readParams, ih]
    rfl

/-- A selector is not taken for an action, nor an action for a selector. -/
theorem readRule_outline {selector : Option Selector} {action : Option Stmt}
    (hselector : ∀ s ∈ selector, s.WellFormed accepts true)
    (haction : ∀ s ∈ action, s.IsBlock ∧ s.WellFormed accepts true) :
    readRule ((selector.map Selector.outline).toList ++ (action.map Stmt.outline).toList) =
      .ok (selector, action) := by
  have hend : readRule (action.map Stmt.outline).toList = .ok (none, action) := by
    cases action with
    | none => rfl
    | some s =>
      obtain ⟨hblock, hwell⟩ := haction s rfl
      have hlabel : (s.outline.label == "block") = true := by
        cases s with
        | block span body => rfl
        | _ => cases hblock
      rw [Option.map_some, Option.toList_some, readRule, readRule, readStmt_outline hwell]
      show (if s.outline.label == "block" then _ else _) = _
      rw [hlabel]
      rfl
  cases selector with
  | none => exact hend
  | some s =>
    have hlabel : (s.outline.label == "block") = false := by
      cases s <;> rfl
    rw [Option.map_some, Option.toList_some, List.singleton_append, readRule, hend,
      readSelector_outline (hselector s rfl)]
    show (if s.outline.label == "block" then _ else _) = _
    rw [hlabel]
    rfl

theorem readItem_outline {item : Item} (h : item.WellFormed accepts true) : readItem item.outline = .ok item := by
  cases item with
  | begin span body =>
    have hbody : body.WellFormed accepts true := h
    show (do .ok (.begin span (← readStmt body.outline)) : Except Misshapen Item) = _
    rw [readStmt_outline hbody]
    rfl
  | «end» span body =>
    have hbody : body.WellFormed accepts true := h
    show (do .ok (.end span (← readStmt body.outline)) : Except Misshapen Item) = _
    rw [readStmt_outline hbody]
    rfl
  | rule span selector action =>
    show (do
      let found ← readRule ((selector.map Selector.outline).toList ++ (action.map Stmt.outline).toList)
      .ok (.rule span found.1 found.2) : Except Misshapen Item) = _
    rw [readRule_outline h.1 h.2]
    rfl
  | function span name params body =>
    have hbody : body.WellFormed accepts true := h
    show (do
      .ok (.function span name (← readParams (params.map leaf)) (← readStmt body.outline)) : Except Misshapen Item) = _
    rw [readParams_leaves, readStmt_outline hbody]
    rfl

private theorem mapM_readItem {items : List Item} (h : ∀ item ∈ items, readItem item.outline = .ok item) :
    (items.map Item.outline).mapM readItem = .ok items := by
  induction items with
  | nil => rfl
  | cons item items ih =>
    rw [List.map_cons, List.mapM_cons, h item List.mem_cons_self,
      ih fun other hother => h other (List.mem_cons_of_mem _ hother)]
    rfl

theorem readProgram_outline {p : Program} (h : p.WellFormed accepts true) : readProgram p.outline = .ok p := by
  have hitems : (p.items.map Item.outline).mapM readItem = .ok p.items :=
    mapM_readItem fun item hitem => readItem_outline (h item hitem)
  show (do .ok ⟨p.span, ← (p.items.map Item.outline).mapM readItem⟩ : Except Misshapen Program) = _
  rw [hitems]
  rfl

end Awk
