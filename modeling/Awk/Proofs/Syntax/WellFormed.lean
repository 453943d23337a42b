import Awk.Proofs.Action
import Awk.Proofs.Syntax.Spelling

/-!
# Well-formed programs

What can be relied on in a tree that the parser has built: operators are written by the texts of their tokens, and
calls of functions are accepted (`Expr.WellFormed`).  A tree is folded when no literal and no parentheses are left in
it and the exponent operator has its one spelling; folding makes of a well-formed tree a folded one
(`Expr.WellFormed.prune`, `Program.prune`).
-/

namespace Awk

/-- Which calls are accepted: the function's token and the number of arguments. -/
abbrev Accepts := Token → Nat → Prop

def Accepts.Implies (accepts accepts' : Accepts) : Prop :=
  ∀ {token : Token} {count : Nat}, accepts token count → accepts' token count

section Definitions

variable (accepts : Accepts) (folded : Bool)

mutual

def Expr.WellFormed : Expr → Prop
  | .number _ | .string _ => folded = false
  | .literal _ | .regex _ => True
  | .group _ inner => folded = false ∧ inner.WellFormed
  | .lvalue target => target.WellFormed
  | .assign _ target op token right =>
    AssignOp.ofText? (canonicalToken token).text = some op ∧ (folded = true → canonicalToken token = token) ∧
      target.WellFormed ∧ right.WellFormed
  | .conditional _ test yes no => test.WellFormed ∧ yes.WellFormed ∧ no.WellFormed
  | .logical _ _ left right => left.WellFormed ∧ right.WellFormed
  | .member _ subscripts _ _ => AllWellFormed subscripts
  | .matching _ left negated token right =>
    negation? token.text = some negated ∧ left.WellFormed ∧ right.WellFormed
  | .compare _ left op token right =>
    CompareOp.ofText? token.text = some op ∧ left.WellFormed ∧ right.WellFormed
  | .concat _ parts => AllWellFormed parts
  | .arith _ left op token right => ArithOp.ofText? token.text = some op ∧ left.WellFormed ∧ right.WellFormed
  | .sign _ op token operand => SignOp.ofText? token.text = some op ∧ operand.WellFormed
  | .power _ base exponent => base.WellFormed ∧ exponent.WellFormed
  | .preStep _ op token target | .postStep _ target op token =>
    StepOp.ofText? token.text = some op ∧ target.WellFormed
  | .call _ function args => accepts function args.length ∧ AllWellFormed args
  | .builtin _ b token args => Builtin.ofName? token.text = some b ∧ AllWellFormed args
  | .getline _ target => TargetWellFormed target
  | .getlineFile _ target file => TargetWellFormed target ∧ file.WellFormed
  | .getlineCommand _ command target => command.WellFormed ∧ TargetWellFormed target

def LValue.WellFormed : LValue → Prop
  | .var _ => True
  | .index _ _ subscripts _ => AllWellFormed subscripts
  | .field _ index => index.WellFormed

def AllWellFormed : List Expr → Prop
  | [] => True
  | e :: es => e.WellFormed ∧ AllWellFormed es

def TargetWellFormed : Option LValue → Prop
  | none => True
  | some target => target.WellFormed

end

def Redirect.WellFormed (r : Redirect) : Prop :=
  RedirectOp.ofText? r.token.text = some r.op ∧ r.target.WellFormed accepts folded

def Subscripts.WellFormed (s : Subscripts) : Prop := AllWellFormed accepts folded s.items

def Selector.WellFormed : Selector → Prop
  | .single _ test => test.WellFormed accepts folded
  | .range _ first last => first.WellFormed accepts folded ∧ last.WellFormed accepts folded

mutual

def Stmt.WellFormed : Stmt → Prop
  | .block _ body => StmtsWellFormed body
  | .ifElse _ test yes no => test.WellFormed accepts folded ∧ yes.WellFormed ∧ StmtWellFormed? no
  | .while _ test body => test.WellFormed accepts folded ∧ body.WellFormed
  | .doWhile _ body test => body.WellFormed ∧ test.WellFormed accepts folded
  | .for _ start test update body =>
    StmtWellFormed? start ∧ (∀ e ∈ test, e.WellFormed accepts folded) ∧ StmtWellFormed? update ∧ body.WellFormed
  | .forIn _ _ _ body => body.WellFormed
  | .empty _ | .break _ | .continue _ | .next _ | .nextFile _ => True
  | .print _ token formatted items redirect =>
    formatted? token.text = some formatted ∧ AllWellFormed accepts folded items ∧
      ∀ r ∈ redirect, r.WellFormed accepts folded
  | .delete _ _ subscripts => ∀ s ∈ subscripts, s.WellFormed accepts folded
  | .exit _ e | .return _ e => ∀ value ∈ e, value.WellFormed accepts folded
  | .expr _ e => e.WellFormed accepts folded

def StmtsWellFormed : List Stmt → Prop
  | [] => True
  | s :: ss => s.WellFormed ∧ StmtsWellFormed ss

def StmtWellFormed? : Option Stmt → Prop
  | none => True
  | some s => s.WellFormed

end

def Stmt.IsBlock : Stmt → Prop
  | .block .. => True
  | _ => False

/-- The action of a rule is told from its selector by being a block. -/
def Item.WellFormed : Item → Prop
  | .begin _ body | .end _ body | .function _ _ _ body => body.WellFormed accepts folded
  | .rule _ selector action =>
    (∀ s ∈ selector, s.WellFormed accepts folded) ∧ ∀ s ∈ action, s.IsBlock ∧ s.WellFormed accepts folded

def Program.WellFormed (p : Program) : Prop := ∀ item ∈ p.items, item.WellFormed accepts folded

end Definitions

/-! ### Members -/

section Members

theorem forall_mem_none {α : Type} {P : α → Prop} : ∀ a ∈ (none : Option α), P a := by
  simp

theorem forall_mem_some {α : Type} {P : α → Prop} {a : α} (h : P a) : ∀ b ∈ some a, P b := by
  intro b hb
  rw [← Option.mem_some.1 hb]
  exact h

variable {accepts : Accepts} {folded : Bool}

theorem wellFormed_of_mem_exprs {es : List Expr}
    (h : AllWellFormed accepts folded es) {e : Expr} (he : e ∈ es) : e.WellFormed accepts folded := by
  induction es with
  | nil => cases he
  | cons e' es ih =>
    rcases List.mem_cons.1 he with rfl | he
    · exact h.1
    · exact ih h.2 he

theorem wellFormed_of_mem_stmts {ss : List Stmt}
    (h : StmtsWellFormed accepts folded ss) {s : Stmt} (hs : s ∈ ss) : s.WellFormed accepts folded := by
  induction ss with
  | nil => cases hs
  | cons s' ss ih =>
    rcases List.mem_cons.1 hs with rfl | hs
    · exact h.1
    · exact ih h.2 hs

end Members

/-! ### More calls may be accepted -/

section Mono

variable {accepts accepts' : Accepts} {folded : Bool}

mutual

theorem Expr.WellFormed.mono (hsub : accepts.Implies accepts') {e : Expr} (h : e.WellFormed accepts folded) :
    e.WellFormed accepts' folded := by
  cases e with
  | number token => exact h
  | string token => exact h
  | literal v => trivial
  | regex token => trivial
  | group span inner => exact ⟨h.1, h.2.mono hsub⟩
  | lvalue target => exact LValue.WellFormed.mono hsub h
  | assign span target op token right => exact ⟨h.1, h.2.1, h.2.2.1.mono hsub, h.2.2.2.mono hsub⟩
  | conditional span test yes no => exact ⟨h.1.mono hsub, h.2.1.mono hsub, h.2.2.mono hsub⟩
  | logical span op left right => exact ⟨h.1.mono hsub, h.2.mono hsub⟩
  | member span subscripts subscriptsAt array => exact AllWellFormed.mono hsub h
  | matching span left negated token right => exact ⟨h.1, h.2.1.mono hsub, h.2.2.mono hsub⟩
  | compare span left op token right => exact ⟨h.1, h.2.1.mono hsub, h.2.2.mono hsub⟩
  | concat span parts => exact AllWellFormed.mono hsub h
  | arith span left op token right => exact ⟨h.1, h.2.1.mono hsub, h.2.2.mono hsub⟩
  | sign span op token operand => exact ⟨h.1, h.2.mono hsub⟩
  | power span base exponent => exact ⟨h.1.mono hsub, h.2.mono hsub⟩
  | preStep span op token target => exact ⟨h.1, h.2.mono hsub⟩
  | postStep span target op token => exact ⟨h.1, h.2.mono hsub⟩
  | call span function args => exact ⟨hsub h.1, h.2.mono hsub⟩
  | builtin span b token args => exact ⟨h.1, h.2.mono hsub⟩
  | getline span target => exact TargetWellFormed.mono hsub h
  | getlineFile span target file => exact ⟨h.1.mono hsub, h.2.mono hsub⟩
  | getlineCommand span command target => exact ⟨h.1.mono hsub, h.2.mono hsub⟩
termination_by structural e

theorem LValue.WellFormed.mono (hsub : accepts.Implies accepts') {target : LValue}
    (h : target.WellFormed accepts folded) : target.WellFormed accepts' folded := by
  cases target with
  | var name => trivial
  | index span array subscripts subscriptsAt => exact AllWellFormed.mono hsub h
  | field span index => exact Expr.WellFormed.mono hsub h
termination_by structural target

theorem AllWellFormed.mono (hsub : accepts.Implies accepts') {es : List Expr} (h : AllWellFormed accepts folded es) :
    AllWellFormed accepts' folded es := by
  cases es with
  | nil => trivial
  | cons e es => exact ⟨h.1.mono hsub, h.2.mono hsub⟩
termination_by structural es

theorem TargetWellFormed.mono (hsub : accepts.Implies accepts') {target : Option LValue}
    (h : TargetWellFormed accepts folded target) : TargetWellFormed accepts' folded target := by
  cases target with
  | none => trivial
  | some target => exact LValue.WellFormed.mono hsub h
termination_by structural target

end

theorem Redirect.WellFormed.mono (hsub : accepts.Implies accepts') {r : Redirect} (h : r.WellFormed accepts folded) :
    r.WellFormed accepts' folded :=
  ⟨h.1, h.2.mono hsub⟩

theorem Subscripts.WellFormed.mono (hsub : accepts.Implies accepts') {s : Subscripts}
    (h : s.WellFormed accepts folded) : s.WellFormed accepts' folded :=
  AllWellFormed.mono hsub h

theorem Selector.WellFormed.mono (hsub : accepts.Implies accepts') {s : Selector} (h : s.WellFormed accepts folded) :
    s.WellFormed accepts' folded := by
  cases s with
  | single span test => exact Expr.WellFormed.mono hsub h
  | range span first last => exact ⟨h.1.mono hsub, h.2.mono hsub⟩

mutual

theorem Stmt.WellFormed.mono (hsub : accepts.Implies accepts') {s : Stmt} (h : s.WellFormed accepts folded) :
    s.WellFormed accepts' folded := by
  cases s with
  | block span body => exact StmtsWellFormed.mono hsub h
  | ifElse span test yes no => exact ⟨h.1.mono hsub, h.2.1.mono hsub, h.2.2.mono hsub⟩
  | «while» span test body => exact ⟨h.1.mono hsub, h.2.mono hsub⟩
  | doWhile span body test => exact ⟨h.1.mono hsub, h.2.mono hsub⟩
  | «for» span start test update body =>
    exact ⟨h.1.mono hsub, fun e he => (h.2.1 e he).mono hsub, h.2.2.1.mono hsub, h.2.2.2.mono hsub⟩
  | forIn span element array body =>
    have hbody : body.WellFormed accepts folded := h
    exact hbody.mono hsub
  | empty span => trivial
  | print span token formatted items redirect =>
    exact ⟨h.1, h.2.1.mono hsub, fun r hr => (h.2.2 r hr).mono hsub⟩
  | delete span array subscripts => exact fun s hs => (h s hs).mono hsub
  | «break» span => trivial
  | «continue» span => trivial
  | next span => trivial
  | nextFile span => trivial
  | exit span code => exact fun e he => (h e he).mono hsub
  | «return» span value => exact fun e he => (h e he).mono hsub
  | expr span e => exact Expr.WellFormed.mono hsub h
termination_by structural s

theorem StmtsWellFormed.mono (hsub : accepts.Implies accepts') {ss : List Stmt}
    (h : StmtsWellFormed accepts folded ss) : StmtsWellFormed accepts' folded ss := by
  cases ss with
  | nil => trivial
  | cons s ss => exact ⟨h.1.mono hsub, h.2.mono hsub⟩
termination_by structural ss

theorem StmtWellFormed?.mono (hsub : accepts.Implies accepts') {s : Option Stmt}
    (h : StmtWellFormed? accepts folded s) : StmtWellFormed? accepts' folded s := by
  cases s with
  | none => trivial
  | some s => exact Stmt.WellFormed.mono hsub h
termination_by structural s

end

theorem Item.WellFormed.mono (hsub : accepts.Implies accepts') {item : Item} (h : item.WellFormed accepts folded) :
    item.WellFormed accepts' folded := by
  cases item with
  | begin span body => exact Stmt.WellFormed.mono hsub h
  | «end» span body => exact Stmt.WellFormed.mono hsub h
  | rule span selector action =>
    exact ⟨fun s hs => (h.1 s hs).mono hsub, fun s hs => ⟨(h.2 s hs).1, (h.2 s hs).2.mono hsub⟩⟩
  | function span name params body => exact Stmt.WellFormed.mono hsub h

end Mono

/-! ### Folding -/

section Prune

open Awk.Action

variable {accepts : Accepts}

/-- Folding changes no number of arguments. -/
theorem length_pruneAll {es es' : List Expr} (hprune : pruneAll es = .ok es') : es'.length = es.length := by
  induction es generalizing es' with
  | nil =>
    cases hprune
    rfl
  | cons e es ih =>
    simp only [pruneAll, bind_eq_ok] at hprune
    obtain ⟨e', -, rest, hrest, heq⟩ := hprune
    cases heq
    rw [List.length_cons, List.length_cons, ih hrest]

mutual

theorem Expr.WellFormed.prune {e e' : Expr} (h : e.WellFormed accepts false) (hprune : e.prune = .ok e') :
    e'.WellFormed accepts true := by
  cases e with
  | number token =>
    simp only [Expr.prune, bind_eq_ok] at hprune
    obtain ⟨v, -, heq⟩ := hprune
    cases heq
    trivial
  | string token =>
    cases hprune
    trivial
  | literal v =>
    cases hprune
    trivial
  | regex token =>
    cases hprune
    trivial
  | group span inner => exact Expr.WellFormed.prune h.2 hprune
  | lvalue target =>
    simp only [Expr.prune, bind_eq_ok] at hprune
    obtain ⟨target', htarget, heq⟩ := hprune
    cases heq
    exact LValue.WellFormed.prune h htarget
  | assign span target op token right =>
    simp only [Expr.prune, bind_eq_ok] at hprune
    obtain ⟨target', htarget, right', hright, heq⟩ := hprune
    cases heq
    refine ⟨?_, fun _ => canonicalToken_idem token, h.2.2.1.prune htarget,
      h.2.2.2.prune hright⟩
    rw [canonicalToken_idem]
    exact h.1
  | conditional span test yes no =>
    simp only [Expr.prune, bind_eq_ok] at hprune
    obtain ⟨test', htest, yes', hyes, no', hno, heq⟩ := hprune
    cases heq
    exact ⟨h.1.prune htest, h.2.1.prune hyes, h.2.2.prune hno⟩
  | logical span op left right =>
    simp only [Expr.prune, bind_eq_ok] at hprune
    obtain ⟨left', hleft, right', hright, heq⟩ := hprune
    cases heq
    exact ⟨h.1.prune hleft, h.2.prune hright⟩
  | member span subscripts subscriptsAt array =>
    simp only [Expr.prune, bind_eq_ok] at hprune
    obtain ⟨subscripts', hsubscripts, heq⟩ := hprune
    cases heq
    exact AllWellFormed.prune h hsubscripts
  | matching span left negated token right =>
    simp only [Expr.prune, bind_eq_ok] at hprune
    obtain ⟨left', hleft, right', hright, heq⟩ := hprune
    cases heq
    exact ⟨h.1, h.2.1.prune hleft, h.2.2.prune hright⟩
  | compare span left op token right =>
    simp only [Expr.prune, bind_eq_ok] at hprune
    obtain ⟨left', hleft, right', hright, heq⟩ := hprune
    cases heq
    exact ⟨h.1, h.2.1.prune hleft, h.2.2.prune hright⟩
  | concat span parts =>
    simp only [Expr.prune, bind_eq_ok] at hprune
    obtain ⟨parts', hparts, heq⟩ := hprune
    cases heq
    exact AllWellFormed.prune h hparts
  | arith span left op token right =>
    simp only [Expr.prune, bind_eq_ok] at hprune
    obtain ⟨left', hleft, right', hright, heq⟩ := hprune
    cases heq
    exact ⟨h.1, h.2.1.prune hleft, h.2.2.prune hright⟩
  | sign span op token operand =>
    simp only [Expr.prune, bind_eq_ok] at hprune
    obtain ⟨operand', hoperand, heq⟩ := hprune
    cases heq
    exact ⟨h.1, h.2.prune hoperand⟩
  | power span base exponent =>
    simp only [Expr.prune, bind_eq_ok] at hprune
    obtain ⟨base', hbase, exponent', hexponent, heq⟩ := hprune
    cases heq
    exact ⟨h.1.prune hbase, h.2.prune hexponent⟩
  | preStep span op token target =>
    simp only [Expr.prune, bind_eq_ok] at hprune
    obtain ⟨target', htarget, heq⟩ := hprune
    cases heq
    exact ⟨h.1, h.2.prune htarget⟩
  | postStep span target op token =>
    simp only [Expr.prune, bind_eq_ok] at hprune
    obtain ⟨target', htarget, heq⟩ := hprune
    cases heq
    exact ⟨h.1, h.2.prune htarget⟩
  | call span function args =>
    simp only [Expr.prune, bind_eq_ok] at hprune
    obtain ⟨args', hargs, heq⟩ := hprune
    cases heq
    exact ⟨length_pruneAll hargs ▸ h.1, h.2.prune hargs⟩
  | builtin span b token args =>
    simp only [Expr.prune, bind_eq_ok] at hprune
    obtain ⟨args', hargs, heq⟩ := hprune
    cases heq
    exact ⟨h.1, h.2.prune hargs⟩
  | getline span target =>
    simp only [Expr.prune, bind_eq_ok] at hprune
    obtain ⟨target', htarget, heq⟩ := hprune
    cases heq
    exact TargetWellFormed.prune h htarget
  | getlineFile span target file =>
    simp only [Expr.prune, bind_eq_ok] at hprune
    obtain ⟨target', htarget, file', hfile, heq⟩ := hprune
    cases heq
    exact ⟨h.1.prune htarget, h.2.prune hfile⟩
  | getlineCommand span command target =>
    simp only [Expr.prune, bind_eq_ok] at hprune
    obtain ⟨command', hcommand, target', htarget, heq⟩ := hprune
    cases heq
    exact ⟨h.1.prune hcommand, h.2.prune htarget⟩
termination_by structural e

theorem LValue.WellFormed.prune {target target' : LValue} (h : target.WellFormed accepts false)
    (hprune : target.prune = .ok target') : target'.WellFormed accepts true := by
  cases target with
  | var name =>
    cases hprune
    trivial
  | index span array subscripts subscriptsAt =>
    simp only [LValue.prune, bind_eq_ok] at hprune
    obtain ⟨subscripts', hsubscripts, heq⟩ := hprune
    cases heq
    exact AllWellFormed.prune h hsubscripts
  | field span index =>
    simp only [LValue.prune, bind_eq_ok] at hprune
    obtain ⟨index', hindex, heq⟩ := hprune
    cases heq
    exact Expr.WellFormed.prune h hindex
termination_by structural target

theorem AllWellFormed.prune {es es' : List Expr} (h : AllWellFormed accepts false es)
    (hprune : pruneAll es = .ok es') : AllWellFormed accepts true es' := by
  cases es with
  | nil =>
    cases hprune
    trivial
  | cons e es =>
    simp only [pruneAll, bind_eq_ok] at hprune
    obtain ⟨e', he, rest, hrest, heq⟩ := hprune
    cases heq
    exact ⟨Expr.WellFormed.prune h.1 he, AllWellFormed.prune h.2 hrest⟩
termination_by structural es

theorem TargetWellFormed.prune {target target' : Option LValue} (h : TargetWellFormed accepts false target)
    (hprune : pruneTarget target = .ok target') : TargetWellFormed accepts true target' := by
  cases target with
  | none =>
    cases hprune
    trivial
  | some target =>
    simp only [pruneTarget, bind_eq_ok] at hprune
    obtain ⟨target', htarget, heq⟩ := hprune
    cases heq
    exact LValue.WellFormed.prune h htarget
termination_by structural target

end

theorem Expr.wellFormed_of_pruneOption {e e' : Option Expr} (h : ∀ x ∈ e, x.WellFormed accepts false)
    (hprune : Expr.pruneOption e = .ok e') : ∀ x ∈ e', x.WellFormed accepts true := by
  cases e with
  | none =>
    cases hprune
    exact forall_mem_none
  | some e =>
    simp only [Expr.pruneOption, bind_eq_ok] at hprune
    obtain ⟨e', he, heq⟩ := hprune
    cases heq
    exact forall_mem_some ((h e rfl).prune he)

theorem Redirect.WellFormed.prune {r r' : Redirect} (h : r.WellFormed accepts false) (hprune : r.prune = .ok r') :
    r'.WellFormed accepts true := by
  obtain ⟨target', htarget, heq⟩ := bind_eq_ok.1 hprune
  cases heq
  exact ⟨h.1, h.2.prune htarget⟩

theorem Subscripts.WellFormed.prune {s s' : Subscripts} (h : s.WellFormed accepts false)
    (hprune : s.prune = .ok s') : s'.WellFormed accepts true := by
  obtain ⟨items', hitems, heq⟩ := bind_eq_ok.1 hprune
  cases heq
  exact AllWellFormed.prune h hitems

theorem Selector.WellFormed.prune {s s' : Selector} (h : s.WellFormed accepts false) (hprune : s.prune = .ok s') :
    s'.WellFormed accepts true := by
  cases s with
  | single span test =>
    simp only [Selector.prune, bind_eq_ok] at hprune
    obtain ⟨test', htest, heq⟩ := hprune
    cases heq
    exact Expr.WellFormed.prune h htest
  | range span first last =>
    simp only [Selector.prune, bind_eq_ok] at hprune
    obtain ⟨first', hfirst, last', hlast, heq⟩ := hprune
    cases heq
    exact ⟨h.1.prune hfirst, h.2.prune hlast⟩

mutual

theorem Stmt.WellFormed.prune {s s' : Stmt} (h : s.WellFormed accepts false) (hprune : s.prune = .ok s') :
    s'.WellFormed accepts true := by
  cases s with
  | block span body =>
    simp only [Stmt.prune, bind_eq_ok] at hprune
    obtain ⟨body', hbody, heq⟩ := hprune
    cases heq
    exact StmtsWellFormed.prune h hbody
  | ifElse span test yes no =>
    simp only [Stmt.prune, bind_eq_ok] at hprune
    obtain ⟨test', htest, yes', hyes, no', hno, heq⟩ := hprune
    cases heq
    exact ⟨h.1.prune htest, h.2.1.prune hyes, h.2.2.prune hno⟩
  | «while» span test body =>
    simp only [Stmt.prune, bind_eq_ok] at hprune
    obtain ⟨test', htest, body', hbody, heq⟩ := hprune
    cases heq
    exact ⟨h.1.prune htest, h.2.prune hbody⟩
  | doWhile span body test =>
    simp only [Stmt.prune, bind_eq_ok] at hprune
    obtain ⟨body', hbody, test', htest, heq⟩ := hprune
    cases heq
    exact ⟨h.1.prune hbody, h.2.prune htest⟩
  | «for» span start test update body =>
    simp only [Stmt.prune, bind_eq_ok] at hprune
    obtain ⟨start', hstart, test', htest, update', hupdate, body', hbody, heq⟩ := hprune
    cases heq
    exact ⟨h.1.prune hstart, Expr.wellFormed_of_pruneOption h.2.1 htest, h.2.2.1.prune hupdate,
      h.2.2.2.prune hbody⟩
  | forIn span element array body =>
    simp only [Stmt.prune, bind_eq_ok] at hprune
    obtain ⟨body', hbody, heq⟩ := hprune
    cases heq
    have hwell : body.WellFormed accepts false := h
    have hpruned : body'.WellFormed accepts true := hwell.prune hbody
    exact hpruned
  | empty span =>
    cases hprune
    trivial
  | print span token formatted items redirect =>
    cases redirect with
    | none =>
      simp only [Stmt.prune, bind_eq_ok] at hprune
      obtain ⟨_, heq, items', hitems, heq'⟩ := hprune
      cases heq
      cases heq'
      exact ⟨h.1, h.2.1.prune hitems, forall_mem_none⟩
    | some r =>
      simp only [Stmt.prune, bind_eq_ok] at hprune
      obtain ⟨r', hr, _, heq, items', hitems, heq'⟩ := hprune
      cases heq
      cases heq'
      exact ⟨h.1, h.2.1.prune hitems, forall_mem_some ((h.2.2 r rfl).prune hr)⟩
  | delete span array subscripts =>
    cases subscripts with
    | none =>
      cases hprune
      exact forall_mem_none
    | some subs =>
      simp only [Stmt.prune, bind_eq_ok] at hprune
      obtain ⟨subs', hsubs, _, heq, heq'⟩ := hprune
      cases heq
      cases heq'
      exact forall_mem_some ((h subs rfl).prune hsubs)
  | «break» span =>
    cases hprune
    trivial
  | «continue» span =>
    cases hprune
    trivial
  | next span =>
    cases hprune
    trivial
  | nextFile span =>
    cases hprune
    trivial
  | exit span code =>
    simp only [Stmt.prune, bind_eq_ok] at hprune
    obtain ⟨code', hcode, heq⟩ := hprune
    cases heq
    exact Expr.wellFormed_of_pruneOption h hcode
  | «return» span value =>
    simp only [Stmt.prune, bind_eq_ok] at hprune
    obtain ⟨value', hvalue, heq⟩ := hprune
    cases heq
    exact Expr.wellFormed_of_pruneOption h hvalue
  | expr span e =>
    simp only [Stmt.prune, bind_eq_ok] at hprune
    obtain ⟨e', he, heq⟩ := hprune
    cases heq
    exact Expr.WellFormed.prune h he
termination_by structural s

theorem StmtsWellFormed.prune {ss ss' : List Stmt} (h : StmtsWellFormed accepts false ss)
    (hprune : pruneStmts ss = .ok ss') : StmtsWellFormed accepts true ss' := by
  cases ss with
  | nil =>
    cases hprune
    trivial
  | cons s ss =>
    simp only [pruneStmts, bind_eq_ok] at hprune
    obtain ⟨s', hs, rest, hrest, heq⟩ := hprune
    cases heq
    exact ⟨h.1.prune hs, h.2.prune hrest⟩
termination_by structural ss

theorem StmtWellFormed?.prune {s s' : Option Stmt} (h : StmtWellFormed? accepts false s)
    (hprune : pruneStmt? s = .ok s') : StmtWellFormed? accepts true s' := by
  cases s with
  | none =>
    cases hprune
    trivial
  | some s =>
    simp only [pruneStmt?, bind_eq_ok] at hprune
    obtain ⟨s', hs, heq⟩ := hprune
    cases heq
    exact Stmt.WellFormed.prune h hs
termination_by structural s

end

theorem Stmt.IsBlock.prune {s s' : Stmt} (h : s.IsBlock) (hprune : s.prune = .ok s') : s'.IsBlock := by
  cases s with
  | block span body =>
    simp only [Stmt.prune, bind_eq_ok] at hprune
    obtain ⟨body', -, heq⟩ := hprune
    cases heq
    trivial
  | _ => cases h

theorem Item.WellFormed.prune {item item' : Item} (h : item.WellFormed accepts false)
    (hprune : item.prune = .ok item') : item'.WellFormed accepts true := by
  cases item with
  | begin span body =>
    simp only [Item.prune, bind_eq_ok] at hprune
    obtain ⟨body', hbody, heq⟩ := hprune
    cases heq
    exact Stmt.WellFormed.prune h hbody
  | «end» span body =>
    simp only [Item.prune, bind_eq_ok] at hprune
    obtain ⟨body', hbody, heq⟩ := hprune
    cases heq
    exact Stmt.WellFormed.prune h hbody
  | rule span selector action =>
    have haction {action' : Option Stmt} (hprune : pruneStmt? action = .ok action') :
        ∀ s ∈ action', s.IsBlock ∧ s.WellFormed accepts true := by
      cases action with
      | none =>
        cases hprune
        exact forall_mem_none
      | some s =>
        simp only [pruneStmt?, bind_eq_ok] at hprune
        obtain ⟨s', hs, heq⟩ := hprune
        cases heq
        obtain ⟨hblock, hwell⟩ := h.2 s rfl
        exact forall_mem_some ⟨hblock.prune hs, hwell.prune hs⟩
    cases selector with
    | none =>
      simp only [Item.prune, bind_eq_ok] at hprune
      obtain ⟨_, heq, action', hprune, heq'⟩ := hprune
      cases heq
      cases heq'
      exact ⟨forall_mem_none, haction hprune⟩
    | some s =>
      simp only [Item.prune, bind_eq_ok] at hprune
      obtain ⟨s', hs, _, heq, action', hprune, heq'⟩ := hprune
      cases heq
      cases heq'
      exact ⟨forall_mem_some ((h.1 s rfl).prune hs), haction hprune⟩
  | function span name params body =>
    simp only [Item.prune, bind_eq_ok] at hprune
    obtain ⟨body', hbody, heq⟩ := hprune
    cases heq
    exact Stmt.WellFormed.prune h hbody

theorem Program.WellFormed.prune {p p' : Program} (h : p.WellFormed accepts false) (hprune : p.prune = .ok p') :
    p'.WellFormed accepts true := by
  obtain ⟨items', hitems, heq⟩ := bind_eq_ok.1 hprune
  cases heq
  intro item' hitem'
  obtain ⟨item, hitem, hprune⟩ := exists_of_mem_mapM hitems hitem'
  exact (h item hitem).prune hprune

end Prune

end Awk
