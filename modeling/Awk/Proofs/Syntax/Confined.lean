import Awk.Proofs.Syntax.Grammar.Program
import Awk.Proofs.Syntax.Parts

/-!
# Jumps stay where they are caught

A statement is confined to the context in which it stands if its `break` and `continue` are in loops, its `return` in
functions, and its `next` in rules on records (`Stmt.Confined`).  All statements of a program that has been loaded are
confined to the contexts of their items (`confined_of_loadProgram`).
-/

namespace Awk

/-- The context of what a loop repeats. -/
abbrev Context.looping (context : Context) : Context := { context with inLoop := true }

/-- Where the body of a function stands. -/
def Context.function : Context := ⟨false, true, false⟩

/-- Where the action of a rule on records stands. -/
def Context.rule : Context := ⟨false, false, false⟩

/-- Where the action of a rule outside records stands. -/
def Context.special : Context := ⟨false, false, true⟩

/-- Where every statement may stand. -/
def Context.anywhere : Context := ⟨true, true, false⟩

mutual

/-- The jumps in a statement are those that its context takes care of.  The start and the update of a loop are not
repeated by it alone, so that a jump in them belongs to the loop around it. -/
def Stmt.Confined (context : Context) : Stmt → Prop
  | .block _ body => StmtsConfined context body
  | .ifElse _ _ yes no => yes.Confined context ∧ StmtConfined? context no
  | .while _ _ body | .doWhile _ body _ | .forIn _ _ _ body => body.Confined context.looping
  | .for _ start _ update body =>
    StmtConfined? context start ∧ StmtConfined? context update ∧ body.Confined context.looping
  | .break _ | .continue _ => context.inLoop = true
  | .next _ | .nextFile _ => context.inSpecial = false
  | .return _ _ => context.inFunction = true
  | .empty _ | .print .. | .delete .. | .exit .. | .expr .. => True

def StmtsConfined (context : Context) : List Stmt → Prop
  | [] => True
  | s :: ss => s.Confined context ∧ StmtsConfined context ss

def StmtConfined? (context : Context) : Option Stmt → Prop
  | none => True
  | some s => s.Confined context

end

theorem confined_of_mem_stmts {context : Context} {ss : List Stmt} (h : StmtsConfined context ss) {s : Stmt}
    (hs : s ∈ ss) : s.Confined context := by
  induction ss with
  | nil => cases hs
  | cons first ss ih =>
    rcases List.mem_cons.1 hs with rfl | hs
    · exact h.1
    · exact ih h.2 hs

mutual

theorem Stmt.confined_anywhere (s : Stmt) : s.Confined .anywhere := by
  cases s with
  | block span body => exact stmtsConfined_anywhere body
  | ifElse span test yes no => exact ⟨yes.confined_anywhere, stmtConfined?_anywhere no⟩
  | «while» span test body => exact body.confined_anywhere
  | doWhile span body test => exact body.confined_anywhere
  | «for» span start test update body =>
    exact ⟨stmtConfined?_anywhere start, stmtConfined?_anywhere update, body.confined_anywhere⟩
  | forIn span element array body => exact body.confined_anywhere
  | «break» => rfl
  | «continue» => rfl
  | next => rfl
  | nextFile => rfl
  | «return» => rfl
  | _ => trivial
termination_by structural s

theorem stmtsConfined_anywhere (ss : List Stmt) : StmtsConfined .anywhere ss := by
  cases ss with
  | nil => trivial
  | cons s ss => exact ⟨s.confined_anywhere, stmtsConfined_anywhere ss⟩
termination_by structural ss

theorem stmtConfined?_anywhere (s : Option Stmt) : StmtConfined? .anywhere s := by
  cases s with
  | none => trivial
  | some s => exact s.confined_anywhere
termination_by structural s

end

/-! ### What the parser gives -/

namespace Parser

/-- The statements in what is read as a clause are confined to its context. -/
def Clause.Confined : (x : Clause) → x.Result → Prop
  | simple context, stmt | block context, stmt | statement context, stmt | governed context, stmt =>
    stmt.Confined context
  | simple? context, stmt => StmtConfined? context stmt
  | body context, stmts => StmtsConfined context stmts
  | expr?, _ | test, _ | items, _ => True

theorem confined_of_readsStmt {x : Clause} {s s' : ParserState} {v : x.Result} (h : ReadsStmt x s v s') :
    x.Confined v := by
  induction h with
  | «break» hkind hloop htake => exact hloop
  | «continue» hkind hloop htake => exact hloop
  | next hkind hrule htake => exact hrule
  | nextFile hkind hrule htake => exact hrule
  | «return» hkind hfunction htake hvalue ih => exact hfunction
  | someStmt h ih => exact ih
  | block hopen htake hbody ih => exact ih
  | body hskip hfirst hmore ihfirst ihmore => exact ⟨ihfirst, ihmore⟩
  | ofBlock h ih => exact ih
  | ofSimple h ih => exact ih
  | ifThen hkind htake htest hyes ihtest ihyes => exact ⟨ihyes, trivial⟩
  | ifElse hkind htake htest hyes hskip helse htake' hno ihtest ihyes ihno => exact ⟨ihyes, ihno⟩
  | «while» hkind htake htest hbody ihtest ihbody => exact ihbody
  | doWhile hkind htake hbody hskip hwhile htake' htest ihbody ihtest => exact ihbody
  | forIn hkind htake hopen htake₁ helement htake₂ hin htake₃ harray htake₄ hclose htake₅ hbody ih => exact ih
  | «for» hkind htake hopen htake₁ hstart hsemi htake₂ hskip htest hsemi' htake₃ hskip' hupdate hclose htake₄ hbody
      ihstart ihtest ihupdate ihbody =>
    exact ⟨ihstart, ihupdate, ihbody⟩
  | governed hskip h ih => exact ih
  | _ => trivial

end Parser

/-- The statements of an item are confined to the context that it makes. -/
def Item.Confined : Item → Prop
  | .begin _ body | .end _ body => body.Confined .special
  | .rule _ _ action => StmtConfined? .rule action
  | .function _ _ _ body => body.Confined .function

namespace Parser

theorem confined_of_readsItem {item : Item} {s s' : ParserState} (h : ReadsItem s item s') : item.Confined := by
  cases h with
  | begin hkind htake hbody => exact confined_of_readsStmt hbody
  | «end» hkind htake hbody => exact confined_of_readsStmt hbody
  | always hbody => exact confined_of_readsStmt hbody
  | rule hselector hbody => exact confined_of_readsStmt hbody
  | selector h => trivial
  | function hkind htake hname htake₁ hopen htake₂ hparams hclose htake₃ hskip hbody =>
    exact confined_of_readsStmt hbody

theorem confined_of_readsItems {items : List Item} {s s' : ParserState} (h : ReadsItems s items s') :
    ∀ item ∈ items, item.Confined := by
  induction h with
  | «end» hskip hend => exact List.forall_mem_nil _
  | item hskip hfirst hmore ih => exact List.forall_mem_cons.2 ⟨confined_of_readsItem hfirst, ih⟩

end Parser

/-! ### Folding -/

section Prune

open Awk.Action

mutual

theorem Stmt.Confined.prune {context : Context} {s s' : Stmt} (h : s.Confined context) (hprune : s.prune = .ok s') :
    s'.Confined context := by
  cases s with
  | block span body =>
    simp only [Stmt.prune, bind_eq_ok] at hprune
    obtain ⟨body', hbody, heq⟩ := hprune
    cases heq
    exact StmtsConfined.prune h hbody
  | ifElse span test yes no =>
    simp only [Stmt.prune, bind_eq_ok] at hprune
    obtain ⟨test', -, yes', hyes, no', hno, heq⟩ := hprune
    cases heq
    exact ⟨h.1.prune hyes, h.2.prune hno⟩
  | «while» span test body =>
    simp only [Stmt.prune, bind_eq_ok] at hprune
    obtain ⟨test', -, body', hbody, heq⟩ := hprune
    cases heq
    have hinner : body.Confined context.looping := h
    exact hinner.prune hbody
  | doWhile span body test =>
    simp only [Stmt.prune, bind_eq_ok] at hprune
    obtain ⟨body', hbody, test', -, heq⟩ := hprune
    cases heq
    have hinner : body.Confined context.looping := h
    exact hinner.prune hbody
  | «for» span start test update body =>
    simp only [Stmt.prune, bind_eq_ok] at hprune
    obtain ⟨start', hstart, test', -, update', hupdate, body', hbody, heq⟩ := hprune
    cases heq
    exact ⟨h.1.prune hstart, h.2.1.prune hupdate, h.2.2.prune hbody⟩
  | forIn span element array body =>
    simp only [Stmt.prune, bind_eq_ok] at hprune
    obtain ⟨body', hbody, heq⟩ := hprune
    cases heq
    have hinner : body.Confined context.looping := h
    exact hinner.prune hbody
  | empty span =>
    cases hprune
    trivial
  | print span token formatted items redirect =>
    cases redirect with
    | none =>
      simp only [Stmt.prune, bind_eq_ok] at hprune
      obtain ⟨_, -, items', -, heq⟩ := hprune
      cases heq
      trivial
    | some r =>
      simp only [Stmt.prune, bind_eq_ok] at hprune
      obtain ⟨r', -, _, -, items', -, heq⟩ := hprune
      cases heq
      trivial
  | delete span array subscripts =>
    cases subscripts with
    | none =>
      cases hprune
      trivial
    | some subs =>
      simp only [Stmt.prune, bind_eq_ok] at hprune
      obtain ⟨subs', -, _, -, heq⟩ := hprune
      cases heq
      trivial
  | «break» span =>
    cases hprune
    exact h
  | «continue» span =>
    cases hprune
    exact h
  | next span =>
    cases hprune
    exact h
  | nextFile span =>
    cases hprune
    exact h
  | exit span code =>
    simp only [Stmt.prune, bind_eq_ok] at hprune
    obtain ⟨code', -, heq⟩ := hprune
    cases heq
    trivial
  | «return» span value =>
    simp only [Stmt.prune, bind_eq_ok] at hprune
    obtain ⟨value', -, heq⟩ := hprune
    cases heq
    exact h
  | expr span e =>
    simp only [Stmt.prune, bind_eq_ok] at hprune
    obtain ⟨e', -, heq⟩ := hprune
    cases heq
    trivial
termination_by structural s

theorem StmtsConfined.prune {context : Context} {ss ss' : List Stmt} (h : StmtsConfined context ss)
    (hprune : pruneStmts ss = .ok ss') : StmtsConfined context ss' := by
  cases ss with
  | nil =>
    cases hprune
    trivial
  | cons s ss =>
    simp only [pruneStmts, bind_eq_ok] at hprune
    obtain ⟨s', hs, rest, hrest, heq⟩ := hprune
    cases heq
    exact ⟨h.1.prune hs, h.2.prune hrest⟩
termination_by structural ss

theorem StmtConfined?.prune {context : Context} {s s' : Option Stmt} (h : StmtConfined? context s)
    (hprune : pruneStmt? s = .ok s') : StmtConfined? context s' := by
  cases s with
  | none =>
    cases hprune
    trivial
  | some s =>
    simp only [pruneStmt?, bind_eq_ok] at hprune
    obtain ⟨s', hs, heq⟩ := hprune
    cases heq
    exact Stmt.Confined.prune h hs
termination_by structural s

end

theorem Item.Confined.prune {item item' : Item} (h : item.Confined) (hprune : item.prune = .ok item') :
    item'.Confined := by
  cases item with
  | begin span body =>
    obtain ⟨body', hbody, heq⟩ := bind_eq_ok.1 hprune
    cases heq
    exact Stmt.Confined.prune h hbody
  | «end» span body =>
    obtain ⟨body', hbody, heq⟩ := bind_eq_ok.1 hprune
    cases heq
    exact Stmt.Confined.prune h hbody
  | rule span selector action =>
    cases selector with
    | none =>
      simp only [Item.prune, bind_eq_ok] at hprune
      obtain ⟨_, -, action', haction, heq⟩ := hprune
      cases heq
      exact StmtConfined?.prune h haction
    | some selector =>
      simp only [Item.prune, bind_eq_ok] at hprune
      obtain ⟨_, -, _, -, action', haction, heq⟩ := hprune
      cases heq
      exact StmtConfined?.prune h haction
  | function span name params body =>
    obtain ⟨body', hbody, heq⟩ := bind_eq_ok.1 hprune
    cases heq
    exact Stmt.Confined.prune h hbody

end Prune

/-! ### Loading -/

/-- All statements of a program are confined to the contexts in which the parts of the program stand. -/
structure Parts.Confined (p : Parts) : Prop where
  begins : ∀ s ∈ p.begins, s.Confined .special
  actions : ∀ r ∈ p.rules, ∀ s ∈ r.action, s.Confined .rule
  ends : ∀ s ∈ p.ends, s.Confined .special
  functions : ∀ f ∈ p.functions, f.body.Confined .function

theorem Parts.confined_ofItems {items : List Item} (h : ∀ item ∈ items, item.Confined) :
    (Parts.ofItems items).Confined := by
  induction items with
  | nil => exact ⟨List.forall_mem_nil _, List.forall_mem_nil _, List.forall_mem_nil _, List.forall_mem_nil _⟩
  | cons item items ih =>
    obtain ⟨hitem, hitems⟩ := List.forall_mem_cons.1 h
    obtain ⟨hbegins, hactions, hends, hfunctions⟩ := ih hitems
    cases item with
    | begin span body => exact ⟨List.forall_mem_cons.2 ⟨hitem, hbegins⟩, hactions, hends, hfunctions⟩
    | «end» span body => exact ⟨hbegins, hactions, List.forall_mem_cons.2 ⟨hitem, hends⟩, hfunctions⟩
    | rule span selector action =>
      refine ⟨hbegins, List.forall_mem_cons.2 ⟨?_, hactions⟩, hends, hfunctions⟩
      cases action with
      | none => exact forall_mem_none
      | some s => exact forall_mem_some hitem
    | function span name params body =>
      exact ⟨hbegins, hactions, hends, List.forall_mem_cons.2 ⟨hitem, hfunctions⟩⟩

theorem confined_of_loadProgram {source : Text} {parts : Parts} (h : loadProgram source = .ok parts) :
    parts.Confined := by
  obtain ⟨p, p', hparse, hprune, rfl⟩ := exists_of_loadProgram h
  obtain ⟨s, s', -, hreads, -⟩ := Parser.exists_reads_of_parseProgram hparse
  obtain ⟨items', hitems, heq⟩ := Action.bind_eq_ok.1 hprune
  cases heq
  refine Parts.confined_ofItems fun item' hitem' => ?_
  obtain ⟨item, hitem, hfold⟩ := Action.exists_of_mem_mapM hitems hitem'
  exact (Parser.confined_of_readsItems hreads item hitem).prune hfold

end Awk
