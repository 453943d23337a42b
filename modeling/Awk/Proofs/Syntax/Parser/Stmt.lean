import Awk.Proofs.Syntax.Parser.Expr
import Awk.Syntax.Parser.Stmt

/-!
# What the grammar of statements gives

Every statement that the grammar gives is well formed (`stmtSpec`), in the same sense and in the same way as its
expressions.  Where the parser goes back to an earlier state, the calls met since are not on record any more, but
nothing that was read since is in the result.
-/

namespace Awk.Parser

abbrev GoodStmt (accepts : Accepts) (stmt : Stmt) : Prop := stmt.WellFormed accepts false

abbrev GoodStmts (accepts : Accepts) (stmts : List Stmt) : Prop := StmtsWellFormed accepts false stmts

abbrev GoodStmt? (accepts : Accepts) (stmt : Option Stmt) : Prop := StmtWellFormed? accepts false stmt

abbrev GoodExpr? (accepts : Accepts) (e : Option Expr) : Prop := ∀ value ∈ e, value.WellFormed accepts false

/-- A block is known to be one. -/
abbrev GoodBlock (accepts : Accepts) (stmt : Stmt) : Prop := stmt.IsBlock ∧ stmt.WellFormed accepts false

variable {fuel n : Nat} {s s' : ParserState} {context : Context}

theorem GoodStmt.after {stmt : Stmt} (h : GoodStmt (Recorded s.calls) stmt) (hafter : After s s') :
    GoodStmt (Recorded s'.calls) stmt :=
  h.mono hafter.implies

/-- A statement goes on only where nothing forbids it. -/
theorem unless_ok {α : Type} {p : Prop} [Decidable p] {forbid : Parser Unit} {next : Unit → Parser α} {a : α}
    (hforbid : ∀ {u s'}, ¬forbid.run s = .ok (u, s'))
    (h : (if p then forbid >>= next else next ()).run s = .ok (a, s')) : ¬p ∧ (next ()).run s = .ok (a, s') := by
  split at h
  · obtain ⟨_, _, hrun, -⟩ := bind_ok.1 h
    exact absurd hrun hforbid
  · rename_i hp
    exact ⟨hp, h⟩

/-! ### Print statements -/

theorem gives_parenthesisedItems (ht : Tidy s) :
    Gives s (parenthesisedItems fuel) fun accepts items => ∀ es ∈ items, GoodExprs accepts es := by
  -- Going back to where the list began is no step at all.
  have hback {items : Option (List Expr)} {s₁ s' : ParserState}
      (h : (do set s; pure none : Parser (Option (List Expr))).run s₁ = .ok (items, s')) :
      After s s' ∧ ∀ es ∈ items, GoodExprs (Recorded s'.calls) es := by
    simp only [bind_ok, set_ok, pure_ok] at h
    obtain ⟨_, s₂, rfl, rfl, rfl⟩ := h
    exact ⟨.refl ht, forall_mem_none⟩
  intro items s' h
  simp only [parenthesisedItems, bind_ok, get_ok] at h
  obtain ⟨saved, s₁, ⟨rfl, rfl⟩, _, s₂, hopen, first, s₃, hfirst, more, s₄, hmore, h⟩ := h
  have hafter₂ := (advance_ok hopen).2
  obtain ⟨hafter₃, hgood₃⟩ := gives_expr fuel hafter₂.tidy hfirst
  obtain ⟨hafter₄, hgood₄⟩ := (exprSpec fuel).moreItems _ hafter₃.tidy hmore
  split at h
  · exact hback h
  · obtain ⟨b, s₅, haccept, h⟩ := bind_ok.1 h
    have hafter₅ := accept_ok hafter₄.tidy haccept
    split at h
    · obtain ⟨b', s₆, hend, h⟩ := bind_ok.1 h
      obtain ⟨k, s₇, hkind, h⟩ := bind_ok.1 h
      cases atTerminator_ok hend
      obtain ⟨rfl, rfl⟩ := kind_ok.1 hkind
      split at h
      · obtain ⟨rfl, rfl⟩ := pure_ok.1 h
        refine ⟨hafter₂.trans (hafter₃.trans (hafter₄.trans hafter₅)), ?_⟩
        exact forall_mem_some ⟨hgood₃.after (hafter₄.trans hafter₅), hgood₄.after hafter₅⟩
      · exact hback h
    · exact hback h

theorem gives_plainItems (ht : Tidy s) : Gives s (plainItems fuel) GoodExprs := by
  intro items s' h
  simp only [plainItems, bind_ok, kind_ok] at h
  obtain ⟨b, s₁, hend, k, s₂, ⟨rfl, rfl⟩, h⟩ := h
  cases atTerminator_ok hend
  split at h
  · obtain ⟨rfl, rfl⟩ := pure_ok.1 h
    exact ⟨.refl ht, trivial⟩
  · simp only [bind_ok, pure_ok] at h
    obtain ⟨first, s₃, hfirst, more, s₄, hmore, rfl, rfl⟩ := h
    obtain ⟨hafter₃, hgood₃⟩ := gives_expr fuel ht hfirst
    obtain ⟨hafter₄, hgood₄⟩ := (exprSpec fuel).moreItems _ hafter₃.tidy hmore
    exact ⟨hafter₃.trans hafter₄, hgood₃.after hafter₄, hgood₄⟩

/-- Whichever way the items are written, the parser goes on with them in the same way. -/
theorem printItems_ok (ht : Tidy s) {α : Type} {next : List Expr → Parser α} {a : α} {p : Prop} [Decidable p]
    (h : (if p then do
        match ← parenthesisedItems fuel with
        | some items => pure items >>= next
        | none => plainItems fuel >>= next
      else do
        match ← pure none with
        | some items => pure items >>= next
        | none => plainItems fuel >>= next).run s = .ok (a, s')) :
    ∃ items s₁, After s s₁ ∧ GoodExprs (Recorded s₁.calls) items ∧ (next items).run s₁ = .ok (a, s') := by
  have hplain {s₁ : ParserState} (hafter : After s s₁) (h : (plainItems fuel >>= next).run s₁ = .ok (a, s')) :
      ∃ items s₁, After s s₁ ∧ GoodExprs (Recorded s₁.calls) items ∧ (next items).run s₁ = .ok (a, s') := by
    obtain ⟨items, s₂, hitems, h⟩ := bind_ok.1 h
    obtain ⟨hafter₂, hgood⟩ := gives_plainItems hafter.tidy hitems
    exact ⟨items, s₂, hafter.trans hafter₂, hgood, h⟩
  split at h
  · obtain ⟨listed, s₁, hlisted, h⟩ := bind_ok.1 h
    obtain ⟨hafter, hgood⟩ := gives_parenthesisedItems ht hlisted
    cases listed with
    | some items => exact ⟨items, s₁, hafter, hgood items rfl, h⟩
    | none => exact hplain hafter h
  · exact hplain (.refl ht) h

theorem formatted?_of_kind {token : Token} (h : token.Proper) (hkind : token.kind = .print ∨ token.kind = .printf) :
    formatted? token.text = some (token.kind == .printf) := by
  rcases hkind with hkind | hkind
  · rw [hkind, h.text_eq hkind rfl]
    rfl
  · rw [hkind, h.text_eq hkind rfl]
    rfl

theorem gives_printStmt (ht : Tidy s) (hkind : s.current.kind = .print ∨ s.current.kind = .printf) :
    Gives s (printStmt fuel) GoodStmt := by
  intro stmt s' h
  obtain ⟨start, s₁, hstart, h⟩ := bind_ok.1 h
  obtain ⟨rfl, hafter₁⟩ := advance_ok hstart
  obtain ⟨k, s₂, hk, h⟩ := bind_ok.1 h
  obtain ⟨rfl, rfl⟩ := kind_ok.1 hk
  obtain ⟨items, s₃, hafter₃, hgood₃, h⟩ := printItems_ok hafter₁.tidy h
  have hformatted := formatted?_of_kind ht hkind
  obtain ⟨-, h⟩ := unless_ok failExpecting_ok h
  simp only [bind_ok, kind_ok] at h
  obtain ⟨k, s₄, ⟨rfl, rfl⟩, h⟩ := h
  split at h
  · rename_i op hop
    simp only [bind_ok, pure_ok] at h
    obtain ⟨token, s₅, htoken, target, s₆, htarget, span, s₇, hspan, span', s₈, hspan', rfl, rfl⟩ := h
    obtain ⟨rfl, hafter₅⟩ := advance_ok htoken
    obtain ⟨hafter₆, hgood₆⟩ := (exprSpec fuel).level _ _ hafter₅.tidy htarget
    cases spanFrom_ok hspan
    cases spanFrom_ok hspan'
    have hspelt : RedirectOp.ofText? s₄.current.text = some op := hafter₃.tidy.read RedirectOp.agree hop
    have hlater := hafter₅.trans hafter₆
    refine ⟨hafter₁.trans (hafter₃.trans hlater), hformatted, hgood₃.after hlater, ?_⟩
    exact forall_mem_some ⟨hspelt, hgood₆⟩
  · simp only [bind_ok, pure_ok] at h
    obtain ⟨span, s₅, hspan, rfl, rfl⟩ := h
    cases spanFrom_ok hspan
    exact ⟨hafter₁.trans hafter₃, hformatted, hgood₃, forall_mem_none⟩

/-! ### Statements without a body -/

theorem gives_optionalExpr (ht : Tidy s) : Gives s (optionalExpr fuel) GoodExpr? := by
  intro e s' h
  obtain ⟨b, s₁, hend, h⟩ := bind_ok.1 h
  cases atTerminator_ok hend
  split at h
  · obtain ⟨rfl, rfl⟩ := pure_ok.1 h
    exact ⟨.refl ht, forall_mem_none⟩
  · simp only [bind_ok, pure_ok] at h
    obtain ⟨e, s₂, he, rfl, rfl⟩ := h
    obtain ⟨hafter, hgood⟩ := gives_expr fuel ht he
    exact ⟨hafter, forall_mem_some hgood⟩

/-- A statement that is a keyword and nothing else, where it is allowed. -/
theorem gives_keyword {p : Prop} [Decidable p] {fault : SyntaxFault} {token : Token} {build : Span → Stmt}
    (hbuild : ∀ {accepts span}, GoodStmt accepts (build span)) :
    Gives s (do
      let _ ← advance
      if p then failAt fault token
      let span ← spanFrom token
      return build span) GoodStmt := by
  intro stmt s' h
  obtain ⟨_, s₁, hadvance, h⟩ := bind_ok.1 h
  obtain ⟨-, h⟩ := unless_ok failAt_ok h
  simp only [bind_ok, pure_ok] at h
  obtain ⟨span, s₂, hspan, rfl, rfl⟩ := h
  cases spanFrom_ok hspan
  exact ⟨(advance_ok hadvance).2, hbuild⟩

theorem gives_delete {start : Token} :
    Gives s (do
      let _ ← advance
      let array ← expect .name "array name"
      if ← accept .lsqb then
        let subs ← subscripts fuel
        return .delete (← spanFrom start) array (some subs)
      else
        return .delete (← spanFrom start) array none) GoodStmt := by
  intro stmt s' h
  simp only [bind_ok] at h
  obtain ⟨_, s₁, hdelete, array, s₂, harray, b, s₃, haccept, h⟩ := h
  have hafter₂ := (advance_ok hdelete).2.trans (expect_ok harray).2.2
  have hafter₃ := hafter₂.trans (accept_ok hafter₂.tidy haccept)
  split at h
  · simp only [bind_ok, pure_ok] at h
    obtain ⟨subs, s₄, hsubs, span, s₅, hspan, rfl, rfl⟩ := h
    obtain ⟨hafter₄, hgood₄⟩ := (exprSpec fuel).subscripts hafter₃.tidy hsubs
    cases spanFrom_ok hspan
    exact ⟨hafter₃.trans hafter₄, forall_mem_some hgood₄⟩
  · simp only [bind_ok, pure_ok] at h
    obtain ⟨span, s₄, hspan, rfl, rfl⟩ := h
    cases spanFrom_ok hspan
    exact ⟨hafter₃, forall_mem_none⟩

theorem gives_simpleStmt (ht : Tidy s) : Gives s (simpleStmt fuel context) GoodStmt := by
  have hloop {accepts : Accepts} {span : Span} :
      GoodStmt accepts (if s.current.kind = .break then .break span else .continue span) := by
    split <;> trivial
  have hrecord {accepts : Accepts} {span : Span} :
      GoodStmt accepts (if s.current.kind = .next then .next span else .nextFile span) := by
    split <;> trivial
  intro stmt s' h
  obtain ⟨start, s₁, hstart, h⟩ := bind_ok.1 h
  obtain ⟨rfl, rfl⟩ := current_ok.1 hstart
  -- By the kind of the first token, in the order of the grammar.
  split at h
  · rename_i hkind
    exact gives_printStmt ht (.inl hkind) h
  · rename_i hkind
    exact gives_printStmt ht (.inr hkind) h
  · exact gives_delete h
  · exact gives_keyword hloop h
  · exact gives_keyword hloop h
  · exact gives_keyword hrecord h
  · exact gives_keyword hrecord h
  · simp only [bind_ok, pure_ok] at h
    obtain ⟨_, s₂, hexit, code, s₃, hcode, span, s₄, hspan, rfl, rfl⟩ := h
    have hafter₂ := (advance_ok hexit).2
    have hgood := gives_optionalExpr hafter₂.tidy hcode
    cases spanFrom_ok hspan
    exact hafter₂.extend hgood
  · obtain ⟨_, s₂, hreturn, h⟩ := bind_ok.1 h
    have hafter₂ := (advance_ok hreturn).2
    obtain ⟨-, h⟩ := unless_ok failAt_ok h
    simp only [bind_ok, pure_ok] at h
    obtain ⟨value, s₃, hvalue, span, s₄, hspan, rfl, rfl⟩ := h
    have hgood := gives_optionalExpr hafter₂.tidy hvalue
    cases spanFrom_ok hspan
    exact hafter₂.extend hgood
  · simp only [bind_ok, pure_ok] at h
    obtain ⟨e, s₂, he, span, s₃, hspan, rfl, rfl⟩ := h
    cases spanFrom_ok hspan
    exact gives_expr fuel ht he

theorem gives_optionalStmt (ht : Tidy s) {absent : TokenKind} :
    Gives s (optionalStmt fuel context absent) GoodStmt? := by
  intro stmt s' h
  obtain ⟨k, s₁, hkind, h⟩ := bind_ok.1 h
  obtain ⟨rfl, rfl⟩ := kind_ok.1 hkind
  split at h
  · obtain ⟨rfl, rfl⟩ := pure_ok.1 h
    exact ⟨.refl ht, trivial⟩
  · simp only [bind_ok, pure_ok] at h
    obtain ⟨stmt, s₂, hstmt, rfl, rfl⟩ := h
    exact gives_simpleStmt ht hstmt

theorem gives_parenthesised : Gives s (parenthesised fuel) GoodExpr := by
  intro e s' h
  simp only [parenthesised, bind_ok, pure_ok] at h
  obtain ⟨_, s₁, hopen, e, s₂, he, _, s₃, hclose, rfl, rfl⟩ := h
  have hafter₁ := (expect_ok hopen).2.2
  obtain ⟨hafter₂, hgood⟩ := gives_expr fuel hafter₁.tidy he
  have hafter₃ := (expect_ok hclose).2.2
  exact ⟨hafter₁.trans (hafter₂.trans hafter₃), hgood.after hafter₃⟩

/-- Looking ahead takes nothing. -/
theorem startsForIn_ok {b : Bool} (h : startsForIn.run s = .ok (b, s')) : s' = s := by
  have hreturn {b b' : Bool} (h : (pure b' : Parser Bool).run s = .ok (b, s')) : s' = s := (pure_ok.1 h).2
  simp only [startsForIn, bind_ok, get_ok] at h
  obtain ⟨_, s₁, ⟨rfl, rfl⟩, h⟩ := h
  split at h
  · simp only [bind_ok, lift_ok] at h
    obtain ⟨first, s₂, ⟨-, rfl⟩, h⟩ := h
    split at h
    · simp only [bind_ok, lift_ok] at h
      obtain ⟨second, s₃, ⟨-, rfl⟩, h⟩ := h
      split at h
      · simp only [bind_ok, lift_ok] at h
        obtain ⟨third, s₄, ⟨-, rfl⟩, h⟩ := h
        exact hreturn h
      · exact hreturn h
    · exact hreturn h
  · exact hreturn h

/-! ### Statements with a body -/

/-- What every function of the grammar of statements does with a fuel. -/
structure StmtSpec (n : Nat) : Prop where
  block : ∀ {s} (context), Tidy s → Gives s (block n context) GoodBlock
  blockBody : ∀ {s} (context), Tidy s → Gives s (blockBody n context) GoodStmts
  statement : ∀ {s} (context), Tidy s → Gives s (statement n context) GoodStmt
  forStmt : ∀ {s} (context), Tidy s → Gives s (forStmt n context) GoodStmt
  bodyStmt : ∀ {s} (context), Tidy s → Gives s (bodyStmt n context) GoodStmt

theorem gives_block (ih : StmtSpec n) : Gives s (block (n + 1) context) GoodBlock := by
  intro stmt s' h
  simp only [block, bind_ok, pure_ok] at h
  obtain ⟨start, s₁, hstart, body, s₂, hbody, span, s₃, hspan, rfl, rfl⟩ := h
  have hafter₁ := (expect_ok hstart).2.2
  obtain ⟨hafter₂, hgood⟩ := ih.blockBody _ hafter₁.tidy hbody
  cases spanFrom_ok hspan
  exact ⟨hafter₁.trans hafter₂, trivial, hgood⟩

theorem gives_blockBody (ih : StmtSpec n) (ht : Tidy s) : Gives s (blockBody (n + 1) context) GoodStmts := by
  intro stmts s' h
  simp only [blockBody, bind_ok] at h
  obtain ⟨_, s₁, hskip, b, s₂, haccept, h⟩ := h
  have hafter₁ := skipTerminators_ok ht hskip
  have hafter₂ := hafter₁.trans (accept_ok hafter₁.tidy haccept)
  split at h
  · obtain ⟨rfl, rfl⟩ := pure_ok.1 h
    exact ⟨hafter₂, trivial⟩
  · simp only [bind_ok, kind_ok] at h
    obtain ⟨k, s₃, ⟨rfl, rfl⟩, h⟩ := h
    split at h
    · exact absurd h failExpecting_ok
    · simp only [bind_ok, pure_ok] at h
      obtain ⟨first, s₄, hfirst, rest, s₅, hrest, rfl, rfl⟩ := h
      obtain ⟨hafter₄, hgood₄⟩ := ih.statement _ hafter₂.tidy hfirst
      obtain ⟨hafter₅, hgood₅⟩ := ih.blockBody _ hafter₄.tidy hrest
      exact ⟨hafter₂.trans (hafter₄.trans hafter₅), hgood₄.after hafter₅, hgood₅⟩

theorem gives_bodyStmt (ih : StmtSpec n) (ht : Tidy s) : Gives s (bodyStmt (n + 1) context) GoodStmt := by
  intro stmt s' h
  obtain ⟨_, s₁, hskip, h⟩ := bind_ok.1 h
  have hafter := skipNewlines_ok ht hskip
  exact hafter.extend (ih.statement _ hafter.tidy h)

/-- Whether the test of a loop is there or not, the parser goes on in the same way. -/
theorem forTest_ok (ht : Tidy s) {α : Type} {next : Option Expr → Parser α} {a : α} {p : Prop} [Decidable p]
    (h : (if p then pure none >>= next else do
        let e ← expr fuel false
        pure (some e) >>= next).run s = .ok (a, s')) :
    ∃ test s₁, After s s₁ ∧ GoodExpr? (Recorded s₁.calls) test ∧ (next test).run s₁ = .ok (a, s') := by
  split at h
  · obtain ⟨test, s₁, htest, h⟩ := bind_ok.1 h
    obtain ⟨rfl, rfl⟩ := pure_ok.1 htest
    exact ⟨none, s₁, .refl ht, forall_mem_none, h⟩
  · obtain ⟨e, s₁, he, h⟩ := bind_ok.1 h
    obtain ⟨test, s₂, htest, h⟩ := bind_ok.1 h
    obtain ⟨rfl, rfl⟩ := pure_ok.1 htest
    obtain ⟨hafter, hgood⟩ := gives_expr fuel ht he
    exact ⟨some e, s₂, hafter, forall_mem_some hgood, h⟩

theorem gives_forStmt (ih : StmtSpec n) : Gives s (forStmt (n + 1) context) GoodStmt := by
  intro stmt s' h
  simp only [forStmt, bind_ok] at h
  obtain ⟨start, s₁, hstart, _, s₂, hopen, b, s₃, hforIn, h⟩ := h
  have hafter₂ := (advance_ok hstart).2.trans (expect_ok hopen).2.2
  cases startsForIn_ok hforIn
  split at h
  · simp only [bind_ok, pure_ok] at h
    obtain ⟨element, s₃, helement, _, s₄, hin, array, s₅, harray, _, s₆, hclose, body, s₇, hbody, span, s₈, hspan, rfl,
      rfl⟩ := h
    have hafter₄ := (advance_ok helement).2.trans (advance_ok hin).2
    have hafter₆ := (advance_ok harray).2.trans (advance_ok hclose).2
    obtain ⟨hafter₇, hgood⟩ := ih.bodyStmt _ hafter₆.tidy hbody
    cases spanFrom_ok hspan
    exact ⟨hafter₂.trans (hafter₄.trans (hafter₆.trans hafter₇)), hgood⟩
  · obtain ⟨first, s₄, hfirst, h⟩ := bind_ok.1 h
    obtain ⟨_, s₅, hsemi, h⟩ := bind_ok.1 h
    obtain ⟨_, s₆, hskip, h⟩ := bind_ok.1 h
    obtain ⟨k, s₇, hkind, h⟩ := bind_ok.1 h
    obtain ⟨rfl, rfl⟩ := kind_ok.1 hkind
    obtain ⟨hafter₄, hgood₄⟩ := gives_optionalStmt hafter₂.tidy hfirst
    have hafter₅ := (expect_ok hsemi).2.2
    have hafter₇ := hafter₅.trans (skipNewlines_ok hafter₅.tidy hskip)
    obtain ⟨test, s₈, hafter₈, hgood₈, h⟩ := forTest_ok hafter₇.tidy h
    simp only [bind_ok, pure_ok] at h
    obtain ⟨_, s₉, hsemi', _, t₁, hskip', update, t₂, hupdate, _, t₃, hclose, body, t₄, hbody, span, t₅, hspan, rfl,
      rfl⟩ := h
    have hafter₉ := (expect_ok hsemi').2.2
    have hbefore := hafter₉.trans (skipNewlines_ok hafter₉.tidy hskip')
    obtain ⟨hupdated, hgood₂⟩ := gives_optionalStmt hbefore.tidy hupdate
    have hclosed := (expect_ok hclose).2.2
    obtain ⟨hdone, hgood⟩ := ih.bodyStmt _ hclosed.tidy hbody
    cases spanFrom_ok hspan
    have hlater₂ := hclosed.trans hdone
    have hlater₈ := hbefore.trans (hupdated.trans hlater₂)
    have hlater₄ := hafter₇.trans (hafter₈.trans hlater₈)
    exact ⟨hafter₂.trans (hafter₄.trans hlater₄), hgood₄.mono hlater₄.implies,
      fun e he => (hgood₈ e he).mono hlater₈.implies, hgood₂.mono hlater₂.implies, hgood⟩

/-- The newlines behind a branch are only taken where another branch follows them. -/
theorem gives_ifElse (ih : StmtSpec n) {start : Token} :
    Gives s (do
      let _ ← advance
      let test ← parenthesised n
      let yes ← bodyStmt n context
      let saved ← get
      skipNewlines
      let _ ← accept .semi
      skipNewlines
      if ← accept .else then
        let no ← bodyStmt n context
        return .ifElse (← spanFrom start) test yes (some no)
      else
        set saved
        return .ifElse (← spanFrom start) test yes none) GoodStmt := by
  intro stmt s' h
  simp only [bind_ok, get_ok] at h
  obtain ⟨_, s₁, hif, test, s₂, htest, yes, s₃, hyes, saved, s₄, ⟨rfl, rfl⟩, _, s₅, hskip, b, s₆, hsemi, _, s₇,
    hskip', b', s₈, haccept, h⟩ := h
  have hafter₁ := (advance_ok hif).2
  obtain ⟨hafter₂, hgood₂⟩ := gives_parenthesised htest
  obtain ⟨hafter₃, hgood₃⟩ := ih.bodyStmt _ hafter₂.tidy hyes
  split at h
  · simp only [bind_ok, pure_ok] at h
    obtain ⟨no, t₁, hno, span, t₂, hspan, rfl, rfl⟩ := h
    have hafter₅ := skipNewlines_ok hafter₃.tidy hskip
    have hafter₆ := hafter₅.trans (accept_ok hafter₅.tidy hsemi)
    have hafter₇ := hafter₆.trans (skipNewlines_ok hafter₆.tidy hskip')
    have hafter₈ := hafter₇.trans (accept_ok hafter₇.tidy haccept)
    obtain ⟨hdone, hgood⟩ := ih.bodyStmt _ hafter₈.tidy hno
    cases spanFrom_ok hspan
    have hlater := hafter₈.trans hdone
    exact ⟨hafter₁.trans (hafter₂.trans (hafter₃.trans hlater)), hgood₂.after (hafter₃.trans hlater),
      hgood₃.after hlater, hgood⟩
  · simp only [bind_ok, set_ok, pure_ok] at h
    obtain ⟨_, t₁, rfl, span, t₂, hspan, rfl, rfl⟩ := h
    cases spanFrom_ok hspan
    exact ⟨hafter₁.trans (hafter₂.trans hafter₃), hgood₂.after hafter₃, hgood₃, trivial⟩

theorem gives_doWhile (ih : StmtSpec n) {start : Token} :
    Gives s (do
      let _ ← advance
      let body ← bodyStmt n { context with inLoop := true }
      skipTerminators
      let _ ← expect .while "'while'"
      let test ← parenthesised n
      if !(← atTerminator) then failExpecting "';' or newline"
      return .doWhile (← spanFrom start) body test) GoodStmt := by
  intro stmt s' h
  obtain ⟨_, s₁, hdo, h⟩ := bind_ok.1 h
  obtain ⟨body, s₂, hbody, h⟩ := bind_ok.1 h
  obtain ⟨_, s₃, hskip, h⟩ := bind_ok.1 h
  obtain ⟨_, s₄, hwhile, h⟩ := bind_ok.1 h
  obtain ⟨test, s₅, htest, h⟩ := bind_ok.1 h
  obtain ⟨b, s₆, hend, h⟩ := bind_ok.1 h
  have hafter₁ := (advance_ok hdo).2
  obtain ⟨hafter₂, hgood₂⟩ := ih.bodyStmt _ hafter₁.tidy hbody
  have hafter₃ := skipTerminators_ok hafter₂.tidy hskip
  have hafter₄ := hafter₃.trans (expect_ok hwhile).2.2
  obtain ⟨hafter₅, hgood₅⟩ := gives_parenthesised htest
  cases atTerminator_ok hend
  obtain ⟨-, h⟩ := unless_ok failExpecting_ok h
  simp only [bind_ok, pure_ok] at h
  obtain ⟨span, s₇, hspan, rfl, rfl⟩ := h
  cases spanFrom_ok hspan
  have hlater := hafter₄.trans hafter₅
  exact ⟨hafter₁.trans (hafter₂.trans hlater), hgood₂.after hlater, hgood₅⟩

theorem gives_statement (ih : StmtSpec n) (ht : Tidy s) : Gives s (statement (n + 1) context) GoodStmt := by
  intro stmt s' h
  simp only [statement, bind_ok, current_ok] at h
  obtain ⟨start, s₁, ⟨rfl, rfl⟩, h⟩ := h
  -- By the kind of the first token, in the order of the grammar.
  split at h
  · obtain ⟨hafter, -, hgood⟩ := ih.block _ ht h
    exact ⟨hafter, hgood⟩
  · exact gives_ifElse ih h
  · simp only [bind_ok, pure_ok] at h
    obtain ⟨_, s₂, hwhile, test, s₃, htest, body, s₄, hbody, span, s₅, hspan, rfl, rfl⟩ := h
    have hafter₂ := (advance_ok hwhile).2
    obtain ⟨hafter₃, hgood₃⟩ := gives_parenthesised htest
    obtain ⟨hafter₄, hgood₄⟩ := ih.bodyStmt _ hafter₃.tidy hbody
    cases spanFrom_ok hspan
    exact ⟨hafter₂.trans (hafter₃.trans hafter₄), hgood₃.after hafter₄, hgood₄⟩
  · exact gives_doWhile ih h
  · exact ih.forStmt _ ht h
  · simp only [bind_ok, pure_ok] at h
    obtain ⟨_, s₂, hsemi, span, s₃, hspan, rfl, rfl⟩ := h
    cases spanFrom_ok hspan
    exact ⟨(advance_ok hsemi).2, trivial⟩
  · obtain ⟨stmt', s₂, hstmt, h⟩ := bind_ok.1 h
    obtain ⟨b, s₃, hend, h⟩ := bind_ok.1 h
    cases atTerminator_ok hend
    obtain ⟨-, h⟩ := unless_ok failExpecting_ok h
    obtain ⟨rfl, rfl⟩ := pure_ok.1 h
    exact gives_simpleStmt ht hstmt

theorem stmtSpec (n : Nat) : StmtSpec n := by
  induction n with
  | zero =>
    constructor <;> intros <;> apply gives_tooDeep
  | succ n ih =>
    exact {
      block := fun _ _ => gives_block ih
      blockBody := fun _ ht => gives_blockBody ih ht
      statement := fun _ ht => gives_statement ih ht
      forStmt := fun _ _ => gives_forStmt ih
      bodyStmt := fun _ ht => gives_bodyStmt ih ht }

end Awk.Parser
