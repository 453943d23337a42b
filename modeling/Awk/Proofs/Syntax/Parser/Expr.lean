import Awk.Proofs.Syntax.Parser.State
import Awk.Syntax.Parser.Expr

/-!
# What the expression grammar gives

Every expression that the grammar gives is well formed with regard to the calls on record afterwards (`exprSpec`).
The functions of the grammar call each other with less fuel, so the induction is on the fuel, for all of them at once
(`ExprSpec`).  What has been read stays well formed while more is read, for calls are only added to the record.
-/

namespace Awk.Parser

/-- If the parser gives something from this state, it is good with regard to the calls then on record. -/
def Gives {α : Type} (s : ParserState) (act : Parser α) (good : Accepts → α → Prop) : Prop :=
  ∀ {a : α} {s' : ParserState}, act.run s = .ok (a, s') → After s s' ∧ good (Recorded s'.calls) a

abbrev GoodExpr (accepts : Accepts) (e : Expr) : Prop := e.WellFormed accepts false

abbrev GoodTarget (accepts : Accepts) (target : LValue) : Prop := target.WellFormed accepts false

abbrev GoodExprs (accepts : Accepts) (es : List Expr) : Prop := AllWellFormed accepts false es

abbrev GoodSubscripts (accepts : Accepts) (subs : Subscripts) : Prop := subs.WellFormed accepts false

abbrev GoodTarget? (accepts : Accepts) (target : Option LValue) : Prop := TargetWellFormed accepts false target

/-- What every function of the grammar does with a fuel. -/
structure ExprSpec (n : Nat) : Prop where
  level : ∀ {s} (lvl inPrint), Tidy s → Gives s (level n lvl inPrint) GoodExpr
  chain : ∀ {s left} (lvl inPrint start), Tidy s → GoodExpr (Recorded s.calls) left →
    Gives s (chain n lvl inPrint start left) GoodExpr
  signed : ∀ {s} (lvl inPrint), Tidy s → Gives s (signed n lvl inPrint) GoodExpr
  parts : ∀ {s} (inPrint), Tidy s → Gives s (parts n inPrint) GoodExprs
  pipes : ∀ {s command} (start), Tidy s → GoodExpr (Recorded s.calls) command →
    Gives s (pipes n start command) GoodExpr
  lvalue : ∀ {s}, Tidy s → Gives s (lvalue n) GoodTarget
  field : ∀ {s}, Tidy s → Gives s (field n) GoodTarget
  name : ∀ {s}, Tidy s → Gives s (name n) GoodTarget
  subscripts : ∀ {s}, Tidy s → Gives s (subscripts n) GoodSubscripts
  moreItems : ∀ {s} (inPrint), Tidy s → Gives s (moreItems n inPrint) GoodExprs
  arguments : ∀ {s}, Tidy s → Gives s (arguments n) GoodExprs
  getlineTarget : ∀ {s}, Tidy s → Gives s (getlineTarget n) GoodTarget?
  primary : ∀ {s}, Tidy s → Gives s (primary n) GoodExpr

variable {n : Nat} {s s' : ParserState} {inPrint : Bool}

/-- What is good stays good while more is parsed. -/
theorem GoodExpr.after {e : Expr} (h : GoodExpr (Recorded s.calls) e) (hafter : After s s') :
    GoodExpr (Recorded s'.calls) e :=
  h.mono hafter.implies

theorem GoodTarget.after {target : LValue} (h : GoodTarget (Recorded s.calls) target) (hafter : After s s') :
    GoodTarget (Recorded s'.calls) target :=
  h.mono hafter.implies

theorem GoodExprs.after {es : List Expr} (h : GoodExprs (Recorded s.calls) es) (hafter : After s s') :
    GoodExprs (Recorded s'.calls) es :=
  h.mono hafter.implies

theorem goodTarget_of_asLValue {accepts : Accepts} {e : Expr} {target : LValue} (h : GoodExpr accepts e)
    (htarget : e.asLValue? = some target) : GoodTarget accepts target := by
  cases e with
  | lvalue target' =>
    cases htarget
    exact h
  | _ => cases htarget

theorem gives_tooDeep {α : Type} {good : Accepts → α → Prop} :
    Gives s (do failAt .tooDeep (← current)) good := by
  intro a s' h
  simp only [bind_ok] at h
  obtain ⟨token, s₁, -, h⟩ := h
  exact absurd h failAt_ok

/-! ### Levels -/

theorem gives_assignment (ih : ExprSpec n) (ht : Tidy s) : Gives s (level (n + 1) .assignment inPrint) GoodExpr := by
  intro e s' h
  simp only [level, bind_ok, current_ok, kind_ok] at h
  obtain ⟨start, s₁, ⟨rfl, rfl⟩, left, s₂, hleft, k, s₃, ⟨rfl, rfl⟩, h⟩ := h
  obtain ⟨hafter, hgood⟩ := ih.level _ _ ht hleft
  split at h
  · rename_i op target hop htarget
    simp only [bind_ok, pure_ok] at h
    obtain ⟨token, s₄, htoken, u, s₅, hskip, right, s₆, hright, span, s₇, hspan, rfl, rfl⟩ := h
    obtain ⟨rfl, hafter₄⟩ := advance_ok htoken
    have hafter₅ := skipNewlines_ok hafter₄.tidy hskip
    obtain ⟨hafter₆, hgood₆⟩ := ih.level _ _ hafter₅.tidy hright
    cases spanFrom_ok hspan
    have hlater := hafter₄.trans (hafter₅.trans hafter₆)
    have hspelt := AssignOp.ofText?_of_kind hafter.tidy hop
    exact ⟨hafter.trans hlater, hspelt, fun hfolded => absurd hfolded Bool.false_ne_true,
      (goodTarget_of_asLValue hgood htarget).after hlater, hgood₆⟩
  · obtain ⟨rfl, rfl⟩ := pure_ok.1 h
    exact ⟨hafter, hgood⟩

theorem gives_conditional (ih : ExprSpec n) (ht : Tidy s) :
    Gives s (level (n + 1) .conditional inPrint) GoodExpr := by
  intro e s' h
  simp only [level, bind_ok, current_ok] at h
  obtain ⟨start, s₁, ⟨rfl, rfl⟩, test, s₂, htest, b, s₃, haccept, h⟩ := h
  obtain ⟨hafter₂, hgood₂⟩ := ih.level _ _ ht htest
  have hafter₃ := accept_ok hafter₂.tidy haccept
  split at h
  · simp only [bind_ok, pure_ok] at h
    obtain ⟨_, s₄, hskip, yes, s₅, hyes, _, s₆, hskip', _, s₇, hcolon, _, s₈, hskip'', no, s₉, hno, span, s₁₀, hspan,
      rfl, rfl⟩ := h
    have hafter₄ := hafter₃.trans (skipNewlines_ok hafter₃.tidy hskip)
    obtain ⟨hafter₅, hgood₅⟩ := ih.level _ _ hafter₄.tidy hyes
    have hafter₆ := skipNewlines_ok hafter₅.tidy hskip'
    have hafter₇ := hafter₆.trans (expect_ok hcolon).2.2
    have hafter₈ := hafter₇.trans (skipNewlines_ok hafter₇.tidy hskip'')
    obtain ⟨hafter₉, hgood₉⟩ := ih.level _ _ hafter₈.tidy hno
    cases spanFrom_ok hspan
    have hlater := hafter₈.trans hafter₉
    have hlater' := hafter₄.trans (hafter₅.trans hlater)
    exact ⟨hafter₂.trans hlater', hgood₂.after hlater', hgood₅.after hlater, hgood₉⟩
  · obtain ⟨rfl, rfl⟩ := pure_ok.1 h
    exact ⟨hafter₂.trans hafter₃, hgood₂.after hafter₃⟩

/-- Outside a print statement pipes may follow, and in either case the parser goes on in the same way. -/
theorem pipes_unless_ok (ih : ExprSpec n) (ht : Tidy s) {left : Expr} (hleft : GoodExpr (Recorded s.calls) left)
    {start : Token} {α : Type} {next : Expr → Parser α} {a : α}
    (h : (if inPrint then pure left >>= next else pipes n start left >>= next).run s = .ok (a, s')) :
    ∃ e s₁, After s s₁ ∧ GoodExpr (Recorded s₁.calls) e ∧ (next e).run s₁ = .ok (a, s') := by
  split at h
  · simp only [bind_ok, pure_ok] at h
    obtain ⟨e, s₁, ⟨rfl, rfl⟩, h⟩ := h
    exact ⟨e, s₁, .refl ht, hleft, h⟩
  · obtain ⟨e, s₁, hpipes, h⟩ := bind_ok.1 h
    obtain ⟨hafter, hgood⟩ := ih.pipes _ ht hleft hpipes
    exact ⟨e, s₁, hafter, hgood, h⟩

theorem gives_comparison (ih : ExprSpec n) (ht : Tidy s) : Gives s (level (n + 1) .comparison inPrint) GoodExpr := by
  intro e s' h
  simp only [level, bind_ok, current_ok] at h
  obtain ⟨start, s₁, ⟨rfl, rfl⟩, first, s₂, hfirst, h⟩ := h
  obtain ⟨hafter₂, hgood₂⟩ := ih.level _ _ ht hfirst
  obtain ⟨left, s₃, hafter₃, hgood₃, h⟩ := pipes_unless_ok ih hafter₂.tidy hgood₂ h
  simp only [bind_ok, kind_ok] at h
  obtain ⟨k, s₄, ⟨rfl, rfl⟩, h⟩ := h
  have hafter := hafter₂.trans hafter₃
  split at h
  · rename_i op hop
    split at h
    · obtain ⟨rfl, rfl⟩ := pure_ok.1 h
      exact ⟨hafter, hgood₃⟩
    · simp only [bind_ok] at h
      obtain ⟨token, s₅, htoken, second, s₆, hsecond, h⟩ := h
      obtain ⟨rfl, hafter₅⟩ := advance_ok htoken
      obtain ⟨hafter₆, hgood₆⟩ := ih.level _ _ hafter₅.tidy hsecond
      obtain ⟨right, s₇, hafter₇, hgood₇, h⟩ := pipes_unless_ok ih hafter₆.tidy hgood₆ h
      simp only [bind_ok, pure_ok] at h
      obtain ⟨span, s₈, hspan, rfl, rfl⟩ := h
      cases spanFrom_ok hspan
      have hlater := hafter₅.trans (hafter₆.trans hafter₇)
      exact ⟨hafter.trans hlater, hafter₃.tidy.read CompareOp.agree hop, hgood₃.after hlater, hgood₇⟩
  · obtain ⟨rfl, rfl⟩ := pure_ok.1 h
    exact ⟨hafter, hgood₃⟩

theorem gives_concatenation (ih : ExprSpec n) (ht : Tidy s) :
    Gives s (level (n + 1) .concatenation inPrint) GoodExpr := by
  intro e s' h
  simp only [level, bind_ok, current_ok] at h
  obtain ⟨start, s₁, ⟨rfl, rfl⟩, first, s₂, hfirst, more, s₃, hmore, h⟩ := h
  obtain ⟨hafter₂, hgood₂⟩ := ih.level _ _ ht hfirst
  obtain ⟨hafter₃, hgood₃⟩ := ih.parts _ hafter₂.tidy hmore
  split at h
  · obtain ⟨rfl, rfl⟩ := pure_ok.1 h
    exact ⟨hafter₂.trans hafter₃, hgood₂.after hafter₃⟩
  · simp only [bind_ok, pure_ok] at h
    obtain ⟨span, s₄, hspan, rfl, rfl⟩ := h
    cases spanFrom_ok hspan
    exact ⟨hafter₂.trans hafter₃, hgood₂.after hafter₃, hgood₃⟩

theorem gives_power (ih : ExprSpec n) (ht : Tidy s) : Gives s (level (n + 1) .power inPrint) GoodExpr := by
  intro e s' h
  simp only [level, bind_ok, current_ok] at h
  obtain ⟨start, s₁, ⟨rfl, rfl⟩, base, s₂, hbase, b, s₃, haccept, h⟩ := h
  obtain ⟨hafter₂, hgood₂⟩ := ih.level _ _ ht hbase
  have hafter₃ := accept_ok hafter₂.tidy haccept
  split at h
  · simp only [bind_ok, pure_ok] at h
    obtain ⟨exponent, s₄, hexponent, span, s₅, hspan, rfl, rfl⟩ := h
    obtain ⟨hafter₄, hgood₄⟩ := ih.signed _ _ hafter₃.tidy hexponent
    cases spanFrom_ok hspan
    have hlater := hafter₃.trans hafter₄
    exact ⟨hafter₂.trans hlater, hgood₂.after hlater, hgood₄⟩
  · obtain ⟨rfl, rfl⟩ := pure_ok.1 h
    exact ⟨hafter₂.trans hafter₃, hgood₂.after hafter₃⟩

theorem gives_step (ih : ExprSpec n) (ht : Tidy s) : Gives s (level (n + 1) .step inPrint) GoodExpr := by
  intro e s' h
  simp only [level, bind_ok, current_ok] at h
  obtain ⟨start, s₁, ⟨rfl, rfl⟩, h⟩ := h
  split at h
  · rename_i op hop
    simp only [bind_ok, pure_ok] at h
    obtain ⟨token, s₂, htoken, target, s₃, htarget, span, s₄, hspan, rfl, rfl⟩ := h
    obtain ⟨rfl, hafter₂⟩ := advance_ok htoken
    obtain ⟨hafter₃, hgood₃⟩ := ih.lvalue hafter₂.tidy htarget
    cases spanFrom_ok hspan
    have hspelt : StepOp.ofText? s₁.current.text = some op := Token.Proper.read ht StepOp.agree hop
    exact ⟨hafter₂.trans hafter₃, hspelt, hgood₃⟩
  · simp only [bind_ok, kind_ok] at h
    obtain ⟨operand, s₂, hoperand, k, s₃, ⟨rfl, rfl⟩, h⟩ := h
    obtain ⟨hafter, hgood⟩ := ih.level _ _ ht hoperand
    split at h
    · rename_i target op htarget hop
      simp only [bind_ok, pure_ok] at h
      obtain ⟨token, s₄, htoken, span, s₅, hspan, rfl, rfl⟩ := h
      obtain ⟨rfl, hafter₄⟩ := advance_ok htoken
      cases spanFrom_ok hspan
      exact ⟨hafter.trans hafter₄, hafter.tidy.read StepOp.agree hop, (goodTarget_of_asLValue hgood htarget).after hafter₄⟩
    · obtain ⟨rfl, rfl⟩ := pure_ok.1 h
      exact ⟨hafter, hgood⟩

/-- The levels whose operators associate to the left. -/
theorem gives_chain_start (ih : ExprSpec n) (ht : Tidy s) (lvl : Level) :
    Gives s (do
      let start ← current
      let left ← level n lvl.tighter inPrint
      chain n lvl inPrint start left) GoodExpr := by
  intro e s' h
  simp only [bind_ok, current_ok] at h
  obtain ⟨start, s₁, ⟨rfl, rfl⟩, left, s₂, hleft, h⟩ := h
  obtain ⟨hafter₂, hgood₂⟩ := ih.level _ _ ht hleft
  obtain ⟨hafter₃, hgood₃⟩ := ih.chain _ _ _ hafter₂.tidy hgood₂ h
  exact ⟨hafter₂.trans hafter₃, hgood₃⟩

theorem gives_level (ih : ExprSpec n) (ht : Tidy s) (lvl : Level) : Gives s (level (n + 1) lvl inPrint) GoodExpr := by
  cases lvl with
  | assignment => exact gives_assignment ih ht
  | conditional => exact gives_conditional ih ht
  | comparison => exact gives_comparison ih ht
  | concatenation => exact gives_concatenation ih ht
  | sign => exact ih.signed _ _ ht
  | power => exact gives_power ih ht
  | step => exact gives_step ih ht
  | primary => exact ih.primary ht
  | disjunction => exact gives_chain_start ih ht .disjunction
  | conjunction => exact gives_chain_start ih ht .conjunction
  | membership => exact gives_chain_start ih ht .membership
  | matching => exact gives_chain_start ih ht .matching
  | sum => exact gives_chain_start ih ht .sum
  | product => exact gives_chain_start ih ht .product

/-! ### Chains -/

theorem After.extend {s₁ : ParserState} (hafter : After s s₁) {p : Prop} (h : After s₁ s' ∧ p) : After s s' ∧ p :=
  ⟨hafter.trans h.1, h.2⟩

/-- The right operand is read, and the chain goes on with what the two operands make. -/
theorem gives_operand (ih : ExprSpec n) (ht : Tidy s) (build : Span → Expr → Expr)
    (hbuild : ∀ {s' span right}, After s s' → GoodExpr (Recorded s'.calls) right →
      GoodExpr (Recorded s'.calls) (build span right)) {lvl tighter : Level} {start : Token} :
    Gives s (do
      let right ← level n tighter inPrint
      chain n lvl inPrint start (build (← spanFrom start) right)) GoodExpr := by
  intro e s' h
  simp only [bind_ok] at h
  obtain ⟨right, s₁, hright, span, s₂, hspan, h⟩ := h
  obtain ⟨hafter, hgood⟩ := ih.level _ _ ht hright
  cases spanFrom_ok hspan
  exact hafter.extend (ih.chain _ _ _ hafter.tidy (hbuild hafter hgood) h)

/-- An operator whose token is kept. -/
theorem gives_operator (ih : ExprSpec n) (build : Token → Span → Expr → Expr)
    (hbuild : ∀ {s' span right}, After s s' → GoodExpr (Recorded s'.calls) right →
      GoodExpr (Recorded s'.calls) (build s.current span right)) {lvl tighter : Level} {start : Token} :
    Gives s (do
      let token ← advance
      let right ← level n tighter inPrint
      chain n lvl inPrint start (build token (← spanFrom start) right)) GoodExpr := by
  intro e s' h
  obtain ⟨token, s₁, htoken, h⟩ := bind_ok.1 h
  obtain ⟨rfl, hafter⟩ := advance_ok htoken
  exact hafter.extend (gives_operand ih hafter.tidy (build s.current) (fun hlater => hbuild (hafter.trans hlater)) h)

theorem gives_logical (ih : ExprSpec n) {left : Expr} (hleft : GoodExpr (Recorded s.calls) left) (op : LogicalOp)
    {lvl tighter : Level} {start : Token} :
    Gives s (do
      let _ ← advance
      skipNewlines
      let right ← level n tighter inPrint
      chain n lvl inPrint start (.logical (← spanFrom start) op left right)) GoodExpr := by
  intro e s' h
  obtain ⟨token, s₁, htoken, h⟩ := bind_ok.1 h
  obtain ⟨u, s₂, hskip, h⟩ := bind_ok.1 h
  have hafter₁ := (advance_ok htoken).2
  have hafter₂ := hafter₁.trans (skipNewlines_ok hafter₁.tidy hskip)
  refine hafter₂.extend (gives_operand ih hafter₂.tidy (.logical · op left ·) ?_ h)
  exact fun hafter hright => ⟨hleft.after (hafter₂.trans hafter), hright⟩

theorem gives_chain (ih : ExprSpec n) (ht : Tidy s) {left : Expr} (hleft : GoodExpr (Recorded s.calls) left)
    (lvl : Level) (start : Token) : Gives s (chain (n + 1) lvl inPrint start left) GoodExpr := by
  have hreturn : Gives s (pure left) GoodExpr := by
    intro e s' h
    obtain ⟨rfl, rfl⟩ := pure_ok.1 h
    exact ⟨.refl ht, hleft⟩
  have hmatching (negated : Bool) (hnegation : negation? s.current.text = some negated) {tighter : Level} :
      Gives s (do
        let token ← advance
        let right ← level n tighter inPrint
        chain n lvl inPrint start (.matching (← spanFrom start) left negated token right)) GoodExpr :=
    gives_operator ih (fun token span right => .matching span left negated token right)
      (fun hafter hright => ⟨hnegation, hleft.after hafter, hright⟩)
  have harith {op : ArithOp} (hspelt : ArithOp.ofText? s.current.text = some op) {tighter : Level} :
      Gives s (do
        let token ← advance
        let right ← level n tighter inPrint
        chain n lvl inPrint start (.arith (← spanFrom start) left op token right)) GoodExpr :=
    gives_operator ih (fun token span right => .arith span left op token right)
      (fun hafter hright => ⟨hspelt, hleft.after hafter, hright⟩)
  intro e s' h
  simp only [chain, bind_ok, kind_ok] at h
  obtain ⟨k, s₁, ⟨rfl, rfl⟩, h⟩ := h
  split at h
  · exact gives_logical ih hleft .or h
  · exact gives_logical ih hleft .and h
  · simp only [bind_ok] at h
    obtain ⟨token, s₂, htoken, array, s₃, harray, span, s₄, hspan, h⟩ := h
    have hafter := (advance_ok htoken).2.trans (expect_ok harray).2.2
    cases spanFrom_ok hspan
    have hmember : GoodExpr (Recorded s₃.calls) (.member span [left] none array) := ⟨hleft.after hafter, trivial⟩
    exact hafter.extend (ih.chain _ _ _ hafter.tidy hmember h)
  · rename_i hkind
    exact hmatching false (by rw [Token.Proper.text_eq ht hkind rfl]; rfl) h
  · rename_i hkind
    exact hmatching true (by rw [Token.Proper.text_eq ht hkind rfl]; rfl) h
  · split at h
    · rename_i op hop
      exact harith (Token.Proper.read ht ArithOp.agree_sum hop) h
    · exact hreturn h
  · split at h
    · rename_i op hop
      exact harith (Token.Proper.read ht ArithOp.agree_product hop) h
    · exact hreturn h
  · exact hreturn h

/-! ### Operands -/

theorem gives_signed (ih : ExprSpec n) (ht : Tidy s) (lvl : Level) :
    Gives s (signed (n + 1) lvl inPrint) GoodExpr := by
  intro e s' h
  simp only [signed, bind_ok, current_ok] at h
  obtain ⟨start, s₁, ⟨rfl, rfl⟩, h⟩ := h
  split at h
  · rename_i op hop
    simp only [bind_ok, pure_ok] at h
    obtain ⟨token, s₂, htoken, operand, s₃, hoperand, span, s₄, hspan, rfl, rfl⟩ := h
    obtain ⟨rfl, hafter₂⟩ := advance_ok htoken
    obtain ⟨hafter₃, hgood₃⟩ := ih.signed _ _ hafter₂.tidy hoperand
    cases spanFrom_ok hspan
    exact ⟨hafter₂.trans hafter₃, Token.Proper.read ht SignOp.agree hop, hgood₃⟩
  · exact ih.level _ _ ht h

theorem gives_parts (ih : ExprSpec n) (ht : Tidy s) : Gives s (parts (n + 1) inPrint) GoodExprs := by
  intro es s' h
  simp only [parts, bind_ok, kind_ok] at h
  obtain ⟨k, s₁, ⟨rfl, rfl⟩, h⟩ := h
  split at h
  · simp only [bind_ok, pure_ok] at h
    obtain ⟨part, s₂, hpart, more, s₃, hmore, rfl, rfl⟩ := h
    obtain ⟨hafter₂, hgood₂⟩ := ih.level _ _ ht hpart
    obtain ⟨hafter₃, hgood₃⟩ := ih.parts _ hafter₂.tidy hmore
    exact ⟨hafter₂.trans hafter₃, hgood₂.after hafter₃, hgood₃⟩
  · obtain ⟨rfl, rfl⟩ := pure_ok.1 h
    exact ⟨.refl ht, trivial⟩

theorem gives_moreItems (ih : ExprSpec n) (ht : Tidy s) : Gives s (moreItems (n + 1) inPrint) GoodExprs := by
  intro es s' h
  simp only [moreItems, bind_ok] at h
  obtain ⟨b, s₁, haccept, h⟩ := h
  have hafter₁ := accept_ok ht haccept
  split at h
  · simp only [bind_ok, pure_ok] at h
    obtain ⟨u, s₂, hskip, e, s₃, he, more, s₄, hmore, rfl, rfl⟩ := h
    have hafter₂ := hafter₁.trans (skipNewlines_ok hafter₁.tidy hskip)
    obtain ⟨hafter₃, hgood₃⟩ := ih.level _ _ hafter₂.tidy he
    obtain ⟨hafter₄, hgood₄⟩ := ih.moreItems _ hafter₃.tidy hmore
    exact ⟨hafter₂.trans (hafter₃.trans hafter₄), hgood₃.after hafter₄, hgood₄⟩
  · obtain ⟨rfl, rfl⟩ := pure_ok.1 h
    exact ⟨hafter₁, trivial⟩

theorem gives_pipes (ih : ExprSpec n) (ht : Tidy s) {command : Expr} (hcommand : GoodExpr (Recorded s.calls) command)
    (start : Token) : Gives s (pipes (n + 1) start command) GoodExpr := by
  have hreturn : Gives s (pure command) GoodExpr := by
    intro e s' h
    obtain ⟨rfl, rfl⟩ := pure_ok.1 h
    exact ⟨.refl ht, hcommand⟩
  intro e s' h
  simp only [pipes, bind_ok, kind_ok] at h
  obtain ⟨k, s₁, ⟨rfl, rfl⟩, h⟩ := h
  split at h
  · simp only [bind_ok] at h
    obtain ⟨k', s₂, hnext, h⟩ := h
    cases nextKind_ok hnext
    split at h
    · simp only [bind_ok] at h
      obtain ⟨_, s₃, hpipe, _, s₄, hgetline, target, s₅, htarget, span, s₆, hspan, h⟩ := h
      have hafter₄ := (advance_ok hpipe).2.trans (advance_ok hgetline).2
      obtain ⟨hafter₅, hgood₅⟩ := ih.getlineTarget hafter₄.tidy htarget
      cases spanFrom_ok hspan
      have hafter := hafter₄.trans hafter₅
      have hread : GoodExpr (Recorded s₅.calls) (.getlineCommand span command target) := ⟨hcommand.after hafter, hgood₅⟩
      exact hafter.extend (ih.pipes _ hafter.tidy hread h)
    · exact hreturn h
  · exact hreturn h

theorem gives_arguments (ih : ExprSpec n) (ht : Tidy s) : Gives s (arguments (n + 1)) GoodExprs := by
  intro es s' h
  simp only [arguments, bind_ok] at h
  obtain ⟨u, s₁, hskip, b, s₂, haccept, h⟩ := h
  have hafter₁ := skipNewlines_ok ht hskip
  have hafter₂ := hafter₁.trans (accept_ok hafter₁.tidy haccept)
  split at h
  · obtain ⟨rfl, rfl⟩ := pure_ok.1 h
    exact ⟨hafter₂, trivial⟩
  · simp only [bind_ok, pure_ok] at h
    obtain ⟨first, s₃, hfirst, more, s₄, hmore, _, s₅, hskip', _, s₆, hclose, rfl, rfl⟩ := h
    obtain ⟨hafter₃, hgood₃⟩ := ih.level _ _ hafter₂.tidy hfirst
    obtain ⟨hafter₄, hgood₄⟩ := ih.moreItems _ hafter₃.tidy hmore
    have hafter₅ := skipNewlines_ok hafter₄.tidy hskip'
    have hlater := hafter₅.trans (expect_ok hclose).2.2
    exact ⟨hafter₂.trans (hafter₃.trans (hafter₄.trans hlater)), hgood₃.after (hafter₄.trans hlater),
      hgood₄.after hlater⟩

/-! ### What can be assigned to -/

theorem gives_lvalue (ih : ExprSpec n) (ht : Tidy s) : Gives s (lvalue (n + 1)) GoodTarget := by
  intro target s' h
  simp only [lvalue, bind_ok, kind_ok] at h
  obtain ⟨k, s₁, ⟨rfl, rfl⟩, h⟩ := h
  split at h
  · exact ih.field ht h
  · exact ih.name ht h
  · exact absurd h failExpecting_ok

theorem gives_field (ih : ExprSpec n) : Gives s (field (n + 1)) GoodTarget := by
  intro target s' h
  simp only [field, bind_ok, current_ok] at h
  obtain ⟨start, s₁, hstart, first, s₂, ⟨rfl, rfl⟩, h⟩ := h
  have hafter₂ := (advance_ok hstart).2
  split at h
  · rename_i op hop
    simp only [bind_ok, pure_ok] at h
    obtain ⟨token, s₃, htoken, target, s₄, htarget, span, s₅, hspan, span', s₆, hspan', rfl, rfl⟩ := h
    obtain ⟨rfl, hafter₃⟩ := advance_ok htoken
    obtain ⟨hafter₄, hgood₄⟩ := ih.lvalue hafter₃.tidy htarget
    cases spanFrom_ok hspan
    cases spanFrom_ok hspan'
    have hspelt : StepOp.ofText? s₂.current.text = some op := Token.Proper.read hafter₂.tidy StepOp.agree hop
    exact ⟨hafter₂.trans (hafter₃.trans hafter₄), hspelt, hgood₄⟩
  · simp only [bind_ok, pure_ok] at h
    obtain ⟨number, s₃, hnumber, span, s₄, hspan, rfl, rfl⟩ := h
    obtain ⟨hafter₃, hgood₃⟩ := ih.signed _ _ hafter₂.tidy hnumber
    cases spanFrom_ok hspan
    exact ⟨hafter₂.trans hafter₃, hgood₃⟩

theorem gives_name (ih : ExprSpec n) : Gives s (name (n + 1)) GoodTarget := by
  intro target s' h
  simp only [name, bind_ok] at h
  obtain ⟨token, s₁, htoken, b, s₂, haccept, h⟩ := h
  have hafter₁ := (expect_ok htoken).2.2
  have hafter₂ := hafter₁.trans (accept_ok hafter₁.tidy haccept)
  split at h
  · simp only [bind_ok, pure_ok] at h
    obtain ⟨subs, s₃, hsubs, span, s₄, hspan, rfl, rfl⟩ := h
    obtain ⟨hafter₃, hgood₃⟩ := ih.subscripts hafter₂.tidy hsubs
    cases spanFrom_ok hspan
    exact ⟨hafter₂.trans hafter₃, hgood₃⟩
  · obtain ⟨rfl, rfl⟩ := pure_ok.1 h
    exact ⟨hafter₂, trivial⟩

theorem gives_subscripts (ih : ExprSpec n) (ht : Tidy s) :
    Gives s (subscripts (n + 1)) GoodSubscripts := by
  intro subs s' h
  simp only [subscripts, bind_ok, current_ok, pure_ok] at h
  obtain ⟨start, s₁, ⟨rfl, rfl⟩, first, s₂, hfirst, more, s₃, hmore, _, s₄, hclose, span, s₅, hspan, rfl, rfl⟩ := h
  obtain ⟨hafter₂, hgood₂⟩ := ih.level _ _ ht hfirst
  obtain ⟨hafter₃, hgood₃⟩ := ih.moreItems _ hafter₂.tidy hmore
  have hafter₄ := (expect_ok hclose).2.2
  cases spanFrom_ok hspan
  exact ⟨hafter₂.trans (hafter₃.trans hafter₄), hgood₂.after (hafter₃.trans hafter₄), hgood₃.after hafter₄⟩

theorem gives_getlineTarget (ih : ExprSpec n) (ht : Tidy s) :
    Gives s (getlineTarget (n + 1)) GoodTarget? := by
  intro target s' h
  simp only [getlineTarget, bind_ok, kind_ok] at h
  obtain ⟨k, s₁, ⟨rfl, rfl⟩, h⟩ := h
  split at h
  · simp only [bind_ok, pure_ok] at h
    obtain ⟨target, s₂, htarget, rfl, rfl⟩ := h
    exact ih.name ht htarget
  · simp only [bind_ok, pure_ok] at h
    obtain ⟨target, s₂, htarget, rfl, rfl⟩ := h
    exact ih.field ht htarget
  · obtain ⟨rfl, rfl⟩ := pure_ok.1 h
    exact ⟨.refl ht, trivial⟩

theorem After.recording (ht : Tidy s) (call : Token × Nat) : After s { s with calls := call :: s.calls } :=
  ⟨ht, List.subset_cons_self _ _, rfl⟩

/-- A call goes on record after its arguments, so that it is on record when it has been read. -/
theorem gives_call (ih : ExprSpec n) {start : Token} :
    Gives s (do
      let function ← advance
      let _ ← expect .lpar "'('"
      let args ← arguments n
      modify fun s => { s with calls := (function, args.length) :: s.calls }
      return .call (← spanFrom start) function args) GoodExpr := by
  intro e s' h
  simp only [bind_ok, modify_ok, pure_ok] at h
  obtain ⟨token, s₁, htoken, _, s₂, hopen, args, s₃, hargs, _, s₄, rfl, span, s₅, hspan, rfl, rfl⟩ := h
  obtain ⟨rfl, hafter₁⟩ := advance_ok htoken
  have hafter₂ := hafter₁.trans (expect_ok hopen).2.2
  obtain ⟨hafter₃, hgood₃⟩ := ih.arguments hafter₂.tidy hargs
  have hafter₄ := hafter₃.trans (After.recording hafter₃.tidy (s.current, args.length))
  cases spanFrom_ok hspan
  exact ⟨hafter₂.trans hafter₄, List.mem_cons_self, hgood₃.mono fun hcall => List.mem_cons_of_mem _ hcall⟩

theorem gives_builtin (ih : ExprSpec n) {b : Builtin} (hbuiltin : Builtin.ofName? s.current.text = some b)
    {start : Token} :
    Gives s (do
      let token ← advance
      if ← accept .lpar then
        let args ← arguments n
        return .builtin (← spanFrom start) b token args
      else if b = .length then
        return .builtin (← spanFrom start) b token []
      else
        failExpecting "'('") GoodExpr := by
  intro e s' h
  simp only [bind_ok] at h
  obtain ⟨token, s₁, htoken, parenthesis, s₂, haccept, h⟩ := h
  obtain ⟨rfl, hafter₁⟩ := advance_ok htoken
  have hafter₂ := hafter₁.trans (accept_ok hafter₁.tidy haccept)
  split at h
  · simp only [bind_ok, pure_ok] at h
    obtain ⟨args, s₃, hargs, span, s₄, hspan, rfl, rfl⟩ := h
    obtain ⟨hafter₃, hgood₃⟩ := ih.arguments hafter₂.tidy hargs
    cases spanFrom_ok hspan
    exact ⟨hafter₂.trans hafter₃, hbuiltin, hgood₃⟩
  split at h
  · simp only [bind_ok, pure_ok] at h
    obtain ⟨span, s₃, hspan, rfl, rfl⟩ := h
    cases spanFrom_ok hspan
    exact ⟨hafter₂, hbuiltin, trivial⟩
  · exact absurd h failExpecting_ok

theorem gives_getline (ih : ExprSpec n) {start : Token} :
    Gives s (do
      let _ ← advance
      let target ← getlineTarget n
      if ← accept .lt then
        let file ← level n .step false
        return .getlineFile (← spanFrom start) target file
      else
        return .getline (← spanFrom start) target) GoodExpr := by
  intro e s' h
  simp only [bind_ok] at h
  obtain ⟨token, s₁, htoken, target, s₂, htarget, b, s₃, haccept, h⟩ := h
  have hafter₁ := (advance_ok htoken).2
  obtain ⟨hafter₂, hgood₂⟩ := ih.getlineTarget hafter₁.tidy htarget
  have hafter₃ := accept_ok hafter₂.tidy haccept
  split at h
  · simp only [bind_ok, pure_ok] at h
    obtain ⟨file, s₄, hfile, span, s₅, hspan, rfl, rfl⟩ := h
    obtain ⟨hafter₄, hgood₄⟩ := ih.level _ _ hafter₃.tidy hfile
    cases spanFrom_ok hspan
    have hlater := hafter₃.trans hafter₄
    exact ⟨hafter₁.trans (hafter₂.trans hlater), hgood₂.mono hlater.implies, hgood₄⟩
  · simp only [bind_ok, pure_ok] at h
    obtain ⟨span, s₄, hspan, rfl, rfl⟩ := h
    cases spanFrom_ok hspan
    exact ⟨hafter₁.trans (hafter₂.trans hafter₃), hgood₂.mono hafter₃.implies⟩

/-- Parentheses hold one expression, or the subscripts of an element that is looked for. -/
theorem gives_group (ih : ExprSpec n) {start : Token} :
    Gives s (do
      let _ ← advance
      let first ← level n .assignment false
      if (← kind) = .comma then
        let more ← moreItems n false
        let close ← expect .rpar "')'"
        if ← accept .in then
          let array ← expect .name "array name"
          return .member (← spanFrom start) (first :: more)
            (some { start.span with stop := close.span.stop }) array
        else
          failExpecting "'in'"
      else
        let _ ← expect .rpar "')'"
        return .group (← spanFrom start) first) GoodExpr := by
  intro e s' h
  simp only [bind_ok, kind_ok] at h
  obtain ⟨token, s₁, htoken, first, s₂, hfirst, k, s₃, ⟨rfl, rfl⟩, h⟩ := h
  have hafter₁ := (advance_ok htoken).2
  obtain ⟨hafter₂, hgood₂⟩ := ih.level _ _ hafter₁.tidy hfirst
  split at h
  · simp only [bind_ok] at h
    obtain ⟨more, s₄, hmore, close, s₅, hclose, b, s₆, haccept, h⟩ := h
    obtain ⟨hafter₄, hgood₄⟩ := ih.moreItems _ hafter₂.tidy hmore
    have hafter₅ := (expect_ok hclose).2.2
    have hafter₆ := hafter₅.trans (accept_ok hafter₅.tidy haccept)
    split at h
    · simp only [bind_ok, pure_ok] at h
      obtain ⟨array, s₇, harray, span, s₈, hspan, rfl, rfl⟩ := h
      have hlater := hafter₆.trans (expect_ok harray).2.2
      cases spanFrom_ok hspan
      exact ⟨hafter₁.trans (hafter₂.trans (hafter₄.trans hlater)), hgood₂.after (hafter₄.trans hlater),
        hgood₄.after hlater⟩
    · exact absurd h failExpecting_ok
  · simp only [bind_ok, pure_ok] at h
    obtain ⟨close, s₄, hclose, span, s₅, hspan, rfl, rfl⟩ := h
    have hafter₄ := (expect_ok hclose).2.2
    cases spanFrom_ok hspan
    exact ⟨hafter₁.trans (hafter₂.trans hafter₄), rfl, hgood₂.after hafter₄⟩

theorem gives_primary (ih : ExprSpec n) (ht : Tidy s) : Gives s (primary (n + 1)) GoodExpr := by
  intro e s' h
  simp only [primary, bind_ok, current_ok] at h
  obtain ⟨start, s₁, ⟨rfl, rfl⟩, h⟩ := h
  -- By the kind of the first token, in the order of the grammar.
  split at h
  · simp only [bind_ok, pure_ok] at h
    obtain ⟨token, s₂, htoken, rfl, rfl⟩ := h
    exact ⟨(advance_ok htoken).2, rfl⟩
  · simp only [bind_ok, pure_ok] at h
    obtain ⟨token, s₂, htoken, rfl, rfl⟩ := h
    exact ⟨(advance_ok htoken).2, rfl⟩
  · simp only [bind_ok, pure_ok] at h
    obtain ⟨token, s₂, htoken, rfl, rfl⟩ := h
    exact ⟨takeRegex_ok htoken, trivial⟩
  · simp only [bind_ok, pure_ok] at h
    obtain ⟨token, s₂, htoken, rfl, rfl⟩ := h
    exact ⟨takeRegex_ok htoken, trivial⟩
  · simp only [bind_ok, pure_ok] at h
    obtain ⟨target, s₂, htarget, rfl, rfl⟩ := h
    exact ih.field ht htarget
  · simp only [bind_ok, pure_ok] at h
    obtain ⟨target, s₂, htarget, rfl, rfl⟩ := h
    exact ih.name ht htarget
  · exact gives_call ih h
  · rename_i b hkind
    exact gives_builtin ih (Builtin.ofName?_of_kind ht hkind) h
  · exact gives_getline ih h
  · exact gives_group ih h
  · exact absurd h failExpecting_ok

/-! ### Whole expressions -/

theorem exprSpec (n : Nat) : ExprSpec n := by
  induction n with
  | zero =>
    constructor <;> intros <;> apply gives_tooDeep
  | succ n ih =>
    exact {
      level := fun lvl _ ht => gives_level ih ht lvl
      chain := fun lvl _ start ht hleft => gives_chain ih ht hleft lvl start
      signed := fun lvl _ ht => gives_signed ih ht lvl
      parts := fun _ ht => gives_parts ih ht
      pipes := fun start ht hcommand => gives_pipes ih ht hcommand start
      lvalue := fun ht => gives_lvalue ih ht
      field := fun _ => gives_field ih
      name := fun _ => gives_name ih
      subscripts := fun ht => gives_subscripts ih ht
      moreItems := fun _ ht => gives_moreItems ih ht
      arguments := fun ht => gives_arguments ih ht
      getlineTarget := fun ht => gives_getlineTarget ih ht
      primary := fun ht => gives_primary ih ht }

theorem gives_expr (fuel : Nat) (ht : Tidy s) : Gives s (expr fuel inPrint) GoodExpr := (exprSpec fuel).level _ _ ht

end Awk.Parser
