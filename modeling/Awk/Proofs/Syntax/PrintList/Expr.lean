import Awk.Proofs.Syntax.PrintContext
import Awk.Proofs.Syntax.PrintList.Retracing

/-!
# Expressions in front of another token

What is read as an expression of a print statement up to the end of a list is read in front of a closing parenthesis as
well (`exprRetraces`).  Outside print statements this holds of what is enclosed: of an expression that has tokens behind
it which are the same in both texts.
-/

namespace Awk.Parser

variable {P : Passage} {strict : Prop} {n m : Nat} {p : Bool} {s s₁ t : ParserState} {e e' : Expr} {es : List Expr}
  {target : LValue}

theorem exists_like_of_asLValue? (h : e.Like e') (htarget : e.asLValue? = some target) :
    ∃ target', e'.asLValue? = some target' ∧ target.Like target' := by
  have hmap : e'.asLValue?.map (LValue.placed nowhere) = e.asLValue?.map (LValue.placed nowhere) := by
    rw [← asLValue?_placed, ← asLValue?_placed, h]
  rw [htarget, Option.map_some, Option.map_eq_some_iff] at hmap
  exact hmap

/-- What the functions of the grammar give with a fuel in the first text they give with another one in the second text,
its places left aside. -/
structure ExprRetraces (P : Passage) (n m : Nat) : Prop where
  level : ∀ {strict lvl p s e t}, Sheltered lvl p ∨ strict → (level n lvl p).run s = .ok (e, t) →
    Retraces P strict False s t (level m lvl p) e.Like
  chain : ∀ {strict lvl p start start' left left' s e t}, p = true ∨ strict → left.Like left' →
    (chain n lvl p start left).run s = .ok (e, t) → Retraces P strict False s t (chain m lvl p start' left') e.Like
  signed : ∀ {strict lvl p s e t}, Sheltered lvl p ∨ strict → (signed n lvl p).run s = .ok (e, t) →
    Retraces P strict False s t (signed m lvl p) e.Like
  parts : ∀ {strict p s es t}, p = true ∨ strict → (parts n p).run s = .ok (es, t) →
    Retraces P strict False s t (parts m p) (LikeAll es)
  pipes : ∀ {strict start start' command command' s e t}, strict → command.Like command' →
    (pipes n start command).run s = .ok (e, t) → Retraces P strict False s t (pipes m start' command') e.Like
  lvalue : ∀ {strict s target t}, (lvalue n).run s = .ok (target, t) →
    Retraces P strict False s t (lvalue m) target.Like
  field : ∀ {strict s target t}, s.current.kind = .dollar → (field n).run s = .ok (target, t) →
    Retraces P strict False s t (field m) target.Like
  name : ∀ {strict s target t}, (name n).run s = .ok (target, t) → Retraces P strict False s t (name m) target.Like
  subscripts : ∀ {strict s subs t}, (subscripts n).run s = .ok (subs, t) →
    Retraces P strict False s t (subscripts m) subs.Like
  moreItems : ∀ {strict p s es t}, p = true ∨ strict → (moreItems n p).run s = .ok (es, t) →
    Retraces P strict False s t (moreItems m p) (LikeAll es)
  arguments : ∀ {strict s es t}, (arguments n).run s = .ok (es, t) →
    Retraces P strict False s t (arguments m) (LikeAll es)
  getlineTarget : ∀ {strict s target t}, (getlineTarget n).run s = .ok (target, t) →
    Retraces P strict False s t (getlineTarget m) (LikeTarget target)
  primary : ∀ {strict s e t}, (primary n).run s = .ok (e, t) → Retraces P strict False s t (primary m) e.Like

theorem retraces_assignment (ih : ExprRetraces P n m) (hin : p = true ∨ strict)
    (h : (level (n + 1) .assignment p).run s = .ok (e, t)) :
    Retraces P strict False s t (level (m + 1) .assignment p) e.Like := by
  simp only [level, bind_ok, current_ok, kind_ok] at h ⊢
  obtain ⟨_, s, ⟨rfl, rfl⟩, left, _, hleft, _, s₁, ⟨rfl, rfl⟩, h⟩ := h
  refine .current fun _ _ => .bind (ih.level (hin.imp_left .inl) hleft) fun left' hlike => .kind fun k hk _ => ?_
  rw [hk.apply AssignOp.ofKind? (by decide)]
  split at h
  · rename_i op target hop htarget
    obtain ⟨target', htarget', hlike'⟩ := exists_like_of_asLValue? hlike htarget
    simp only [bind_ok, advance_iff, pure_ok, spanFrom_iff] at h
    obtain ⟨_, s₂, ⟨rfl, htake⟩, _, s₃, hskip, right, s₄, hright, _, _, ⟨rfl, rfl⟩, rfl, rfl⟩ := h
    rw [hop, htarget']
    refine .advance htake (ne_eof_of_some hop rfl) fun token htoken => ?_
    refine .skipNewlines hskip ?_
    refine .bind (ih.level (hin.imp_left .inl) hright) fun right' hright' => .spanFrom _ fun _ => .pure ?_
    simp [Expr.Like, Expr.placed, hlike', htoken, hright', nowhere]
  · rename_i hnone
    obtain ⟨rfl, rfl⟩ := pure_ok.1 h
    split
    · rename_i op target hop htarget
      obtain ⟨target', htarget', -⟩ := exists_like_of_asLValue? hlike.symm htarget
      exact absurd htarget' (hnone op target' hop)
    · exact .pure hlike

theorem retraces_conditional (ih : ExprRetraces P n m) (hin : p = true ∨ strict)
    (h : (level (n + 1) .conditional p).run s = .ok (e, t)) :
    Retraces P strict False s t (level (m + 1) .conditional p) e.Like := by
  simp only [level, bind_ok (x := current), current_ok] at h ⊢
  obtain ⟨_, s, ⟨rfl, rfl⟩, h⟩ := h
  obtain ⟨test, s₁, htest, h⟩ := bind_ok.1 h
  refine .current fun _ _ => .bind (ih.level (hin.imp_left .inl) htest) fun test' htest' => ?_
  rcases accept_split h with ⟨s₂, hmark, htake, h⟩ | ⟨hmark, h⟩
  · simp only [bind_ok, expect_iff, pure_ok, spanFrom_iff] at h
    obtain ⟨_, s₃, hskip, yes, s₄, hyes, _, s₅, hskip', _, s₆, ⟨-, hcolon, htake'⟩, _, s₇, hskip'', no, s₈, hno, _, _,
      ⟨rfl, rfl⟩, rfl, rfl⟩ := h
    refine .accept hmark htake (by decide) (.skipNewlines hskip ?_)
    refine .bind (ih.level (hin.imp_left .inl) hyes) fun yes' hyes' => ?_
    refine .skipNewlines hskip' ?_
    refine .expect hcolon htake' (by decide) fun _ _ => ?_
    refine .skipNewlines hskip'' ?_
    refine .bind (ih.level (hin.imp_left .inl) hno) fun no' hno' => .spanFrom _ fun _ => .pure ?_
    simp [Expr.Like, Expr.placed, htest', hyes', hno', nowhere]
  · obtain ⟨rfl, rfl⟩ := pure_ok.1 h
    exact .acceptNot hmark (.inl (by decide)) (.pure htest')

/-- Outside print statements pipes may follow an operand. -/
theorem retraces_operand {α : Type} (ih : ExprRetraces P n m) (hin : p = true ∨ strict) {start start' : Token}
    {left left' : Expr} {next next' : Expr → Parser α} {a : α} {Q : α → Prop} (hleft : left.Like left')
    (h : (if p then pure left >>= next else pipes n start left >>= next).run s = .ok (a, t))
    (hnext : ∀ {e e' s₁}, (next e).run s₁ = .ok (a, t) → e.Like e' → Retraces P strict False s₁ t (next' e') Q) :
    Retraces P strict False s t
      (if p then pure left' >>= next' else pipes m start' left' >>= next') Q := by
  cases p with
  | true =>
    simp only [if_true, pure_bind] at h ⊢
    exact hnext h hleft
  | false =>
    rw [if_neg Bool.false_ne_true] at h ⊢
    obtain ⟨e, s₁, hpipes, h⟩ := bind_ok.1 h
    exact .bind (ih.pipes (hin.resolve_left Bool.false_ne_true) hleft hpipes) fun e' he' => hnext h he'

theorem endsItems_of_compare {k : TokenKind} {op : CompareOp} (h : CompareOp.ofKind? k = some op) (hop : op ≠ .gt) :
    endsItems k = false := by
  unfold CompareOp.ofKind? at h
  split at h
  case h_7 => cases h
  case h_5 =>
    cases h
    exact absurd rfl hop
  all_goals rfl

/-- In a print statement a comparison ends before `>`, and in front of a closing parenthesis as well. -/
theorem retraces_comparison (ih : ExprRetraces P n m) (hin : p = true ∨ strict)
    (h : (level (n + 1) .comparison p).run s = .ok (e, t)) :
    Retraces P strict False s t (level (m + 1) .comparison p) e.Like := by
  simp only [level, bind_ok (x := current), current_ok] at h ⊢
  obtain ⟨_, s, ⟨rfl, rfl⟩, h⟩ := h
  obtain ⟨first, s₁, hfirst, h⟩ := bind_ok.1 h
  refine .current fun _ _ => .bind (ih.level (hin.imp_left .inl) hfirst) fun first' hfirst' => ?_
  refine retraces_operand ih hin hfirst' h fun {left left' s₂} h hleft => ?_
  simp only [bind_ok (x := kind), kind_ok] at h
  obtain ⟨_, s₂, ⟨rfl, rfl⟩, h⟩ := h
  refine .kind fun k hk hsame => ?_
  split at h
  · rename_i op hop
    split at h
    · rename_i hprint
      obtain ⟨rfl, rfl⟩ := pure_ok.1 h
      rcases hk with rfl | ⟨-, rfl⟩
      · rw [hop]
        simp only [hprint, if_true]
        exact .pure hleft
      · exact .pure hleft
    · rename_i hprint
      have hk' : k = s₂.current.kind := by
        rcases hin with rfl | hstrict
        · exact hk.eq (endsItems_of_compare hop (by simpa using hprint))
        · exact hsame (.inl hstrict)
      subst hk'
      obtain ⟨_, s₃, htoken, h⟩ := bind_ok.1 h
      obtain ⟨rfl, htake⟩ := advance_iff.1 htoken
      obtain ⟨second, s₄, hsecond, h⟩ := bind_ok.1 h
      rw [hop]
      simp only [hprint, Bool.false_eq_true, if_false]
      refine .advance htake (ne_eof_of_some hop rfl) fun token htoken => ?_
      refine .bind (ih.level (hin.imp_left .inl) hsecond) fun second' hsecond' => ?_
      refine retraces_operand ih hin hsecond' h fun {right right' s₅} h hright => ?_
      simp only [bind_ok, spanFrom_iff, pure_ok] at h
      obtain ⟨_, s₅, ⟨rfl, rfl⟩, rfl, rfl⟩ := h
      refine .spanFrom _ fun _ => .pure ?_
      simp [Expr.Like, Expr.placed, hleft, htoken, hright, nowhere]
  · rename_i hop
    obtain ⟨rfl, rfl⟩ := pure_ok.1 h
    have hop' : CompareOp.ofKind? k = none := by
      rcases hk with rfl | ⟨-, rfl⟩
      · exact hop
      · rfl
    rw [hop']
    exact .pure hleft

theorem retraces_concatenation (ih : ExprRetraces P n m) (hin : p = true ∨ strict)
    (h : (level (n + 1) .concatenation p).run s = .ok (e, t)) :
    Retraces P strict False s t (level (m + 1) .concatenation p) e.Like := by
  simp only [level, bind_ok, current_ok] at h ⊢
  obtain ⟨_, s, ⟨rfl, rfl⟩, first, s₁, hfirst, more, s₂, hmore, h⟩ := h
  refine .current fun _ _ => .bind (ih.level (hin.imp_left .inl) hfirst) fun first' hfirst' => ?_
  refine .bind (ih.parts hin hmore) fun more' hmore' => ?_
  cases more with
  | nil =>
    obtain ⟨rfl, rfl⟩ := pure_ok.1 h
    obtain rfl : more' = [] := by
      cases more' with
      | nil => rfl
      | cons => cases hmore'
    exact .pure hfirst'
  | cons part more =>
    obtain ⟨part', more', rfl⟩ : ∃ part' more'', more' = part' :: more'' := by
      cases more' with
      | nil => cases hmore'
      | cons part' more' => exact ⟨part', more', rfl⟩
    simp only [bind_ok, spanFrom_iff, pure_ok] at h
    obtain ⟨_, _, ⟨rfl, rfl⟩, rfl, rfl⟩ := h
    refine .spanFrom _ fun _ => .pure ?_
    rw [Expr.Like, Expr.placed, Expr.placed, hfirst'.cons hmore']
    rfl

theorem retraces_power (ih : ExprRetraces P n m) (hin : p = true ∨ strict)
    (h : (level (n + 1) .power p).run s = .ok (e, t)) :
    Retraces P strict False s t (level (m + 1) .power p) e.Like := by
  simp only [level, bind_ok (x := current), current_ok] at h ⊢
  obtain ⟨_, s, ⟨rfl, rfl⟩, h⟩ := h
  obtain ⟨base, s₁, hbase, h⟩ := bind_ok.1 h
  refine .current fun _ _ => .bind (ih.level (hin.imp_left .inl) hbase) fun base' hbase' => ?_
  rcases accept_split h with ⟨s₂, hkind, htake, h⟩ | ⟨hkind, h⟩
  · simp only [bind_ok, spanFrom_iff, pure_ok] at h
    obtain ⟨exponent, s₃, hexponent, _, _, ⟨rfl, rfl⟩, rfl, rfl⟩ := h
    refine .accept hkind htake (by decide) ?_
    refine .bind (ih.signed (hin.imp_left .inl) hexponent) fun exponent' hexponent' => .spanFrom _ fun _ => .pure ?_
    simp [Expr.Like, Expr.placed, hbase', hexponent', nowhere]
  · obtain ⟨rfl, rfl⟩ := pure_ok.1 h
    exact .acceptNot hkind (.inl (by decide)) (.pure hbase')

theorem retraces_step (ih : ExprRetraces P n m) (h : (level (n + 1) .step p).run s = .ok (e, t)) :
    Retraces P strict False s t (level (m + 1) .step p) e.Like := by
  simp only [level, bind_ok (x := current), current_ok] at h ⊢
  obtain ⟨_, s, ⟨rfl, rfl⟩, h⟩ := h
  refine .current fun start' hstart => ?_
  rw [hstart.apply StepOp.ofKind? (by decide)]
  split at h
  · rename_i op hop
    simp only [bind_ok, advance_iff, spanFrom_iff, pure_ok] at h
    obtain ⟨_, s₁, ⟨rfl, htake⟩, target, s₂, htarget, _, _, ⟨rfl, rfl⟩, rfl, rfl⟩ := h
    refine .advance htake (ne_eof_of_some hop rfl) fun token htoken => ?_
    refine .bind (ih.lvalue htarget) fun target' htarget' => .spanFrom _ fun _ => .pure ?_
    simp [Expr.Like, Expr.placed, htoken, htarget', nowhere]
  · rename_i hop
    simp only [bind_ok, kind_ok] at h
    obtain ⟨operand, _, hoperand, _, s₁, ⟨rfl, rfl⟩, h⟩ := h
    refine .bind (ih.level (.inl (.inr (by decide))) hoperand) fun operand' hlike => .kind fun k hk _ => ?_
    rw [hk.apply StepOp.ofKind? (by decide)]
    split at h
    · rename_i target op htarget hop
      obtain ⟨target', htarget', hlike'⟩ := exists_like_of_asLValue? hlike htarget
      simp only [bind_ok, advance_iff, spanFrom_iff, pure_ok] at h
      obtain ⟨_, s₂, ⟨rfl, htake⟩, _, _, ⟨rfl, rfl⟩, rfl, rfl⟩ := h
      rw [htarget', hop]
      refine .advance htake (ne_eof_of_some hop rfl) fun token htoken => .spanFrom _ fun _ => .pure ?_
      simp [Expr.Like, Expr.placed, hlike', htoken, nowhere]
    · rename_i hnone
      obtain ⟨rfl, rfl⟩ := pure_ok.1 h
      split
      · rename_i target op htarget hop
        obtain ⟨target', htarget', -⟩ := exists_like_of_asLValue? hlike.symm htarget
        exact absurd hop (hnone target' op htarget')
      · exact .pure hlike

theorem retraces_start (ih : ExprRetraces P n m) (hin : p = true ∨ strict) {lvl : Level}
    (h : (do
      let start ← current
      let left ← level n lvl.tighter p
      chain n lvl p start left : Parser Expr).run s = .ok (e, t)) :
    Retraces P strict False s t
      (do
        let start ← current
        let left ← level m lvl.tighter p
        chain m lvl p start left) e.Like := by
  simp only [bind_ok, current_ok] at h
  obtain ⟨_, s, ⟨rfl, rfl⟩, left, s₁, hleft, h⟩ := h
  exact .current fun _ _ => .bind (ih.level (hin.imp_left .inl) hleft) fun left' hlike => ih.chain hin hlike h

theorem retraces_level (ih : ExprRetraces P n m) {lvl : Level} (hin : Sheltered lvl p ∨ strict)
    (h : (level (n + 1) lvl p).run s = .ok (e, t)) :
    Retraces P strict False s t (level (m + 1) lvl p) e.Like := by
  cases lvl with
  | assignment => exact retraces_assignment ih (hin.imp_left (·.resolve_right (by decide))) h
  | conditional => exact retraces_conditional ih (hin.imp_left (·.resolve_right (by decide))) h
  | comparison => exact retraces_comparison ih (hin.imp_left (·.resolve_right (by decide))) h
  | concatenation => exact retraces_concatenation ih (hin.imp_left (·.resolve_right (by decide))) h
  | sign => exact ih.signed (hin.imp_left fun hin => .inl (hin.resolve_right (by decide))) h
  | power => exact retraces_power ih (hin.imp_left (·.resolve_right (by decide))) h
  | step => exact retraces_step ih h
  | primary => exact ih.primary h
  | _ => exact retraces_start ih (hin.imp_left (·.resolve_right (by decide))) h

/-- The right operand is read, and the chain goes on with what the two operands make. -/
theorem retraces_round (ih : ExprRetraces P n m) (hin : p = true ∨ strict) {lvl tighter : Level} {start start' : Token}
    {node node' : Span → Expr → Expr}
    (hnode : ∀ {span span' right right'}, right.Like right' → (node span right).Like (node' span' right'))
    (h : (do
      let right ← level n tighter p
      chain n lvl p start (node (← spanFrom start) right) : Parser Expr).run s = .ok (e, t)) :
    Retraces P strict False s t
      (do
        let right ← level m tighter p
        chain m lvl p start' (node' (← spanFrom start') right)) e.Like := by
  simp only [bind_ok, spanFrom_iff] at h
  obtain ⟨right, _, hright, _, s₄, ⟨rfl, rfl⟩, h⟩ := h
  refine .bind (ih.level (hin.imp_left .inl) hright) fun right' hright' => .spanFrom _ fun _ => ?_
  exact ih.chain hin (hnode hright') h

/-- An operator whose token is kept. -/
theorem retraces_operator (ih : ExprRetraces P n m) (hin : p = true ∨ strict) {lvl tighter : Level}
    {start start' : Token} (node node' : Token → Span → Expr → Expr)
    (hnode : ∀ {token token' span span' right right'}, token.Like token' → right.Like right' →
      (node token span right).Like (node' token' span' right')) (hend : s.current.kind ≠ .eof)
    (h : (do
      let token ← advance
      let right ← level n tighter p
      chain n lvl p start (node token (← spanFrom start) right) : Parser Expr).run s = .ok (e, t)) :
    Retraces P strict False s t
      (do
        let token ← advance
        let right ← level m tighter p
        chain m lvl p start' (node' token (← spanFrom start') right)) e.Like := by
  obtain ⟨_, s₂, htoken, h⟩ := bind_ok.1 h
  obtain ⟨rfl, htake⟩ := advance_iff.1 htoken
  exact .advance htake hend fun token hlike => retraces_round ih hin (hnode hlike) h

theorem retraces_logical (ih : ExprRetraces P n m) (hin : p = true ∨ strict) {lvl tighter : Level}
    {start start' : Token} {left left' : Expr} (hleft : left.Like left') {op : LogicalOp} (hend : s.current.kind ≠ .eof)
    (h : (do
      let _ ← advance
      skipNewlines
      let right ← level n tighter p
      chain n lvl p start (.logical (← spanFrom start) op left right) : Parser Expr).run s = .ok (e, t)) :
    Retraces P strict False s t
      (do
        let _ ← advance
        skipNewlines
        let right ← level m tighter p
        chain m lvl p start' (.logical (← spanFrom start') op left' right)) e.Like := by
  obtain ⟨_, s₂, htoken, h⟩ := bind_ok.1 h
  obtain ⟨rfl, htake⟩ := advance_iff.1 htoken
  obtain ⟨_, s₃, hskip, h⟩ := bind_ok.1 h
  refine .advance htake hend fun _ _ => .skipNewlines hskip ?_
  exact retraces_round ih hin (fun hright => by simp [Expr.Like, Expr.placed, hleft, hright, nowhere]) h

theorem retraces_matching (ih : ExprRetraces P n m) (hin : p = true ∨ strict) {lvl tighter : Level}
    {start start' : Token} {left left' : Expr} (hleft : left.Like left') (negated : Bool) (hend : s.current.kind ≠ .eof)
    (h : (do
      let token ← advance
      let right ← level n tighter p
      chain n lvl p start (.matching (← spanFrom start) left negated token right) : Parser Expr).run s = .ok (e, t)) :
    Retraces P strict False s t
      (do
        let token ← advance
        let right ← level m tighter p
        chain m lvl p start' (.matching (← spanFrom start') left' negated token right)) e.Like := by
  refine retraces_operator ih hin (fun token span right => .matching span left negated token right)
    (fun token span right => .matching span left' negated token right) (fun htoken hright => ?_) hend h
  simp [Expr.Like, Expr.placed, hleft, htoken, hright, nowhere]

/-- Sums and products. -/
theorem retraces_arith (ih : ExprRetraces P n m) (hin : p = true ∨ strict) {lvl tighter : Level} {start start' : Token}
    {left left' : Expr} (hleft : left.Like left') (op? : TokenKind → Option ArithOp) (hend : op? .eof = none)
    (h : (match op? s.current.kind with
      | some op => do
        let token ← advance
        let right ← level n tighter p
        chain n lvl p start (.arith (← spanFrom start) left op token right)
      | none => return left : Parser Expr).run s = .ok (e, t)) :
    Retraces P strict False s t
      (match op? s.current.kind with
        | some op => do
          let token ← advance
          let right ← level m tighter p
          chain m lvl p start' (.arith (← spanFrom start') left' op token right)
        | none => return left') e.Like := by
  cases hop : op? s.current.kind with
  | none =>
    rw [hop] at h
    obtain ⟨rfl, rfl⟩ := pure_ok.1 h
    exact .pure hleft
  | some op =>
    rw [hop] at h
    refine retraces_operator ih hin (fun token span right => .arith span left op token right)
      (fun token span right => .arith span left' op token right) (fun htoken hright => ?_)
      (ne_eof_of_some hop hend) h
    simp [Expr.Like, Expr.placed, hleft, htoken, hright, nowhere]

theorem retraces_chain (ih : ExprRetraces P n m) (hin : p = true ∨ strict) {lvl : Level} {start start' : Token}
    {left left' : Expr} (hleft : left.Like left') (h : (chain (n + 1) lvl p start left).run s = .ok (e, t)) :
    Retraces P strict False s t (chain (m + 1) lvl p start' left') e.Like := by
  simp only [chain, bind_ok (x := kind), kind_ok] at h ⊢
  obtain ⟨_, s, ⟨rfl, rfl⟩, h⟩ := h
  refine .kind fun k hk _ => ?_
  -- By level, and by the operator that goes on with it; without one the chain ends.
  split at h
  · rename_i hkind
    obtain rfl := hk.eq_of hkind rfl
    exact retraces_logical ih hin hleft (by rw [hkind]; decide) h
  · rename_i hkind
    obtain rfl := hk.eq_of hkind rfl
    exact retraces_logical ih hin hleft (by rw [hkind]; decide) h
  · rename_i hkind
    obtain rfl := hk.eq_of hkind rfl
    simp only [bind_ok, advance_iff, expect_iff, spanFrom_iff] at h
    obtain ⟨_, s₂, ⟨-, htake⟩, _, s₃, ⟨rfl, hname, htake'⟩, _, _, ⟨rfl, rfl⟩, h⟩ := h
    refine .advance htake (by rw [hkind]; decide) fun _ _ => .expect hname htake' (by decide) fun array harray => ?_
    refine .spanFrom _ fun _ => ih.chain hin ?_ h
    simp [Expr.Like, Expr.placed, placedAll, hleft, harray, nowhere]
  · rename_i hkind
    obtain rfl := hk.eq_of hkind rfl
    exact retraces_matching ih hin hleft false (by rw [hkind]; decide) h
  · rename_i hkind
    obtain rfl := hk.eq_of hkind rfl
    exact retraces_matching ih hin hleft true (by rw [hkind]; decide) h
  · simp only [hk.apply ArithOp.sum? (by decide)]
    exact retraces_arith ih hin hleft ArithOp.sum? rfl h
  · simp only [hk.apply ArithOp.product? (by decide)]
    exact retraces_arith ih hin hleft ArithOp.product? rfl h
  · rename_i lvl _ _ hsum hproduct hor hand hmember hmatch hnoMatch
    obtain ⟨rfl, rfl⟩ := pure_ok.1 h
    rcases hk with rfl | ⟨-, rfl⟩
    · split
      · rename_i hkind
        exact absurd hkind (hor rfl)
      · rename_i hkind
        exact absurd hkind (hand rfl)
      · rename_i hkind
        exact absurd hkind (hmember rfl)
      · rename_i hkind
        exact absurd hkind (hmatch rfl)
      · rename_i hkind
        exact absurd hkind (hnoMatch rfl)
      · exact absurd rfl hsum
      · exact absurd rfl hproduct
      · exact .pure hleft
    · cases lvl <;> exact .pure hleft

theorem retraces_signed (ih : ExprRetraces P n m) {lvl : Level} (hin : Sheltered lvl p ∨ strict)
    (h : (signed (n + 1) lvl p).run s = .ok (e, t)) :
    Retraces P strict False s t (signed (m + 1) lvl p) e.Like := by
  simp only [signed, bind_ok (x := current), current_ok] at h ⊢
  obtain ⟨_, s, ⟨rfl, rfl⟩, h⟩ := h
  refine .current fun start' hstart => ?_
  rw [hstart.apply SignOp.ofKind? (by decide)]
  split at h
  · rename_i op hop
    simp only [bind_ok, advance_iff, spanFrom_iff, pure_ok] at h
    obtain ⟨_, s₁, ⟨rfl, htake⟩, operand, s₂, hoperand, _, _, ⟨rfl, rfl⟩, rfl, rfl⟩ := h
    refine .advance htake (ne_eof_of_some hop rfl) fun token htoken => ?_
    refine .bind (ih.signed hin hoperand) fun operand' hoperand' => .spanFrom _ fun _ => .pure ?_
    simp [Expr.Like, Expr.placed, htoken, hoperand', nowhere]
  · exact ih.level hin h

theorem retraces_parts (ih : ExprRetraces P n m) (hin : p = true ∨ strict)
    (h : (parts (n + 1) p).run s = .ok (es, t)) : Retraces P strict False s t (parts (m + 1) p) (LikeAll es) := by
  simp only [parts, bind_ok (x := kind), kind_ok] at h ⊢
  obtain ⟨_, s, ⟨rfl, rfl⟩, h⟩ := h
  refine .kind fun k hk _ => ?_
  rw [hk.apply startsPart (by decide)]
  split at h
  · rename_i hstart
    simp only [bind_ok, pure_ok] at h
    obtain ⟨part, s₁, hpart, more, s₂, hmore, rfl, rfl⟩ := h
    rw [if_pos hstart]
    refine .bind (ih.level (hin.imp_left .inl) hpart) fun part' hpart' => ?_
    exact .bind (ih.parts hin hmore) fun more' hmore' => .pure (hpart'.cons hmore')
  · rename_i hstart
    obtain ⟨rfl, rfl⟩ := pure_ok.1 h
    rw [if_neg hstart]
    exact .pure rfl

theorem retraces_pipes (ih : ExprRetraces P n m) (hstrict : strict) {start start' : Token} {command command' : Expr}
    (hcommand : command.Like command') (h : (pipes (n + 1) start command).run s = .ok (e, t)) :
    Retraces P strict False s t (pipes (m + 1) start' command') e.Like := by
  simp only [pipes, bind_ok (x := kind), kind_ok] at h ⊢
  obtain ⟨_, s, ⟨rfl, rfl⟩, h⟩ := h
  refine .kind fun k _ hsame => ?_
  rw [hsame (.inl hstrict)]
  split at h
  · rename_i hpipe
    obtain ⟨k, s₁, hnext, hrest⟩ := bind_ok.1 h
    rw [if_pos hpipe]
    refine .nextKind hpipe hnext (.inl hstrict) fun k' hk' => ?_
    obtain ⟨rfl, hk⟩ := nextKind_next hnext
    split at hrest
    · rename_i hgetline
      subst hgetline
      simp only [bind_ok, advance_iff, spanFrom_iff] at hrest
      obtain ⟨_, s₂, ⟨-, htake⟩, _, s₃, ⟨-, htake'⟩, target, _, htarget, _, s₄, ⟨rfl, rfl⟩, h⟩ := hrest
      rw [if_pos (hk'.eq rfl)]
      refine .advance htake (by rw [hpipe]; decide) fun _ _ => .advance htake' (by rw [hk htake]; decide) fun _ _ => ?_
      refine .bind (ih.getlineTarget htarget) fun target' htarget' => .spanFrom _ fun _ => ih.pipes hstrict ?_ h
      simp [Expr.Like, Expr.placed, hcommand, htarget', nowhere]
    · rename_i hgetline
      obtain ⟨rfl, rfl⟩ := pure_ok.1 hrest
      rw [if_neg (hk'.ne hgetline (by decide))]
      exact .pure hcommand
  · rename_i hpipe
    obtain ⟨rfl, rfl⟩ := pure_ok.1 h
    rw [if_neg hpipe]
    exact .pure hcommand

theorem retraces_lvalue (ih : ExprRetraces P n m) (h : (lvalue (n + 1)).run s = .ok (target, t)) :
    Retraces P strict False s t (lvalue (m + 1)) target.Like := by
  simp only [lvalue, bind_ok (x := kind), kind_ok] at h ⊢
  obtain ⟨_, s, ⟨rfl, rfl⟩, h⟩ := h
  refine .kind fun k hk _ => ?_
  split at h
  · rename_i hkind
    obtain rfl := hk.eq_of hkind rfl
    exact ih.field hkind h
  · rename_i hkind
    obtain rfl := hk.eq_of hkind rfl
    exact ih.name h
  · exact absurd h failExpecting_ok

theorem retraces_field (ih : ExprRetraces P n m) (hkind : s.current.kind = .dollar)
    (h : (field (n + 1)).run s = .ok (target, t)) : Retraces P strict False s t (field (m + 1)) target.Like := by
  simp only [field, bind_ok (x := advance), bind_ok (x := current), advance_iff, current_ok] at h ⊢
  obtain ⟨start, _, ⟨hstart, htake⟩, _, s₁, ⟨rfl, rfl⟩, h⟩ := h
  subst hstart
  refine .advance htake (by rw [hkind]; decide) fun _ _ => .current fun first' hfirst => ?_
  rw [hfirst.apply StepOp.ofKind? (by decide)]
  split at h
  · rename_i op hop
    simp only [bind_ok, advance_iff, spanFrom_iff, pure_ok] at h
    obtain ⟨_, s₂, ⟨rfl, htake'⟩, target, s₃, htarget, _, _, ⟨rfl, rfl⟩, _, _, ⟨rfl, rfl⟩, rfl, rfl⟩ := h
    refine .advance htake' (ne_eof_of_some hop rfl) fun token htoken => ?_
    refine .bind (ih.lvalue htarget) fun target' htarget' => .spanFrom _ fun _ => .spanFrom _ fun _ => .pure ?_
    simp [LValue.Like, LValue.placed, Expr.placed, htoken, htarget', nowhere]
  · simp only [bind_ok, spanFrom_iff, pure_ok] at h
    obtain ⟨index, s₂, hindex, _, _, ⟨rfl, rfl⟩, rfl, rfl⟩ := h
    refine .bind (ih.signed (.inl (.inr (by decide))) hindex) fun index' hindex' => .spanFrom _ fun _ => .pure ?_
    simp [LValue.Like, LValue.placed, hindex', nowhere]

theorem retraces_name (ih : ExprRetraces P n m) (h : (name (n + 1)).run s = .ok (target, t)) :
    Retraces P strict False s t (name (m + 1)) target.Like := by
  simp only [name] at h ⊢
  obtain ⟨_, s₁, htoken, h⟩ := bind_ok.1 h
  obtain ⟨rfl, hkind, htake⟩ := expect_iff.1 htoken
  refine .expect hkind htake (by decide) fun token hlike => ?_
  rcases accept_split h with ⟨s₂, hopen, htake', h⟩ | ⟨hopen, h⟩
  · simp only [bind_ok, spanFrom_iff, pure_ok] at h
    obtain ⟨subs, s₃, hsubs, _, _, ⟨rfl, rfl⟩, rfl, rfl⟩ := h
    refine .accept hopen htake' (by decide) ?_
    refine .bind (ih.subscripts hsubs) fun subs' hsubs' => .spanFrom _ fun _ => .pure ?_
    rw [Subscripts.Like, Subscripts.placed, Subscripts.placed, Subscripts.mk.injEq] at hsubs'
    simp [LValue.Like, LValue.placed, hlike, hsubs'.2, nowhere]
  · obtain ⟨rfl, rfl⟩ := pure_ok.1 h
    refine .acceptNot hopen (.inl (by decide)) (.pure ?_)
    simp [LValue.Like, LValue.placed, hlike]

theorem retraces_subscripts (ih : ExprRetraces P n m) {subs : Subscripts}
    (h : (subscripts (n + 1)).run s = .ok (subs, t)) : Retraces P strict False s t (subscripts (m + 1)) subs.Like := by
  simp only [subscripts, bind_ok, current_ok, expect_iff, spanFrom_iff, pure_ok] at h ⊢
  obtain ⟨_, s, ⟨rfl, rfl⟩, first, s₁, hfirst, more, s₂, hmore, _, s₃, ⟨-, hclose, htake⟩, _, _, ⟨rfl, rfl⟩, rfl,
    rfl⟩ := h
  refine .current fun _ _ => .enclosed (ih.level (.inr trivial) hfirst) fun first' hfirst' => ?_
  refine .enclosed (ih.moreItems (.inr trivial) hmore) fun more' hmore' => ?_
  refine .expect hclose htake (by decide) fun _ _ => .spanFrom _ fun _ => .pure ?_
  rw [Subscripts.Like, Subscripts.placed, Subscripts.placed, hfirst'.cons hmore']
  rfl

theorem retraces_moreItems (ih : ExprRetraces P n m) (hin : p = true ∨ strict)
    (h : (moreItems (n + 1) p).run s = .ok (es, t)) :
    Retraces P strict False s t (moreItems (m + 1) p) (LikeAll es) := by
  simp only [moreItems] at h ⊢
  rcases accept_split h with ⟨s₁, hcomma, htake, h⟩ | ⟨hcomma, h⟩
  · simp only [bind_ok, pure_ok] at h
    obtain ⟨_, s₂, hskip, e, s₃, he, more, s₄, hmore, rfl, rfl⟩ := h
    refine .accept hcomma htake (by decide) (.skipNewlines hskip ?_)
    refine .bind (ih.level (hin.imp_left .inl) he) fun e' he' => ?_
    exact .bind (ih.moreItems hin hmore) fun more' hmore' => .pure (he'.cons hmore')
  · obtain ⟨rfl, rfl⟩ := pure_ok.1 h
    exact .acceptNot hcomma (.inl (by decide)) (.pure rfl)

theorem retraces_arguments (ih : ExprRetraces P n m) (h : (arguments (n + 1)).run s = .ok (es, t)) :
    Retraces P strict False s t (arguments (m + 1)) (LikeAll es) := by
  simp only [arguments] at h ⊢
  obtain ⟨_, s₁, hskip, h⟩ := bind_ok.1 h
  refine .skipNewlines hskip ?_
  rcases accept_split h with ⟨s₂, hclose, htake, h⟩ | ⟨hclose, h⟩
  · obtain ⟨rfl, rfl⟩ := pure_ok.1 h
    exact .accept hclose htake (by decide) (.pure rfl)
  · simp only [bind_ok, expect_iff, pure_ok] at h
    obtain ⟨first, s₂, hfirst, more, s₃, hmore, _, s₄, hskip', _, s₅, ⟨-, hclose', htake⟩, rfl, rfl⟩ := h
    have htail {first' : Expr} (hfirst' : first.Like first') : Retraces P strict True s₂ t
        (do
          let more ← moreItems m false
          skipNewlines
          let _ ← Parser.expect .rpar "')'"
          return first' :: more) (LikeAll (first :: more)) :=
      .enclosed (ih.moreItems (.inr trivial) hmore) fun more' hmore' => .skipNewlines hskip' <|
        .expect hclose' htake (by decide) fun _ _ => .pure (hfirst'.cons hmore')
    have hall : Retraces P strict True s₁ t
        (do
          if ← accept .rpar then
            return []
          else
            let first ← level m .assignment false
            let more ← moreItems m false
            skipNewlines
            let _ ← Parser.expect .rpar "')'"
            return first :: more) (LikeAll (first :: more)) :=
      .acceptNot hclose (.inr (.inr trivial)) (.enclosed (ih.level (.inr trivial) hfirst) fun first' => htail)
    exact hall.weaken

theorem retraces_getlineTarget (ih : ExprRetraces P n m) {target : Option LValue}
    (h : (getlineTarget (n + 1)).run s = .ok (target, t)) :
    Retraces P strict False s t (getlineTarget (m + 1)) (LikeTarget target) := by
  simp only [getlineTarget, bind_ok (x := kind), kind_ok] at h ⊢
  obtain ⟨_, s, ⟨rfl, rfl⟩, h⟩ := h
  refine .kind fun k hk _ => ?_
  split at h
  · rename_i hkind
    obtain rfl := hk.eq_of hkind rfl
    simp only [bind_ok, pure_ok] at h
    obtain ⟨target, _, htarget, rfl, rfl⟩ := h
    exact .bind (ih.name htarget) fun target' hlike => .pure (by simp [LikeTarget, placedTarget, hlike])
  · rename_i hkind
    obtain rfl := hk.eq_of hkind rfl
    simp only [bind_ok, pure_ok] at h
    obtain ⟨target, _, htarget, rfl, rfl⟩ := h
    exact .bind (ih.field hkind htarget) fun target' hlike => .pure (by simp [LikeTarget, placedTarget, hlike])
  · rename_i hname hdollar
    obtain ⟨rfl, rfl⟩ := pure_ok.1 h
    have hname' := hk.ne hname (by decide)
    have hdollar' := hk.ne hdollar (by decide)
    split
    · exact absurd rfl hname'
    · exact absurd rfl hdollar'
    · exact .pure rfl

theorem retraces_call (ih : ExprRetraces P n m) {start' : Token} (hkind : s.current.kind = .funcName)
    (h : (do
      let function ← advance
      let _ ← expect .lpar "'('"
      let args ← arguments n
      modify fun s => { s with calls := (function, args.length) :: s.calls }
      return .call (← spanFrom s.current) function args : Parser Expr).run s = .ok (e, t)) :
    Retraces P strict False s t
      (do
        let function ← advance
        let _ ← expect .lpar "'('"
        let args ← arguments m
        modify fun s => { s with calls := (function, args.length) :: s.calls }
        return .call (← spanFrom start') function args) e.Like := by
  simp only [bind_ok, advance_iff, expect_iff, modify_ok, spanFrom_iff, pure_ok] at h
  obtain ⟨_, s₁, ⟨rfl, htake⟩, _, s₂, ⟨-, hopen, htake'⟩, args, s₃, hargs, _, _, rfl, _, _, ⟨rfl, rfl⟩, rfl, rfl⟩ := h
  refine .advance htake (by rw [hkind]; decide) fun function hlike => ?_
  refine .expect hopen htake' (by decide) fun _ _ => .bind (ih.arguments hargs) fun args' hargs' => ?_
  refine .record (fun s₃ => { s₃ with calls := (s.current, args.length) :: s₃.calls }) _ ?_ ⟨rfl, rfl, rfl⟩
    fun _ => ⟨rfl, rfl, rfl⟩
  refine .spanFrom _ fun _ => .pure ?_
  simp [Expr.Like, Expr.placed, hlike, hargs', nowhere]

theorem retraces_builtin (ih : ExprRetraces P n m) {start' : Token} {b : Builtin} (hkind : s.current.kind = .builtin b)
    (h : (do
      let token ← advance
      if ← accept .lpar then
        let args ← arguments n
        return .builtin (← spanFrom s.current) b token args
      else if b = .length then
        return .builtin (← spanFrom s.current) b token []
      else
        failExpecting "'('" : Parser Expr).run s = .ok (e, t)) :
    Retraces P strict False s t
      (do
        let token ← advance
        if ← accept .lpar then
          let args ← arguments m
          return .builtin (← spanFrom start') b token args
        else if b = .length then
          return .builtin (← spanFrom start') b token []
        else
          failExpecting "'('") e.Like := by
  obtain ⟨_, s₁, htoken, h⟩ := bind_ok.1 h
  obtain ⟨rfl, htake⟩ := advance_iff.1 htoken
  refine .advance htake (by rw [hkind]; exact TokenKind.noConfusion) fun token hlike => ?_
  rcases accept_split h with ⟨s₂, hopen, htake', h⟩ | ⟨hopen, h⟩
  · simp only [bind_ok, spanFrom_iff, pure_ok] at h
    obtain ⟨args, s₃, hargs, _, _, ⟨rfl, rfl⟩, rfl, rfl⟩ := h
    refine .accept hopen htake' (by decide) ?_
    refine .bind (ih.arguments hargs) fun args' hargs' => .spanFrom _ fun _ => .pure ?_
    simp [Expr.Like, Expr.placed, hlike, hargs', nowhere]
  · refine .acceptNot hopen (.inl (by decide)) ?_
    rw [if_neg Bool.false_ne_true]
    split at h
    · rename_i hlength
      simp only [bind_ok, spanFrom_iff, pure_ok] at h
      obtain ⟨_, _, ⟨rfl, rfl⟩, rfl, rfl⟩ := h
      rw [if_pos hlength]
      refine .spanFrom _ fun _ => .pure ?_
      simp [Expr.Like, Expr.placed, placedAll, hlike, nowhere]
    · exact absurd h failExpecting_ok

theorem retraces_getline (ih : ExprRetraces P n m) {start' : Token} (hkind : s.current.kind = .getline)
    (h : (do
      let _ ← advance
      let target ← getlineTarget n
      if ← accept .lt then
        let file ← level n .step false
        return .getlineFile (← spanFrom s.current) target file
      else
        return .getline (← spanFrom s.current) target : Parser Expr).run s = .ok (e, t)) :
    Retraces P strict False s t
      (do
        let _ ← advance
        let target ← getlineTarget m
        if ← accept .lt then
          let file ← level m .step false
          return .getlineFile (← spanFrom start') target file
        else
          return .getline (← spanFrom start') target) e.Like := by
  obtain ⟨_, s₁, htoken, h⟩ := bind_ok.1 h
  obtain ⟨-, htake⟩ := advance_iff.1 htoken
  obtain ⟨target, s₂, htarget, h⟩ := bind_ok.1 h
  refine .advance htake (by rw [hkind]; decide) fun _ _ => .bind (ih.getlineTarget htarget) fun target' hlike => ?_
  rcases accept_split h with ⟨s₃, hfrom, htake', h⟩ | ⟨hfrom, h⟩
  · simp only [bind_ok, spanFrom_iff, pure_ok] at h
    obtain ⟨file, s₄, hfile, _, _, ⟨rfl, rfl⟩, rfl, rfl⟩ := h
    refine .accept hfrom htake' (by decide) ?_
    refine .bind (ih.level (.inl (.inr (by decide))) hfile) fun file' hfile' => .spanFrom _ fun _ => .pure ?_
    simp [Expr.Like, Expr.placed, hlike, hfile', nowhere]
  · simp only [bind_ok, spanFrom_iff, pure_ok] at h
    obtain ⟨_, _, ⟨rfl, rfl⟩, rfl, rfl⟩ := h
    refine .acceptNot hfrom (.inl (by decide)) (.spanFrom _ fun _ => .pure ?_)
    simp [Expr.Like, Expr.placed, hlike, nowhere]

/-- What stands in parentheses: an expression, or the subscripts of a test for membership. -/
theorem retraces_group (ih : ExprRetraces P n m) {start' : Token} (hopen : s.current.kind = .lpar)
    (h : (do
      let _ ← advance
      let first ← level n .assignment false
      if (← kind) = .comma then
        let more ← moreItems n false
        let close ← expect .rpar "')'"
        if ← accept .in then
          let array ← expect .name "array name"
          return .member (← spanFrom s.current) (first :: more)
            (some { s.current.span with stop := close.span.stop }) array
        else
          failExpecting "'in'"
      else
        let _ ← expect .rpar "')'"
        return .group (← spanFrom s.current) first : Parser Expr).run s = .ok (e, t)) :
    Retraces P strict False s t
      (do
        let _ ← advance
        let first ← level m .assignment false
        if (← kind) = .comma then
          let more ← moreItems m false
          let close ← expect .rpar "')'"
          if ← accept .in then
            let array ← expect .name "array name"
            return .member (← spanFrom start') (first :: more)
              (some { start'.span with stop := close.span.stop }) array
          else
            failExpecting "'in'"
        else
          let _ ← expect .rpar "')'"
          return .group (← spanFrom start') first) e.Like := by
  obtain ⟨_, s₁, hparen, h⟩ := bind_ok.1 h
  obtain ⟨-, htake⟩ := advance_iff.1 hparen
  obtain ⟨first, s₂, hfirst, h⟩ := bind_ok.1 h
  simp only [bind_ok (x := kind), kind_ok] at h
  obtain ⟨_, s₂, ⟨rfl, rfl⟩, h⟩ := h
  refine .advance htake (by rw [hopen]; decide) fun _ _ => ?_
  refine .enclosed (ih.level (.inr trivial) hfirst) fun first' hlike => ?_
  refine .kind fun k _ hsame => ?_
  rw [hsame (.inr trivial)]
  split at h
  · rename_i hcomma
    obtain ⟨more, s₃, hmore, h⟩ := bind_ok.1 h
    obtain ⟨_, s₄, hclosed, h⟩ := bind_ok.1 h
    obtain ⟨rfl, hclose, htake'⟩ := expect_iff.1 hclosed
    rw [if_pos hcomma]
    refine .enclosed (ih.moreItems (.inr trivial) hmore) fun more' hmore' => ?_
    refine .expect hclose htake' (by decide) fun _ _ => ?_
    rcases accept_cases h with ⟨s₅, hin, htake'', h⟩ | h
    · simp only [bind_ok, expect_iff, spanFrom_iff, pure_ok] at h
      obtain ⟨_, s₆, ⟨rfl, hname, htake₃⟩, _, _, ⟨rfl, rfl⟩, rfl, rfl⟩ := h
      refine .accept hin htake'' (by decide) ?_
      refine .expect hname htake₃ (by decide) fun array harray => .spanFrom _ fun _ => .pure ?_
      rw [Expr.Like, Expr.placed, Expr.placed, hlike.cons hmore', harray]
      rfl
    · exact absurd h failExpecting_ok
  · rename_i hcomma
    simp only [bind_ok, expect_iff, spanFrom_iff, pure_ok] at h
    obtain ⟨_, s₃, ⟨-, hclose, htake'⟩, _, _, ⟨rfl, rfl⟩, rfl, rfl⟩ := h
    rw [if_neg hcomma]
    refine .expect hclose htake' (by decide) fun _ _ => .spanFrom _ fun _ => .pure ?_
    simp [Expr.Like, Expr.placed, hlike, nowhere]

theorem retraces_primary (ih : ExprRetraces P n m) (h : (primary (n + 1)).run s = .ok (e, t)) :
    Retraces P strict False s t (primary (m + 1)) e.Like := by
  simp only [primary, bind_ok (x := current), current_ok] at h ⊢
  obtain ⟨_, s, ⟨rfl, rfl⟩, h⟩ := h
  refine .current fun start' hstart => ?_
  -- By the kind of the first token, in the order of the grammar.
  split at h
  · rename_i hnumber
    rw [hstart.eq_of hnumber rfl]
    simp only [bind_ok, advance_iff, pure_ok] at h
    obtain ⟨_, _, ⟨rfl, htake⟩, rfl, rfl⟩ := h
    exact .advance htake (by rw [hnumber]; decide) fun token htoken => .pure (by simp [Expr.Like, Expr.placed, htoken])
  · rename_i hstring
    rw [hstart.eq_of hstring rfl]
    simp only [bind_ok, advance_iff, pure_ok] at h
    obtain ⟨_, _, ⟨rfl, htake⟩, rfl, rfl⟩ := h
    exact .advance htake (by rw [hstring]; decide) fun token htoken => .pure (by simp [Expr.Like, Expr.placed, htoken])
  · rename_i hslash
    rw [hstart.eq_of hslash rfl]
    simp only [bind_ok, pure_ok] at h
    obtain ⟨_, _, htake, rfl, rfl⟩ := h
    exact .takeRegex htake (.inl hslash) fun token htoken => .pure (by simp [Expr.Like, Expr.placed, htoken])
  · rename_i hslash
    rw [hstart.eq_of hslash rfl]
    simp only [bind_ok, pure_ok] at h
    obtain ⟨_, _, htake, rfl, rfl⟩ := h
    exact .takeRegex htake (.inr hslash) fun token htoken => .pure (by simp [Expr.Like, Expr.placed, htoken])
  · rename_i hdollar
    rw [hstart.eq_of hdollar rfl]
    simp only [bind_ok, pure_ok] at h
    obtain ⟨target, _, htarget, rfl, rfl⟩ := h
    exact .bind (ih.field hdollar htarget) fun target' hlike => .pure (by simp [Expr.Like, Expr.placed, hlike])
  · rename_i hname
    rw [hstart.eq_of hname rfl]
    simp only [bind_ok, pure_ok] at h
    obtain ⟨target, _, htarget, rfl, rfl⟩ := h
    exact .bind (ih.name htarget) fun target' hlike => .pure (by simp [Expr.Like, Expr.placed, hlike])
  · rename_i hfunction
    rw [hstart.eq_of hfunction rfl]
    exact retraces_call ih hfunction h
  · rename_i b hbuiltin
    rw [hstart.eq_of hbuiltin rfl]
    exact retraces_builtin ih hbuiltin h
  · rename_i hgetline
    rw [hstart.eq_of hgetline rfl]
    exact retraces_getline ih hgetline h
  · rename_i hopen
    rw [hstart.eq_of hopen rfl]
    exact retraces_group ih hopen h
  · exact absurd h failExpecting_ok

/-- What is read in the first text on the way to the end of the passage is read in the second one, with any fuel that is
no less. -/
theorem exprRetraces (P : Passage) (h : n ≤ m) : ExprRetraces P n m := by
  induction n generalizing m with
  | zero =>
    constructor
    case level | signed | parts | moreItems => exact fun _ h => absurd h tooDeep_ok
    case chain | pipes => exact fun _ _ h => absurd h tooDeep_ok
    case field => exact fun _ h => absurd h tooDeep_ok
    case lvalue | name | subscripts | arguments | getlineTarget | primary => exact fun h => absurd h tooDeep_ok
  | succ n ih =>
    obtain ⟨m, rfl⟩ := Nat.exists_eq_add_of_le' h
    have ih := ih (Nat.le_of_succ_le_succ h)
    exact {
      level := retraces_level ih
      chain := fun hin hleft h => retraces_chain ih hin hleft h
      signed := retraces_signed ih
      parts := retraces_parts ih
      pipes := fun hstrict hcommand h => retraces_pipes ih hstrict hcommand h
      lvalue := retraces_lvalue ih
      field := retraces_field ih
      name := retraces_name ih
      subscripts := retraces_subscripts ih
      moreItems := retraces_moreItems ih
      arguments := retraces_arguments ih
      getlineTarget := retraces_getlineTarget ih
      primary := retraces_primary ih }

end Awk.Parser
