import Awk.Proofs.Syntax.Rendering.Levels

/-!
# The forms of expressions

What the parser reads from one state to another when the parts of a form have been read in between.  There is one lemma
for each form, and none of them says which words are taken.
-/

namespace Awk.Parser

variable {c : Nat} {s s' s₁ s₂ s₃ s₄ s₅ : ParserState} {e left right : Expr} {target : LValue}

/-! ### Lists -/

theorem accept_taken {k : TokenKind} (hkind : s.current.kind = k) (htake : Takes s s') :
    (accept k).run s = .ok (true, s') := by
  rw [accept_iff, if_pos hkind]
  exact ⟨rfl, htake⟩

theorem accept_left {k : TokenKind} (hkind : s.current.kind ≠ k) : (accept k).run s = .ok (false, s) := by
  rw [accept_iff, if_neg hkind]
  exact ⟨rfl, rfl⟩

theorem moreItems_none (h : s.current.kind ≠ .comma) : Costs 1 (moreItems · false) s [] s := by
  refine .succ fun n _ => ?_
  simp only [moreItems, bind_ok]
  exact ⟨false, s, accept_left h, rfl⟩

theorem moreItems_cons {more : List Expr} (hcomma : s.current.kind = .comma) (htake : Takes s s₁)
    (hline : s₁.current.kind ≠ .newline) (he : Costs c (level · .assignment false) s₁ e s₂)
    (hmore : Costs c (moreItems · false) s₂ more s') : Costs (c + 1) (moreItems · false) s (e :: more) s' := by
  refine .succ fun n hn => ?_
  simp only [moreItems, bind_ok]
  refine ⟨true, s₁, accept_taken hcomma htake, ?_⟩
  rw [if_pos rfl]
  simp only [bind_ok]
  exact ⟨_, s₁, skipNewlines_none hline, e, s₂, he n hn, more, s', hmore n hn, rfl⟩

theorem parts_cons {more : List Expr} (hstart : startsPart s.current.kind = true)
    (he : Costs c (level · .sum false) s e s₁) (hmore : Costs c (parts · false) s₁ more s') :
    Costs (c + 1) (parts · false) s (e :: more) s' := by
  refine .succ fun n hn => ?_
  simp only [parts, bind_ok, kind_ok]
  refine ⟨_, _, ⟨rfl, rfl⟩, ?_⟩
  rw [if_pos hstart]
  simp only [bind_ok]
  exact ⟨e, s₁, he n hn, more, s', hmore n hn, rfl⟩

theorem arguments_none (hclose : s.current.kind = .rpar) (htake : Takes s s') : Costs 1 arguments s [] s' := by
  have hline : s.current.kind ≠ .newline := by rw [hclose]; exact TokenKind.noConfusion
  refine .succ fun n _ => ?_
  simp only [arguments, bind_ok]
  exact ⟨_, s, skipNewlines_none hline, true, s', accept_taken hclose htake, rfl⟩

theorem arguments_cons {more : List Expr} (hline : s.current.kind ≠ .newline) (hopen : s.current.kind ≠ .rpar)
    (he : Costs c (level · .assignment false) s e s₁) (hmore : Costs c (moreItems · false) s₁ more s₂)
    (hclose : s₂.current.kind = .rpar) (htake : Takes s₂ s') : Costs (c + 1) arguments s (e :: more) s' := by
  have hline' : s₂.current.kind ≠ .newline := by rw [hclose]; exact TokenKind.noConfusion
  refine .succ fun n hn => ?_
  simp only [arguments, bind_ok]
  refine ⟨_, s, skipNewlines_none hline, false, s, accept_left hopen, ?_⟩
  rw [if_neg Bool.false_ne_true]
  simp only [bind_ok, expect_iff]
  exact ⟨e, s₁, he n hn, more, s₂, hmore n hn, _, s₂, skipNewlines_none hline', _, s', ⟨rfl, hclose, htake⟩, rfl⟩

/-! ### Variables, elements and fields -/

theorem subscripts_items {more : List Expr} (he : Costs c (level · .assignment false) s e s₁)
    (hmore : Costs c (moreItems · false) s₁ more s₂) (hclose : s₂.current.kind = .rsqb) (htake : Takes s₂ s') :
    Costs (c + 1) subscripts s ⟨s'.spanFrom s.current, e :: more⟩ s' := by
  refine .succ fun n hn => ?_
  simp only [subscripts, bind_ok, current_ok, expect_iff, spanFrom_iff]
  exact ⟨_, s, ⟨rfl, rfl⟩, e, s₁, he n hn, more, s₂, hmore n hn, _, s', ⟨rfl, hclose, htake⟩, _, s', ⟨rfl, rfl⟩, rfl⟩

theorem name_var (hkind : s.current.kind = .name) (htake : Takes s s') (hfollow : s'.current.kind ≠ .lsqb) :
    Costs 1 name s (.var s.current) s' := by
  refine .succ fun n _ => ?_
  simp only [name, bind_ok, expect_iff]
  exact ⟨_, s', ⟨rfl, hkind, htake⟩, false, s', accept_left hfollow, rfl⟩

theorem name_index {subs : Subscripts} (hkind : s.current.kind = .name) (htake : Takes s s₁)
    (hopen : s₁.current.kind = .lsqb) (htake' : Takes s₁ s₂) (hsubs : Costs c subscripts s₂ subs s') :
    Costs (c + 1) name s (.index (s'.spanFrom s.current) s.current subs.items subs.span) s' := by
  refine .succ fun n hn => ?_
  simp only [name, bind_ok, expect_iff]
  refine ⟨_, s₁, ⟨rfl, hkind, htake⟩, true, s₂, accept_taken hopen htake', ?_⟩
  rw [if_pos rfl]
  simp only [bind_ok, spanFrom_iff]
  exact ⟨subs, s', hsubs n hn, _, s', ⟨rfl, rfl⟩, rfl⟩

theorem field_number (htake : Takes s s₁) (hopen : StepOp.ofKind? s₁.current.kind = none)
    (he : Costs c (signed · .primary false) s₁ e s') : Costs (c + 1) field s (.field (s'.spanFrom s.current) e) s' := by
  refine .succ fun n hn => ?_
  simp only [field, bind_ok, advance_iff, current_ok]
  refine ⟨_, s₁, ⟨rfl, htake⟩, _, s₁, ⟨rfl, rfl⟩, ?_⟩
  rw [hopen]
  simp only [bind_ok, spanFrom_iff]
  exact ⟨e, s', he n hn, _, s', ⟨rfl, rfl⟩, rfl⟩

/-- What is assigned to is a name with what follows it, or a field. -/
theorem lvalue_iff (n : Nat) : (lvalue (n + 1)).run s = .ok (target, s') ↔
    (s.current.kind = .name ∧ (name n).run s = .ok (target, s')) ∨
      (s.current.kind = .dollar ∧ (field n).run s = .ok (target, s')) := by
  simp only [lvalue, bind_ok, kind_ok]
  constructor
  · rintro ⟨_, _, ⟨rfl, rfl⟩, h⟩
    split at h
    · rename_i hkind
      exact .inr ⟨hkind, h⟩
    · rename_i hkind
      exact .inl ⟨hkind, h⟩
    · exact absurd h failExpecting_ok
  · rintro (⟨hkind, h⟩ | ⟨hkind, h⟩)
    all_goals
      refine ⟨_, _, ⟨rfl, rfl⟩, ?_⟩
      rw [hkind]
      exact h

theorem primary_lvalue (h : Costs c lvalue s target s') : Costs (c + 1) primary s (.lvalue target) s' := by
  intro n hn
  obtain ⟨n, rfl⟩ := Nat.exists_eq_add_of_le' (Nat.le_trans (Nat.le_add_left 1 c) hn)
  simp only [primary, bind_ok, current_ok]
  refine ⟨_, _, ⟨rfl, rfl⟩, ?_⟩
  rcases (lvalue_iff n).1 (h (n + 1) (by omega)) with ⟨hkind, htarget⟩ | ⟨hkind, htarget⟩
  all_goals
    rw [hkind]
    exact bind_ok.2 ⟨target, s', htarget, rfl⟩

theorem getlineTarget_none (hname : s.current.kind ≠ .name) (hfield : s.current.kind ≠ .dollar) :
    Costs 1 getlineTarget s none s := by
  refine .succ fun n _ => ?_
  simp only [getlineTarget, bind_ok, kind_ok]
  refine ⟨_, _, ⟨rfl, rfl⟩, ?_⟩
  split
  · rename_i hkind
    exact absurd hkind hname
  · rename_i hkind
    exact absurd hkind hfield
  · rfl

theorem getlineTarget_some (h : Costs c lvalue s target s') : Costs (c + 1) getlineTarget s (some target) s' := by
  intro n hn
  obtain ⟨n, rfl⟩ := Nat.exists_eq_add_of_le' (Nat.le_trans (Nat.le_add_left 1 c) hn)
  simp only [getlineTarget, bind_ok, kind_ok]
  refine ⟨_, _, ⟨rfl, rfl⟩, ?_⟩
  rcases (lvalue_iff n).1 (h (n + 1) (by omega)) with ⟨hkind, htarget⟩ | ⟨hkind, htarget⟩
  all_goals
    rw [hkind]
    exact bind_ok.2 ⟨target, s', htarget, rfl⟩

theorem lvalue_var (hkind : s.current.kind = .name) (htake : Takes s s') (hfollow : s'.current.kind ≠ .lsqb) :
    Costs 2 lvalue s (.var s.current) s' :=
  .succ fun n hn => (lvalue_iff n).2 (.inl ⟨hkind, name_var hkind htake hfollow n hn⟩)

theorem lvalue_index {subs : Subscripts} (hkind : s.current.kind = .name) (htake : Takes s s₁)
    (hopen : s₁.current.kind = .lsqb) (htake' : Takes s₁ s₂) (hsubs : Costs c subscripts s₂ subs s') :
    Costs (c + 2) lvalue s (.index (s'.spanFrom s.current) s.current subs.items subs.span) s' :=
  .succ fun n hn => (lvalue_iff n).2 (.inl ⟨hkind, name_index hkind htake hopen htake' hsubs n hn⟩)

theorem lvalue_field (hkind : s.current.kind = .dollar) (htake : Takes s s₁)
    (hopen : StepOp.ofKind? s₁.current.kind = none) (he : Costs c (signed · .primary false) s₁ e s') :
    Costs (c + 2) lvalue s (.field (s'.spanFrom s.current) e) s' :=
  .succ fun n hn => (lvalue_iff n).2 (.inr ⟨hkind, field_number htake hopen he n hn⟩)

/-! ### Literals, calls and parentheses -/

theorem primary_number (hkind : s.current.kind = .number) (htake : Takes s s') :
    Costs 1 primary s (.number s.current) s' := by
  refine .succ fun n _ => ?_
  simp only [primary, bind_ok, current_ok]
  refine ⟨_, _, ⟨rfl, rfl⟩, ?_⟩
  rw [hkind]
  exact bind_ok.2 ⟨_, s', htake, rfl⟩

theorem primary_string (hkind : s.current.kind = .string) (htake : Takes s s') :
    Costs 1 primary s (.string s.current) s' := by
  refine .succ fun n _ => ?_
  simp only [primary, bind_ok, current_ok]
  refine ⟨_, _, ⟨rfl, rfl⟩, ?_⟩
  rw [hkind]
  exact bind_ok.2 ⟨_, s', htake, rfl⟩

theorem primary_regex {token : Token} (hkind : s.current.kind = .slash ∨ s.current.kind = .divAssign)
    (htake : TakesRegex s token s') : Costs 1 primary s (.regex token) s' := by
  refine .succ fun n _ => ?_
  simp only [primary, bind_ok, current_ok]
  refine ⟨_, _, ⟨rfl, rfl⟩, ?_⟩
  rcases hkind with hkind | hkind
  all_goals
    rw [hkind]
    exact bind_ok.2 ⟨_, s', htake, rfl⟩

theorem primary_group (hopen : s.current.kind = .lpar) (htake : Takes s s₁)
    (he : Costs c (level · .assignment false) s₁ e s₂) (hclose : s₂.current.kind = .rpar) (htake' : Takes s₂ s') :
    Costs (c + 1) primary s (.group (s'.spanFrom s.current) e) s' := by
  have hcomma : s₂.current.kind ≠ .comma := by rw [hclose]; exact TokenKind.noConfusion
  refine .succ fun n hn => ?_
  simp only [primary, bind_ok, current_ok]
  refine ⟨_, _, ⟨rfl, rfl⟩, ?_⟩
  rw [hopen]
  simp only [bind_ok, advance_iff, kind_ok]
  refine ⟨_, s₁, ⟨rfl, htake⟩, e, s₂, he n hn, _, _, ⟨rfl, rfl⟩, ?_⟩
  rw [if_neg hcomma]
  simp only [bind_ok, expect_iff, spanFrom_iff]
  exact ⟨_, s', ⟨rfl, hclose, htake'⟩, _, s', ⟨rfl, rfl⟩, rfl⟩

theorem comma_of_moreItems {more : List Expr} (h : Costs c (moreItems · false) s (e :: more) s') :
    s.current.kind = .comma := by
  cases (exprReads c).moreItems (h c le_rfl) with
  | moreItems hcomma => exact hcomma

theorem primary_members {second : Expr} {more : List Expr} (hopen : s.current.kind = .lpar) (htake : Takes s s₁)
    (he : Costs c (level · .assignment false) s₁ e s₂) (hmore : Costs c (moreItems · false) s₂ (second :: more) s₃)
    (hclose : s₃.current.kind = .rpar) (htake₁ : Takes s₃ s₄) (hin : s₄.current.kind = .in) (htake₂ : Takes s₄ s₅)
    (hname : s₅.current.kind = .name) (htake₃ : Takes s₅ s') :
    Costs (c + 1) primary s
      (.member (s'.spanFrom s.current) (e :: second :: more)
        (some { s.current.span with stop := s₃.current.span.stop }) s₅.current) s' := by
  have hcomma := comma_of_moreItems hmore
  refine .succ fun n hn => ?_
  simp only [primary, bind_ok, current_ok]
  refine ⟨_, _, ⟨rfl, rfl⟩, ?_⟩
  rw [hopen]
  simp only [bind_ok, advance_iff, kind_ok]
  refine ⟨_, s₁, ⟨rfl, htake⟩, e, s₂, he n hn, _, _, ⟨rfl, rfl⟩, ?_⟩
  rw [if_pos hcomma]
  simp only [bind_ok, expect_iff]
  refine ⟨_, s₃, hmore n hn, _, s₄, ⟨rfl, hclose, htake₁⟩, true, s₅, accept_taken hin htake₂, ?_⟩
  rw [if_pos rfl]
  simp only [bind_ok, expect_iff, spanFrom_iff]
  exact ⟨_, s', ⟨rfl, hname, htake₃⟩, _, s', ⟨rfl, rfl⟩, rfl⟩

theorem primary_builtin {b : Builtin} {args : List Expr} (hkind : s.current.kind = .builtin b) (htake : Takes s s₁)
    (hopen : s₁.current.kind = .lpar) (htake' : Takes s₁ s₂) (hargs : Costs c arguments s₂ args s') :
    Costs (c + 1) primary s (.builtin (s'.spanFrom s.current) b s.current args) s' := by
  refine .succ fun n hn => ?_
  simp only [primary, bind_ok, current_ok]
  refine ⟨_, _, ⟨rfl, rfl⟩, ?_⟩
  rw [hkind]
  simp only [bind_ok, advance_iff]
  refine ⟨_, s₁, ⟨rfl, htake⟩, true, s₂, accept_taken hopen htake', ?_⟩
  rw [if_pos rfl]
  simp only [bind_ok, spanFrom_iff]
  exact ⟨args, s', hargs n hn, _, s', ⟨rfl, rfl⟩, rfl⟩

theorem primary_bareLength (hkind : s.current.kind = .builtin .length) (htake : Takes s s')
    (hopen : s'.current.kind ≠ .lpar) :
    Costs 1 primary s (.builtin (s'.spanFrom s.current) .length s.current []) s' := by
  refine .succ fun n _ => ?_
  simp only [primary, bind_ok, current_ok]
  refine ⟨_, _, ⟨rfl, rfl⟩, ?_⟩
  rw [hkind]
  simp only [bind_ok, advance_iff]
  refine ⟨_, s', ⟨rfl, htake⟩, false, s', accept_left hopen, ?_⟩
  rw [if_neg Bool.false_ne_true, if_pos trivial]
  simp only [bind_ok, spanFrom_iff]
  exact ⟨_, s', ⟨rfl, rfl⟩, rfl⟩

theorem primary_getline {target : Option LValue} (hkind : s.current.kind = .getline) (htake : Takes s s₁)
    (htarget : Costs c getlineTarget s₁ target s') (hfrom : s'.current.kind ≠ .lt) :
    Costs (c + 1) primary s (.getline (s'.spanFrom s.current) target) s' := by
  refine .succ fun n hn => ?_
  simp only [primary, bind_ok, current_ok]
  refine ⟨_, _, ⟨rfl, rfl⟩, ?_⟩
  rw [hkind]
  simp only [bind_ok, advance_iff]
  refine ⟨_, s₁, ⟨rfl, htake⟩, target, s', htarget n hn, false, s', accept_left hfrom, ?_⟩
  rw [if_neg Bool.false_ne_true]
  simp only [bind_ok, spanFrom_iff]
  exact ⟨_, s', ⟨rfl, rfl⟩, rfl⟩

theorem primary_getlineFile {target : Option LValue} (hkind : s.current.kind = .getline) (htake : Takes s s₁)
    (htarget : Costs c getlineTarget s₁ target s₂) (hfrom : s₂.current.kind = .lt) (htake' : Takes s₂ s₃)
    (hfile : Costs c (level · .step false) s₃ e s') :
    Costs (c + 1) primary s (.getlineFile (s'.spanFrom s.current) target e) s' := by
  refine .succ fun n hn => ?_
  simp only [primary, bind_ok, current_ok]
  refine ⟨_, _, ⟨rfl, rfl⟩, ?_⟩
  rw [hkind]
  simp only [bind_ok, advance_iff]
  refine ⟨_, s₁, ⟨rfl, htake⟩, target, s₂, htarget n hn, true, s₃, accept_taken hfrom htake', ?_⟩
  rw [if_pos rfl]
  simp only [bind_ok, spanFrom_iff]
  exact ⟨e, s', hfile n hn, _, s', ⟨rfl, rfl⟩, rfl⟩

theorem level_primary (h : Costs c primary s e s') : Costs (c + 1) (level · .primary false) s e s' := .succ h

/-! ### Operators -/

theorem assignment_assign {op : AssignOp} (htarget : Costs c (level · .conditional false) s (.lvalue target) s₁)
    (hop : AssignOp.ofKind? s₁.current.kind = some op) (htake : Takes s₁ s₂) (hline : s₂.current.kind ≠ .newline)
    (hright : Costs c (level · .assignment false) s₂ right s') :
    Costs (c + 1) (level · .assignment false) s (.assign (s'.spanFrom s.current) target op s₁.current right) s' := by
  refine .succ fun n hn => ?_
  simp only [level, bind_ok, current_ok, kind_ok]
  refine ⟨_, _, ⟨rfl, rfl⟩, _, s₁, htarget n hn, _, _, ⟨rfl, rfl⟩, ?_⟩
  rw [hop]
  simp only [Expr.asLValue?, bind_ok, advance_iff, spanFrom_iff]
  exact ⟨_, s₂, ⟨rfl, htake⟩, _, s₂, skipNewlines_none hline, right, s', hright n hn, _, s', ⟨rfl, rfl⟩, rfl⟩

theorem conditional_conditional {test yes no : Expr} (htest : Costs c (level · .disjunction false) s test s₁)
    (hmark : s₁.current.kind = .qmark) (htake : Takes s₁ s₂) (hline : s₂.current.kind ≠ .newline)
    (hyes : Costs c (level · .assignment false) s₂ yes s₃) (hcolon : s₃.current.kind = .colon) (htake' : Takes s₃ s₄)
    (hline' : s₄.current.kind ≠ .newline) (hno : Costs c (level · .assignment false) s₄ no s') :
    Costs (c + 1) (level · .conditional false) s (.conditional (s'.spanFrom s.current) test yes no) s' := by
  have hline₃ : s₃.current.kind ≠ .newline := by rw [hcolon]; exact TokenKind.noConfusion
  refine .succ fun n hn => ?_
  simp only [level, bind_ok, current_ok]
  refine ⟨_, _, ⟨rfl, rfl⟩, test, s₁, htest n hn, true, s₂, accept_taken hmark htake, ?_⟩
  rw [if_pos rfl]
  simp only [bind_ok, expect_iff, spanFrom_iff]
  exact ⟨_, s₂, skipNewlines_none hline, yes, s₃, hyes n hn, _, s₃, skipNewlines_none hline₃, _, s₄,
    ⟨rfl, hcolon, htake'⟩, _, s₄, skipNewlines_none hline', no, s', hno n hn, _, s', ⟨rfl, rfl⟩, rfl⟩

/-- The operators that associate to the left, with their levels and the nodes that they make. -/
inductive Joins : Level → TokenKind → (Span → Expr → Token → Expr → Expr) → Prop
  | or : Joins .disjunction .or fun span left _ right => .logical span .or left right
  | and : Joins .conjunction .and fun span left _ right => .logical span .and left right
  | matching : Joins .matching .tilde fun span left token right => .matching span left false token right
  | notMatching : Joins .matching .noMatch fun span left token right => .matching span left true token right
  | sum {k op} (hop : ArithOp.sum? k = some op) :
    Joins .sum k fun span left token right => .arith span left op token right
  | product {k op} (hop : ArithOp.product? k = some op) :
    Joins .product k fun span left token right => .arith span left op token right

section Joins

variable {lvl : Level} {k : TokenKind} {join : Span → Expr → Token → Expr → Expr}

theorem Joins.continuedBy (h : Joins lvl k join) : lvl.continuedBy k = true := by
  cases h with
  | sum hop | product hop => simp [Level.continuedBy, hop]
  | _ => rfl

theorem Joins.level_mem (h : Joins lvl k join) :
    lvl ∈ [.disjunction, .conjunction, .membership, .matching, .sum, .product] := by
  cases h <;> decide

theorem Joins.tighter (h : Joins lvl k join) : lvl ≠ .concatenation ∧ lvl.index < lvl.tighter.index := by
  cases h <;> decide

theorem chain_join (start : Token) (left : Expr) (hjoin : Joins lvl s.current.kind join) (htake : Takes s s₁)
    (hline : s₁.current.kind ≠ .newline) (hright : Costs c (level · lvl.tighter false) s₁ right s')
    (hend : lvl.continuedBy s'.current.kind = false) (hc : 1 ≤ c) :
    Costs (c + 1) (chain · lvl false start left) s (join (s'.spanFrom start) left s.current right) s' := by
  refine .succ fun n hn => ?_
  have hrest (e : Expr) := chain_none hend start e n (hc.trans hn)
  simp only [chain, bind_ok, kind_ok]
  refine ⟨_, _, ⟨rfl, rfl⟩, ?_⟩
  generalize hkind : s.current.kind = k at hjoin
  cases hjoin with
  | or | and =>
    simp only [bind_ok, advance_iff, spanFrom_iff]
    exact ⟨_, s₁, ⟨rfl, htake⟩, _, s₁, skipNewlines_none hline, right, s', hright n hn, _, s', ⟨rfl, rfl⟩, hrest _⟩
  | matching | notMatching =>
    simp only [bind_ok, advance_iff, spanFrom_iff]
    exact ⟨_, s₁, ⟨rfl, htake⟩, right, s', hright n hn, _, s', ⟨rfl, rfl⟩, hrest _⟩
  | sum hop | product hop =>
    dsimp only
    rw [hop]
    simp only [bind_ok, advance_iff, spanFrom_iff]
    exact ⟨_, s₁, ⟨rfl, htake⟩, right, s', hright n hn, _, s', ⟨rfl, rfl⟩, hrest _⟩

end Joins

theorem chain_member (start : Token) (left : Expr) (hin : s.current.kind = .in) (htake : Takes s s₁)
    (hname : s₁.current.kind = .name) (htake' : Takes s₁ s') (hend : s'.current.kind ≠ .in) :
    Costs 2 (chain · .membership false start left) s (.member (s'.spanFrom start) [left] none s₁.current) s' := by
  refine .succ fun n hn => ?_
  simp only [chain, bind_ok, kind_ok]
  refine ⟨_, _, ⟨rfl, rfl⟩, ?_⟩
  rw [hin]
  simp only [bind_ok, advance_iff, expect_iff, spanFrom_iff]
  refine ⟨_, s₁, ⟨rfl, htake⟩, _, s', ⟨rfl, hname, htake'⟩, _, s', ⟨rfl, rfl⟩, ?_⟩
  exact chain_none (by simpa [Level.continuedBy] using hend) start _ n hn

theorem comparison_compare {op : CompareOp} (hc : 1 ≤ c) (hleft : Costs c (level · .concatenation false) s left s₁)
    (hop : CompareOp.ofKind? s₁.current.kind = some op) (htake : Takes s₁ s₂)
    (hright : Costs c (level · .concatenation false) s₂ right s') (hend : s'.current.kind ≠ .pipe) :
    Costs (c + 1) (level · .comparison false) s (.compare (s'.spanFrom s.current) left op s₁.current right) s' := by
  have hpipe : s₁.current.kind ≠ .pipe := by
    intro h
    rw [h] at hop
    cases hop
  refine .succ fun n hn => ?_
  simp only [level, bind_ok, current_ok]
  refine ⟨_, _, ⟨rfl, rfl⟩, left, s₁, hleft n hn, ?_⟩
  rw [if_neg Bool.false_ne_true]
  simp only [bind_ok, kind_ok]
  refine ⟨left, s₁, pipes_none hpipe _ _ n (hc.trans hn), _, _, ⟨rfl, rfl⟩, ?_⟩
  rw [hop]
  simp only [Bool.false_and, Bool.false_eq_true, if_false, bind_ok, advance_iff, spanFrom_iff]
  exact ⟨_, s₂, ⟨rfl, htake⟩, right, s', hright n hn, right, s', pipes_none hend _ _ n (hc.trans hn), _, s', ⟨rfl, rfl⟩,
    rfl⟩

theorem nextKind_of_takes {k : TokenKind} (htake : Takes s s₁) (hkind : s₁.current.kind = k) :
    nextKind.run s = .ok (k, s) := by
  obtain ⟨token, behind, htoken, -⟩ := takes_iff.1 htake
  rw [(htake.current_eq htoken).1] at hkind
  simp only [nextKind, bind_ok, get_ok, lift_ok]
  refine ⟨s, s, ⟨rfl, rfl⟩, (token, behind), s, ⟨htoken, rfl⟩, ?_⟩
  rw [hkind]
  rfl

theorem pipes_getline {target : Option LValue} (start : Token) (command : Expr) (hpipe : s.current.kind = .pipe)
    (htake : Takes s s₁) (hgetline : s₁.current.kind = .getline) (htake' : Takes s₁ s₂)
    (htarget : Costs c getlineTarget s₂ target s') (hend : s'.current.kind ≠ .pipe) (hc : 1 ≤ c) :
    Costs (c + 1) (pipes · start command) s (.getlineCommand (s'.spanFrom start) command target) s' := by
  refine .succ fun n hn => ?_
  simp only [pipes, bind_ok, kind_ok]
  refine ⟨_, _, ⟨rfl, rfl⟩, ?_⟩
  rw [if_pos hpipe]
  simp only [bind_ok]
  refine ⟨.getline, s, nextKind_of_takes htake hgetline, ?_⟩
  rw [if_pos rfl]
  simp only [bind_ok, advance_iff, spanFrom_iff]
  exact ⟨_, s₁, ⟨rfl, htake⟩, _, s₂, ⟨rfl, htake'⟩, target, s', htarget n hn, _, s', ⟨rfl, rfl⟩,
    pipes_none hend start _ n (hc.trans hn)⟩

theorem comparison_pipe (hleft : Costs c (level · .concatenation false) s left s₁)
    (hpipes : Costs c (pipes · s.current left) s₁ e s') (hend : CompareOp.ofKind? s'.current.kind = none) :
    Costs (c + 1) (level · .comparison false) s e s' := by
  refine .succ fun n hn => ?_
  simp only [level, bind_ok, current_ok]
  refine ⟨_, _, ⟨rfl, rfl⟩, left, s₁, hleft n hn, ?_⟩
  rw [if_neg Bool.false_ne_true]
  simp only [bind_ok, kind_ok]
  refine ⟨e, s', hpipes n hn, _, _, ⟨rfl, rfl⟩, ?_⟩
  rw [hend]
  rfl

theorem concatenation_concat {second : Expr} {more : List Expr} (he : Costs c (level · .sum false) s e s₁)
    (hmore : Costs c (parts · false) s₁ (second :: more) s') :
    Costs (c + 1) (level · .concatenation false) s (.concat (s'.spanFrom s.current) (e :: second :: more)) s' := by
  refine .succ fun n hn => ?_
  simp only [level, bind_ok, current_ok]
  refine ⟨_, _, ⟨rfl, rfl⟩, e, s₁, he n hn, _, s', hmore n hn, ?_⟩
  simp only [bind_ok, spanFrom_iff]
  exact ⟨_, s', ⟨rfl, rfl⟩, rfl⟩

theorem signed_sign {lvl : Level} {op : SignOp} (hop : SignOp.ofKind? s.current.kind = some op) (htake : Takes s s₁)
    (he : Costs c (signed · lvl false) s₁ e s') :
    Costs (c + 1) (signed · lvl false) s (.sign (s'.spanFrom s.current) op s.current e) s' := by
  refine .succ fun n hn => ?_
  simp only [signed, bind_ok, current_ok]
  refine ⟨_, _, ⟨rfl, rfl⟩, ?_⟩
  rw [hop]
  simp only [bind_ok, advance_iff, spanFrom_iff]
  exact ⟨_, s₁, ⟨rfl, htake⟩, e, s', he n hn, _, s', ⟨rfl, rfl⟩, rfl⟩

theorem power_power (hleft : Costs c (level · .step false) s left s₁) (hpow : s₁.current.kind = .pow)
    (htake : Takes s₁ s₂) (hright : Costs c (signed · .power false) s₂ right s') :
    Costs (c + 1) (level · .power false) s (.power (s'.spanFrom s.current) left right) s' := by
  refine .succ fun n hn => ?_
  simp only [level, bind_ok, current_ok]
  refine ⟨_, _, ⟨rfl, rfl⟩, left, s₁, hleft n hn, true, s₂, accept_taken hpow htake, ?_⟩
  rw [if_pos rfl]
  simp only [bind_ok, spanFrom_iff]
  exact ⟨right, s', hright n hn, _, s', ⟨rfl, rfl⟩, rfl⟩

theorem step_preStep {op : StepOp} (hop : StepOp.ofKind? s.current.kind = some op) (htake : Takes s s₁)
    (htarget : Costs c lvalue s₁ target s') :
    Costs (c + 1) (level · .step false) s (.preStep (s'.spanFrom s.current) op s.current target) s' := by
  refine .succ fun n hn => ?_
  simp only [level, bind_ok, current_ok]
  refine ⟨_, _, ⟨rfl, rfl⟩, ?_⟩
  rw [hop]
  simp only [bind_ok, advance_iff, spanFrom_iff]
  exact ⟨_, s₁, ⟨rfl, htake⟩, target, s', htarget n hn, _, s', ⟨rfl, rfl⟩, rfl⟩

theorem step_postStep {op : StepOp} (hopen : StepOp.ofKind? s.current.kind = none)
    (htarget : Costs c (level · .primary false) s (.lvalue target) s₁)
    (hop : StepOp.ofKind? s₁.current.kind = some op) (htake : Takes s₁ s') :
    Costs (c + 1) (level · .step false) s (.postStep (s'.spanFrom s.current) target op s₁.current) s' := by
  refine .succ fun n hn => ?_
  simp only [level, bind_ok, current_ok]
  refine ⟨_, _, ⟨rfl, rfl⟩, ?_⟩
  rw [hopen]
  simp only [bind_ok, kind_ok]
  refine ⟨_, s₁, htarget n hn, _, _, ⟨rfl, rfl⟩, ?_⟩
  rw [hop]
  simp only [Expr.asLValue?, bind_ok, advance_iff, spanFrom_iff]
  exact ⟨_, s', ⟨rfl, htake⟩, _, s', ⟨rfl, rfl⟩, rfl⟩

end Awk.Parser
