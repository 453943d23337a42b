import Awk.Proofs.Syntax.Layout.Mirrors

/-!
# Expressions in the second text

What is read as an expression in the first text is read in the second one, with other places and with any fuel that is
no less (`exprMirrors`).
-/

namespace Awk.Parser

open Outline

variable {C : Correspondence} {closed : Bool} {n m : Nat} {p : Bool} {s s₁ t : ParserState} {e : Expr} {es : List Expr}
  {target : LValue}

/-! ### What a path carries -/

/-- The operands of a path are those of some trees. -/
def Carries (os : List Outline) (path : List Taken) : Prop :=
  operandsOf (leavesIn os) = operandsOf (path.map Taken.token)

/-- With the operands of a path some trees become others. -/
def Extends (os os' : List Outline) (path : List Taken) : Prop :=
  operandsOf (leavesIn os') = operandsOf (leavesIn os) ++ operandsOf (path.map Taken.token)

variable {os os' os'' : List Outline} {path path' : List Taken}

theorem Carries.nil : Carries [] [] := rfl

theorem Carries.append (h : Carries os path) (h' : Carries os' path') : Carries (os ++ os') (path ++ path') := by
  rw [Carries, leavesIn_append, operandsOf_append, h, h', List.map_append, operandsOf_append]

theorem Carries.leaf (token : Token) (header : Bool) : Carries [.leaf token] [⟨token, header⟩] := by
  rw [Carries, leavesIn_cons, leaves_leaf, leavesIn_nil]
  rfl

theorem Carries.mark (header : Bool) {token : Token} {k : TokenKind} (hkind : token.kind = k)
    (hmark : k.isOperand = false) : Carries [] [⟨token, header⟩] := by
  simp [Carries, operandsOf, hkind, hmark]

theorem Carries.gap (h : ∀ taken ∈ path, (taken.token.kind == .newline || taken.token.kind == .semi) = true) :
    Carries [] path := by
  have hnone : operandsOf (path.map Taken.token) = [] := by
    refine List.filter_eq_nil_iff.2 fun token htoken => ?_
    obtain ⟨taken, htaken, rfl⟩ := List.mem_map.1 htoken
    rcases Bool.or_eq_true_iff.1 (h taken htaken) with hk | hk <;> rw [eq_of_beq hk] <;> exact Bool.false_ne_true
  rw [Carries, hnone]
  rfl

theorem Carries.newlines (h : ∀ taken ∈ path, (taken.token.kind == .newline) = true) : Carries [] path :=
  .gap fun taken htaken => by rw [h taken htaken, Bool.true_or]

theorem Extends.refl : Extends os os [] := by
  rw [Extends, List.map_nil]
  exact (List.append_nil _).symm

/-- Trees around some trees and what a path carries. -/
theorem Extends.carries (h : Extends os os' path') (hos : Carries os path) : Carries os' (path ++ path') := by
  rw [Carries, h, hos, List.map_append, operandsOf_append]

theorem Extends.trans (h : Extends os os' path) (h' : Extends os' os'' path') : Extends os os'' (path ++ path') := by
  rw [Extends, h', h, List.append_assoc, List.map_append, operandsOf_append]

/-! ### What expressions begin with -/

/-- Nonterminals that are never read as nothing. -/
def Nonterminal.begins : Nonterminal → Bool
  | level .. | operand .. | signed .. | lvalue | subscripts | primary => true
  | parts _ | moreItems _ | arguments | getlineTarget => false

/-- Operators do not end statements. -/
theorem isTerminator_of_some {γ : Type} {table : TokenKind → Option γ} {k : TokenKind} {op : γ} (h : table k = some op)
    (hnone : ∀ k ∈ [TokenKind.newline, .semi, .rbrace, .eof], table k = none) : isTerminator k = false := by
  cases k with
  | newline | semi | rbrace | eof =>
    rw [hnone _ (by decide)] at h
    cases h
  | _ => rfl

theorem isFirm_of_isTerminator {k : TokenKind} (h : isTerminator k = false) : k.isFirm = true := by
  cases k <;> first | rfl | cases h

/-- Operators are not followed by newlines. -/
theorem isTight_of_some {γ : Type} {table : TokenKind → Option γ} {k : TokenKind} {op : γ} (h : table k = some op)
    (hnone : ∀ k ∈ [TokenKind.newline, .eof, .lbrace, .and, .or, .comma, .do, .else, .semi], table k = none) :
    k.isTight = true := by
  cases k with
  | newline | eof | lbrace | and | or | comma | «do» | «else» | semi =>
    rw [hnone _ (by decide)] at h
    cases h
  | _ => rfl

/-- An expression does not begin with a token that ends a statement. -/
theorem isTerminator_of_reads {x : Nonterminal} {v : x.Result} (h : Reads x s v t) (hx : x.begins = true) :
    isTerminator s.current.kind = false := by
  induction h with
  | tighter h ih | sign h ih | unsigned h ih | primary h ih | lvalue h ih | uncompared h ih | unpiped h ih =>
    exact ih rfl
  | assign _ _ _ _ _ ih | conditional _ _ _ _ _ _ _ _ _ _ ih | disjunction _ _ _ _ _ ih | conjunction _ _ _ _ _ ih
  | membership _ _ _ _ _ ih | matching _ _ _ _ ih | compare _ _ _ _ _ ih | pipe _ _ _ _ _ _ ih | concat _ _ ih
  | sum _ _ _ _ ih | product _ _ _ _ ih | power _ _ _ _ ih | postStep _ _ _ ih | subscripts _ _ _ _ ih => exact ih rfl
  | signed hop | preStep hop => exact isTerminator_of_some hop (by decide)
  | regex hkind => rcases hkind with hkind | hkind <;> rw [hkind] <;> rfl
  | number hkind | string hkind | call hkind | builtin hkind | bareLength hkind | getline hkind | getlineFile hkind
  | group hkind | members hkind | field hkind | fieldStep hkind | name hkind | element hkind => rw [hkind]; rfl
  | noParts | parts | noItems | moreItems | noArguments | arguments | noTarget | someTarget => cases hx

theorem isFirm_of_reads {x : Nonterminal} {v : x.Result} (h : Reads x s v t) (hx : x.begins = true) :
    s.current.kind.isFirm = true :=
  isFirm_of_isTerminator (isTerminator_of_reads h hx)

theorem isFirm_of_level {lvl : Level} (h : (level n lvl p).run s = .ok (e, t)) : s.current.kind.isFirm = true :=
  isFirm_of_reads ((exprReads n).level h) rfl

/-- What accepting a token comes to in the first text. -/
theorem accept_split {α : Type} {k : TokenKind} {yes no : Parser α} {a : α}
    (h : (do if ← accept k then yes else no).run s = .ok (a, t)) :
    (∃ s₁, s.current.kind = k ∧ Takes s s₁ ∧ yes.run s₁ = .ok (a, t)) ∨
      s.current.kind ≠ k ∧ no.run s = .ok (a, t) := by
  obtain ⟨b, s₁, haccept, hnext⟩ := bind_ok.1 h
  rw [accept_iff] at haccept
  by_cases hkind : s.current.kind = k
  · rw [if_pos hkind] at haccept
    obtain ⟨rfl, htake⟩ := haccept
    exact .inl ⟨s₁, hkind, htake, hnext⟩
  · rw [if_neg hkind] at haccept
    obtain ⟨rfl, rfl⟩ := haccept
    exact .inr ⟨hkind, hnext⟩

@[simp]
theorem asLValue?_placed (f : Span → Span) (e : Expr) :
    (e.placed f).asLValue? = e.asLValue?.map (LValue.placed f) := by
  cases e <;> simp [Expr.placed, Expr.asLValue?]

@[simp]
theorem length_placedAll (f : Span → Span) (es : List Expr) : (placedAll f es).length = es.length := by
  induction es with
  | nil => rfl
  | cons e es ih => simp [placedAll, ih]

/-! ### The steps -/

/-- What the functions of the grammar give with a fuel in the first text they give with another one in the second text.
A chain, and a row of pipes, goes on with what has been read before. -/
structure ExprMirrors (C : Correspondence) (n m : Nat) : Prop where
  level : ∀ {closed lvl p s e t}, (level n lvl p).run s = .ok (e, t) →
    Mirrors C closed .near .alike s t (Carries [e.outline]) (level m lvl p) (e.placed C.place.span)
  chain : ∀ {closed lvl p start left s e t}, (chain n lvl p start left).run s = .ok (e, t) →
    Mirrors C closed .alike .alike s t (Extends [left.outline] [e.outline])
      (chain m lvl p (C.token start) (left.placed C.place.span)) (e.placed C.place.span)
  signed : ∀ {closed lvl p s e t}, (signed n lvl p).run s = .ok (e, t) →
    Mirrors C closed .near .alike s t (Carries [e.outline]) (signed m lvl p) (e.placed C.place.span)
  parts : ∀ {closed p s es t}, (parts n p).run s = .ok (es, t) →
    Mirrors C closed .alike .alike s t (Carries (outlines es)) (parts m p) (placedAll C.place.span es)
  pipes : ∀ {closed start command s e t}, (pipes n start command).run s = .ok (e, t) →
    Mirrors C closed .alike .alike s t (Extends [command.outline] [e.outline])
      (pipes m (C.token start) (command.placed C.place.span)) (e.placed C.place.span)
  lvalue : ∀ {closed s target t}, (lvalue n).run s = .ok (target, t) →
    Mirrors C closed .near .alike s t (Carries [target.outline]) (lvalue m) (target.placed C.place.span)
  field : ∀ {closed s target t}, s.current.kind = .dollar → (field n).run s = .ok (target, t) →
    Mirrors C closed .near .alike s t (Carries [target.outline]) (field m) (target.placed C.place.span)
  name : ∀ {closed s target t}, (name n).run s = .ok (target, t) →
    Mirrors C closed .near .alike s t (Carries [target.outline]) (name m) (target.placed C.place.span)
  subscripts : ∀ {closed s subs t}, (subscripts n).run s = .ok (subs, t) →
    Mirrors C closed .near .alike s t (Carries (outlines subs.items)) (subscripts m) (subs.placed C.place.span)
  moreItems : ∀ {closed p s es t}, (moreItems n p).run s = .ok (es, t) →
    Mirrors C closed .alike .alike s t (Carries (outlines es)) (moreItems m p) (placedAll C.place.span es)
  arguments : ∀ {closed s es t}, (arguments n).run s = .ok (es, t) →
    Mirrors C closed .alike .alike s t (Carries (outlines es)) (arguments m) (placedAll C.place.span es)
  getlineTarget : ∀ {closed s target t}, (getlineTarget n).run s = .ok (target, t) →
    Mirrors C closed .alike .alike s t (Carries [targetOutline target]) (getlineTarget m)
      (placedTarget C.place.span target)
  primary : ∀ {closed s e t}, (primary n).run s = .ok (e, t) →
    Mirrors C closed .near .alike s t (Carries [e.outline]) (primary m) (e.placed C.place.span)

theorem mirrors_assignment (ih : ExprMirrors C n m) (h : (level (n + 1) .assignment p).run s = .ok (e, t)) :
    Mirrors C closed .near .alike s t (Carries [e.outline]) (level (m + 1) .assignment p) (e.placed C.place.span) := by
  simp only [level, bind_ok, current_ok, kind_ok] at h ⊢
  obtain ⟨_, s, ⟨rfl, rfl⟩, left, _, hleft, _, s₁, ⟨rfl, rfl⟩, h⟩ := h
  refine .current (isFirm_of_level hleft) (.bind (ih.level hleft) fun path₁ h₁ => .kind (fun _ => rfl) ?_)
  rw [asLValue?_placed]
  split at h
  · rename_i op target hop htarget
    obtain rfl := eq_of_asLValue? htarget
    simp only [bind_ok, advance_iff, pure_ok, spanFrom_iff] at h
    obtain ⟨_, s₂, ⟨rfl, htake⟩, _, s₃, hskip, right, s₄, hright, _, _, ⟨rfl, rfl⟩, rfl, rfl⟩ := h
    rw [hop, htarget]
    refine .bind (.advance htake (isTight_of_some hop (by decide))) ?_
    rintro _ rfl
    refine .bind (.skipNewlines (skips_of_skip hskip) (isFirm_of_level hright)) fun gap hgap => ?_
    refine .bind (ih.level hright) fun path₂ h₂ => .spanFrom _ (.pure ?_)
    have hmark := (Carries.leaf s₁.current false).append (.newlines hgap)
    simpa [Carries, Expr.outline] using h₁.append (hmark.append h₂)
  · rename_i hnone
    obtain ⟨rfl, rfl⟩ := pure_ok.1 h
    split
    · rename_i op target hop htarget
      obtain ⟨target, htarget, -⟩ := Option.map_eq_some_iff.1 htarget
      exact absurd htarget (hnone op target hop)
    · exact .pure (by simpa using h₁)

theorem mirrors_conditional (ih : ExprMirrors C n m) (h : (level (n + 1) .conditional p).run s = .ok (e, t)) :
    Mirrors C closed .near .alike s t (Carries [e.outline]) (level (m + 1) .conditional p) (e.placed C.place.span) := by
  simp only [level, bind_ok (x := current), current_ok] at h ⊢
  obtain ⟨_, s, ⟨rfl, rfl⟩, h⟩ := h
  obtain ⟨test, s₁, htest, h⟩ := bind_ok.1 h
  refine .current (isFirm_of_level htest) (.bind (ih.level htest) fun path₁ h₁ => ?_)
  rcases accept_split h with ⟨s₂, hmark, htake, h⟩ | ⟨hmark, h⟩
  · simp only [bind_ok, expect_iff, pure_ok, spanFrom_iff] at h
    obtain ⟨_, s₃, hskip, yes, s₄, hyes, _, s₅, hskip', _, s₆, ⟨-, hcolon, htake'⟩, _, s₇, hskip'', no, s₈, hno, _, _,
      ⟨rfl, rfl⟩, rfl, rfl⟩ := h
    refine .bind (.accept hmark htake rfl) ?_
    rintro _ rfl
    refine .bind (.skipNewlines (skips_of_skip hskip) (isFirm_of_level hyes)) fun gap₁ hgap₁ => ?_
    refine .bind (ih.level hyes) fun path₂ h₂ => ?_
    refine .bind (.skipNewlines (skips_of_skip hskip') (hcolon ▸ rfl)) fun gap₂ hgap₂ => ?_
    refine .bind (.expect hcolon htake' rfl) ?_
    rintro _ rfl
    refine .bind (.skipNewlines (skips_of_skip hskip'') (isFirm_of_level hno)) fun gap₃ hgap₃ => ?_
    refine .bind (ih.level hno) fun path₃ h₃ => .spanFrom _ (.pure ?_)
    have hbetween := (Carries.mark false hmark rfl).append (.newlines hgap₁)
    have hbetween' := (Carries.newlines hgap₂).append ((Carries.mark false hcolon rfl).append (.newlines hgap₃))
    simpa [Carries, Expr.outline] using h₁.append (hbetween.append (h₂.append (hbetween'.append h₃)))
  · obtain ⟨rfl, rfl⟩ := pure_ok.1 h
    refine .bind (.acceptNot hmark rfl) ?_
    rintro _ rfl
    exact .pure (by simpa using h₁)

theorem mirrors_operand (ih : ExprMirrors C n m) {start : Token} {left : Expr} {α : Type} {next : Expr → Parser α}
    {a b : α} {P : List Taken → Prop} {next' : Expr → Parser α}
    (h : (if p then pure left >>= next else pipes n start left >>= next).run s = .ok (a, t))
    (hnext : ∀ {e s₁}, (next e).run s₁ = .ok (a, t) → ∀ path, Extends [left.outline] [e.outline] path →
      Mirrors C closed .alike .alike s₁ t (fun rest => P (path ++ rest)) (next' (e.placed C.place.span)) b) :
    Mirrors C closed .alike .alike s t P
      (if p then pure (left.placed C.place.span) >>= next'
        else pipes m (C.token start) (left.placed C.place.span) >>= next') b := by
  cases p with
  | true =>
    simp only [if_pos, bind_ok, pure_ok] at h ⊢
    obtain ⟨_, s, ⟨rfl, rfl⟩, h⟩ := h
    exact .bind (.pure .refl) fun path hpath => hnext h path hpath
  | false =>
    rw [if_neg Bool.false_ne_true] at h ⊢
    obtain ⟨e, s₁, hpipes, h⟩ := bind_ok.1 h
    exact .bind (ih.pipes hpipes) fun path hpath => hnext h path hpath

theorem mirrors_comparison (ih : ExprMirrors C n m) (h : (level (n + 1) .comparison p).run s = .ok (e, t)) :
    Mirrors C closed .near .alike s t (Carries [e.outline]) (level (m + 1) .comparison p) (e.placed C.place.span) := by
  simp only [level, bind_ok (x := current), current_ok] at h ⊢
  obtain ⟨_, s, ⟨rfl, rfl⟩, h⟩ := h
  obtain ⟨first, s₁, hfirst, h⟩ := bind_ok.1 h
  refine .current (isFirm_of_level hfirst) (.bind (ih.level hfirst) fun path₁ h₁ => ?_)
  refine mirrors_operand ih h fun {left s₂} h path₂ h₂ => ?_
  simp only [bind_ok (x := kind), kind_ok] at h
  obtain ⟨_, s₂, ⟨rfl, rfl⟩, h⟩ := h
  refine .kind (fun _ => rfl) ?_
  have hleft : Carries [left.outline] (path₁ ++ path₂) := h₂.carries h₁
  split at h
  · rename_i op hop
    split at h
    · rename_i hprint
      obtain ⟨rfl, rfl⟩ := pure_ok.1 h
      rw [if_pos hprint]
      exact .pure (by simpa using hleft)
    · rename_i hprint
      obtain ⟨_, s₃, htoken, h⟩ := bind_ok.1 h
      obtain ⟨rfl, htake⟩ := advance_iff.1 htoken
      obtain ⟨second, s₄, hsecond, h⟩ := bind_ok.1 h
      rw [if_neg hprint]
      refine .bind (.advance htake (isTight_of_some hop (by decide))) ?_
      rintro _ rfl
      refine .bind (ih.level hsecond).of_near fun path₃ h₃ => ?_
      refine mirrors_operand ih h fun {right s₅} h path₄ h₄ => ?_
      simp only [bind_ok, spanFrom_iff, pure_ok] at h
      obtain ⟨_, s₅, ⟨rfl, rfl⟩, rfl, rfl⟩ := h
      refine .spanFrom _ (.pure ?_)
      simpa [Carries, Expr.outline] using hleft.append ((Carries.leaf s₂.current false).append (h₄.carries h₃))
  · obtain ⟨rfl, rfl⟩ := pure_ok.1 h
    exact .pure (by simpa using hleft)

theorem mirrors_concatenation (ih : ExprMirrors C n m) (h : (level (n + 1) .concatenation p).run s = .ok (e, t)) :
    Mirrors C closed .near .alike s t (Carries [e.outline]) (level (m + 1) .concatenation p)
      (e.placed C.place.span) := by
  simp only [level, bind_ok, current_ok] at h ⊢
  obtain ⟨_, s, ⟨rfl, rfl⟩, first, s₁, hfirst, more, s₂, hmore, h⟩ := h
  refine .current (isFirm_of_level hfirst) (.bind (ih.level hfirst) fun path₁ h₁ => ?_)
  refine .bind (ih.parts hmore) fun path₂ h₂ => ?_
  split at h
  · obtain ⟨rfl, rfl⟩ := pure_ok.1 h
    exact .pure (by simpa [Carries, Awk.outlines] using h₁.append h₂)
  · rename_i hne
    simp only [bind_ok, spanFrom_iff, pure_ok] at h
    obtain ⟨_, _, ⟨rfl, rfl⟩, rfl, rfl⟩ := h
    obtain ⟨part, more, rfl⟩ := List.exists_cons_of_ne_nil hne
    refine .spanFrom _ (.pure ?_)
    simpa [Carries, Expr.outline, Awk.outlines] using h₁.append h₂

theorem mirrors_power (ih : ExprMirrors C n m) (h : (level (n + 1) .power p).run s = .ok (e, t)) :
    Mirrors C closed .near .alike s t (Carries [e.outline]) (level (m + 1) .power p) (e.placed C.place.span) := by
  simp only [level, bind_ok (x := current), current_ok] at h ⊢
  obtain ⟨_, s, ⟨rfl, rfl⟩, h⟩ := h
  obtain ⟨base, s₁, hbase, h⟩ := bind_ok.1 h
  refine .current (isFirm_of_level hbase) (.bind (ih.level hbase) fun path₁ h₁ => ?_)
  rcases accept_split h with ⟨s₂, hkind, htake, h⟩ | ⟨hkind, h⟩
  · simp only [bind_ok, spanFrom_iff, pure_ok] at h
    obtain ⟨exponent, s₃, hexponent, _, _, ⟨rfl, rfl⟩, rfl, rfl⟩ := h
    refine .bind (.accept hkind htake rfl) ?_
    rintro _ rfl
    refine .bind (ih.signed hexponent).of_near fun path₂ h₂ => .spanFrom _ (.pure ?_)
    simpa [Carries, Expr.outline] using h₁.append ((Carries.mark false hkind rfl).append h₂)
  · obtain ⟨rfl, rfl⟩ := pure_ok.1 h
    refine .bind (.acceptNot hkind rfl) ?_
    rintro _ rfl
    exact .pure (by simpa using h₁)

theorem mirrors_step (ih : ExprMirrors C n m) (h : (level (n + 1) .step p).run s = .ok (e, t)) :
    Mirrors C closed .near .alike s t (Carries [e.outline]) (level (m + 1) .step p) (e.placed C.place.span) := by
  have hread := (exprReads (n + 1)).level h
  simp only [level, bind_ok (x := current), current_ok] at h ⊢
  obtain ⟨_, s, ⟨rfl, rfl⟩, h⟩ := h
  refine .current (isFirm_of_reads hread rfl) ?_
  rw [C.token_kind]
  split at h
  · rename_i op hop
    simp only [bind_ok, advance_iff, spanFrom_iff, pure_ok] at h
    obtain ⟨_, s₁, ⟨rfl, htake⟩, target, s₂, htarget, _, _, ⟨rfl, rfl⟩, rfl, rfl⟩ := h
    refine .bind (.advance htake (isTight_of_some hop (by decide))) ?_
    rintro _ rfl
    refine .bind (ih.lvalue htarget).of_near fun path h => .spanFrom _ (.pure ?_)
    simpa [Carries, Expr.outline] using (Carries.leaf s.current false).append h
  · simp only [bind_ok, kind_ok] at h
    obtain ⟨operand, _, hoperand, _, s₁, ⟨rfl, rfl⟩, h⟩ := h
    refine .bind (ih.level hoperand) fun path₁ h₁ => ?_
    rw [asLValue?_placed]
    refine .kind (fun _ => ?_) ?_
    · cases operand.asLValue? <;> rfl
    split at h
    · rename_i target op htarget hop
      obtain rfl := eq_of_asLValue? htarget
      simp only [bind_ok, advance_iff, spanFrom_iff, pure_ok] at h
      obtain ⟨_, s₂, ⟨rfl, htake⟩, _, _, ⟨rfl, rfl⟩, rfl, rfl⟩ := h
      rw [htarget, hop]
      refine .bind (.advance htake (isTight_of_some hop (by decide))) ?_
      rintro _ rfl
      refine .spanFrom _ (.pure ?_)
      simpa [Carries, Expr.outline] using h₁.append (Carries.leaf s₁.current false)
    · rename_i hnone
      obtain ⟨rfl, rfl⟩ := pure_ok.1 h
      split
      · rename_i target op htarget hop
        obtain ⟨target, htarget, -⟩ := Option.map_eq_some_iff.1 htarget
        exact absurd hop (hnone target op htarget)
      · exact .pure (by simpa using h₁)

theorem mirrors_chain_start (ih : ExprMirrors C n m) {lvl : Level}
    (h : (do
      let start ← current
      let left ← level n lvl.tighter p
      chain n lvl p start left : Parser Expr).run s = .ok (e, t)) :
    Mirrors C closed .near .alike s t (Carries [e.outline])
      (do
        let start ← current
        let left ← level m lvl.tighter p
        chain m lvl p start left) (e.placed C.place.span) := by
  simp only [bind_ok, current_ok] at h
  obtain ⟨_, s, ⟨rfl, rfl⟩, left, s₁, hleft, h⟩ := h
  refine .current (isFirm_of_level hleft) (.bind (ih.level hleft) fun path₁ h₁ => ?_)
  exact (ih.chain h).imp fun path₂ h₂ => h₂.carries h₁

theorem mirrors_level (ih : ExprMirrors C n m) {lvl : Level} (h : (level (n + 1) lvl p).run s = .ok (e, t)) :
    Mirrors C closed .near .alike s t (Carries [e.outline]) (level (m + 1) lvl p) (e.placed C.place.span) := by
  cases lvl with
  | assignment => exact mirrors_assignment ih h
  | conditional => exact mirrors_conditional ih h
  | comparison => exact mirrors_comparison ih h
  | concatenation => exact mirrors_concatenation ih h
  | sign => exact ih.signed h
  | power => exact mirrors_power ih h
  | step => exact mirrors_step ih h
  | primary => exact ih.primary h
  | _ => exact mirrors_chain_start ih h

/-- One round of a chain, with an operator that newlines may follow. -/
theorem mirrors_round_open (ih : ExprMirrors C n m) {lvl tighter : Level} {start : Token} {left : Expr}
    (node node' : Span → Expr → Expr) (hfirm : s.current.kind.isFirm = true)
    (hplaced : ∀ span right,
      (node span right).placed C.place.span = node' (C.place.span span) (right.placed C.place.span))
    (hcarries : ∀ {span right path}, Carries [right.outline] path →
      Extends [left.outline] [(node span right).outline] (⟨s.current, false⟩ :: path))
    (h : (do
      let _ ← advance
      skipNewlines
      let right ← level n tighter p
      chain n lvl p start (node (← spanFrom start) right) : Parser Expr).run s = .ok (e, t)) :
    Mirrors C closed .alike .alike s t (Extends [left.outline] [e.outline])
      (do
        let _ ← advance
        skipNewlines
        let right ← level m tighter p
        chain m lvl p (C.token start) (node' (← spanFrom (C.token start)) right)) (e.placed C.place.span) := by
  simp only [bind_ok, advance_iff, spanFrom_iff] at h
  obtain ⟨_, s₂, ⟨-, htake⟩, _, s₃, hskip, right, _, hright, _, s₄, ⟨rfl, rfl⟩, h⟩ := h
  refine .bind (.advanceOpen false htake hfirm) ?_
  rintro _ rfl
  refine .bind (.skipNewlines (skips_of_skip hskip) (isFirm_of_level hright)) fun gap hgap => ?_
  refine .bind (ih.level hright) fun path h₁ => .spanFrom _ ?_
  rw [← hplaced]
  refine (ih.chain h).imp fun path' h' => ?_
  have hnode : Extends [left.outline] [(node (s₄.spanFrom start) right).outline]
      (⟨s.current, false⟩ :: (gap ++ path)) :=
    hcarries ((Carries.newlines hgap).append h₁)
  simpa using hnode.trans h'

/-- One round of a chain, with an operator that is kept. -/
theorem mirrors_round (ih : ExprMirrors C n m) {lvl tighter : Level} {start : Token} {left : Expr}
    (node node' : Span → Token → Expr → Expr) (htight : s.current.kind.isTight = true)
    (hplaced : ∀ span token right, (node span token right).placed C.place.span =
      node' (C.place.span span) (C.token token) (right.placed C.place.span))
    (hcarries : ∀ {span token right path}, Carries [right.outline] path →
      Extends [left.outline] [(node span token right).outline] (⟨token, false⟩ :: path))
    (h : (do
      let token ← advance
      let right ← level n tighter p
      chain n lvl p start (node (← spanFrom start) token right) : Parser Expr).run s = .ok (e, t)) :
    Mirrors C closed .alike .alike s t (Extends [left.outline] [e.outline])
      (do
        let token ← advance
        let right ← level m tighter p
        chain m lvl p (C.token start) (node' (← spanFrom (C.token start)) token right)) (e.placed C.place.span) := by
  simp only [bind_ok, advance_iff, spanFrom_iff] at h
  obtain ⟨_, s₂, ⟨rfl, htake⟩, right, s₄, hright, _, _, ⟨rfl, rfl⟩, h⟩ := h
  refine .bind (.advance htake htight) ?_
  rintro _ rfl
  refine .bind (ih.level hright).of_near fun path h₁ => .spanFrom _ ?_
  rw [← hplaced]
  refine (ih.chain h).imp fun path' h' => ?_
  simpa using (hcarries h₁).trans h'

theorem mirrors_membership (ih : ExprMirrors C n m) {lvl : Level} {start : Token} {left : Expr}
    (hkind : s.current.kind = .in)
    (h : (do
      let _ ← advance
      let array ← expect .name "array name"
      chain n lvl p start (.member (← spanFrom start) [left] none array) : Parser Expr).run s = .ok (e, t)) :
    Mirrors C closed .alike .alike s t (Extends [left.outline] [e.outline])
      (do
        let _ ← advance
        let array ← expect .name "array name"
        chain m lvl p (C.token start) (.member (← spanFrom (C.token start)) [left.placed C.place.span] none array))
      (e.placed C.place.span) := by
  simp only [bind_ok, advance_iff, expect_iff, spanFrom_iff] at h
  obtain ⟨_, s₂, ⟨-, htake⟩, _, s₃, ⟨rfl, hname, htake'⟩, _, _, ⟨rfl, rfl⟩, h⟩ := h
  refine .bind (.advance htake (hkind ▸ rfl)) ?_
  rintro _ rfl
  refine .bind (.expect hname htake' rfl) ?_
  rintro _ rfl
  refine .spanFrom _ ((ih.chain h).imp fun path' h' => ?_)
  have hmember (span : Span) : Extends [left.outline] [(Expr.member span [left] none s₂.current).outline]
      ([⟨s.current, false⟩] ++ [⟨s₂.current, false⟩]) := by
    have hmarks := (Carries.mark false hkind rfl).append (Carries.leaf s₂.current false)
    rw [Carries, List.nil_append] at hmarks
    rw [Extends, ← hmarks]
    simp [Expr.outline, Awk.outlines]
  simpa using (hmember _).trans h'

theorem mirrors_chain (ih : ExprMirrors C n m) {lvl : Level} {start : Token} {left : Expr}
    (h : (chain (n + 1) lvl p start left).run s = .ok (e, t)) :
    Mirrors C closed .alike .alike s t (Extends [left.outline] [e.outline])
      (chain (m + 1) lvl p (C.token start) (left.placed C.place.span)) (e.placed C.place.span) := by
  simp only [chain, bind_ok (x := kind), kind_ok] at h ⊢
  obtain ⟨_, s, ⟨rfl, rfl⟩, h⟩ := h
  refine .kind (fun _ => by cases lvl <;> rfl) ?_
  -- By level, and by the operator that goes on with it; without one the chain ends.
  split at h
  · rename_i hkind
    refine mirrors_round_open ih (.logical · .or left ·) _ (hkind ▸ rfl) (fun _ _ => rfl) (fun hright => ?_) h
    simpa [Extends, Carries, Expr.outline] using (Carries.mark false hkind rfl).append hright
  · rename_i hkind
    refine mirrors_round_open ih (.logical · .and left ·) _ (hkind ▸ rfl) (fun _ _ => rfl) (fun hright => ?_) h
    simpa [Extends, Carries, Expr.outline] using (Carries.mark false hkind rfl).append hright
  · rename_i hkind
    exact mirrors_membership ih hkind h
  · rename_i hkind
    refine mirrors_round ih (.matching · left false · ·) _ (hkind ▸ rfl) (fun _ _ _ => rfl) (fun hright => ?_) h
    simpa [Extends, Carries, Expr.outline] using (Carries.leaf _ false).append hright
  · rename_i hkind
    refine mirrors_round ih (.matching · left true · ·) _ (hkind ▸ rfl) (fun _ _ _ => rfl) (fun hright => ?_) h
    simpa [Extends, Carries, Expr.outline] using (Carries.leaf _ false).append hright
  · split at h
    · rename_i op hop
      have htight := isTight_of_some hop (by decide)
      refine mirrors_round ih (.arith · left op · ·) _ htight (fun _ _ _ => rfl) (fun hright => ?_) h
      simpa [Extends, Carries, Expr.outline] using (Carries.leaf _ false).append hright
    · obtain ⟨rfl, rfl⟩ := pure_ok.1 h
      exact .pure .refl
  · split at h
    · rename_i op hop
      have htight := isTight_of_some hop (by decide)
      refine mirrors_round ih (.arith · left op · ·) _ htight (fun _ _ _ => rfl) (fun hright => ?_) h
      simpa [Extends, Carries, Expr.outline] using (Carries.leaf _ false).append hright
    · obtain ⟨rfl, rfl⟩ := pure_ok.1 h
      exact .pure .refl
  · obtain ⟨rfl, rfl⟩ := pure_ok.1 h
    exact .pure .refl

theorem mirrors_signed (ih : ExprMirrors C n m) {lvl : Level} (h : (signed (n + 1) lvl p).run s = .ok (e, t)) :
    Mirrors C closed .near .alike s t (Carries [e.outline]) (signed (m + 1) lvl p) (e.placed C.place.span) := by
  have hread := (exprReads (n + 1)).signed h
  simp only [signed, bind_ok (x := current), current_ok] at h ⊢
  obtain ⟨_, s, ⟨rfl, rfl⟩, h⟩ := h
  refine .current (isFirm_of_reads hread rfl) ?_
  rw [C.token_kind]
  split at h
  · rename_i op hop
    simp only [bind_ok, advance_iff, spanFrom_iff, pure_ok] at h
    obtain ⟨_, s₁, ⟨rfl, htake⟩, operand, s₂, hoperand, _, _, ⟨rfl, rfl⟩, rfl, rfl⟩ := h
    refine .bind (.advance htake (isTight_of_some hop (by decide))) ?_
    rintro _ rfl
    refine .bind (ih.signed hoperand).of_near fun path h => .spanFrom _ (.pure ?_)
    simpa [Carries, Expr.outline] using (Carries.leaf s.current false).append h
  · exact ih.level h

theorem mirrors_parts (ih : ExprMirrors C n m) (h : (parts (n + 1) p).run s = .ok (es, t)) :
    Mirrors C closed .alike .alike s t (Carries (outlines es)) (parts (m + 1) p) (placedAll C.place.span es) := by
  simp only [parts, bind_ok (x := kind), kind_ok] at h ⊢
  obtain ⟨_, s, ⟨rfl, rfl⟩, h⟩ := h
  refine .kind (fun _ => rfl) ?_
  split at h
  · rename_i hstart
    simp only [bind_ok, pure_ok] at h
    obtain ⟨part, s₁, hpart, more, s₂, hmore, rfl, rfl⟩ := h
    rw [if_pos hstart]
    refine .bind (ih.level hpart).of_near fun path₁ h₁ => .bind (ih.parts hmore) fun path₂ h₂ => .pure ?_
    simpa [Carries, Awk.outlines] using h₁.append h₂
  · rename_i hstart
    obtain ⟨rfl, rfl⟩ := pure_ok.1 h
    rw [if_neg hstart]
    exact .pure .nil

theorem mirrors_pipes (ih : ExprMirrors C n m) {start : Token} {command : Expr}
    (h : (pipes (n + 1) start command).run s = .ok (e, t)) :
    Mirrors C closed .alike .alike s t (Extends [command.outline] [e.outline])
      (pipes (m + 1) (C.token start) (command.placed C.place.span)) (e.placed C.place.span) := by
  simp only [pipes, bind_ok (x := kind), kind_ok] at h ⊢
  obtain ⟨_, s, ⟨rfl, rfl⟩, h⟩ := h
  refine .kind (fun _ => rfl) ?_
  split at h
  · rename_i hpipe
    obtain ⟨k, s₁, hnext, hrest⟩ := bind_ok.1 h
    rw [if_pos hpipe]
    refine .nextKind hpipe hnext rfl ?_
    obtain ⟨rfl, hk⟩ := nextKind_next hnext
    split at hrest
    · rename_i hgetline
      simp only [bind_ok, advance_iff, spanFrom_iff] at hrest
      obtain ⟨_, s₂, ⟨-, htake⟩, _, s₃, ⟨-, htake'⟩, target, _, htarget, _, s₄, ⟨rfl, rfl⟩, h⟩ := hrest
      have hkind := (hk htake).trans hgetline
      rw [if_pos hgetline]
      refine .bind (.advance htake (hpipe ▸ rfl)) ?_
      rintro _ rfl
      refine .bind (.advance htake' (hkind ▸ rfl)) ?_
      rintro _ rfl
      refine .bind (ih.getlineTarget htarget) fun path h₁ => .spanFrom _ ((ih.pipes h).imp fun path' h' => ?_)
      have hpiped : Extends [command.outline] [(Expr.getlineCommand (s₄.spanFrom start) command target).outline]
          (⟨s₁.current, false⟩ :: ⟨s₂.current, false⟩ :: path) := by
        have hmarks := (Carries.mark false hpipe rfl).append ((Carries.mark false hkind rfl).append h₁)
        simpa [Extends, Carries, Expr.outline] using hmarks
      simpa using hpiped.trans h'
    · rename_i hgetline
      obtain ⟨rfl, rfl⟩ := pure_ok.1 hrest
      rw [if_neg hgetline]
      exact .pure .refl
  · rename_i hpipe
    obtain ⟨rfl, rfl⟩ := pure_ok.1 h
    rw [if_neg hpipe]
    exact .pure .refl

theorem mirrors_lvalue (ih : ExprMirrors C n m) (h : (lvalue (n + 1)).run s = .ok (target, t)) :
    Mirrors C closed .near .alike s t (Carries [target.outline]) (lvalue (m + 1)) (target.placed C.place.span) := by
  simp only [lvalue, bind_ok (x := kind), kind_ok] at h ⊢
  obtain ⟨_, s, ⟨rfl, rfl⟩, h⟩ := h
  refine .kind (fun _ => rfl) ?_
  split at h
  · rename_i hkind
    exact ih.field hkind h
  · exact ih.name h
  · exact absurd h failExpecting_ok

theorem mirrors_field (ih : ExprMirrors C n m) (hkind : s.current.kind = .dollar)
    (h : (field (n + 1)).run s = .ok (target, t)) :
    Mirrors C closed .near .alike s t (Carries [target.outline]) (field (m + 1)) (target.placed C.place.span) := by
  simp only [field, bind_ok (x := advance), bind_ok (x := current), advance_iff, current_ok] at h ⊢
  obtain ⟨start, _, ⟨hstart, htake⟩, _, s₁, ⟨rfl, rfl⟩, h⟩ := h
  subst hstart
  refine .bind (.advance htake (hkind ▸ rfl)) ?_
  rintro _ rfl
  split at h
  · rename_i op hop
    simp only [bind_ok, advance_iff, spanFrom_iff, pure_ok] at h
    obtain ⟨_, s₂, ⟨rfl, htake'⟩, target, s₃, htarget, _, _, ⟨rfl, rfl⟩, _, _, ⟨rfl, rfl⟩, rfl, rfl⟩ := h
    have htight := isTight_of_some hop (by decide)
    refine .current (Bool.and_eq_true_iff.1 htight).1 ?_
    rw [C.token_kind, hop]
    refine .bind (.advance htake' htight) ?_
    rintro _ rfl
    refine .bind (ih.lvalue htarget).of_near fun path h => .spanFrom _ (.spanFrom _ (.pure ?_))
    have hall := (Carries.mark false hkind rfl).append ((Carries.leaf s₁.current false).append h)
    simpa [Carries, LValue.outline, Expr.outline] using hall
  · rename_i hop
    simp only [bind_ok, spanFrom_iff, pure_ok] at h
    obtain ⟨index, s₂, hindex, _, _, ⟨rfl, rfl⟩, rfl, rfl⟩ := h
    refine .current (isFirm_of_reads ((exprReads n).signed hindex) rfl) ?_
    rw [C.token_kind, hop]
    refine .bind (ih.signed hindex).of_near fun path h => .spanFrom _ (.pure ?_)
    simpa [Carries, LValue.outline] using (Carries.mark false hkind rfl).append h

theorem mirrors_name (ih : ExprMirrors C n m) (h : (name (n + 1)).run s = .ok (target, t)) :
    Mirrors C closed .near .alike s t (Carries [target.outline]) (name (m + 1)) (target.placed C.place.span) := by
  simp only [name] at h ⊢
  obtain ⟨_, s₁, htoken, h⟩ := bind_ok.1 h
  obtain ⟨rfl, hkind, htake⟩ := expect_iff.1 htoken
  refine .bind (.expect hkind htake rfl) ?_
  rintro _ rfl
  rcases accept_split h with ⟨s₂, hopen, htake', h⟩ | ⟨hopen, h⟩
  · simp only [bind_ok, spanFrom_iff, pure_ok] at h
    obtain ⟨subs, s₃, hsubs, _, _, ⟨rfl, rfl⟩, rfl, rfl⟩ := h
    refine .bind (.accept hopen htake' rfl) ?_
    rintro _ rfl
    refine .bind (ih.subscripts hsubs).of_near fun path h => .spanFrom _ (.pure ?_)
    have hall := (Carries.leaf s.current false).append ((Carries.mark false hopen rfl).append h)
    simpa [Carries, LValue.outline] using hall
  · obtain ⟨rfl, rfl⟩ := pure_ok.1 h
    refine .bind (.acceptNot hopen rfl) ?_
    rintro _ rfl
    exact .pure (by simp [Carries, LValue.outline])

theorem mirrors_subscripts (ih : ExprMirrors C n m) {subs : Subscripts}
    (h : (subscripts (n + 1)).run s = .ok (subs, t)) :
    Mirrors C closed .near .alike s t (Carries (outlines subs.items)) (subscripts (m + 1))
      (subs.placed C.place.span) := by
  simp only [subscripts, bind_ok, current_ok, expect_iff, spanFrom_iff, pure_ok] at h ⊢
  obtain ⟨_, s, ⟨rfl, rfl⟩, first, s₁, hfirst, more, s₂, hmore, _, s₃, ⟨-, hclose, htake⟩, _, _, ⟨rfl, rfl⟩, rfl,
    rfl⟩ := h
  refine .current (isFirm_of_level hfirst) (.bind (ih.level hfirst) fun path₁ h₁ => ?_)
  refine .bind (ih.moreItems hmore) fun path₂ h₂ => .bind (.expect hclose htake rfl) ?_
  rintro _ rfl
  refine .spanFrom _ (.pure ?_)
  simpa [Awk.outlines] using h₁.append (h₂.append (Carries.mark false hclose rfl))

theorem mirrors_moreItems (ih : ExprMirrors C n m) (h : (moreItems (n + 1) p).run s = .ok (es, t)) :
    Mirrors C closed .alike .alike s t (Carries (outlines es)) (moreItems (m + 1) p) (placedAll C.place.span es) := by
  simp only [moreItems] at h ⊢
  rcases accept_split h with ⟨s₁, hcomma, htake, h⟩ | ⟨hcomma, h⟩
  · simp only [bind_ok, pure_ok] at h
    obtain ⟨_, s₂, hskip, e, s₃, he, more, s₄, hmore, rfl, rfl⟩ := h
    refine .bind (.acceptOpen hcomma htake rfl) ?_
    rintro _ rfl
    refine .bind (.skipNewlines (skips_of_skip hskip) (isFirm_of_level he)) fun gap hgap => ?_
    refine .bind (ih.level he) fun path₁ h₁ => .bind (ih.moreItems hmore) fun path₂ h₂ => .pure ?_
    have hall := (Carries.mark false hcomma rfl).append ((Carries.newlines hgap).append (h₁.append h₂))
    simpa [Carries, Awk.outlines] using hall
  · obtain ⟨rfl, rfl⟩ := pure_ok.1 h
    refine .bind (.acceptNot hcomma rfl) ?_
    rintro _ rfl
    exact .pure .nil

theorem mirrors_arguments (ih : ExprMirrors C n m) (h : (arguments (n + 1)).run s = .ok (es, t)) :
    Mirrors C closed .alike .alike s t (Carries (outlines es)) (arguments (m + 1)) (placedAll C.place.span es) := by
  simp only [arguments] at h ⊢
  obtain ⟨_, s₁, hskip, h⟩ := bind_ok.1 h
  rcases accept_split h with ⟨s₂, hclose, htake, h⟩ | ⟨hclose, h⟩
  · obtain ⟨rfl, rfl⟩ := pure_ok.1 h
    refine .bind (.skipNewlines (skips_of_skip hskip) (hclose ▸ rfl)) fun gap hgap => ?_
    refine .bind (.accept hclose htake rfl) ?_
    rintro _ rfl
    exact .pure (by simpa [Carries, Awk.outlines] using (Carries.newlines hgap).append (Carries.mark false hclose rfl))
  · simp only [bind_ok, expect_iff, pure_ok] at h
    obtain ⟨first, s₂, hfirst, more, s₃, hmore, _, s₄, hskip', _, s₅, ⟨-, hclose', htake⟩, rfl, rfl⟩ := h
    refine .bind (.skipNewlines (skips_of_skip hskip) (isFirm_of_level hfirst)) fun gap hgap => ?_
    refine .bind (.acceptNot hclose rfl) ?_
    rintro _ rfl
    refine .bind (ih.level hfirst) fun path₁ h₁ => .bind (ih.moreItems hmore) fun path₂ h₂ => ?_
    refine .bind (.skipNewlines (skips_of_skip hskip') (hclose' ▸ rfl)) fun gap' hgap' => ?_
    refine .bind (.expect hclose' htake rfl) ?_
    rintro _ rfl
    have hafter := (Carries.newlines hgap').append (Carries.mark false hclose' rfl)
    exact .pure (by simpa [Carries, Awk.outlines] using (Carries.newlines hgap).append (h₁.append (h₂.append hafter)))

theorem mirrors_getlineTarget (ih : ExprMirrors C n m) {target : Option LValue}
    (h : (getlineTarget (n + 1)).run s = .ok (target, t)) :
    Mirrors C closed .alike .alike s t (Carries [targetOutline target]) (getlineTarget (m + 1))
      (placedTarget C.place.span target) := by
  simp only [getlineTarget, bind_ok (x := kind), kind_ok] at h ⊢
  obtain ⟨_, s, ⟨rfl, rfl⟩, h⟩ := h
  refine .kind (fun _ => rfl) ?_
  split at h
  · simp only [bind_ok, pure_ok] at h
    obtain ⟨target, _, htarget, rfl, rfl⟩ := h
    exact .bind (ih.name htarget).of_near fun path h => .pure (by simpa [targetOutline] using h)
  · rename_i hkind
    simp only [bind_ok, pure_ok] at h
    obtain ⟨target, _, htarget, rfl, rfl⟩ := h
    exact .bind (ih.field hkind htarget).of_near fun path h => .pure (by simpa [targetOutline] using h)
  · obtain ⟨rfl, rfl⟩ := pure_ok.1 h
    exact .pure (by simp [Carries, targetOutline])

theorem mirrors_call (ih : ExprMirrors C n m) (hkind : s.current.kind = .funcName)
    (h : (do
      let function ← advance
      let _ ← expect .lpar "'('"
      let args ← arguments n
      modify fun s => { s with calls := (function, args.length) :: s.calls }
      return .call (← spanFrom s.current) function args : Parser Expr).run s = .ok (e, t)) :
    Mirrors C closed .near .alike s t (Carries [e.outline])
      (do
        let function ← advance
        let _ ← expect .lpar "'('"
        let args ← arguments m
        modify fun s => { s with calls := (function, args.length) :: s.calls }
        return .call (← spanFrom (C.token s.current)) function args) (e.placed C.place.span) := by
  simp only [bind_ok, advance_iff, expect_iff, modify_ok, spanFrom_iff, pure_ok] at h
  obtain ⟨_, s₁, ⟨rfl, htake⟩, _, s₂, ⟨-, hopen, htake'⟩, args, s₃, hargs, _, _, rfl, _, _, ⟨rfl, rfl⟩, rfl, rfl⟩ := h
  refine .bind (.advance htake (hkind ▸ rfl)) ?_
  rintro _ rfl
  refine .bind (.expect hopen htake' rfl) ?_
  rintro _ rfl
  refine .bind (ih.arguments hargs) fun path h => ?_
  rw [length_placedAll]
  refine .bind (.recordCall _ _) ?_
  rintro _ rfl
  refine .spanFrom _ (.pure ?_)
  have hall := (Carries.leaf s.current false).append ((Carries.mark false hopen rfl).append h)
  simpa [Carries, Expr.outline] using hall

theorem mirrors_builtin (ih : ExprMirrors C n m) {b : Builtin} (hkind : s.current.kind = .builtin b)
    (h : (do
      let token ← advance
      if ← accept .lpar then
        let args ← arguments n
        return .builtin (← spanFrom s.current) b token args
      else if b = .length then
        return .builtin (← spanFrom s.current) b token []
      else
        failExpecting "'('" : Parser Expr).run s = .ok (e, t)) :
    Mirrors C closed .near .alike s t (Carries [e.outline])
      (do
        let token ← advance
        if ← accept .lpar then
          let args ← arguments m
          return .builtin (← spanFrom (C.token s.current)) b token args
        else if b = .length then
          return .builtin (← spanFrom (C.token s.current)) b token []
        else
          failExpecting "'('") (e.placed C.place.span) := by
  obtain ⟨_, s₁, htoken, h⟩ := bind_ok.1 h
  obtain ⟨rfl, htake⟩ := advance_iff.1 htoken
  refine .bind (.advance htake (hkind ▸ rfl)) ?_
  rintro _ rfl
  rcases accept_split h with ⟨s₂, hopen, htake', h⟩ | ⟨hopen, h⟩
  · simp only [bind_ok, spanFrom_iff, pure_ok] at h
    obtain ⟨args, s₃, hargs, _, _, ⟨rfl, rfl⟩, rfl, rfl⟩ := h
    refine .bind (.accept hopen htake' rfl) ?_
    rintro _ rfl
    refine .bind (ih.arguments hargs) fun path h => .spanFrom _ (.pure ?_)
    have hall := (Carries.leaf s.current false).append ((Carries.mark false hopen rfl).append h)
    simpa [Carries, Expr.outline] using hall
  split at h
  · rename_i hlength
    simp only [bind_ok, spanFrom_iff, pure_ok] at h
    obtain ⟨_, _, ⟨rfl, rfl⟩, rfl, rfl⟩ := h
    refine .bind (.acceptNot hopen rfl) ?_
    rintro _ rfl
    rw [if_pos hlength]
    refine .spanFrom _ (.pure ?_)
    simp [Carries, Expr.outline, Awk.outlines]
  · exact absurd h failExpecting_ok

theorem mirrors_getline (ih : ExprMirrors C n m) (hkind : s.current.kind = .getline)
    (h : (do
      let _ ← advance
      let target ← getlineTarget n
      if ← accept .lt then
        let file ← level n .step false
        return .getlineFile (← spanFrom s.current) target file
      else
        return .getline (← spanFrom s.current) target : Parser Expr).run s = .ok (e, t)) :
    Mirrors C closed .near .alike s t (Carries [e.outline])
      (do
        let _ ← advance
        let target ← getlineTarget m
        if ← accept .lt then
          let file ← level m .step false
          return .getlineFile (← spanFrom (C.token s.current)) target file
        else
          return .getline (← spanFrom (C.token s.current)) target) (e.placed C.place.span) := by
  obtain ⟨_, s₁, htoken, h⟩ := bind_ok.1 h
  obtain ⟨-, htake⟩ := advance_iff.1 htoken
  obtain ⟨target, s₂, htarget, h⟩ := bind_ok.1 h
  refine .bind (.advance htake (hkind ▸ rfl)) ?_
  rintro _ rfl
  refine .bind (ih.getlineTarget htarget) fun path₁ h₁ => ?_
  have hhead := (Carries.mark false hkind rfl).append h₁
  rcases accept_split h with ⟨s₃, hfrom, htake', h⟩ | ⟨hfrom, h⟩
  · simp only [bind_ok, spanFrom_iff, pure_ok] at h
    obtain ⟨file, s₄, hfile, _, _, ⟨rfl, rfl⟩, rfl, rfl⟩ := h
    refine .bind (.accept hfrom htake' rfl) ?_
    rintro _ rfl
    refine .bind (ih.level hfile).of_near fun path₂ h₂ => .spanFrom _ (.pure ?_)
    simpa [Carries, Expr.outline] using hhead.append ((Carries.mark false hfrom rfl).append h₂)
  · simp only [bind_ok, spanFrom_iff, pure_ok] at h
    obtain ⟨_, _, ⟨rfl, rfl⟩, rfl, rfl⟩ := h
    refine .bind (.acceptNot hfrom rfl) ?_
    rintro _ rfl
    refine .spanFrom _ (.pure ?_)
    simpa [Carries, Expr.outline] using hhead

theorem mirrors_group (ih : ExprMirrors C n m) (hopen : s.current.kind = .lpar)
    (h : (do
      let _ ← advance
      let first ← level n .assignment false
      if (← kind) = .comma then
        let more ← moreItems n false
        let close ← expect .rpar "')'"
        if ← accept .in then
          let array ← expect .name "array name"
          return .member (← spanFrom s.current) (first :: more)
            (some { s.current.span with stop := close.span.stop }) array
        else
          failExpecting "'in'"
      else
        let _ ← expect .rpar "')'"
        return .group (← spanFrom s.current) first : Parser Expr).run s = .ok (e, t)) :
    Mirrors C closed .near .alike s t (Carries [e.outline])
      (do
        let _ ← advance
        let first ← level m .assignment false
        if (← kind) = .comma then
          let more ← moreItems m false
          let close ← expect .rpar "')'"
          if ← accept .in then
            let array ← expect .name "array name"
            return .member (← spanFrom (C.token s.current)) (first :: more)
              (some { (C.token s.current).span with stop := close.span.stop }) array
          else
            failExpecting "'in'"
        else
          let _ ← expect .rpar "')'"
          return .group (← spanFrom (C.token s.current)) first) (e.placed C.place.span) := by
  obtain ⟨_, s₁, htoken, h⟩ := bind_ok.1 h
  obtain ⟨-, htake⟩ := advance_iff.1 htoken
  obtain ⟨first, s₂, hfirst, h⟩ := bind_ok.1 h
  simp only [bind_ok (x := kind), kind_ok] at h
  obtain ⟨_, _, ⟨rfl, rfl⟩, h⟩ := h
  refine .bind (.advance htake (hopen ▸ rfl)) ?_
  rintro _ rfl
  refine .bind (ih.level hfirst).of_near fun path₁ h₁ => .kind (fun _ => rfl) ?_
  have hhead := (Carries.mark false hopen rfl).append h₁
  split at h
  · rename_i hcomma
    obtain ⟨more, s₃, hmore, h⟩ := bind_ok.1 h
    obtain ⟨_, s₄, hclosed, h⟩ := bind_ok.1 h
    obtain ⟨rfl, hclose, htake₁⟩ := expect_iff.1 hclosed
    rcases accept_split h with ⟨s₅, hin, htake₂, h⟩ | ⟨-, h⟩
    · simp only [bind_ok, expect_iff, spanFrom_iff, pure_ok] at h
      obtain ⟨_, s₆, ⟨rfl, hname, htake₃⟩, _, _, ⟨rfl, rfl⟩, rfl, rfl⟩ := h
      rw [if_pos hcomma]
      refine .bind (ih.moreItems hmore) fun path₂ h₂ => .bind (.expect hclose htake₁ rfl) ?_
      rintro _ rfl
      refine .bind (.accept hin htake₂ rfl) ?_
      rintro _ rfl
      refine .bind (.expect hname htake₃ rfl) ?_
      rintro _ rfl
      have hspan : ({ (C.token s.current).span with stop := (C.token s₃.current).span.stop } : Span) =
          C.place.span { s.current.span with stop := s₃.current.span.stop } := by
        rw [C.place.span_stop]
        exact congrArg _ (C.place.stop_span _)
      rw [hspan]
      refine .spanFrom _ (.pure ?_)
      have hmarks := (Carries.mark false hclose rfl).append
        ((Carries.mark false hin rfl).append (Carries.leaf s₅.current false))
      have hall := hhead.append (h₂.append hmarks)
      simpa [Carries, Expr.outline, Awk.outlines, leavesIn_append, operandsOf_append] using hall
    · exact absurd h failExpecting_ok
  · rename_i hcomma
    simp only [bind_ok, expect_iff, spanFrom_iff, pure_ok] at h
    obtain ⟨_, s₃, ⟨-, hclose, htake'⟩, _, _, ⟨rfl, rfl⟩, rfl, rfl⟩ := h
    rw [if_neg hcomma]
    refine .bind (.expect hclose htake' rfl) ?_
    rintro _ rfl
    refine .spanFrom _ (.pure ?_)
    simpa [Carries, Expr.outline] using hhead.append (Carries.mark false hclose rfl)

theorem mirrors_primary (ih : ExprMirrors C n m) (h : (primary (n + 1)).run s = .ok (e, t)) :
    Mirrors C closed .near .alike s t (Carries [e.outline]) (primary (m + 1)) (e.placed C.place.span) := by
  have hread := (exprReads (n + 1)).primary h
  simp only [primary, bind_ok (x := current), current_ok] at h ⊢
  obtain ⟨_, _, ⟨rfl, rfl⟩, h⟩ := h
  refine .current (isFirm_of_reads hread rfl) ?_
  rw [C.token_kind]
  -- By the kind of the first token, in the order of the grammar.
  split at h
  · rename_i hkind
    simp only [bind_ok, advance_iff, pure_ok] at h
    obtain ⟨_, _, ⟨rfl, htake⟩, rfl, rfl⟩ := h
    refine .bind (.advance htake (hkind ▸ rfl)) ?_
    rintro _ rfl
    exact .pure (by simp [Carries, Expr.outline])
  · rename_i hkind
    simp only [bind_ok, advance_iff, pure_ok] at h
    obtain ⟨_, _, ⟨rfl, htake⟩, rfl, rfl⟩ := h
    refine .bind (.advance htake (hkind ▸ rfl)) ?_
    rintro _ rfl
    exact .pure (by simp [Carries, Expr.outline])
  · rename_i hkind
    simp only [bind_ok, pure_ok] at h
    obtain ⟨token, _, htoken, rfl, rfl⟩ := h
    refine .bind (.takeRegex htoken (.inl hkind)) ?_
    rintro _ rfl
    exact .pure (by simp [Carries, Expr.outline])
  · rename_i hkind
    simp only [bind_ok, pure_ok] at h
    obtain ⟨token, _, htoken, rfl, rfl⟩ := h
    refine .bind (.takeRegex htoken (.inr hkind)) ?_
    rintro _ rfl
    exact .pure (by simp [Carries, Expr.outline])
  · rename_i hkind
    simp only [bind_ok, pure_ok] at h
    obtain ⟨target, _, htarget, rfl, rfl⟩ := h
    exact .bind (ih.field hkind htarget) fun path h => .pure (by simpa [Expr.outline] using h)
  · simp only [bind_ok, pure_ok] at h
    obtain ⟨target, _, htarget, rfl, rfl⟩ := h
    exact .bind (ih.name htarget) fun path h => .pure (by simpa [Expr.outline] using h)
  · rename_i hkind
    exact mirrors_call ih hkind h
  · rename_i b hkind
    exact mirrors_builtin ih hkind h
  · rename_i hkind
    exact mirrors_getline ih hkind h
  · rename_i hkind
    exact mirrors_group ih hkind h
  · exact absurd h failExpecting_ok

/-- What is read as an expression in the first text is read in the second one, with any fuel that is no less. -/
theorem exprMirrors (C : Correspondence) {n m : Nat} (h : n ≤ m) : ExprMirrors C n m := by
  induction n generalizing m with
  | zero => constructor <;> intros <;> rename_i h <;> exact absurd h tooDeep_ok
  | succ n ih =>
    obtain ⟨m, rfl⟩ := Nat.exists_eq_add_of_le' h
    have ih := ih (Nat.le_of_succ_le_succ h)
    exact {
      level := mirrors_level ih
      chain := mirrors_chain ih
      signed := mirrors_signed ih
      parts := mirrors_parts ih
      pipes := mirrors_pipes ih
      lvalue := mirrors_lvalue ih
      field := mirrors_field ih
      name := mirrors_name ih
      subscripts := mirrors_subscripts ih
      moreItems := mirrors_moreItems ih
      arguments := mirrors_arguments ih
      getlineTarget := mirrors_getlineTarget ih
      primary := mirrors_primary ih }

end Awk.Parser
