import Awk.Proofs.Syntax.Layout.Stmt
import Awk.Proofs.Syntax.PrintList.Expr

/-!
# Print lists in parentheses

The items of a print statement may stand in parentheses (`Cursor.Wraps`).  Wherever the plain list is accepted
(`Spot`), the list in parentheses is accepted as well, and the same items and the same redirection are read, but for one
place: at the end of the header of a `for` a list in parentheses needs a redirection (`print_parenthesised_iff`).  The
parser takes such a list for one only where a statement may end behind it (`parenthesisedItems_run`), and a parenthesis
is no such place.
-/

namespace Awk

abbrev Stmt.Like (stmt stmt' : Stmt) : Prop := stmt'.placed nowhere = stmt.placed nowhere

/-- From `a` the first text has a list up to `b`, and what follows it up to `c`.  From `a'` to `c'` the second text has
the same tokens, and parentheses around the list.  The tokens behind `c` and `c'` are of the same kind. -/
inductive Cursor.Wraps (a b c a' c' : Cursor) : Prop
  | intro {opening list stop close after last behind last' behind'} (hopening : a'.token = .ok (opening, list))
    (hopen : opening.kind = .lpar) (hlist : a.SameTokens b list stop) (hclosing : stop.token = .ok (close, after))
    (hclose : close.kind = .rpar) (hafter : b.SameTokens c after c') (hlast : c.token = .ok (last, behind))
    (hlast' : c'.token = .ok (last', behind')) (hkind : last'.kind = last.kind)

theorem Cursor.Wraps.last {a b c a' c' behind : Cursor} {last : Token} (h : a.Wraps b c a' c')
    (hlast : c.token = .ok (last, behind)) :
    ∃ last' behind', c'.token = .ok (last', behind') ∧ last'.kind = last.kind := by
  cases h with
  | intro hopening hopen hlist hclosing hclose hafter hlast₁ hlast' hkind =>
    cases hlast.symm.trans hlast₁
    exact ⟨_, _, hlast', hkind⟩

namespace Parser

variable {α : Type} {P : Passage} {n m : Nat} {p : Bool} {context : Context} {s s' s₁ s₂ t : ParserState} {stmt : Stmt}
  {e : Expr} {es : List Expr}

/-! ### Where simple statements stand -/

/-- Where a simple statement may stand: by itself, or at the beginning or the end of the header of a `for`. -/
inductive Spot where
  | own
  | first
  | update
  deriving DecidableEq

namespace Spot

/-- What has to follow a statement. -/
def close : Spot → Parser Unit
  | own => do
    if !(← atTerminator) then failExpecting "';' or newline"
  | first => do
    let _ ← expect .semi "';'"
  | update => do
    let _ ← expect .rpar "')'"

/-- Read a statement and what has to follow it, as `forStmt` does for the two in its header. -/
def read (fuel : Nat) (context : Context) : Spot → Parser (Option Stmt)
  | own => do
    return some (← statement (fuel + 1) context)
  | first => do
    let stmt ← optionalStmt fuel context .semi
    first.close
    return stmt
  | update => do
    let stmt ← optionalStmt fuel context .rpar
    update.close
    return stmt

end Spot

variable {spot : Spot}

theorem run_current_bind {f : Token → Parser α} : (current >>= f).run s = (f s.current).run s := rfl

theorem run_kind_bind {f : TokenKind → Parser α} : (kind >>= f).run s = (f s.current.kind).run s := rfl

theorem simpleStmt_print (context : Context) (hword : s.current.kind = .print ∨ s.current.kind = .printf)
    {f : Stmt → Parser α} : (simpleStmt n context >>= f).run s = (printStmt n >>= f).run s := by
  have hrun : (simpleStmt n context).run s = (printStmt n).run s := by
    unfold simpleStmt
    rw [run_current_bind]
    rcases hword with hword | hword <;> simp only [hword]
  rw [StateT.run_bind, StateT.run_bind, hrun]

theorem bind_of_ite {β : Type} {b : Prop} [Decidable b] {x y : Parser β} {f : β → Parser α} :
    (if b then x else y) >>= f = if b then x >>= f else y >>= f := by
  split <;> rfl

/-- In each spot a print statement is read, and then what has to follow it. -/
theorem Spot.read_print (hword : s.current.kind = .print ∨ s.current.kind = .printf) :
    (spot.read n context).run s = (do
      let stmt ← printStmt n
      spot.close
      return some stmt).run s := by
  rw [← simpleStmt_print context hword]
  have hpresent {k : TokenKind} (hk : k ≠ .print ∧ k ≠ .printf) : s.current.kind ≠ k := by
    rintro rfl
    exact hword.elim hk.1 hk.2
  cases spot with
  | own =>
    simp only [Spot.read, statement, Spot.close, bind_assoc]
    rw [run_current_bind]
    rcases hword with hword | hword <;> simp only [hword, bind_assoc, bind_of_ite, pure_bind]
  | first =>
    simp only [Spot.read, optionalStmt, bind_assoc]
    rw [run_kind_bind, if_neg (hpresent (by decide))]
    simp only [pure_bind, bind_assoc]
  | update =>
    simp only [Spot.read, optionalStmt, bind_assoc]
    rw [run_kind_bind, if_neg (hpresent (by decide))]
    simp only [pure_bind, bind_assoc]

/-! ### Items and what follows them -/

theorem run_bind {β : Type} {x : Parser β} {f : β → Parser α} {v : β} (h : x.run s = .ok (v, s₁)) :
    (x >>= f).run s = (f v).run s₁ := by
  rw [StateT.run_bind, h]
  rfl

/-- The items of a print statement are read, in parentheses or without them. -/
inductive Lists (n : Nat) (s : ParserState) (es : List Expr) (t : ParserState) : Prop
  | enclosed (hopen : s.current.kind = .lpar) (hitems : (parenthesisedItems n).run s = .ok (some es, t))
  | plain (hnone : s.current.kind = .lpar → (parenthesisedItems n).run s = .ok (none, s))
    (hitems : (plainItems n).run s = .ok (es, t))

/-- The end of a print statement, behind its items. -/
def redirected (n : Nat) (word : Token) (items : List Expr) : Parser Stmt := do
  match RedirectOp.ofKind? (← kind) with
  | some op =>
    let token ← advance
    let target ← level n .concatenation true
    let redirect : Redirect := ⟨← spanFrom token, op, token, target⟩
    return .print (← spanFrom word) word (word.kind == .printf) items (some redirect)
  | none => return .print (← spanFrom word) word (word.kind == .printf) items none

theorem printStmt_run (htake : Takes s s₁) (hlists : Lists n s₁ es s₂) (hes : es ≠ []) :
    (printStmt n).run s = (redirected n s.current es).run s₂ := by
  have hsome : es.isEmpty = false := by rwa [List.isEmpty_eq_false_iff]
  unfold printStmt
  rw [run_bind (advance_iff.2 ⟨rfl, htake⟩), run_kind_bind]
  cases hlists with
  | enclosed hopen hitems =>
    simp only [if_pos hopen]
    rw [run_bind hitems]
    simp only [pure_bind, hsome, Bool.and_false, if_neg Bool.false_ne_true]
    rfl
  | plain hnone hitems =>
    by_cases hopen : s₁.current.kind = .lpar
    · simp only [if_pos hopen]
      rw [run_bind (hnone hopen), run_bind hitems]
      simp only [hsome, Bool.and_false, if_neg Bool.false_ne_true]
      rfl
    · simp only [if_neg hopen, pure_bind]
      rw [run_bind hitems]
      simp only [hsome, Bool.and_false, if_neg Bool.false_ne_true]
      rfl

/-- More items are the same with the flag of print statements and without it. -/
theorem same_moreItems (h : (moreItems n p).run s = .ok (es, t)) (hes : ∀ e ∈ es, Unclaimed p e) (ht : Clear p t) :
    Clear p s ∧ (moreItems n !p).run s = .ok (es, t) := by
  induction n generalizing s es with
  | zero => exact absurd h tooDeep_ok
  | succ n ih =>
    simp only [moreItems] at h ⊢
    rcases accept_split h with ⟨s₁, hcomma, htake, h⟩ | ⟨hcomma, h⟩
    · simp only [bind_ok, pure_ok] at h
      obtain ⟨_, s₂, hskip, first, s₃, hfirst, more, s₄, hmore, rfl, rfl⟩ := h
      obtain ⟨hfirst', hmore'⟩ := List.forall_mem_cons.1 hes
      obtain ⟨hs₃, hrest⟩ := ih hmore hmore'
      have hflipped := (indifference n).level hfirst hfirst' hs₃
      refine ⟨clear_of_kind hcomma (by decide), ?_⟩
      rw [run_bind (accept_iff.2 (by rw [if_pos hcomma]; exact ⟨rfl, htake⟩)), if_pos rfl, run_bind hskip,
        run_bind hflipped, run_bind hrest]
      rfl
    · obtain ⟨rfl, rfl⟩ := pure_ok.1 h
      refine ⟨ht, ?_⟩
      rw [run_bind (accept_iff.2 (by rw [if_neg hcomma]; exact ⟨rfl, rfl⟩))]
      rfl

theorem kind_of_moreItems (h : (moreItems n p).run s = .ok (e :: es, t)) : s.current.kind = .comma := by
  obtain _ | n := n
  · exact absurd h tooDeep_ok
  rcases accept_split h with ⟨_, hcomma, -, -⟩ | ⟨-, h⟩
  · exact hcomma
  · exact absurd (pure_ok.1 h).1 (List.cons_ne_nil _ _)

/-- What follows the items is read again behind the closing parenthesis. -/
theorem retraces_redirected (hlast : P.last'.kind = P.last.kind) (hle : n ≤ m) {word word' : Token}
    (hword : word.Like word') {es' : List Expr} (hes : LikeAll es es')
    (h : (redirected n word es).run s = .ok (stmt, t)) :
    Retraces P False False s t (redirected m word' es') stmt.Like := by
  simp only [redirected, bind_ok (x := kind), kind_ok] at h ⊢
  obtain ⟨_, s, ⟨rfl, rfl⟩, h⟩ := h
  refine .sameKind hlast ?_
  split at h
  · rename_i op hop
    simp only [bind_ok, advance_iff, spanFrom_iff, pure_ok] at h
    obtain ⟨_, s₁, ⟨rfl, htake⟩, target, s₂, htarget, _, _, ⟨rfl, rfl⟩, _, _, ⟨rfl, rfl⟩, rfl, rfl⟩ := h
    refine .advance htake (ne_eof_of_some hop rfl) fun token htoken => ?_
    refine .bind ((exprRetraces P hle).level (.inl (.inl rfl)) htarget) fun target' htarget' => ?_
    refine .spanFrom _ fun _ => .spanFrom _ fun _ => .pure ?_
    simp [Stmt.Like, Stmt.placed, Redirect.placed, hword, hword.kind_eq, hes, htoken, htarget', nowhere]
  · rename_i hop
    simp only [bind_ok, spanFrom_iff, pure_ok] at h
    obtain ⟨_, _, ⟨rfl, rfl⟩, rfl, rfl⟩ := h
    refine .spanFrom _ fun _ => .pure ?_
    simp [Stmt.Like, Stmt.placed, hword, hword.kind_eq, hes, nowhere]

theorem retraces_close (hlast : P.last'.kind = P.last.kind) (h : spot.close.run s = .ok ((), t)) :
    Retraces P False False s t spot.close fun _ => True := by
  cases spot with
  | own =>
    simp only [Spot.close, atTerminator, bind_assoc, pure_bind] at h ⊢
    refine .sameKind hlast ?_
    rw [run_kind_bind] at h
    split at h
    · exact absurd h failExpecting_ok
    · rename_i hend
      obtain ⟨-, rfl⟩ := pure_ok.1 h
      rw [if_neg hend]
      exact .pure trivial
  | first =>
    simp only [Spot.close, bind_ok, expect_iff, pure_ok] at h ⊢
    obtain ⟨_, _, ⟨-, hkind, htake⟩, -, rfl⟩ := h
    exact .expect hkind htake (by decide) fun _ _ => .pure trivial
  | update =>
    simp only [Spot.close, bind_ok, expect_iff, pure_ok] at h ⊢
    obtain ⟨_, _, ⟨-, hkind, htake⟩, -, rfl⟩ := h
    exact .expect hkind htake (by decide) fun _ _ => .pure trivial

theorem eq_of_redirected {word : Token} (h : (redirected n word es).run s = .ok (stmt, t)) :
    isRedirect s.current.kind ∨ t = s := by
  simp only [redirected, bind_ok (x := kind), kind_ok] at h
  obtain ⟨_, s, ⟨rfl, rfl⟩, h⟩ := h
  split at h
  · rename_i op hop
    exact .inl (by rw [isRedirect, hop]; rfl)
  · simp only [bind_ok, spanFrom_iff, pure_ok] at h
    obtain ⟨_, _, ⟨rfl, rfl⟩, -, rfl⟩ := h
    exact .inr rfl

/-- What ends a print statement ends its items, unless it is the parenthesis behind the header of a `for`. -/
theorem kind_of_close {word : Token} (h : (redirected n word es).run s = .ok (stmt, s₁))
    (hclose : spot.close.run s₁ = .ok ((), t)) :
    (spot = .update → isRedirect s.current.kind) ∧ endsItems s.current.kind ∨
      spot = .update ∧ s.current.kind = .rpar := by
  rcases eq_of_redirected h with hredirect | rfl
  · exact .inl ⟨fun _ => hredirect, by rw [endsItems, hredirect, Bool.or_true]⟩
  · cases spot with
    | own =>
      simp only [Spot.close, bind_ok (x := atTerminator), atTerminator_iff] at hclose
      obtain ⟨_, _, ⟨rfl, rfl⟩, hclose⟩ := hclose
      split at hclose
      · exact absurd hclose failExpecting_ok
      · rename_i hend
        rw [Bool.not_eq_true', Bool.not_eq_false] at hend
        exact .inl ⟨Spot.noConfusion, by rw [endsItems, hend, Bool.true_or]⟩
    | first =>
      simp only [Spot.close, bind_ok, expect_iff] at hclose
      obtain ⟨_, _, ⟨-, hkind, -⟩, -⟩ := hclose
      exact .inl ⟨Spot.noConfusion, by rw [hkind]; rfl⟩
    | update =>
      simp only [Spot.close, bind_ok, expect_iff] at hclose
      obtain ⟨_, _, ⟨-, hkind, -⟩, -⟩ := hclose
      exact .inr ⟨rfl, hkind⟩

/-- A list of at least two items is read one by one. -/
theorem plainItems_many (h : (plainItems n).run s = .ok (es, t)) (hmany : 2 ≤ es.length) :
    ∃ first s₁ second more, es = first :: second :: more ∧ (level n .assignment true).run s = .ok (first, s₁) ∧
      (moreItems n true).run s₁ = .ok (second :: more, t) := by
  simp only [plainItems, atTerminator, bind_assoc, pure_bind] at h
  rw [run_kind_bind, run_kind_bind] at h
  split at h
  · obtain ⟨rfl, -⟩ := pure_ok.1 h
    exact absurd hmany (by decide)
  · simp only [bind_ok, pure_ok] at h
    obtain ⟨first, s₁, hfirst, more, _, hmore, rfl, rfl⟩ := h
    obtain ⟨second, more, rfl⟩ : ∃ second rest, more = second :: rest := by
      refine List.exists_cons_of_ne_nil fun hnil => ?_
      rw [hnil] at hmany
      exact absurd hmany (by simp)
    exact ⟨first, s₁, second, more, rfl, hfirst, hmore⟩

theorem retraces_items (hle : n ≤ m) (h : (plainItems n).run s = .ok (es, t)) (hmany : 2 ≤ es.length) :
    Retraces P False False s t
      (do
        let first ← level m .assignment true
        let more ← moreItems m true
        return first :: more) (LikeAll es) := by
  obtain ⟨first, s₁, second, more, rfl, hfirst, hmore⟩ := plainItems_many h hmany
  refine .bind ((exprRetraces P hle).level (.inl (.inl rfl)) hfirst) fun first' hfirst' => ?_
  exact .bind ((exprRetraces P hle).moreItems (.inl rfl) hmore) fun more' hmore' => .pure (hfirst'.cons hmore')

theorem retraces_end (hlast : P.last'.kind = P.last.kind) (hle : n ≤ m) {word word' : Token} (hword : word.Like word')
    {es' : List Expr} (hes : LikeAll es es') (h : (redirected n word es).run s = .ok (stmt, s₁))
    (hclose : spot.close.run s₁ = .ok ((), t)) :
    Retraces P False False s t
      (do
        let stmt ← redirected m word' es'
        spot.close
        return some stmt) fun found => ∃ stmt', found = some stmt' ∧ stmt.Like stmt' := by
  refine .bind (retraces_redirected hlast hle hword hes h) fun stmt' hstmt => ?_
  exact .bind (retraces_close hlast hclose) fun _ _ => .pure ⟨stmt', rfl, hstmt⟩

/-- The items of a print statement are read in front of a closing parenthesis as well, without the flag. -/
theorem items_inParentheses (hle : n ≤ m) (hfed : Fed s) (hitems : (plainItems n).run s = .ok (es, t))
    (hmany : 2 ≤ es.length) (hstop : t.position = P.stop) (hclose : P.last'.kind = .rpar) (hnear : P.Near s s') :
    ∃ first s₁' second more t', (level m .assignment false).run s' = .ok (first, s₁') ∧
      (moreItems m false).run s₁' = .ok (second :: more, t') ∧ LikeAll es (first :: second :: more) ∧ P.Near t t' := by
  obtain ⟨-, -, -, hrun⟩ := retraces_items (P := P) hle hitems hmany hfed
  obtain ⟨_, t', hrun, hlike, hnear'⟩ := hrun ⟨[], hstop ▸ .nil, False.elim⟩ hnear
  simp only [bind_ok, pure_ok] at hrun
  obtain ⟨first, s₁', hfirst, more, _, hmore, rfl, rfl⟩ := hrun
  obtain ⟨second, more, rfl⟩ : ∃ second rest, more = second :: rest := by
    obtain ⟨_, _, _, _, rfl, -⟩ := plainItems_many hitems hmany
    refine List.exists_cons_of_ne_nil fun hnil => ?_
    simp [hnil, LikeAll, placedAll] at hlike
  -- Commas and the closing parenthesis are no tokens that the statement keeps for itself, so the flag does not matter.
  have hclear : Clear true t' := by
    refine clear_of_kind (k := .rpar) ?_ (by decide)
    rw [← hclose, hnear'.current_eq hstop]
  have hfirst' := (indifference m).level hfirst Bool.noConfusion (clear_of_kind (kind_of_moreItems hmore) (by decide))
  obtain ⟨-, hmore'⟩ := same_moreItems hmore (fun _ _ => Bool.noConfusion) hclear
  exact ⟨first, s₁', second, more, t', hfirst', hmore', hlike, hnear'⟩

/-- A list in parentheses is one of items if a statement may end behind it. -/
theorem parenthesisedItems_run {first second : Expr} {more : List Expr} {s₃ : ParserState} (htake : Takes s s₁)
    (hfirst : (expr n false).run s₁ = .ok (first, s₂)) (hmore : (moreItems n false).run s₂ = .ok (second :: more, s₃))
    (hclose : s₃.current.kind = .rpar) (htake' : Takes s₃ t) :
    (parenthesisedItems n).run s =
      .ok (if endsItems t.current.kind then (some (first :: second :: more), t) else (none, s)) := by
  unfold parenthesisedItems atTerminator
  rw [run_bind (get_ok.2 ⟨rfl, rfl⟩), run_bind (advance_iff.2 ⟨rfl, htake⟩), run_bind hfirst, run_bind hmore,
    run_bind (accept_iff.2 (by rw [if_pos hclose]; exact ⟨rfl, htake'⟩)), if_pos rfl]
  simp only [bind_assoc, pure_bind]
  rw [run_kind_bind, run_kind_bind]
  split <;> rename_i hend
  · rw [endsItems, if_pos hend]
    rfl
  · rw [endsItems, if_neg hend]
    rfl

theorem exists_takes {token : Token} {behind : Cursor} (h : s.behind.token = .ok (token, behind)) :
    ∃ t, Takes s t ∧ Fed t ∧ t.position = s.behind ∧ t.current = token ∧ t.behind = behind :=
  ⟨_, takes_iff.2 ⟨token, behind, h, rfl⟩, h, rfl, rfl, rfl⟩

theorem Takes.unique (h : Takes s s₁) (h' : Takes s s₂) : s₂ = s₁ :=
  congrArg Prod.snd (Except.ok.inj (h'.symm.trans h))

/-- What is a list in parentheses is no expression, unless `in` follows it. -/
theorem not_plainItems {first second : Expr} {more : List Expr} {s₃ : ParserState} (hfed : Fed s)
    (hopen : s.current.kind = .lpar) (htake : Takes s s₁) (hfirst : (expr n false).run s₁ = .ok (first, s₂))
    (hmore : (moreItems n false).run s₂ = .ok (second :: more, s₃)) (htake' : Takes s₃ t) (hin : t.current.kind ≠ .in)
    {u : ParserState} : (plainItems n).run s ≠ .ok (es, u) := by
  intro hplain
  obtain ⟨_, _, _, hagain, hfirst', hrest⟩ := exists_group hfed hopen hplain
  cases htake.unique hagain
  cases hfirst.symm.trans hfirst'
  rcases hrest with hcomma | ⟨_, _, _, hmore', -, hagain', hin'⟩
  · exact hcomma (kind_of_moreItems hmore)
  · cases hmore.symm.trans hmore'
    cases htake'.unique hagain'
    exact hin hin'

/-- In the second text the items are read in parentheses if a statement may end behind them, and no items are read
otherwise, unless `in` follows. -/
theorem exists_enclosed (hle : n ≤ m) (hfed : Fed s₁) (hitems : (plainItems n).run s₁ = .ok (es, s₂))
    (hmany : 2 ≤ es.length) (hstands : StandsFor .rpar s₂.current.kind) {tokens : List Token}
    (hcovers : s₂.position.Covers tokens P.stop) (hlast : P.last'.kind = P.last.kind)
    (hwraps : s₁.position.Wraps s₂.position P.stop s'.behind P.stop') :
    ∃ s₁' es' t', Takes s' s₁' ∧ s₁'.current.kind = .lpar ∧ LikeAll es es' ∧ P.Near s₂ t' ∧ es' ≠ [] ∧
      (parenthesisedItems m).run s₁' = .ok (if endsItems s₂.current.kind then (some es', t') else (none, s₁')) ∧
      (s₂.current.kind ≠ .in → ∀ {items u}, (plainItems m).run s₁' ≠ .ok (items, u)) := by
  obtain ⟨hfed₂, ⟨_, hcovers₁, -⟩, -⟩ := retraces_items (P := .upTo hfed hfed (.inl rfl)) le_rfl hitems hmany hfed
  cases hwraps with
  | @intro opening list stop close after _ _ _ _ hopening hopen hlist hclosing hclosed hafter =>
    have hstands : StandsFor close.kind s₂.current.kind := hclosed ▸ hstands
    obtain ⟨s₁', htake, hfed', -, rfl, rfl⟩ := exists_takes hopening
    obtain ⟨item, behindItem, hitem⟩ := Passage.exists_token (P := .upTo hfed₂ hclosing hstands) hlist hcovers₁
    obtain ⟨u, htake₁, hfedu, hposition, -, -⟩ := exists_takes hitem
    have hnear₁ : (Passage.upTo hfed₂ hclosing hstands).Near s₁ u := ⟨hfed, hfedu, hposition ▸ hlist⟩
    obtain ⟨first, v, second, more, w, hfirst, hmore, hlike, hnear⟩ :=
      items_inParentheses hle hfed hitems hmany rfl hclosed hnear₁
    obtain ⟨next, behindNext, hnext⟩ := Passage.exists_token (P := P) hafter hcovers
    have hcurrent : w.current = close := hnear.current_eq rfl
    have hbehind : w.behind = after := by
      have hfedw := hnear.fed'
      rw [Fed, hnear.position_eq rfl, Passage.token'] at hfedw
      exact (Prod.mk.inj (Except.ok.inj hfedw)).2.symm
    obtain ⟨t', htake₂, hfedt, hposition', -, -⟩ := exists_takes (hbehind ▸ hnext)
    have hnear' : P.Near s₂ t' := ⟨hfed₂, hfedt, by rw [hposition', hbehind]; exact hafter⟩
    have hkind := hnear'.kind_eq hcovers hlast
    refine ⟨s₁', first :: second :: more, t', htake, hopen, hlike, hnear', List.cons_ne_nil _ _, ?_, fun hin _ _ => ?_⟩
    · rw [← hkind]
      exact parenthesisedItems_run htake₁ hfirst hmore (hcurrent ▸ hclosed) htake₂
    · exact not_plainItems hfed' hopen htake₁ hfirst hmore htake₂ (hkind ▸ hin)

theorem not_printStmt (htake : Takes s s₁) (hopen : s₁.current.kind = .lpar)
    (hnone : (parenthesisedItems n).run s₁ = .ok (none, s₁))
    (hplain : ∀ {items u}, (plainItems n).run s₁ ≠ .ok (items, u)) : (printStmt n).run s ≠ .ok (stmt, t) := by
  intro h
  unfold printStmt at h
  rw [run_bind (advance_iff.2 ⟨rfl, htake⟩), run_kind_bind] at h
  simp only [if_pos hopen] at h
  rw [run_bind hnone] at h
  obtain ⟨_, _, hitems, -⟩ := bind_ok.1 h
  exact hplain hitems

/-- **A print list may stand in parentheses** where the plain list is accepted: the same statement is read, its places
left aside, and the parser comes to the same token, unless the list ends the header of a `for` and no redirection
follows it. -/
theorem print_parenthesised_iff {fuel fuel' : Nat} {stop' : Cursor} (hle : fuel ≤ fuel')
    (hword : s.current.kind = .print ∨ s.current.kind = .printf) (hfed : Fed s) (htake : Takes s s₁)
    (hitems : (plainItems fuel).run s₁ = .ok (es, s₂)) (hmany : 2 ≤ es.length)
    (h : (spot.read fuel context).run s = .ok (some stmt, t)) (hword' : s.current.Like s'.current)
    (hwraps : s₁.position.Wraps s₂.position t.position s'.behind stop') :
    (∃ stmt' t', (spot.read fuel' context).run s' = .ok (some stmt', t') ∧ stmt.Like stmt' ∧ t'.position = stop') ↔
      (spot = .update → isRedirect s₂.current.kind) := by
  rw [Spot.read_print hword] at h
  simp only [bind_ok, pure_ok, Option.some.injEq] at h
  obtain ⟨_, s₃, hprint, _, _, hclose, rfl, rfl⟩ := h
  have hwordEnd : s.current.kind ≠ .eof := by rcases hword with hword | hword <;> rw [hword] <;> decide
  have hfed₁ : Fed s₁ := (Moves.take hwordEnd htake .refl).fed hfed
  have hne : es ≠ [] := by
    rintro rfl
    exact absurd hmany (by decide)
  rw [printStmt_run htake (.plain (fun hopen => parenthesisedItems_none hfed₁ hopen hitems) hitems) hne] at hprint
  obtain ⟨hfed₂, -⟩ := retraces_items (P := .upTo hfed₁ hfed₁ (.inl rfl)) le_rfl hitems hmany hfed₁
  obtain ⟨hfed₃, ⟨_, hcovers, -⟩, -⟩ :=
    retraces_end (P := .upTo hfed₂ hfed₂ (.inl rfl)) rfl le_rfl rfl rfl hprint hclose hfed₂
  have hends := kind_of_close hprint hclose
  have hstands : StandsFor .rpar s₂.current.kind :=
    hends.elim (fun hend => .inr ⟨hend.2, rfl⟩) fun hupdate => .inl hupdate.2.symm
  -- Behind the closing parenthesis the two texts go on alike.
  obtain ⟨last', behind', hstop, hlast⟩ := hwraps.last hfed₃
  obtain ⟨s₁', es', u', htake', hopen, hlike, hnear, hne', hlisted, hplain⟩ :=
    exists_enclosed (P := .upTo hfed₃ hstop (.inl hlast)) hle hfed₁ hitems hmany hstands hcovers hlast hwraps
  rw [Spot.read_print (hword'.kind_eq ▸ hword)]
  rcases hends with ⟨hspot, hend⟩ | ⟨hspot, hkind⟩
  · refine iff_of_true ?_ hspot
    rw [if_pos hend] at hlisted
    obtain ⟨-, -, -, hrun⟩ :=
      retraces_end (P := .upTo hfed₃ hstop (.inl hlast)) hlast hle hword' hlike hprint hclose hfed₂
    obtain ⟨_, t', hrun, ⟨stmt', rfl, hstmt⟩, hnear'⟩ := hrun ⟨[], .nil, False.elim⟩ hnear
    refine ⟨stmt', t', ?_, hstmt, hnear'.position_eq rfl⟩
    rw [StateT.run_bind, printStmt_run htake' (.enclosed hopen hlisted) hne']
    rw [StateT.run_bind] at hrun
    exact hrun
  · rw [hkind] at hlisted hplain ⊢
    refine iff_of_false ?_ fun hredirect => absurd (hredirect hspot) (by decide)
    rintro ⟨stmt', t', h', -⟩
    obtain ⟨_, _, hprint', -⟩ := bind_ok.1 h'
    exact not_printStmt htake' hopen hlisted (hplain (by decide)) hprint'

/-- At the end of the header of a `for`, with a redirection behind the items. -/
def plainUpdate : Text := "print a, b > c) ;".toList

def enclosedUpdate : Text := "print (a, b) > c) ;".toList

theorem print_parenthesised_iff_redirected :
    ∃ s s' stmt stmt' t t', start plainUpdate = .ok s ∧ start enclosedUpdate = .ok s' ∧
      (Spot.update.read (fuelFor plainUpdate) ⟨true, false, false⟩).run s = .ok (some stmt, t) ∧
      (Spot.update.read (fuelFor enclosedUpdate) ⟨true, false, false⟩).run s' = .ok (some stmt', t') ∧
      stmt.Like stmt' := by
  have hcheck : (do
      let s ← (start plainUpdate).toOption
      let s' ← (start enclosedUpdate).toOption
      let word ← (advance.run s).toOption
      let items ← ((plainItems (fuelFor plainUpdate)).run word.2).toOption
      let found ← ((Spot.update.read (fuelFor plainUpdate) ⟨true, false, false⟩).run s).toOption
      let stmt ← found.1
      some (decide (s.current.kind = .print ∧ s.current.Like s'.current ∧ 2 ≤ items.1.length ∧
        isRedirect items.2.current.kind ∧ word.2.position = .atOffset plainUpdate 5 ∧
        items.2.position = .atOffset plainUpdate 10 ∧ found.2.position = .atOffset plainUpdate 15 ∧
        s'.behind = .atOffset enclosedUpdate 5))) = some true := by
    decide +kernel
  simp only [Option.bind_eq_bind, Option.bind_eq_some_iff, Option.some.injEq, decide_eq_true_eq,
    Action.toOption_eq_some] at hcheck
  obtain ⟨s, hs, s', hs', ⟨word, s₁⟩, hadvance, ⟨items, s₂⟩, hitems, ⟨_, t⟩, hread, stmt, rfl, hword, hlike, hmany,
    hredirect, hfirst, hbehind, hstop, hlist⟩ := hcheck
  have htake := (advance_iff.1 hadvance).2
  have hwraps : s₁.position.Wraps s₂.position t.position s'.behind (.atOffset enclosedUpdate 17) := by
    rw [hfirst, hbehind, hstop, hlist]
    have hopening : (Cursor.atOffset enclosedUpdate 5).token =
        .ok (⟨.lpar, "(".toList, ⟨1, 7, 6, 7⟩⟩, .atOffset enclosedUpdate 7) := by decide +kernel
    have hclosing : (Cursor.atOffset enclosedUpdate 11).token =
        .ok (⟨.rpar, ")".toList, ⟨1, 12, 11, 12⟩⟩, .atOffset enclosedUpdate 12) := by decide +kernel
    have hlast : (Cursor.atOffset plainUpdate 15).token =
        .ok (⟨.semi, ";".toList, ⟨1, 17, 16, 17⟩⟩, .atOffset plainUpdate 17) := by decide +kernel
    have hlast' : (Cursor.atOffset enclosedUpdate 17).token =
        .ok (⟨.semi, ";".toList, ⟨1, 19, 18, 19⟩⟩, .atOffset enclosedUpdate 19) := by decide +kernel
    refine .intro hopening rfl (Cursor.sameTokens_of_follow (n := 3) ?_) hclosing rfl
      (Cursor.sameTokens_of_follow (n := 3) ?_) hlast hlast' rfl
    · decide +kernel
    · decide +kernel
  have hle : fuelFor plainUpdate ≤ fuelFor enclosedUpdate := by decide
  obtain ⟨stmt', t', hread', hstmt, -⟩ := (print_parenthesised_iff hle (.inl hword) (fed_start hs).1 htake hitems hmany
    hread hlike hwraps).2 fun _ => hredirect
  exact ⟨s, s', stmt, stmt', t, t', hs, hs', hread, hread', hstmt⟩

/-- Without a redirection the list is refused in parentheses. -/
theorem enclosed_update_refused :
    (∃ program, parseProgram "BEGIN \x7b for (;;print a, b) ; \x7d".toList = .ok program) ∧
      ∀ program, parseProgram "BEGIN \x7b for (;;print (a, b)) ; \x7d".toList ≠ .ok program := by
  have hboth : (parseProgram "BEGIN \x7b for (;;print a, b) ; \x7d".toList).isOk = true ∧
      (parseProgram "BEGIN \x7b for (;;print (a, b)) ; \x7d".toList).isOk = false := by
    decide +kernel
  refine ⟨?_, fun program hparse => ?_⟩
  · cases hparse : parseProgram "BEGIN \x7b for (;;print a, b) ; \x7d".toList with
    | error fault =>
      rw [hparse] at hboth
      exact absurd hboth.1 Bool.false_ne_true
    | ok program => exact ⟨program, rfl⟩
  · rw [hparse] at hboth
    exact absurd hboth.2.symm Bool.false_ne_true

end Parser

end Awk
