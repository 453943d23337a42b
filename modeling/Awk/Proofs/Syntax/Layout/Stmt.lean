import Awk.Proofs.Syntax.Layout.Ahead

/-!
# Statements in the second text

What is read as a statement in the first text is read in the second one (`stmtMirrors`).  Its path has a mark before
every statement that an `if`, a `while` or a `for` governs (`Stmt.governed`), where newlines may stand.
-/

namespace Awk

mutual

/-- Where the statements begin that stand behind the parenthesis of an `if`, a `while` or a `for`. -/
def Stmt.governed : Stmt → List Nat
  | .block _ body => governedIn body
  | .ifElse _ _ yes no => yes.span.start :: (yes.governed ++ governedElse no)
  | .while _ _ body | .for _ _ _ _ body | .forIn _ _ _ body => body.span.start :: body.governed
  | .doWhile _ body _ => body.governed
  | _ => []

def governedIn : List Stmt → List Nat
  | [] => []
  | s :: ss => s.governed ++ governedIn ss

def governedElse : Option Stmt → List Nat
  | none => []
  | some s => s.governed

end

namespace Parser

open Outline

variable {α : Type} {C : Correspondence} {closed : Bool} {post : Tie} {n m fuel : Nat} {s t : ParserState} {stmt : Stmt}
  {e : Expr} {context : Context} {P : List Taken → Prop} {path path' gap : List Taken} {os os' : List Outline}
  {offsets offsets' : List Nat}

/-! ### Paths of statements -/

/-- Behind a marked parenthesis there are newlines, and then a token that begins at an offset. -/
def Announces (path : List Taken) (offset : Nat) : Prop :=
  ∃ before header gap first after, path = before ++ header :: (gap ++ first :: after) ∧ header.header = true ∧
    header.token.kind = .rpar ∧ (∀ taken ∈ gap, (taken.token.kind == .newline) = true) ∧
    first.token.span.start = offset

theorem Announces.append {offset : Nat} (h : Announces path offset) (before after : List Taken) :
    Announces (before ++ path ++ after) offset := by
  obtain ⟨before', header, gap, first, after', rfl, hheader, hclose, hgap, hfirst⟩ := h
  exact ⟨before ++ before', header, gap, first, after' ++ after, by simp, hheader, hclose, hgap, hfirst⟩

/-- The path of some trees, with marks before some of the statements in them. -/
structure Leads (os : List Outline) (offsets : List Nat) (path : List Taken) : Prop where
  carries : Carries os path
  announces : ∀ offset ∈ offsets, Announces path offset

/-- The path of a statement begins where the statement does. -/
structure LeadsTo (stmt : Stmt) (path : List Taken) : Prop extends Leads [stmt.outline] stmt.governed path where
  begins : ∃ first rest, path = first :: rest ∧ first.token.span.start = stmt.span.start

theorem Carries.leads (h : Carries os path) : Leads os [] path := ⟨h, List.forall_mem_nil _⟩

theorem Leads.append (h : Leads os offsets path) (h' : Leads os' offsets' path') :
    Leads (os ++ os') (offsets ++ offsets') (path ++ path') := by
  refine ⟨h.carries.append h'.carries, List.forall_mem_append.2 ⟨fun offset hoffset => ?_, fun offset hoffset => ?_⟩⟩
  · simpa using (h.announces offset hoffset).append [] path'
  · simpa using (h'.announces offset hoffset).append path []

theorem Leads.imp (h : Leads os offsets path) (hos : leavesIn os' = leavesIn os) : Leads os' offsets path :=
  ⟨by rw [Carries, hos]; exact h.carries, h.announces⟩

/-- The path of a statement that a parenthesis governs. -/
theorem LeadsTo.announced {close : Token} (hclose : close.kind = .rpar)
    (hgap : ∀ taken ∈ gap, (taken.token.kind == .newline) = true) (h : LeadsTo stmt path) :
    Leads [stmt.outline] (stmt.span.start :: stmt.governed) (⟨close, true⟩ :: (gap ++ path)) := by
  have hall := (Carries.mark true hclose rfl).append ((Carries.newlines hgap).append h.carries)
  refine ⟨hall, List.forall_mem_cons.2 ⟨?_, fun offset hoffset => ?_⟩⟩
  · obtain ⟨first, rest, rfl, hfirst⟩ := h.begins
    exact ⟨[], ⟨close, true⟩, gap, first, rest, rfl, rfl, hclose, hgap, hfirst⟩
  · simpa using (h.announces offset hoffset).append (⟨close, true⟩ :: gap) []

/-! ### Print statements -/

theorem mirrors_parenthesisedItems {items : List Expr} (hle : n ≤ m)
    (hopen : s.current.kind = .lpar) (h : (parenthesisedItems n).run s = .ok (some items, t)) :
    Mirrors C closed .alike .alike s t (Carries (outlines items)) (parenthesisedItems m)
      (some (placedAll C.place.span items)) := by
  have ih := exprMirrors C hle
  have hback {s₁ t : ParserState} :
      ¬(do set s; pure none : Parser (Option (List Expr))).run s₁ = .ok (some items, t) := by
    intro h
    simp only [bind_ok, set_ok, pure_ok] at h
    obtain ⟨_, _, -, hnone, -⟩ := h
    cases hnone
  obtain ⟨_, s, hsaved, hrest⟩ := bind_ok.1 h
  obtain ⟨rfl, rfl⟩ := get_ok.1 hsaved
  obtain ⟨_, s₁, hstart, h⟩ := bind_ok.1 hrest
  obtain ⟨-, htake⟩ := advance_iff.1 hstart
  obtain ⟨first, s₂, hfirst, h⟩ := bind_ok.1 h
  obtain ⟨more, s₃, hmore, h⟩ := bind_ok.1 h
  split at h
  · exact absurd h hback
  rename_i hne
  rcases accept_cases h with ⟨s₄, hclose, htake', h⟩ | h
  swap
  · exact absurd h hback
  simp only [bind_ok (x := atTerminator), bind_ok (x := kind), kind_ok, atTerminator_iff] at h
  obtain ⟨_, s₄, ⟨rfl, rfl⟩, _, s₅, ⟨rfl, hstay⟩, h⟩ := h
  subst hstay
  split at h
  swap
  · exact absurd h hback
  rename_i hend
  obtain ⟨hitems, rfl⟩ := pure_ok.1 h
  rw [Option.some.injEq] at hitems
  subst hitems
  have hthere : Mirrors C closed .alike .alike s t (Carries (outlines (first :: more)))
      (do
        let _ ← advance
        let first ← expr m false
        let more ← moreItems m false
        let _ ← expect .rpar ""
        if (← atTerminator) || isRedirect (← kind) then return first :: more else failExpecting "")
      (placedAll C.place.span (first :: more)) := by
    refine .bind (.advance htake (hopen ▸ rfl)) ?_
    rintro _ rfl
    refine .bind (ih.level hfirst).of_near fun path₁ h₁ => .bind (ih.moreItems hmore) fun path₂ h₂ => ?_
    refine .bind (.expect hclose htake' rfl) ?_
    rintro _ rfl
    refine .atTerminator (.kind (fun _ => rfl) ?_)
    rw [if_pos hend]
    have hhead := (Carries.mark false hopen rfl).append h₁
    exact .pure (by simpa [Awk.outlines] using hhead.append (h₂.append (Carries.mark false hclose rfl)))
  refine hthere.runs fun {_ s' t'} _ hrun => ?_
  obtain ⟨_, s₁', hstart', hrun⟩ := bind_ok.1 hrun
  obtain ⟨first', s₂', hfirst', hrun⟩ := bind_ok.1 hrun
  obtain ⟨more', s₃', hmore', hrun⟩ := bind_ok.1 hrun
  obtain ⟨_, s₄', hclose', hrun⟩ := bind_ok.1 hrun
  obtain ⟨-, hclose', htake'⟩ := expect_iff.1 hclose'
  obtain ⟨b, s₅', hend', hrun⟩ := bind_ok.1 hrun
  obtain ⟨k, s₆', hk', hrun⟩ := bind_ok.1 hrun
  split at hrun
  swap
  · exact absurd hrun failExpecting_ok
  rename_i hends
  obtain ⟨hitems, rfl⟩ := pure_ok.1 hrun
  obtain ⟨second, more, rfl⟩ := List.exists_cons_of_ne_nil hne
  rw [placedAll, placedAll, List.cons.injEq] at hitems
  obtain ⟨rfl, rfl⟩ := hitems
  refine bind_ok.2 ⟨_, _, get_ok.2 ⟨rfl, rfl⟩, bind_ok.2 ⟨_, _, hstart', bind_ok.2 ⟨_, _, hfirst', ?_⟩⟩⟩
  refine bind_ok.2 ⟨_, _, hmore', bind_ok.2 ⟨true, s₄', accept_iff.2 ?_, ?_⟩⟩
  · rw [if_pos hclose']
    exact ⟨rfl, htake'⟩
  · rw [if_pos rfl]
    refine bind_ok.2 ⟨_, _, hend', bind_ok.2 ⟨_, _, hk', ?_⟩⟩
    rw [if_pos hends]
    rfl

theorem mirrors_plainItems {items : List Expr} (hle : n ≤ m) (h : (plainItems n).run s = .ok (items, t)) :
    Mirrors C closed .alike .alike s t (Carries (outlines items)) (plainItems m) (placedAll C.place.span items) := by
  simp only [plainItems, bind_ok (x := kind), bind_ok (x := atTerminator), kind_ok, atTerminator_iff] at h ⊢
  obtain ⟨_, s, ⟨rfl, rfl⟩, _, s₁, ⟨rfl, hstay⟩, h⟩ := h
  subst hstay
  refine .atTerminator (.kind (fun _ => rfl) ?_)
  split at h
  · rename_i hend
    obtain ⟨rfl, rfl⟩ := pure_ok.1 h
    rw [if_pos hend]
    exact .pure .nil
  · rename_i hend
    simp only [bind_ok, pure_ok] at h
    obtain ⟨first, s₂, hfirst, more, s₃, hmore, rfl, rfl⟩ := h
    rw [if_neg hend]
    have ih := exprMirrors C hle
    refine .bind (ih.level hfirst).of_near fun path₁ h₁ => .bind (ih.moreItems hmore) fun path₂ h₂ => .pure ?_
    simpa [Carries, Awk.outlines] using h₁.append h₂

/-- Whichever way the items are written, they are read in the same way in the second text. -/
theorem mirrors_printItems {next next' : List Expr → Parser α} {a b : α} (hle : n ≤ m)
    (h : (if s.current.kind = TokenKind.lpar then do
        match ← parenthesisedItems n with
        | some items => pure items >>= next
        | none => plainItems n >>= next
      else do
        match ← pure none with
        | some items => pure items >>= next
        | none => plainItems n >>= next).run s = .ok (a, t))
    (hnext : ∀ {items s₁}, (next items).run s₁ = .ok (a, t) → ∀ path, Carries (outlines items) path →
      Mirrors C closed .alike post s₁ t (fun rest => P (path ++ rest)) (next' (placedAll C.place.span items)) b) :
    Mirrors C closed .alike post s t P
      (if s.current.kind = TokenKind.lpar then do
        match ← parenthesisedItems m with
        | some items => pure items >>= next'
        | none => plainItems m >>= next'
      else do
        match ← pure none with
        | some items => pure items >>= next'
        | none => plainItems m >>= next') b := by
  have hplain (h : (plainItems n >>= next).run s = .ok (a, t)) :
      Mirrors C closed .alike post s t P (plainItems m >>= next') b := by
    obtain ⟨items, s₁, hitems, h⟩ := bind_ok.1 h
    exact .bind (mirrors_plainItems hle hitems) fun path hpath => hnext h path hpath
  split at h
  · rename_i hopen
    rw [if_pos hopen]
    obtain ⟨listed, s₁, hlisted, h⟩ := bind_ok.1 h
    rcases reads_parenthesisedItems hopen hlisted with ⟨items, rfl, -⟩ | ⟨rfl, hback⟩
    · exact .bind (mirrors_parenthesisedItems hle hopen hlisted) fun path hpath => hnext h path hpath
    · rw [hback] at h
      obtain ⟨items, s₂, hitems, hrest⟩ := bind_ok.1 h
      refine (hplain h).runs fun {path s' t'} htied hrun => ?_
      obtain ⟨items', s₂', hitems', -⟩ := bind_ok.1 hrun
      have hopen' : s'.current.kind = .lpar := (htied.near.matches.eq_iff rfl).2 hopen
      exact bind_ok.2 ⟨none, s', parenthesisedItems_none htied.near.fed' hopen' hitems', hrun⟩
  · rename_i hopen
    rw [if_neg hopen]
    exact hplain h

theorem Mirrors.unless {p : Prop} [Decidable p] {forbid : Parser Unit} {next : Unit → Parser α} {pre : Tie} {a : α}
    (hp : ¬p) (h : Mirrors C closed pre post s t P (next ()) a) :
    Mirrors C closed pre post s t P (if p then forbid >>= next else next ()) a := by
  rwa [if_neg hp]

theorem isEmpty_placedAll (f : Span → Span) (es : List Expr) : (placedAll f es).isEmpty = es.isEmpty := by
  cases es <;> rfl

theorem mirrors_printStmt (hle : n ≤ m) (hkind : s.current.kind = .print ∨ s.current.kind = .printf)
    (h : (printStmt n).run s = .ok (stmt, t)) :
    Mirrors C closed .near .alike s t (Carries [stmt.outline]) (printStmt m) (stmt.placed C.place.span) := by
  obtain ⟨_, s₁, hstart, h⟩ := bind_ok.1 h
  obtain ⟨rfl, htake⟩ := advance_iff.1 hstart
  obtain ⟨_, s₁, hk, h⟩ := bind_ok.1 h
  obtain ⟨rfl, rfl⟩ := kind_ok.1 hk
  have htight : s.current.kind.isTight = true := by rcases hkind with hkind | hkind <;> rw [hkind] <;> rfl
  refine .bind (.advance htake htight) ?_
  rintro _ rfl
  refine .kind (fun _ => rfl) (mirrors_printItems hle h fun {items s₂} h path hpath => ?_)
  obtain ⟨hformat, h⟩ := unless_ok failExpecting_ok h
  refine .unless (by rwa [isEmpty_placedAll]) ?_
  obtain ⟨_, s₂, hk, h⟩ := bind_ok.1 h
  obtain ⟨rfl, rfl⟩ := kind_ok.1 hk
  refine .kind (fun _ => rfl) ?_
  split at h
  · rename_i op hop
    simp only [bind_ok, advance_iff, spanFrom_iff, pure_ok] at h
    obtain ⟨_, s₃, ⟨rfl, htake'⟩, target, s₄, htarget, _, _, ⟨rfl, rfl⟩, _, _, ⟨rfl, rfl⟩, rfl, rfl⟩ := h
    refine .bind (.advance htake' (isTight_of_some hop (by decide))) ?_
    rintro _ rfl
    refine .bind ((exprMirrors C hle).level htarget).of_near fun path' hpath' => ?_
    refine .spanFrom _ (.spanFrom _ (.pure ?_))
    have hall := hpath.append ((Carries.leaf s₂.current false).append hpath')
    simpa [Carries, Stmt.outline, Redirect.outline, leavesIn_append] using (Carries.leaf s.current false).append hall
  · simp only [bind_ok, spanFrom_iff, pure_ok] at h
    obtain ⟨_, _, ⟨rfl, rfl⟩, rfl, rfl⟩ := h
    refine .spanFrom _ (.pure ?_)
    simpa [Carries, Stmt.outline] using (Carries.leaf s.current false).append hpath

/-! ### Statements without a body -/

theorem mirrors_optionalExpr {found : Option Expr} (hle : n ≤ m) (h : (optionalExpr n).run s = .ok (found, t)) :
    Mirrors C closed .alike .alike s t (Carries (found.map Expr.outline).toList) (optionalExpr m)
      (found.map (Expr.placed C.place.span)) := by
  simp only [optionalExpr, bind_ok (x := atTerminator), atTerminator_iff] at h ⊢
  obtain ⟨_, s, ⟨rfl, rfl⟩, h⟩ := h
  refine .atTerminator ?_
  split at h
  · rename_i hend
    obtain ⟨rfl, rfl⟩ := pure_ok.1 h
    rw [if_pos hend]
    exact .pure .nil
  · rename_i hend
    simp only [bind_ok, pure_ok] at h
    obtain ⟨e, _, he, rfl, rfl⟩ := h
    rw [if_neg hend]
    exact .bind ((exprMirrors C hle).level he).of_near fun path h => .pure (by simpa using h)

theorem mirrors_delete (hle : n ≤ m) (hkind : s.current.kind = .delete)
    (h : (do
      let _ ← advance
      let array ← expect .name "array name"
      if ← accept .lsqb then
        let subs ← subscripts n
        return .delete (← spanFrom s.current) array (some subs)
      else
        return .delete (← spanFrom s.current) array none : Parser Stmt).run s = .ok (stmt, t)) :
    Mirrors C closed .near .alike s t (Carries [stmt.outline])
      (do
        let _ ← advance
        let array ← expect .name "array name"
        if ← accept .lsqb then
          let subs ← subscripts m
          return .delete (← spanFrom (C.token s.current)) array (some subs)
        else
          return .delete (← spanFrom (C.token s.current)) array none) (stmt.placed C.place.span) := by
  obtain ⟨_, s₁, hstart, h⟩ := bind_ok.1 h
  obtain ⟨-, htake⟩ := advance_iff.1 hstart
  obtain ⟨_, s₂, harray, h⟩ := bind_ok.1 h
  obtain ⟨rfl, hname, htake'⟩ := expect_iff.1 harray
  refine .bind (.advance htake (hkind ▸ rfl)) ?_
  rintro _ rfl
  refine .bind (.expect hname htake' rfl) ?_
  rintro _ rfl
  have hhead := (Carries.mark false hkind rfl).append (Carries.leaf s₁.current false)
  rcases accept_split h with ⟨s₃, hopen, htake'', h⟩ | ⟨hopen, h⟩
  · simp only [bind_ok, spanFrom_iff, pure_ok] at h
    obtain ⟨subs, s₄, hsubs, _, _, ⟨rfl, rfl⟩, rfl, rfl⟩ := h
    refine .bind (.accept hopen htake'' rfl) ?_
    rintro _ rfl
    refine .bind ((exprMirrors C hle).subscripts hsubs).of_near fun path h => .spanFrom _ (.pure ?_)
    have hall := hhead.append ((Carries.mark false hopen rfl).append h)
    simpa [Carries, Stmt.outline, Subscripts.outline] using hall
  · simp only [bind_ok, spanFrom_iff, pure_ok] at h
    obtain ⟨_, _, ⟨rfl, rfl⟩, rfl, rfl⟩ := h
    refine .bind (.acceptNot hopen rfl) ?_
    rintro _ rfl
    refine .spanFrom _ (.pure ?_)
    simpa [Carries, Stmt.outline] using hhead

/-- A statement that is a keyword and nothing else. -/
theorem mirrors_keyword {p : Prop} [Decidable p] {fault : SyntaxFault} {build : Span → Stmt} {k : TokenKind}
    (hkind : s.current.kind = k) (htight : k.isTight = true) (hmark : k.isOperand = false)
    (hplaced : ∀ span, (build span).placed C.place.span = build (C.place.span span))
    (hleaves : ∀ span, (build span).outline.leaves = [])
    (h : (do
      let _ ← advance
      if p then failAt fault s.current
      let span ← spanFrom s.current
      return build span).run s = .ok (stmt, t)) :
    Mirrors C closed .near .alike s t (Carries [stmt.outline])
      (do
        let _ ← advance
        if p then failAt fault (C.token s.current)
        let span ← spanFrom (C.token s.current)
        return build span) (stmt.placed C.place.span) := by
  obtain ⟨hp, htake, rfl⟩ := reads_keyword h
  refine .bind (.advance htake (hkind ▸ htight)) ?_
  rintro _ rfl
  refine .unless hp (.spanFrom _ ?_)
  rw [← hplaced]
  refine .pure ?_
  simpa [Carries, hleaves] using Carries.mark false hkind hmark

/-- A simple statement begins with a token that does not end one, and is placed from it on.  It governs no other. -/
theorem begins_of_reads (h : ReadsStmt (.simple context) s stmt t) :
    isTerminator s.current.kind = false ∧ stmt.span.start = s.current.span.start ∧ stmt.governed = [] := by
  cases h with
  | print hkind | printTo hkind => exact ⟨by rcases hkind with hkind | hkind <;> rw [hkind] <;> rfl, rfl, rfl⟩
  | delete hkind | deleteElement hkind | «break» hkind | «continue» hkind | next hkind | nextFile hkind | exit hkind
  | «return» hkind => exact ⟨by rw [hkind]; rfl, rfl, rfl⟩
  | expr he => exact ⟨isTerminator_of_reads he rfl, rfl, rfl⟩

theorem mirrors_simpleStmt (hle : n ≤ m) (h : (simpleStmt n context).run s = .ok (stmt, t)) :
    Mirrors C closed .near .alike s t (Carries [stmt.outline]) (simpleStmt m context) (stmt.placed C.place.span) := by
  have hread := reads_simpleStmt h
  simp only [simpleStmt, bind_ok (x := current), current_ok] at h ⊢
  obtain ⟨_, s, ⟨rfl, rfl⟩, h⟩ := h
  refine .current (isFirm_of_isTerminator (begins_of_reads hread).1) ?_
  rw [C.token_kind]
  -- By the kind of the first token, in the order of the grammar.
  split at h
  · rename_i hkind
    exact mirrors_printStmt hle (.inl hkind) h
  · rename_i hkind
    exact mirrors_printStmt hle (.inr hkind) h
  · rename_i hkind
    exact mirrors_delete hle hkind h
  · rename_i hkind
    exact mirrors_keyword hkind rfl rfl (fun _ => by split <;> rfl) (fun _ => by split <;> simp [Stmt.outline]) h
  · rename_i hkind
    exact mirrors_keyword hkind rfl rfl (fun _ => by split <;> rfl) (fun _ => by split <;> simp [Stmt.outline]) h
  · rename_i hkind
    exact mirrors_keyword hkind rfl rfl (fun _ => by split <;> rfl) (fun _ => by split <;> simp [Stmt.outline]) h
  · rename_i hkind
    exact mirrors_keyword hkind rfl rfl (fun _ => by split <;> rfl) (fun _ => by split <;> simp [Stmt.outline]) h
  · rename_i hkind
    simp only [bind_ok, advance_iff, spanFrom_iff, pure_ok] at h
    obtain ⟨_, s₁, ⟨-, htake⟩, code, s₂, hcode, _, _, ⟨rfl, rfl⟩, rfl, rfl⟩ := h
    refine .bind (.advance htake (hkind ▸ rfl)) ?_
    rintro _ rfl
    refine .bind (mirrors_optionalExpr hle hcode) fun path h => .spanFrom _ (.pure ?_)
    simpa [Carries, Stmt.outline] using (Carries.mark false hkind rfl).append h
  · rename_i hkind
    obtain ⟨_, s₁, hreturn, h⟩ := bind_ok.1 h
    obtain ⟨-, htake⟩ := advance_iff.1 hreturn
    obtain ⟨hfunction, h⟩ := unless_ok failAt_ok h
    simp only [bind_ok, spanFrom_iff, pure_ok] at h
    obtain ⟨value, s₂, hvalue, _, _, ⟨rfl, rfl⟩, rfl, rfl⟩ := h
    refine .bind (.advance htake (hkind ▸ rfl)) ?_
    rintro _ rfl
    refine .unless hfunction (.bind (mirrors_optionalExpr hle hvalue) fun path h => .spanFrom _ (.pure ?_))
    simpa [Carries, Stmt.outline] using (Carries.mark false hkind rfl).append h
  · simp only [bind_ok, spanFrom_iff, pure_ok] at h
    obtain ⟨e, s₁, he, _, _, ⟨rfl, rfl⟩, rfl, rfl⟩ := h
    refine .bind ((exprMirrors C hle).level he) fun path h => .spanFrom _ (.pure ?_)
    simpa [Carries, Stmt.outline] using h

theorem mirrors_optionalStmt {found : Option Stmt} {absent : TokenKind} (hle : n ≤ m) (hfirm : absent.isFirm = true)
    (h : (optionalStmt n context absent).run s = .ok (found, t)) :
    Mirrors C closed .near .near s t (Carries [stmtOutline found]) (optionalStmt m context absent)
      (placedStmt C.place.span found) := by
  simp only [optionalStmt, bind_ok (x := kind), kind_ok] at h ⊢
  obtain ⟨_, s, ⟨rfl, rfl⟩, h⟩ := h
  obtain ⟨hnewline, hend⟩ := TokenKind.ne_of_isFirm hfirm
  refine .kind (fun _ => by rw [if_neg hnewline.symm, if_neg hend.symm]) ?_
  split at h
  · rename_i hkind
    obtain ⟨rfl, rfl⟩ := pure_ok.1 h
    rw [if_pos hkind]
    exact .pure (by simp [Carries, stmtOutline])
  · rename_i hkind
    simp only [bind_ok, pure_ok] at h
    obtain ⟨stmt, _, hstmt, rfl, rfl⟩ := h
    rw [if_neg hkind]
    have hsame : Mirrors C closed .near .near s t (Carries [stmt.outline]) (simpleStmt m context)
        (stmt.placed C.place.span) :=
      (mirrors_simpleStmt hle hstmt).mono id id id fun h => by cases h
    exact .bind hsame fun path h => .pure (by simpa [stmtOutline] using h)

theorem isFirm_of_optionalStmt {found : Option Stmt} {absent : TokenKind} (hfirm : absent.isFirm = true)
    (h : (optionalStmt n context absent).run s = .ok (found, t)) : s.current.kind.isFirm = true := by
  simp only [optionalStmt, bind_ok (x := kind), kind_ok] at h
  obtain ⟨_, s, ⟨rfl, rfl⟩, h⟩ := h
  split at h
  · rename_i hkind
    rwa [hkind]
  · obtain ⟨stmt, _, hstmt, -⟩ := bind_ok.1 h
    exact isFirm_of_isTerminator (begins_of_reads (reads_simpleStmt hstmt)).1

/-- An expression in parentheses, of which the second one may close the header of a statement. -/
theorem mirrors_parenthesised (hle : n ≤ m) (header : Bool) (h : (parenthesised n).run s = .ok (e, t)) :
    Mirrors C closed .alike ⟨header, true⟩ s t
      (fun path => ∃ inner close, path = inner ++ [⟨close, header⟩] ∧ close.kind = .rpar ∧ Carries [e.outline] inner)
      (parenthesised m) (e.placed C.place.span) := by
  simp only [parenthesised, bind_ok, expect_iff, pure_ok] at h
  obtain ⟨_, s₁, ⟨-, hopen, htake⟩, e, s₂, he, _, s₃, ⟨-, hclose, htake'⟩, rfl, rfl⟩ := h
  refine .bind (.expect hopen htake rfl) ?_
  rintro _ rfl
  refine .bind ((exprMirrors C hle).level he).of_near fun path h => .bind (.expectClosing header hclose htake') ?_
  rintro _ rfl
  exact .pure ⟨⟨s.current, false⟩ :: path, s₂.current, by simp, hclose, (Carries.mark false hopen rfl).append h⟩

/-! ### Statements with a body -/

/-- What the functions of the grammar of statements give with a fuel in the first text they give with another one in the
second text.  Behind a statement the parser may look ahead, but not past the brace that closes the block around it. -/
structure StmtMirrors (C : Correspondence) (n m : Nat) : Prop where
  block : ∀ {closed context s stmt t}, (block n context).run s = .ok (stmt, t) →
    Mirrors C closed .near .alike s t (LeadsTo stmt) (block m context) (stmt.placed C.place.span)
  blockBody : ∀ {closed context s stmts t}, (blockBody n context).run s = .ok (stmts, t) →
    Mirrors C closed .apart .alike s t
      (fun path => Solid path ∧ Leads (stmtOutlines stmts) (governedIn stmts) path) (blockBody m context)
      (placedBody C.place.span stmts)
  statement : ∀ {context s stmt t}, (statement n context).run s = .ok (stmt, t) →
    Mirrors C true .near .apart s t (LeadsTo stmt) (statement m context) (stmt.placed C.place.span)
  forStmt : ∀ {context s stmt t}, s.current.kind = .for → (forStmt n context).run s = .ok (stmt, t) →
    Mirrors C true .near .apart s t (LeadsTo stmt) (forStmt m context) (stmt.placed C.place.span)
  bodyStmt : ∀ {context s stmt t}, (bodyStmt n context).run s = .ok (stmt, t) →
    Mirrors C true .apart .apart s t
      (fun path => ∃ gap inner, path = gap ++ inner ∧ (∀ taken ∈ gap, (taken.token.kind == .newline) = true) ∧
        LeadsTo stmt inner) (bodyStmt m context) (stmt.placed C.place.span)

theorem mirrors_block (ih : StmtMirrors C n m) (h : (block (n + 1) context).run s = .ok (stmt, t)) :
    Mirrors C closed .near .alike s t (LeadsTo stmt) (block (m + 1) context) (stmt.placed C.place.span) := by
  simp only [block, bind_ok, expect_iff, spanFrom_iff, pure_ok] at h ⊢
  obtain ⟨_, s₁, ⟨rfl, hopen, htake⟩, body, s₂, hbody, _, _, ⟨rfl, rfl⟩, rfl, rfl⟩ := h
  refine .bind (.expectOpen false hopen htake rfl) ?_
  rintro _ rfl
  refine .bind (ih.blockBody hbody) fun path h => .spanFrom _ (.pure ?_)
  have hall := (Carries.mark false hopen rfl).leads.append h.2
  rw [List.append_nil]
  exact ⟨hall.imp (by simp [Stmt.outline]), ⟨s.current, false⟩, _, rfl, rfl⟩

theorem mirrors_blockBody (ih : StmtMirrors C n m) {stmts : List Stmt}
    (h : (blockBody (n + 1) context).run s = .ok (stmts, t)) :
    Mirrors C closed .apart .alike s t
      (fun path => Solid path ∧ Leads (stmtOutlines stmts) (governedIn stmts) path) (blockBody (m + 1) context)
      (placedBody C.place.span stmts) := by
  simp only [blockBody] at h ⊢
  obtain ⟨_, s₁, hskip, h⟩ := bind_ok.1 h
  rcases accept_split h with ⟨s₂, hclose, htake, h⟩ | ⟨hclose, h⟩
  · obtain ⟨rfl, rfl⟩ := pure_ok.1 h
    refine .bind (.skipTerminators (skips_of_skip hskip) (hclose ▸ rfl) (by rw [hclose]; decide)) fun gap hgap => ?_
    refine .bind (.accept hclose htake rfl) ?_
    rintro _ rfl
    have hall := (Carries.gap hgap).append (Carries.mark false hclose rfl)
    refine .pure ⟨⟨⟨s₁.current, false⟩, by simp, by rw [hclose]; decide⟩, ?_⟩
    rw [List.append_nil]
    exact hall.leads
  · obtain ⟨_, s₁, hk, h⟩ := bind_ok.1 h
    obtain ⟨rfl, rfl⟩ := kind_ok.1 hk
    split at h
    · exact absurd h failExpecting_ok
    · rename_i hend
      simp only [bind_ok, pure_ok] at h
      obtain ⟨first, s₂, hfirst, more, s₃, hmore, rfl, rfl⟩ := h
      have hstop := Bool.or_eq_false_iff.1 (skip_stops rfl hskip)
      have hfirm : s₁.current.kind.isFirm = true := by
        rw [TokenKind.isFirm, Bool.and_eq_true, bne_iff_ne, bne_iff_ne]
        exact ⟨ne_of_beq_false hstop.1, hend⟩
      refine .bind (.skipTerminators (skips_of_skip hskip) hfirm (ne_of_beq_false hstop.2)) fun gap hgap => ?_
      refine .bind (.acceptNot hclose rfl) ?_
      rintro _ rfl
      refine .kind (fun h => absurd h hend) ?_
      rw [if_neg hend]
      refine .bindClosed (ih.statement hfirst) fun path₁ h₁ => .bind (ih.blockBody hmore) fun path₂ h₂ => .pure ?_
      have hall := (Carries.gap hgap).leads.append (h₁.append h₂.2)
      refine ⟨by simpa using h₂.1, by simpa using (h₂.1.append path₁).append gap, ?_⟩
      simpa [stmtOutlines, governedIn] using hall

/-- A statement begins with a token that may begin one, and is placed from it on. -/
theorem isFirm_of_statement (h : (statement n context).run s = .ok (stmt, t)) : s.current.kind.isFirm = true := by
  cases (stmtReads n).statement h with
  | ofBlock hblock =>
    cases hblock with
    | block hopen => rw [hopen]; rfl
  | ofSimple hsimple => exact isFirm_of_isTerminator (begins_of_reads hsimple).1
  | empty hkind | ifThen hkind | ifElse hkind | «while» hkind | doWhile hkind | forIn hkind | «for» hkind =>
    rw [hkind]; rfl

theorem mirrors_bodyStmt (ih : StmtMirrors C n m) (h : (bodyStmt (n + 1) context).run s = .ok (stmt, t)) :
    Mirrors C true .apart .apart s t
      (fun path => ∃ gap inner, path = gap ++ inner ∧ (∀ taken ∈ gap, (taken.token.kind == .newline) = true) ∧
        LeadsTo stmt inner) (bodyStmt (m + 1) context) (stmt.placed C.place.span) := by
  obtain ⟨_, s₁, hskip, h⟩ := bind_ok.1 h
  refine .bind (.skipNewlines (skips_of_skip hskip) (isFirm_of_statement h)) fun gap hgap => ?_
  exact (ih.statement h).imp fun path h => ⟨gap, path, rfl, hgap, h⟩

/-- Whether the test of a loop is there or not, it is read in the same way in the second text. -/
theorem mirrors_forTest {next next' : Option Expr → Parser α} {a b : α} {s₁ : ParserState} {u : Unit} (hle : n ≤ m)
    (hskip : skipNewlines.run s = .ok (u, s₁))
    (h : (if s₁.current.kind = TokenKind.semi then pure none >>= next else do
        let e ← expr n false
        pure (some e) >>= next).run s₁ = .ok (a, t))
    (hnext : ∀ {test s₂}, (next test).run s₂ = .ok (a, t) → ∀ path, Carries [exprOutline test] path →
      Mirrors C closed .near post s₂ t (fun rest => P (path ++ rest)) (next' (test.map (Expr.placed C.place.span))) b) :
    Mirrors C closed .apart post s t P
      (do
        skipNewlines
        if (← kind) = .semi then pure none >>= next' else do
          let e ← expr m false
          pure (some e) >>= next') b := by
  have hskips := skips_of_skip hskip
  split at h
  · rename_i hsemi
    rw [pure_bind] at h
    refine .bind (.skipNewlines hskips (hsemi ▸ rfl)) fun gap hgap => .kind (fun _ => rfl) ?_
    rw [if_pos hsemi, pure_bind]
    exact hnext h gap (by simpa [Carries, exprOutline] using Carries.newlines hgap)
  · rename_i hsemi
    obtain ⟨e, s₂, he, h⟩ := bind_ok.1 h
    rw [pure_bind] at h
    refine .bind (.skipNewlines hskips (isFirm_of_level he)) fun gap hgap => .kind (fun _ => rfl) ?_
    rw [if_neg hsemi]
    refine .bind ((exprMirrors C hle).level he) fun path hpath => ?_
    rw [pure_bind]
    have hrest := hnext h (gap ++ path) ((Carries.newlines hgap).append hpath)
    simpa using hrest.of_near

theorem mirrors_forStmt (ih : StmtMirrors C n m) (hle : n ≤ m) (hkind : s.current.kind = .for)
    (h : (forStmt (n + 1) context).run s = .ok (stmt, t)) :
    Mirrors C true .near .apart s t (LeadsTo stmt) (forStmt (m + 1) context) (stmt.placed C.place.span) := by
  simp only [forStmt] at h ⊢
  obtain ⟨_, s₁, hstart, h⟩ := bind_ok.1 h
  obtain ⟨rfl, htake⟩ := advance_iff.1 hstart
  obtain ⟨_, s₂, hparen, h⟩ := bind_ok.1 h
  obtain ⟨-, hopen, htake₁⟩ := expect_iff.1 hparen
  obtain ⟨b, s₂, hforIn, h⟩ := bind_ok.1 h
  cases startsForIn_ok hforIn
  refine .bind (.advance htake (hkind ▸ rfl)) ?_
  rintro _ rfl
  refine .bind (.expect hopen htake₁ rfl) ?_
  rintro _ rfl
  refine .startsForIn hforIn ?_
  have hhead := (Carries.mark false hkind rfl).append (Carries.mark false hopen rfl)
  split at h
  · rename_i hb
    subst hb
    simp only [bind_ok, advance_iff, spanFrom_iff, pure_ok] at h
    obtain ⟨_, s₃, ⟨rfl, htake₂⟩, _, s₄, ⟨-, htake₃⟩, _, s₅, ⟨rfl, htake₄⟩, _, s₆, ⟨-, htake₅⟩, body, s₇, hbody, _, _,
      ⟨rfl, rfl⟩, rfl, rfl⟩ := h
    obtain ⟨helement, hnext⟩ := startsForIn_next hforIn
    obtain ⟨hin, harray, hclose⟩ := hnext htake₂ htake₃ htake₄
    rw [if_pos rfl]
    refine .bind (.advance htake₂ (helement ▸ rfl)) ?_
    rintro _ rfl
    refine .bind (.advance htake₃ (hin ▸ rfl)) ?_
    rintro _ rfl
    refine .bind (.advance htake₄ (harray ▸ rfl)) ?_
    rintro _ rfl
    refine .bind (.advanceOpen true htake₅ (hclose ▸ rfl)) ?_
    rintro _ rfl
    refine .bind (ih.bodyStmt hbody) ?_
    rintro _ ⟨gap, inner, rfl, hgap, hinner⟩
    refine .spanFrom _ (.pure ⟨?_, ⟨s.current, false⟩, _, rfl, rfl⟩)
    have hnames := (Carries.leaf s₂.current false).append
      ((Carries.mark false hin rfl).append (Carries.leaf s₄.current false))
    have hall := (hhead.append hnames).leads.append (hinner.announced hclose hgap)
    simpa [Stmt.governed] using hall.imp (by simp [Stmt.outline])
  · rename_i hb
    rw [if_neg hb]
    obtain ⟨start, s₃, hfirst, h⟩ := bind_ok.1 h
    obtain ⟨_, s₄, hsemi, h⟩ := bind_ok.1 h
    obtain ⟨-, hsemi, htake₂⟩ := expect_iff.1 hsemi
    obtain ⟨_, s₅, hskip, h⟩ := bind_ok.1 h
    obtain ⟨_, s₅, hk, h⟩ := bind_ok.1 h
    obtain ⟨rfl, rfl⟩ := kind_ok.1 hk
    refine .bind (mirrors_optionalStmt hle rfl hfirst).of_near fun path₁ h₁ => ?_
    refine .bind (.expectOpen false hsemi htake₂ rfl) ?_
    rintro _ rfl
    refine mirrors_forTest hle hskip h fun {test s₆} h path₂ h₂ => ?_
    simp only [bind_ok, expect_iff, spanFrom_iff, pure_ok] at h
    obtain ⟨_, s₇, ⟨-, hsemi', htake₃⟩, _, s₈, hskip', update, s₉, hupdate, _, t, ⟨-, hclose, htake₄⟩, body, _, hbody,
      _, _, ⟨rfl, rfl⟩, rfl, rfl⟩ := h
    refine .bind (.expectOpen false hsemi' htake₃ rfl) ?_
    rintro _ rfl
    refine .bind (.skipNewlines (skips_of_skip hskip') (isFirm_of_optionalStmt rfl hupdate)) fun gap hgap => ?_
    refine .bind (mirrors_optionalStmt hle rfl hupdate) fun path₃ h₃ => ?_
    refine .bind (.expectOpen true hclose htake₄ rfl) ?_
    rintro _ rfl
    refine .bind (ih.bodyStmt hbody) ?_
    rintro _ ⟨gap', inner, rfl, hgap', hinner⟩
    refine .spanFrom _ (.pure ⟨?_, ⟨s.current, false⟩, _, rfl, rfl⟩)
    have hbefore := h₁.append ((Carries.mark false hsemi rfl).append h₂)
    have hafter := (Carries.mark false hsemi' rfl).append ((Carries.newlines hgap).append h₃)
    have hall := (hhead.append (hbefore.append hafter)).leads.append (hinner.announced hclose hgap')
    simpa [Stmt.governed] using hall.imp (by simp [Stmt.outline])

theorem mirrors_ifElse (ih : StmtMirrors C n m) (hle : n ≤ m) (hkind : s.current.kind = .if)
    (h : (do
      let _ ← advance
      let test ← parenthesised n
      let yes ← bodyStmt n context
      let saved ← get
      skipNewlines
      let _ ← accept .semi
      skipNewlines
      if ← accept .else then
        let no ← bodyStmt n context
        return .ifElse (← spanFrom s.current) test yes (some no)
      else
        set saved
        return .ifElse (← spanFrom s.current) test yes none : Parser Stmt).run s = .ok (stmt, t)) :
    Mirrors C true .near .apart s t (LeadsTo stmt)
      (do
        let _ ← advance
        let test ← parenthesised m
        let yes ← bodyStmt m context
        let saved ← get
        skipNewlines
        let _ ← accept .semi
        skipNewlines
        if ← accept .else then
          let no ← bodyStmt m context
          return .ifElse (← spanFrom (C.token s.current)) test yes (some no)
        else
          set saved
          return .ifElse (← spanFrom (C.token s.current)) test yes none) (stmt.placed C.place.span) := by
  obtain ⟨_, s₁, hif, h⟩ := bind_ok.1 h
  obtain ⟨-, htake⟩ := advance_iff.1 hif
  obtain ⟨test, s₂, htest, h⟩ := bind_ok.1 h
  obtain ⟨yes, s₃, hyes, h⟩ := bind_ok.1 h
  obtain ⟨_, s₃, hsaved, hrest⟩ := bind_ok.1 h
  obtain ⟨rfl, rfl⟩ := get_ok.1 hsaved
  obtain ⟨_, s₄, hskip, h⟩ := bind_ok.1 hrest
  obtain ⟨b, s₅, hsemi, h⟩ := bind_ok.1 h
  obtain ⟨_, s₆, hskip', h⟩ := bind_ok.1 h
  refine .bind (.advance htake (hkind ▸ rfl)) ?_
  rintro _ rfl
  refine .bind (mirrors_parenthesised hle true htest) ?_
  rintro _ ⟨inner, close, rfl, hclose, hinner⟩
  refine .bind (ih.bodyStmt hyes) ?_
  rintro _ ⟨gap, path, rfl, hgap, hpath⟩
  have hhead := ((Carries.mark false hkind rfl).append hinner).leads.append (hpath.announced hclose hgap)
  rcases accept_split h with ⟨s₇, helse, htake', h⟩ | ⟨helse, h⟩
  · simp only [bind_ok, spanFrom_iff, pure_ok] at h
    obtain ⟨no, s₈, hno, _, _, ⟨rfl, rfl⟩, rfl, rfl⟩ := h
    refine mirrors_withElse hskip hsemi hskip' helse htake' fun between hbetween => ?_
    refine .bind (ih.bodyStmt hno) ?_
    rintro _ ⟨gap', path', rfl, hgap', hpath'⟩
    refine .spanFrom _ (.pure ⟨?_, ⟨s.current, false⟩, _, rfl, rfl⟩)
    have hgaps := (hbetween.append (Carries.newlines hgap')).leads
    have hall := hhead.append (hgaps.append hpath'.toLeads)
    simpa [Stmt.governed, governedElse] using hall.imp (by simp [Stmt.outline, elseOutline])
  · simp only [bind_ok, set_ok, spanFrom_iff, pure_ok] at h
    obtain ⟨_, _, rfl, _, _, ⟨rfl, rfl⟩, rfl, rfl⟩ := h
    refine mirrors_noElse hskip hsemi hskip' helse (.spanFrom _ (.pure ⟨?_, ⟨s.current, false⟩, _, rfl, rfl⟩))
    simpa [Stmt.governed, governedElse] using hhead.imp (by simp [Stmt.outline, elseOutline])

theorem mirrors_doWhile (ih : StmtMirrors C n m) (hle : n ≤ m) (hkind : s.current.kind = .do)
    (h : (do
      let _ ← advance
      let body ← bodyStmt n { context with inLoop := true }
      skipTerminators
      let _ ← expect .while "'while'"
      let test ← parenthesised n
      if !(← atTerminator) then failExpecting "';' or newline"
      return .doWhile (← spanFrom s.current) body test : Parser Stmt).run s = .ok (stmt, t)) :
    Mirrors C true .near .apart s t (LeadsTo stmt)
      (do
        let _ ← advance
        let body ← bodyStmt m { context with inLoop := true }
        skipTerminators
        let _ ← expect .while "'while'"
        let test ← parenthesised m
        if !(← atTerminator) then failExpecting "';' or newline"
        return .doWhile (← spanFrom (C.token s.current)) body test) (stmt.placed C.place.span) := by
  obtain ⟨_, s₁, hdo, h⟩ := bind_ok.1 h
  obtain ⟨-, htake⟩ := advance_iff.1 hdo
  obtain ⟨body, s₂, hbody, h⟩ := bind_ok.1 h
  obtain ⟨_, s₃, hskip, h⟩ := bind_ok.1 h
  obtain ⟨_, s₄, hwhile, h⟩ := bind_ok.1 h
  obtain ⟨-, hwhile, htake'⟩ := expect_iff.1 hwhile
  obtain ⟨test, s₅, htest, h⟩ := bind_ok.1 h
  obtain ⟨b, s₅, hend, h⟩ := bind_ok.1 h
  obtain ⟨rfl, rfl⟩ := atTerminator_iff.1 hend
  obtain ⟨hends, h⟩ := unless_ok failExpecting_ok h
  simp only [bind_ok, spanFrom_iff, pure_ok] at h
  obtain ⟨_, _, ⟨rfl, rfl⟩, rfl, rfl⟩ := h
  refine .bind (.advanceOpen false htake (hkind ▸ rfl)) ?_
  rintro _ rfl
  refine .bind (ih.bodyStmt hbody) ?_
  rintro _ ⟨gap, path, rfl, hgap, hpath⟩
  refine .bind (.skipTerminators (skips_of_skip hskip) (hwhile ▸ rfl) (by rw [hwhile]; decide)) fun gap' hgap' => ?_
  refine .bind (.expect hwhile htake' rfl) ?_
  rintro _ rfl
  refine .bind (mirrors_parenthesised hle false htest) ?_
  rintro _ ⟨inner, close, rfl, hclose, hinner⟩
  refine .atTerminator (.unless hends (.spanFrom _ (.loosen (.pure ⟨?_, ⟨s.current, false⟩, _, rfl, rfl⟩))))
  have hbody := ((Carries.mark false hkind rfl).append (Carries.newlines hgap)).leads.append hpath.toLeads
  have hafter := (Carries.gap hgap').append ((Carries.mark false hwhile rfl).append hinner)
  have hall := hbody.append (hafter.append (Carries.mark false hclose rfl)).leads
  simpa [Stmt.governed] using hall.imp (by simp [Stmt.outline])

theorem mirrors_wholeStmt (hle : n ≤ m) (h : (simpleStmt n context).run s = .ok (stmt, t))
    (hends : isTerminator t.current.kind = true) :
    Mirrors C closed .near .alike s t (LeadsTo stmt) (simpleStmt m context) (stmt.placed C.place.span) := by
  obtain ⟨hbegins, hspan, hgoverned⟩ := begins_of_reads (reads_simpleStmt h)
  refine (mirrors_simpleStmt hle h).imp_of_moves fun path hfed hmoves hcarries => ⟨hgoverned ▸ hcarries.leads, ?_⟩
  cases path with
  | nil =>
    rw [hmoves.current_eq, hbegins] at hends
    cases hends
  | cons first rest =>
    obtain ⟨hfirst, -⟩ := hmoves.head hfed first.token rfl
    exact ⟨first, rest, rfl, (congrArg Span.start hfirst).trans hspan.symm⟩

theorem mirrors_statement (ih : StmtMirrors C n m) (hle : n ≤ m)
    (h : (statement (n + 1) context).run s = .ok (stmt, t)) :
    Mirrors C true .near .apart s t (LeadsTo stmt) (statement (m + 1) context) (stmt.placed C.place.span) := by
  have hfirm := isFirm_of_statement h
  simp only [statement, bind_ok (x := current), current_ok] at h ⊢
  obtain ⟨_, s, ⟨rfl, rfl⟩, h⟩ := h
  refine .current hfirm ?_
  rw [C.token_kind]
  -- By the kind of the first token, in the order of the grammar.
  split at h
  · exact (ih.block h).loosen
  · rename_i hkind
    exact mirrors_ifElse ih hle hkind h
  · rename_i hkind
    simp only [bind_ok, advance_iff, spanFrom_iff, pure_ok] at h
    obtain ⟨_, s₁, ⟨-, htake⟩, test, s₂, htest, body, s₃, hbody, _, _, ⟨rfl, rfl⟩, rfl, rfl⟩ := h
    refine .bind (.advance htake (hkind ▸ rfl)) ?_
    rintro _ rfl
    refine .bind (mirrors_parenthesised hle true htest) ?_
    rintro _ ⟨inner, close, rfl, hclose, hinner⟩
    refine .bind (ih.bodyStmt hbody) ?_
    rintro _ ⟨gap, path, rfl, hgap, hpath⟩
    refine .spanFrom _ (.pure ⟨?_, ⟨s.current, false⟩, _, rfl, rfl⟩)
    have hall := ((Carries.mark false hkind rfl).append hinner).leads.append (hpath.announced hclose hgap)
    simpa [Stmt.governed] using hall.imp (by simp [Stmt.outline])
  · rename_i hkind
    exact mirrors_doWhile ih hle hkind h
  · rename_i hkind
    exact ih.forStmt hkind h
  · rename_i hkind
    simp only [bind_ok, advance_iff, spanFrom_iff, pure_ok] at h
    obtain ⟨_, s₁, ⟨-, htake⟩, _, _, ⟨rfl, rfl⟩, rfl, rfl⟩ := h
    refine .bind (.advanceOpen false htake (hkind ▸ rfl)) ?_
    rintro _ rfl
    refine .spanFrom _ (.pure ⟨?_, ⟨s.current, false⟩, _, rfl, rfl⟩)
    exact (Carries.mark false hkind rfl).leads.imp (by simp [Stmt.outline])
  · obtain ⟨stmt', s₁, hstmt, h⟩ := bind_ok.1 h
    obtain ⟨b, s₁, hend, h⟩ := bind_ok.1 h
    obtain ⟨rfl, rfl⟩ := atTerminator_iff.1 hend
    obtain ⟨hends, h⟩ := unless_ok failExpecting_ok h
    obtain ⟨rfl, rfl⟩ := pure_ok.1 h
    have hends' : isTerminator t.current.kind = true := by simpa using hends
    exact .bind (mirrors_wholeStmt hle hstmt hends') fun path h =>
      .atTerminator (.unless hends (.loosen (.pure (by simpa using h))))

/-- What is read as a statement in the first text is read in the second one, with any fuel that is no less. -/
theorem stmtMirrors (C : Correspondence) {n m : Nat} (h : n ≤ m) : StmtMirrors C n m := by
  induction n generalizing m with
  | zero => constructor <;> intros <;> rename_i h <;> exact absurd h tooDeep_ok
  | succ n ih =>
    obtain ⟨m, rfl⟩ := Nat.exists_eq_add_of_le' h
    have hle := Nat.le_of_succ_le_succ h
    have ih := ih hle
    exact {
      block := mirrors_block ih
      blockBody := mirrors_blockBody ih
      statement := mirrors_statement ih hle
      forStmt := mirrors_forStmt ih hle
      bodyStmt := mirrors_bodyStmt ih }

end Parser

end Awk
