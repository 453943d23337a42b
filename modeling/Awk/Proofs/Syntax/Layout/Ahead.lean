import Awk.Proofs.Syntax.Grammar.Stmt
import Awk.Proofs.Syntax.Layout.Expr

/-!
# Looking ahead in the second text

Where the parser looks ahead and goes back it comes to the same answer in both texts: whether a loop over an array
begins (`Mirrors.startsForIn`), whether another branch follows (`mirrors_withElse`, `mirrors_noElse`), and whether a
list in parentheses is all that is printed (`parenthesisedItems_none`).
-/

namespace Awk.Parser

variable {α β : Type} {C : Correspondence} {closed keeps pending : Bool} {post : Tie} {path : List Taken} {n m : Nat}
  {s s₁ s₂ s₃ t s' : ParserState} {P : List Taken → Prop} {v : β} {u : Unit} {skipped : TokenKind → Bool}

/-! ### Loops over arrays -/

/-- The kind of the token that follows is the same in both texts. -/
theorem Correspondence.Near.next (h : C.Near path s s')
    (hkind : s.current.kind = .pipe ∨ s.current.kind = .name ∨ s.current.kind = .in) {token : Token} {behind : Cursor}
    (htoken : s.behind.token = .ok (token, behind)) :
    ∃ path' token' behind', s'.behind.token = .ok (token', behind') ∧
      C.Near path' { s with position := s.behind, current := token, behind := behind }
        { s' with position := s'.behind, current := token', behind := behind' } := by
  obtain ⟨path', t', htake', hnear⟩ := h.ahead hkind (takes_iff.2 ⟨token, behind, htoken, rfl⟩)
  obtain ⟨token', behind', htoken', rfl⟩ := takes_iff.1 htake'
  exact ⟨path', token', behind', htoken', ⟨hnear.fed, hnear.fed', hnear.meets, hnear.functions, hnear.calls⟩⟩

theorem startsForIn_run (h : C.Near path s s') {b : Bool} (hrun : startsForIn.run s = .ok (b, t)) :
    startsForIn.run s' = .ok (b, s') := by
  simp only [startsForIn, bind_ok, get_ok] at hrun ⊢
  obtain ⟨_, _, ⟨rfl, rfl⟩, hrun⟩ := hrun
  refine ⟨_, _, ⟨rfl, rfl⟩, ?_⟩
  have hfirm {path s s'} {k : TokenKind} (h : C.Near path s s') (hk : k.isFirm = true) :
      s'.current.kind = k ↔ s.current.kind = k := h.matches.eq_iff hk
  split at hrun
  · rename_i hname
    rw [if_pos ((hfirm h rfl).2 hname)]
    obtain ⟨⟨first, behind₁⟩, _, hfirst, hrest⟩ := bind_ok.1 hrun
    obtain ⟨htoken₁, rfl⟩ := lift_ok.1 hfirst
    obtain ⟨_, first', behind₁', htoken₁', h₁⟩ := h.next (.inr (.inl hname)) htoken₁
    refine bind_ok.2 ⟨_, _, lift_ok.2 ⟨htoken₁', rfl⟩, ?_⟩
    split at hrest
    · rename_i hin
      rw [if_pos ((hfirm h₁ rfl).2 hin)]
      obtain ⟨⟨second, behind₂⟩, _, hsecond, hlast⟩ := bind_ok.1 hrest
      obtain ⟨htoken₂, rfl⟩ := lift_ok.1 hsecond
      obtain ⟨_, second', behind₂', htoken₂', h₂⟩ := h₁.next (.inr (.inr hin)) htoken₂
      refine bind_ok.2 ⟨_, _, lift_ok.2 ⟨htoken₂', rfl⟩, ?_⟩
      split at hlast
      · rename_i hname'
        rw [if_pos ((hfirm h₂ rfl).2 hname')]
        obtain ⟨⟨third, behind₃⟩, _, hthird, hreturn⟩ := bind_ok.1 hlast
        obtain ⟨htoken₃, rfl⟩ := lift_ok.1 hthird
        obtain ⟨_, third', behind₃', htoken₃', h₃⟩ := h₂.next (.inr (.inl hname')) htoken₃
        refine bind_ok.2 ⟨_, _, lift_ok.2 ⟨htoken₃', rfl⟩, ?_⟩
        obtain ⟨rfl, -⟩ := pure_ok.1 hreturn
        exact pure_ok.2 ⟨(h₃.matches.apply (· == .rpar) rfl).symm, rfl⟩
      · rename_i hname'
        rw [if_neg (mt (hfirm h₂ rfl).1 hname')]
        exact pure_ok.2 ⟨(pure_ok.1 hlast).1, rfl⟩
    · rename_i hin
      rw [if_neg (mt (hfirm h₁ rfl).1 hin)]
      exact pure_ok.2 ⟨(pure_ok.1 hrest).1, rfl⟩
  · rename_i hname
    rw [if_neg (mt (hfirm h rfl).1 hname)]
    exact pure_ok.2 ⟨(pure_ok.1 hrun).1, rfl⟩

theorem Mirrors.startsForIn {f : Bool → Parser β} {b : Bool} (h : Parser.startsForIn.run s = .ok (b, s₁))
    (hf : Mirrors C closed ⟨false, keeps⟩ post s t P (f b) v) :
    Mirrors C closed ⟨false, keeps⟩ post s t P (Parser.startsForIn >>= f) v :=
  hf.runs fun htied hrun => bind_ok.2 ⟨b, _, startsForIn_run htied.near h, hrun⟩

/-! ### Other branches -/

/-- What is skipped is skipped to its end. -/
theorem skipFuel_stops (hend : skipped .eof = false) {fuel : Nat} (h : (skipFuel skipped fuel).run s = .ok (u, t))
    (hfuel : s.current.kind = .eof ∨ s.behind.rest.length < fuel) : skipped t.current.kind = false := by
  induction fuel generalizing s with
  | zero =>
    obtain ⟨-, rfl⟩ := pure_ok.1 h
    rw [hfuel.resolve_right (Nat.not_lt_zero _)]
    exact hend
  | succ fuel ih =>
    simp only [skipFuel, bind_ok (x := kind), kind_ok] at h
    obtain ⟨_, s, ⟨rfl, rfl⟩, h⟩ := h
    split at h
    · rename_i hkind
      obtain ⟨_, s₁, htoken, hrest⟩ := bind_ok.1 h
      obtain ⟨-, htake⟩ := advance_iff.1 htoken
      obtain ⟨token, behind, hnext, rfl⟩ := takes_iff.1 htake
      refine ih hrest ((em (token.kind = .eof)).imp_right fun hne => ?_)
      have hcurrent : s.current.kind ≠ .eof := fun heq => by rw [heq, hend] at hkind; cases hkind
      have hlt := rest_lt_of_token hnext hne
      have hfuel := hfuel.resolve_left hcurrent
      simp only
      omega
    · rename_i hkind
      obtain ⟨-, rfl⟩ := pure_ok.1 h
      exact Bool.eq_false_iff.2 hkind

theorem skip_stops (hend : skipped .eof = false) (h : (skip skipped).run s = .ok (u, t)) :
    skipped t.current.kind = false := by
  obtain ⟨_, _, hget, hloop⟩ := bind_ok.1 h
  obtain ⟨rfl, rfl⟩ := get_ok.1 hget
  exact skipFuel_stops hend hloop (.inr (Nat.lt_succ_self _))

/-- Where the path goes on, newlines are looked past. -/
theorem skipNewlines_look (h : skipNewlines.run s = .ok (u, t)) (htied : C.Tied .loose path s s')
    (hsolid : Solid path) : ∃ path' t', Solid path' ∧ skipNewlines.run s' = .ok ((), t') ∧ C.Near path' t t' := by
  have hskips {s t} (hskip : SkipsNewlines s t) {path s'} (htied : C.Tied .loose path s s') (hsolid : Solid path) :
      ∃ path' t', Solid path' ∧ SkipsNewlines s' t' ∧ C.Near path' t t' := by
    induction hskip generalizing path s' with
    | refl =>
      obtain ⟨⟨t', hskip', -, hnear⟩, -⟩ := htied
      exact ⟨path, t', hsolid, hskip', hnear⟩
    | step hkind htake hmore ih =>
      obtain ⟨⟨u', hskip', -, hnear⟩, -⟩ := htied
      obtain ⟨hkind', hlook⟩ := hnear.look hsolid
      obtain ⟨path₁, t₁, hsolid₁, htake₁, htied₁⟩ := hlook (.inl (eq_of_beq hkind)) htake
      obtain ⟨path', t', hsolid', hmore', hnear'⟩ := ih htied₁ hsolid₁
      exact ⟨path', t', hsolid', hskip'.trans (.step (hkind' ▸ hkind) htake₁ hmore'), hnear'⟩
  obtain ⟨path', t', hsolid', hskip', hnear⟩ := hskips (skips_of_skip h) htied hsolid
  refine ⟨path', t', hsolid', skip_of_skips hskip' ?_ rfl, hnear⟩
  rw [(hnear.look hsolid').1]
  exact skip_stops rfl h

/-- And so is a semicolon. -/
theorem acceptSemi_look {b : Bool} (h : (accept .semi).run s = .ok (b, t)) (hnear : C.Near path s s')
    (hsolid : Solid path) :
    ∃ path' t', Solid path' ∧ (accept .semi).run s' = .ok (b, t') ∧ C.Tied .loose path' t t' := by
  obtain ⟨hkind, hlook⟩ := hnear.look hsolid
  rw [accept_iff] at h
  by_cases hsemi : s.current.kind = .semi
  · rw [if_pos hsemi] at h
    obtain ⟨rfl, htake⟩ := h
    obtain ⟨path', t', hsolid', htake', htied⟩ := hlook (.inr hsemi) htake
    refine ⟨path', t', hsolid', accept_iff.2 ?_, htied⟩
    rw [if_pos (hkind.trans hsemi)]
    exact ⟨rfl, htake'⟩
  · rw [if_neg hsemi] at h
    obtain ⟨rfl, rfl⟩ := h
    refine ⟨path, s', hsolid, accept_iff.2 ?_,
      (Correspondence.Near.tied hnear (fun h : false = true => Bool.noConfusion h)).mono
        (fun h => Bool.noConfusion h) id⟩
    rw [if_neg (hkind ▸ hsemi)]
    exact ⟨rfl, rfl⟩

/-- No other branch follows. -/
theorem mirrors_noElse {b : Bool} {yes no : Parser β} (hbefore : skipNewlines.run s = .ok (u, s₁))
    (hsemi : (accept .semi).run s₁ = .ok (b, s₂)) (hafter : skipNewlines.run s₂ = .ok (u, s₃))
    (hnone : s₃.current.kind ≠ .else) (hno : Mirrors C true ⟨pending, keeps⟩ post s t P no v) :
    Mirrors C true ⟨pending, keeps⟩ post s t P
      (do
        let saved ← get
        skipNewlines
        let _ ← accept .semi
        skipNewlines
        if ← accept .else then
          yes
        else
          set saved
          no) v := by
  intro hfed
  obtain ⟨path, hmoves, hP, hrun⟩ := hno hfed
  refine ⟨path, hmoves, hP, fun {rest s'} hclosed htied => ?_⟩
  obtain ⟨t', hno', htied'⟩ := hrun hclosed htied
  have hloose : C.Tied .loose (path ++ rest) s s' :=
    htied.mono (fun h => Bool.noConfusion h) (fun h => Bool.noConfusion h)
  obtain ⟨path₁, s₁', hsolid₁, hrun₁, hnear₁⟩ := skipNewlines_look hbefore hloose ((hclosed rfl).append path)
  obtain ⟨path₂, s₂', hsolid₂, hrun₂, htied₂⟩ := acceptSemi_look hsemi hnear₁ hsolid₁
  obtain ⟨path₃, s₃', hsolid₃, hrun₃, hnear₃⟩ := skipNewlines_look hafter htied₂ hsolid₂
  have hnone' : s₃'.current.kind ≠ .else := by rwa [(hnear₃.look hsolid₃).1]
  refine ⟨t', ?_, htied'⟩
  simp only [bind_ok, get_ok]
  refine ⟨_, _, ⟨rfl, rfl⟩, _, _, hrun₁, _, _, hrun₂, _, _, hrun₃, false, s₃', accept_iff.2 ?_, ?_⟩
  · rw [if_neg hnone']
    exact ⟨rfl, rfl⟩
  · exact bind_ok.2 ⟨⟨⟩, _, set_ok.2 rfl, hno'⟩

/-- Another branch follows. -/
theorem mirrors_withElse {s₄ : ParserState} {b : Bool} {yes no : Parser β} (hbefore : skipNewlines.run s = .ok (u, s₁))
    (hsemi : (accept .semi).run s₁ = .ok (b, s₂)) (hafter : skipNewlines.run s₂ = .ok (u, s₃))
    (helse : s₃.current.kind = .else) (htake : Takes s₃ s₄)
    (hyes : ∀ path, Carries [] path → Mirrors C closed .apart post s₄ t (fun rest => P (path ++ rest)) yes v) :
    Mirrors C closed ⟨pending, keeps⟩ post s t P
      (do
        let saved ← get
        skipNewlines
        let _ ← accept .semi
        skipNewlines
        if ← accept .else then
          yes
        else
          set saved
          no) v := by
  have hthere : Mirrors C closed ⟨pending, keeps⟩ post s t P
      (do
        skipNewlines
        let _ ← accept .semi
        skipNewlines
        let _ ← expect .else ""
        yes) v := by
    have hfirm : s₃.current.kind.isFirm = true := helse ▸ rfl
    rw [accept_iff] at hsemi
    by_cases hkind : s₁.current.kind = .semi
    · rw [if_pos hkind] at hsemi
      obtain ⟨rfl, htake'⟩ := hsemi
      refine .bind (.skipNewlines (skips_of_skip hbefore) (hkind ▸ rfl)) fun gap hgap => ?_
      refine .bind (.acceptOpen hkind htake' rfl) ?_
      rintro _ rfl
      refine .bind (.skipNewlines (skips_of_skip hafter) hfirm) fun gap' hgap' => ?_
      refine .bind (.expectOpen false helse htake rfl) ?_
      rintro _ rfl
      have hmarks := (Carries.newlines hgap').append (Carries.mark false helse rfl)
      have hall := (Carries.newlines hgap).append ((Carries.mark false hkind rfl).append hmarks)
      simpa using hyes _ hall
    · rw [if_neg hkind] at hsemi
      obtain ⟨rfl, rfl⟩ := hsemi
      -- Without a semicolon all the newlines have been skipped before.
      obtain rfl : s₂ = s₃ := by
        cases skips_of_skip hafter with
        | refl => rfl
        | step hnewline => rw [skip_stops rfl hbefore] at hnewline; cases hnewline
      refine .bind (.skipNewlines (skips_of_skip hbefore) hfirm) fun gap hgap => ?_
      refine .bind (.acceptNot hkind rfl) ?_
      rintro _ rfl
      refine .bind (.skipNewlines .refl hfirm) fun gap' hgap' => ?_
      refine .bind (.expectOpen false helse htake rfl) ?_
      rintro _ rfl
      have hmarks := (Carries.newlines hgap').append (Carries.mark false helse rfl)
      have hall := (Carries.newlines hgap).append (Carries.nil.append hmarks)
      simpa using hyes _ hall
  refine hthere.runs fun {_ s' _} _ hrun => ?_
  simp only [bind_ok, expect_iff] at hrun
  obtain ⟨_, s₁', hrun₁, _, s₂', hrun₂, _, s₃', hrun₃, _, s₄', ⟨-, helse', htake'⟩, hrun₄⟩ := hrun
  have haccept : (accept .else).run s₃' = .ok (true, s₄') := accept_iff.2 (by rw [if_pos helse']; exact ⟨rfl, htake'⟩)
  simp only [bind_ok, get_ok]
  exact ⟨_, _, ⟨rfl, rfl⟩, _, _, hrun₁, _, _, hrun₂, _, _, hrun₃, _, _, haccept, hrun₄⟩

/-! ### Lists in parentheses -/

/-- A text and itself. -/
def Correspondence.same : Correspondence where
  place := .none
  known := []
  earlier := []
  meets _ cursor cursor' := cursor' = cursor
  read := by
    rintro path cursor _ token behind rfl htoken
    exact ⟨token, behind, htoken, .inl rfl, fun _ => rfl⟩
  take := by
    rintro taken path cursor _ behind token' behind' rfl htoken - htoken'
    rw [htoken, Except.ok.injEq, Prod.mk.injEq] at htoken'
    exact ⟨behind', .refl, fun _ => rfl, htoken'.2.symm⟩
  regex := by
    rintro taken path cursor _ slash after behind rfl - - hregex
    exact ⟨behind, hregex, rfl⟩
  ahead := by
    rintro path cursor _ token behind token' behind' rfl htoken - htoken'
    rw [htoken, Except.ok.injEq, Prod.mk.injEq] at htoken'
    exact ⟨path, htoken'.2.symm⟩
  solid := by
    rintro path cursor _ token behind token' behind' rfl hsolid htoken htoken'
    rw [htoken, Except.ok.injEq, Prod.mk.injEq] at htoken'
    exact ⟨congrArg Token.kind htoken'.1.symm, fun _ => ⟨path, behind', hsolid, .refl, htoken'.2.symm⟩⟩

theorem Correspondence.Near.current_same (h : Correspondence.same.Near path s s') : s'.current = s.current := by
  have hfed := h.fed'
  rw [Fed, show s'.position = s.position from h.meets, show s.position.token = _ from h.fed, Except.ok.injEq,
    Prod.mk.injEq] at hfed
  exact hfed.1.symm

theorem near_same (hfed : Fed s) : Correspondence.same.Near path s s :=
  ⟨hfed, hfed, rfl, rfl, by simp [Correspondence.same, Correspondence.token, Placement.none, Token.placed]⟩

/-- An expression that begins with a parenthesis begins with what is in parentheses. -/
theorem exists_primary (hopen : s.current.kind = .lpar) {lvl : Level} {p : Bool} {e : Expr}
    (h : (level n lvl p).run s = .ok (e, t)) : ∃ k < n, ∃ e t, (primary k).run s = .ok (e, t) := by
  have hsign : SignOp.ofKind? s.current.kind = none := by rw [hopen]; rfl
  have hstep : StepOp.ofKind? s.current.kind = none := by rw [hopen]; rfl
  induction n using Nat.strong_induction_on generalizing lvl e t with
  | _ n ih =>
    obtain _ | n := n
    · exact absurd h tooDeep_ok
    -- Every level begins with a tighter one.
    have hlevel {lvl e t} (h : (level n lvl p).run s = .ok (e, t)) :
        ∃ k < n + 1, ∃ e t, (primary k).run s = .ok (e, t) := by
      obtain ⟨k, hk, hprimary⟩ := ih n (Nat.lt_succ_self n) h
      exact ⟨k, hk.trans (Nat.lt_succ_self n), hprimary⟩
    cases lvl with
    | primary => exact ⟨n, Nat.lt_succ_self n, e, t, h⟩
    | sign =>
      obtain _ | n := n
      · exact absurd h tooDeep_ok
      simp only [level, signed, bind_ok (x := current), current_ok] at h
      obtain ⟨_, _, ⟨rfl, rfl⟩, h⟩ := h
      rw [hsign] at h
      obtain ⟨k, hk, hprimary⟩ := ih n (by omega) h
      exact ⟨k, by omega, hprimary⟩
    | step =>
      simp only [level, bind_ok (x := current), current_ok] at h
      obtain ⟨_, _, ⟨rfl, rfl⟩, h⟩ := h
      rw [hstep] at h
      obtain ⟨e, s₁, he, -⟩ := bind_ok.1 h
      exact hlevel he
    | _ =>
      simp only [level, bind_ok (x := current), current_ok] at h
      obtain ⟨_, _, ⟨rfl, rfl⟩, h⟩ := h
      obtain ⟨e, s₁, he, -⟩ := bind_ok.1 h
      exact hlevel he

theorem atTerminator_iff {b : Bool} :
    atTerminator.run s = .ok (b, s') ↔ b = isTerminator s.current.kind ∧ s' = s := by
  simp only [atTerminator, bind_ok, kind_ok, pure_ok]
  constructor
  · rintro ⟨_, _, ⟨rfl, rfl⟩, rfl, rfl⟩
    exact ⟨rfl, rfl⟩
  · rintro ⟨rfl, rfl⟩
    exact ⟨_, _, ⟨rfl, rfl⟩, rfl, rfl⟩

/-- In the same text any path will do. -/
theorem Mirrors.run_same {pre : Tie} {x : Parser β} (h : Mirrors .same false pre post s t P x v) (hfed : Fed s)
    (htied : Correspondence.same.Tied pre [] s s') :
    ∃ t', x.run s' = .ok (v, t') ∧ Correspondence.same.Tied post [] t t' := by
  obtain ⟨path, -, -, hrun⟩ := h hfed
  obtain ⟨⟨u, hskip, hsame, hnear⟩, hreach⟩ := htied
  exact hrun (fun h => Bool.noConfusion h)
    ⟨⟨u, hskip, hsame, hnear.fed, hnear.fed', hnear.meets, hnear.functions, hnear.calls⟩, hreach⟩

/-- In an expression that begins with a parenthesis no comma follows what stands first, or `in` follows the list. -/
theorem exists_group (hfed : Fed s) (hopen : s.current.kind = .lpar) {items : List Expr}
    (h : (plainItems n).run s = .ok (items, t)) :
    ∃ s₁ first s₂, Takes s s₁ ∧ (expr n false).run s₁ = .ok (first, s₂) ∧ (s₂.current.kind ≠ .comma ∨
      ∃ more s₃ s₄, (moreItems n false).run s₂ = .ok (more, s₃) ∧ s₃.current.kind = .rpar ∧ Takes s₃ s₄ ∧
        s₄.current.kind = .in) := by
  simp only [plainItems, bind_ok (x := kind), bind_ok (x := atTerminator), kind_ok, atTerminator_iff] at h
  obtain ⟨_, s, ⟨rfl, rfl⟩, _, _, ⟨rfl, hback⟩, h⟩ := h
  subst hback
  rw [hopen, if_neg (by decide)] at h
  obtain ⟨e, s₁, he, -⟩ := bind_ok.1 h
  obtain ⟨_ | k, hk, e, u, hprimary⟩ := exists_primary hopen he
  · exact absurd hprimary tooDeep_ok
  simp only [primary, bind_ok (x := current), current_ok] at hprimary
  obtain ⟨_, s, ⟨rfl, rfl⟩, hgroup⟩ := hprimary
  rw [hopen] at hgroup
  obtain ⟨_, s₁, hparen, hgroup⟩ := bind_ok.1 hgroup
  obtain ⟨-, htake⟩ := advance_iff.1 hparen
  obtain ⟨first, s₂, hfirst, hgroup⟩ := bind_ok.1 hgroup
  simp only [bind_ok (x := kind), kind_ok] at hgroup
  obtain ⟨_, s₂, ⟨rfl, rfl⟩, hgroup⟩ := hgroup
  -- With more fuel the same is read.
  have hle : k ≤ n := by omega
  have hfed₁ : Fed s₁ := (Moves.take (by rw [hopen]; decide) htake .refl).fed hfed
  obtain ⟨s₂', hfirst', htied₂⟩ := ((exprMirrors .same hle).level hfirst).run_same hfed₁
    ((near_same hfed₁).tied fun h => Bool.noConfusion h)
  have hsame₂ : s₂'.current = s₂.current := htied₂.near.current_same
  refine ⟨s₁, _, s₂', htake, hfirst', ?_⟩
  split at hgroup
  · -- A list of subscripts is followed by the name of an array.
    obtain ⟨more, s₃, hmore, hgroup⟩ := bind_ok.1 hgroup
    obtain ⟨_, s₄, hclosed, hgroup⟩ := bind_ok.1 hgroup
    obtain ⟨-, hclose, htake'⟩ := expect_iff.1 hclosed
    obtain ⟨s₃', hmore', htied₃⟩ := ((exprMirrors .same hle).moreItems hmore).run_same htied₂.near.fed htied₂
    have hsame₃ : s₃'.current = s₃.current := htied₃.near.current_same
    have hclose' : s₃'.current.kind = .rpar := by rwa [htied₃.near.current_same]
    obtain ⟨s₄', hclosed', htied₄⟩ := (Mirrors.accept hclose htake' rfl).run_same htied₃.near.fed htied₃
    rw [accept_iff, if_pos hclose'] at hclosed'
    rcases accept_cases hgroup with ⟨s₅, hin, -, -⟩ | h
    · exact .inr ⟨_, s₃', s₄', hmore', hclose', hclosed'.2, by rwa [htied₄.near.current_same]⟩
    · exact absurd h failExpecting_ok
  · rename_i hcomma
    exact .inl (hsame₂ ▸ hcomma)

/-- If an expression is read from a parenthesis on, no list in parentheses is. -/
theorem parenthesisedItems_none (hfed : Fed s) (hopen : s.current.kind = .lpar) {items : List Expr}
    (h : (plainItems n).run s = .ok (items, t)) : (parenthesisedItems n).run s = .ok (none, s) := by
  have hback {t : ParserState} : (do set s; pure none : Parser (Option (List Expr))).run t = .ok (none, s) :=
    bind_ok.2 ⟨⟨⟩, s, set_ok.2 rfl, rfl⟩
  obtain ⟨s₁, first, s₂, htake, hfirst, hrest⟩ := exists_group hfed hopen h
  refine bind_ok.2 ⟨_, _, get_ok.2 ⟨rfl, rfl⟩, bind_ok.2 ⟨_, _, advance_iff.2 ⟨rfl, htake⟩, ?_⟩⟩
  refine bind_ok.2 ⟨_, _, hfirst, ?_⟩
  rcases hrest with hcomma | ⟨more, s₃, s₄, hmore, hclose, htake', hin⟩
  · -- One expression is no list.
    have hnone : (moreItems n false).run s₂ = .ok ([], s₂) := by
      obtain _ | n := n
      · exact absurd hfirst tooDeep_ok
      refine bind_ok.2 ⟨false, s₂, accept_iff.2 ?_, rfl⟩
      rw [if_neg hcomma]
      exact ⟨rfl, rfl⟩
    exact bind_ok.2 ⟨_, _, hnone, hback⟩
  · refine bind_ok.2 ⟨_, _, hmore, ?_⟩
    split
    · exact hback
    refine bind_ok.2 ⟨true, s₄, accept_iff.2 ?_, ?_⟩
    · rw [if_pos hclose]
      exact ⟨rfl, htake'⟩
    · rw [if_pos rfl]
      refine bind_ok.2 ⟨_, _, atTerminator_iff.2 ⟨rfl, rfl⟩, bind_ok.2 ⟨_, _, kind_ok.2 ⟨rfl, rfl⟩, ?_⟩⟩
      rw [hin, if_neg (by decide)]
      exact hback

end Awk.Parser
