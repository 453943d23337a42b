import Awk.Proofs.Syntax.Layout.Ahead
import Awk.Proofs.Syntax.Layout.Walk

/-!
# The same tokens in front of another token

From one place to another a program text may have the same tokens as a second text (`Cursor.SameTokens`), and behind
them, where the first text has what ends the items of a print statement, the second one may have a closing parenthesis
(`Passage`).  What the parser does on its way there in the first text it does in the second one as well (`Retraces`).
The rules for that follow the steps of the parser.
-/

namespace Awk

/-! ### Trees with their places forgotten -/

/-- Every place is the same. -/
def nowhere (_ : Span) : Span := ⟨0, 0, 0, 0⟩

abbrev Token.Like (token token' : Token) : Prop := token'.placed nowhere = token.placed nowhere

abbrev Expr.Like (e e' : Expr) : Prop := e'.placed nowhere = e.placed nowhere

abbrev LValue.Like (target target' : LValue) : Prop := target'.placed nowhere = target.placed nowhere

abbrev Subscripts.Like (subs subs' : Subscripts) : Prop := subs'.placed nowhere = subs.placed nowhere

abbrev LikeAll (es es' : List Expr) : Prop := placedAll nowhere es' = placedAll nowhere es

abbrev LikeTarget (target target' : Option LValue) : Prop := placedTarget nowhere target' = placedTarget nowhere target

theorem Expr.Like.cons {e e' : Expr} {es es' : List Expr} (h : e.Like e') (h' : LikeAll es es') :
    LikeAll (e :: es) (e' :: es') := by
  rw [LikeAll, placedAll, placedAll, h, h']

theorem Token.Like.kind_eq {token token' : Token} (h : token.Like token') : token'.kind = token.kind := by
  have hkind : (token'.placed nowhere).kind = (token.placed nowhere).kind := by rw [h]
  exact hkind

/-! ### Stretches of text -/

namespace Cursor

/-- From `c` to `stop` there are some tokens, and from `c'` to `stop'` the same tokens in other places. -/
inductive Alike : List Token → Cursor → Cursor → Cursor → Cursor → Prop
  | nil {c c'} : Alike [] c c c' c'
  | token {c token behind tokens stop c' token' behind' stop'} (htoken : c.token = .ok (token, behind))
    (htoken' : c'.token = .ok (token', behind')) (hlike : token.Like token')
    (hmore : Alike tokens behind stop behind' stop') : Alike (token :: tokens) c stop c' stop'
  | regex {c slash after token behind tokens stop c' slash' after' token' behind' stop'}
    (hslash : c.token = .ok (slash, after)) (hkind : slash.kind = .slash ∨ slash.kind = .divAssign)
    (hregex : c.regex = .ok (token, behind)) (hslash' : c'.token = .ok (slash', after')) (hlike : slash.Like slash')
    (hregex' : c'.regex = .ok (token', behind')) (hlike' : token.Like token')
    (hmore : Alike tokens behind stop behind' stop') : Alike (token :: tokens) c stop c' stop'

/-- However the text from `c` to `stop` is covered by tokens, the text from `c'` to `stop'` has the same ones.  Only
where slashes stand can there be two ways: as divisions, and around a regular expression. -/
def SameTokens (c stop c' stop' : Cursor) : Prop := ∀ tokens, c.Covers tokens stop → Alike tokens c stop c' stop'

variable {c stop c' stop' behind behind' : Cursor} {token token' : Token} {tokens : List Token}

theorem SameTokens.step (h : c.SameTokens stop c' stop') (htoken : c.token = .ok (token, behind))
    (hend : token.kind ≠ .eof) (hcovers : behind.Covers tokens stop) :
    ∃ token' behind', c'.token = .ok (token', behind') ∧ token.Like token' ∧ behind.SameTokens stop behind' stop' := by
  have hsplit {more : List Token} (hmore : behind.Covers more stop) : ∃ token' behind',
      c'.token = .ok (token', behind') ∧ token.Like token' ∧ Alike more behind stop behind' stop' := by
    cases h _ (.token htoken hend hmore) with
    | token htoken₁ htoken' hlike hmore =>
      cases htoken.symm.trans htoken₁
      exact ⟨_, _, htoken', hlike, hmore⟩
    | regex hslash hkind hregex => exact absurd htoken (ne_of_regex hslash hkind hregex)
  obtain ⟨token', behind', htoken', hlike, -⟩ := hsplit hcovers
  refine ⟨token', behind', htoken', hlike, fun more hmore => ?_⟩
  obtain ⟨_, _, htoken₂, -, halike⟩ := hsplit hmore
  cases htoken'.symm.trans htoken₂
  exact halike

theorem SameTokens.stepRegex {slash : Token} {after : Cursor} (h : c.SameTokens stop c' stop')
    (hslash : c.token = .ok (slash, after)) (hkind : slash.kind = .slash ∨ slash.kind = .divAssign)
    (hregex : c.regex = .ok (token, behind)) (hcovers : behind.Covers tokens stop) :
    (∃ slash' after', c'.token = .ok (slash', after') ∧ slash.Like slash') ∧
      ∃ token' behind', c'.regex = .ok (token', behind') ∧ token.Like token' ∧
        behind.SameTokens stop behind' stop' := by
  have hsplit {more : List Token} (hmore : behind.Covers more stop) :
      (∃ slash' after', c'.token = .ok (slash', after') ∧ slash.Like slash') ∧ ∃ token' behind',
        c'.regex = .ok (token', behind') ∧ token.Like token' ∧ Alike more behind stop behind' stop' := by
    cases h _ (.regex hslash hkind hregex hmore) with
    | token htoken => exact absurd htoken (ne_of_regex hslash hkind hregex)
    | regex hslash₁ hkind₁ hregex₁ hslash' hlike hregex' hlike' hmore =>
      cases hslash.symm.trans hslash₁
      cases hregex.symm.trans hregex₁
      exact ⟨⟨_, _, hslash', hlike⟩, _, _, hregex', hlike', hmore⟩
  obtain ⟨hboth, token', behind', hregex', hlike, -⟩ := hsplit hcovers
  refine ⟨hboth, token', behind', hregex', hlike, fun more hmore => ?_⟩
  obtain ⟨-, _, _, hregex₂, -, halike⟩ := hsplit hmore
  cases hregex'.symm.trans hregex₂
  exact halike

/-- Go some tokens on in two texts at once, as long as they are the same and no regular expression can begin there. -/
def follow : Nat → Cursor → Cursor → Option (Cursor × Cursor)
  | 0, c, c' => some (c, c')
  | n + 1, c, c' =>
    match c.token, c'.token with
    | .ok (token, behind), .ok (token', behind') =>
      if token.kind ∉ [.slash, .divAssign, .eof] ∧ token.Like token' then follow n behind behind' else none
    | _, _ => none

theorem sameTokens_of_follow {n : Nat} (h : follow n c c' = some (stop, stop')) : c.SameTokens stop c' stop' := by
  suffices hboth : (∃ tokens, c.Covers tokens stop) ∧ c.SameTokens stop c' stop' from hboth.2
  induction n generalizing c c' with
  | zero =>
    cases h
    refine ⟨⟨[], .nil⟩, fun tokens hcovers => ?_⟩
    have hlength := hcovers.length_le
    obtain rfl : tokens = [] := List.eq_nil_of_length_eq_zero (by omega)
    exact .nil
  | succ n ih =>
    rw [follow] at h
    split at h
    · rename_i token behind token' behind' htoken htoken'
      split at h
      · rename_i hkind
        obtain ⟨hkind, hlike⟩ := hkind
        simp only [List.mem_cons, List.not_mem_nil, or_false, not_or] at hkind
        obtain ⟨⟨more, hcovers⟩, hsame⟩ := ih h
        refine ⟨⟨token :: more, .token htoken hkind.2.2 hcovers⟩, fun tokens h => ?_⟩
        cases h with
        | nil =>
          have hlength := (Covers.token htoken hkind.2.2 hcovers).length_le
          rw [List.length_cons] at hlength
          omega
        | token htoken₁ hend hmore =>
          cases htoken.symm.trans htoken₁
          exact .token htoken htoken' hlike (hsame _ hmore)
        | regex hslash hslash' =>
          cases htoken.symm.trans hslash
          exact absurd hslash' (not_or.2 ⟨hkind.1, hkind.2.1⟩)
      · cases h
    · cases h

end Cursor

namespace Parser

/-! ### Where lists end -/

/-- Kinds of tokens that end the items of a print statement. -/
def endsItems (k : TokenKind) : Bool := isTerminator k || isRedirect k

/-- A closing parenthesis may stand in the place of what ends a list. -/
def StandsFor (k' k : TokenKind) : Prop := k' = k ∨ endsItems k = true ∧ k' = .rpar

theorem StandsFor.eq {k k' : TokenKind} (h : StandsFor k' k) (hk : endsItems k = false) : k' = k :=
  h.resolve_right fun hboth => by rw [hk] at hboth; cases hboth.1

theorem StandsFor.eq_of {k k' kind : TokenKind} (h : StandsFor k' k) (hkind : k = kind)
    (hends : endsItems kind = false) : k' = kind :=
  (h.eq (hkind ▸ hends)).trans hkind

/-- What makes no difference between a closing parenthesis and the end of a list. -/
theorem StandsFor.apply {α : Type} {k k' : TokenKind} (h : StandsFor k' k) (f : TokenKind → α)
    (hf : f .newline = f .rpar ∧ f .semi = f .rpar ∧ f .rbrace = f .rpar ∧ f .eof = f .rpar ∧ f .gt = f .rpar ∧
      f .append = f .rpar ∧ f .pipe = f .rpar) : f k' = f k := by
  rcases h with rfl | ⟨hk, rfl⟩
  · rfl
  · obtain ⟨hnewline, hsemi, hrbrace, heof, hgt, happend, hpipe⟩ := hf
    cases k <;> first | exact absurd hk Bool.false_ne_true | exact Eq.symm ‹_›

theorem StandsFor.ne {k k' kind : TokenKind} (h : StandsFor k' k) (hk : k ≠ kind) (hrpar : kind ≠ .rpar) :
    k' ≠ kind := by
  rcases h with rfl | ⟨-, rfl⟩
  · exact hk
  · exact hrpar.symm

/-- Two stretches of text end here, in front of tokens of which the second may stand for the first. -/
structure Passage where
  stop : Cursor
  stop' : Cursor
  last : Token
  last' : Token
  behind : Cursor
  behind' : Cursor
  token : stop.token = .ok (last, behind)
  token' : stop'.token = .ok (last', behind')
  stands : StandsFor last'.kind last.kind

namespace Passage

variable {P : Passage} {strict : Prop} {s s' t : ParserState} {tokens : List Token}

/-- The first text ends where the parser stands. -/
def upTo {stop' behind' : Cursor} {last' : Token} (hfed : Fed s) (htoken' : stop'.token = .ok (last', behind'))
    (hstands : StandsFor last'.kind s.current.kind) : Passage :=
  ⟨s.position, stop', s.current, last', s.behind, behind', hfed, htoken', hstands⟩

/-- The parser stands at the same token in both texts. -/
structure Near (P : Passage) (s s' : ParserState) : Prop where
  fed : Fed s
  fed' : Fed s'
  same : s.position.SameTokens P.stop s'.position P.stop'

/-- There are tokens ahead up to the end of the stretch: where it is strict, at least one. -/
def Ahead (P : Passage) (strict : Prop) (s : ParserState) : Prop :=
  ∃ tokens, s.position.Covers tokens P.stop ∧ (strict → tokens ≠ [])

theorem Near.current (h : P.Near s s') (hcovers : s.position.Covers tokens P.stop) :
    StandsFor s'.current.kind s.current.kind ∧ (tokens ≠ [] → s.current.Like s'.current) := by
  have hcurrent {token behind} (htoken : s.position.token = .ok (token, behind)) : s.current = token :=
    congrArg Prod.fst (Except.ok.inj (h.fed.symm.trans htoken))
  have hcurrent' {token behind} (htoken : s'.position.token = .ok (token, behind)) : s'.current = token :=
    congrArg Prod.fst (Except.ok.inj (h.fed'.symm.trans htoken))
  have hsame := h.same tokens hcovers
  generalize s.position = c at hcurrent hsame
  generalize s'.position = c' at hcurrent' hsame
  cases hsame with
  | nil =>
    rw [hcurrent P.token, hcurrent' P.token']
    exact ⟨P.stands, fun h => absurd rfl h⟩
  | token htoken htoken' hlike =>
    rw [hcurrent htoken, hcurrent' htoken']
    exact ⟨.inl hlike.kind_eq, fun _ => hlike⟩
  | regex hslash hkind hregex hslash' hlike =>
    rw [hcurrent hslash, hcurrent' hslash']
    exact ⟨.inl hlike.kind_eq, fun _ => hlike⟩

/-- At the end of the stretch the second text has come to its end as well. -/
theorem Near.position_eq (h : P.Near s s') (hstop : s.position = P.stop) : s'.position = P.stop' := by
  have hsame := h.same [] (hstop ▸ .nil)
  generalize s.position = c, P.stop = stop, P.stop' = stop', s'.position = c' at hsame ⊢
  cases hsame
  rfl

theorem Near.current_eq (h : P.Near s s') (hstop : s.position = P.stop) : s'.current = P.last' := by
  have hfed := h.fed'
  rw [Fed, h.position_eq hstop, P.token'] at hfed
  exact (Prod.mk.inj (Except.ok.inj hfed)).1.symm

/-- If the stretches end in front of the same token, there is no difference between them. -/
theorem Near.kind_eq (h : P.Near s s') (hcovers : s.position.Covers tokens P.stop)
    (hlast : P.last'.kind = P.last.kind) : s'.current.kind = s.current.kind := by
  by_cases hnil : tokens = []
  · subst hnil
    have hstop : s.position = P.stop := by
      generalize s.position = c, P.stop = stop at hcovers ⊢
      cases hcovers
      rfl
    have hfed := h.fed
    rw [Fed, hstop, P.token] at hfed
    rw [h.current_eq hstop, hlast, (Prod.mk.inj (Except.ok.inj hfed)).1]
  · exact ((h.current hcovers).2 hnil).kind_eq

/-- Where there are tokens ahead, the next one can be read. -/
theorem exists_token {c c' : Cursor} (h : c.SameTokens P.stop c' P.stop') (hcovers : c.Covers tokens P.stop) :
    ∃ token behind, c'.token = .ok (token, behind) := by
  cases h tokens hcovers with
  | nil => exact ⟨_, _, P.token'⟩
  | token htoken htoken' => exact ⟨_, _, htoken'⟩
  | regex hslash hkind hregex hslash' => exact ⟨_, _, hslash'⟩

theorem Near.take (h : P.Near s s') (htake : Takes s t) (hend : s.current.kind ≠ .eof)
    (hcovers : t.position.Covers tokens P.stop) :
    ∃ t', Takes s' t' ∧ s.current.Like s'.current ∧ P.Near t t' := by
  obtain ⟨next, after, hnext, rfl⟩ := takes_iff.1 htake
  obtain ⟨token', behind', htoken', hlike, hsame⟩ := h.same.step h.fed hend hcovers
  cases h.fed'.symm.trans htoken'
  obtain ⟨next', behind', hnext'⟩ := exists_token hsame hcovers
  exact ⟨_, takes_iff.2 ⟨next', behind', hnext', rfl⟩, hlike, hnext, hnext', hsame⟩

theorem Near.takeRegex {token : Token} (h : P.Near s s') (htake : TakesRegex s token t)
    (hslash : s.current.kind = .slash ∨ s.current.kind = .divAssign) (hcovers : t.position.Covers tokens P.stop) :
    ∃ token' t', TakesRegex s' token' t' ∧ token.Like token' ∧ P.Near t t' := by
  obtain ⟨stop, next, behind, hregex, hnext, rfl⟩ := takesRegex_iff.1 htake
  obtain ⟨-, token', stop', hregex', hlike, hsame⟩ := h.same.stepRegex h.fed hslash hregex hcovers
  obtain ⟨next', behind', hnext'⟩ := exists_token hsame hcovers
  exact ⟨token', _, takesRegex_iff.2 ⟨stop', next', behind', hregex', hnext', rfl⟩, hlike, hnext, hnext', hsame⟩

end Passage

/-! ### The way to the end -/

variable {α β : Type} {P : Passage} {strict moving : Prop} {s s₁ t : ParserState} {x : Parser α} {f : α → Parser β}
  {Q : β → Prop}

/-- On the way from `s` to `t` the parser takes some tokens, if it is moving at least one.  In the second text `x` goes
the same way and gives what has the property `Q`; if it is strict, it does not come to the end of the stretch. -/
def Retraces (P : Passage) (strict moving : Prop) (s t : ParserState) (x : Parser α) (Q : α → Prop) : Prop :=
  Fed s → Fed t ∧ (∃ tokens, s.position.Covers tokens t.position ∧ (moving → tokens ≠ [])) ∧ (∃ v, Q v) ∧
    ∀ {s'}, P.Ahead strict t → P.Near s s' → ∃ v t', x.run s' = .ok (v, t') ∧ Q v ∧ P.Near t t'

namespace Retraces

/-! ### Composition -/

theorem pure {v : β} (h : Q v) : Retraces P strict False s s (Pure.pure v) Q :=
  fun hfed => ⟨hfed, ⟨[], .nil, False.elim⟩, ⟨v, h⟩, fun _ hnear => ⟨v, _, rfl, h, hnear⟩⟩

/-- What comes first may be strict if something is taken behind it. -/
theorem bindWith {strict₁ moving₁ moving₂ : Prop} {Q₁ : α → Prop} (hx : Retraces P strict₁ moving₁ s s₁ x Q₁)
    (hf : ∀ v, Q₁ v → Retraces P strict moving₂ s₁ t (f v) Q) (hstrict : strict₁ → strict ∨ moving₂)
    (hmoving : moving → moving₁ ∨ moving₂) : Retraces P strict moving s t (x >>= f) Q := by
  intro hfed
  obtain ⟨hfed₁, ⟨tokens₁, hcovers₁, hne₁⟩, ⟨v, hv⟩, hrun₁⟩ := hx hfed
  obtain ⟨hfed', ⟨tokens₂, hcovers₂, hne₂⟩, hresult, -⟩ := hf v hv hfed₁
  refine ⟨hfed', ⟨tokens₁ ++ tokens₂, hcovers₁.append hcovers₂, fun hm => ?_⟩, hresult, fun hahead hnear => ?_⟩
  · rw [ne_eq, List.append_eq_nil_iff, not_and_or]
    exact (hmoving hm).imp hne₁ hne₂
  · obtain ⟨rest, hrest, hstop⟩ := hahead
    have hahead₁ : P.Ahead strict₁ s₁ := by
      refine ⟨tokens₂ ++ rest, hcovers₂.append hrest, fun hs => ?_⟩
      rw [ne_eq, List.append_eq_nil_iff, not_and_or]
      exact (hstrict hs).symm.imp hne₂ hstop
    obtain ⟨v', s₁', hx', hv', hnear₁⟩ := hrun₁ hahead₁ hnear
    obtain ⟨-, -, -, hrun₂⟩ := hf v' hv' hfed₁
    obtain ⟨w, t', hf', hw, hnear'⟩ := hrun₂ ⟨rest, hrest, hstop⟩ hnear₁
    exact ⟨w, t', bind_ok.2 ⟨v', s₁', hx', hf'⟩, hw, hnear'⟩

theorem bind {moving₁ : Prop} {Q₁ : α → Prop} (hx : Retraces P strict moving₁ s s₁ x Q₁)
    (hf : ∀ v, Q₁ v → Retraces P strict moving s₁ t (f v) Q) : Retraces P strict moving s t (x >>= f) Q :=
  bindWith hx hf .inl .inr

/-- Something is taken behind what comes first. -/
theorem enclosed {strict₁ moving₁ : Prop} {Q₁ : α → Prop} (hx : Retraces P strict₁ moving₁ s s₁ x Q₁)
    (hf : ∀ v, Q₁ v → Retraces P strict True s₁ t (f v) Q) : Retraces P strict moving s t (x >>= f) Q :=
  bindWith hx hf (fun _ => .inr trivial) fun _ => .inr trivial

theorem weaken {x : Parser β} (h : Retraces P strict moving s t x Q) : Retraces P strict False s t x Q := by
  intro hfed
  obtain ⟨hfed', ⟨tokens, hcovers, -⟩, hrest⟩ := h hfed
  exact ⟨hfed', ⟨tokens, hcovers, False.elim⟩, hrest⟩

/-! ### Looking -/

/-- Something that looks at the current token and takes nothing. -/
theorem looking (Q₁ : α → Prop) (hv : ∃ v, Q₁ v)
    (hrun : ∀ {s'}, P.Near s s' → StandsFor s'.current.kind s.current.kind →
      (strict ∨ moving → s.current.Like s'.current) → ∃ v, x.run s' = .ok (v, s') ∧ Q₁ v)
    (hf : ∀ v, Q₁ v → Retraces P strict moving s t (f v) Q) : Retraces P strict moving s t (x >>= f) Q := by
  intro hfed
  obtain ⟨v, hv⟩ := hv
  obtain ⟨hfed', ⟨tokens, hcovers, hne⟩, hresult, -⟩ := hf v hv hfed
  refine ⟨hfed', ⟨tokens, hcovers, hne⟩, hresult, fun hahead hnear => ?_⟩
  obtain ⟨rest, hrest, hstop⟩ := hahead
  obtain ⟨hstands, hlike⟩ := hnear.current (hcovers.append hrest)
  obtain ⟨v', hx, hv'⟩ := hrun hnear hstands fun hsome => hlike (by
    rw [ne_eq, List.append_eq_nil_iff, not_and_or]
    exact hsome.symm.imp hne hstop)
  obtain ⟨-, -, -, hrun'⟩ := hf v' hv' hfed
  obtain ⟨w, t', hf', hw, hnear'⟩ := hrun' ⟨rest, hrest, hstop⟩ hnear
  exact ⟨w, t', bind_ok.2 ⟨v', _, hx, hf'⟩, hw, hnear'⟩

theorem current {f : Token → Parser β}
    (hf : ∀ token, StandsFor token.kind s.current.kind → Retraces P strict moving s t (f token) Q) :
    Retraces P strict moving s t (Parser.current >>= f) Q :=
  looking (fun token => StandsFor token.kind s.current.kind) ⟨s.current, .inl rfl⟩
    (fun _ hstands _ => ⟨_, current_ok.2 ⟨rfl, rfl⟩, hstands⟩) hf

theorem kind {f : TokenKind → Parser β}
    (hf : ∀ k, StandsFor k s.current.kind → (strict ∨ moving → k = s.current.kind) →
      Retraces P strict moving s t (f k) Q) : Retraces P strict moving s t (Parser.kind >>= f) Q :=
  looking (fun k => StandsFor k s.current.kind ∧ (strict ∨ moving → k = s.current.kind))
    ⟨s.current.kind, .inl rfl, fun _ => rfl⟩
    (fun _ hstands hlike => ⟨_, kind_ok.2 ⟨rfl, rfl⟩, hstands, fun hsome => (hlike hsome).kind_eq⟩)
    fun k hk => hf k hk.1 hk.2

/-- If the stretches end in front of the same token, the kind is the same everywhere. -/
theorem sameKind {f : TokenKind → Parser β} (hlast : P.last'.kind = P.last.kind)
    (hf : Retraces P strict moving s t (f s.current.kind) Q) :
    Retraces P strict moving s t (Parser.kind >>= f) Q := by
  intro hfed
  obtain ⟨hfed', ⟨tokens, hcovers, hne⟩, hresult, hrun⟩ := hf hfed
  refine ⟨hfed', ⟨tokens, hcovers, hne⟩, hresult, fun hahead hnear => ?_⟩
  obtain ⟨w, t', hf', hw, hnear'⟩ := hrun hahead hnear
  obtain ⟨rest, hrest, -⟩ := hahead
  have hkind := hnear.kind_eq (hcovers.append hrest) hlast
  exact ⟨w, t', bind_ok.2 ⟨_, _, kind_ok.2 ⟨hkind.symm, rfl⟩, hf'⟩, hw, hnear'⟩

theorem spanFrom {f : Span → Parser β} (start : Token) (hf : ∀ span, Retraces P strict moving s t (f span) Q) :
    Retraces P strict moving s t (Parser.spanFrom start >>= f) Q :=
  looking (fun _ => True) ⟨start.span, trivial⟩ (fun _ _ _ => ⟨_, spanFrom_iff.2 ⟨rfl, rfl⟩, trivial⟩)
    fun span _ => hf span

theorem acceptNot {f : Bool → Parser β} {k : TokenKind} (hkind : s.current.kind ≠ k) (hk : k ≠ .rpar ∨ strict ∨ moving)
    (hf : Retraces P strict moving s t (f false) Q) : Retraces P strict moving s t (accept k >>= f) Q := by
  refine looking (· = false) ⟨false, rfl⟩ (fun {s'} _ hstands hlike => ?_) (by rintro _ rfl; exact hf)
  have hkind' : s'.current.kind ≠ k := by
    rcases hk with hk | hk
    · exact hstands.ne hkind hk
    · rwa [(hlike hk).kind_eq]
  refine ⟨false, accept_iff.2 ?_, rfl⟩
  rw [if_neg hkind']
  exact ⟨rfl, rfl⟩

/-! ### Taking -/

/-- Something that takes the current token. -/
theorem taking (Q₁ : α → Prop) (htake : Takes s s₁) (hend : s.current.kind ≠ .eof)
    (hrun : ∀ {s' s₁'}, s.current.Like s'.current → Takes s' s₁' → ∃ v, x.run s' = .ok (v, s₁') ∧ Q₁ v) (hv : ∃ v, Q₁ v)
    (hf : ∀ v, Q₁ v → Retraces P strict False s₁ t (f v) Q) : Retraces P strict moving s t (x >>= f) Q := by
  have hmoves : Moves s [s.current] s₁ := .take hend htake .refl
  have hx : Retraces P strict True s s₁ x Q₁ := by
    refine fun hfed => ⟨hmoves.fed hfed, ⟨_, hmoves.covers hfed, fun _ => List.cons_ne_nil _ _⟩, hv, ?_⟩
    rintro s' ⟨rest, hrest, -⟩ hnear
    obtain ⟨s₁', htake', hlike, hnear₁⟩ := hnear.take htake hend hrest
    obtain ⟨v, hx, hv⟩ := hrun hlike htake'
    exact ⟨v, s₁', hx, hv, hnear₁⟩
  exact bindWith hx hf .inl fun _ => .inl trivial

theorem advance {f : Token → Parser β} (htake : Takes s s₁) (hend : s.current.kind ≠ .eof)
    (hf : ∀ token, s.current.Like token → Retraces P strict False s₁ t (f token) Q) :
    Retraces P strict moving s t (Parser.advance >>= f) Q :=
  taking s.current.Like htake hend (fun hlike htake' => ⟨_, advance_iff.2 ⟨rfl, htake'⟩, hlike⟩) ⟨_, rfl⟩ hf

variable {k : TokenKind} {construct : String}

theorem expect {f : Token → Parser β} (hkind : s.current.kind = k) (htake : Takes s s₁) (hend : k ≠ .eof)
    (hf : ∀ token, s.current.Like token → Retraces P strict False s₁ t (f token) Q) :
    Retraces P strict moving s t (Parser.expect k construct >>= f) Q :=
  taking s.current.Like htake (hkind ▸ hend)
    (fun hlike htake' => ⟨_, expect_iff.2 ⟨rfl, hlike.kind_eq.trans hkind, htake'⟩, hlike⟩) ⟨_, rfl⟩ hf

theorem accept {f : Bool → Parser β} (hkind : s.current.kind = k) (htake : Takes s s₁) (hend : k ≠ .eof)
    (hf : Retraces P strict False s₁ t (f true) Q) : Retraces P strict moving s t (Parser.accept k >>= f) Q := by
  refine taking (· = true) htake (hkind ▸ hend) (fun hlike htake' => ⟨true, accept_iff.2 ?_, rfl⟩) ⟨true, rfl⟩
    (by rintro _ rfl; exact hf)
  rw [if_pos (hlike.kind_eq.trans hkind)]
  exact ⟨rfl, htake'⟩

theorem takeRegex {f : Token → Parser β} {token : Token} (htake : TakesRegex s token s₁)
    (hslash : s.current.kind = .slash ∨ s.current.kind = .divAssign)
    (hf : ∀ token', token.Like token' → Retraces P strict False s₁ t (f token') Q) :
    Retraces P strict moving s t (Parser.takeRegex >>= f) Q := by
  have hmoves : Moves s [token] s₁ := .regex hslash htake .refl
  have hx : Retraces P strict True s s₁ Parser.takeRegex token.Like := by
    refine fun hfed => ⟨hmoves.fed hfed, ⟨_, hmoves.covers hfed, fun _ => List.cons_ne_nil _ _⟩, ⟨token, rfl⟩, ?_⟩
    rintro s' ⟨rest, hrest, -⟩ hnear
    obtain ⟨token', s₁', htake', hlike, hnear₁⟩ := hnear.takeRegex htake hslash hrest
    exact ⟨token', s₁', htake', hlike, hnear₁⟩
  exact bindWith hx hf .inl fun _ => .inl trivial

/-- Newlines are skipped up to a token that is none. -/
theorem skipNewlines {f : Unit → Parser β} {u : Unit} (h : Parser.skipNewlines.run s = .ok (u, s₁))
    (hf : Retraces P strict moving s₁ t (f ()) Q) : Retraces P strict moving s t (Parser.skipNewlines >>= f) Q := by
  have hskip := skips_of_skip h
  have hstop : s₁.current.kind ≠ .newline := by simpa using skip_stops rfl h
  have hskips (hfed : Fed s) : Fed s₁ ∧ (∃ tokens, s.position.Covers tokens s₁.position) ∧
      ∀ {s' tokens}, s₁.position.Covers tokens P.stop → P.Near s s' →
        ∃ s₁', SkipsNewlines s' s₁' ∧ P.Near s₁ s₁' := by
    clear h hf hstop
    induction hskip with
    | refl => exact ⟨hfed, ⟨[], .nil⟩, fun _ hnear => ⟨_, .refl, hnear⟩⟩
    | @step s s₂ s₁ hkind htake hmore ih =>
      have hend : s.current.kind ≠ .eof := by rw [eq_of_beq hkind]; decide
      have hmoves : Moves s [s.current] s₂ := .take hend htake .refl
      obtain ⟨hfed₁, ⟨tokens, hcovers⟩, hrun⟩ := ih (hmoves.fed hfed)
      refine ⟨hfed₁, ⟨_, (hmoves.covers hfed).append hcovers⟩, fun hrest hnear => ?_⟩
      obtain ⟨s₂', htake', hlike, hnear₂⟩ := hnear.take htake hend (hcovers.append hrest)
      obtain ⟨s₁', hskip', hnear₁⟩ := hrun hrest hnear₂
      exact ⟨s₁', .step (by rw [hlike.kind_eq]; exact hkind) htake' hskip', hnear₁⟩
  intro hfed
  obtain ⟨hfed₁, ⟨tokens₁, hcovers₁⟩, hrun₁⟩ := hskips hfed
  obtain ⟨hfed', ⟨tokens₂, hcovers₂, hne₂⟩, hresult, hrun₂⟩ := hf hfed₁
  refine ⟨hfed', ⟨tokens₁ ++ tokens₂, hcovers₁.append hcovers₂, fun hm => ?_⟩, hresult, fun hahead hnear => ?_⟩
  · exact fun hnil => hne₂ hm (List.append_eq_nil_iff.1 hnil).2
  · obtain ⟨rest, hrest, hstrict⟩ := hahead
    obtain ⟨s₁', hskip', hnear₁⟩ := hrun₁ (hcovers₂.append hrest) hnear
    have hstop' := (hnear₁.current (hcovers₂.append hrest)).1.ne hstop (by decide)
    obtain ⟨w, t', hf', hw, hnear'⟩ := hrun₂ ⟨rest, hrest, hstrict⟩ hnear₁
    exact ⟨w, t', bind_ok.2 ⟨(), s₁', skip_of_skips hskip' (beq_false_of_ne hstop') rfl, hf'⟩, hw, hnear'⟩

/-- The token that stands first is the first of those ahead, unless it is a slash. -/
theorem exists_covers_of_kind {tokens : List Token} {stop : Cursor} (hfed : Fed s) (htake : Takes s t)
    (hkind : s.current.kind ≠ .slash ∧ s.current.kind ≠ .divAssign) (h : s.position.Covers tokens stop)
    (hne : tokens ≠ []) : ∃ more, t.position.Covers more stop := by
  obtain ⟨next, after, hnext, rfl⟩ := takes_iff.1 htake
  have hcurrent {token behind} (htoken : s.position.token = .ok (token, behind)) :
      s.current = token ∧ s.behind = behind := Prod.mk.inj (Except.ok.inj (hfed.symm.trans htoken))
  generalize s.position = c at h hcurrent
  cases h with
  | nil => exact absurd rfl hne
  | token htoken hend hmore =>
    rw [← (hcurrent htoken).2] at hmore
    exact ⟨_, hmore⟩
  | regex hslash hslash' =>
    rw [← (hcurrent hslash).1] at hslash'
    exact absurd hslash' (not_or.2 hkind)

theorem nextKind_run (htake : Takes s t) : Parser.nextKind.run s = .ok (t.current.kind, s) := by
  obtain ⟨next, after, hnext, rfl⟩ := takes_iff.1 htake
  simp only [Parser.nextKind, bind_ok, get_ok, lift_ok, pure_ok]
  exact ⟨_, _, ⟨rfl, rfl⟩, (next, after), s, ⟨hnext, rfl⟩, rfl, rfl⟩

/-- The kind of the token behind a pipe. -/
theorem nextKind {f : TokenKind → Parser β} (hpipe : s.current.kind = .pipe)
    (hnext : Parser.nextKind.run s = .ok (k, s₁)) (hsome : strict ∨ moving)
    (hf : ∀ k', StandsFor k' k → Retraces P strict moving s t (f k') Q) :
    Retraces P strict moving s t (Parser.nextKind >>= f) Q := by
  obtain ⟨rfl, hkind⟩ := nextKind_next hnext
  obtain ⟨u, htake⟩ : ∃ u, Takes s₁ u := by
    simp only [Parser.nextKind, bind_ok, get_ok, lift_ok, pure_ok] at hnext
    obtain ⟨_, _, ⟨rfl, rfl⟩, ⟨token, behind⟩, _, ⟨htoken, -⟩, -, -⟩ := hnext
    exact ⟨_, takes_iff.2 ⟨token, behind, htoken, rfl⟩⟩
  have hend : s₁.current.kind ≠ .eof := by rw [hpipe]; decide
  intro hfed
  obtain ⟨hfed', ⟨tokens, hcovers, hne⟩, hresult, -⟩ := hf k (.inl rfl) hfed
  refine ⟨hfed', ⟨tokens, hcovers, hne⟩, hresult, fun {s'} hahead hnear => ?_⟩
  obtain ⟨rest, hrest, hstop⟩ := hahead
  have hsome : tokens ++ rest ≠ [] := by
    rw [ne_eq, List.append_eq_nil_iff, not_and_or]
    exact hsome.symm.imp hne hstop
  obtain ⟨more, hmore⟩ := exists_covers_of_kind hfed htake (by rw [hpipe]; decide) (hcovers.append hrest) hsome
  obtain ⟨u', htake', -, hnear'⟩ := hnear.take htake hend hmore
  obtain ⟨hstands, -⟩ := hnear'.current hmore
  rw [hkind htake] at hstands
  obtain ⟨-, -, -, hrun⟩ := hf _ hstands hfed
  obtain ⟨w, t', hf', hw, hnear''⟩ := hrun ⟨rest, hrest, hstop⟩ hnear
  refine ⟨w, t', bind_ok.2 ⟨_, s', nextKind_run htake', hf'⟩, hw, hnear''⟩

/-- What is put on record of calls has no part in where the parser stands. -/
theorem record {f : PUnit → Parser β} (record record' : ParserState → ParserState)
    (hf : Retraces P strict moving (record s) t (f ⟨⟩) Q)
    (hrecord : (record s).position = s.position ∧ (record s).current = s.current ∧ (record s).behind = s.behind)
    (hrecord' : ∀ s', (record' s').position = s'.position ∧ (record' s').current = s'.current ∧
      (record' s').behind = s'.behind) : Retraces P strict moving s t (modify record' >>= f) Q := by
  have hfed₁ (hfed : Fed s) : Fed (record s) := by
    unfold Fed at hfed ⊢
    rw [hrecord.1, hrecord.2.1, hrecord.2.2]
    exact hfed
  intro hfed
  obtain ⟨hfed', hcovers, hresult, hrun⟩ := hf (hfed₁ hfed)
  rw [hrecord.1] at hcovers
  refine ⟨hfed', hcovers, hresult, fun {s'} hahead hnear => ?_⟩
  have hnear₁ : P.Near (record s) (record' s') := by
    refine ⟨hfed₁ hfed, ?_, ?_⟩
    · unfold Fed
      rw [(hrecord' s').1, (hrecord' s').2.1, (hrecord' s').2.2]
      exact hnear.fed'
    · rw [hrecord.1, (hrecord' s').1]
      exact hnear.same
  obtain ⟨w, t', hf', hw, hnear'⟩ := hrun hahead hnear₁
  exact ⟨w, t', bind_ok.2 ⟨⟨⟩, record' s', modify_ok.2 rfl, hf'⟩, hw, hnear'⟩

end Retraces

end Parser

end Awk
