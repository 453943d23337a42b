import Awk.Proofs.Syntax.Layout.Placed
import Awk.Proofs.Syntax.Places.Moves
import Mathlib.Order.MinMax

/-!
# Texts with the same tokens

Two program texts may have the same tokens along a path, in other places, and with more newlines in the one than in the
other behind some of the tokens (`Correspondence`).  What the parser does along the path in the first text it does in the
second one as well (`Mirrors`).  The rules for that follow the steps of the parser.
-/

namespace Awk

/-! ### Kinds of tokens -/

namespace TokenKind

/-- Kinds of tokens behind which newlines have no meaning wherever they are taken. -/
def isOpen : TokenKind → Bool
  | lbrace | and | or | comma | «do» | «else» | semi => true
  | _ => false

/-- Newlines and the end of the text are the only tokens that may stand for each other. -/
def isFirm (k : TokenKind) : Bool := k != newline && k != eof

/-- Kinds of tokens behind which newlines are passed over in some places only. -/
def isTight (k : TokenKind) : Bool := k.isFirm && !k.isOpen

/-- Where a token of a kind is expected at the end of a text, there may be a newline as well. -/
def Matches (k k' : TokenKind) : Prop := k' = k ∨ k = eof ∧ k' = newline

theorem Matches.eq {k k' : TokenKind} (h : k.Matches k') (hend : k ≠ eof) : k' = k :=
  h.resolve_right fun hboth => hend hboth.1

/-- What makes no difference between a newline and the end of the text. -/
theorem Matches.apply {α : Type} {k k' : TokenKind} (h : k.Matches k') (f : TokenKind → α) (hf : f newline = f eof) :
    f k' = f k := by
  rcases h with rfl | ⟨rfl, rfl⟩
  · rfl
  · exact hf

theorem Matches.eq_iff {k k' : TokenKind} (h : k.Matches k') {kind : TokenKind} (hkind : kind.isFirm = true) :
    k' = kind ↔ k = kind := by
  rw [isFirm, Bool.and_eq_true, bne_iff_ne, bne_iff_ne] at hkind
  rcases h with rfl | ⟨rfl, rfl⟩
  · rfl
  · exact ⟨fun h => absurd h.symm hkind.1, fun h => absurd h.symm hkind.2⟩

theorem ne_of_isFirm {k : TokenKind} (h : k.isFirm = true) : k ≠ newline ∧ k ≠ eof := by
  rwa [isFirm, Bool.and_eq_true, bne_iff_ne, bne_iff_ne] at h

end TokenKind

/-! ### Places -/

/-- A change of places that keeps their order.  Where a place ends has no part in where it begins. -/
structure Placement where
  span : Span → Span
  stop : Nat → Nat
  monotone : Monotone stop
  span_stop : ∀ (place : Span) (n : Nat), span { place with stop := n } = { span place with stop := stop n }

namespace Placement

theorem stop_span (f : Placement) (place : Span) : (f.span place).stop = f.stop place.stop := by
  rw [f.span_stop place place.stop]

/-- No change. -/
def none : Placement := ⟨id, id, monotone_id, fun _ _ => rfl⟩

end Placement

/-! ### Paths -/

/-- A token taken by the parser, or a regular expression.  The parenthesis that closes the header of a statement is
marked, because newlines may follow it. -/
structure Taken where
  token : Token
  header : Bool

namespace Taken

/-- Newlines may follow. -/
def isLoose (taken : Taken) : Bool := taken.header || taken.token.kind.isOpen || taken.token.kind == .newline

end Taken

/-- Newlines stand between two places. -/
inductive Cursor.Newlines : Cursor → Cursor → Prop
  | refl {cursor} : Newlines cursor cursor
  | step {cursor token behind stop} (htoken : cursor.token = .ok (token, behind)) (hkind : token.kind = .newline)
    (hmore : Newlines behind stop) : Newlines cursor stop

namespace Parser

/-- There is more on the path than newlines and semicolons. -/
def Solid (path : List Taken) : Prop :=
  ∃ taken ∈ path, taken.token.kind ≠ .newline ∧ taken.token.kind ≠ .semi

theorem Solid.append {path : List Taken} (h : Solid path) (before : List Taken) : Solid (before ++ path) := by
  obtain ⟨taken, hmem, hkind⟩ := h
  exact ⟨taken, List.mem_append_right _ hmem, hkind⟩

theorem Solid.extend {path : List Taken} (h : Solid path) (rest : List Taken) : Solid (path ++ rest) := by
  obtain ⟨taken, hmem, hkind⟩ := h
  exact ⟨taken, List.mem_append_left _ hmem, hkind⟩

/-- Two places have the same tokens along paths behind them. -/
structure Correspondence where
  place : Placement
  /-- The functions that the second text has defined before. -/
  known : List (Text × Nat)
  /-- The calls that the second text has met before. -/
  earlier : List (Token × Nat)
  meets : List Taken → Cursor → Cursor → Prop
  read : ∀ {path cursor cursor' token behind}, meets path cursor cursor' → cursor.token = .ok (token, behind) →
    ∃ token' behind', cursor'.token = .ok (token', behind') ∧ token.kind.Matches token'.kind ∧
      (token.kind.isFirm = true → token' = token.placed place.span)
  take : ∀ {taken path cursor cursor' behind token' behind'}, meets (taken :: path) cursor cursor' →
    cursor.token = .ok (taken.token, behind) → taken.token.kind ≠ .eof → cursor'.token = .ok (token', behind') →
      ∃ stop, behind'.Newlines stop ∧ (taken.isLoose = false → stop = behind') ∧ meets path behind stop
  regex : ∀ {taken path cursor cursor' slash after behind}, meets (taken :: path) cursor cursor' →
    cursor.token = .ok (slash, after) → slash.kind = .slash ∨ slash.kind = .divAssign →
      cursor.regex = .ok (taken.token, behind) →
        ∃ behind', cursor'.regex = .ok (taken.token.placed place.span, behind') ∧ meets path behind behind'
  /-- The parser looks ahead over these tokens. -/
  ahead : ∀ {path cursor cursor' token behind token' behind'}, meets path cursor cursor' →
    cursor.token = .ok (token, behind) → token.kind = .pipe ∨ token.kind = .name ∨ token.kind = .in →
      cursor'.token = .ok (token', behind') → ∃ path', meets path' behind behind'
  /-- Where the path goes on, the parser looks ahead over newlines and semicolons as well. -/
  solid : ∀ {path cursor cursor' token behind token' behind'}, meets path cursor cursor' → Solid path →
    cursor.token = .ok (token, behind) → cursor'.token = .ok (token', behind') → token'.kind = token.kind ∧
      (token.kind = .newline ∨ token.kind = .semi → ∃ path' stop, Solid path' ∧ behind'.Newlines stop ∧
        meets path' behind stop)

variable {s s' s₁ t t' : ParserState} {skipped : TokenKind → Bool}

/-! ### Newlines that are skipped -/

/-- Every token but the end of the text takes some of it. -/
theorem rest_lt_of_token {cursor behind : Cursor} {token : Token} (h : cursor.token = .ok (token, behind))
    (hend : token.kind ≠ .eof) : behind.rest.length < cursor.rest.length := by
  obtain ⟨lexeme, hscan, rfl, rfl⟩ := Cursor.token_iff.1 h
  obtain ⟨hle, hpos⟩ := Lexeme.length_of_scan hscan
  have hblank := Lexeme.blankLength_le false cursor.rest
  have hlt := hpos hend
  rw [Cursor.skipBlanks, Cursor.advance_rest, List.length_drop] at hle
  rw [Cursor.skipBlanks, Cursor.advance_rest, Cursor.advance_rest, List.length_drop, List.length_drop]
  omega

theorem skipFuel_of_skips (h : Skips skipped s t) (hstop : skipped t.current.kind = false) (hend : skipped .eof = false)
    {fuel : Nat} (hfuel : s.current.kind = .eof ∨ s.behind.rest.length < fuel) :
    (skipFuel skipped fuel).run s = .ok ((), t) := by
  induction h generalizing fuel with
  | refl =>
    cases fuel with
    | zero => rfl
    | succ fuel =>
      simp only [skipFuel, bind_ok, kind_ok]
      exact ⟨_, _, ⟨rfl, rfl⟩, by rw [hstop]; rfl⟩
  | @step s s₁ t hkind htake hrest ih =>
    have hcurrent : s.current.kind ≠ .eof := by
      intro heq
      rw [heq, hend] at hkind
      cases hkind
    obtain ⟨fuel, rfl⟩ := Nat.exists_eq_add_one_of_ne_zero (Nat.ne_zero_of_lt (hfuel.resolve_left hcurrent))
    simp only [skipFuel, bind_ok, kind_ok]
    refine ⟨_, _, ⟨rfl, rfl⟩, ?_⟩
    rw [if_pos hkind, bind_ok]
    refine ⟨_, _, advance_iff.2 ⟨rfl, htake⟩, ih hstop ?_⟩
    obtain ⟨token, behind, htoken, rfl⟩ := takes_iff.1 htake
    refine (em (token.kind = .eof)).imp_right fun hne => ?_
    have hlt := rest_lt_of_token htoken hne
    have hfuel := hfuel.resolve_left hcurrent
    simp only
    omega

/-- What is skipped up to a token that is not, is skipped. -/
theorem skip_of_skips (h : Skips skipped s t) (hstop : skipped t.current.kind = false) (hend : skipped .eof = false) :
    (skip skipped).run s = .ok ((), t) :=
  bind_ok.2 ⟨_, _, get_ok.2 ⟨rfl, rfl⟩, skipFuel_of_skips h hstop hend (.inr (Nat.lt_succ_self _))⟩

/-- The current token is taken if another one follows. -/
theorem takes_of_token {token : Token} {behind : Cursor} (h : s.behind.token = .ok (token, behind)) :
    ∃ t, Takes s t ∧ Fed t ∧ t.position = s.behind ∧ t.functions = s.functions ∧ t.calls = s.calls :=
  ⟨_, takes_iff.2 ⟨token, behind, h, rfl⟩, h, rfl, rfl, rfl⟩

theorem token_of_newlines {cursor stop behind : Cursor} {token : Token} (h : cursor.Newlines stop)
    (htoken : stop.token = .ok (token, behind)) : ∃ token behind, cursor.token = .ok (token, behind) := by
  cases h with
  | refl => exact ⟨_, _, htoken⟩
  | step hfirst hkind hmore => exact ⟨_, _, hfirst⟩

/-- Newlines in the text are skipped by the parser. -/
theorem skips_of_newlines {cursor stop behind : Cursor} {token : Token} (h : cursor.Newlines stop)
    (htoken : stop.token = .ok (token, behind)) (hposition : s.position = cursor) (hfed : Fed s) :
    ∃ t, SkipsNewlines s t ∧ Fed t ∧ t.position = stop ∧ t.functions = s.functions ∧ t.calls = s.calls := by
  induction h generalizing s with
  | refl => exact ⟨s, .refl, hfed, hposition, rfl, rfl⟩
  | step hfirst hkind hmore ih =>
    obtain ⟨next, behind, hnext⟩ := token_of_newlines hmore htoken
    unfold Fed at hfed
    rw [hposition, hfirst, Except.ok.injEq, Prod.mk.injEq] at hfed
    obtain ⟨hcurrent, hbehind⟩ := hfed
    rw [hbehind] at hnext
    obtain ⟨s₁, htake, hfed₁, hposition₁, hfunctions₁, hcalls₁⟩ := takes_of_token hnext
    obtain ⟨t, hskip, hfed, hstop, hfunctions, hcalls⟩ := ih htoken (hposition₁.trans hbehind.symm) hfed₁
    exact ⟨t, .step (by simp [← hcurrent, hkind]) htake hskip, hfed, hstop, hfunctions.trans hfunctions₁,
      hcalls.trans hcalls₁⟩

/-! ### States -/

namespace Correspondence

variable (C : Correspondence)

def token (token : Token) : Token := token.placed C.place.span

@[simp]
theorem token_kind (token : Token) : (C.token token).kind = token.kind := rfl

/-- The parser stands at the same token of a path in both texts. -/
structure Near (path : List Taken) (s s' : ParserState) : Prop where
  fed : Fed s
  fed' : Fed s'
  meets : C.meets path s.position s'.position
  functions : s'.functions = C.known ++ s.functions
  calls : s'.calls = s.calls.map (fun call => (C.token call.1, call.2)) ++ C.earlier

/-- Nodes that end here end in the same place. -/
def SameReach (s s' : ParserState) : Prop :=
  ∀ stop, max (s'.lastStop.getD (C.place.stop stop)) (C.place.stop stop) = C.place.stop (max (s.lastStop.getD stop) stop)

end Correspondence

/-- How far the parser is in the second text when it is at a token in the first one. -/
structure Tie where
  /-- There may be newlines to skip. -/
  pending : Bool
  /-- What has been taken last is the same token. -/
  keeps : Bool

namespace Tie

abbrev near : Tie := ⟨false, false⟩

abbrev alike : Tie := ⟨false, true⟩

abbrev loose : Tie := ⟨true, false⟩

abbrev apart : Tie := ⟨true, true⟩

end Tie

namespace Correspondence

variable {C : Correspondence} {path : List Taken} {taken : Taken} {s s' t t' : ParserState} {tie : Tie}

/-- The parser stands at the same token, or before newlines in front of it. -/
def Tied (C : Correspondence) (tie : Tie) (path : List Taken) (s s' : ParserState) : Prop :=
  (∃ t, SkipsNewlines s' t ∧ (tie.pending = false → t = s') ∧ C.Near path s t) ∧ (tie.keeps = true → C.SameReach s s')

theorem Tied.near {keeps : Bool} (h : C.Tied ⟨false, keeps⟩ path s s') : C.Near path s s' := by
  obtain ⟨⟨t, -, hsame, hnear⟩, -⟩ := h
  exact hsame rfl ▸ hnear

theorem Near.tied (h : C.Near path s s') {keeps : Bool} (hkeeps : keeps = true → C.SameReach s s') :
    C.Tied ⟨false, keeps⟩ path s s' :=
  ⟨⟨s', .refl, fun _ => rfl, h⟩, hkeeps⟩

theorem Near.loose (h : C.Near path s s') : C.Tied .loose path s s' :=
  ⟨⟨s', .refl, fun _ => rfl, h⟩, fun h => Bool.noConfusion h⟩

theorem Tied.mono {tie' : Tie} (h : C.Tied tie path s s') (hpending : tie'.pending = false → tie.pending = false)
    (hkeeps : tie'.keeps = true → tie.keeps = true) : C.Tied tie' path s s' := by
  obtain ⟨⟨t, hskip, hsame, hnear⟩, hreach⟩ := h
  exact ⟨⟨t, hskip, fun hp => hsame (hpending hp), hnear⟩, fun hk => hreach (hkeeps hk)⟩

theorem Near.matches (h : C.Near path s s') : s.current.kind.Matches s'.current.kind := by
  obtain ⟨token, behind, htoken, hmatches, -⟩ := C.read h.meets h.fed
  rw [h.fed', Except.ok.injEq, Prod.mk.injEq] at htoken
  exact htoken.1 ▸ hmatches

theorem Near.current (h : C.Near path s s') (hfirm : s.current.kind.isFirm = true) :
    s'.current = C.token s.current := by
  obtain ⟨token, behind, htoken, -, hsame⟩ := C.read h.meets h.fed
  rw [h.fed', Except.ok.injEq, Prod.mk.injEq] at htoken
  exact htoken.1.trans (hsame hfirm)

theorem Near.kind_eq (h : C.Near path s s') (hend : s.current.kind ≠ .eof) : s'.current.kind = s.current.kind :=
  h.matches.eq hend

/-- What is recorded of functions and calls has no part in where the parser stands. -/
theorem Near.recorded (h : C.Near path s s') {functions functions' : List (Text × Nat)} {calls calls' : List (Token × Nat)}
    (hfunctions : functions' = C.known ++ functions)
    (hcalls : calls' = calls.map (fun call => (C.token call.1, call.2)) ++ C.earlier) :
    C.Near path { s with functions := functions, calls := calls } { s' with functions := functions', calls := calls' } :=
  ⟨h.fed, h.fed', h.meets, hfunctions, hcalls⟩

/-- Tokens that end in the same place make nodes end in the same place. -/
theorem sameReach_of_lastStop {stop : Nat} (h : s.lastStop = some stop) (h' : s'.lastStop = some (C.place.stop stop)) :
    C.SameReach s s' := by
  intro n
  rw [h, h', Option.getD_some, Option.getD_some, C.place.monotone.map_max]

/-- A token that is taken in both texts, with newlines behind it in the second one. -/
theorem Near.takes_of_newlines (h : C.Near path s s') (htake : Takes s t) {path' : List Taken} {stop : Cursor}
    (hnewlines : s'.behind.Newlines stop) (hmeets : C.meets path' s.behind stop) :
    ∃ t' u, Takes s' t' ∧ SkipsNewlines t' u ∧ (stop = s'.behind → u = t') ∧ C.Near path' t u := by
  obtain ⟨next, behind, hnext, rfl⟩ := takes_iff.1 htake
  obtain ⟨token', behind', htoken', -, -⟩ := C.read hmeets hnext
  obtain ⟨next', behind'', hnext'⟩ := token_of_newlines hnewlines htoken'
  obtain ⟨t', htake', hfed', hposition', hfunctions', hcalls'⟩ := takes_of_token hnext'
  by_cases hstop : stop = s'.behind
  · subst hstop
    refine ⟨t', t', htake', .refl, fun _ => rfl, hnext, hfed', hposition' ▸ hmeets, ?_, ?_⟩
    · rw [hfunctions', h.functions]
    · rw [hcalls', h.calls]
  · obtain ⟨u, hskip, hfed, hposition, hfunctions, hcalls⟩ := skips_of_newlines hnewlines htoken' hposition' hfed'
    refine ⟨t', u, htake', hskip, fun heq => absurd heq hstop, hnext, hfed, hposition ▸ hmeets, ?_, ?_⟩
    · rw [hfunctions, hfunctions', h.functions]
    · rw [hcalls, hcalls', h.calls]

/-- A token taken in the first text is taken in the second one.  Behind some tokens there may be newlines. -/
theorem Near.take (h : C.Near (taken :: path) s s') (htoken : taken.token = s.current) (htake : Takes s t)
    (hend : s.current.kind ≠ .eof) :
    ∃ t', Takes s' t' ∧ C.Tied ⟨taken.isLoose, s.current.kind.isFirm⟩ path t t' := by
  have hfed : s.position.token = .ok (taken.token, s.behind) := htoken ▸ h.fed
  obtain ⟨stop, hnewlines, hstop, hmeets⟩ := C.take h.meets hfed (htoken ▸ hend) h.fed'
  obtain ⟨t', u, htake', hskip, hsame, hnear⟩ := h.takes_of_newlines htake hnewlines hmeets
  refine ⟨t', htake', ⟨u, hskip, fun htight => hsame (hstop htight), hnear⟩, fun hfirm => ?_⟩
  obtain ⟨_, _, -, rfl⟩ := takes_iff.1 htake
  obtain ⟨_, _, -, rfl⟩ := takes_iff.1 htake'
  refine sameReach_of_lastStop rfl ?_
  rw [h.current hfirm, ← C.place.stop_span]
  rfl

theorem Near.takeRegex (h : C.Near (taken :: path) s s') (htake : TakesRegex s taken.token t)
    (hslash : s.current.kind = .slash ∨ s.current.kind = .divAssign) :
    ∃ t', TakesRegex s' (C.token taken.token) t' ∧ C.Tied .alike path t t' := by
  obtain ⟨stop, next, behind, hregex, hnext, rfl⟩ := takesRegex_iff.1 htake
  obtain ⟨stop', hregex', hmeets⟩ := C.regex h.meets h.fed hslash hregex
  obtain ⟨next', behind', hnext', -, -⟩ := C.read hmeets hnext
  refine ⟨_, takesRegex_iff.2 ⟨stop', next', behind', hregex', hnext', rfl⟩, Near.tied ?_ fun _ => ?_⟩
  · exact ⟨hnext, hnext', hmeets, h.functions, h.calls⟩
  · refine sameReach_of_lastStop rfl ?_
    rw [← C.place.stop_span]
    rfl

/-- Where the parser looks ahead it sees the same tokens. -/
theorem Near.ahead (h : C.Near path s s') (hkind : s.current.kind = .pipe ∨ s.current.kind = .name ∨ s.current.kind = .in)
    (htake : Takes s t) : ∃ path' t', Takes s' t' ∧ C.Near path' t t' := by
  obtain ⟨next, behind, hnext, rfl⟩ := takes_iff.1 htake
  obtain ⟨path', hmeets⟩ := C.ahead h.meets h.fed hkind h.fed'
  obtain ⟨next', behind', hnext', -, -⟩ := C.read hmeets hnext
  exact ⟨path', _, takes_iff.2 ⟨next', behind', hnext', rfl⟩, hnext, hnext', hmeets, h.functions, h.calls⟩

/-- Where the path goes on, the parser sees the same token in both texts, and may look behind newlines and semicolons. -/
theorem Near.look (h : C.Near path s s') (hsolid : Solid path) :
    s'.current.kind = s.current.kind ∧ ∀ {t}, s.current.kind = .newline ∨ s.current.kind = .semi → Takes s t →
      ∃ path' t', Solid path' ∧ Takes s' t' ∧ C.Tied .loose path' t t' := by
  obtain ⟨hkind, hgap⟩ := C.solid h.meets hsolid h.fed h.fed'
  refine ⟨hkind, fun hk htake => ?_⟩
  obtain ⟨path', stop, hsolid', hnewlines, hmeets⟩ := hgap hk
  obtain ⟨t', u, htake', hskip, -, hnear⟩ := h.takes_of_newlines htake hnewlines hmeets
  exact ⟨path', t', hsolid', htake', ⟨u, hskip, fun h => Bool.noConfusion h, hnear⟩, fun h => Bool.noConfusion h⟩

/-- The tokens that are skipped, up to one that neither text skips. -/
theorem exists_skips_of_tied (hskipped : ∀ {k}, skipped k = true → k = .newline ∨ k = .semi)
    (hnewline : skipped .newline = true) (h : Skips skipped s t) :
    ∃ path, Moves s (path.map Taken.token) t ∧ (∀ taken ∈ path, skipped taken.token.kind = true) ∧
      ∀ {rest s'}, C.Tied .loose (path ++ rest) s s' → ∃ t', Skips skipped s' t' ∧ C.Near rest t t' := by
  have hmono {s t} (h : SkipsNewlines s t) : Skips skipped s t := h.mono fun hk => by rw [eq_of_beq hk]; exact hnewline
  induction h with
  | refl =>
    refine ⟨[], .refl, List.forall_mem_nil _, fun htied => ?_⟩
    obtain ⟨⟨t', hskip, -, hnear⟩, -⟩ := htied
    exact ⟨t', hmono hskip, hnear⟩
  | @step s s₁ t hkind htake hrest ih =>
    have hend : s.current.kind ≠ .eof := by rcases hskipped hkind with hk | hk <;> rw [hk] <;> decide
    obtain ⟨path, hmoves, hall, hnext⟩ := ih
    refine ⟨⟨s.current, false⟩ :: path, .take hend htake hmoves, List.forall_mem_cons.2 ⟨hkind, hall⟩, fun htied => ?_⟩
    obtain ⟨⟨u, hskip, -, hnear⟩, -⟩ := htied
    obtain ⟨u', htake', htied'⟩ := hnear.take rfl htake hend
    obtain ⟨t', hskip', hnear'⟩ := hnext (htied'.mono (fun h => by cases h) (fun h => by cases h))
    have hkind' : skipped u.current.kind = true := by rw [hnear.kind_eq hend]; exact hkind
    exact ⟨t', (hmono hskip).trans (.step hkind' htake' hskip'), hnear'⟩

end Correspondence

end Parser

end Awk
