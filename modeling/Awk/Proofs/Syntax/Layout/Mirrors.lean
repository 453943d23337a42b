import Awk.Proofs.Syntax.Layout.Correspondence

/-!
# Steps of the parser in the second text

`Mirrors C closed pre post s t P x v` says of the way that the parser has taken from `s` to `t` in the first text: its
path has the property `P`, and from any state of the second text that is tied to `s` the parser `x` gives `v` and comes
to a state that is tied to `t`.  There is one rule for each step that parsers are made of.
-/

namespace Awk.Parser

variable {α β : Type} {C : Correspondence} {closed : Bool} {pre mid post : Tie} {s s₁ t s' : ParserState}
  {P : List Taken → Prop} {x : Parser α} {f : α → Parser β} {a : α} {v : β}

/-- What the parser has done from `s` to `t` is done by `x` in the second text.  If it looks further than to `t`, it
does not look past the end of the path. -/
def Mirrors (C : Correspondence) (closed : Bool) (pre post : Tie) (s t : ParserState) (P : List Taken → Prop)
    (x : Parser α) (v : α) : Prop :=
  Fed s → ∃ path, Moves s (path.map Taken.token) t ∧ P path ∧ ∀ {rest s'}, (closed = true → Solid rest) →
    C.Tied pre (path ++ rest) s s' → ∃ t', x.run s' = .ok (v, t') ∧ C.Tied post rest t t'

namespace Mirrors

/-! ### Composition -/

theorem bind {P₁ : List Taken → Prop} (hx : Mirrors C closed pre mid s s₁ P₁ x a)
    (hf : ∀ path, P₁ path → Mirrors C closed mid post s₁ t (fun rest => P (path ++ rest)) (f a) v) :
    Mirrors C closed pre post s t P (x >>= f) v := by
  intro hfed
  obtain ⟨path, hmoves, hP, hrun⟩ := hx hfed
  obtain ⟨path', hmoves', hP', hrun'⟩ := hf path hP (hmoves.fed hfed)
  refine ⟨path ++ path', List.map_append ▸ hmoves.trans hmoves', hP', fun hclosed htied => ?_⟩
  rw [List.append_assoc] at htied
  obtain ⟨s₁', hfirst, htied₁⟩ := hrun (fun hc => (hclosed hc).append path') htied
  obtain ⟨t', hsecond, htied'⟩ := hrun' hclosed htied₁
  exact ⟨t', bind_ok.2 ⟨a, s₁', hfirst, hsecond⟩, htied'⟩

theorem pure (hP : P []) : Mirrors C closed pre pre s s P (Pure.pure v) v :=
  fun _ => ⟨[], .refl, hP, fun _ htied => ⟨_, rfl, htied⟩⟩

theorem mono {pre' post' : Tie} (h : Mirrors C closed pre' post' s t P x a)
    (hpending : pre'.pending = false → pre.pending = false) (hkeeps : pre'.keeps = true → pre.keeps = true)
    (hpending' : post.pending = false → post'.pending = false) (hkeeps' : post.keeps = true → post'.keeps = true) :
    Mirrors C closed pre post s t P x a := by
  intro hfed
  obtain ⟨path, hmoves, hP, hrun⟩ := h hfed
  refine ⟨path, hmoves, hP, fun hclosed htied => ?_⟩
  obtain ⟨t', hx, htied'⟩ := hrun hclosed (htied.mono hpending hkeeps)
  exact ⟨t', hx, htied'.mono hpending' hkeeps'⟩

/-- The path may be described in another way. -/
theorem imp {P' : List Taken → Prop} (h : Mirrors C closed pre post s t P' x a) (hP : ∀ path, P' path → P path) :
    Mirrors C closed pre post s t P x a := by
  intro hfed
  obtain ⟨path, hmoves, hP', hrun⟩ := h hfed
  exact ⟨path, hmoves, hP path hP', hrun⟩

/-- The path may be described in another way, as a path of tokens that have been taken. -/
theorem imp_of_moves {P' : List Taken → Prop} (h : Mirrors C closed pre post s t P' x a)
    (hP : ∀ path, Fed s → Moves s (path.map Taken.token) t → P' path → P path) : Mirrors C closed pre post s t P x a := by
  intro hfed
  obtain ⟨path, hmoves, hP', hrun⟩ := h hfed
  exact ⟨path, hmoves, hP path hfed hmoves hP', hrun⟩

/-- What looks past the end of its path does not look past the end of a path that goes on. -/
theorem bindClosed {P₁ : List Taken → Prop} (hx : Mirrors C true pre mid s s₁ P₁ x a)
    (hf : ∀ path, P₁ path → Mirrors C closed mid post s₁ t (fun rest => Solid rest ∧ P (path ++ rest)) (f a) v) :
    Mirrors C closed pre post s t P (x >>= f) v := by
  intro hfed
  obtain ⟨path, hmoves, hP, hrun⟩ := hx hfed
  obtain ⟨path', hmoves', ⟨hsolid, hP'⟩, hrun'⟩ := hf path hP (hmoves.fed hfed)
  refine ⟨path ++ path', List.map_append ▸ hmoves.trans hmoves', hP', fun {rest _} hclosed htied => ?_⟩
  rw [List.append_assoc] at htied
  obtain ⟨s₁', hfirst, htied₁⟩ := hrun (fun _ => hsolid.extend rest) htied
  obtain ⟨t', hsecond, htied'⟩ := hrun' hclosed htied₁
  exact ⟨t', bind_ok.2 ⟨a, s₁', hfirst, hsecond⟩, htied'⟩

/-- Another parser that does the same. -/
theorem runs {y : Parser β} (h : Mirrors C closed pre post s t P x a)
    (hrun : ∀ {path s' t'}, C.Tied pre path s s' → x.run s' = .ok (a, t') → y.run s' = .ok (v, t')) :
    Mirrors C closed pre post s t P y v := by
  intro hfed
  obtain ⟨path, hmoves, hP, hsame⟩ := h hfed
  refine ⟨path, hmoves, hP, fun hclosed htied => ?_⟩
  obtain ⟨t', hx, htied'⟩ := hsame hclosed htied
  exact ⟨t', hrun htied hx, htied'⟩

/-- Behind a statement there may be newlines. -/
theorem loosen (h : Mirrors C closed pre .alike s t P x a) : Mirrors C closed pre .apart s t P x a :=
  h.mono id id (fun h => by cases h) id

theorem of_near {keeps : Bool} (h : Mirrors C closed .near post s t P x a) :
    Mirrors C closed ⟨false, keeps⟩ post s t P x a :=
  h.mono id (fun h => by cases h) id id

/-! ### Looking -/

variable {keeps pending : Bool}

theorem current {f : Token → Parser β} (hfirm : s.current.kind.isFirm = true)
    (hf : Mirrors C closed ⟨false, keeps⟩ post s t P (f (C.token s.current)) v) :
    Mirrors C closed ⟨false, keeps⟩ post s t P (Parser.current >>= f) v := by
  intro hfed
  obtain ⟨path, hmoves, hP, hrun⟩ := hf hfed
  refine ⟨path, hmoves, hP, fun hclosed htied => ?_⟩
  obtain ⟨t', hx, htied'⟩ := hrun hclosed htied
  exact ⟨t', bind_ok.2 ⟨_, _, current_ok.2 ⟨rfl, rfl⟩, htied.near.current hfirm ▸ hx⟩, htied'⟩

/-- Looking at the kind of the current token, if a newline and the end of the text make no difference. -/
theorem kind {f : TokenKind → Parser β} (hsame : s.current.kind = .eof → f .newline = f .eof)
    (hf : Mirrors C closed ⟨false, keeps⟩ post s t P (f s.current.kind) v) :
    Mirrors C closed ⟨false, keeps⟩ post s t P (Parser.kind >>= f) v := by
  intro hfed
  obtain ⟨path, hmoves, hP, hrun⟩ := hf hfed
  refine ⟨path, hmoves, hP, fun {_ s'} hclosed htied => ?_⟩
  obtain ⟨t', hx, htied'⟩ := hrun hclosed htied
  have hkind : f s'.current.kind = f s.current.kind := by
    rcases htied.near.matches with hkind | ⟨hend, hnewline⟩
    · rw [hkind]
    · rw [hend, hnewline, hsame hend]
  exact ⟨t', bind_ok.2 ⟨_, _, kind_ok.2 ⟨rfl, rfl⟩, hkind ▸ hx⟩, htied'⟩

theorem atTerminator {f : Bool → Parser β}
    (hf : Mirrors C closed ⟨false, keeps⟩ post s t P (f (isTerminator s.current.kind)) v) :
    Mirrors C closed ⟨false, keeps⟩ post s t P (Parser.atTerminator >>= f) v := by
  intro hfed
  obtain ⟨path, hmoves, hP, hrun⟩ := hf hfed
  refine ⟨path, hmoves, hP, fun hclosed htied => ?_⟩
  obtain ⟨t', hx, htied'⟩ := hrun hclosed htied
  rw [← htied.near.matches.apply isTerminator rfl] at hx
  exact ⟨t', bind_ok.2 ⟨_, _, bind_ok.2 ⟨_, _, kind_ok.2 ⟨rfl, rfl⟩, rfl⟩, hx⟩, htied'⟩

/-- The kind of the token behind a pipe. -/
theorem nextKind {f : TokenKind → Parser β} {k : TokenKind} (hpipe : s.current.kind = .pipe)
    (hnext : Parser.nextKind.run s = .ok (k, s₁)) (hsame : f .newline = f .eof)
    (hf : Mirrors C closed ⟨false, keeps⟩ post s t P (f k) v) :
    Mirrors C closed ⟨false, keeps⟩ post s t P (Parser.nextKind >>= f) v := by
  simp only [Parser.nextKind, bind_ok, get_ok, lift_ok, pure_ok] at hnext
  obtain ⟨_, _, ⟨rfl, rfl⟩, ⟨token, behind⟩, _, ⟨htoken, rfl⟩, rfl, rfl⟩ := hnext
  intro hfed
  obtain ⟨path, hmoves, hP, hrun⟩ := hf hfed
  refine ⟨path, hmoves, hP, fun {_ s'} hclosed htied => ?_⟩
  obtain ⟨t', hx, htied'⟩ := hrun hclosed htied
  obtain ⟨path', u', htake', hnear⟩ := htied.near.ahead (.inl hpipe) (takes_iff.2 ⟨token, behind, htoken, rfl⟩)
  obtain ⟨token', behind', htoken', rfl⟩ := takes_iff.1 htake'
  have hkind : f token'.kind = f token.kind := hnear.matches.apply f hsame
  refine ⟨t', bind_ok.2 ⟨token'.kind, s', ?_, hkind ▸ hx⟩, htied'⟩
  simp only [Parser.nextKind, bind_ok, get_ok, lift_ok, pure_ok]
  exact ⟨_, _, ⟨rfl, rfl⟩, _, _, ⟨htoken', rfl⟩, rfl, rfl⟩

theorem spanFrom_eq (h : C.SameReach s s') (start : Token) :
    s'.spanFrom (C.token start) = C.place.span (s.spanFrom start) := by
  have hstop : (C.token start).span.stop = C.place.stop start.span.stop := C.place.stop_span _
  rw [ParserState.spanFrom, ParserState.spanFrom, C.place.span_stop, hstop, h start.span.stop]
  rfl

/-- The place of a node. -/
theorem spanFrom {f : Span → Parser β} (start : Token)
    (hf : Mirrors C closed ⟨pending, true⟩ post s t P (f (C.place.span (s.spanFrom start))) v) :
    Mirrors C closed ⟨pending, true⟩ post s t P (Parser.spanFrom (C.token start) >>= f) v := by
  intro hfed
  obtain ⟨path, hmoves, hP, hrun⟩ := hf hfed
  refine ⟨path, hmoves, hP, fun hclosed htied => ?_⟩
  obtain ⟨t', hx, htied'⟩ := hrun hclosed htied
  exact ⟨t', bind_ok.2 ⟨_, _, spanFrom_iff.2 ⟨rfl, rfl⟩, spanFrom_eq (htied.2 rfl) start ▸ hx⟩, htied'⟩

theorem acceptNot {k : TokenKind} (hkind : s.current.kind ≠ k) (hfirm : k.isFirm = true) :
    Mirrors C closed ⟨false, keeps⟩ ⟨false, keeps⟩ s s (· = []) (accept k) false := by
  refine fun _ => ⟨[], .refl, rfl, fun {_ s'} _ htied => ⟨s', ?_, htied⟩⟩
  have hkind' : s'.current.kind ≠ k := fun h => hkind ((htied.near.matches.eq_iff hfirm).1 h)
  rw [accept_iff, if_neg hkind']
  exact ⟨rfl, rfl⟩

/-! ### Taking -/

/-- Something that takes the current token. -/
theorem taking (htake : Takes s t) (hfirm : s.current.kind.isFirm = true) (header : Bool)
    (hrun : ∀ {s' t'}, s'.current = C.token s.current → Takes s' t' → x.run s' = .ok (a, t')) :
    Mirrors C closed ⟨false, keeps⟩ ⟨Taken.isLoose ⟨s.current, header⟩, true⟩ s t (· = [⟨s.current, header⟩]) x a := by
  have hend := (TokenKind.ne_of_isFirm hfirm).2
  refine fun _ => ⟨[⟨s.current, header⟩], .take hend htake .refl, rfl, fun _ htied => ?_⟩
  obtain ⟨t', htake', htied'⟩ := htied.near.take rfl htake hend
  exact ⟨t', hrun (htied.near.current hfirm) htake', hfirm ▸ htied'⟩

theorem isLoose_of_isTight {token : Token} (h : token.kind.isTight = true) : Taken.isLoose ⟨token, false⟩ = false := by
  rw [TokenKind.isTight, Bool.and_eq_true, Bool.not_eq_true'] at h
  obtain ⟨hnewline, -⟩ := TokenKind.ne_of_isFirm h.1
  simp [Taken.isLoose, h.2, hnewline]

/-- A token that newlines do not follow. -/
theorem tight (htake : Takes s t) (htight : s.current.kind.isTight = true)
    (hrun : ∀ {s' t'}, s'.current = C.token s.current → Takes s' t' → x.run s' = .ok (a, t')) :
    Mirrors C closed ⟨false, keeps⟩ .alike s t (· = [⟨s.current, false⟩]) x a := by
  have htight' := Bool.and_eq_true_iff.1 htight
  have hmirrors : Mirrors C closed ⟨false, keeps⟩ ⟨Taken.isLoose ⟨s.current, false⟩, true⟩ s t
    (· = [⟨s.current, false⟩]) x a := taking htake htight'.1 false hrun
  rwa [isLoose_of_isTight htight] at hmirrors

/-- A token that newlines may follow. -/
theorem open' (htake : Takes s t) (hfirm : s.current.kind.isFirm = true) (header : Bool)
    (hrun : ∀ {s' t'}, s'.current = C.token s.current → Takes s' t' → x.run s' = .ok (a, t')) :
    Mirrors C closed ⟨false, keeps⟩ .apart s t (· = [⟨s.current, header⟩]) x a :=
  (taking htake hfirm header hrun).mono id id (fun h => by cases h) id

theorem advance_run {s' t' : ParserState} (hcurrent : s'.current = C.token s.current) (htake : Takes s' t') :
    Parser.advance.run s' = .ok (C.token s.current, t') :=
  advance_iff.2 ⟨hcurrent.symm, htake⟩

theorem expect_run {k : TokenKind} {construct : String} {s' t' : ParserState} (hkind : s.current.kind = k)
    (hcurrent : s'.current = C.token s.current) (htake : Takes s' t') :
    (expect k construct).run s' = .ok (C.token s.current, t') :=
  expect_iff.2 ⟨hcurrent.symm, by rw [hcurrent]; exact hkind, htake⟩

theorem accept_run {k : TokenKind} {s' t' : ParserState} (hkind : s.current.kind = k)
    (hcurrent : s'.current = C.token s.current) (htake : Takes s' t') : (accept k).run s' = .ok (true, t') := by
  have hkind' : s'.current.kind = k := by rw [hcurrent]; exact hkind
  rw [accept_iff, if_pos hkind']
  exact ⟨rfl, htake⟩

theorem advance (htake : Takes s t) (htight : s.current.kind.isTight = true) :
    Mirrors C closed ⟨false, keeps⟩ .alike s t (· = [⟨s.current, false⟩]) Parser.advance (C.token s.current) :=
  tight htake htight advance_run

theorem advanceOpen (header : Bool) (htake : Takes s t) (hfirm : s.current.kind.isFirm = true) :
    Mirrors C closed ⟨false, keeps⟩ .apart s t (· = [⟨s.current, header⟩]) Parser.advance (C.token s.current) :=
  open' htake hfirm header advance_run

variable {k : TokenKind} {construct : String}

theorem expect (hkind : s.current.kind = k) (htake : Takes s t) (htight : k.isTight = true) :
    Mirrors C closed ⟨false, keeps⟩ .alike s t (· = [⟨s.current, false⟩]) (Parser.expect k construct)
      (C.token s.current) :=
  tight htake (hkind ▸ htight) (expect_run hkind)

theorem expectOpen (header : Bool) (hkind : s.current.kind = k) (htake : Takes s t) (hfirm : k.isFirm = true) :
    Mirrors C closed ⟨false, keeps⟩ .apart s t (· = [⟨s.current, header⟩]) (Parser.expect k construct)
      (C.token s.current) :=
  open' htake (hkind ▸ hfirm) header (expect_run hkind)

/-- The parenthesis that may close the header of a statement. -/
theorem expectClosing (header : Bool) (hkind : s.current.kind = .rpar) (htake : Takes s t) :
    Mirrors C closed ⟨false, keeps⟩ ⟨header, true⟩ s t (· = [⟨s.current, header⟩]) (Parser.expect .rpar construct)
      (C.token s.current) := by
  have hloose : Taken.isLoose ⟨s.current, header⟩ = header := by cases header <;> simp [Taken.isLoose, hkind]; rfl
  have hmirrors : Mirrors C closed ⟨false, keeps⟩ ⟨Taken.isLoose ⟨s.current, header⟩, true⟩ s t
    (· = [⟨s.current, header⟩]) (Parser.expect .rpar construct) (C.token s.current) :=
    taking htake (hkind ▸ rfl) header (expect_run hkind)
  rwa [hloose] at hmirrors

theorem accept (hkind : s.current.kind = k) (htake : Takes s t) (htight : k.isTight = true) :
    Mirrors C closed ⟨false, keeps⟩ .alike s t (· = [⟨s.current, false⟩]) (Parser.accept k) true :=
  tight htake (hkind ▸ htight) (accept_run hkind)

theorem acceptOpen (hkind : s.current.kind = k) (htake : Takes s t) (hfirm : k.isFirm = true) :
    Mirrors C closed ⟨false, keeps⟩ .apart s t (· = [⟨s.current, false⟩]) (Parser.accept k) true :=
  open' htake (hkind ▸ hfirm) false (accept_run hkind)

theorem takeRegex {token : Token} (htake : TakesRegex s token t)
    (hslash : s.current.kind = .slash ∨ s.current.kind = .divAssign) :
    Mirrors C closed ⟨false, keeps⟩ .alike s t (· = [⟨token, false⟩]) Parser.takeRegex (C.token token) := by
  refine fun _ => ⟨[⟨token, false⟩], .regex hslash htake .refl, rfl, fun _ htied => ?_⟩
  obtain ⟨t', htake', htied'⟩ := htied.near.takeRegex htake hslash
  exact ⟨t', htake', htied'⟩

/-- A call is put on record. -/
theorem recordCall (token : Token) (given : Nat) :
    Mirrors C closed ⟨false, keeps⟩ ⟨false, keeps⟩ s { s with calls := (token, given) :: s.calls } (· = [])
      (modify fun s => { s with calls := (C.token token, given) :: s.calls }) PUnit.unit := by
  refine fun _ => ⟨[], .record .refl, rfl, fun {_ s'} _ htied => ⟨_, modify_ok.2 rfl, Correspondence.Near.tied ?_ htied.2⟩⟩
  exact htied.near.recorded htied.near.functions (by simp [htied.near.calls])

/-! ### Skipping -/

theorem skip {skipped : TokenKind → Bool} (hskipped : ∀ {k}, skipped k = true → k = .newline ∨ k = .semi)
    (hnewline : skipped .newline = true) (h : Skips skipped s t) (hstop : skipped t.current.kind = false)
    (hend : t.current.kind ≠ .eof) :
    Mirrors C closed ⟨pending, keeps⟩ .near s t (fun path => ∀ taken ∈ path, skipped taken.token.kind = true)
      (Parser.skip skipped) () := by
  obtain ⟨path, hmoves, hall, hrun⟩ := Correspondence.exists_skips_of_tied hskipped hnewline h
  refine fun _ => ⟨path, hmoves, hall, fun _ htied => ?_⟩
  obtain ⟨t', hskip, hnear⟩ := hrun (htied.mono (fun h => by cases h) (fun h => by cases h))
  have heof : skipped .eof = false := by
    rw [Bool.eq_false_iff]
    intro h
    rcases hskipped h with h | h <;> cases h
  exact ⟨t', skip_of_skips hskip (hnear.kind_eq hend ▸ hstop) heof, hnear.tied fun h => by cases h⟩

theorem skipNewlines (h : SkipsNewlines s t) (hfirm : t.current.kind.isFirm = true) :
    Mirrors C closed ⟨pending, keeps⟩ .near s t (fun path => ∀ taken ∈ path, (taken.token.kind == .newline) = true)
      Parser.skipNewlines () := by
  obtain ⟨hnewline, hend⟩ := TokenKind.ne_of_isFirm hfirm
  exact skip (fun hk => .inl (eq_of_beq hk)) rfl h (beq_false_of_ne hnewline) hend

theorem skipTerminators (h : SkipsTerminators s t) (hfirm : t.current.kind.isFirm = true)
    (hsemi : t.current.kind ≠ .semi) :
    Mirrors C closed ⟨pending, keeps⟩ .near s t
      (fun path => ∀ taken ∈ path, (taken.token.kind == .newline || taken.token.kind == .semi) = true)
      Parser.skipTerminators () := by
  obtain ⟨hnewline, hend⟩ := TokenKind.ne_of_isFirm hfirm
  refine skip (fun hk => ?_) rfl h ?_ hend
  · simpa using hk
  · simp [hnewline, hsemi]

end Mirrors

end Awk.Parser
