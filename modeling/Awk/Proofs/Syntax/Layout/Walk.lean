import Awk.Proofs.Syntax.Layout.Correspondence
import Awk.Proofs.Syntax.Layout.Texts

/-!
# Walks through two texts

A walk (`Cursor.Walk`) goes along a path in two texts, which have the same tokens in other places.  Newlines may stand in
the second text behind tokens that open something.  The tokens that cover a text make a walk to the same text in
another place (`Cursor.Covers.walk_moved`), and to a text that is changed behind them (`Cursor.Covers.walk_still`).
-/

namespace Awk

namespace Cursor

variable {place : Placement} {final : Cursor → Prop} {c c' m m' stop : Cursor} {tokens : List Token}
  {path path' : List Taken} {y w : Text}

/-- A path through two texts up to where the first one ends.  There the second one may be in any place that is final. -/
inductive Walk (place : Placement) (final : Cursor → Prop) : List Taken → Cursor → Cursor → Prop
  | done {c c' token behind} (htoken : c.token = .ok (token, behind)) (hend : token.kind = .eof) (hfinal : final c') :
    Walk place final [] c c'
  | token {c c' taken behind token' behind' stop path} (htoken : c.token = .ok (taken.token, behind))
    (hend : taken.token.kind ≠ .eof) (htoken' : c'.token = .ok (token', behind'))
    (hkind : token'.kind = taken.token.kind)
    (hsame : taken.token.kind.isFirm = true → token' = taken.token.placed place.span)
    (hnewlines : behind'.Newlines stop)
    (hopen : stop = behind' ∨ taken.token.kind.isOpen = true ∨ taken.token.kind = .newline ∨
      taken.header = true ∧ taken.token.kind = .rpar)
    (hmore : Walk place final path behind stop) : Walk place final (taken :: path) c c'
  | regex {c c' slash after after' taken behind behind' path} (hslash : c.token = .ok (slash, after))
    (hkind : slash.kind = .slash ∨ slash.kind = .divAssign)
    (hslash' : c'.token = .ok (slash.placed place.span, after'))
    (hregex : c.regex = .ok (taken.token, behind))
    (hregex' : c'.regex = .ok (taken.token.placed place.span, behind'))
    (hmore : Walk place final path behind behind') : Walk place final (taken :: path) c c'

/-- A cursor stands in a text. -/
structure Within (source : Text) (c : Cursor) : Prop where
  le : c.offset ≤ source.length
  eq : c = (ofText source).advance c.offset

namespace Within

variable {source : Text} {c m after behind : Cursor} {slash found : Token}

theorem ofText (source : Text) : Within source (ofText source) := ⟨Nat.zero_le _, rfl⟩

theorem rest (h : Within source c) : c.rest = source.drop c.offset := by
  conv_lhs => rw [h.eq]
  exact advance_rest _ _

theorem advance (h : Within source c) {n : Nat} (hn : n ≤ c.rest.length) : Within source (c.advance n) := by
  have hlength : c.rest.length = source.length - c.offset := by rw [h.rest, List.length_drop]
  have hle := h.le
  refine ⟨by rw [advance_offset hn]; omega, ?_⟩
  rw [advance_offset hn, advance_add, ← h.eq]

theorem skipBlanks (h : Within source c) : Within source c.skipBlanks := h.advance (Lexeme.blankLength_le _ _)

theorem token (h : Within source c) (htoken : c.token = .ok (found, behind)) : Within source behind := by
  obtain ⟨lexeme, hscan, -, rfl⟩ := token_iff.1 htoken
  exact h.skipBlanks.advance (Lexeme.length_of_scan hscan).1

theorem regex (h : Within source c) (hslash : c.token = .ok (slash, after))
    (hkind : slash.kind = .slash ∨ slash.kind = .divAssign) (hregex : c.regex = .ok (found, behind)) :
    Within source behind := by
  obtain ⟨lexeme, hscan, -, rfl⟩ := regex_iff.1 hregex
  exact h.skipBlanks.advance (regex_length hslash hkind hscan).2

theorem covers {tokens : List Token} (h : Within source c) (hcovers : c.Covers tokens m) : Within source m := by
  induction hcovers with
  | nil => exact h
  | token htoken hend hmore ih => exact ih (h.token htoken)
  | regex hslash hkind hregex hmore ih => exact ih (h.regex hslash hkind hregex)

end Within

theorem skipBlanks_newline {c : Cursor} {t : Text} (h : c.rest = '\n' :: t) : c.skipBlanks = c := by
  rw [skipBlanks, h, Lexeme.blankLength_newline, advance_zero]

/-- A line end is a token of its own. -/
theorem token_newline {c : Cursor} {t : Text} (h : c.skipBlanks.rest = '\n' :: t) :
    c.token = .ok (⟨.newline, ['\n'], c.skipBlanks.span 1⟩, c.skipBlanks.advance 1) :=
  token_iff.2 ⟨_, by rw [h]; rfl, rfl, rfl⟩

/-- And so is the end of the text. -/
theorem token_eof {c : Cursor} (h : c.skipBlanks.rest = []) :
    c.token = .ok (⟨.eof, [], c.skipBlanks.span 0⟩, c.skipBlanks) :=
  token_iff.2 ⟨_, by rw [h]; rfl, rfl, rfl⟩

theorem kind_of_regex {c behind : Cursor} {token : Token} (h : c.regex = .ok (token, behind)) : token.kind = .ere := by
  obtain ⟨lexeme, hscan, rfl, -⟩ := regex_iff.1 h
  unfold Lexeme.scanRegex at hscan
  split at hscan
  · cases hscan
    rfl
  · cases hscan

/-- What a regular expression is read as is not the token that stands there. -/
theorem ne_of_regex {c behind after behind' : Cursor} {slash token : Token} (hslash : c.token = .ok (slash, after))
    (hkind : slash.kind = .slash ∨ slash.kind = .divAssign) (hregex : c.regex = .ok (token, behind)) :
    c.token ≠ .ok (token, behind') := by
  intro htoken
  rw [hslash, Except.ok.injEq, Prod.mk.injEq] at htoken
  obtain ⟨rfl, -⟩ := htoken
  rw [kind_of_regex hregex] at hkind
  rcases hkind with hkind | hkind <;> cases hkind

end Cursor

namespace Parser

open Cursor

/-- A walk is a correspondence.  At its end there is a newline in the second text, or that ends as well. -/
def Correspondence.ofWalk (place : Placement) (final : Cursor → Prop)
    (hfinal : ∀ {c}, final c → ∃ token behind, c.token = .ok (token, behind) ∧ TokenKind.eof.Matches token.kind)
    (known : List (Text × Nat)) (earlier : List (Token × Nat)) : Correspondence where
  place := place
  known := known
  earlier := earlier
  meets := Walk place final
  read := by
    intro path c c' token behind h htoken
    cases h with
    | done htoken₁ hend hdone =>
      obtain ⟨token', behind', htoken', hmatches⟩ := hfinal hdone
      rw [htoken, Except.ok.injEq, Prod.mk.injEq] at htoken₁
      obtain ⟨rfl, rfl⟩ := htoken₁
      refine ⟨token', behind', htoken', hend ▸ hmatches, fun hfirm => ?_⟩
      rw [hend] at hfirm
      cases hfirm
    | token htoken₁ hend htoken' hkind hsame =>
      rw [htoken, Except.ok.injEq, Prod.mk.injEq] at htoken₁
      obtain ⟨rfl, rfl⟩ := htoken₁
      exact ⟨_, _, htoken', .inl hkind, hsame⟩
    | regex hslash hkind hslash' =>
      rw [htoken, Except.ok.injEq, Prod.mk.injEq] at hslash
      obtain ⟨rfl, rfl⟩ := hslash
      exact ⟨_, _, hslash', .inl rfl, fun _ => rfl⟩
  take := by
    intro taken path c c' behind token₁ behind₁ h htoken hne htoken₁
    cases h with
    | token htoken₂ hend htoken' hkind hsame hnewlines hopen hmore =>
      rw [htoken, Except.ok.injEq, Prod.mk.injEq] at htoken₂
      obtain ⟨-, rfl⟩ := htoken₂
      rw [htoken₁, Except.ok.injEq, Prod.mk.injEq] at htoken'
      obtain ⟨-, rfl⟩ := htoken'
      refine ⟨_, hnewlines, fun htight => hopen.resolve_right ?_, hmore⟩
      simp only [Taken.isLoose, Bool.or_eq_false_iff] at htight
      rintro (hopen | hnewline | ⟨hheader, -⟩)
      · rw [htight.1.2] at hopen
        cases hopen
      · rw [hnewline] at htight
        cases htight.2
      · rw [htight.1.1] at hheader
        cases hheader
    | regex hslash hkind hslash' hregex => exact absurd htoken (ne_of_regex hslash hkind hregex)
  regex := by
    intro taken path c c' slash after behind h hslash hkind hregex
    cases h with
    | token htoken => exact absurd htoken (ne_of_regex hslash hkind hregex)
    | regex _ _ _ hregex₁ hregex' hmore =>
      rw [hregex, Except.ok.injEq, Prod.mk.injEq] at hregex₁
      obtain ⟨-, rfl⟩ := hregex₁
      exact ⟨_, hregex', hmore⟩
  ahead := by
    intro path c c' token behind token₁ behind₁ h htoken hkind htoken₁
    cases h with
    | done htoken₂ hend =>
      rw [htoken, Except.ok.injEq, Prod.mk.injEq] at htoken₂
      obtain ⟨rfl, -⟩ := htoken₂
      rw [hend] at hkind
      rcases hkind with hkind | hkind | hkind <;> cases hkind
    | token htoken₂ hend htoken' _ _ _ hopen hmore =>
      rw [htoken, Except.ok.injEq, Prod.mk.injEq] at htoken₂
      obtain ⟨rfl, rfl⟩ := htoken₂
      rw [htoken₁, Except.ok.injEq, Prod.mk.injEq] at htoken'
      obtain ⟨-, rfl⟩ := htoken'
      rcases hopen with rfl | hopen | hnewline | ⟨-, hclose⟩
      · exact ⟨_, hmore⟩
      · rcases hkind with hkind | hkind | hkind <;> rw [hkind] at hopen <;> cases hopen
      · rcases hkind with hkind | hkind | hkind <;> rw [hkind] at hnewline <;> cases hnewline
      · rcases hkind with hkind | hkind | hkind <;> rw [hkind] at hclose <;> cases hclose
    | regex hslash hkind' =>
      rw [htoken, Except.ok.injEq, Prod.mk.injEq] at hslash
      obtain ⟨rfl, -⟩ := hslash
      rcases hkind with hkind | hkind | hkind <;> rw [hkind] at hkind' <;> rcases hkind' with h | h <;> cases h
  solid := by
    intro path c c' token behind token₁ behind₁ h hsolid htoken htoken₁
    cases h with
    | done =>
      obtain ⟨taken, hmem, -⟩ := hsolid
      cases hmem
    | token htoken₂ hend htoken' hkind _ hnewlines _ hmore =>
      rw [htoken, Except.ok.injEq, Prod.mk.injEq] at htoken₂
      obtain ⟨rfl, rfl⟩ := htoken₂
      rw [htoken₁, Except.ok.injEq, Prod.mk.injEq] at htoken'
      obtain ⟨rfl, rfl⟩ := htoken'
      refine ⟨hkind, fun hgap => ⟨_, _, ?_, hnewlines, hmore⟩⟩
      obtain ⟨taken, hmem, hne⟩ := hsolid
      rcases List.mem_cons.1 hmem with rfl | hmem
      · exact absurd hgap (not_or.2 hne)
      · exact ⟨taken, hmem, hne⟩
    | regex hslash hkind hslash' =>
      rw [htoken, Except.ok.injEq, Prod.mk.injEq] at hslash
      obtain ⟨rfl, -⟩ := hslash
      rw [htoken₁, Except.ok.injEq, Prod.mk.injEq] at hslash'
      obtain ⟨rfl, -⟩ := hslash'
      refine ⟨rfl, fun hgap => ?_⟩
      rcases hkind with hkind | hkind <;> rw [hkind] at hgap <;> rcases hgap with h | h <;> cases h

end Parser

/-! ### The tokens of a text -/

/-- Nothing but the end of the text follows. -/
def Cursor.AtEnd (c : Cursor) : Prop := ∃ token behind, c.token = .ok (token, behind) ∧ token.kind = .eof

theorem Cursor.AtEnd.kind_eq {c behind : Cursor} {token : Token} (h : c.AtEnd) (htoken : c.token = .ok (token, behind)) :
    token.kind = .eof := by
  obtain ⟨last, after, hlast, hkind⟩ := h
  rw [htoken, Except.ok.injEq, Prod.mk.injEq] at hlast
  exact hlast.1 ▸ hkind

/-- Nothing but newlines and the end of the text follows. -/
def Cursor.Ends (c : Cursor) : Prop := ∃ stop, c.Newlines stop ∧ stop.AtEnd

theorem Cursor.Ends.matches {c : Cursor} (h : c.Ends) :
    ∃ token behind, c.token = .ok (token, behind) ∧ TokenKind.eof.Matches token.kind := by
  obtain ⟨stop, hnewlines, token, behind, htoken, hend⟩ := h
  cases hnewlines with
  | refl => exact ⟨token, behind, htoken, .inl hend⟩
  | step hfirst hkind hmore => exact ⟨_, _, hfirst, .inr ⟨rfl, hkind⟩⟩

/-- With one newline more there is a first one. -/
theorem Cursor.Newlines.snoc {c m stop : Cursor} {token : Token} (h : c.Newlines m) (htoken : m.token = .ok (token, stop))
    (hkind : token.kind = .newline) :
    ∃ first behind, c.token = .ok (first, behind) ∧ first.kind = .newline ∧ behind.Newlines stop := by
  induction h with
  | refl => exact ⟨_, _, htoken, hkind, .refl⟩
  | step hfirst hkind' hmore ih =>
    obtain ⟨_, _, hsecond, hkind'', hstop⟩ := ih htoken
    exact ⟨_, _, hfirst, hkind', .step hsecond hkind'' hstop⟩

namespace Cursor.Covers

variable {place : Placement} {final : Cursor → Prop} {c c' m stop stop' : Cursor} {tokens tokens' : List Token}
  {path marked rest : List Taken} {source u y w : Text}

/-- Every token takes some text. -/
theorem length_le (h : c.Covers tokens stop) : tokens.length + stop.rest.length ≤ c.rest.length := by
  induction h with
  | nil => rw [List.length_nil, Nat.zero_add]
  | token htoken hend hmore ih =>
    have hlt := Parser.rest_lt_of_token htoken hend
    rw [List.length_cons]
    omega
  | @regex c slash after token behind tokens stop hslash hkind hregex hmore ih =>
    obtain ⟨lexeme, hscan, rfl, rfl⟩ := regex_iff.1 hregex
    obtain ⟨htwo, hle⟩ := regex_length hslash hkind hscan
    have hblank := Lexeme.blankLength_le false c.rest
    rw [advance_rest, List.length_drop] at ih
    rw [skipBlanks_rest, List.length_drop] at hle ih
    rw [List.length_cons]
    omega

/-- At the end of a text there are no tokens left. -/
theorem eq_nil_of_atEnd (h : c.Covers tokens stop) (hend : c.AtEnd) : tokens = [] ∧ stop = c := by
  cases h with
  | nil => exact ⟨rfl, rfl⟩
  | token htoken hne => exact absurd (hend.kind_eq htoken) hne
  | regex hslash hkind =>
    rw [hend.kind_eq hslash] at hkind
    rcases hkind with hkind | hkind <;> cases hkind

/-- Where a slash is taken, no regular expression is among the operands that begins there. -/
theorem ne_of_slash {slash token : Token} {after behind : Cursor} (hslash : c.token = .ok (slash, after))
    (hkind : slash.kind = .slash ∨ slash.kind = .divAssign) (hregex : c.regex = .ok (token, behind))
    (h : after.Covers tokens stop) : operandsOf (slash :: tokens) ≠ operandsOf (token :: tokens') := by
  intro heq
  obtain ⟨hstart, -, -⟩ := regex_extent hslash hkind hregex
  obtain ⟨-, -, hstop, hlt⟩ := token_extent hslash
  have hpos := hlt (by rcases hkind with hkind | hkind <;> rw [hkind] <;> decide)
  have hmark : slash.kind.isOperand = false := by rcases hkind with hkind | hkind <;> rw [hkind] <;> rfl
  have hmem : token ∈ operandsOf (slash :: tokens) := by
    rw [heq]
    exact List.mem_filter.2 ⟨List.mem_cons_self, by rw [kind_of_regex hregex]; rfl⟩
  rw [operandsOf, List.filter_cons_of_neg (by simp [hmark])] at hmem
  have hbehind := (h.bounds.2 token (List.mem_filter.1 hmem).1).1
  have hsame := congrArg Span.start hstart
  dsimp only at hsame
  omega

/-- The operands decide which tokens a text consists of. -/
theorem unique (h : c.Covers tokens stop) (h' : c.Covers tokens' stop') (hend : stop.AtEnd) (hend' : stop'.AtEnd)
    (hoperands : operandsOf tokens = operandsOf tokens') : tokens = tokens' ∧ stop = stop' := by
  have htail {token : Token} {tokens tokens' : List Token}
      (h : operandsOf (token :: tokens) = operandsOf (token :: tokens')) : operandsOf tokens = operandsOf tokens' :=
    List.append_cancel_left ((operandsOf_append [token] tokens).symm.trans (h.trans (operandsOf_append [token] tokens')))
  induction h generalizing tokens' with
  | nil =>
    obtain ⟨rfl, rfl⟩ := h'.eq_nil_of_atEnd hend
    exact ⟨rfl, rfl⟩
  | token htoken hne hmore ih =>
    cases h' with
    | nil => exact absurd (hend'.kind_eq htoken) hne
    | token htoken' hne' hmore' =>
      rw [htoken, Except.ok.injEq, Prod.mk.injEq] at htoken'
      obtain ⟨rfl, rfl⟩ := htoken'
      obtain ⟨rfl, rfl⟩ := ih hmore' hend (htail hoperands)
      exact ⟨rfl, rfl⟩
    | regex hslash hkind hregex hmore' =>
      rw [htoken, Except.ok.injEq, Prod.mk.injEq] at hslash
      obtain ⟨rfl, rfl⟩ := hslash
      exact absurd hoperands (ne_of_slash htoken hkind hregex hmore)
  | regex hslash hkind hregex hmore ih =>
    cases h' with
    | nil =>
      rw [hend'.kind_eq hslash] at hkind
      rcases hkind with hkind | hkind <;> cases hkind
    | token htoken' hne' hmore' =>
      rw [hslash, Except.ok.injEq, Prod.mk.injEq] at htoken'
      obtain ⟨rfl, rfl⟩ := htoken'
      exact absurd hoperands.symm (ne_of_slash hslash hkind hregex hmore')
    | regex hslash' hkind' hregex' hmore' =>
      rw [hregex, Except.ok.injEq, Prod.mk.injEq] at hregex'
      obtain ⟨rfl, rfl⟩ := hregex'
      obtain ⟨rfl, rfl⟩ := ih hmore' hend (htail hoperands)
      exact ⟨rfl, rfl⟩

/-- The tokens of a text stand in it wherever that is. -/
theorem walk_moved (h : c.Covers tokens stop) (hend : stop.AtEnd) (hmoved : Moved place.span c.skipBlanks c'.skipBlanks)
    (hfinal : ∀ {stop'}, Moved place.span stop.skipBlanks stop'.skipBlanks → final stop')
    (hpath : path.map Taken.token = tokens) : Walk place final path c c' := by
  induction h generalizing path c' with
  | nil =>
    obtain rfl := List.map_eq_nil_iff.1 hpath
    obtain ⟨token, behind, htoken, hkind⟩ := hend
    exact .done htoken hkind (hfinal hmoved)
  | token htoken hne hmore ih =>
    obtain ⟨taken, path, rfl, rfl, rfl⟩ := List.map_eq_cons_iff.1 hpath
    obtain ⟨token', behind', htoken', hkind, hsame, hmoved'⟩ := hmoved.token htoken
    exact .token htoken hne htoken' hkind (fun _ => hsame hne) .refl (.inl rfl) (ih hend hmoved'.skipBlanks hfinal rfl)
  | regex hslash hkind hregex hmore ih =>
    obtain ⟨taken, path, rfl, rfl, rfl⟩ := List.map_eq_cons_iff.1 hpath
    obtain ⟨slash', after', hslash', -, hsame, -⟩ := hmoved.token hslash
    obtain ⟨behind', hregex', hmoved'⟩ := hmoved.regex hslash hkind hregex
    have hne := hsame (by rcases hkind with hkind | hkind <;> rw [hkind] <;> decide)
    exact .regex hslash hkind (hne ▸ hslash') hregex hregex' (ih hend hmoved'.skipBlanks hfinal rfl)

/-- Newlines may be added where a line or the text ends. -/
theorem walk_newlines (h : c.Covers tokens stop) (hend : stop.AtEnd) (hnewlines : c'.Newlines m)
    (hline : m = c' ∨ ∀ d ∈ c.skipBlanks.rest.head?, d = '\n')
    (hmoved : Moved place.span c.skipBlanks m.skipBlanks) (hpath : path.map Taken.token = tokens) :
    Walk place Cursor.Ends path c c' := by
  have hfinal {c m : Cursor} (hend : c.AtEnd) (hmoved : Moved place.span c.skipBlanks m.skipBlanks) : m.AtEnd := by
    obtain ⟨token, behind, htoken, hkind⟩ := hend
    obtain ⟨token', behind', htoken', hkind', -⟩ := hmoved.token htoken
    exact ⟨token', behind', htoken', hkind'.trans hkind⟩
  have hends {m : Cursor} (hmoved : Moved place.span stop.skipBlanks m.skipBlanks) : m.Ends :=
    ⟨m, .refl, hfinal hend hmoved⟩
  rcases hline with rfl | hline
  · exact h.walk_moved hend hmoved hends hpath
  cases hrest : c.skipBlanks.rest with
  | nil =>
    have hatEnd : c.AtEnd := ⟨_, _, token_eof hrest, rfl⟩
    obtain ⟨rfl, rfl⟩ := h.eq_nil_of_atEnd hatEnd
    obtain rfl := List.map_eq_nil_iff.1 hpath
    exact .done (token_eof hrest) rfl ⟨m, hnewlines, hfinal hatEnd hmoved⟩
  | cons d t =>
    obtain rfl : d = '\n' := hline d (by rw [hrest]; rfl)
    have hnewline := token_newline hrest
    cases h with
    | nil => cases hend.kind_eq hnewline
    | token htoken hne hcovers =>
      rw [hnewline, Except.ok.injEq, Prod.mk.injEq] at htoken
      obtain ⟨rfl, rfl⟩ := htoken
      obtain ⟨taken, path, rfl, htaken, rfl⟩ := List.map_eq_cons_iff.1 hpath
      obtain ⟨token', behind', htoken', hkind', -, hmoved'⟩ := hmoved.token hnewline
      have hmore : Walk place Cursor.Ends path _ behind' := hcovers.walk_moved hend hmoved'.skipBlanks hends rfl
      obtain ⟨first, after, hfirst, hkind, hall⟩ := hnewlines.snoc htoken' hkind'
      refine .token (htaken ▸ hnewline) (htaken ▸ hne) hfirst (by rw [hkind, htaken]) (fun hfirm => ?_) hall
        (.inr (.inr (.inl (by rw [htaken])))) hmore
      rw [htaken] at hfirm
      cases hfirm
    | regex hslash hkind =>
      rw [hnewline, Except.ok.injEq, Prod.mk.injEq] at hslash
      rw [← hslash.1] at hkind
      rcases hkind with hkind | hkind <;> cases hkind

/-- The tokens in front of a place where the text changes stand where they did, if the new text closes none of the
classes that regular expressions leave open. -/
theorem walk_still (h : c.Covers tokens m) (hstill : Still place.span u y w c c') (hw : Breaks w)
    (hle : y.length ≤ m.rest.length)
    (hcall : ∀ last ∈ tokens.getLast?, last.kind = .funcName → y.length < m.rest.length)
    (hwithin : c.Within source)
    (hopen : ∀ token ∈ tokens, token.kind = .ere → ∀ mark ∈ Lexeme.openMarks false (token.inner source),
      ∀ v, Text.find? [mark, ']'] (v ++ y) = none → Text.find? [mark, ']'] (v ++ w) = none)
    (hmarked : marked.map Taken.token = tokens)
    (hmore : ∀ {u' m'}, Still place.span u' y w m m' → Walk place final rest m m') :
    Walk place final (marked ++ rest) c c' := by
  have htail {taken : Taken} {marked : List Taken} {last : Token} (hlast : last ∈ (marked.map Taken.token).getLast?) :
      last ∈ ((taken :: marked).map Taken.token).getLast? := by
    rw [List.map_cons, List.getLast?_cons, Option.mem_def.1 hlast]
    rfl
  induction h generalizing u c' marked with
  | nil =>
    obtain rfl := List.map_eq_nil_iff.1 hmarked
    exact hmore hstill
  | @token c token behind tokens m htoken hne hcovers ih =>
    obtain ⟨taken, marked, rfl, rfl, rfl⟩ := List.map_eq_cons_iff.1 hmarked
    have hlength := hcovers.length_le
    obtain ⟨behind', u', htoken', hsame, hstill', -⟩ := hstill.token hw htoken hne (by omega) fun hkind => by
      cases marked with
      | nil =>
        have hlt := hcall taken.token rfl hkind
        omega
      | cons next marked =>
        rw [List.map_cons, List.length_cons] at hlength
        omega
    refine .token htoken hne htoken' rfl (fun _ => hsame.symm) .refl (.inl rfl) ?_
    exact ih hstill' hle (fun last hlast => hcall last (htail hlast)) (hwithin.token htoken)
      (fun found hfound => hopen found (List.mem_cons_of_mem _ hfound)) rfl hmore
  | @regex c slash after token behind tokens m hslash hkind hregex hcovers ih =>
    obtain ⟨taken, marked, rfl, rfl, rfl⟩ := List.map_eq_cons_iff.1 hmarked
    have hlength := hcovers.length_le
    obtain ⟨after', behind', u', hslash', hplaced, hregex', hsame, hstill'⟩ := hstill.regex hw hslash hkind hregex
      (by omega) hwithin.skipBlanks.rest (hopen _ List.mem_cons_self (kind_of_regex hregex))
    refine .regex hslash hkind (hplaced.symm ▸ hslash') hregex (hsame.symm ▸ hregex') ?_
    exact ih hstill' hle (fun last hlast => hcall last (htail hlast)) (hwithin.regex hslash hkind hregex)
      (fun found hfound => hopen found (List.mem_cons_of_mem _ hfound)) rfl hmore

end Cursor.Covers

end Awk
