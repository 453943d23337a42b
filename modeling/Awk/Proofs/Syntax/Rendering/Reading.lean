import Awk.Proofs.Syntax.Rendering.Expr
import Awk.Proofs.Syntax.Rendering.Forms

/-!
# Reading a piece

What a piece may begin with, what may follow it, and what the parser then makes of its words (`Piece.Accepted`).
Operands and variables are expressions of every level that the next token does not belong to.
-/

namespace Awk

open Awk.Parser

/-! ### What may stand behind a piece -/

/-- No expression goes on with a token of this kind. -/
def TokenKind.Ends (k : TokenKind) : Prop := k = .rpar ∨ k = .rsqb ∨ k = .comma ∨ k = .colon ∨ k = .eof

instance : DecidablePred TokenKind.Ends := fun k =>
  inferInstanceAs (Decidable (k = .rpar ∨ k = .rsqb ∨ k = .comma ∨ k = .colon ∨ k = .eof))

theorem TokenKind.Ends.ne {k k' : TokenKind} (h : k.Ends) (hk' : ¬k'.Ends) : k ≠ k' := by
  rintro rfl
  exact hk' h

theorem TokenKind.Ends.compareOp?_eq_none {k : TokenKind} (h : k.Ends) : CompareOp.ofKind? k = none := by
  rcases h with rfl | rfl | rfl | rfl | rfl <;> rfl

/-- A token of this kind belongs neither to an operand of a level nor to a variable at its end. -/
structure Level.EndsAt (lvl : Level) (k : TokenKind) : Prop where
  bracket : k ≠ .lsqb
  regex : k ≠ .ere
  between : ∀ l : Level, lvl.index ≤ l.index → l.continuedBy k = false

theorem TokenKind.Ends.endsAt {k : TokenKind} (h : k.Ends) (lvl : Level) : lvl.EndsAt k := by
  rcases h with rfl | rfl | rfl | rfl | rfl
  all_goals exact ⟨TokenKind.noConfusion, TokenKind.noConfusion, fun l _ => by cases l <;> rfl⟩

/-- A token goes on with expressions of one level only, unless it is a step: that is a part of a concatenation too. -/
theorem Level.continuedBy_tighter {l outer : Level} {k : TokenKind} (h : outer.continuedBy k = true)
    (houter : outer ≠ .concatenation) (hlt : outer.index < l.index) : l.continuedBy k = false := by
  cases k <;> cases outer <;>
    first
    | cases h; done
    | exact absurd rfl houter
    | cases l <;> first | rfl | exact absurd hlt (by decide)

/-- An operator ends the operands of tighter levels. -/
theorem Level.endsAt_of_continuedBy {lvl outer : Level} {k : TokenKind} (h : outer.continuedBy k = true)
    (houter : outer ≠ .concatenation) (hlt : outer.index < lvl.index) : lvl.EndsAt k where
  bracket := by
    rintro rfl
    cases outer <;> cases h
  regex := by
    rintro rfl
    cases outer <;> cases h
  between _ hle := continuedBy_tighter h houter (hlt.trans_le hle)

/-! ### What a piece begins with -/

/-- The kinds of tokens that a piece may begin with. -/
def Piece.Opens : Piece → TokenKind → Prop
  | operand, k | parts, k => k = .number ∨ k = .string ∨ k = .name ∨ k = .lpar
  | lvalue, k => k = .name ∨ k = .dollar
  | whole, k | items, k => k ≠ .newline ∧ k ≠ .rpar ∧ k ≠ .eof
  | target, _ => True

section Opens

variable {k : TokenKind}

theorem SignOp.kind_cases {op : SignOp} (h : ofKind? k = some op) : k = .minus ∨ k = .plus ∨ k = .not := by
  cases k <;> first | exact .inl rfl | exact .inr (.inl rfl) | exact .inr (.inr rfl) | cases h

theorem StepOp.kind_cases {op : StepOp} (h : ofKind? k = some op) : k = .incr ∨ k = .decr := by
  cases k <;> first | exact .inl rfl | exact .inr rfl | cases h

theorem Level.openedBy_eq_false (hsign : SignOp.ofKind? k = none) (hstep : StepOp.ofKind? k = none) (l : Level) :
    l.openedBy k = false := by
  cases l with
  | sign => simp [openedBy, hsign]
  | step => simp [openedBy, hstep]
  | _ => rfl

theorem Piece.Opens.signOp?_eq_none (h : Piece.operand.Opens k) : SignOp.ofKind? k = none := by
  rcases h with rfl | rfl | rfl | rfl <;> rfl

theorem Piece.Opens.stepOp?_eq_none (h : Piece.operand.Opens k) : StepOp.ofKind? k = none := by
  rcases h with rfl | rfl | rfl | rfl <;> rfl

theorem Piece.Opens.openedBy (h : Piece.operand.Opens k) (l : Level) : l.openedBy k = false :=
  l.openedBy_eq_false h.signOp?_eq_none h.stepOp?_eq_none

theorem Piece.Opens.endsAt (h : Piece.parts.Opens k) : Level.sum.EndsAt k where
  bracket := by rcases h with rfl | rfl | rfl | rfl <;> exact TokenKind.noConfusion
  regex := by rcases h with rfl | rfl | rfl | rfl <;> exact TokenKind.noConfusion
  between l hl := by
    rcases h with rfl | rfl | rfl | rfl <;> cases l <;> first | rfl | exact absurd hl (by decide)

theorem Piece.Opens.startsPart (h : Piece.parts.Opens k) : startsPart k = true := by
  rcases h with rfl | rfl | rfl | rfl <;> rfl

theorem Piece.Opens.whole_of_operand (h : Piece.operand.Opens k) : Piece.whole.Opens k := by
  rcases h with rfl | rfl | rfl | rfl <;> exact ⟨TokenKind.noConfusion, TokenKind.noConfusion, TokenKind.noConfusion⟩

theorem Piece.Opens.whole_of_lvalue (h : Piece.lvalue.Opens k) : Piece.whole.Opens k := by
  rcases h with rfl | rfl <;> exact ⟨TokenKind.noConfusion, TokenKind.noConfusion, TokenKind.noConfusion⟩

theorem Piece.Opens.stepOp?_eq_none_of_lvalue (h : Piece.lvalue.Opens k) : StepOp.ofKind? k = none := by
  rcases h with rfl | rfl <;> rfl

theorem Piece.Opens.openedBy_of_lvalue (h : Piece.lvalue.Opens k) (l : Level) : l.openedBy k = false := by
  rcases h with rfl | rfl <;> exact l.openedBy_eq_false rfl rfl

end Opens

/-! ### Reading a piece -/

variable {s s' : ParserState} {rest words words' words'' : List Word} {c : Nat}

theorem Level.EndsAt.mono {lvl lvl' : Level} {k : TokenKind} (h : lvl.EndsAt k) (hle : lvl.index ≤ lvl'.index) :
    lvl'.EndsAt k :=
  ⟨h.bracket, h.regex, fun l hl => h.between l (hle.trans hl)⟩

theorem Piece.Opens.exists_cons {x : Piece} (hx : x ≠ .target) (h : x.Opens (next words)) :
    ∃ w ws, words = w :: ws ∧ x.Opens w.kind := by
  cases words with
  | cons w ws => exact ⟨w, ws, rfl, h⟩
  | nil =>
    cases x with
    | target => exact absurd rfl hx
    | whole | items => exact absurd rfl h.2.2
    | operand | parts => rcases h with h | h | h | h <;> cases h
    | lvalue => rcases h with h | h <;> cases h

theorem Piece.Opens.append {x : Piece} (hx : x ≠ .target) (h : x.Opens (next words)) (rest : List Word) :
    x.Opens (next (words ++ rest)) := by
  obtain ⟨w, ws, rfl, hw⟩ := h.exists_cons hx
  exact hw

/-- The current token is one that the piece may begin with. -/
theorem Piece.Opens.current {x : Piece} (hx : x ≠ .target) (h : x.Opens (next words)) (hat : At s (words ++ rest)) :
    x.Opens s.current.kind := by
  obtain ⟨w, ws, rfl, hw⟩ := h.exists_cons hx
  by_cases hregex : w.kind = .ere
  · obtain ⟨body, value, rfl⟩ := hat.laid.exists_slashed hregex
    -- A regular expression is a slash to the parser until it asks for one.
    have hslash := hat.takesRegex.1
    cases x with
    | target => exact absurd rfl hx
    | whole | items =>
      rcases hslash with hslash | hslash
      all_goals
        rw [hslash]
        exact ⟨TokenKind.noConfusion, TokenKind.noConfusion, TokenKind.noConfusion⟩
    | operand | parts => rcases hw with hw | hw | hw | hw <;> cases hw
    | lvalue => rcases hw with hw | hw <;> cases hw
  · rw [(hat.takes hregex).1]
    exact hw

/-- The parser reads something of the shape of `a` and comes to where more words are laid out. -/
def Restores {α : Type} (shape : α → Except Fault α) (cost : Nat) (p : Nat → Parser α) (s : ParserState) (a : α)
    (rest : List Word) : Prop :=
  ∃ a' s', Costs cost p s a' s' ∧ At s' rest ∧ shape a' = shape a

/-- The parser reads a list by its first element and the others. -/
def RestoresList (cost : Nat) (p : Nat → Parser Expr) (more : Nat → Parser (List Expr)) (s : ParserState)
    (es : List Expr) (rest : List Word) : Prop :=
  ∃ e' es' s₁ s', Costs cost p s e' s₁ ∧ Costs cost more s₁ es' s' ∧ At s' rest ∧
    shapeAll (e' :: es') = shapeAll es ∧ (e' :: es').length = es.length

/-- The kinds of tokens that may follow a piece. -/
def Piece.EndsAt : Piece → TokenKind → Prop
  | operand, k | lvalue, k => Level.primary.EndsAt k
  | whole, k | parts, k => k.Ends
  | items, k => k = .rpar ∨ k = .rsqb
  | target, k => k.Ends ∨ k = .lt

/-- What the parser makes of the words of a piece.  A word pays for 32 units of fuel, which is more than there are
levels on the way to the next pair of parentheses. -/
def Piece.Restored : (x : Piece) → x.Value → List Word → ParserState → List Word → Prop
  | operand, e, words, s, rest => Restores Expr.shape (32 * words.length + 1) primary s e rest
  | lvalue, v, words, s, rest => Restores LValue.shape (32 * words.length) Parser.lvalue s v rest
  | whole, e, words, s, rest => Restores Expr.shape (32 * words.length + 60) (level · .assignment false) s e rest
  | items, es, words, s, rest =>
    RestoresList (32 * words.length + 60) (level · .assignment false) (moreItems · false) s es rest
  | parts, es, words, s, rest =>
    RestoresList (32 * words.length + 28) (level · .sum false) (Parser.parts · false) s es rest
  | target, v, words, s, rest => Restores shapeTarget (32 * words.length + 1) getlineTarget s v rest

/-- The words of a piece are read as a piece of the same shape wherever they are laid out. -/
structure Piece.Accepted (x : Piece) (v : x.Value) (words : List Word) : Prop where
  opens : x.Opens (next words)
  restored : ∀ {s rest}, At s (words ++ rest) → x.EndsAt (next rest) → x.Restored v words s rest

section Level

variable {e : Expr} {target : LValue} {lvl : Level}

theorem At.ends (h : At s rest) (hend : (next rest).Ends) : s.current.kind.Ends := by
  rw [h.kind_eq (hend.endsAt .primary).regex]
  exact hend

/-- An expression of any level is one of the loosest where nothing goes on with it. -/
theorem Parser.Costs.whole (h : Costs c (level · lvl false) s e s') (hc : 1 ≤ c) (hend : s'.current.kind.Ends)
    (hopen : ∀ l : Level, l.index < lvl.index → l.openedBy s.current.kind = false) :
    Costs (c + 26) (level · .assignment false) s e s' :=
  h.loosen (Nat.zero_le _) hc fun l _ hl => ⟨(hend.endsAt l).between l le_rfl, hopen l hl⟩

/-- What is read by `primary` is an expression of every level that the next token does not belong to. -/
theorem Parser.Costs.level_of_primary (h : Costs c primary s e s') (hat : At s' rest) (hend : lvl.EndsAt (next rest))
    (hopen : ∀ l : Level, l.openedBy s.current.kind = false) : Costs (c + 27) (level · lvl false) s e s' := by
  have hkind := hat.kind_eq hend.regex
  refine ((level_primary h).loosen lvl.index_le (Nat.le_add_left 1 c) fun l hl _ => ?_).mono (by omega)
  rw [hkind]
  exact ⟨hend.between l hl, hopen l⟩

theorem Piece.Accepted.level (h : Piece.operand.Accepted e words) (hat : At s (words ++ rest))
    (hend : lvl.EndsAt (next rest)) :
    Restores Expr.shape (32 * words.length + 28) (level · lvl false) s e rest := by
  obtain ⟨e', s', hprimary, hat', hshape⟩ := h.restored hat (hend.mono lvl.index_le)
  have hopens := h.opens.current Piece.noConfusion hat
  exact ⟨e', s', hprimary.level_of_primary hat' hend hopens.openedBy, hat', hshape⟩

theorem Piece.Accepted.lvalue_level (h : Piece.lvalue.Accepted target words) (hat : At s (words ++ rest))
    (hend : lvl.EndsAt (next rest)) : ∃ target' s',
      Costs (32 * words.length + 28) (Parser.level · lvl false) s (.lvalue target') s' ∧ At s' rest ∧
        target'.shape = target.shape := by
  obtain ⟨target', s', hlvalue, hat', hshape⟩ := h.restored hat (hend.mono lvl.index_le)
  have hopens := h.opens.current Piece.noConfusion hat
  have hprimary := primary_lvalue hlvalue
  refine ⟨target', s', ?_, hat', hshape⟩
  exact hprimary.level_of_primary hat' hend hopens.openedBy_of_lvalue

end Level

end Awk
