import Awk.Proofs.Syntax.Rendering.Reading

/-!
# Rendered expressions are read back

From where the words of a piece are laid out the parser reads a piece of the same shape, whatever follows that cannot
belong to it, and stops behind the words (`Renders.accepted`).  There is one lemma for each rule of the rendering.
-/

namespace Awk

open Awk.Parser

variable {s s' : ParserState} {rest words words' words'' : List Word} {token : Token} {e left right : Expr}
  {es : List Expr} {target : LValue} {span span' : Span}

theorem At.takesToken {k : TokenKind} (h : At s (token.word :: words)) (hkind : token.kind = k) (hregex : k ≠ .ere) :
    s.current.kind = k ∧ s.current.unplaced = token.unplaced ∧ ∃ s', Takes s s' ∧ At s' words := by
  subst hkind
  obtain ⟨hkind, htext, htakes⟩ := h.takes hregex
  exact ⟨hkind, Token.unplaced_eq hkind htext, htakes⟩

/-! ### Operands -/

theorem accepted_number (hkind : token.kind = .number) : Piece.operand.Accepted (.number token) [token.word] where
  opens := .inl hkind
  restored {s rest} hat hend := by
    have hregex : token.kind ≠ .ere := by rw [hkind]; exact TokenKind.noConfusion
    obtain ⟨hcurrent, htext, s', htake, hat'⟩ := hat.takes hregex
    have hshape : (Expr.number s.current).shape = (Expr.number token).shape := by
      rw [shape_number, shape_number, htext]
      rfl
    exact ⟨_, s', (primary_number (hcurrent.trans hkind) htake).mono (by simp), hat', hshape⟩

theorem accepted_string : Piece.operand.Accepted (.string token) [.quoted token.text] where
  opens := .inr (.inl rfl)
  restored {s rest} hat hend := by
    obtain ⟨hcurrent, htext, s', htake, hat'⟩ := hat.takes TokenKind.noConfusion
    have hshape : (Expr.string s.current).shape = (Expr.string token).shape := by
      rw [shape_string, shape_string, htext]
      rfl
    exact ⟨_, s', (primary_string hcurrent htake).mono (by simp), hat', hshape⟩

theorem accepted_group (he : Piece.whole.Accepted e words) :
    Piece.operand.Accepted e (.lpar :: words ++ [.rpar]) where
  opens := .inr (.inr (.inr rfl))
  restored {s rest} hat hend := by
    rw [List.cons_append, List.cons_append, List.append_assoc, List.singleton_append] at hat
    obtain ⟨hopen, -, s₁, htake, hat₁⟩ := hat.takes TokenKind.noConfusion
    obtain ⟨e', s₂, hinner, hat₂, hshape⟩ := he.restored hat₁ (.inl rfl)
    obtain ⟨hclose, -, s', htake', hat'⟩ := hat₂.takes TokenKind.noConfusion
    refine ⟨_, s', (primary_group hopen htake hinner hclose htake').mono ?_, hat', ?_⟩
    · simp only [List.length_append, List.length_cons, List.length_nil]
      omega
    · rw [shape_group, hshape]

/-! ### Variables, elements and fields -/

theorem accepted_name (hkind : token.kind = .name) : Piece.lvalue.Accepted (.var token) [token.word] where
  opens := .inl hkind
  restored {s rest} hat hend := by
    obtain ⟨hcurrent, htoken, s', htake, hat'⟩ := hat.takesToken hkind TokenKind.noConfusion
    have hfollow : s'.current.kind ≠ .lsqb := by
      rw [hat'.kind_eq hend.regex]
      exact hend.bracket
    refine ⟨_, s', (lvalue_var hcurrent htake hfollow).mono (by simp), hat', ?_⟩
    rw [shape_var, shape_var, htoken]

theorem accepted_index (hkind : token.kind = .name) (hsubs : Piece.items.Accepted es words) :
    Piece.lvalue.Accepted (.index span token es span') (token.word :: .lsqb :: words ++ [.rsqb]) where
  opens := .inl hkind
  restored {s rest} hat hend := by
    simp only [List.cons_append, List.append_assoc, List.nil_append] at hat
    obtain ⟨hcurrent, htoken, s₁, htake, hat₁⟩ := hat.takesToken hkind TokenKind.noConfusion
    obtain ⟨hopen, -, s₂, htake', hat₂⟩ := hat₁.takes TokenKind.noConfusion
    obtain ⟨first, more, s₃, s₄, hfirst, hmore, hat₄, hshapes, -⟩ := hsubs.restored hat₂ (.inr rfl)
    obtain ⟨hclose, -, s', htake'', hat'⟩ := hat₄.takes TokenKind.noConfusion
    have hread := lvalue_index hcurrent htake hopen htake' (subscripts_items hfirst hmore hclose htake'')
    refine ⟨_, s', hread.mono ?_, hat', ?_⟩
    · simp only [List.length_append, List.length_cons, List.length_nil]
      omega
    · rw [shape_index, shape_index, hshapes, htoken]

theorem accepted_field (he : Piece.operand.Accepted e words) :
    Piece.lvalue.Accepted (.field span e) (.dollar :: words) where
  opens := .inr rfl
  restored {s rest} hat hend := by
    obtain ⟨hcurrent, -, s₁, htake, hat₁⟩ := hat.takes TokenKind.noConfusion
    obtain ⟨e', s', hprimary, hat', hshape⟩ := he.restored hat₁ hend
    have hopens := he.opens.current Piece.noConfusion hat₁
    have hsigned := signed_of_level hopens.signOp?_eq_none (level_primary hprimary)
    refine ⟨_, s', (lvalue_field hcurrent htake hopens.stepOp?_eq_none hsigned).mono ?_, hat', ?_⟩
    · simp only [List.length_cons]
      omega
    · rw [shape_field, shape_field, hshape]

theorem accepted_of_lvalue (h : Piece.lvalue.Accepted target words) (hopens : Piece.operand.Opens (next words)) :
    Piece.operand.Accepted (.lvalue target) words where
  opens := hopens
  restored {s rest} hat hend := by
    obtain ⟨target', s', hlvalue, hat', hshape⟩ := h.restored hat hend
    refine ⟨_, s', primary_lvalue hlvalue, hat', ?_⟩
    rw [shape_lvalue, shape_lvalue, hshape]

/-! ### Lists -/

theorem accepted_item (he : Piece.whole.Accepted e words) : Piece.items.Accepted [e] words where
  opens := he.opens
  restored {s rest} hat hend := by
    have hends : (next rest).Ends := by
      rcases hend with hend | hend
      · exact .inl hend
      · exact .inr (.inl hend)
    obtain ⟨e', s', hread, hat', hshape⟩ := he.restored hat hends
    have hcomma : s'.current.kind ≠ .comma := by
      rw [hat'.kind_eq (hends.endsAt .primary).regex]
      rcases hend with hend | hend <;> rw [hend] <;> exact TokenKind.noConfusion
    refine ⟨e', [], s', s', hread, (moreItems_none hcomma).mono (by omega), hat', ?_, rfl⟩
    rw [shapeAll_cons, shapeAll_cons, hshape]

theorem accepted_items (he : Piece.whole.Accepted e words) (hes : Piece.items.Accepted es words') :
    Piece.items.Accepted (e :: es) (words ++ .comma :: words') where
  opens := he.opens.append Piece.noConfusion _
  restored {s rest} hat hend := by
    rw [List.append_assoc, List.cons_append] at hat
    obtain ⟨e', s₁, hread, hat₁, hshape⟩ := he.restored hat (.inr (.inr (.inl rfl)))
    obtain ⟨hcomma, -, s₂, htake, hat₂⟩ := hat₁.takes TokenKind.noConfusion
    have hline := (hes.opens.current Piece.noConfusion hat₂).1
    obtain ⟨first, more, s₃, s', hfirst, hmore, hat', hshapes, hlength⟩ := hes.restored hat₂ hend
    have hrest := moreItems_cons hcomma htake hline hfirst hmore
    refine ⟨e', first :: more, s₁, s', hread.mono ?_, hrest.mono ?_, hat', ?_, ?_⟩
    · simp only [List.length_append, List.length_cons]
      omega
    · simp only [List.length_append, List.length_cons]
      omega
    · rw [shapeAll_cons, hshape, hshapes, ← shapeAll_cons]
    · rw [List.length_cons, hlength, List.length_cons]

theorem accepted_part (he : Piece.operand.Accepted e words) : Piece.parts.Accepted [e] words where
  opens := he.opens
  restored {s rest} hat hend := by
    obtain ⟨e', s', hread, hat', hshape⟩ := he.level hat (hend.endsAt .sum)
    have hlast : startsPart s'.current.kind = false := by
      rw [hat'.kind_eq (hend.endsAt .primary).regex]
      exact (hend.endsAt .concatenation).between .concatenation le_rfl
    refine ⟨e', [], s', s', hread, (parts_none hlast).mono (by omega), hat', ?_, rfl⟩
    rw [shapeAll_cons, shapeAll_cons, hshape]

theorem accepted_parts (he : Piece.operand.Accepted e words) (hes : Piece.parts.Accepted es words') :
    Piece.parts.Accepted (e :: es) (words ++ words') where
  opens := he.opens.append Piece.noConfusion _
  restored {s rest} hat hend := by
    rw [List.append_assoc] at hat
    have hnext : Piece.parts.Opens (next (words' ++ rest)) := hes.opens.append Piece.noConfusion rest
    obtain ⟨e', s₁, hread, hat₁, hshape⟩ := he.level hat hnext.endsAt
    have hstart := (hes.opens.current Piece.noConfusion hat₁).startsPart
    obtain ⟨first, more, s₂, s', hfirst, hmore, hat', hshapes, hlength⟩ := hes.restored hat₁ hend
    have hrest := parts_cons hstart hfirst hmore
    obtain ⟨w, ws, rfl, -⟩ := he.opens.exists_cons Piece.noConfusion
    refine ⟨e', first :: more, s₁, s', hread.mono ?_, hrest.mono ?_, hat', ?_, ?_⟩
    · simp only [List.length_append, List.length_cons]
      omega
    · simp only [List.length_append, List.length_cons]
      omega
    · rw [shapeAll_cons, hshape, hshapes, ← shapeAll_cons]
    · rw [List.length_cons, hlength, List.length_cons]

theorem accepted_noTarget : Piece.target.Accepted none [] where
  opens := trivial
  restored {s rest} hat hend := by
    have hnext : next rest ≠ .ere ∧ next rest ≠ .name ∧ next rest ≠ .dollar := by
      rcases hend with (hend | hend | hend | hend | hend) | hend
      all_goals
        rw [hend]
        exact ⟨TokenKind.noConfusion, TokenKind.noConfusion, TokenKind.noConfusion⟩
    have hkind := hat.kind_eq hnext.1
    rw [List.nil_append] at hkind
    rw [← hkind] at hnext
    exact ⟨none, s, getlineTarget_none hnext.2.1 hnext.2.2, hat, rfl⟩

theorem accepted_target (h : Piece.lvalue.Accepted target words) : Piece.target.Accepted (some target) words where
  opens := trivial
  restored {s rest} hat hend := by
    have hfollow : Level.primary.EndsAt (next rest) := by
      rcases hend with hend | hend
      · exact hend.endsAt .primary
      · have hless : Level.comparison.continuedBy .lt = true := rfl
        rw [hend]
        exact Level.endsAt_of_continuedBy hless Level.noConfusion (by decide)
    obtain ⟨target', s', hlvalue, hat', hshape⟩ := h.restored hat hfollow
    refine ⟨some target', s', getlineTarget_some hlvalue, hat', ?_⟩
    rw [shapeTarget_some, shapeTarget_some, hshape]

/-! ### Expressions without operators -/

theorem accepted_of_operand (h : Piece.operand.Accepted e words) : Piece.whole.Accepted e words where
  opens := h.opens.whole_of_operand
  restored {s rest} hat hend := by
    obtain ⟨e', s', hread, hat', hshape⟩ := h.level hat (hend.endsAt .assignment)
    exact ⟨e', s', hread.mono (by omega), hat', hshape⟩

theorem accepted_whole_lvalue (h : Piece.lvalue.Accepted target words) :
    Piece.whole.Accepted (.lvalue target) words where
  opens := h.opens.whole_of_lvalue
  restored {s rest} hat hend := by
    obtain ⟨target', s', hread, hat', hshape⟩ := h.lvalue_level hat (hend.endsAt .assignment)
    refine ⟨_, s', hread.mono (by omega), hat', ?_⟩
    rw [shape_lvalue, shape_lvalue, hshape]

/-- What is read by `primary` from the words of a whole expression is one. -/
theorem restores_of_primary {e' : Expr} {c : Nat} (hread : Costs c primary s e' s') (hat' : At s' rest)
    (hend : (next rest).Ends) (hopen : ∀ l : Level, l.openedBy s.current.kind = false)
    (hcost : c ≤ 32 * words.length + 33) (hshape : e'.shape = e.shape) :
    Piece.whole.Restored e words s rest :=
  ⟨e', s', (hread.level_of_primary hat' (hend.endsAt .assignment) hopen).mono (by omega), hat', hshape⟩

theorem accepted_regex {body : Text} (hkind : token.kind = .ere) :
    Piece.whole.Accepted (.regex token) [.slashed body token.text] where
  opens := ⟨TokenKind.noConfusion, TokenKind.noConfusion, TokenKind.noConfusion⟩
  restored {s rest} hat hend := by
    obtain ⟨hslash, place, s', htake, hat'⟩ := hat.takesRegex
    refine restores_of_primary (primary_regex hslash htake) hat' hend ?_ (by omega) ?_
    · intro l
      rcases hslash with hslash | hslash <;> rw [hslash] <;> exact l.openedBy_eq_false rfl rfl
    · have htoken : Token.unplaced ⟨.ere, token.text, place⟩ = token.unplaced := Token.unplaced_eq hkind.symm rfl
      rw [shape_regex, shape_regex, htoken]

theorem accepted_members {array : Token} {first second : Expr} {more : List Expr} {subscriptsAt : Option Span}
    (hkind : array.kind = .name) (hitems : Piece.items.Accepted (first :: second :: more) words) :
    Piece.whole.Accepted (.member span (first :: second :: more) subscriptsAt array)
      (.lpar :: words ++ [.rpar, .in, array.word]) where
  opens := ⟨TokenKind.noConfusion, TokenKind.noConfusion, TokenKind.noConfusion⟩
  restored {s rest} hat hend := by
    simp only [List.cons_append, List.append_assoc, List.nil_append] at hat
    obtain ⟨hopen, -, s₁, htake, hat₁⟩ := hat.takes TokenKind.noConfusion
    obtain ⟨first', more', s₂, s₃, hfirst, hmore, hat₃, hshapes, hlength⟩ := hitems.restored hat₁ (.inl rfl)
    obtain ⟨hclose, -, s₄, htake₁, hat₄⟩ := hat₃.takes TokenKind.noConfusion
    obtain ⟨hin, -, s₅, htake₂, hat₅⟩ := hat₄.takes TokenKind.noConfusion
    obtain ⟨hname, htoken, s', htake₃, hat'⟩ := hat₅.takesToken hkind TokenKind.noConfusion
    obtain _ | ⟨second', more'⟩ := more'
    · simp at hlength
    have hread := primary_members hopen htake hfirst hmore hclose htake₁ hin htake₂ hname htake₃
    refine restores_of_primary hread hat' hend ?_ ?_ ?_
    · rw [hopen]
      exact Level.openedBy_eq_false rfl rfl
    · simp only [List.length_append, List.length_cons]
      omega
    · rw [shape_member, shape_member, hshapes, htoken]

section Calls

variable {b : Builtin}

theorem opens_builtin (hkind : token.kind = .builtin b) : Piece.whole.Opens token.kind := by
  rw [hkind]
  exact ⟨TokenKind.noConfusion, TokenKind.noConfusion, TokenKind.noConfusion⟩

theorem accepted_noArguments (hkind : token.kind = .builtin b) :
    Piece.whole.Accepted (.builtin span b token []) [token.word, .lpar, .rpar] where
  opens := opens_builtin hkind
  restored {s rest} hat hend := by
    obtain ⟨hcurrent, htoken, s₁, htake, hat₁⟩ := hat.takesToken hkind TokenKind.noConfusion
    obtain ⟨hopen, -, s₂, htake', hat₂⟩ := hat₁.takes TokenKind.noConfusion
    obtain ⟨hclose, -, s', htake'', hat'⟩ := hat₂.takes TokenKind.noConfusion
    have hread := primary_builtin hcurrent htake hopen htake' (arguments_none hclose htake'')
    refine restores_of_primary hread hat' hend ?_ (by simp) ?_
    · rw [hcurrent]
      exact Level.openedBy_eq_false rfl rfl
    · rw [shape_builtin, shape_builtin, htoken]

theorem accepted_builtin (hkind : token.kind = .builtin b) (hargs : Piece.items.Accepted es words) :
    Piece.whole.Accepted (.builtin span b token es) (token.word :: .lpar :: words ++ [.rpar]) where
  opens := opens_builtin hkind
  restored {s rest} hat hend := by
    simp only [List.cons_append, List.append_assoc, List.nil_append] at hat
    obtain ⟨hcurrent, htoken, s₁, htake, hat₁⟩ := hat.takesToken hkind TokenKind.noConfusion
    obtain ⟨hopen, -, s₂, htake', hat₂⟩ := hat₁.takes TokenKind.noConfusion
    obtain ⟨hline, hfull, -⟩ := hargs.opens.current Piece.noConfusion hat₂
    obtain ⟨first, more, s₃, s₄, hfirst, hmore, hat₄, hshapes, -⟩ := hargs.restored hat₂ (.inl rfl)
    obtain ⟨hclose, -, s', htake'', hat'⟩ := hat₄.takes TokenKind.noConfusion
    have hread := primary_builtin hcurrent htake hopen htake' (arguments_cons hline hfull hfirst hmore hclose htake'')
    refine restores_of_primary hread hat' hend ?_ ?_ ?_
    · rw [hcurrent]
      exact Level.openedBy_eq_false rfl rfl
    · simp only [List.length_append, List.length_cons]
      omega
    · rw [shape_builtin, shape_builtin, hshapes, htoken]

theorem accepted_bareLength (hkind : token.kind = .builtin .length) :
    Piece.whole.Accepted (.builtin span .length token []) [token.word] where
  opens := opens_builtin hkind
  restored {s rest} hat hend := by
    obtain ⟨hcurrent, htoken, s', htake, hat'⟩ := hat.takesToken hkind TokenKind.noConfusion
    have hopen := (At.ends hat' hend).ne (by decide : ¬TokenKind.lpar.Ends)
    refine restores_of_primary (primary_bareLength hcurrent htake hopen) hat' hend ?_ (by simp) ?_
    · rw [hcurrent]
      exact Level.openedBy_eq_false rfl rfl
    · rw [shape_builtin, shape_builtin, htoken]

end Calls

section Getline

variable {target : Option LValue} {file command : Expr}

theorem accepted_getline (htarget : Piece.target.Accepted target words) :
    Piece.whole.Accepted (.getline span target) (.getline :: words) where
  opens := ⟨TokenKind.noConfusion, TokenKind.noConfusion, TokenKind.noConfusion⟩
  restored {s rest} hat hend := by
    obtain ⟨hcurrent, -, s₁, htake, hat₁⟩ := hat.takes TokenKind.noConfusion
    obtain ⟨target', s', hread, hat', hshape⟩ := htarget.restored hat₁ (.inl hend)
    have hfrom := (hat'.ends hend).ne (by decide : ¬TokenKind.lt.Ends)
    refine restores_of_primary (primary_getline hcurrent htake hread hfrom) hat' hend ?_ ?_ ?_
    · rw [hcurrent]
      exact Level.openedBy_eq_false rfl rfl
    · simp only [List.length_cons]
      omega
    · rw [shape_getline, shape_getline, hshape]

theorem accepted_getlineFile (htarget : Piece.target.Accepted target words)
    (hfile : Piece.operand.Accepted file words') :
    Piece.whole.Accepted (.getlineFile span target file) (.getline :: words ++ .less :: words') where
  opens := ⟨TokenKind.noConfusion, TokenKind.noConfusion, TokenKind.noConfusion⟩
  restored {s rest} hat hend := by
    simp only [List.cons_append, List.append_assoc] at hat
    obtain ⟨hcurrent, -, s₁, htake, hat₁⟩ := hat.takes TokenKind.noConfusion
    obtain ⟨target', s₂, hread, hat₂, hshape⟩ := htarget.restored hat₁ (.inr rfl)
    obtain ⟨hfrom, -, s₃, htake', hat₃⟩ := hat₂.takes TokenKind.noConfusion
    obtain ⟨file', s', hreadFile, hat', hshape'⟩ := hfile.level hat₃ (hend.endsAt .step)
    have hcost : 32 * words.length + 1 ≤ 32 * (words.length + words'.length) + 28 := by omega
    have hcost' : 32 * words'.length + 28 ≤ 32 * (words.length + words'.length) + 28 := by omega
    have hgetline := primary_getlineFile hcurrent htake (hread.mono hcost) hfrom htake' (hreadFile.mono hcost')
    refine restores_of_primary hgetline hat' hend ?_ ?_ ?_
    · rw [hcurrent]
      exact Level.openedBy_eq_false rfl rfl
    · simp only [List.length_append, List.length_cons]
      omega
    · rw [shape_getlineFile, shape_getlineFile, hshape, hshape']

theorem accepted_getlineCommand (hcommand : Piece.operand.Accepted command words)
    (htarget : Piece.target.Accepted target words') :
    Piece.whole.Accepted (.getlineCommand span command target) (words ++ .pipe :: .getline :: words') where
  opens := (hcommand.opens.append Piece.noConfusion _).whole_of_operand
  restored {s rest} hat hend := by
    rw [List.append_assoc, List.cons_append, List.cons_append] at hat
    have hopens := hcommand.opens.current Piece.noConfusion hat
    have hpipes : Level.comparison.continuedBy .pipe = true := rfl
    have hleft : Level.concatenation.EndsAt .pipe := Level.endsAt_of_continuedBy hpipes Level.noConfusion (by decide)
    obtain ⟨command', s₁, hread, hat₁, hshape⟩ := hcommand.level hat hleft
    obtain ⟨hpipe, -, s₂, htake, hat₂⟩ := hat₁.takes TokenKind.noConfusion
    obtain ⟨hgetline, -, s₃, htake', hat₃⟩ := hat₂.takes TokenKind.noConfusion
    obtain ⟨target', s', hreadTarget, hat', hshape'⟩ := htarget.restored hat₃ (.inl hend)
    have hlast := hat'.ends hend
    have hpipe' := hlast.ne (by decide : ¬TokenKind.pipe.Ends)
    have hcost : 32 * words.length + 28 ≤ 32 * (words.length + words'.length) + 29 := by omega
    have hcost' : 32 * words'.length + 1 + 1 ≤ 32 * (words.length + words'.length) + 29 := by omega
    have hgetlines := pipes_getline s.current command' hpipe htake hgetline htake' hreadTarget hpipe' (by omega)
    have hcommands := comparison_pipe (hread.mono hcost) (hgetlines.mono hcost') hlast.compareOp?_eq_none
    refine ⟨_, s', (hcommands.whole (by omega) hlast fun l _ => hopens.openedBy l).mono ?_, hat', ?_⟩
    · simp only [List.length_append, List.length_cons]
      omega
    · rw [shape_getlineCommand, shape_getlineCommand, hshape, hshape']

end Getline

/-! ### Operators -/

/-- Two operands of an operator are read up to their ends. -/
theorem reads_operands (l r : Level) {outer : Level} (hleft : Piece.operand.Accepted left words)
    (hright : Piece.operand.Accepted right words') (hop : outer.continuedBy token.kind = true)
    (houter : outer ≠ .concatenation) (hlt : outer.index < l.index)
    (hat : At s ((words ++ token.word :: words') ++ rest)) (hend : (next rest).Ends) :
    ∃ left' s₁ s₂ right' s', Costs (32 * (words.length + words'.length) + 28) (level · l false) s left' s₁ ∧
      s₁.current.kind = token.kind ∧ s₁.current.unplaced = token.unplaced ∧ Takes s₁ s₂ ∧
      Piece.operand.Opens s₂.current.kind ∧
      Costs (32 * (words.length + words'.length) + 28) (level · r false) s₂ right' s' ∧ At s' rest ∧
      left'.shape = left.shape ∧ right'.shape = right.shape := by
  rw [List.append_assoc, List.cons_append] at hat
  have hbetween := Level.endsAt_of_continuedBy hop houter hlt
  obtain ⟨left', s₁, hread, hat₁, hshape⟩ := hleft.level hat hbetween
  obtain ⟨hkind, htoken, s₂, htake, hat₂⟩ := hat₁.takesToken rfl hbetween.regex
  have hopens := hright.opens.current Piece.noConfusion hat₂
  obtain ⟨right', s', hread', hat', hshape'⟩ := hright.level hat₂ (hend.endsAt r)
  exact ⟨left', s₁, s₂, right', s', hread.mono (by omega), hkind, htoken, htake, hopens, hread'.mono (by omega), hat',
    hshape, hshape'⟩

theorem restores_of_level {e' : Expr} {c : Nat} {lvl : Level} (hread : Costs c (level · lvl false) s e' s')
    (hat' : At s' rest) (hend : (next rest).Ends)
    (hopen : ∀ l : Level, l.index < lvl.index → l.openedBy s.current.kind = false) (hc : 1 ≤ c)
    (hcost : c ≤ 32 * words.length + 34) (hshape : e'.shape = e.shape) : Piece.whole.Restored e words s rest :=
  ⟨e', s', (hread.whole hc (hat'.ends hend) hopen).mono (by omega), hat', hshape⟩

theorem Parser.Joins.shape {lvl : Level} {k : TokenKind} {join : Span → Expr → Token → Expr → Expr}
    (h : Joins lvl k join) {left' right' : Expr} {token' : Token} (hleft : left'.shape = left.shape)
    (htoken : token'.unplaced = token.unplaced) (hright : right'.shape = right.shape) :
    (join span' left' token' right').shape = (join span left token right).shape := by
  cases h with
  | or | and => simp only [shape_logical, hleft, hright]
  | matching | notMatching => simp only [shape_matching, hleft, htoken, hright]
  | sum | product => simp only [shape_arith, hleft, htoken, hright]

theorem accepted_join {lvl : Level} {join : Span → Expr → Token → Expr → Expr} (token : Token)
    (hjoin : Joins lvl token.kind join) (hleft : Piece.operand.Accepted left words)
    (hright : Piece.operand.Accepted right words') :
    Piece.whole.Accepted (join span left token right) (words ++ token.word :: words') where
  opens := (hleft.opens.append Piece.noConfusion _).whole_of_operand
  restored {s rest} hat hend := by
    have hopens := (hleft.opens.append Piece.noConfusion (token.word :: words')).current Piece.noConfusion hat
    obtain ⟨houter, hlt⟩ := hjoin.tighter
    obtain ⟨left', s₁, s₂, right', s', hread, hkind, htoken, htake, hopens', hread', hat', hshape, hshape'⟩ :=
      reads_operands lvl.tighter lvl.tighter hleft hright hjoin.continuedBy houter hlt hat hend
    have hlast := hat'.ends hend
    rw [← hkind] at hjoin
    have hend' := (hlast.endsAt lvl).between lvl le_rfl
    have hchain := chain_join s.current left' hjoin htake hopens'.whole_of_operand.1 hread' hend' (by omega)
    refine restores_of_level (level_chain hjoin.level_mem (hread.mono (Nat.le_succ _)) hchain) hat' hend
      (fun l _ => hopens.openedBy l) (by omega) ?_ (hjoin.shape hshape htoken hshape')
    simp only [List.length_append, List.length_cons]
    omega

theorem accepted_logical {op : LogicalOp} (hleft : Piece.operand.Accepted left words)
    (hright : Piece.operand.Accepted right words') :
    Piece.whole.Accepted (.logical span op left right) (words ++ .logical op :: words') := by
  cases op with
  | or => exact accepted_join ⟨.or, ['|', '|'], .nowhere⟩ .or hleft hright
  | and => exact accepted_join ⟨.and, ['&', '&'], .nowhere⟩ .and hleft hright

theorem accepted_matching {negated : Bool} (hkind : token.kind = if negated then .noMatch else .tilde)
    (hleft : Piece.operand.Accepted left words) (hright : Piece.operand.Accepted right words') :
    Piece.whole.Accepted (.matching span left negated token right) (words ++ token.word :: words') := by
  cases negated with
  | false =>
    have hjoin : Joins .matching token.kind fun span left token right => .matching span left false token right := by
      rw [hkind]
      exact .matching
    exact accepted_join token hjoin hleft hright
  | true =>
    have hjoin : Joins .matching token.kind fun span left token right => .matching span left true token right := by
      rw [hkind]
      exact .notMatching
    exact accepted_join token hjoin hleft hright

theorem accepted_compare {op : CompareOp} (hop : CompareOp.ofKind? token.kind = some op)
    (hleft : Piece.operand.Accepted left words) (hright : Piece.operand.Accepted right words') :
    Piece.whole.Accepted (.compare span left op token right) (words ++ token.word :: words') where
  opens := (hleft.opens.append Piece.noConfusion _).whole_of_operand
  restored {s rest} hat hend := by
    have hopens := (hleft.opens.append Piece.noConfusion (token.word :: words')).current Piece.noConfusion hat
    have hcompares : Level.comparison.continuedBy token.kind = true := by simp [Level.continuedBy, hop]
    obtain ⟨left', s₁, s₂, right', s', hread, hkind, htoken, htake, -, hread', hat', hshape, hshape'⟩ :=
      reads_operands .concatenation .concatenation hleft hright hcompares Level.noConfusion (by decide) hat hend
    rw [← hkind] at hop
    have hpipe := (hat'.ends hend).ne (by decide : ¬TokenKind.pipe.Ends)
    have hcompare := comparison_compare (by omega) hread hop htake hread' hpipe
    refine restores_of_level hcompare hat' hend (fun l _ => hopens.openedBy l) (by omega) ?_ ?_
    · simp only [List.length_append, List.length_cons]
      omega
    · rw [shape_compare, shape_compare, hshape, htoken, hshape']

theorem accepted_power {t : Text} (hleft : Piece.operand.Accepted left words)
    (hright : Piece.operand.Accepted right words') :
    Piece.whole.Accepted (.power span left right) (words ++ .plain .pow t :: words') where
  opens := (hleft.opens.append Piece.noConfusion _).whole_of_operand
  restored {s rest} hat hend := by
    have hopens := (hleft.opens.append Piece.noConfusion (.plain .pow t :: words')).current Piece.noConfusion hat
    have hat : At s (words ++ Token.word ⟨.pow, t, .nowhere⟩ :: words' ++ rest) := hat
    have hpowers : Level.power.continuedBy .pow = true := rfl
    obtain ⟨left', s₁, s₂, right', s', hread, hkind, -, htake, hopens', hread', hat', hshape, hshape'⟩ :=
      reads_operands .step .power hleft hright hpowers Level.noConfusion (by decide) hat hend
    have hexponent := signed_of_level hopens'.signOp?_eq_none hread'
    have hpower := power_power (hread.mono (Nat.le_succ _)) hkind htake hexponent
    refine restores_of_level hpower hat' hend (fun l _ => hopens.openedBy l) (by omega) ?_ ?_
    · simp only [List.length_append, List.length_cons]
      omega
    · rw [shape_power, shape_power, hshape, hshape']

theorem accepted_assign {op : AssignOp} (hop : AssignOp.ofKind? token.kind = some op)
    (htarget : Piece.lvalue.Accepted target words) (hright : Piece.operand.Accepted right words') :
    Piece.whole.Accepted (.assign span target op token right) (words ++ token.word :: words') where
  opens := (htarget.opens.append Piece.noConfusion _).whole_of_lvalue
  restored {s rest} hat hend := by
    have hassigns : Level.assignment.continuedBy token.kind = true := by simp [Level.continuedBy, hop]
    have hbetween : Level.conditional.EndsAt token.kind :=
      Level.endsAt_of_continuedBy hassigns Level.noConfusion (by decide)
    rw [List.append_assoc, List.cons_append] at hat
    obtain ⟨target', s₁, hread, hat₁, hshape⟩ := htarget.lvalue_level hat hbetween
    obtain ⟨hkind, htoken, s₂, htake, hat₂⟩ := hat₁.takesToken rfl hbetween.regex
    have hline := (hright.opens.current Piece.noConfusion hat₂).whole_of_operand.1
    obtain ⟨right', s', hread', hat', hshape'⟩ := hright.level hat₂ (hend.endsAt .assignment)
    rw [← hkind] at hop
    have hcost : 32 * words.length + 28 ≤ 32 * (words.length + words'.length) + 28 := by omega
    have hcost' : 32 * words'.length + 28 ≤ 32 * (words.length + words'.length) + 28 := by omega
    have hassign := assignment_assign (hread.mono hcost) hop htake hline (hread'.mono hcost')
    refine ⟨_, s', hassign.mono ?_, hat', ?_⟩
    · simp only [List.length_append, List.length_cons]
      omega
    · rw [shape_assign, shape_assign, hshape, canonicalToken_unplaced_eq htoken, hshape']

theorem accepted_conditional {test yes no : Expr} (htest : Piece.operand.Accepted test words)
    (hyes : Piece.operand.Accepted yes words') (hno : Piece.operand.Accepted no words'') :
    Piece.whole.Accepted (.conditional span test yes no) (words ++ .qmark :: words' ++ .colon :: words'') where
  opens := by
    rw [List.append_assoc]
    exact (htest.opens.append Piece.noConfusion _).whole_of_operand
  restored {s rest} hat hend := by
    simp only [List.append_assoc, List.cons_append] at hat
    have hopens := htest.opens.current Piece.noConfusion hat
    have hmarks : Level.conditional.continuedBy .qmark = true := rfl
    have hbetween : Level.disjunction.EndsAt .qmark :=
      Level.endsAt_of_continuedBy hmarks Level.noConfusion (by decide)
    obtain ⟨test', s₁, hread, hat₁, hshape⟩ := htest.level hat hbetween
    obtain ⟨hmark, -, s₂, htake, hat₂⟩ := hat₁.takes TokenKind.noConfusion
    have hline := (hyes.opens.current Piece.noConfusion hat₂).whole_of_operand.1
    have hcolons : TokenKind.colon.Ends := by decide
    obtain ⟨yes', s₃, hread', hat₃, hshape'⟩ := hyes.level hat₂ (hcolons.endsAt .assignment)
    obtain ⟨hcolon, -, s₄, htake', hat₄⟩ := hat₃.takes TokenKind.noConfusion
    have hline' := (hno.opens.current Piece.noConfusion hat₄).whole_of_operand.1
    obtain ⟨no', s', hread'', hat', hshape''⟩ := hno.level hat₄ (hend.endsAt .assignment)
    have hcost : 32 * words.length + 28 ≤ 32 * (words.length + words'.length + words''.length) + 28 := by omega
    have hcost' : 32 * words'.length + 28 ≤ 32 * (words.length + words'.length + words''.length) + 28 := by omega
    have hcost'' : 32 * words''.length + 28 ≤ 32 * (words.length + words'.length + words''.length) + 28 := by omega
    have hconditional := conditional_conditional (hread.mono hcost) hmark htake hline (hread'.mono hcost') hcolon htake'
      hline' (hread''.mono hcost'')
    refine restores_of_level hconditional hat' hend (fun l _ => hopens.openedBy l) (by omega) ?_ ?_
    · simp only [List.length_append, List.length_cons]
      omega
    · rw [shape_conditional, shape_conditional, hshape, hshape', hshape'']

theorem accepted_member {array : Token} {subscriptsAt : Option Span} (hkind : array.kind = .name)
    (he : Piece.operand.Accepted e words) :
    Piece.whole.Accepted (.member span [e] subscriptsAt array) (words ++ [.in, array.word]) where
  opens := (he.opens.append Piece.noConfusion _).whole_of_operand
  restored {s rest} hat hend := by
    simp only [List.append_assoc, List.cons_append, List.nil_append] at hat
    have hopens := he.opens.current Piece.noConfusion hat
    have hins : Level.membership.continuedBy .in = true := rfl
    have hbetween : Level.matching.EndsAt .in := Level.endsAt_of_continuedBy hins Level.noConfusion (by decide)
    obtain ⟨e', s₁, hread, hat₁, hshape⟩ := he.level hat hbetween
    obtain ⟨hin, -, s₂, htake, hat₂⟩ := hat₁.takes TokenKind.noConfusion
    obtain ⟨hname, htoken, s', htake', hat'⟩ := hat₂.takesToken hkind TokenKind.noConfusion
    have hlast := (hat'.ends hend).ne (by decide : ¬TokenKind.in.Ends)
    have hchain := chain_member s.current e' hin htake hname htake' hlast
    have hmember := level_chain (by decide) hread (hchain.mono (by omega))
    refine restores_of_level hmember hat' hend (fun l _ => hopens.openedBy l) (by omega) ?_ ?_
    · simp only [List.length_append, List.length_cons]
      omega
    · rw [shape_member, shape_member, shapeAll_cons, shapeAll_cons, hshape, htoken]

theorem accepted_concat {first second : Expr} {more : List Expr}
    (hparts : Piece.parts.Accepted (first :: second :: more) words) :
    Piece.whole.Accepted (.concat span (first :: second :: more)) words where
  opens := Piece.Opens.whole_of_operand hparts.opens
  restored {s rest} hat hend := by
    have hopens : Piece.operand.Opens s.current.kind := hparts.opens.current Piece.noConfusion hat
    obtain ⟨first', more', s₁, s', hfirst, hmore, hat', hshapes, hlength⟩ := hparts.restored hat hend
    obtain _ | ⟨second', more'⟩ := more'
    · simp at hlength
    have hconcat := concatenation_concat hfirst hmore
    refine restores_of_level hconcat hat' hend (fun l _ => hopens.openedBy l) (by omega) (by omega) ?_
    rw [shape_concat, shape_concat, hshapes]

theorem accepted_sign {op : SignOp} (hop : SignOp.ofKind? token.kind = some op)
    (he : Piece.operand.Accepted e words) : Piece.whole.Accepted (.sign span op token e) (token.word :: words) where
  opens := by
    change Piece.whole.Opens token.kind
    rcases SignOp.kind_cases hop with hkind | hkind | hkind
    all_goals
      rw [hkind]
      exact ⟨TokenKind.noConfusion, TokenKind.noConfusion, TokenKind.noConfusion⟩
  restored {s rest} hat hend := by
    have hregex : token.kind ≠ .ere := by
      rcases SignOp.kind_cases hop with hkind | hkind | hkind <;> rw [hkind] <;> exact TokenKind.noConfusion
    obtain ⟨hkind, htoken, s₁, htake, hat₁⟩ := hat.takesToken rfl hregex
    have hopens := he.opens.current Piece.noConfusion hat₁
    obtain ⟨e', s', hread, hat', hshape⟩ := he.level hat₁ (hend.endsAt .power)
    rw [← hkind] at hop
    have hsign := level_sign (signed_sign hop htake (signed_of_level hopens.signOp?_eq_none hread))
    refine restores_of_level hsign hat' hend ?_ (by omega) ?_ ?_
    · intro l hl
      cases l <;> first | rfl | exact absurd hl (by decide)
    · simp only [List.length_cons]
      omega
    · rw [shape_sign, shape_sign, hshape, htoken]

theorem accepted_preStep {op : StepOp} (hop : StepOp.ofKind? token.kind = some op)
    (htarget : Piece.lvalue.Accepted target words) :
    Piece.whole.Accepted (.preStep span op token target) (token.word :: words) where
  opens := by
    change Piece.whole.Opens token.kind
    rcases StepOp.kind_cases hop with hkind | hkind
    all_goals
      rw [hkind]
      exact ⟨TokenKind.noConfusion, TokenKind.noConfusion, TokenKind.noConfusion⟩
  restored {s rest} hat hend := by
    have hregex : token.kind ≠ .ere := by
      rcases StepOp.kind_cases hop with hkind | hkind <;> rw [hkind] <;> exact TokenKind.noConfusion
    obtain ⟨hkind, htoken, s₁, htake, hat₁⟩ := hat.takesToken rfl hregex
    obtain ⟨target', s', hread, hat', hshape⟩ := htarget.restored hat₁ (hend.endsAt .primary)
    rw [← hkind] at hop
    refine restores_of_level (step_preStep hop htake hread) hat' hend ?_ (by omega) ?_ ?_
    · intro l hl
      rcases StepOp.kind_cases hop with hstep | hstep <;> rw [hstep]
      all_goals cases l <;> first | rfl | exact absurd hl (by decide)
    · simp only [List.length_cons]
      omega
    · rw [shape_preStep, shape_preStep, hshape, htoken]

theorem accepted_postStep {op : StepOp} (hop : StepOp.ofKind? token.kind = some op)
    (htarget : Piece.lvalue.Accepted target words) :
    Piece.whole.Accepted (.postStep span target op token) (words ++ [token.word]) where
  opens := (htarget.opens.append Piece.noConfusion _).whole_of_lvalue
  restored {s rest} hat hend := by
    rw [List.append_assoc, List.singleton_append] at hat
    have hopens := htarget.opens.current Piece.noConfusion hat
    have hsteps : Level.step.continuedBy token.kind = true := by simp [Level.continuedBy, hop]
    have hbetween : Level.primary.EndsAt token.kind :=
      Level.endsAt_of_continuedBy hsteps Level.noConfusion (by decide)
    obtain ⟨target', s₁, hread, hat₁, hshape⟩ := htarget.lvalue_level hat hbetween
    obtain ⟨hkind, htoken, s', htake, hat'⟩ := hat₁.takesToken rfl hbetween.regex
    rw [← hkind] at hop
    have hstep := step_postStep hopens.stepOp?_eq_none_of_lvalue hread hop htake
    refine restores_of_level hstep hat' hend (fun l _ => hopens.openedBy_of_lvalue l) (by omega) ?_ ?_
    · simp only [List.length_append, List.length_cons]
      omega
    · rw [shape_postStep, shape_postStep, hshape, htoken]

/-! ### Rendered expressions -/

theorem Renders.accepted {x : Piece} {v : x.Value} (h : Renders x v words) : x.Accepted v words := by
  induction h with
  | number hkind => exact accepted_number hkind
  | string => exact accepted_string
  | var h ih =>
    cases h with
    | name hkind => exact accepted_of_lvalue ih (.inr (.inr (.inl hkind)))
  | element h ih =>
    cases h with
    | index hkind hsubs => exact accepted_of_lvalue ih (.inr (.inr (.inl hkind)))
  | group h ih => exact accepted_group ih
  | name hkind => exact accepted_name hkind
  | index hkind hsubs ih => exact accepted_index hkind ih
  | field hindex ih => exact accepted_field ih
  | item he ih => exact accepted_item ih
  | items he hes ih ih' => exact accepted_items ih ih'
  | part he ih => exact accepted_part ih
  | parts he hes ih ih' => exact accepted_parts ih ih'
  | noTarget => exact accepted_noTarget
  | target h ih => exact accepted_target ih
  | operand h ih => exact accepted_of_operand ih
  | lvalue h ih => exact accepted_whole_lvalue ih
  | regex hkind => exact accepted_regex hkind
  | assign hop htarget hright ih ih' => exact accepted_assign hop ih ih'
  | conditional htest hyes hno ih ih' ih'' => exact accepted_conditional ih ih' ih''
  | logical hleft hright ih ih' =>
    exact accepted_logical ih ih'
  | member hkind he ih => exact accepted_member hkind ih
  | members hkind hitems ih => exact accepted_members hkind ih
  | matching hkind hleft hright ih ih' => exact accepted_matching hkind ih ih'
  | compare hop hleft hright ih ih' => exact accepted_compare hop ih ih'
  | concat hparts ih => exact accepted_concat ih
  | sum hop hleft hright ih ih' => exact accepted_join _ (.sum hop) ih ih'
  | product hop hleft hright ih ih' => exact accepted_join _ (.product hop) ih ih'
  | sign hop he ih => exact accepted_sign hop ih
  | power hbase hexponent ih ih' => exact accepted_power ih ih'
  | preStep hop htarget ih => exact accepted_preStep hop ih
  | postStep hop htarget ih => exact accepted_postStep hop ih
  | noArguments hkind => exact accepted_noArguments hkind
  | builtin hkind hargs ih => exact accepted_builtin hkind ih
  | bareLength hkind => exact accepted_bareLength hkind
  | getline htarget ih => exact accepted_getline ih
  | getlineFile htarget hfile ih ih' => exact accepted_getlineFile ih ih'
  | getlineCommand hcommand htarget ih ih' => exact accepted_getlineCommand ih ih'

end Awk
