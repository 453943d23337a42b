import Awk.Proofs.Syntax.Layout.Walk
import Mathlib.Data.List.DropRight

/-!
# Tokens tile their text

The tokens of a text stand in it one behind the other, each with the text that it reports in the place that it reports,
and between them is nothing but blanks, continued lines and comments (`tokens_tile`).  Every scanner takes the text
that it gives as its value (`Lexeme.covers_of_scan`), and a cursor knows its place from the text before it
(`Cursor.Within.line`, `Cursor.Within.column`).
-/

namespace Awk

namespace Text

/-- The line of an offset, counted from one. -/
def lineAt (t : Text) (offset : Nat) : Nat := (t.take offset).count '\n' + 1

/-- How far an offset is behind the last line end before it; the first line is as if one stood before the text. -/
def columnAt (t : Text) (offset : Nat) : Nat := ((t.take offset).rtakeWhile (· != '\n')).length + 1

end Text

/-! ### Tilings -/

/-- A token has the text that it covers, but for the quotes of a string, and the place where this stands. -/
structure Token.Stands (source : Text) (token : Token) : Prop where
  covers : source.slice token.span.start token.span.stop =
    if token.kind = .string then '"' :: token.text ++ ['"'] else token.text
  line : token.span.line = source.lineAt token.span.start
  column : token.span.column = source.columnAt token.span.start

/-- From one offset to another a text is passed over.  A comment goes on to the end of its line or of the text. -/
def Gap (source : Text) (start stop : Nat) : Prop :=
  start ≤ stop ∧ ∃ comment, Lexeme.Passed false (source.slice start stop) comment ∧
    (comment = true → ∀ c ∈ (source.drop stop).head?, c = '\n')

/-- A text is tiled from an offset on: a gap and a token that takes some text, over and over, and then a gap and the
end. -/
inductive Tiles (source : Text) : Nat → List Token → Prop
  | last {offset token} (hgap : Gap source offset token.span.start) (hstands : token.Stands source)
    (hkind : token.kind = .eof) (hstart : token.span.start = source.length)
    (hstop : token.span.stop = source.length) : Tiles source offset [token]
  | token {offset token tokens} (hgap : Gap source offset token.span.start) (hstands : token.Stands source)
    (hkind : token.kind ≠ .eof) (htaken : token.span.start < token.span.stop)
    (hmore : Tiles source token.span.stop tokens) : Tiles source offset (token :: tokens)

namespace Lexeme

variable {t : Text}

/-! ### What a lexeme covers -/

theorem prefix_digits (t : Text) : digits t <+: t := List.takeWhile_prefix _

theorem prefix_fraction (t : Text) : fraction t <+: t := by
  unfold fraction
  split
  · exact List.cons_prefix_cons.2 ⟨rfl, prefix_digits _⟩
  · exact List.nil_prefix

theorem prefix_signText (t : Text) : signText t <+: t := by
  unfold signText
  split <;> simp

/-- A beginning, and then a beginning of the rest. -/
theorem prefix_append_drop {u v : Text} (hu : u <+: t) (hv : v <+: t.drop u.length) : u ++ v <+: t := by
  obtain ⟨rest, rfl⟩ := hu
  rw [List.drop_left] at hv
  exact (List.prefix_append_right_inj u).2 hv

theorem prefix_exponent (t : Text) : exponent t <+: t := by
  cases t with
  | nil => exact List.nil_prefix
  | cons e t =>
    rw [exponent_cons]
    split
    · split
      · exact List.nil_prefix
      · exact List.cons_prefix_cons.2 ⟨rfl, prefix_append_drop (prefix_signText t) (prefix_digits _)⟩
    · exact List.nil_prefix

theorem prefix_numberText (t : Text) : numberText t <+: t := by
  rw [numberText_eq]
  have hpoint := prefix_append_drop (prefix_digits t) (prefix_fraction _)
  refine prefix_append_drop hpoint ?_
  rw [List.length_append]
  exact prefix_exponent _

/-- A lexeme takes its value from the text, and a string literal its quotes as well. -/
theorem covers_of_scan {lexeme : Lexeme} (h : scan t = .ok lexeme) :
    t.take lexeme.length = if lexeme.kind = .string then '"' :: lexeme.value ++ ['"'] else lexeme.value := by
  have hoperators : ∀ entry ∈ operators, entry.2 ≠ .string := by decide
  cases t with
  | nil =>
    cases h
    rfl
  | cons c t =>
    unfold scan at h
    dsimp only at h
    split at h
    · rename_i hc
      cases h
      rw [hc]
      rfl
    split at h
    · rename_i hc
      split at h
      · rename_i body hbody
        cases h
        obtain ⟨r, rfl, -⟩ := stringBody_eq hbody
        rw [hc, if_pos rfl, List.take_succ_cons, List.append_cons, List.take_left' (by simp)]
        rfl
      · cases h
    split at h
    · cases h
      exact (List.prefix_iff_eq_take.1 (prefix_numberText _)).symm
    split at h
    · cases h
      rw [plain, if_neg (nameKind_ne (by decide) (by simp) (by decide) (by decide) _ _)]
      exact (List.prefix_iff_eq_take.1 (List.takeWhile_prefix _)).symm
    split at h
    · rename_i op kind hfound
      cases h
      rw [plain, if_neg (hoperators _ (List.mem_of_find?_eq_some hfound))]
      have hstarts : Text.startsWith (c :: t) op.toList = true := by simpa using List.find?_some hfound
      exact (List.prefix_iff_eq_take.1 (startsWith_iff.1 hstarts)).symm
    · cases h

end Lexeme

namespace Cursor

variable {source : Text} {c : Cursor}

/-! ### The place of a cursor -/

/-- One character further on. -/
theorem ofText_succ {n : Nat} {d : Char} {t : Text} (hrest : source.drop n = d :: t) :
    ((ofText source).advance (n + 1)).line = ((ofText source).advance n).line + (if d = '\n' then 1 else 0) ∧
      ((ofText source).advance (n + 1)).column = if d = '\n' then 1 else ((ofText source).advance n).column + 1 := by
  have hstep : ((ofText source).advance n).rest = d :: t := (advance_rest n _).trans hrest
  rw [advance_add]
  generalize (ofText source).advance n = c at hstep
  rw [advance, hstep]
  by_cases hd : d = '\n'
  · simp [hd]
  · simp [hd]

theorem ofText_place {n : Nat} (hn : n ≤ source.length) :
    ((ofText source).advance n).line = source.lineAt n ∧
      ((ofText source).advance n).column = source.columnAt n := by
  induction n with
  | zero => exact ⟨rfl, rfl⟩
  | succ n ih =>
    obtain ⟨hline, hcolumn⟩ := ih (Nat.le_of_succ_le hn)
    have hdrop : source.drop n = source[n] :: source.drop (n + 1) := List.drop_eq_getElem_cons hn
    obtain ⟨hline', hcolumn'⟩ := ofText_succ hdrop
    rw [hline', hcolumn', hline, hcolumn, Text.lineAt, Text.columnAt, Text.lineAt, Text.columnAt,
      List.take_succ_eq_append_getElem hn, List.count_append, List.rtakeWhile_concat]
    by_cases hc : source[n] = '\n'
    · simp [hc]
    · simp [hc]

theorem Within.line (h : Within source c) : c.line = source.lineAt c.offset := by
  conv_lhs => rw [h.eq]
  exact (ofText_place h.le).1

theorem Within.column (h : Within source c) : c.column = source.columnAt c.offset := by
  conv_lhs => rw [h.eq]
  exact (ofText_place h.le).2

/-! ### Reading the tokens -/

/-- What is passed over before the next token. -/
theorem Within.gap (h : Within source c) : Gap source c.offset c.skipBlanks.offset := by
  obtain ⟨g, rest, comment, hrest, hlength, hpassed, hend⟩ := Lexeme.exists_passed false c.rest
  rw [skipBlanks_offset, ← hlength]
  have hdrop : source.drop c.offset = g ++ rest := h.rest.symm.trans hrest
  refine ⟨Nat.le_add_right _ _, comment, ?_, ?_⟩
  · rw [Text.slice, Nat.add_sub_cancel_left, hdrop, List.take_left]
    exact hpassed
  · rintro rfl d hd
    rw [← List.drop_drop, hdrop, List.drop_left] at hd
    obtain ⟨t, rfl⟩ : ∃ t, rest = d :: t := by
      cases rest with
      | nil => cases hd
      | cons e t =>
        cases hd
        exact ⟨t, rfl⟩
    by_contra hd'
    rw [Lexeme.blankLength_body hd'] at hend
    cases hend

/-- The next token, with the gap before it. -/
theorem Within.stands {token : Token} {behind : Cursor} (h : Within source c) (htoken : c.token = .ok (token, behind)) :
    Gap source c.offset token.span.start ∧ token.Stands source := by
  obtain ⟨lexeme, hscan, rfl, rfl⟩ := token_iff.1 htoken
  have hskip := h.skipBlanks
  refine ⟨h.gap, ?_, hskip.line, hskip.column⟩
  rw [← Lexeme.covers_of_scan hscan, hskip.rest, Text.slice, Nat.add_sub_cancel_left]

/-- The end of the text is found only there. -/
theorem Within.eof {token : Token} {behind : Cursor} (h : Within source c) (htoken : c.token = .ok (token, behind))
    (hkind : token.kind = .eof) : token.span.start = source.length ∧ token.span.stop = source.length := by
  obtain ⟨lexeme, hscan, rfl, rfl⟩ := token_iff.1 htoken
  have hskip := h.skipBlanks
  have hnil := Lexeme.eq_nil_of_scan_eof hscan hkind
  rw [hnil] at hscan
  cases hscan
  rw [hskip.rest, List.drop_eq_nil_iff] at hnil
  have hoffset := Nat.le_antisymm hskip.le hnil
  exact ⟨hoffset, hoffset⟩

/-- Reading on from a cursor comes to the end if there is fuel for every character and for the end. -/
theorem Within.tiles {fuel : Nat} {tokens : List Token} (h : Within source c) (hfuel : c.rest.length < fuel)
    (htokens : tokensFuel fuel c = .ok tokens) : Tiles source c.offset tokens := by
  induction fuel generalizing c tokens with
  | zero => exact absurd hfuel (Nat.not_lt_zero _)
  | succ fuel ih =>
    rw [tokensFuel] at htokens
    obtain ⟨⟨token, behind⟩, htoken, htokens⟩ := Action.bind_eq_ok.1 htokens
    obtain ⟨hgap, hstands⟩ := h.stands htoken
    dsimp only at htokens
    split at htokens
    · rename_i hkind
      cases htokens
      obtain ⟨hstart, hstop⟩ := h.eof htoken hkind
      exact .last hgap hstands hkind hstart hstop
    · rename_i hkind
      obtain ⟨more, hmore, htokens⟩ := Action.bind_eq_ok.1 htokens
      cases htokens
      obtain ⟨-, -, hstop, hlt⟩ := token_extent htoken
      refine .token hgap hstands hkind (hlt hkind) ?_
      rw [hstop]
      exact ih (h.token htoken) (Nat.lt_of_lt_of_le (Parser.rest_lt_of_token htoken hkind) (Nat.le_of_lt_succ hfuel)) hmore

end Cursor

/-- The tokens of a text tile it, from its start to its end. -/
theorem tokens_tile {source : Text} {tokens : List Token} (h : Awk.tokens source = .ok tokens) :
    Tiles source 0 tokens :=
  (Cursor.Within.ofText source).tiles (Nat.lt_succ_self _) h

/-- A name, a string literal with quotes and a backslash in it, a number before a name, and all kinds of gaps. -/
def tiledSource : Text := "x =\\\r\n\t\"a\\\"\\\\\" 1.5e+ # 'tis\n\\\n**=".toList

theorem tokens_tile_gaps :
    ∃ tokens, Awk.tokens tiledSource = .ok tokens ∧ tokens.map (·.span.start) = [0, 2, 7, 15, 18, 19, 27, 30, 33] ∧
      Tiles tiledSource 0 tokens := by
  have htokens : (Awk.tokens tiledSource).toOption.map (·.map (·.span.start)) = some [0, 2, 7, 15, 18, 19, 27, 30, 33] := by
    decide +kernel
  obtain ⟨tokens, hsome, hstarts⟩ := Option.map_eq_some_iff.1 htokens
  have hok := Action.toOption_eq_some.1 hsome
  exact ⟨tokens, hok, hstarts, tokens_tile hok⟩

end Awk
