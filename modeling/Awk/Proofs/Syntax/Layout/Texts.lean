import Awk.Proofs.Syntax.Places.Moves
import Awk.Proofs.Syntax.Layout.Placed
import Mathlib.Order.MinMax

/-!
# The same tokens in another text

What is passed over between tokens (`Lexeme.Passed`) may stand wherever they do.  In front of a place where the text
changes, a token is read as before (`Cursor.Still`); behind it, all tokens are read as before in other places
(`Cursor.Moved`).
-/

namespace Awk

namespace Lexeme

/-- A text that is passed over between tokens.  The flags tell whether a comment has begun before it, and behind it. -/
inductive Passed : Bool → Text → Bool → Prop
  | nil {comment} : Passed comment [] comment
  | blank {c t comment} (hc : isBlank c = true) (h : Passed false t comment) : Passed false (c :: t) comment
  | comment {t comment} (h : Passed true t comment) : Passed false ('#' :: t) comment
  | body {c t comment} (hc : c ≠ '\n') (h : Passed true t comment) : Passed true (c :: t) comment
  | line {t comment} (h : Passed false t comment) : Passed false ('\\' :: '\n' :: t) comment
  | returnLine {t comment} (h : Passed false t comment) : Passed false ('\\' :: '\r' :: '\n' :: t) comment

variable {comment comment' : Bool} {g t u y w : Text}

theorem blankLength_blank {c : Char} (hc : isBlank c = true) (t : Text) :
    blankLength false (c :: t) = blankLength false t + 1 := by
  conv_lhs => unfold blankLength
  rw [if_neg Bool.false_ne_true, if_pos hc]

theorem blankLength_comment (t : Text) : blankLength false ('#' :: t) = blankLength true t + 1 := by
  conv_lhs => unfold blankLength
  rw [if_neg Bool.false_ne_true, if_neg (by decide), if_pos rfl]

theorem blankLength_body {c : Char} (hc : c ≠ '\n') (t : Text) :
    blankLength true (c :: t) = blankLength true t + 1 := by
  conv_lhs => unfold blankLength
  rw [if_pos rfl, if_neg hc]

theorem blankLength_line (t : Text) : blankLength false ('\\' :: '\n' :: t) = blankLength false t + 2 := rfl

theorem blankLength_returnLine (t : Text) :
    blankLength false ('\\' :: '\r' :: '\n' :: t) = blankLength false t + 3 := rfl

theorem Passed.blankLength (h : Passed comment g comment') (t : Text) :
    Lexeme.blankLength comment (g ++ t) = g.length + Lexeme.blankLength comment' t := by
  induction h with
  | nil => simp
  | blank hc h ih => rw [List.cons_append, blankLength_blank hc, ih, List.length_cons, Nat.add_right_comm]
  | comment h ih => rw [List.cons_append, blankLength_comment, ih, List.length_cons, Nat.add_right_comm]
  | body hc h ih => rw [List.cons_append, blankLength_body hc, ih, List.length_cons, Nat.add_right_comm]
  | line h ih =>
    rw [List.cons_append, List.cons_append, blankLength_line, ih, List.length_cons, List.length_cons]
    omega
  | returnLine h ih =>
    rw [List.cons_append, List.cons_append, List.cons_append, blankLength_returnLine, ih, List.length_cons,
      List.length_cons, List.length_cons]
    omega

theorem Passed.append {comment'' : Bool} (h : Passed comment g comment') (h' : Passed comment' t comment'') :
    Passed comment (g ++ t) comment'' := by
  induction h with
  | nil => exact h'
  | blank hc h ih => exact .blank hc (ih h')
  | comment h ih => exact .comment (ih h')
  | body hc h ih => exact .body hc (ih h')
  | line h ih => exact .line (ih h')
  | returnLine h ih => exact .returnLine (ih h')

/-- What precedes a token is passed over, and nothing more. -/
theorem exists_passed (comment : Bool) (t : Text) :
    ∃ g rest comment', t = g ++ rest ∧ g.length = blankLength comment t ∧ Passed comment g comment' ∧
      blankLength comment' rest = 0 := by
  fun_induction blankLength comment t with
  | case1 comment => exact ⟨[], [], comment, rfl, rfl, .nil, rfl⟩
  | case2 t =>
    refine ⟨[], '\n' :: t, true, rfl, rfl, .nil, ?_⟩
    unfold blankLength
    rw [if_pos rfl, if_pos rfl]
  | case3 c t hc ih =>
    obtain ⟨g, rest, comment', rfl, hlength, hpassed, hend⟩ := ih
    exact ⟨c :: g, rest, comment', rfl, congrArg (· + 1) hlength, .body hc hpassed, hend⟩
  | case4 comment c t hcomment hc ih =>
    obtain rfl := Bool.eq_false_iff.2 hcomment
    obtain ⟨g, rest, comment', rfl, hlength, hpassed, hend⟩ := ih
    exact ⟨c :: g, rest, comment', rfl, congrArg (· + 1) hlength, .blank hc hpassed, hend⟩
  | case5 comment t hcomment hc ih =>
    obtain rfl := Bool.eq_false_iff.2 hcomment
    obtain ⟨g, rest, comment', rfl, hlength, hpassed, hend⟩ := ih
    exact ⟨'#' :: g, rest, comment', rfl, congrArg (· + 1) hlength, .comment hpassed, hend⟩
  | case6 comment hcomment t hc hhash ih =>
    obtain rfl := Bool.eq_false_iff.2 hcomment
    obtain ⟨g, rest, comment', rfl, hlength, hpassed, hend⟩ := ih
    exact ⟨'\\' :: '\n' :: g, rest, comment', rfl, congrArg (· + 2) hlength, .line hpassed, hend⟩
  | case7 comment hcomment t hc hhash ih =>
    obtain rfl := Bool.eq_false_iff.2 hcomment
    obtain ⟨g, rest, comment', rfl, hlength, hpassed, hend⟩ := ih
    exact ⟨'\\' :: '\r' :: '\n' :: g, rest, comment', rfl, congrArg (· + 3) hlength, .returnLine hpassed, hend⟩
  | case8 comment t hcomment hline hreturn hc hhash =>
    obtain rfl := Bool.eq_false_iff.2 hcomment
    refine ⟨[], '\\' :: t, false, rfl, rfl, .nil, ?_⟩
    unfold blankLength
    rw [if_neg Bool.false_ne_true, if_neg hc, if_neg hhash, if_pos rfl]
    split
    · exact absurd rfl (hline _)
    · exact absurd rfl (hreturn _)
    · rfl
  | case9 comment c t hcomment hc hhash hescape =>
    obtain rfl := Bool.eq_false_iff.2 hcomment
    refine ⟨[], c :: t, false, rfl, rfl, .nil, ?_⟩
    unfold blankLength
    rw [if_neg Bool.false_ne_true, if_neg hc, if_neg hhash, if_neg hescape]

/-- A text that is passed over outside comments begins with what ends a lexeme. -/
theorem Passed.breaks (h : Passed false g comment) (hne : g ≠ []) (t : Text) : Breaks (g ++ t) := by
  cases h with
  | nil => exact absurd rfl hne
  | blank hc h =>
    rintro _ ⟨⟩
    exact List.mem_cons_of_mem _ (List.mem_cons_of_mem _ (List.mem_cons_of_mem _ (isBlank_iff.1 hc)))
  | comment h | line h | returnLine h =>
    rintro _ ⟨⟩
    decide

theorem blankLength_newline (comment : Bool) (t : Text) : blankLength comment ('\n' :: t) = 0 := by
  unfold blankLength
  cases comment
  · rw [if_neg Bool.false_ne_true, if_neg (by decide), if_neg (by decide), if_neg (by decide)]
  · rw [if_pos rfl, if_pos rfl]

/-- A token that ends in front of the place where the text changes is read as before. -/
theorem scan_within {lexeme : Lexeme} (hscan : scan ((u ++ y).drop (blankLength false (u ++ y))) = .ok lexeme)
    (hend : lexeme.kind ≠ .eof) (hle : blankLength false (u ++ y) + lexeme.length ≤ u.length) (hw : Breaks w)
    (hcall : lexeme.kind = .funcName → blankLength false (u ++ y) + lexeme.length < u.length) :
    blankLength false (u ++ w) = blankLength false (u ++ y) ∧
      scan ((u ++ w).drop (blankLength false (u ++ y))) = .ok lexeme := by
  have hpos := (length_of_scan hscan).2 hend
  obtain ⟨g, rest, comment, heq, hlength, hpassed, hzero⟩ := exists_passed false (u ++ y)
  rw [← hlength] at hscan hle hcall ⊢
  -- What is passed over is a part of the text that stays.
  obtain ⟨v, rfl⟩ : g <+: u := by
    refine List.prefix_of_prefix_length_le ?_ (List.prefix_append u y) (by omega)
    exact heq ▸ List.prefix_append g rest
  rw [List.append_assoc, List.append_right_inj] at heq
  subst heq
  rw [List.length_append] at hle hcall
  rw [List.append_assoc, List.drop_left] at hscan
  have hne : v ≠ [] := by
    rintro rfl
    rw [List.length_nil] at hle
    omega
  have hscan' : scan (v ++ w) = .ok lexeme := scan_append hw hne hscan (by omega) fun hkind => by
    have hlt := hcall hkind
    omega
  rw [List.append_assoc, List.drop_left, hpassed.blankLength]
  refine ⟨?_, hscan'⟩
  cases comment with
  | false => rw [blankLength_of_scan hscan', Nat.add_zero]
  | true =>
    obtain ⟨c, v, rfl⟩ := List.exists_cons_of_ne_nil hne
    by_cases hc : c = '\n'
    · rw [hc, List.cons_append, blankLength_newline, Nat.add_zero]
    · rw [List.cons_append, blankLength_body hc] at hzero
      cases hzero

/-- And so is a regular expression, if the new text closes none of the classes that it leaves open. -/
theorem scanRegex_within {v : Text} {lexeme : Lexeme} (h : scanRegex (v ++ y) = .ok lexeme)
    (hle : lexeme.length ≤ v.length)
    (hopen : ∀ mark ∈ openMarks false ((v.drop 1).take (lexeme.length - 2)),
      ∀ v', Text.find? [mark, ']'] (v' ++ y) = none → Text.find? [mark, ']'] (v' ++ w) = none) :
    scanRegex (v ++ w) = .ok lexeme := by
  unfold scanRegex at h ⊢
  split at h
  · rename_i value length hbody
    cases h
    obtain ⟨c, v, rfl⟩ : ∃ c v', v = c :: v' := List.exists_cons_of_ne_nil (by rintro rfl; simp at hle)
    rw [List.cons_append, List.tail_cons] at hbody
    obtain ⟨body, rest, heq, rfl, halone, hmarks⟩ := regexBody_eq hbody
    simp only [List.length_cons] at hle
    -- The closing slash is in the text that stays.
    obtain ⟨v', rfl⟩ : body ++ ['/'] <+: v := by
      refine List.prefix_of_prefix_length_le ?_ (List.prefix_append v y) (by simp; omega)
      rw [heq]
      exact ⟨rest, by simp⟩
    have hrest : rest = v' ++ y := by simpa using heq.symm
    subst hrest
    have hbody' : regexBody false (body ++ '/' :: (v' ++ w)) = some (value, body.length) := by
      refine regexBody_append halone fun mark hmark => hopen mark ?_ v' (hmarks mark hmark)
      simpa using hmark
    rw [List.cons_append, List.tail_cons, List.append_assoc, List.append_assoc, List.singleton_append, hbody']
  · cases h

end Lexeme

/-- What stands between the first character of a token and the last. -/
def Token.inner (source : Text) (token : Token) : Text :=
  (source.drop (token.span.start + 1)).take (token.span.stop - token.span.start - 2)

namespace Cursor

variable {place : Span → Span} {u y w : Text} {c c' behind : Cursor} {found : Token}

/-- The place of a lexeme of some length. -/
def span (c : Cursor) (length : Nat) : Span := ⟨c.line, c.column, c.offset, c.offset + length⟩

theorem skipBlanks_rest (c : Cursor) : c.skipBlanks.rest = c.rest.drop (Lexeme.blankLength false c.rest) :=
  advance_rest _ c

theorem regex_length {lexeme : Lexeme} {slash : Token} {after : Cursor} (hslash : c.token = .ok (slash, after))
    (hkind : slash.kind = .slash ∨ slash.kind = .divAssign) (h : Lexeme.scanRegex c.skipBlanks.rest = .ok lexeme) :
    2 ≤ lexeme.length ∧ lexeme.length ≤ c.skipBlanks.rest.length := by
  obtain ⟨htwo, hle⟩ := Lexeme.length_of_scanRegex h
  refine ⟨htwo, hle fun hnil => ?_⟩
  obtain ⟨lexeme', hscan, rfl, -⟩ := token_iff.1 hslash
  rw [hnil] at hscan
  cases hscan
  rcases hkind with hkind | hkind <;> cases hkind

/-! ### Behind the change -/

/-- The same text in another place. -/
structure Moved (place : Span → Span) (c c' : Cursor) : Prop where
  rest : c'.rest = c.rest
  span : ∀ {n length}, 0 < length → n + length ≤ c.rest.length →
    place ((c.advance n).span length) = (c'.advance n).span length

namespace Moved

theorem advance (h : Moved place c c') (k : Nat) : Moved place (c.advance k) (c'.advance k) := by
  refine ⟨by rw [advance_rest, advance_rest, h.rest], fun {n length} hpos hle => ?_⟩
  rw [advance_rest, List.length_drop] at hle
  rw [← advance_add, ← advance_add]
  exact h.span hpos (by omega)

theorem skipBlanks (h : Moved place c c') : Moved place c.skipBlanks c'.skipBlanks := by
  unfold Cursor.skipBlanks
  rw [h.rest]
  exact h.advance _

theorem token (h : Moved place c.skipBlanks c'.skipBlanks) (htoken : c.token = .ok (found, behind)) :
    ∃ token' behind', c'.token = .ok (token', behind') ∧ token'.kind = found.kind ∧
      (found.kind ≠ .eof → token' = found.placed place) ∧ Moved place behind behind' := by
  obtain ⟨lexeme, hscan, rfl, rfl⟩ := token_iff.1 htoken
  obtain ⟨hle, hpos⟩ := Lexeme.length_of_scan hscan
  refine ⟨⟨lexeme.kind, lexeme.value, c'.skipBlanks.span lexeme.length⟩, c'.skipBlanks.advance lexeme.length,
    token_iff.2 ⟨lexeme, h.rest ▸ hscan, rfl, rfl⟩, rfl, fun hend => ?_, h.advance _⟩
  exact congrArg (Token.mk lexeme.kind lexeme.value) (h.span (n := 0) (hpos hend) (by omega)).symm

theorem regex (h : Moved place c.skipBlanks c'.skipBlanks) {slash : Token} {after : Cursor}
    (hslash : c.token = .ok (slash, after)) (hkind : slash.kind = .slash ∨ slash.kind = .divAssign)
    (hregex : c.regex = .ok (found, behind)) :
    ∃ behind', c'.regex = .ok (found.placed place, behind') ∧ Moved place behind behind' := by
  obtain ⟨lexeme, hscan, rfl, rfl⟩ := regex_iff.1 hregex
  obtain ⟨htwo, hle⟩ := regex_length hslash hkind hscan
  refine ⟨c'.skipBlanks.advance lexeme.length, regex_iff.2 ⟨lexeme, h.rest ▸ hscan, ?_, rfl⟩, h.advance _⟩
  exact congrArg (Token.mk lexeme.kind lexeme.value) (h.span (n := 0) (by omega) (by omega))

end Moved

/-! ### In front of the change -/

/-- The same place in a text that has `w` behind `u` where the other one has `y`. -/
structure Still (place : Span → Span) (u y w : Text) (c c' : Cursor) : Prop where
  rest : c.rest = u ++ y
  eq : c' = { c with rest := u ++ w }
  span : ∀ {n length}, 0 < length → n + length ≤ u.length → place ((c.advance n).span length) = (c.advance n).span length

theorem advance_with {k : Nat} (h : c.rest = u ++ y) (hk : k ≤ u.length) :
    ({ c with rest := u ++ w } : Cursor).advance k = { c.advance k with rest := u.drop k ++ w } := by
  induction k generalizing c u with
  | zero => rfl
  | succ k ih =>
    cases u with
    | nil => exact absurd hk (Nat.not_succ_le_zero k)
    | cons d u =>
      rw [Cursor.advance, Cursor.advance, h]
      simp only [List.cons_append, List.drop_succ_cons]
      split
      · exact ih (c := ⟨u ++ y, c.offset + 1, c.line + 1, 1⟩) rfl (Nat.le_of_succ_le_succ hk)
      · exact ih (c := ⟨u ++ y, c.offset + 1, c.line, c.column + 1⟩) rfl (Nat.le_of_succ_le_succ hk)

namespace Still

theorem advance (h : Still place u y w c c') {k : Nat} (hk : k ≤ u.length) :
    Still place (u.drop k) y w (c.advance k) (c'.advance k) := by
  refine ⟨?_, ?_, fun {n length} hpos hle => ?_⟩
  · rw [advance_rest, h.rest, List.drop_append_of_le_length hk]
  · rw [h.eq, advance_with h.rest hk]
  · rw [List.length_drop] at hle
    rw [← advance_add]
    exact h.span hpos (by omega)

/-- A token that ends in front of the change. -/
theorem token (h : Still place u y w c c') (hw : Breaks w) (htoken : c.token = .ok (found, behind))
    (hend : found.kind ≠ .eof) (hle : y.length ≤ behind.rest.length)
    (hcall : found.kind = .funcName → y.length < behind.rest.length) :
    ∃ behind' u', c'.token = .ok (found, behind') ∧ found.placed place = found ∧ Still place u' y w behind behind' ∧
      Still place (u.drop (Lexeme.blankLength false c.rest)) y w c.skipBlanks c'.skipBlanks := by
  obtain ⟨lexeme, hscan, rfl, rfl⟩ := token_iff.1 htoken
  obtain ⟨hlength, hpos⟩ := Lexeme.length_of_scan hscan
  have hpos := hpos hend
  have hblank := Lexeme.blankLength_le false c.rest
  rw [skipBlanks_rest, List.length_drop] at hlength
  rw [advance_rest, List.length_drop, skipBlanks_rest, List.length_drop] at hle hcall
  rw [skipBlanks_rest] at hscan
  have hsum : c.rest.length = u.length + y.length := by rw [h.rest, List.length_append]
  rw [h.rest] at hscan
  obtain ⟨hblank', hscan'⟩ := Lexeme.scan_within hscan hend (by rw [← h.rest]; omega) hw fun hkind => by
    have hlt := hcall hkind
    rw [← h.rest]
    omega
  rw [← h.rest] at hblank' hscan'
  have hrest' : c'.rest = u ++ w := by rw [h.eq]
  have hskip : Still place (u.drop (Lexeme.blankLength false c.rest)) y w c.skipBlanks c'.skipBlanks := by
    unfold skipBlanks
    rw [hrest', hblank']
    exact h.advance (by omega)
  have hspan := hskip.span (n := 0) hpos (by rw [List.length_drop]; omega)
  refine ⟨c'.skipBlanks.advance lexeme.length, _, token_iff.2 ⟨lexeme, ?_, ?_, rfl⟩, ?_, hskip.advance ?_, hskip⟩
  · rw [skipBlanks_rest, hrest', hblank']
    exact hscan'
  · rw [hskip.eq]
  · exact congrArg (Token.mk lexeme.kind lexeme.value) hspan
  · rw [List.length_drop]
    omega

/-- A regular expression that ends in front of the change, if the new text closes none of the classes that it leaves
open. -/
theorem regex {source : Text} (h : Still place u y w c c') (hw : Breaks w) {slash : Token} {after : Cursor}
    (hslash : c.token = .ok (slash, after)) (hkind : slash.kind = .slash ∨ slash.kind = .divAssign)
    (hregex : c.regex = .ok (found, behind)) (hle : y.length ≤ behind.rest.length)
    (hsource : c.skipBlanks.rest = source.drop c.skipBlanks.offset)
    (hopen : ∀ mark ∈ Lexeme.openMarks false (found.inner source),
      ∀ v, Text.find? [mark, ']'] (v ++ y) = none → Text.find? [mark, ']'] (v ++ w) = none) :
    ∃ after' behind' u', c'.token = .ok (slash, after') ∧ slash.placed place = slash ∧
      c'.regex = .ok (found, behind') ∧ found.placed place = found ∧ Still place u' y w behind behind' := by
  obtain ⟨lexeme, hscan, rfl, rfl⟩ := regex_iff.1 hregex
  obtain ⟨htwo, hlength⟩ := regex_length hslash hkind hscan
  obtain ⟨sign, hsign, rfl, rfl⟩ := token_iff.1 hslash
  have hshort := Lexeme.length_of_slash hsign hkind
  rw [advance_rest, List.length_drop] at hle
  obtain ⟨after', _, hslash', hsame, -, hskip⟩ := h.token hw hslash
    (by rcases hkind with hkind | hkind <;> rw [hkind] <;> decide)
    (by rw [advance_rest, List.length_drop]; omega)
    (fun hcall => by rw [hcall] at hkind; rcases hkind with hkind | hkind <;> cases hkind)
  have hinside : lexeme.length ≤ (u.drop (Lexeme.blankLength false c.rest)).length := by
    rw [hskip.rest, List.length_append] at hlength hle
    omega
  have hinner : (⟨lexeme.kind, lexeme.value, c.skipBlanks.span lexeme.length⟩ : Token).inner source =
      ((u.drop (Lexeme.blankLength false c.rest)).drop 1).take (lexeme.length - 2) := by
    have hlength' : c.skipBlanks.offset + lexeme.length - c.skipBlanks.offset - 2 = lexeme.length - 2 := by omega
    rw [Token.inner, Cursor.span, ← List.drop_drop, ← hsource, hskip.rest, hlength', List.drop_append_of_le_length (by omega),
      List.take_append_of_le_length (by rw [List.length_drop]; omega)]
  have hscan' : Lexeme.scanRegex c'.skipBlanks.rest = .ok lexeme := by
    rw [hskip.eq]
    exact Lexeme.scanRegex_within (hskip.rest ▸ hscan) hinside (hinner ▸ hopen)
  have hspan := hskip.span (n := 0) (by omega) (by omega : 0 + lexeme.length ≤ _)
  refine ⟨after', c'.skipBlanks.advance lexeme.length, _, hslash', hsame, regex_iff.2 ⟨lexeme, hscan', ?_, rfl⟩, ?_,
    hskip.advance hinside⟩
  · rw [hskip.eq]
  · exact congrArg (Token.mk lexeme.kind lexeme.value) hspan

end Still

end Cursor

end Awk
