import Awk.Proofs.Regex.Brackets

/-!
# The pattern text of extended regular expressions

A well formed ERE becomes the pattern text that its tree says (`Regex.WellFormed.patternText_eq`).  The translation
goes through the ERE once, with one bit about what came before: whether a quantifier may follow.  It is set behind an
atom, and whatever else a well formed ERE goes on with is written the same in either state.
-/

namespace Awk

namespace Ere

/-! ### Writing pattern text -/

/-- The pattern text that is written for `t`, where `canRepeat` says whether a quantifier may come first. -/
def Writes (canRepeat : Bool) (t u : Text) : Prop :=
  ∀ fuel, t.length ≤ fuel → ∃ ps, piecesFuel fuel canRepeat t = .ok ps ∧ ps.flatMap Piece.render = u

theorem writes_nil (canRepeat : Bool) : Writes canRepeat [] [] := by
  intro fuel _
  cases fuel with
  | zero => exact ⟨[], rfl, rfl⟩
  | succ fuel => exact ⟨[], rfl, rfl⟩

theorem Writes.cons {canRepeat canRepeat' : Bool} {c : Char} {t rest u : Text} (piece : Piece)
    (hpiece : nextPiece canRepeat c t = .ok (piece, canRepeat', rest)) (hlength : rest.length ≤ t.length)
    (h : Writes canRepeat' rest u) : Writes canRepeat (c :: t) (piece.render ++ u) := by
  intro fuel hfuel
  obtain ⟨fuel, rfl⟩ := Nat.exists_eq_succ_of_ne_zero (Nat.ne_of_gt (Nat.lt_of_lt_of_le (Nat.succ_pos _) hfuel))
  obtain ⟨ps, hps, rfl⟩ := h fuel (Nat.le_trans hlength (Nat.le_of_succ_le_succ hfuel))
  refine ⟨piece :: ps, ?_, rfl⟩
  rw [piecesFuel, hpiece]
  change (piecesFuel fuel canRepeat' rest >>= fun ps => .ok (piece :: ps)) = .ok (piece :: ps)
  rw [hps]
  rfl

theorem Writes.patternText {t u : Text} (h : Writes false t u) : patternText t = .ok u := by
  obtain ⟨ps, hps, rfl⟩ := h t.length (Nat.le_refl _)
  rw [Ere.patternText, pieces, hps]
  rfl

theorem Glyph.IsLiteral.writes {g : Glyph} (h : g.IsLiteral) {canRepeat : Bool} {rest u : Text}
    (hrest : Writes true rest u) : Writes canRepeat (g.text ++ rest) (quote g.char ++ u) := by
  obtain ⟨c, escaped⟩ := g
  cases escaped with
  | true =>
    have halphanum : c.isAlphanum = false := h
    have hnamed : "sSwW".toList.contains c = false := by
      have hall : "sSwW".toList.all Char.isAlphanum = true := by decide
      rw [Bool.eq_false_iff]
      intro hc
      rw [List.all_eq_true.1 hall c (List.contains_iff_mem.1 hc)] at halphanum
      cases halphanum
    have hpiece : nextPiece canRepeat '\\' (c :: rest) = .ok (.literal c, true, rest) := by
      unfold nextPiece
      dsimp only
      rw [hnamed, takeEscape_eq halphanum]
      rfl
    exact Writes.cons (.literal c) hpiece (Nat.le_succ _) hrest
  | false =>
    have hplain : c ∉ "\\[*+?\x7b()|^$.".toList := h
    have hpiece : nextPiece canRepeat c rest = .ok (.literal c, true, rest) := by
      unfold nextPiece
      split
      all_goals simp_all
    exact Writes.cons (.literal c) hpiece (Nat.le_refl _) hrest

/-! ### Numerals -/

theorem decimalValue?_of_isDigit {c : Char} (h : c.isDigit) : Unicode.decimalValue? c = some (c.toNat - 48) := by
  obtain ⟨zeros, hzeros⟩ : ∃ zeros, Unicode.decimalZeros = 48 :: zeros := ⟨_, rfl⟩
  simp only [Char.isDigit, ge_iff_le, Bool.and_eq_true, decide_eq_true_eq, UInt32.le_iff_toNat_le] at h
  have hlow : ¬c.toNat < 48 := Nat.not_lt.2 h.1
  have hhigh : c.toNat < 48 + 10 := Nat.lt_succ_of_le h.2
  rw [Unicode.decimalValue?, hzeros, Unicode.valueFromZeros, if_neg hlow, if_pos hhigh]

theorem isDecimal_of_isDigit {c : Char} (h : c.isDigit) : Unicode.isDecimal c := by
  rw [Unicode.isDecimal, decimalValue?_of_isDigit h]
  rfl

theorem ofNat_ne_nil (n : Nat) : Text.ofNat n ≠ [] := Nat.toDigits_ne_nil

theorem isDigit_of_mem_ofNat {n : Nat} {c : Char} (h : c ∈ Text.ofNat n) : c.isDigit :=
  Nat.isDigit_of_mem_toDigits (by decide) (by decide) h

theorem number?_ofNat (n : Nat) : Pattern.number? (Text.ofNat n) = some n := by
  rw [Pattern.number?, if_neg (by simp [ofNat_ne_nil])]
  exact congrArg some (Nat.ofDigitChars_toDigits (by decide) (by decide))

/-- The numeral of a size is short. -/
theorem length_ofNat_le {n : Nat} (h : n < sizeLimit) : (Text.ofNat n).length ≤ numeralLimit := by
  have hdigits : (Text.ofNat n).length ≤ 19 :=
    (Nat.length_toDigits_le_iff (by decide) (by decide)).2 (Nat.lt_trans h (by decide))
  exact Nat.le_trans hdigits (by decide)

section Digits

variable {p : Char → Bool} (hp : ∀ c, c.isDigit → p c = true) (n : Nat) {c : Char} (hc : p c = false) (t : Text)

include hp hc

theorem takeWhile_ofNat : (Text.ofNat n ++ c :: t).takeWhile p = Text.ofNat n := by
  rw [List.takeWhile_append_of_pos fun d hd => hp d (isDigit_of_mem_ofNat hd),
    List.takeWhile_cons_of_neg (by simp [hc]), List.append_nil]

theorem dropWhile_ofNat : (Text.ofNat n ++ c :: t).dropWhile p = c :: t := by
  rw [List.dropWhile_append_of_pos fun d hd => hp d (isDigit_of_mem_ofNat hd),
    List.dropWhile_cons_of_neg (by simp [hc])]

end Digits

/-! ### Quantifiers -/

namespace Quantifier

theorem takeInterval_text (q : Quantifier) {t : Text} (hq : q.text = '\x7b' :: t) (rest : Text) :
    takeInterval (q.text ++ rest) = some (q.text, rest) := by
  have hcomma : Unicode.isDecimal ',' = false := by decide
  have hclose : Unicode.isDecimal '\x7d' = false := by decide
  have hdigit (c : Char) (h : c.isDigit) : Unicode.isDecimal c = true := isDecimal_of_isDigit h
  cases q with
  | star => cases hq
  | plus => cases hq
  | optional => cases hq
  | exactly n =>
    simp [takeInterval, text, takeWhile_ofNat hdigit n hclose, dropWhile_ofNat hdigit n hclose, ofNat_ne_nil, hclose]
  | atLeast n =>
    simp [takeInterval, text, takeWhile_ofNat hdigit n hcomma, dropWhile_ofNat hdigit n hcomma, ofNat_ne_nil, hclose]
  | between least most =>
    simp [takeInterval, text, takeWhile_ofNat hdigit _ hcomma, dropWhile_ofNat hdigit _ hcomma,
      takeWhile_ofNat hdigit _ hclose, dropWhile_ofNat hdigit _ hclose, ofNat_ne_nil]

theorem writes (q : Quantifier) {rest u : Text} (h : Writes true rest u) :
    Writes true (q.text ++ rest) (q.text ++ u) := by
  have hbrace {t : Text} (hq : q.text = '\x7b' :: t) : Writes true (q.text ++ rest) (q.text ++ u) := by
    have hinterval := q.takeInterval_text hq rest
    rw [hq] at hinterval ⊢
    have hpiece : nextPiece true '\x7b' (t ++ rest) = .ok (.quantifier ('\x7b' :: t), true, rest) := by
      unfold nextPiece
      dsimp only
      rw [← List.cons_append, hinterval]
      rfl
    exact Writes.cons (.quantifier ('\x7b' :: t)) hpiece (by simp) h
  cases q with
  | star => exact Writes.cons (.quantifier ['*']) rfl (Nat.le_refl _) h
  | plus => exact Writes.cons (.quantifier ['+']) rfl (Nat.le_refl _) h
  | optional => exact Writes.cons (.quantifier ['?']) rfl (Nat.le_refl _) h
  | exactly n => exact hbrace rfl
  | atLeast n => exact hbrace rfl
  | between least most => exact hbrace rfl

end Quantifier

/-! ### Whole expressions -/

namespace Regex

/-- The pattern text for an ERE. -/
def patternText : Regex → Text
  | empty => []
  | char g => quote g.char
  | any => ['.']
  | bracket b => '[' :: b.inSet
  | group r => '(' :: '?' :: ':' :: r.patternText ++ [')']
  | atStart => ['^']
  | atEnd => ['\\', 'Z']
  | quantified r q => r.patternText ++ q.text
  | concat r s => r.patternText ++ s.patternText
  | alt r s => r.patternText ++ '|' :: s.patternText

/-- What an atom is written as may be followed by a quantifier; behind the others it must not matter whether one may
come. -/
theorem WellFormed.writes {r : Regex} (h : r.WellFormed) {rest u : Text} (canRepeat : Bool) :
    (r.IsAtom → Writes true rest u → Writes canRepeat (r.text ++ rest) (r.patternText ++ u)) ∧
      ((∀ canRepeat, Writes canRepeat rest u) → Writes canRepeat (r.text ++ rest) (r.patternText ++ u)) := by
  induction r generalizing rest u canRepeat with
  | empty => exact ⟨False.elim, fun hrest => hrest canRepeat⟩
  | char g =>
    have hatom : Writes true rest u → Writes canRepeat (g.text ++ rest) (quote g.char ++ u) :=
      Glyph.IsLiteral.writes h
    exact ⟨fun _ => hatom, fun hrest => hatom (hrest true)⟩
  | any =>
    have hatom : Writes true rest u → Writes canRepeat ('.' :: rest) ('.' :: u) :=
      Writes.cons .any rfl (Nat.le_refl _)
    exact ⟨fun _ => hatom, fun hrest => hatom (hrest true)⟩
  | bracket b =>
    have hpiece : nextPiece canRepeat '[' (b.text ++ rest) = .ok (.bracket ('[' :: b.inSet), true, rest) := by
      unfold nextPiece
      dsimp only
      rw [Bracket.WellFormed.reads h rest]
      rfl
    have hatom : Writes true rest u → Writes canRepeat ('[' :: (b.text ++ rest)) ('[' :: b.inSet ++ u) :=
      Writes.cons (.bracket ('[' :: b.inSet)) hpiece (by simp)
    exact ⟨fun _ => hatom, fun hrest => hatom (hrest true)⟩
  | group r ih =>
    have hatom (hrest : Writes true rest u) :
        Writes canRepeat ((group r).text ++ rest) ((group r).patternText ++ u) := by
      have hclose (canRepeat : Bool) : Writes canRepeat (')' :: rest) (')' :: u) :=
        Writes.cons .closeGroup rfl (Nat.le_refl _) hrest
      have hopen : Writes canRepeat ('(' :: (r.text ++ ')' :: rest)) ("(?:".toList ++ (r.patternText ++ ')' :: u)) :=
        Writes.cons .openGroup rfl (Nat.le_refl _) ((ih h false).2 hclose)
      simpa [text, patternText] using hopen
    exact ⟨fun _ => hatom, fun hrest => hatom (hrest true)⟩
  | atStart => exact ⟨False.elim, fun hrest => Writes.cons .atStart rfl (Nat.le_refl _) (hrest false)⟩
  | atEnd => exact ⟨False.elim, fun hrest => Writes.cons .atEnd rfl (Nat.le_refl _) (hrest false)⟩
  | quantified r q ih =>
    refine ⟨False.elim, fun hrest => ?_⟩
    have hwrites := (ih h.2.1 canRepeat).1 h.1 (q.writes (hrest true))
    simpa [text, patternText] using hwrites
  | concat r s ihr ihs =>
    refine ⟨False.elim, fun hrest => ?_⟩
    have hwrites := (ihr h.1.2 canRepeat).2 fun canRepeat => (ihs h.2.2 canRepeat).2 hrest
    simpa [text, patternText] using hwrites
  | alt r s ihr ihs =>
    refine ⟨False.elim, fun hrest => ?_⟩
    have hbar (canRepeat : Bool) : Writes canRepeat ('|' :: (s.text ++ rest)) ('|' :: (s.patternText ++ u)) :=
      Writes.cons .bar rfl (Nat.le_refl _) ((ihs h.2 false).2 hrest)
    have hwrites := (ihr h.1 canRepeat).2 hbar
    simpa [text, patternText] using hwrites

theorem WellFormed.patternText_eq {r : Regex} (h : r.WellFormed) : Ere.patternText r.text = .ok r.patternText := by
  have hwrites := (h.writes false).2 writes_nil
  rw [List.append_nil, List.append_nil] at hwrites
  exact hwrites.patternText

end Regex

end Ere

end Awk
