import Awk.Proofs.Numerals.Longest
import Awk.Proofs.Syntax.Places.Extent
import Awk.Syntax.Prune
import Mathlib.Data.List.TakeWhile

/-!
# Number literals

The lexer takes superscripts and circled digits for digits, which are none in a numeral.  A number literal means what
its text means as numeric text if its digits are decimal ones (`Decimal`), and else it is not folded
(`literal_of_token`): with decimal digits the text that the lexer takes is a numeral, and no numeral has other digits.
-/

namespace Awk

open Lexeme (digits fraction signText numberText startsNumber)
open Unicode (decimalValue? isDecimal isDigit)

/-- The digits of the text have decimal values. -/
def Decimal (t : Text) : Prop := ∀ c ∈ t, isDigit c = true → isDecimal c = true

theorem decimal_append {t u : Text} : Decimal (t ++ u) ↔ Decimal t ∧ Decimal u := List.forall_mem_append

theorem decimal_cons {c : Char} {t : Text} : Decimal (c :: t) ↔ (isDigit c = true → isDecimal c = true) ∧ Decimal t :=
  List.forall_mem_cons

/-! ### Literals that are numerals -/

namespace Numeral

variable {t : Text}

/-- The characters of a numeral that are no digits. -/
def marks : List Char := ['+', '-', '.', 'e', 'E']

theorem isDigit_mark {c : Char} (hc : c ∈ marks) : isDigit c = false := by
  have hall : marks.all (isDigit · == false) = true := by decide
  exact eq_of_beq (List.all_eq_true.1 hall c hc)

theorem isDigit_of_mem {c : Char} (hc : c ∈ digits t) : isDigit c = true := List.mem_takeWhile_imp hc

theorem Sign.marks {negative : Bool} (h : Sign t negative) : ∀ c ∈ t, c ∈ marks := by
  cases h <;> simp [Numeral.marks]

theorem exists_digits (h : Decimal (digits t)) : ∃ ds, Digits (digits t) ds ∧ (ds = [] → digits t = []) := by
  have hall : ∀ c ∈ digits t, isDecimal c = true := fun c hc => h c hc (isDigit_of_mem hc)
  generalize digits t = w at hall
  induction w with
  | nil => exact ⟨[], rfl, fun _ => rfl⟩
  | cons c w ih =>
    obtain ⟨hc, hw⟩ := List.forall_mem_cons.1 hall
    obtain ⟨d, hd⟩ := Option.isSome_iff_exists.1 hc
    obtain ⟨ds, hds, -⟩ := ih hw
    refine ⟨d :: ds, List.cons_eq_cons.2 ⟨hd, hds⟩, fun hnil => ?_⟩
    cases hnil

theorem fraction_cases (t : Text) : fraction t = [] ∨ ∃ u, t = '.' :: u ∧ fraction t = '.' :: digits u := by
  unfold fraction
  split
  · exact .inr ⟨_, rfl, rfl⟩
  · exact .inl rfl

/-- A number begins with a digit, or with a point before one. -/
theorem digits_or_fraction (h : startsNumber t = true) :
    digits t ≠ [] ∨ ∃ c u, t = '.' :: c :: u ∧ digits (c :: u) ≠ [] := by
  have hhead {c : Char} (hc : isDigit c = true) (u : Text) : digits (c :: u) ≠ [] := by
    rw [digits, List.takeWhile_cons_of_pos hc]
    exact List.cons_ne_nil _ _
  unfold startsNumber at h
  split at h
  · exact .inr ⟨_, _, rfl, hhead h _⟩
  · exact .inl (hhead h _)
  · cases h

theorem exists_mantissa (hstart : startsNumber t = true) (h : Decimal (digits t))
    (h' : Decimal (fraction (t.drop (digits t).length))) :
    ∃ ds fs, Mantissa (digits t ++ fraction (t.drop (digits t).length)) ds fs := by
  obtain ⟨ds, hds, hempty⟩ := exists_digits h
  rcases fraction_cases (t.drop (digits t).length) with hnone | ⟨u, hu, hfraction⟩
  · rw [hnone, List.append_nil]
    refine ⟨ds, [], .whole hds fun hnil => ?_⟩
    rcases digits_or_fraction hstart with hne | ⟨c, u, rfl, hne⟩
    · exact hne (hempty hnil)
    · rw [hempty hnil] at hnone
      cases hnone
  · rw [hfraction] at h' ⊢
    obtain ⟨fs, hfs, hempty'⟩ := exists_digits (decimal_cons.1 h').2
    refine ⟨ds, fs, .point hds hfs fun hnil => ?_⟩
    obtain ⟨hnil, hnil'⟩ := List.append_eq_nil_iff.1 hnil
    rcases digits_or_fraction hstart with hne | ⟨c, u', rfl, hne⟩
    · exact hne (hempty hnil)
    · rw [hempty hnil] at hu
      obtain rfl : c :: u' = u := (List.cons.inj hu).2
      exact hne (hempty' hnil')

theorem sign_signText (t : Text) : ∃ negative, Sign (signText t) negative := by
  unfold signText
  split
  · exact ⟨_, .plus⟩
  · exact ⟨_, .minus⟩
  · exact ⟨_, .none⟩

theorem exponent_cases (t : Text) :
    Lexeme.exponent t = [] ∨ ∃ c u, (c = 'e' ∨ c = 'E') ∧ digits (u.drop (signText u).length) ≠ [] ∧
      Lexeme.exponent t = c :: (signText u ++ digits (u.drop (signText u).length)) := by
  cases t with
  | nil => exact .inl rfl
  | cons c u =>
    rw [Lexeme.exponent_cons]
    by_cases hletter : (c = 'e' || c = 'E') = true
    · rw [if_pos hletter]
      cases hdigits : digits (u.drop (signText u).length) with
      | nil => exact .inl rfl
      | cons d w =>
        refine .inr ⟨c, u, by simpa using hletter, ?_, ?_⟩
        · rw [hdigits]
          exact List.cons_ne_nil _ _
        · rw [hdigits]
          rfl
    · rw [if_neg hletter]
      exact .inl rfl

theorem exists_exponent (h : Decimal (Lexeme.exponent t)) : ∃ e, Exponent (Lexeme.exponent t) e := by
  rcases exponent_cases t with hnone | ⟨c, u, hletter, hne, hexponent⟩
  · rw [hnone]
    exact ⟨0, .none⟩
  · rw [hexponent] at h ⊢
    obtain ⟨negative, hsign⟩ := sign_signText u
    obtain ⟨ds, hds, hempty⟩ := exists_digits (decimal_append.1 (decimal_cons.1 h).2).2
    exact ⟨_, .digits hletter hsign hds fun hnil => hne (hempty hnil)⟩

theorem isNumeral_numberText (hstart : startsNumber t = true) (h : Decimal (numberText t)) :
    IsNumeral (numberText t) := by
  rw [Lexeme.numberText_eq] at h ⊢
  obtain ⟨hmantissa, hexponent⟩ := decimal_append.1 h
  obtain ⟨hwhole, hfraction⟩ := decimal_append.1 hmantissa
  obtain ⟨ds, fs, hwrites⟩ := exists_mantissa hstart hwhole hfraction
  obtain ⟨e, he⟩ := exists_exponent hexponent
  exact ⟨_, .intro .none hwrites he⟩

/-! ### Numerals have decimal digits -/

theorem Digits.decimal {ds : List Nat} (h : Digits t ds) : Decimal t := fun _ hc _ => isSome_of_digits h hc

theorem decimal_of_marks (h : ∀ c ∈ t, c ∈ marks) : Decimal t := by
  intro c hc hdigit
  rw [isDigit_mark (h c hc)] at hdigit
  cases hdigit

theorem Sign.decimal {negative : Bool} (h : Sign t negative) : Decimal t := decimal_of_marks h.marks

theorem Mantissa.decimal {ds fs : List Nat} (h : Mantissa t ds fs) : Decimal t := by
  cases h with
  | whole ht hne => exact ht.decimal
  | @point t _ u _ ht hu hne =>
    have hpoint : Decimal ['.'] := decimal_of_marks (by simp [marks])
    have htail : Decimal ('.' :: u) := decimal_append.2 ⟨hpoint, hu.decimal⟩
    exact decimal_append.2 ⟨ht.decimal, htail⟩

theorem Exponent.decimal {e : Int} (h : Exponent t e) : Decimal t := by
  cases h with
  | none => exact decimal_of_marks (by simp [marks])
  | @digits c s negative w ds hc hs hw hne =>
    have hletter : Decimal [c] := decimal_of_marks (by rcases hc with rfl | rfl <;> simp [marks])
    have htail : Decimal (s ++ w) := decimal_append.2 ⟨hs.decimal, hw.decimal⟩
    exact decimal_append.2 ⟨hletter, htail⟩

theorem IsNumeral.decimal (h : IsNumeral t) : Decimal t := by
  obtain ⟨n, ⟨hs, ht, hu⟩⟩ := h
  exact decimal_append.2 ⟨hs.decimal, decimal_append.2 ⟨ht.decimal, hu.decimal⟩⟩

/-! ### The value of a literal -/

theorem Writes.literalNumber {n : Numeral} (h : Writes t n) : literalNumber t = .ok (.num n.toNumber) := by
  rw [Awk.literalNumber, h.read?]

theorem literalNumber_of_not (h : ¬IsNumeral t) : literalNumber t = .error (.badNumeral t) := by
  unfold Awk.literalNumber
  split
  · rename_i n hread
    obtain ⟨w, hw, hwrites⟩ := exists_of_read? hread
    rw [List.append_nil] at hw
    exact absurd ⟨n, hw ▸ hwrites⟩ h
  · rfl

/-- Of a literal every character is a digit or a mark. -/
theorem digit_or_mark {c : Char} (hc : c ∈ numberText t) : isDigit c = true ∨ c ∈ marks := by
  rw [Lexeme.numberText_eq, List.mem_append, List.mem_append] at hc
  rcases hc with (hc | hc) | hc
  · exact .inl (isDigit_of_mem hc)
  · rcases fraction_cases (t.drop (digits t).length) with hnone | ⟨u, -, hfraction⟩
    · rw [hnone] at hc
      cases hc
    · rw [hfraction, List.mem_cons] at hc
      rcases hc with rfl | hc
      · exact .inr (by decide)
      · exact .inl (isDigit_of_mem hc)
  · rcases exponent_cases (t.drop ((digits t).length + (fraction (t.drop (digits t).length)).length)) with
      hnone | ⟨d, u, hletter, -, hexponent⟩
    · rw [hnone] at hc
      cases hc
    · rw [hexponent, List.mem_cons, List.mem_append] at hc
      rcases hc with rfl | hc | hc
      · exact .inr (by rcases hletter with rfl | rfl <;> decide)
      · obtain ⟨negative, hsign⟩ := sign_signText u
        exact .inr (hsign.marks c hc)
      · exact .inl (isDigit_of_mem hc)

theorem not_blank_of_mem {c : Char} (hc : c ∈ numberText t) : ¬isNumericBlank c = true := by
  have hblanks : " \t\n\r\x0c\x0b".toList.all (fun c => decide (isDigit c = false ∧ c ∉ marks)) = true := by
    decide +kernel
  intro hblank
  obtain ⟨hdigit, hmark⟩ := of_decide_eq_true (List.all_eq_true.1 hblanks c (List.contains_iff_mem.1 hblank))
  rcases digit_or_mark hc with h | h
  · rw [h] at hdigit
    cases hdigit
  · exact hmark h

theorem dropWhile_blank (h : ∀ c ∈ t, ¬isNumericBlank c = true) : t.dropWhile isNumericBlank = t := by
  cases t with
  | nil => rfl
  | cons c t => exact List.dropWhile_cons_of_neg (h c List.mem_cons_self)

/-- A text without blanks in it is numeric if it is a numeral. -/
theorem looksNumeric_iff (h : ∀ c ∈ t, ¬isNumericBlank c = true) : looksNumeric t = true ↔ IsNumeral t := by
  rw [looksNumeric, dropWhile_blank h]
  constructor
  · intro hnumeric
    split at hnumeric
    · rename_i n rest hread
      obtain ⟨w, rfl, hwrites⟩ := exists_of_read? hread
      -- What follows the numeral is blank, and there are no blanks.
      have hnone : rest = [] := by
        refine List.eq_nil_iff_forall_not_mem.2 fun c hc => ?_
        exact h c (List.mem_append_right w hc) (List.all_eq_true.1 hnumeric c hc)
      rw [hnone, List.append_nil]
      exact ⟨n, hwrites⟩
    · cases hnumeric
  · rintro ⟨n, hwrites⟩
    rw [hwrites.read?]
    rfl

theorem Writes.numericValue {n : Numeral} (hwrites : Writes t n) (h : ∀ c ∈ t, ¬isNumericBlank c = true) :
    numericValue t = n.toNumber := by
  rw [Awk.numericValue, dropWhile_blank h, hwrites.read?]

end Numeral

/-! ### Number tokens -/

theorem Lexeme.number_of_scan {t : Text} {lexeme : Lexeme} (h : scan t = .ok lexeme) (hkind : lexeme.kind = .number) :
    startsNumber t = true ∧ lexeme.value = numberText t := by
  have hoperators : ∀ entry ∈ operators, entry.2 ≠ .number := by decide
  unfold scan at h
  split at h
  · cases h
    cases hkind
  split at h
  · cases h
    cases hkind
  split at h
  · split at h <;> cases h
    cases hkind
  split at h
  · rename_i hstart
    cases h
    exact ⟨hstart, rfl⟩
  exfalso
  split at h
  · cases h
    exact absurd hkind (nameKind_ne (by decide) (by simp) (by decide) (by decide) _ _)
  · split at h
    · rename_i op kind hfound
      cases h
      exact hoperators _ (List.mem_of_find?_eq_some hfound) hkind
    · cases h

/-- What a number literal is folded to: the value of its text, which is numeric, or nothing. -/
theorem literal_of_token {cursor behind : Cursor} {token : Token} (h : cursor.token = .ok (token, behind))
    (hkind : token.kind = .number) :
    (Decimal token.text →
        literalNumber token.text = .ok (.num (numericValue token.text)) ∧ looksNumeric token.text = true) ∧
      (¬Decimal token.text →
        literalNumber token.text = .error (.badNumeral token.text) ∧ looksNumeric token.text = false) := by
  obtain ⟨lexeme, hscan, rfl, -⟩ := Cursor.token_iff.1 h
  obtain ⟨hstart, hvalue⟩ := Lexeme.number_of_scan hscan hkind
  dsimp only
  rw [hvalue]
  have hblanks : ∀ c ∈ numberText cursor.skipBlanks.rest, ¬isNumericBlank c = true := fun _ => Numeral.not_blank_of_mem
  constructor
  · intro hdecimal
    have hnumeral := Numeral.isNumeral_numberText hstart hdecimal
    refine ⟨?_, (Numeral.looksNumeric_iff hblanks).2 hnumeral⟩
    obtain ⟨n, hwrites⟩ := hnumeral
    rw [hwrites.literalNumber, hwrites.numericValue hblanks]
  · intro hloose
    have hnot : ¬Numeral.IsNumeral (numberText cursor.skipBlanks.rest) := fun hnumeral => hloose hnumeral.decimal
    refine ⟨Numeral.literalNumber_of_not hnot, ?_⟩
    rw [Bool.eq_false_iff]
    intro hnumeric
    exact hnot ((Numeral.looksNumeric_iff hblanks).1 hnumeric)

end Awk
