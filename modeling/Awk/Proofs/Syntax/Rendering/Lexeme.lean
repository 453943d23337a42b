import Awk.Syntax.Cursor
import Mathlib.Data.List.Find

/-!
# Lexemes and what follows them

Blanks, line ends, comments and continued line ends tell the scanner where the lexeme before them ends.  A lexeme that
lies within a text is the same lexeme whatever follows the text, if that begins in one of these ways
(`Lexeme.scan_append`); only a name may no longer be directly before a parenthesis.
-/

namespace Awk

/-- The characters that are blanks. -/
def Lexeme.blanks : List Char := [' ', '\t', '\r', '\x0c', '\x0b']

/-- The characters that a lexeme ends before. -/
def Lexeme.breaks : List Char := '\n' :: '#' :: '\\' :: Lexeme.blanks

/-- Nothing follows, or a blank does. -/
def Apart (t : Text) : Prop := ∀ c ∈ t.head?, Lexeme.isBlank c = true

/-- Nothing follows, or what ends the lexeme before it. -/
def Breaks (t : Text) : Prop := ∀ c ∈ t.head?, c ∈ Lexeme.breaks

theorem Lexeme.isBlank_iff {c : Char} : isBlank c = true ↔ c ∈ blanks := by
  simp [isBlank, blanks, or_assoc]

theorem Apart.breaks {r : Text} (hr : Apart r) : Breaks r := by
  intro c hc
  have hblank := Lexeme.isBlank_iff.1 (hr c hc)
  simp [Lexeme.breaks, hblank]

theorem Breaks.head {p : Char → Bool} (hall : ∀ c ∈ Lexeme.breaks, p c = false) {r : Text} (hr : Breaks r) :
    ∀ c ∈ r.head?, p c = false :=
  fun c hc => hall c (hr c hc)

theorem Breaks.ne {c d : Char} {r : Text} (hd : d ∉ Lexeme.breaks) (hr : Breaks (c :: r)) : c ≠ d := by
  rintro rfl
  exact hd (hr c rfl)

namespace Lexeme

variable {t r : Text}

/-! ### Tables -/

/-- What ends a lexeme, or begins a regular expression, is neither in the table of digits nor in the one of letters. -/
theorem all_plain : (('.' :: '/' :: breaks).all fun c => !Unicode.isDigit c && !startsName c) &&
    (breaks.all fun c => !continuesName c) := by
  decide

theorem isDigit_of_mem {c : Char} (hc : c ∈ '.' :: '/' :: breaks) : Unicode.isDigit c = false ∧ startsName c = false := by
  have hall := (Bool.and_eq_true_iff.1 all_plain).1
  simpa using List.all_eq_true.1 hall c hc

theorem isDigit_of_mem_breaks {c : Char} (hc : c ∈ breaks) : Unicode.isDigit c = false :=
  (isDigit_of_mem (by simp [hc])).1

theorem continuesName_of_mem {c : Char} (hc : c ∈ breaks) : continuesName c = false := by
  have hall := (Bool.and_eq_true_iff.1 all_plain).2
  simpa using List.all_eq_true.1 hall c hc

/-- No operator is empty or has a character in it that ends a lexeme, and those that begin with a slash are division
and its assignment. -/
theorem all_operators : ∀ entry ∈ operators, entry.1.toList ≠ [] ∧
    (entry.1.toList.all fun d => !breaks.contains d) ∧
      (entry.1.toList.head? = some '/' → entry.2 = .slash ∨ entry.2 = .divAssign) := by
  decide

theorem not_mem_of_operator {entry : String × TokenKind} (hentry : entry ∈ operators) {c : Char}
    (hc : c ∈ entry.1.toList) : c ∉ breaks := by
  simpa using List.all_eq_true.1 (all_operators entry hentry).2.1 c hc

theorem takeWhile_append {p : Char → Bool} (hr : ∀ c ∈ r.head?, p c = false) (t : Text) :
    (t ++ r).takeWhile p = t.takeWhile p := by
  induction t with
  | nil =>
    cases r with
    | nil => rfl
    | cons c r => rw [List.nil_append, List.takeWhile_cons_of_neg (by simp [hr c rfl]), List.takeWhile_nil]
  | cons c t ih => rw [List.cons_append, List.takeWhile_cons, List.takeWhile_cons, ih]

/-- What is found within a text does not depend on what follows the text. -/
theorem takeWhile_of_append {p : Char → Bool} (h : ((t ++ r).takeWhile p).length ≤ t.length) :
    (t ++ r).takeWhile p = t.takeWhile p := by
  induction t with
  | nil => exact List.eq_nil_of_length_eq_zero (Nat.le_zero.1 h)
  | cons c t ih =>
    rw [List.cons_append, List.takeWhile_cons] at h ⊢
    rw [List.takeWhile_cons]
    split
    · rename_i hc
      rw [if_pos hc, List.length_cons, List.length_cons] at h
      rw [ih (Nat.le_of_succ_le_succ h)]
    · rfl

/-! ### Numbers -/

theorem digits_append (hr : Breaks r) (t : Text) : digits (t ++ r) = digits t :=
  takeWhile_append (hr.head fun _ => isDigit_of_mem_breaks) t

theorem digits_length_le (t : Text) : (digits t).length ≤ t.length := (List.takeWhile_prefix _).length_le

theorem fraction_append (hr : Breaks r) (t : Text) : fraction (t ++ r) = fraction t := by
  have hempty : fraction r = [] := by
    cases r with
    | nil => rfl
    | cons c r =>
      have hpoint : c ≠ '.' := hr.ne (by decide)
      simp [fraction, hpoint]
  cases t with
  | nil => exact hempty
  | cons c t =>
    by_cases hc : c = '.'
    · subst hc
      change '.' :: digits (t ++ r) = '.' :: digits t
      rw [digits_append hr]
    · simp [fraction, hc]

theorem fraction_of_append (h : (fraction (t ++ r)).length ≤ t.length) : fraction (t ++ r) = fraction t := by
  cases t with
  | nil => exact List.eq_nil_of_length_eq_zero (Nat.le_zero.1 h)
  | cons c t =>
    by_cases hc : c = '.'
    · subst hc
      have hle : (digits (t ++ r)).length ≤ t.length := Nat.le_of_succ_le_succ h
      change '.' :: digits (t ++ r) = '.' :: digits t
      rw [digits, takeWhile_of_append hle, digits]
    · simp [fraction, hc]

theorem fraction_length_le (t : Text) : (fraction t).length ≤ t.length := by
  unfold fraction
  split
  · exact Nat.succ_le_succ (digits_length_le _)
  · exact Nat.zero_le _

/-- The sign at the start of an exponent. -/
def signText : Text → Text
  | '+' :: _ => ['+']
  | '-' :: _ => ['-']
  | _ => []

theorem signText_append (hr : Breaks r) (t : Text) : signText (t ++ r) = signText t := by
  cases t with
  | nil =>
    cases r with
    | nil => rfl
    | cons c r =>
      have hplus : c ≠ '+' := hr.ne (by decide)
      have hminus : c ≠ '-' := hr.ne (by decide)
      simp [signText, hplus, hminus]
  | cons c t =>
    by_cases hplus : c = '+'
    · subst hplus
      rfl
    · by_cases hminus : c = '-'
      · subst hminus
        rfl
      · simp [signText, hplus, hminus]

theorem exponent_cons (e : Char) (t : Text) :
    exponent (e :: t) =
      if e = 'e' || e = 'E' then
        match digits (t.drop (signText t).length) with
        | [] => []
        | ds => e :: signText t ++ ds
      else [] :=
  rfl

theorem signText_length_le (t : Text) : (signText t).length ≤ t.length := by
  unfold signText
  split <;> simp

theorem exponent_append (hr : Breaks r) (t : Text) : exponent (t ++ r) = exponent t := by
  cases t with
  | nil =>
    cases r with
    | nil => rfl
    | cons c r =>
      have hlower : c ≠ 'e' := hr.ne (by decide)
      have hupper : c ≠ 'E' := hr.ne (by decide)
      simp [exponent, hlower, hupper]
  | cons e t =>
    rw [List.cons_append, exponent_cons, exponent_cons, signText_append hr,
      List.drop_append_of_le_length (signText_length_le t), digits_append hr]

theorem exponent_of_append (h : (exponent (t ++ r)).length ≤ t.length) : exponent (t ++ r) = exponent t := by
  cases t with
  | nil => exact List.eq_nil_of_length_eq_zero (Nat.le_zero.1 h)
  | cons e t =>
    rw [List.cons_append, exponent_cons] at h ⊢
    rw [exponent_cons]
    split
    · rename_i he
      rw [if_pos he] at h
      cases t with
      | nil =>
        -- An exponent has a digit behind its letter.
        cases hdigits : digits (([] ++ r).drop (signText ([] ++ r)).length) with
        | nil => rfl
        | cons d ds =>
          rw [hdigits] at h
          simp at h
      | cons c t =>
        have hsign : signText (c :: t ++ r) = signText (c :: t) := by
          rw [List.cons_append]
          unfold signText
          split <;> simp_all
        have hle := signText_length_le (c :: t)
        rw [hsign, List.drop_append_of_le_length hle] at h ⊢
        have hdigits : digits ((c :: t).drop (signText (c :: t)).length ++ r) =
            digits ((c :: t).drop (signText (c :: t)).length) := by
          refine takeWhile_of_append ?_
          rw [← digits, List.length_drop]
          split at h
          · rename_i hnone
            rw [hnone]
            exact Nat.zero_le _
          · simp only [List.cons_append, List.length_cons, List.length_append] at h ⊢
            omega
        rw [hdigits]
    · rfl

theorem exponent_length_le (t : Text) : (exponent t).length ≤ t.length := by
  cases t with
  | nil => exact Nat.le_refl _
  | cons e t =>
    have hsign := signText_length_le t
    have hdigits := digits_length_le (t.drop (signText t).length)
    rw [List.length_drop] at hdigits
    rw [exponent_cons]
    split
    · split
      · exact Nat.zero_le _
      · simp only [List.cons_append, List.length_cons, List.length_append]
        omega
    · exact Nat.zero_le _

theorem numberText_eq (t : Text) :
    numberText t = digits t ++ fraction (t.drop (digits t).length) ++
      exponent (t.drop ((digits t).length + (fraction (t.drop (digits t).length)).length)) :=
  rfl

theorem numberText_append (hr : Breaks r) (t : Text) : numberText (t ++ r) = numberText t := by
  have hwhole := digits_length_le t
  have hpoint := fraction_length_le (t.drop (digits t).length)
  rw [List.length_drop] at hpoint
  rw [numberText_eq, numberText_eq, digits_append hr, List.drop_append_of_le_length hwhole, fraction_append hr,
    List.drop_append_of_le_length (by omega), exponent_append hr]

theorem numberText_of_append (h : (numberText (t ++ r)).length ≤ t.length) : numberText (t ++ r) = numberText t := by
  rw [numberText_eq, List.length_append, List.length_append] at h
  have hwhole : digits (t ++ r) = digits t := takeWhile_of_append (show (digits (t ++ r)).length ≤ t.length by omega)
  have hwhole_le := digits_length_le t
  rw [hwhole, List.drop_append_of_le_length hwhole_le] at h
  have hpoint : fraction (t.drop (digits t).length ++ r) = fraction (t.drop (digits t).length) := by
    refine fraction_of_append ?_
    rw [List.length_drop]
    omega
  have hpoint_le := fraction_length_le (t.drop (digits t).length)
  rw [List.length_drop] at hpoint_le
  rw [hpoint, List.drop_append_of_le_length (by omega)] at h
  have hexponent : exponent (t.drop ((digits t).length + (fraction (t.drop (digits t).length)).length) ++ r) =
      exponent (t.drop ((digits t).length + (fraction (t.drop (digits t).length)).length)) := by
    refine exponent_of_append ?_
    rw [List.length_drop]
    omega
  rw [numberText_eq, numberText_eq, hwhole, List.drop_append_of_le_length hwhole_le, hpoint,
    List.drop_append_of_le_length (by omega), hexponent]

theorem numberText_length_le (t : Text) : (numberText t).length ≤ t.length := by
  have hwhole := digits_length_le t
  have hpoint := fraction_length_le (t.drop (digits t).length)
  have hexponent := exponent_length_le (t.drop ((digits t).length + (fraction (t.drop (digits t).length)).length))
  rw [List.length_drop] at hpoint hexponent
  rw [numberText_eq, List.length_append, List.length_append]
  omega

theorem numberText_pos {c : Char} (h : startsNumber (c :: t) = true) : 0 < (numberText (c :: t)).length := by
  rw [numberText_eq, List.length_append, List.length_append]
  by_cases hc : Unicode.isDigit c = true
  · have hwhole : digits (c :: t) = c :: digits t := List.takeWhile_cons_of_pos hc
    rw [hwhole, List.length_cons]
    omega
  · have hpoint : c = '.' := by
      by_contra hne
      simp [startsNumber, hne, hc] at h
    have hwhole : digits (c :: t) = [] := List.takeWhile_cons_of_neg hc
    subst hpoint
    rw [hwhole]
    simp only [List.length_nil, List.drop_zero, fraction, List.length_cons]
    omega

theorem startsNumber_append (hr : Breaks r) (c : Char) (t : Text) :
    startsNumber (c :: t ++ r) = startsNumber (c :: t) := by
  by_cases hc : c = '.'
  · subst hc
    cases t with
    | nil =>
      cases r with
      | nil => rfl
      | cons d r =>
        have hpoint : Unicode.isDigit '.' = false := (isDigit_of_mem List.mem_cons_self).1
        have hd : Unicode.isDigit d = false := hr.head (p := Unicode.isDigit) (fun _ => isDigit_of_mem_breaks) d rfl
        exact hd.trans hpoint.symm
    | cons d t => rfl
  · simp [startsNumber, hc]

/-- A text that begins with a number begins with a longer one if it is not the start of the number alone. -/
theorem startsNumber_of_append {c : Char}
    (h : startsNumber (c :: t ++ r) = true → (numberText (c :: t ++ r)).length ≤ (c :: t).length) :
    startsNumber (c :: t ++ r) = startsNumber (c :: t) := by
  by_cases hc : c = '.'
  · subst hc
    cases t with
    | nil =>
      have hpoint : Unicode.isDigit '.' = false := (isDigit_of_mem List.mem_cons_self).1
      cases r with
      | nil => rfl
      | cons d r =>
        cases hd : Unicode.isDigit d with
        | false => exact hd.trans hpoint.symm
        | true =>
          have hwhole : digits ('.' :: d :: r) = [] := List.takeWhile_cons_of_neg (by simp [hpoint])
          have hfirst : digits (d :: r) = d :: digits r := List.takeWhile_cons_of_pos hd
          have hle := h hd
          simp [numberText_eq, hwhole, fraction, hfirst] at hle
    | cons d t => rfl
  · simp [startsNumber, hc]

/-! ### Strings -/

theorem stringBody_cons {c : Char} (hquote : c ≠ '"') (hnewline : c ≠ '\n') (hescape : c ≠ '\\') (t : Text) :
    stringBody (c :: t) = (stringBody t).map (c :: ·) := by
  rw [stringBody]
  · exact hquote
  · exact hnewline
  · exact fun _ _ h _ => hescape h

theorem stringBody_append {body : Text} (h : stringBody t = some body) (r : Text) :
    stringBody (t ++ r) = some body := by
  induction t using stringBody.induct generalizing body with
  | case1 => cases h
  | case2 => exact h
  | case3 => cases h
  | case4 c t ih =>
    obtain ⟨rest, hrest, rfl⟩ := Option.map_eq_some_iff.1 h
    change (stringBody (t ++ r)).map _ = _
    rw [ih hrest]
    rfl
  | case5 c t hquote hnewline hescape ih =>
    by_cases hc : c = '\\'
    · subst hc
      cases t with
      | nil => cases h
      | cons d t => exact absurd rfl (hescape d t rfl)
    · rw [stringBody_cons hquote hnewline hc] at h
      obtain ⟨rest, hrest, rfl⟩ := Option.map_eq_some_iff.1 h
      rw [List.cons_append, stringBody_cons hquote hnewline hc, ih hrest]
      rfl

/-- The closing quote is the first character behind the text of a string literal. -/
theorem stringBody_eq {body : Text} (h : stringBody t = some body) : ∃ r, t = body ++ '"' :: r ∧
    stringBody (body ++ ['"']) = some body := by
  induction t using stringBody.induct generalizing body with
  | case1 => cases h
  | case2 t =>
    cases h
    exact ⟨t, rfl, rfl⟩
  | case3 => cases h
  | case4 c t ih =>
    obtain ⟨rest, hrest, rfl⟩ := Option.map_eq_some_iff.1 h
    obtain ⟨r, rfl, halone⟩ := ih hrest
    refine ⟨r, rfl, ?_⟩
    change (stringBody (rest ++ ['"'])).map _ = _
    rw [halone]
    rfl
  | case5 c t hquote hnewline hescape ih =>
    by_cases hc : c = '\\'
    · subst hc
      cases t with
      | nil => cases h
      | cons d t => exact absurd rfl (hescape d t rfl)
    · rw [stringBody_cons hquote hnewline hc] at h
      obtain ⟨rest, hrest, rfl⟩ := Option.map_eq_some_iff.1 h
      obtain ⟨r, rfl, halone⟩ := ih hrest
      refine ⟨r, rfl, ?_⟩
      rw [List.cons_append, stringBody_cons hquote hnewline hc, halone]
      rfl

theorem stringBody_of_append {body : Text} (h : stringBody (t ++ r) = some body) (hle : body.length < t.length) :
    stringBody t = some body := by
  obtain ⟨r', heq, halone⟩ := stringBody_eq h
  have htake : t = body ++ '"' :: t.drop (body.length + 1) := by
    have hprefix : body ++ ['"'] <+: t ++ r := ⟨r', by simp [heq]⟩
    have hprefix' := List.prefix_of_prefix_length_le hprefix (List.prefix_append t r) (by simp; omega)
    obtain ⟨u, rfl⟩ := hprefix'
    simp
  rw [htake]
  simpa using stringBody_append halone (t.drop (body.length + 1))

/-! ### Names -/

theorem nameKind_append (hr : Breaks r) (name : Text) : nameKind name r = nameKind name [] := by
  have hopen : (r.head? == some '(') = false := by
    cases r with
    | nil => rfl
    | cons c r =>
      have hc : c ≠ '(' := hr.ne (by decide)
      simpa using hc
  unfold nameKind
  rw [hopen]
  rfl

/-- Only a name that stands directly before a parenthesis is told apart by what follows it. -/
theorem nameKind_of_ne {name : Text} (h : nameKind name r ≠ .funcName) : nameKind name r = nameKind name [] := by
  unfold nameKind at h ⊢
  split
  · rfl
  · rename_i hkeyword
    rw [hkeyword] at h
    split
    · rfl
    · rename_i hbuiltin
      rw [hbuiltin] at h
      split
      · rename_i hopen
        simp [hopen] at h
      · rfl

/-! ### Operators -/

theorem startsWith_iff {p : Text} : Text.startsWith t p = true ↔ p <+: t := by
  induction t generalizing p with
  | nil => cases p <;> simp [Text.startsWith, Text.dropPrefix?]
  | cons c t ih =>
    cases p with
    | nil => simp [Text.startsWith, Text.dropPrefix?]
    | cons d p =>
      have hrest := ih (p := p)
      unfold Text.startsWith at hrest ⊢
      rw [Text.dropPrefix?, List.cons_prefix_cons]
      split
      · rename_i hcd
        rw [hrest]
        simp [hcd]
      · rename_i hcd
        simp [Ne.symm hcd]

theorem startsWith_append (hr : Breaks r) {p : Text} (hp : ∀ c ∈ p, c ∉ breaks) (t : Text) :
    Text.startsWith (t ++ r) p = Text.startsWith t p := by
  rw [Bool.eq_iff_iff, startsWith_iff, startsWith_iff]
  constructor
  · intro h
    refine List.prefix_of_prefix_length_le h (List.prefix_append t r) ?_
    -- A longer one would have the break in it that the rest begins with.
    by_contra hlt
    obtain ⟨u, rfl⟩ := List.prefix_of_prefix_length_le (List.prefix_append t r) h (by omega)
    cases u with
    | nil => simp at hlt
    | cons c u =>
      rw [List.prefix_append_right_inj] at h
      obtain ⟨v, rfl⟩ := h
      exact hp c (by simp) (hr c rfl)
  · intro h
    exact h.trans (List.prefix_append t r)

theorem operator?_append (hr : Breaks r) (t : Text) : operator? (t ++ r) = operator? t := by
  unfold operator?
  exact List.find?_congr fun entry hentry => startsWith_append hr (fun c hc => not_mem_of_operator hentry hc) t

theorem operator?_of_append {entry : String × TokenKind} (h : operator? (t ++ r) = some entry)
    (hle : entry.1.toList.length ≤ t.length) : operator? t = some entry := by
  unfold operator? at h ⊢
  rw [List.find?_eq_some_iff_append] at h ⊢
  obtain ⟨hstarts, before, after, heq, hbefore⟩ := h
  refine ⟨?_, before, after, heq, fun other hother => ?_⟩
  · rw [startsWith_iff] at hstarts ⊢
    exact List.prefix_of_prefix_length_le hstarts (List.prefix_append t r) hle
  · have hnot := hbefore other hother
    rw [Bool.not_eq_true', Bool.eq_false_iff, ne_eq, startsWith_iff] at hnot ⊢
    exact fun hother => hnot (hother.trans (List.prefix_append t r))

/-- The operator that a text begins with begins as the text does. -/
theorem operator?_head {c : Char} {entry : String × TokenKind} (h : operator? (c :: t) = some entry) :
    entry ∈ operators ∧ entry.1.toList.head? = some c ∧ entry.1.toList.length ≤ t.length + 1 := by
  have hmem := List.mem_of_find?_eq_some h
  have hstarts := List.find?_some h
  rw [startsWith_iff] at hstarts
  obtain ⟨d, p, hp⟩ := List.exists_cons_of_ne_nil (all_operators entry hmem).1
  refine ⟨hmem, ?_, hstarts.length_le⟩
  rw [hp] at hstarts ⊢
  rw [(List.cons_prefix_cons.1 hstarts).1, List.head?_cons]

/-! ### Lexemes -/

/-- What a lexeme covers: no more than the text, and something unless the text is at its end. -/
theorem length_of_scan {lexeme : Lexeme} (h : scan t = .ok lexeme) :
    lexeme.length ≤ t.length ∧ (lexeme.kind ≠ .eof → 0 < lexeme.length) := by
  cases t with
  | nil =>
    cases h
    exact ⟨Nat.le_refl _, fun hend => absurd rfl hend⟩
  | cons c t =>
    unfold scan at h
    dsimp only at h
    split at h
    · cases h
      exact ⟨Nat.le_add_left _ _, fun _ => Nat.one_pos⟩
    split at h
    · split at h
      · rename_i body hbody
        cases h
        obtain ⟨r, rfl, -⟩ := stringBody_eq hbody
        simp
      · cases h
    split at h
    · cases h
      exact ⟨numberText_length_le _, fun _ => numberText_pos ‹_›⟩
    split at h
    · rename_i hname
      cases h
      have hfirst : continuesName c = true := by
        simp only [startsName, Bool.or_eq_true] at hname
        rcases hname with hname | hname <;> simp [continuesName, Unicode.isAlphanumeric, hname]
      refine ⟨(List.takeWhile_prefix _).length_le, fun _ => ?_⟩
      simp [plain, List.takeWhile_cons_of_pos hfirst]
    · split at h
      · rename_i op kind hfound
        cases h
        obtain ⟨hmem, -, hle⟩ := operator?_head hfound
        exact ⟨hle, fun _ => List.length_pos_iff.2 (all_operators _ hmem).1⟩
      · cases h

/-- Only a string literal is not spelt as its value. -/
theorem length_eq_of_scan {lexeme : Lexeme} (h : scan t = .ok lexeme) (hstring : lexeme.kind ≠ .string) :
    lexeme.length = lexeme.value.length := by
  unfold scan at h
  split at h
  · cases h
    rfl
  split at h
  · cases h
    rfl
  split at h
  · split at h
    · cases h
      exact absurd rfl hstring
    · cases h
  split at h
  · cases h
    rfl
  split at h
  · cases h
    rfl
  split at h
  · cases h
    rfl
  · cases h

/-- A function name stands directly before a parenthesis. -/
theorem head_of_scan_funcName {lexeme : Lexeme} (h : scan t = .ok lexeme) (hkind : lexeme.kind = .funcName) :
    (t.drop lexeme.length).head? = some '(' := by
  have hoperators : ∀ entry ∈ operators, entry.2 ≠ .funcName := by decide
  cases t with
  | nil =>
    cases h
    cases hkind
  | cons c t =>
    unfold scan at h
    dsimp only at h
    split at h
    · cases h
      cases hkind
    split at h
    · split at h
      · cases h
        cases hkind
      · cases h
    split at h
    · cases h
      cases hkind
    split at h
    · cases h
      by_contra hopen
      have hkeywords : ∀ entry ∈ keywords, entry.2 ≠ .funcName := by decide
      simp only [plain, nameKind] at hkind hopen
      split at hkind
      · rename_i hkeyword
        obtain ⟨entry, hentry, rfl⟩ := Option.map_eq_some_iff.1 hkeyword
        exact hkeywords entry (List.mem_of_find?_eq_some hentry) hkind
      · split at hkind
        · cases hkind
        · rw [if_neg (by simpa using hopen)] at hkind
          cases hkind
    · split at h
      · rename_i op kind hfound
        cases h
        exact absurd hkind (hoperators _ (List.mem_of_find?_eq_some hfound))
      · cases h

/-- A name is of one of the four kinds that names have. -/
theorem nameKind_ne {kind : TokenKind} (hkeywords : ∀ entry ∈ keywords, entry.2 ≠ kind)
    (hbuiltin : ∀ b, .builtin b ≠ kind) (hcall : .funcName ≠ kind) (hname : .name ≠ kind) (name rest : Text) :
    nameKind name rest ≠ kind := by
  unfold nameKind
  split
  · rename_i hkeyword
    obtain ⟨entry, hentry, rfl⟩ := Option.map_eq_some_iff.1 hkeyword
    exact hkeywords entry (List.mem_of_find?_eq_some hentry)
  · split
    · exact hbuiltin _
    · split
      · exact hcall
      · exact hname

/-- The end of the text is read only there. -/
theorem eq_nil_of_scan_eof {lexeme : Lexeme} (h : scan t = .ok lexeme) (hkind : lexeme.kind = .eof) : t = [] := by
  have hoperators : ∀ entry ∈ operators, entry.2 ≠ .eof := by decide
  unfold scan at h
  split at h
  · rfl
  exfalso
  split at h
  · cases h
    cases hkind
  split at h
  · split at h <;> cases h
    cases hkind
  split at h
  · cases h
    cases hkind
  split at h
  · cases h
    exact absurd hkind (nameKind_ne (by decide) (by simp) (by decide) (by decide) _ _)
  · split at h
    · rename_i op kind hfound
      cases h
      exact hoperators _ (List.mem_of_find?_eq_some hfound) hkind
    · cases h

/-- A lexeme within a text is the same whatever follows the text, if that ends lexemes and the lexeme is not a function
name that ends where the text does. -/
theorem scan_append {r' : Text} (hr' : Breaks r') {lexeme : Lexeme} (hne : t ≠ []) (h : scan (t ++ r) = .ok lexeme)
    (hle : lexeme.length ≤ t.length) (hcall : lexeme.kind = .funcName → lexeme.length < t.length) :
    scan (t ++ r') = .ok lexeme := by
  cases t with
  | nil => exact absurd rfl hne
  | cons c t =>
    -- What comes first decides in both texts which kind of lexeme is read.
    rw [List.cons_append] at h ⊢
    unfold scan at h ⊢
    dsimp only at h ⊢
    split at h
    · rename_i hnewline
      rw [if_pos hnewline]
      exact h
    rename_i hnewline
    rw [if_neg hnewline]
    split at h
    · rename_i hquote
      rw [if_pos hquote]
      split at h
      · rename_i body hbody
        cases h
        have hshort : body.length < t.length := by
          simp only [List.length_cons] at hle
          omega
        rw [stringBody_append (stringBody_of_append hbody hshort)]
      · cases h
    rename_i hquote
    rw [if_neg hquote, ← List.cons_append, startsNumber_append hr']
    rw [← List.cons_append] at h
    split at h
    · rename_i hnumber
      cases h
      have heq : numberText (c :: t ++ r) = numberText (c :: t) := numberText_of_append hle
      rw [startsNumber_of_append fun _ => hle] at hnumber
      rw [if_pos hnumber, heq, numberText_append hr']
    rename_i hnumber
    rw [startsNumber_of_append fun h => absurd h hnumber] at hnumber
    rw [if_neg hnumber]
    split at h
    · rename_i hname
      cases h
      have heq : (c :: t ++ r).takeWhile continuesName = (c :: t).takeWhile continuesName := takeWhile_of_append hle
      rw [if_pos hname, takeWhile_append (hr'.head fun _ => continuesName_of_mem), heq]
      rw [heq] at hle hcall
      simp only [plain] at hle hcall
      generalize (c :: t).takeWhile continuesName = name at hle hcall ⊢
      rw [List.drop_append_of_le_length hle] at hcall ⊢
      rw [List.drop_append_of_le_length hle]
      cases hrest : (c :: t).drop name.length with
      | nil =>
        -- The name ends the text, so it is none that a parenthesis follows.
        have hend : ¬name.length < (c :: t).length := Nat.not_lt.2 (List.drop_eq_nil_iff.1 hrest)
        rw [hrest, List.nil_append] at hcall
        rw [List.nil_append, List.nil_append, nameKind_append hr', nameKind_of_ne fun hkind => hend (hcall hkind)]
      | cons d rest => rfl
    rename_i hname
    rw [if_neg hname, operator?_append hr']
    split at h
    · rename_i op kind hfound
      cases h
      rw [operator?_of_append hfound hle]
    · cases h

/-- A text that is one lexeme on its own. -/
theorem scan_whole (hr : Breaks r) {kind : TokenKind} {value : Text} (hne : t ≠ [])
    (h : scan t = .ok ⟨kind, value, t.length⟩) : scan (t ++ r) = .ok ⟨kind, value, t.length⟩ := by
  refine scan_append (r := []) hr hne (by rw [List.append_nil]; exact h) (Nat.le_refl _) fun hkind => ?_
  have hopen := head_of_scan_funcName h hkind
  simp at hopen

/-- A slash is read as one of two operators, whatever follows it. -/
theorem scan_slash (t : Text) :
    ∃ lexeme, scan ('/' :: t) = .ok lexeme ∧ (lexeme.kind = .slash ∨ lexeme.kind = .divAssign) := by
  have hsome : (operator? ('/' :: t)).isSome = true :=
    List.find?_isSome.2 ⟨("/", .slash), by decide, by cases t <;> rfl⟩
  obtain ⟨entry, hentry⟩ := Option.isSome_iff_exists.1 hsome
  obtain ⟨hmem, hhead, -⟩ := operator?_head hentry
  have hslash := (all_operators entry hmem).2.2 hhead
  obtain ⟨hdigit, hname⟩ := isDigit_of_mem (List.mem_cons_of_mem '.' List.mem_cons_self)
  have hnumber : startsNumber ('/' :: t) = false := hdigit
  refine ⟨plain entry.2 entry.1.toList, ?_, hslash⟩
  unfold scan
  dsimp only
  rw [if_neg (by decide), if_neg (by decide), hnumber, hname, hentry]
  rfl

/-- What begins neither a lexeme nor a text of blanks and comments. -/
theorem scan_passed {c : Char} (hc : c ∈ '#' :: '\\' :: blanks) (t : Text) :
    scan (c :: t) = .error (.strangeCharacter c) := by
  have hbreak : c ∈ breaks := List.mem_cons_of_mem '\n' hc
  obtain ⟨hdigit, hname⟩ := isDigit_of_mem (List.mem_cons_of_mem '.' (List.mem_cons_of_mem '/' hbreak))
  have hnewline : c ≠ '\n' := by
    rintro rfl
    simp [blanks] at hc
  have hquote : c ≠ '"' := by
    rintro rfl
    simp [blanks] at hc
  have hpoint : c ≠ '.' := by
    rintro rfl
    simp [blanks] at hc
  have hnumber : startsNumber (c :: t) = false := by simpa [startsNumber, hpoint] using hdigit
  have hnone : operator? (c :: t) = none := by
    cases hoperator : operator? (c :: t) with
    | none => rfl
    | some entry =>
      obtain ⟨hmem, hhead, -⟩ := operator?_head hoperator
      exact absurd hbreak (not_mem_of_operator hmem (List.mem_of_mem_head? hhead))
  unfold scan
  dsimp only
  rw [if_neg hnewline, if_neg hquote, hnumber, hname, hnone]
  rfl

theorem blankLength_of_scan {lexeme : Lexeme} (h : scan t = .ok lexeme) : blankLength false t = 0 := by
  cases t with
  | nil => rfl
  | cons c t =>
    have hc : c ∉ '#' :: '\\' :: blanks := by
      intro hc
      rw [scan_passed hc] at h
      cases h
    simp only [blanks, List.mem_cons, List.not_mem_nil, or_false, not_or] at hc
    unfold blankLength
    simp [isBlank, hc]

theorem blankLength_append {b : Text} (hb : ∀ c ∈ b, isBlank c = true) (ht : blankLength false t = 0) :
    blankLength false (b ++ t) = b.length := by
  induction b with
  | nil => exact ht
  | cons c b ih =>
    obtain ⟨hc, hb⟩ := List.forall_mem_cons.1 hb
    rw [List.cons_append]
    unfold blankLength
    rw [if_neg Bool.false_ne_true, if_pos hc, ih hb, List.length_cons]

end Lexeme

namespace Cursor

theorem advance_rest (n : Nat) (cursor : Cursor) : (cursor.advance n).rest = cursor.rest.drop n := by
  induction n generalizing cursor with
  | zero => rfl
  | succ n ih =>
    rw [advance]
    split
    · rename_i hrest
      rw [hrest, List.drop_nil]
    · rename_i c t hrest
      rw [ih, hrest, List.drop_succ_cons]
      split <;> rfl

end Cursor

end Awk
