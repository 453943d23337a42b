import Awk.NumericText
import Mathlib.Data.List.Infix
import Mathlib.Data.Nat.Digits.Defs

/-!
# The longest numeral

Which texts are numerals, and which number each of them writes, is said by a grammar (`Numeral.Writes`).  Reading takes
the longest numeral at the start of a text: what it takes is one (`Numeral.exists_of_read?`), and it takes no less than
any other (`Numeral.read?_append`).  So the value of a text is that of the longest numeral behind its leading blanks,
and the text is numeric if nothing but blanks follows this numeral (`numericValue_of_longest`).
-/

namespace Awk

open Unicode (decimalValue?)

namespace Numeral

/-! ### The grammar -/

/-- Decimal digits, of any script, and their values. -/
def Digits (t : Text) (values : List Nat) : Prop := t.map decimalValue? = values.map some

/-- A sign or none; the flag tells that it is a minus. -/
inductive Sign : Text → Bool → Prop
  | none : Sign [] false
  | plus : Sign ['+'] false
  | minus : Sign ['-'] true

/-- Digits with an optional point and further digits, or a point with digits. -/
inductive Mantissa : Text → List Nat → List Nat → Prop
  | whole {t ds} (ht : Digits t ds) (hne : ds ≠ []) : Mantissa t ds []
  | point {t ds u fs} (ht : Digits t ds) (hu : Digits u fs) (hne : ds ++ fs ≠ []) : Mantissa (t ++ '.' :: u) ds fs

/-- The number that digit values write in base ten, the first of them counting most. -/
def tens (values : List Nat) : Nat := Nat.ofDigits 10 values.reverse

/-- An exponent with at least one digit, or none. -/
inductive Exponent : Text → Int → Prop
  | none : Exponent [] 0
  | digits {c s negative t ds} (hc : c = 'e' ∨ c = 'E') (hs : Sign s negative) (ht : Digits t ds) (hne : ds ≠ []) :
    Exponent (c :: (s ++ t)) (if negative then -(tens ds : Int) else tens ds)

/-- The text is a numeral, and this one. -/
inductive Writes : Text → Numeral → Prop
  | intro {s negative t ds fs u e} (hs : Sign s negative) (ht : Mantissa t ds fs) (hu : Exponent u e) :
    Writes (s ++ (t ++ u)) ⟨negative, tens (ds ++ fs), e - fs.length⟩

/-- The text is a numeral. -/
def IsNumeral (t : Text) : Prop := ∃ n, Writes t n

/-! ### Digits -/

variable {t u r s w : Text} {ds fs : List Nat} {negative : Bool}

theorem ofDigits_eq (values : List Nat) : ofDigits values = tens values := by
  have hstep : (fun n d => 10 * n + d : Nat → Nat → Nat) = fun n d => (d : Nat) + 10 * n := by
    funext n d
    exact Nat.add_comm _ _
  rw [ofDigits, tens, Nat.ofDigits_eq_foldr, List.foldr_reverse, hstep]
  rfl

theorem digits_nil (h : Digits [] ds) : ds = [] := List.map_eq_nil_iff.1 h.symm

/-- Digits take the first of them from the text. -/
theorem digits_cons {c : Char} (h : Digits (c :: t) ds) :
    ∃ d rest, ds = d :: rest ∧ decimalValue? c = some d ∧ Digits t rest := by
  cases ds with
  | nil => cases h
  | cons d rest =>
    obtain ⟨hd, hrest⟩ := List.cons.inj h
    exact ⟨d, rest, rfl, hd, hrest⟩

theorem exists_cons_of_digits (h : Digits t ds) (hne : ds ≠ []) :
    ∃ c rest d, t = c :: rest ∧ decimalValue? c = some d := by
  cases t with
  | nil => exact absurd (digits_nil h) hne
  | cons c rest =>
    obtain ⟨d, -, -, hd, -⟩ := digits_cons h
    exact ⟨c, rest, d, rfl, hd⟩

theorem isSome_of_digits (h : Digits t ds) {c : Char} (hc : c ∈ t) : (decimalValue? c).isSome = true := by
  have hmem : decimalValue? c ∈ ds.map some := by
    rw [← h]
    exact List.mem_map_of_mem hc
  obtain ⟨d, -, hd⟩ := List.mem_map.1 hmem
  rw [← hd]
  rfl

/-- Marks are no digits. -/
theorem decimalValue?_mark {c : Char} (hc : c ∈ ['+', '-', '.', 'e', 'E']) : decimalValue? c = none := by
  have hall : ['+', '-', '.', 'e', 'E'].all (decimalValue? · == none) = true := by decide
  exact eq_of_beq (List.all_eq_true.1 hall c hc)

theorem takeDigits_cons_some {c : Char} {d : Nat} (hc : decimalValue? c = some d) (t : Text) :
    takeDigits (c :: t) = (d :: (takeDigits t).1, (takeDigits t).2) := by
  rw [takeDigits, hc]

theorem takeDigits_of_head (h : ∀ c ∈ t.head?, decimalValue? c = none) : takeDigits t = ([], t) := by
  cases t with
  | nil => rfl
  | cons c t => rw [takeDigits, h c rfl]

/-- Digits at the start are taken, and whatever digits follow them. -/
theorem takeDigits_append (h : Digits t ds) (r : Text) :
    takeDigits (t ++ r) = (ds ++ (takeDigits r).1, (takeDigits r).2) := by
  induction t generalizing ds with
  | nil =>
    rw [digits_nil h]
    rfl
  | cons c t ih =>
    obtain ⟨d, rest, rfl, hd, hrest⟩ := digits_cons h
    rw [List.cons_append, takeDigits_cons_some hd, ih hrest]
    rfl

/-- What is taken are digits. -/
theorem exists_of_takeDigits (t : Text) : ∃ w, t = w ++ (takeDigits t).2 ∧ Digits w (takeDigits t).1 := by
  induction t with
  | nil => exact ⟨[], rfl, rfl⟩
  | cons c t ih =>
    cases hc : decimalValue? c with
    | none =>
      have hnone : takeDigits (c :: t) = ([], c :: t) := by rw [takeDigits, hc]
      rw [hnone]
      exact ⟨[], rfl, rfl⟩
    | some d =>
      obtain ⟨w, hw, hdigits⟩ := ih
      rw [takeDigits_cons_some hc]
      refine ⟨c :: w, ?_, ?_⟩
      · rw [List.cons_append, ← hw]
      · exact List.cons_eq_cons.2 ⟨hc, hdigits⟩

/-- Where nothing is taken there are no digits. -/
theorem takeDigits_eq_nil (h : (takeDigits t).2 = t) : (takeDigits t).1 = [] := by
  obtain ⟨w, hw, hdigits⟩ := exists_of_takeDigits t
  rw [h] at hw
  have hempty : w = [] := by simpa using hw
  rw [hempty] at hdigits
  exact digits_nil hdigits

theorem takeDigits_suffix (t : Text) : (takeDigits t).2 <:+ t := by
  obtain ⟨w, hw, -⟩ := exists_of_takeDigits t
  exact ⟨w, hw.symm⟩

/-! ### Signs -/

theorem takeSign_of_ne {c : Char} (hminus : c ≠ '-') (hplus : c ≠ '+') (t : Text) :
    takeSign (c :: t) = (false, c :: t) := by
  rw [takeSign]
  · rintro _ ⟨⟩
    exact hminus rfl
  · rintro _ ⟨⟩
    exact hplus rfl

theorem takeSign_append (h : Sign s negative) {c : Char} (hminus : c ≠ '-') (hplus : c ≠ '+') (r : Text) :
    takeSign (s ++ c :: r) = (negative, c :: r) := by
  cases h with
  | none => exact takeSign_of_ne hminus hplus r
  | plus => rfl
  | minus => rfl

theorem exists_of_takeSign (t : Text) : ∃ s, t = s ++ (takeSign t).2 ∧ Sign s (takeSign t).1 := by
  unfold takeSign
  split
  · exact ⟨['-'], rfl, .minus⟩
  · exact ⟨['+'], rfl, .plus⟩
  · exact ⟨[], rfl, .none⟩

/-! ### Mantissas -/

/-- The digits at the start of a text, those behind a point after them, and the rest. -/
def takeMantissa (t : Text) : List Nat × List Nat × Text :=
  let (whole, afterWhole) := takeDigits t
  let (fraction, rest) := (takeFraction afterWhole).getD ([], afterWhole)
  (whole, fraction, rest)

/-- A fraction, if there is one, is a point and digits. -/
theorem takeFraction_cases (t : Text) :
    (∃ u, t = '.' :: u ∧ (takeFraction t).getD ([], t) = takeDigits u) ∨ (takeFraction t).getD ([], t) = ([], t) := by
  unfold takeFraction
  split
  · exact .inl ⟨_, rfl, rfl⟩
  · exact .inr rfl

theorem exists_of_takeMantissa {whole fraction : List Nat} {rest : Text}
    (h : takeMantissa t = (whole, fraction, rest)) (hne : whole ++ fraction ≠ []) :
    ∃ w, t = w ++ rest ∧ Mantissa w whole fraction := by
  obtain ⟨w, hw, hdigits⟩ := exists_of_takeDigits t
  unfold takeMantissa at h
  generalize takeDigits t = taken at h hw hdigits
  obtain ⟨taken, after⟩ := taken
  dsimp only at h hw hdigits
  rcases takeFraction_cases after with ⟨u, rfl, hfraction⟩ | hfraction
  · obtain ⟨v, hv, hmore⟩ := exists_of_takeDigits u
    rw [hfraction] at h
    cases h
    refine ⟨w ++ '.' :: v, ?_, .point hdigits hmore hne⟩
    rw [hw, List.append_assoc, List.cons_append, ← hv]
  · rw [hfraction] at h
    cases h
    rw [List.append_nil] at hne
    exact ⟨w, hw, .whole hdigits hne⟩

/-- What may be taken where a mantissa has these digits and `r` is behind it: perhaps more of the same kind, but no more
if nothing of `r` is taken, and surely no more if neither a digit nor a point follows. -/
structure MantissaTaken (ds fs : List Nat) (r : Text) (whole fraction : List Nat) (rest : Text) : Prop where
  nonempty : whole ++ fraction ≠ []
  suffix : rest <:+ r
  same : rest = r → whole = ds ∧ fraction = fs
  stops : (∀ c ∈ r.head?, decimalValue? c = none ∧ c ≠ '.') → rest = r

theorem takeDigits_stops {r : Text} (h : ∀ c ∈ r.head?, decimalValue? c = none ∧ c ≠ '.') : (takeDigits r).2 = r := by
  rw [takeDigits_of_head fun c hc => (h c hc).1]

/-- Behind digits a point may follow, with or without more digits before it. -/
theorem takeMantissa_whole (ht : Digits t ds) (hne : ds ≠ []) (r : Text) :
    ∃ whole fraction rest, takeMantissa (t ++ r) = (whole, fraction, rest) ∧
      MantissaTaken ds [] r whole fraction rest := by
  have hsuffix := takeDigits_suffix r
  have hnonempty (more fraction : List Nat) : ds ++ more ++ fraction ≠ [] := by
    rw [List.append_assoc]
    exact fun hnil => hne (List.append_eq_nil_iff.1 hnil).1
  have htake : takeMantissa (t ++ r) = (ds ++ (takeDigits r).1,
      (takeFraction (takeDigits r).2).getD ([], (takeDigits r).2)) := by
    unfold takeMantissa
    rw [takeDigits_append ht]
  rw [htake]
  rcases takeFraction_cases (takeDigits r).2 with ⟨u, hu, hfraction⟩ | hfraction
  · -- The point at least is taken from `r`.
    have hshort : (takeDigits u).2.length < r.length := by
      have hle := (takeDigits_suffix u).length_le
      have hle' := hsuffix.length_le
      rw [hu, List.length_cons] at hle'
      omega
    rw [hfraction]
    refine ⟨_, _, _, rfl, hnonempty _ _, ?_, ?_, ?_⟩
    · exact ((takeDigits_suffix u).trans (List.suffix_cons '.' u)).trans (hu ▸ hsuffix)
    · intro heq
      rw [heq] at hshort
      exact absurd hshort (Nat.lt_irrefl _)
    · intro hhead
      have hpoint : '.' ∈ r.head? := by
        rw [← takeDigits_stops hhead, hu]
        rfl
      exact absurd rfl (hhead '.' hpoint).2
  · rw [hfraction]
    refine ⟨_, _, _, rfl, hnonempty _ _, hsuffix, fun heq => ?_, takeDigits_stops⟩
    rw [takeDigits_eq_nil heq, List.append_nil]
    exact ⟨rfl, rfl⟩

/-- Behind the digits after a point only digits may follow. -/
theorem takeMantissa_point {u : Text} (ht : Digits t ds) (hu : Digits u fs) (hne : ds ++ fs ≠ []) (r : Text) :
    ∃ whole fraction rest, takeMantissa (t ++ '.' :: u ++ r) = (whole, fraction, rest) ∧
      MantissaTaken ds fs r whole fraction rest := by
  have hpoint : ∀ c ∈ ('.' :: (u ++ r)).head?, decimalValue? c = none := by
    rintro _ ⟨⟩
    exact decimalValue?_mark (by decide)
  have htake : takeMantissa (t ++ '.' :: u ++ r) = (ds, fs ++ (takeDigits r).1, (takeDigits r).2) := by
    unfold takeMantissa
    rw [List.append_assoc, List.cons_append, takeDigits_append ht, takeDigits_of_head hpoint]
    dsimp only
    rw [takeFraction, Option.getD_some, takeDigits_append hu, List.append_nil]
  rw [htake]
  refine ⟨_, _, _, rfl, fun hnil => ?_, takeDigits_suffix r, fun heq => ?_, takeDigits_stops⟩
  · rw [← List.append_assoc] at hnil
    exact hne (List.append_eq_nil_iff.1 hnil).1
  · rw [takeDigits_eq_nil heq, List.append_nil]
    exact ⟨rfl, rfl⟩

theorem takeMantissa_append (h : Mantissa t ds fs) (r : Text) :
    ∃ whole fraction rest, takeMantissa (t ++ r) = (whole, fraction, rest) ∧
      MantissaTaken ds fs r whole fraction rest := by
  cases h with
  | whole ht hne => exact takeMantissa_whole ht hne r
  | point ht hu hne => exact takeMantissa_point ht hu hne r

/-! ### Exponents -/

/-- An exponent is taken, with whatever digits follow it. -/
theorem takeExponent_append {e : Int} (h : Exponent t e) (hne : t ≠ []) (r : Text) :
    ∃ e' rest, takeExponent (t ++ r) = (e', rest) ∧ rest <:+ r ∧ (rest = r → e' = e) := by
  cases h with
  | none => exact absurd rfl hne
  | @digits c s negative w ds hc hs hw hds =>
    obtain ⟨d, w', value, rfl, hd⟩ := exists_cons_of_digits hw hds
    have hmark {mark : Char} (hmark : mark ∈ ['+', '-', '.', 'e', 'E']) : d ≠ mark := by
      rintro rfl
      rw [decimalValue?_mark hmark] at hd
      cases hd
    have hsign : takeSign (s ++ d :: w' ++ r) = (negative, d :: w' ++ r) := by
      rw [List.append_assoc, List.cons_append]
      exact takeSign_append hs (hmark (by decide)) (hmark (by decide)) _
    have hletter : (c = 'e' || c = 'E') = true := by simpa using hc
    have hnonempty : ds ++ (takeDigits r).1 ≠ [] := fun hnil => hds (List.append_eq_nil_iff.1 hnil).1
    have hvalue := takeDigits_eq_nil (t := r)
    have hsuffix := takeDigits_suffix r
    rw [List.cons_append, takeExponent, if_pos hletter, hsign]
    dsimp only
    rw [takeDigits_append hw]
    generalize takeDigits r = more at hnonempty hvalue hsuffix
    obtain ⟨more, after⟩ := more
    cases hall : ds ++ more with
    | nil => exact absurd hall hnonempty
    | cons first others =>
      refine ⟨_, after, rfl, hsuffix, fun heq => ?_⟩
      have hmore : more = [] := hvalue heq
      rw [hmore, List.append_nil] at hall
      rw [← hall, ofDigits_eq]

/-- What is taken is an exponent. -/
theorem exists_of_takeExponent (t : Text) : ∃ u, t = u ++ (takeExponent t).2 ∧ Exponent u (takeExponent t).1 := by
  cases t with
  | nil => exact ⟨[], rfl, .none⟩
  | cons c t =>
    rw [takeExponent]
    by_cases hletter : (c = 'e' || c = 'E') = true
    · rw [if_pos hletter]
      obtain ⟨s, hs, hsign⟩ := exists_of_takeSign t
      generalize takeSign t = taken at hs hsign
      obtain ⟨negative, t'⟩ := taken
      dsimp only at hs hsign ⊢
      obtain ⟨w, hw, hdigits⟩ := exists_of_takeDigits t'
      generalize takeDigits t' = taken at hw hdigits
      obtain ⟨ds, rest⟩ := taken
      dsimp only at hw hdigits
      cases ds with
      | nil => exact ⟨[], rfl, .none⟩
      | cons d ds =>
        dsimp only
        rw [ofDigits_eq]
        refine ⟨c :: (s ++ w), ?_, .digits (by simpa using hletter) hsign hdigits (List.cons_ne_nil _ _)⟩
        rw [List.cons_append, List.append_assoc, ← hw, ← hs]
    · rw [if_neg hletter]
      exact ⟨[], rfl, .none⟩

/-! ### Numerals -/

theorem read?_eq (t : Text) :
    read? t =
      let (negative, afterSign) := takeSign t
      let (whole, fraction, afterMantissa) := takeMantissa afterSign
      if whole ++ fraction = [] then none
      else some (⟨negative, ofDigits (whole ++ fraction), (takeExponent afterMantissa).1 - fraction.length⟩,
        (takeExponent afterMantissa).2) := by
  have hempty (ds fs : List Nat) : (ds.isEmpty && fs.isEmpty) = decide (ds ++ fs = []) := by
    cases ds <;> cases fs <;> rfl
  unfold read? takeMantissa
  dsimp only
  rw [hempty]
  simp only [decide_eq_true_eq]

/-- What is read is a numeral. -/
theorem exists_of_read? {n : Numeral} {rest : Text} (h : read? t = some (n, rest)) :
    ∃ w, t = w ++ rest ∧ Writes w n := by
  rw [read?_eq] at h
  obtain ⟨s, hs, hsign⟩ := exists_of_takeSign t
  generalize takeSign t = taken at h hs hsign
  obtain ⟨negative, afterSign⟩ := taken
  dsimp only at h hs hsign
  have hmantissa {whole fraction : List Nat} {after : Text} := @exists_of_takeMantissa afterSign whole fraction after
  generalize takeMantissa afterSign = taken at h hmantissa
  obtain ⟨whole, fraction, after⟩ := taken
  dsimp only at h
  split at h
  · cases h
  · rename_i hne
    obtain ⟨w, hw, hwrites⟩ := hmantissa rfl hne
    obtain ⟨u, hu, hexponent⟩ := exists_of_takeExponent after
    cases h
    rw [ofDigits_eq]
    refine ⟨s ++ (w ++ u), ?_, .intro hsign hwrites hexponent⟩
    rw [List.append_assoc, List.append_assoc, ← hu, ← hw, ← hs]

/-- A numeral begins with a digit, a point or its sign. -/
theorem exists_cons_of_mantissa (h : Mantissa t ds fs) : ∃ c rest, t = c :: rest ∧ c ≠ '-' ∧ c ≠ '+' := by
  have hdigit {c : Char} {d : Nat} (hd : decimalValue? c = some d) : c ≠ '-' ∧ c ≠ '+' := by
    constructor
    · rintro rfl
      rw [decimalValue?_mark (by decide)] at hd
      cases hd
    · rintro rfl
      rw [decimalValue?_mark (by decide)] at hd
      cases hd
  cases h with
  | whole ht hne =>
    obtain ⟨c, rest, d, rfl, hd⟩ := exists_cons_of_digits ht hne
    exact ⟨c, rest, rfl, hdigit hd⟩
  | @point t _ u _ ht hu hne =>
    cases t with
    | nil => exact ⟨'.', u, rfl, by decide, by decide⟩
    | cons c t =>
      obtain ⟨d, -, -, hd, -⟩ := digits_cons ht
      exact ⟨c, t ++ '.' :: u, rfl, hdigit hd⟩

/-- A numeral is read, and no less: what is left is left of the text behind it, and it is this numeral if all of that
is left. -/
theorem read?_append {n : Numeral} (h : Writes w n) (r : Text) :
    ∃ n' rest, read? (w ++ r) = some (n', rest) ∧ rest <:+ r ∧ (rest = r → n' = n) := by
  cases h with
  | @intro s negative t ds fs u e hs ht hu =>
    obtain ⟨c, t', hcons, hminus, hplus⟩ := exists_cons_of_mantissa ht
    have hsign : takeSign (s ++ (t ++ u) ++ r) = (negative, t ++ (u ++ r)) := by
      rw [List.append_assoc, List.append_assoc, hcons, List.cons_append]
      exact takeSign_append hs hminus hplus _
    obtain ⟨whole, fraction, after, htake, hne, hsuffix, hsame, hstops⟩ := takeMantissa_append ht (u ++ r)
    have hread : read? (s ++ (t ++ u) ++ r) =
        some (⟨negative, ofDigits (whole ++ fraction), (takeExponent after).1 - fraction.length⟩,
          (takeExponent after).2) := by
      rw [read?_eq, hsign]
      dsimp only
      rw [htake]
      exact if_neg hne
    rw [hread]
    by_cases hempty : u = []
    · -- Without an exponent the mantissa may go on, and an exponent may follow it.
      subst hempty
      obtain ⟨v, hv, hexponent⟩ := exists_of_takeExponent after
      have hsuffix' : (takeExponent after).2 <:+ after := ⟨v, hv.symm⟩
      refine ⟨_, _, rfl, hsuffix'.trans hsuffix, fun heq => ?_⟩
      have hafter : after = r := by
        refine hsuffix.eq_of_length_le ?_
        rw [← heq]
        exact hsuffix'.length_le
      obtain ⟨rfl, rfl⟩ := hsame hafter
      have hnone : v = [] := by
        rw [heq, hafter] at hv
        simpa using hv
      rw [hnone] at hexponent
      have hzero : (takeExponent after).1 = e := by
        cases hu
        generalize (takeExponent after).1 = e at hexponent
        cases hexponent
        rfl
      rw [hzero, ofDigits_eq]
    · have hhead : ∀ c ∈ (u ++ r).head?, decimalValue? c = none ∧ c ≠ '.' := by
        cases hu with
        | none => exact absurd rfl hempty
        | digits hc =>
          rintro _ ⟨⟩
          rcases hc with rfl | rfl
          · exact ⟨decimalValue?_mark (by decide), by decide⟩
          · exact ⟨decimalValue?_mark (by decide), by decide⟩
      obtain rfl := hstops hhead
      obtain ⟨rfl, rfl⟩ := hsame rfl
      obtain ⟨e', rest, hexponent, hsuffix', hsame'⟩ := takeExponent_append hu hempty r
      rw [hexponent]
      refine ⟨_, rest, rfl, hsuffix', fun heq => ?_⟩
      rw [hsame' heq, ofDigits_eq]

/-- A bare exponent letter and a second point are left. -/
example : Numeral.read? "-1.5e+.2".toList = some (⟨true, 15, -1⟩, "e+.2".toList) := by decide

/-- A text that is a numeral is read as such to its end. -/
theorem Writes.read? {n : Numeral} (h : Writes w n) : Numeral.read? w = some (n, []) := by
  obtain ⟨n', rest, hread, hsuffix, hsame⟩ := read?_append h []
  obtain rfl := List.suffix_nil.1 hsuffix
  obtain rfl := hsame rfl
  rwa [List.append_nil] at hread

end Numeral

/-- The value of a text is that of the longest numeral behind its leading blanks, which is read in one way only; then
the text is numeric if nothing but blanks follows this numeral.  Without a numeral there the value is zero, and the text
is not numeric. -/
theorem numericValue_of_longest (t : Text) :
    (∃ text rest n, t.dropWhile isNumericBlank = text ++ rest ∧ (∀ n', Numeral.Writes text n' ↔ n' = n) ∧
        (∀ text' rest', t.dropWhile isNumericBlank = text' ++ rest' → Numeral.IsNumeral text' →
          text'.length ≤ text.length) ∧
        numericValue t = n.toNumber ∧ (looksNumeric t = true ↔ ∀ c ∈ rest, isNumericBlank c = true)) ∨
      (∀ text rest, t.dropWhile isNumericBlank = text ++ rest → ¬Numeral.IsNumeral text) ∧
        numericValue t = .zero ∧ looksNumeric t = false := by
  unfold numericValue looksNumeric
  generalize t.dropWhile isNumericBlank = body
  cases hread : Numeral.read? body with
  | none =>
    refine .inr ⟨?_, rfl, rfl⟩
    rintro text rest rfl ⟨n, hn⟩
    obtain ⟨n', rest', hread', -⟩ := Numeral.read?_append hn rest
    rw [hread] at hread'
    cases hread'
  | some result =>
    obtain ⟨n, rest⟩ := result
    obtain ⟨text, rfl, hwrites⟩ := Numeral.exists_of_read? hread
    refine .inl ⟨text, rest, n, rfl, ?_, ?_, rfl, List.all_eq_true⟩
    · intro n'
      constructor
      · intro hn'
        have hboth := hn'.read?.symm.trans hwrites.read?
        exact congrArg Prod.fst (Option.some.inj hboth)
      · rintro rfl
        exact hwrites
    · rintro text' rest' heq ⟨n', hn'⟩
      obtain ⟨n'', left, hread', hsuffix, -⟩ := Numeral.read?_append hn' rest'
      rw [← heq, hread] at hread'
      cases hread'
      have hlength := congrArg List.length heq
      have hle := hsuffix.length_le
      rw [List.length_append, List.length_append] at hlength
      omega

end Awk
