import Awk.Proofs.Counting
import Awk.Proofs.Printf.Pieces

/-!
# Characters by their code

The conversion `c` writes the character that has a number as its code, in a field filled with blanks.  A code is cut
down with a mask, which is meant for codes beyond the last one but takes four bits out of any code
(`and_codeMask_eq_iff`): the characters of the first and the last plane are written as they are, and of a character of
any other plane the number of the plane is lost (`sprintf_char`).
-/

namespace Awk

/-- A number, or numeric text from input, that stands for the code of a character. -/
def Value.IsCode (n : Nat) : Value → Prop
  | .num x => x = .ofNat n
  | .strnum t => looksNumeric t = true ∧ numericValue t = .ofNat n
  | _ => False

namespace Printf

open Awk.Action

/-- The directive `%c`, with the `-` flag and a width if they are given. -/
def charDirective (left : Bool) (width : Option Nat) : Text :=
  '%' :: ((if left then ['-'] else []) ++ (width.elim [] Text.ofNat ++ ['c']))

/-- Text with blanks beside it, up to the width. -/
def inField (left : Bool) (width : Nat) (t : Text) : Text :=
  let blanks := List.replicate (width - t.length) ' '
  if left then t ++ blanks else blanks ++ t

variable {left : Bool} {n : Nat} {t u flags ds : Text} {c : Char} {spec : Spec} {v : Value}
  {textOf : Value → Except Fault Text}

/-! ### The field -/

theorem checkSize_eq_ok_iff {size : Nat} : checkSize size = .ok () ↔ size < sizeLimit := by
  unfold checkSize
  split
  · rename_i hsize
    simp only [reduceCtorEq, false_iff]
    omega
  · rename_i hsize
    simp only [true_iff]
    omega

theorem claimWidth_eq (spec : Spec) : spec.claimWidth =
    if spec.longWidth then .error .badDirective
    else (checkSize (spec.width.getD 0)).map fun _ => spec.width.getD 0 := by
  unfold Spec.claimWidth
  cases spec.longWidth with
  | true => rfl
  | false =>
    dsimp only
    cases checkSize (spec.width.getD 0) <;> rfl

/-- Text is filled up to any width that is a size; the numeral of a size is never too long to be read. -/
theorem pad_eq_ok_iff (hlong : spec.longWidth = decide (numeralLimit < (Text.ofNat (spec.width.getD 0)).length)) :
    pad spec t = .ok u ↔ spec.width.getD 0 < sizeLimit ∧ inField spec.left (spec.width.getD 0) t = u := by
  unfold pad
  rw [claimWidth_eq, hlong]
  generalize spec.width.getD 0 = width
  by_cases hsize : width < sizeLimit
  · have hshort : ¬numeralLimit < (Text.ofNat width).length :=
      Nat.not_lt.2 (Ere.length_ofNat_le hsize)
    rw [decide_eq_false hshort, checkSize_eq_ok_iff.2 hsize]
    refine ⟨fun h => ⟨hsize, ?_⟩, fun h => congrArg Except.ok h.2⟩
    exact Except.ok.inj h
  · refine ⟨fun h => ?_, fun h => absurd h.1 hsize⟩
    obtain ⟨found, hclaim, -⟩ := bind_eq_ok.1 h
    split at hclaim
    · cases hclaim
    · cases hchecked : checkSize width with
      | error f =>
        rw [hchecked] at hclaim
        cases hclaim
      | ok => exact absurd (checkSize_eq_ok_iff.1 hchecked) hsize

theorem inField_inj {width : Nat} {d : Char} : inField left width [c] = inField left width [d] ↔ c = d := by
  unfold inField
  cases left <;> simp

/-! ### The directive -/

theorem isFlag_of_isDigit (hc : c.isDigit) (hzero : c ≠ '0') : isFlag c = false := by
  have hne {f : Char} (hf : f.isDigit = false) : (c == f) = false := by
    refine beq_false_of_ne ?_
    rintro rfl
    rw [hf] at hc
    cases hc
  unfold isFlag
  rw [hne (by decide), hne (by decide), hne (by decide), hne (by decide), beq_false_of_ne hzero]
  rfl

/-- Flags end before the first digit that is not zero. -/
theorem span_flags (hflags : ∀ c ∈ flags, isFlag c) (hds : ∀ c ∈ ds, c.isDigit) (hhead : ds.head? ≠ some '0') :
    (flags ++ (ds ++ ['c'])).takeWhile isFlag = flags ∧ (flags ++ (ds ++ ['c'])).dropWhile isFlag = ds ++ ['c'] := by
  rw [List.takeWhile_append_of_pos hflags, List.dropWhile_append_of_pos hflags]
  cases ds with
  | nil => exact ⟨List.append_nil flags, rfl⟩
  | cons d ds =>
    have hd : ¬isFlag d = true := by
      rw [isFlag_of_isDigit (hds d List.mem_cons_self) fun hzero => hhead (congrArg some hzero)]
      exact Bool.false_ne_true
    rw [List.cons_append, List.takeWhile_cons_of_neg hd, List.dropWhile_cons_of_neg hd, List.append_nil]
    exact ⟨rfl, rfl⟩

theorem readDirective_char (hflags : ∀ c ∈ flags, isFlag c) (hds : ∀ c ∈ ds, c.isDigit)
    (hhead : ds.head? ≠ some '0') : readDirective (flags ++ (ds ++ ['c'])) =
      (⟨'%' :: (flags ++ (ds ++ ['c'])), flags, if ds = [] then .absent else .digits ds, .absent, some 'c'⟩, []) := by
  obtain ⟨htake, hdrop⟩ := span_flags hflags hds hhead
  have hextent : takeExtent (ds ++ ['c']) = (if ds = [] then .absent else .digits ds, ['c']) := by
    cases ds with
    | nil => rfl
    | cons d ds =>
      have hdecimal : ∀ c ∈ d :: ds, Unicode.isDecimal c := fun c hc => Ere.isDecimal_of_isDigit (hds c hc)
      have hstar : d ≠ '*' := by
        rintro rfl
        exact absurd (hds '*' List.mem_cons_self) (by decide)
      rw [List.cons_append, takeExtent, if_neg hstar, if_pos (hdecimal d List.mem_cons_self), ← List.cons_append,
        List.takeWhile_append_of_pos hdecimal, List.dropWhile_append_of_pos hdecimal,
        List.takeWhile_cons_of_neg (by decide), List.append_nil, if_neg (List.cons_ne_nil d ds)]
      rfl
  have hconversion : takeConversion (dropModifier (takePrecision ['c']).2) = (some 'c', []) := rfl
  unfold readDirective
  dsimp only
  rw [htake, hdrop, hextent]
  dsimp only
  rw [hconversion, List.length_nil, Nat.sub_zero, List.take_length]
  rfl

theorem head_ofNat {n : Nat} (h : n ≠ 0) : (Text.ofNat n).head? ≠ some '0' := by
  induction n using Nat.strongRecOn with
  | ind n ih =>
    rcases Nat.lt_or_ge n 10 with hdigit | hlarge
    · rw [Text.ofNat, Nat.toDigits_of_lt_base hdigit, List.head?_cons, ne_eq, Option.some.injEq, Nat.digitChar_eq_zero]
      exact h
    · have hlead : n / 10 ≠ 0 := by omega
      obtain ⟨d, ds, hds⟩ := List.exists_cons_of_ne_nil (Ere.ofNat_ne_nil (n / 10))
      have hhead := ih (n / 10) (by omega) hlead
      rw [hds] at hhead
      rw [Text.ofNat] at hds ⊢
      rw [Nat.toDigits_of_base_le (by decide) hlarge, hds]
      exact hhead

/-- A width of zero is read as a flag, or is not there; any other is read as it is written. -/
theorem parts_charDirective (left : Bool) (width : Option Nat) : ∃ flags ds,
    charDirective left width = '%' :: (flags ++ (ds ++ ['c'])) ∧ (∀ c ∈ flags, isFlag c) ∧ flags.contains '-' = left ∧
      (ds = [] ∧ width.getD 0 = 0 ∨ ds = Text.ofNat (width.getD 0) ∧ width.getD 0 ≠ 0) := by
  match width with
  | none =>
    exact ⟨if left then ['-'] else [], [], rfl, by cases left <;> simp [isFlag], by cases left <;> rfl, .inl ⟨rfl, rfl⟩⟩
  | some 0 =>
    refine ⟨(if left then ['-'] else []) ++ ['0'], [], ?_, ?_, ?_, .inl ⟨rfl, rfl⟩⟩
    · cases left <;> rfl
    · cases left <;> simp [isFlag]
    · cases left <;> rfl
  | some (w + 1) =>
    exact ⟨if left then ['-'] else [], Text.ofNat (w + 1), rfl, by cases left <;> simp [isFlag], by cases left <;> rfl,
      .inr ⟨rfl, Nat.succ_ne_zero w⟩⟩

theorem spec_digits {d : Directive} {w : Nat} (hwidth : d.width = .digits (Text.ofNat w))
    (hprecision : d.precision = .absent) (args : List Value) : d.spec args = .ok (d.layout (some w) none, args) := by
  rw [spec_eq, hwidth, value_ofNat, hprecision]
  rfl

theorem spec_charDirective (left : Bool) (width : Option Nat) : ∃ t d spec,
    charDirective left width = '%' :: t ∧ readDirective t = (d, []) ∧ d.conversion = some 'c' ∧
      (∀ args, d.spec args = .ok (spec, args)) ∧ spec.left = left ∧ spec.width.getD 0 = width.getD 0 ∧
      spec.longWidth = decide (numeralLimit < (Text.ofNat (width.getD 0)).length) := by
  obtain ⟨flags, ds, hwritten, hflags, hleft, hwidth⟩ := parts_charDirective left width
  rcases hwidth with ⟨rfl, hzero⟩ | ⟨rfl, hpos⟩
  · refine ⟨_, _, _, hwritten, readDirective_char hflags (by simp) (by simp), rfl, fun args => rfl, ?_, hzero.symm, ?_⟩
    · exact (Bool.or_false _).trans hleft
    · rw [hzero]
      exact (decide_eq_false (by decide)).symm
  · have hread := readDirective_char hflags (fun c => Ere.isDigit_of_mem_ofNat) (head_ofNat hpos)
    rw [if_neg (Ere.ofNat_ne_nil _)] at hread
    refine ⟨_, _, _, hwritten, hread, rfl, spec_digits rfl rfl, ?_, rfl, rfl⟩
    have hnonneg : ¬((width.getD 0 : Nat) : Int) < 0 := by omega
    exact (congrArg (flags.contains '-' || ·) (decide_eq_false hnonneg)).trans ((Bool.or_false _).trans hleft)

/-- What the conversion makes of one value, in a field. -/
theorem sprintf_charDirective (width : Option Nat) (convfmt : Text) (v : Value) :
    sprintf convfmt (charDirective left width) [v] = .ok u ↔ width.getD 0 < sizeLimit ∧
      ∃ t, charOf (Value.toText convfmt) v = .ok t ∧ inField left (width.getD 0) t = u := by
  obtain ⟨t, d, spec, hwritten, hread, hconversion, hspec, rfl, hwidth, hlong⟩ := spec_charDirective left width
  rw [← hwidth] at hlong ⊢
  have hpercent : 'c' ≠ '%' := by decide
  have hconverts : converts 'c' = true := by decide
  rw [sprintf, hwritten, formatWith_directive hread hconversion, formatDirective_eq hconversion, if_neg hpercent, hspec]
  dsimp only [bind, Except.bind, convert, nextArg]
  rw [if_pos hconverts]
  cases charOf (Value.toText convfmt) v with
  | error f => simp [Except.map]
  | ok t =>
    have hpad := pad_eq_ok_iff (t := t) (u := u) hlong
    dsimp only
    cases hpadded : pad spec t with
    | error f =>
      rw [hpadded] at hpad
      simpa [Except.map] using hpad
    | ok found =>
      rw [hpadded] at hpad
      simpa [Except.map] using hpad

/-! ### The code -/

theorem toNumber_eq (hv : v.IsCode n) : v.toNumber = .ofNat n := by
  cases v with
  | num x => exact hv
  | strnum t => exact hv.2
  | str t => exact absurd hv id
  | unset => exact absurd hv id

theorem toInt_ofNat (hn : n < 2 ^ 53) : (Number.ofNat n).toInt = .ok (n : Int) := by
  have hwhole : ((n * Number.unitsPerOne : Nat) : Int) / (Number.unitsPerOne : Int) = n := by
    rw [← Int.natCast_ediv, Nat.mul_div_cancel n Number.unitsPerOne_pos]
  rw [Number.ofNat_eq (Nat.le_of_lt hn), Number.toInt, Number.truncate?, hwhole]
  rfl

theorem charOf_eq (hv : v.IsCode n) (hn : n < 2 ^ 53) : charOf textOf v = .ok [Char.ofNat (n &&& 0x10FFFF)] := by
  have hcode : charOf textOf v = v.toNumber.toInt >>= fun code =>
      .ok [Char.ofNat (if code < 0 then (code % 256).toNat else code.toNat &&& 0x10FFFF)] := by
    cases v with
    | num x => rfl
    | strnum t => exact if_pos hv.1
    | str t => exact absurd hv id
    | unset => exact absurd hv id
  have hpos : ¬(n : Int) < 0 := by omega
  rw [hcode, toNumber_eq hv, toInt_ofNat hn]
  dsimp only [bind, Except.bind]
  rw [if_neg hpos, Int.toNat_natCast]

/-- The mask keeps the lowest sixteen bits and the highest one. -/
theorem and_codeMask (n : Nat) : n &&& 0x10FFFF = 2 ^ 16 * (n / 2 ^ 16 &&& 0x10) + n % 2 ^ 16 := by
  have hlow : (n &&& 0x10FFFF) % 2 ^ 16 = n % 2 ^ 16 := by
    rw [Nat.and_mod_two_pow]
    exact (Nat.and_two_pow_sub_one_eq_mod _ 16).trans (Nat.mod_mod n _)
  have hhigh : (n &&& 0x10FFFF) / 2 ^ 16 = n / 2 ^ 16 &&& 0x10 := Nat.and_div_two_pow
  rw [← hlow, ← hhigh, Nat.div_add_mod]

/-- Of the planes, which are numbered up to 16, the mask keeps the first and the last, and takes all others for the
first. -/
theorem and_plane {plane : Nat} (h : plane ≤ 16) : plane &&& 0x10 = if plane = 16 then 16 else 0 := by
  have hplanes : ∀ plane < 17, plane &&& 0x10 = if plane = 16 then 16 else 0 := by decide
  exact hplanes plane (Nat.lt_succ_of_le h)

theorem and_codeMask_of_plane (hlow : 0x10000 ≤ n) (hhigh : n < 0x100000) : n &&& 0x10FFFF = n % 0x10000 := by
  have hplane : ¬n / 2 ^ 16 = 16 := by omega
  rw [and_codeMask, and_plane (by omega), if_neg hplane, Nat.mul_zero, Nat.zero_add]
  rfl

theorem and_codeMask_eq_iff (h : n < 0x110000) : n &&& 0x10FFFF = n ↔ n < 0x10000 ∨ 0x100000 ≤ n := by
  rw [and_codeMask, and_plane (by omega)]
  split <;> omega

theorem toNat_ofNat (n : Nat) : (Char.ofNat n).toNat = if n.isValidChar then n else 0 := by
  unfold Char.ofNat
  by_cases hn : n.isValidChar
  · rw [dif_pos hn, if_pos hn]
    rfl
  · rw [dif_neg hn, if_neg hn]
    rfl

theorem ofNat_eq_ofNat_iff {m : Nat} (hn : n.isValidChar) (hzero : n = 0 → m = 0) :
    Char.ofNat m = Char.ofNat n ↔ m = n := by
  refine ⟨fun h => ?_, fun h => congrArg Char.ofNat h⟩
  have hcode := congrArg Char.toNat h
  rw [toNat_ofNat, toNat_ofNat, if_pos hn] at hcode
  split at hcode
  · exact hcode
  · exact (hzero hcode.symm).trans hcode

/-- The conversion writes the character that has the number as its code, in a field of any width that is a size,
exactly if the character is in the first plane or in the last.  Else the number of the plane is lost. -/
theorem sprintf_char (left : Bool) (width : Option Nat) (hn : n.isValidChar) (hv : v.IsCode n) (convfmt : Text) :
    (sprintf convfmt (charDirective left width) [v] = .ok (inField left (width.getD 0) [Char.ofNat n]) ↔
        width.getD 0 < sizeLimit ∧ (n < 0x10000 ∨ 0x100000 ≤ n)) ∧
      (width.getD 0 < sizeLimit → 0x10000 ≤ n → n < 0x100000 → (n % 0x10000).isValidChar →
        sprintf convfmt (charDirective left width) [v] =
          .ok (inField left (width.getD 0) [Char.ofNat (n % 0x10000)])) := by
  have hlimit : n < 0x110000 := by
    rcases hn with hn | hn <;> omega
  have hcode : charOf (Value.toText convfmt) v = _ := charOf_eq hv (Nat.lt_trans hlimit (by decide))
  constructor
  · have hzero : n = 0 → n &&& 0x10FFFF = 0 := by
      rintro rfl
      exact Nat.zero_and _
    simp only [sprintf_charDirective, hcode, Except.ok.injEq, exists_eq_left', inField_inj,
      ofNat_eq_ofNat_iff hn hzero, and_codeMask_eq_iff hlimit]
  · intro hsize hlow hhigh _
    exact (sprintf_charDirective width convfmt v).2 ⟨hsize, _, hcode, by rw [and_codeMask_of_plane hlow hhigh]⟩

theorem sprintf_char_wide :
    (0x10FFFD).isValidChar ∧ (Value.strnum "1114109 ".toList).IsCode 0x10FFFD ∧
      sprintf defaultFormat "%-3c".toList [.strnum "1114109 ".toList] = .ok [Char.ofNat 0x10FFFD, ' ', ' '] := by
  have hvalid : (0x10FFFD).isValidChar := by decide
  have hcode : (Value.strnum "1114109 ".toList).IsCode 0x10FFFD := ⟨by decide +kernel, by decide +kernel⟩
  exact ⟨hvalid, hcode, (sprintf_char true (some 3) hvalid hcode defaultFormat).1.2 ⟨by decide, .inr (by decide)⟩⟩

theorem sprintf_char_lost :
    (0x1F600).isValidChar ∧ (Value.ofNat 0x1F600).IsCode 0x1F600 ∧ charDirective false none = "%c".toList ∧
      sprintf defaultFormat "%c".toList [.ofNat 0x1F600] = .ok [Char.ofNat 0xF600] ∧
      sprintf defaultFormat "%c".toList [.ofNat 0x1F600] ≠ .ok [Char.ofNat 0x1F600] := by
  have hlost : sprintf defaultFormat "%c".toList [.ofNat 0x1F600] = .ok [Char.ofNat 0xF600] := by
    decide +kernel
  refine ⟨by decide, rfl, rfl, hlost, ?_⟩
  rw [hlost]
  decide

end Printf

end Awk
