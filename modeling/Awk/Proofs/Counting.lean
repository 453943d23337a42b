import Awk.Number.Basic
import Mathlib.Algebra.Order.Group.Nat
import Mathlib.Logic.Function.Iterate

/-!
# Counting with doubles

Whole numbers with no more than 53 bits are exact, and so is counting up to them (`Number.iterate_add_one`).  However
large it is, none but zero becomes zero (`Number.ofNat_eq_zero_iff`).
-/

namespace Awk.Number

variable {n : Nat}

theorem roundDiv_mul (q : Nat) {den : Nat} (h : 0 < den) : roundDiv (q * den) den = q := by
  unfold roundDiv
  rw [Nat.mul_div_cancel _ h, Nat.mul_mod_left, Nat.mul_zero, if_pos h]

/-- One is a power of two, and the limit leaves room for 53 bits above it. -/
theorem exists_units : ∃ k limit, unitsPerOne = Nat.pow 2 k ∧ unitsLimit = Nat.pow 2 limit ∧ 53 + k < limit := by
  unfold unitsPerOne unitsLimit
  exact ⟨_, _, rfl, rfl, by omega⟩

theorem unitsPerOne_pos : 0 < unitsPerOne := by
  obtain ⟨k, -, hunits, -⟩ := exists_units
  rw [hunits]
  exact Nat.two_pow_pos k

/-- A number of 53 bits, times a power of two, is a multiple of the step to which it would be rounded. -/
theorem step_dvd (k : Nat) (h : n ≤ 2 ^ 53) : Nat.pow 2 ((n * Nat.pow 2 k).log2 - 52) ∣ n * Nat.pow 2 k := by
  rcases Nat.lt_or_eq_of_le h with h | rfl
  · rcases Nat.eq_zero_or_pos n with rfl | hn
    · rw [Nat.zero_mul]
      exact Nat.dvd_zero _
    · have hpos : n * Nat.pow 2 k ≠ 0 := Nat.ne_of_gt (Nat.mul_pos hn (Nat.two_pow_pos k))
      have hlt : n * Nat.pow 2 k < 2 ^ (53 + k) := by
        rw [Nat.pow_add]
        exact Nat.mul_lt_mul_of_pos_right h (Nat.two_pow_pos k)
      have hlog : (n * Nat.pow 2 k).log2 < 53 + k := (Nat.log2_lt hpos).2 hlt
      exact Nat.dvd_trans (Nat.pow_dvd_pow 2 (by omega)) (Nat.dvd_mul_left _ n)
  · have hpow : 2 ^ 53 * Nat.pow 2 k = 2 ^ (53 + k) := (Nat.pow_add 2 53 k).symm
    rw [hpow]
    exact Nat.pow_dvd_pow 2 (Nat.le_trans (Nat.sub_le _ _) (Nat.le_of_eq Nat.log2_two_pow))

/-- A number of 53 bits, times a power of two that is not too large, is exact. -/
theorem ofQuotient_eq {k limit : Nat} (hlimit : unitsLimit = Nat.pow 2 limit) (hroom : 53 + k < limit)
    (negative : Bool) (h : n ≤ 2 ^ 53) :
    ofQuotient negative (n * Nat.pow 2 k) 1 = finite negative (n * Nat.pow 2 k) := by
  have hround : roundUnits (n * Nat.pow 2 k) 1 = n * Nat.pow 2 k := by
    obtain ⟨q, hq⟩ := step_dvd k h
    have hpos : 0 < Nat.pow 2 ((n * Nat.pow 2 k).log2 - 52) := Nat.two_pow_pos _
    unfold roundUnits
    rw [Nat.div_one]
    dsimp only
    generalize Nat.pow 2 ((n * Nat.pow 2 k).log2 - 52) = step at *
    rw [Nat.one_mul, hq, Nat.mul_comm step q, roundDiv_mul q hpos]
  have hlt : n * Nat.pow 2 k < unitsLimit := by
    rw [hlimit]
    refine Nat.lt_of_le_of_lt (Nat.mul_le_mul_right _ h) ?_
    exact Nat.lt_of_le_of_lt (Nat.le_of_eq (Nat.pow_add 2 53 k).symm) (Nat.pow_lt_pow_right (by decide) hroom)
  unfold ofQuotient
  rw [hround]
  exact if_pos hlt

/-- A whole number with no more than 53 bits is exact. -/
theorem ofNat_eq (h : n ≤ 2 ^ 53) : ofNat n = finite false (n * unitsPerOne) := by
  obtain ⟨k, limit, hunits, hlimit, hroom⟩ := exists_units
  rw [ofNat, hunits]
  exact ofQuotient_eq hlimit hroom false h

/-- Counting up is exact as long as the number has no more than 53 bits. -/
theorem ofNat_add_one (h : n < 2 ^ 53) : (ofNat n).add one = ofNat (n + 1) := by
  have hpos : 0 < (n + 1) * unitsPerOne := Nat.mul_pos (Nat.succ_pos n) unitsPerOne_pos
  rw [ofNat_eq (Nat.le_of_lt h)]
  unfold add one ofNat
  generalize unitsPerOne = units at *
  have hsum : signedUnits false (n * units) + signedUnits false units = ((n + 1) * units : Nat) := by
    rw [Nat.succ_mul]
    rfl
  have hne : (((n + 1) * units : Nat) : Int) ≠ 0 := by omega
  dsimp only
  rw [hsum, if_neg hne, decide_eq_false (by omega), Int.natAbs_natCast]

/-- Counting from zero gives the whole numbers, as far as they have 53 bits. -/
theorem iterate_add_one (h : n ≤ 2 ^ 53) : (fun x : Number => x.add one)^[n] zero = ofNat n := by
  induction n with
  | zero => rw [ofNat_eq (Nat.zero_le _), Nat.zero_mul]; rfl
  | succ n ih =>
    rw [Function.iterate_succ_apply', ih (Nat.le_of_succ_le h)]
    exact ofNat_add_one (Nat.lt_of_succ_le h)

/-! ### No other whole number is zero -/

theorem div_le_roundDiv (num den : Nat) : num / den ≤ roundDiv num den := by
  unfold roundDiv
  dsimp only
  split
  · exact Nat.le_refl _
  · split <;> omega

/-- What is not zero is not rounded to it. -/
theorem roundUnits_pos (h : 0 < n) : 0 < roundUnits n 1 := by
  have hstep : 0 < Nat.pow 2 (n.log2 - 52) := Nat.two_pow_pos _
  have hle : Nat.pow 2 (n.log2 - 52) ≤ n := by
    refine Nat.le_trans (Nat.pow_le_pow_right Nat.two_pos (Nat.sub_le _ _)) ?_
    exact Nat.log2_self_le (Nat.ne_of_gt h)
  unfold roundUnits
  rw [Nat.div_one]
  dsimp only
  rw [Nat.one_mul]
  exact Nat.mul_pos (Nat.lt_of_lt_of_le (Nat.div_pos hle hstep) (div_le_roundDiv _ _)) hstep

theorem ofNat_eq_zero_iff : ofNat n = zero ↔ n = 0 := by
  refine ⟨fun h => ?_, fun h => ?_⟩
  · by_contra hne
    have hpos := roundUnits_pos (Nat.mul_pos (Nat.pos_of_ne_zero hne) unitsPerOne_pos)
    unfold ofNat ofQuotient zero at h
    dsimp only at h
    split at h
    · injection h with _ hunits
      omega
    · cases h
  · rw [h, ofNat_eq (Nat.zero_le _), Nat.zero_mul]
    rfl

end Awk.Number
