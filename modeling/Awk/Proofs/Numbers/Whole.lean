import Awk.Machine.Builtins
import Awk.Proofs.Counting

/-!
# Whole numbers as doubles

A double that is a whole number (`Number.whole?`) is known by its units (`whole?_eq_some`).  As long as no more than 53
bits are needed, whole numbers are added (`whole?_add`), compared (`lt_of_whole`) and rounded (`roundHalfUp_of_whole`)
without error.  Of a larger whole number only a lower bound is kept (`lt_ofNat_eq_false`).
-/

namespace Awk.Number

variable {x y : Number} {i j : Int} {n : Nat}

theorem signedUnits_natAbs (z : Int) : signedUnits (decide (z < 0)) z.natAbs = z := by
  unfold signedUnits
  split
  · rename_i h
    have := of_decide_eq_true h
    omega
  · rename_i h
    have := of_decide_eq_false (Bool.eq_false_iff.2 h)
    omega

theorem signedUnits_mul (s : Bool) (q one : Nat) : signedUnits s (q * one) = signedUnits s q * one := by
  cases s with
  | false => exact Int.natCast_mul q one
  | true => rw [signedUnits, signedUnits, if_pos rfl, if_pos rfl, Int.natCast_mul, Int.neg_mul]

theorem natAbs_signedUnits (s : Bool) (units : Nat) : (signedUnits s units).natAbs = units := by
  cases s with
  | false => rfl
  | true => exact Int.natAbs_neg units

theorem whole?_mul (s : Bool) (q : Nat) : (finite s (q * unitsPerOne)).whole? = some (signedUnits s q) := by
  rw [whole?, if_pos (Nat.mul_mod_left _ _), truncate?, ← Int.natCast_ediv, Nat.mul_div_cancel _ unitsPerOne_pos]
  rfl

theorem dvd_of_whole? {s : Bool} {units : Nat} (h : (finite s units).whole? = some i) : unitsPerOne ∣ units := by
  refine Nat.dvd_of_mod_eq_zero (by_contra fun hmod => ?_)
  rw [whole?, if_neg hmod] at h
  cases h

/-- A whole number is a multiple of one. -/
theorem whole?_eq_some : x.whole? = some i ↔ ∃ s units, x = finite s units ∧ signedUnits s units = i * unitsPerOne := by
  have hpos : (unitsPerOne : Int) ≠ 0 := Int.natCast_ne_zero.2 (Nat.ne_of_gt unitsPerOne_pos)
  constructor
  · intro h
    cases x with
    | nan | infinite => cases h
    | finite s units =>
      obtain ⟨q, hq⟩ := dvd_of_whole? h
      rw [hq, Nat.mul_comm, whole?_mul, Option.some.injEq] at h
      refine ⟨s, _, rfl, ?_⟩
      rw [hq, Nat.mul_comm, signedUnits_mul, h]
  · rintro ⟨s, units, rfl, h⟩
    have hunits : units = i.natAbs * unitsPerOne := by
      rw [← natAbs_signedUnits s units, h, Int.natAbs_mul, Int.natAbs_natCast]
    rw [hunits, signedUnits_mul] at h
    rw [hunits, whole?_mul, Int.eq_of_mul_eq_mul_right hpos h]

/-- A multiple of one that needs no more than 53 bits is not rounded. -/
theorem whole?_ofQuotient {z : Int} (hz : z = i * unitsPerOne) (h : i.natAbs ≤ 2 ^ 53) :
    (ofQuotient (decide (z < 0)) z.natAbs 1).whole? = some i := by
  obtain ⟨k, limit, hunits, hlimit, hroom⟩ := exists_units
  have habs : z.natAbs = i.natAbs * Nat.pow 2 k := by rw [hz, hunits, Int.natAbs_mul, Int.natAbs_natCast]
  have hexact := ofQuotient_eq hlimit hroom (decide (z < 0)) h
  rw [← habs] at hexact
  rw [hexact, whole?_eq_some]
  exact ⟨_, _, rfl, (signedUnits_natAbs z).trans hz⟩

theorem whole?_ofInt (h : i.natAbs ≤ 2 ^ 53) : (ofInt i).whole? = some i := by
  have hpos : (0 : Int) < unitsPerOne := Int.natCast_pos.2 unitsPerOne_pos
  have hsign : i * unitsPerOne < 0 ↔ i < 0 := by
    rw [← Int.mul_lt_mul_right (b := i) hpos, Int.zero_mul]
  have hwhole := whole?_ofQuotient (z := i * unitsPerOne) rfl h
  simp only [hsign, Int.natAbs_mul, Int.natAbs_natCast] at hwhole
  exact hwhole

theorem whole?_ofNat (h : n ≤ 2 ^ 53) : (ofNat n).whole? = some (n : Int) := by
  rw [ofNat_eq h, whole?_eq_some]
  exact ⟨false, _, rfl, Int.natCast_mul n unitsPerOne⟩

theorem whole?_one : one.whole? = some 1 := whole?_eq_some.2 ⟨false, _, rfl, (Int.one_mul _).symm⟩

/-- Whole numbers are added without error, if the sum needs no more than 53 bits. -/
theorem whole?_add (hx : x.whole? = some i) (hy : y.whole? = some j) (h : (i + j).natAbs ≤ 2 ^ 53) :
    (x.add y).whole? = some (i + j) := by
  obtain ⟨s, a, rfl, ha⟩ := whole?_eq_some.1 hx
  obtain ⟨t, b, rfl, hb⟩ := whole?_eq_some.1 hy
  have hsum : signedUnits s a + signedUnits t b = (i + j) * unitsPerOne := by rw [ha, hb, Int.add_mul]
  unfold add
  dsimp only
  split
  · rename_i hzero
    refine whole?_eq_some.2 ⟨_, _, rfl, ?_⟩
    rw [← hsum, hzero]
    cases s <;> cases t <;> rfl
  · exact whole?_ofQuotient hsum h

/-! ### Order -/

theorem compare?_of_whole (hx : x.whole? = some i) (hy : y.whole? = some j) : x.compare? y = some (compare i j) := by
  obtain ⟨s, a, rfl, ha⟩ := whole?_eq_some.1 hx
  obtain ⟨t, b, rfl, hb⟩ := whole?_eq_some.1 hy
  have hpos : (0 : Int) < unitsPerOne := Int.natCast_pos.2 unitsPerOne_pos
  rw [compare?, ha, hb, Option.some.injEq]
  generalize (unitsPerOne : Int) = one at *
  simp only [compare, compareOfLessAndEq, Int.mul_lt_mul_right hpos, Int.mul_eq_mul_right_iff (Int.ne_of_gt hpos)]

theorem lt_of_whole (hx : x.whole? = some i) (hy : y.whole? = some j) : x.lt y = decide (i < j) := by
  rw [lt, compare?_of_whole hx hy, Bool.eq_iff_iff, decide_eq_true_iff, beq_iff_eq, Option.some.injEq,
    compare_lt_iff_lt]

theorem le_of_whole (hx : x.whole? = some i) (hy : y.whole? = some j) : x.le y = decide (i ≤ j) := by
  rw [le, lt_of_whole hx hy, compare?_of_whole hx hy, Bool.eq_iff_iff, decide_eq_true_iff, Bool.or_eq_true,
    decide_eq_true_iff, beq_iff_eq, Option.some.injEq, compare_eq_iff_eq, ← Int.le_iff_lt_or_eq]

theorem toInt_of_whole (hx : x.whole? = some i) : x.toInt = .ok i := by
  obtain ⟨s, units, rfl, -⟩ := whole?_eq_some.1 hx
  rw [whole?, if_pos (Nat.mod_eq_zero_of_dvd (dvd_of_whole? hx))] at hx
  rw [toInt, hx]

/-! ### Rounding to a whole number -/

/-- A half is half of one, and a power of two. -/
theorem exists_half : ∃ k limit, half = finite false (Nat.pow 2 k) ∧ unitsPerOne = 2 * Nat.pow 2 k ∧
    unitsLimit = Nat.pow 2 limit ∧ 53 + k < limit := by
  have htwice : unitsPerOne = 2 * Nat.pow 2 1073 := by decide +kernel
  unfold half unitsLimit
  exact ⟨_, _, rfl, htwice, rfl, by omega⟩

theorem floor?_finite (s : Bool) (units : Nat) :
    (finite s units).floor? = some (signedUnits s units / (unitsPerOne : Int)) := rfl

theorem floor?_add_half (hx : x.whole? = some i) (h : i.natAbs < 2 ^ 52) : (x.add half).floor? = some i := by
  obtain ⟨k, limit, hhalf, hunits, hlimit, hroom⟩ := exists_half
  obtain ⟨s, a, rfl, ha⟩ := whole?_eq_some.1 hx
  have hfloor := floor?_finite
  have hexact (negative : Bool) := ofQuotient_eq hlimit hroom negative (show (2 * i + 1).natAbs ≤ 2 ^ 53 by omega)
  have hpos : 0 < Nat.pow 2 k := Nat.two_pow_pos k
  rw [hunits] at ha hfloor
  rw [hhalf, add]
  generalize Nat.pow 2 k = step at *
  -- One half more is an odd number of halves, of which there are less than two to the power of 53.
  have hsum : signedUnits s a + signedUnits false step = (2 * i + 1) * step := by
    rw [ha, signedUnits, if_neg Bool.false_ne_true, Int.natCast_mul, Int.add_mul, Int.one_mul, ← Int.mul_assoc,
      Int.mul_comm i]
    rfl
  have hne : (2 * i + 1) * (step : Int) ≠ 0 := Int.mul_ne_zero (by omega) (by omega)
  have habs : ((2 * i + 1) * (step : Int)).natAbs = (2 * i + 1).natAbs * step := by
    rw [Int.natAbs_mul, Int.natAbs_natCast]
  have hdiv : (2 * i + 1) * (step : Int) / ((2 * step : Nat) : Int) = i := by
    rw [Int.natCast_mul, Int.mul_ediv_mul_of_pos_left _ _ (Int.natCast_pos.2 hpos)]
    omega
  rw [hsum, if_neg hne, habs, hexact, ← habs, hfloor, signedUnits_natAbs, hdiv]

/-- Rounding leaves a whole number as it is, but for the sign of zero. -/
theorem roundHalfUp_of_whole (hx : x.whole? = some i) (h : i.natAbs < 2 ^ 52) : x.roundHalfUp = ofInt i := by
  have hfloor := floor?_add_half hx h
  obtain ⟨s, a, rfl, -⟩ := whole?_eq_some.1 hx
  rw [roundHalfUp, hfloor]

/-! ### Large whole numbers -/

/-- A power of two that is not larger than a number is not larger when the number is rounded. -/
theorem le_roundUnits {e : Nat} (he : 52 ≤ e) (h : Nat.pow 2 e ≤ n) : Nat.pow 2 e ≤ roundUnits n 1 := by
  have hne : n ≠ 0 := Nat.ne_of_gt (Nat.lt_of_lt_of_le (Nat.two_pow_pos e) h)
  have hlog : e ≤ n.log2 := (Nat.le_log2 hne).2 h
  have hsplit : 2 ^ 52 * Nat.pow 2 (n.log2 - 52) = 2 ^ n.log2 := by
    rw [show Nat.pow 2 (n.log2 - 52) = 2 ^ (n.log2 - 52) from rfl, ← Nat.pow_add, Nat.add_sub_of_le (by omega)]
  have hpos : 0 < Nat.pow 2 (n.log2 - 52) := Nat.two_pow_pos _
  have hdigits : 2 ^ 52 ≤ n / Nat.pow 2 (n.log2 - 52) := by
    rw [Nat.le_div_iff_mul_le hpos, hsplit]
    exact Nat.log2_self_le hne
  unfold roundUnits
  rw [Nat.div_one]
  dsimp only
  rw [Nat.one_mul]
  calc Nat.pow 2 e ≤ 2 ^ n.log2 := Nat.pow_le_pow_right Nat.two_pos hlog
    _ = 2 ^ 52 * Nat.pow 2 (n.log2 - 52) := hsplit.symm
    _ ≤ _ := Nat.mul_le_mul_right _ (Nat.le_trans hdigits (div_le_roundDiv _ _))

/-- A whole number of more than 53 bits is not rounded below those that have no more. -/
theorem lt_ofNat_eq_false (hn : 2 ^ 53 ≤ n) (hx : x.whole? = some i) (hi : i ≤ (2 ^ 53 : Nat)) : (ofNat n).lt x = false := by
  obtain ⟨s, a, rfl, ha⟩ := whole?_eq_some.1 hx
  obtain ⟨k, -, hunits, -, -⟩ := exists_units
  have hle : 2 ^ 53 * unitsPerOne ≤ n * unitsPerOne := Nat.mul_le_mul_right _ hn
  have hround : 2 ^ 53 * unitsPerOne ≤ roundUnits (n * unitsPerOne) 1 := by
    have hpow : 2 ^ 53 * unitsPerOne = Nat.pow 2 (53 + k) := by rw [hunits]; exact (Nat.pow_add 2 53 k).symm
    rw [hpow] at hle ⊢
    exact le_roundUnits (by omega) hle
  have hsmall : signedUnits s a ≤ (roundUnits (n * unitsPerOne) 1 : Nat) := by
    rw [ha]
    have hmul := Int.mul_le_mul_of_nonneg_right hi (Int.natCast_nonneg unitsPerOne)
    have hcast := Int.ofNat_le.2 hround
    rw [Int.natCast_mul] at hcast
    exact Int.le_trans hmul hcast
  unfold ofNat ofQuotient
  dsimp only
  split
  · rw [lt, compare?, signedUnits, if_neg Bool.false_ne_true, beq_eq_false_iff_ne, ne_eq, Option.some.injEq,
      compare_lt_iff_lt]
    exact Int.not_lt.2 hsmall
  · rfl

end Awk.Number
