import Awk.Evaluation
import Awk.Proofs.MainInput.Turns
import Awk.Proofs.Numbers.Whole
import Mathlib

/-!
# Parts of a text

What `substr` gives are the characters whose positions are in a range (`Text.select`).  The two ends of the range are
doubles, which may be infinite (`Number.Stands`); for whole numbers of fewer than 53 bits the range is computed without
error (`substring_of_stands`).  Only a start below all positions makes a call without a length fail
(`Eval.substr_selects`).
-/

namespace Awk

/-! ### Whole numbers and infinities -/

/-- The whole numbers and two infinities, in their order. -/
abbrev Extended := WithBot (WithTop ℤ)

/-- A whole number among them. -/
def Extended.whole (i : ℤ) : Extended := ((i : WithTop ℤ) : WithBot (WithTop ℤ))

namespace Extended

variable {i j : ℤ}

theorem whole_le : whole i ≤ whole j ↔ i ≤ j := by rw [whole, whole, WithBot.coe_le_coe, WithTop.coe_le_coe]

theorem whole_lt : whole i < whole j ↔ i < j := by rw [whole, whole, WithBot.coe_lt_coe, WithTop.coe_lt_coe]

theorem whole_lt_top : whole i < ⊤ := WithBot.coe_lt_coe.2 (WithTop.coe_lt_top i)

theorem whole_add : whole i + whole j = whole (i + j) := rfl

theorem whole_lt_add_top {m : Extended} (hm : m ≠ ⊥) : whole i < m + ⊤ := by
  induction m using WithBot.recBotCoe with
  | bot => exact absurd rfl hm
  | coe m =>
    change whole i < ((m + ⊤ : WithTop ℤ) : Extended)
    rw [WithTop.add_top]
    exact whole_lt_top

theorem eq_top_of_add {m n : Extended} (h : m + n = ⊤) (hm : m ≠ ⊤) : n = ⊤ := by
  induction m using WithBot.recBotCoe with
  | bot => cases (WithBot.bot_add n).symm.trans h
  | coe m =>
    induction n using WithBot.recBotCoe with
    | bot => cases (WithBot.add_bot (m : Extended)).symm.trans h
    | coe n =>
      rcases WithTop.add_eq_top.1 (WithBot.coe_injective (WithBot.coe_add m n ▸ h)) with rfl | rfl
      · exact absurd rfl hm
      · rfl

end Extended

namespace Number

/-- The double is a whole number of fewer than so many bits, or an infinity. -/
inductive Stands (bits : Nat) : Number → Extended → Prop
  | whole {x : Number} {i : ℤ} (h : x.whole? = some i) (hbits : i.natAbs < 2 ^ bits) :
    Stands bits x (Extended.whole i)
  | top : Stands bits (.infinite false) ⊤
  | bottom : Stands bits (.infinite true) ⊥

variable {x y : Number} {m n : Extended} {bits : Nat}

theorem Stands.isNan (h : x.Stands bits m) : x.isNan = false := by
  cases h with
  | whole h =>
    obtain ⟨s, units, rfl, -⟩ := whole?_eq_some.1 h
    rfl
  | top | bottom => rfl

theorem eq_of_stands_bot (h : x.Stands bits ⊥) : x = .infinite true := by
  generalize hm : (⊥ : Extended) = m at h
  cases h with
  | whole => cases hm
  | top => cases hm
  | bottom => rfl

theorem Stands.roundHalfUp (h : x.Stands 52 m) : x.roundHalfUp.Stands 52 m := by
  cases h with
  | whole h hbits =>
    rw [roundHalfUp_of_whole h hbits]
    exact .whole (whole?_ofInt (by omega)) hbits
  | top => exact .top
  | bottom => exact .bottom

theorem add_infinite {i : ℤ} (h : x.whole? = some i) (s : Bool) : x.add (.infinite s) = .infinite s := by
  obtain ⟨t, units, rfl, -⟩ := whole?_eq_some.1 h
  rfl

theorem infinite_add {i : ℤ} (s : Bool) (h : x.whole? = some i) : (infinite s).add x = .infinite s := by
  obtain ⟨t, units, rfl, -⟩ := whole?_eq_some.1 h
  rfl

/-- The sum of two infinities of different sign is none. -/
theorem Stands.add (hx : x.Stands 52 m) (hy : y.Stands 52 n) (hdown : ¬(m = ⊥ ∧ n = ⊤)) (hup : ¬(m = ⊤ ∧ n = ⊥)) :
    (x.add y).Stands 53 (m + n) := by
  cases hx with
  | whole hi hibits =>
    cases hy with
    | whole hj hjbits =>
      -- One bit more is enough for the sum, and as many fit into a double.
      rw [Extended.whole_add]
      exact .whole (whole?_add hi hj (by omega)) (by omega)
    | top =>
      rw [add_infinite hi]
      exact .top
    | bottom =>
      rw [add_infinite hi]
      exact .bottom
  | top =>
    cases hy with
    | whole hj =>
      rw [infinite_add false hj]
      exact .top
    | top => exact .top
    | bottom => exact absurd ⟨rfl, rfl⟩ hup
  | bottom =>
    cases hy with
    | whole hj =>
      rw [infinite_add true hj]
      exact .bottom
    | top => exact absurd ⟨rfl, rfl⟩ hdown
    | bottom => exact .bottom

theorem le_infinite (hx : x.isNan = false) : x.le (.infinite false) = true := by
  cases x with
  | nan s => cases hx
  | finite s units => rfl
  | infinite s => cases s <;> rfl

theorem lt_infinite_true (x : Number) : x.lt (.infinite true) = false := by
  cases x with
  | nan s | finite s units => rfl
  | infinite s => cases s <;> rfl

theorem infinite_le (hx : x.isNan = false) : (infinite true).le x = true := by
  cases x with
  | nan s => cases hx
  | finite s units => rfl
  | infinite s => cases s <;> rfl

theorem isNan_ofNat (n : Nat) : (ofNat n).isNan = false := by
  unfold ofNat ofQuotient
  dsimp only
  split <;> rfl

/-- A start is moved to one, if it is less. -/
theorem Stands.exists_first (hx : x.Stands 52 m) (hm : m ≠ ⊤) :
    ∃ first, (if x.lt one then one else x).whole? = some first ∧ 1 ≤ first ∧
      ∀ p : ℤ, 1 ≤ p → (m ≤ Extended.whole p ↔ first ≤ p) := by
  cases hx with
  | @whole _ i h hbits =>
    rw [lt_of_whole h whole?_one]
    by_cases hi : i < 1
    · rw [decide_eq_true hi, if_pos rfl]
      refine ⟨1, whole?_one, Int.le_refl 1, fun p hp => ?_⟩
      rw [Extended.whole_le]
      omega
    · rw [decide_eq_false hi, if_neg Bool.false_ne_true]
      exact ⟨i, h, Int.not_lt.1 hi, fun p _ => Extended.whole_le⟩
  | top => exact absurd rfl hm
  | bottom => exact ⟨1, whole?_one, Int.le_refl 1, fun p hp => iff_of_true bot_le hp⟩

/-- An end is moved behind the last of so many characters, if it is greater. -/
theorem Stands.exists_last (hx : x.Stands 53 m) (hm : m ≠ ⊥) {length : Nat} (hlength : m = ⊤ → length < 2 ^ 53) :
    ∃ last, (if (ofNat (length + 1)).lt x then ofNat (length + 1) else x).whole? = some last ∧
      ∀ p : ℤ, p ≤ length → (Extended.whole p < m ↔ p < last) := by
  cases hx with
  | @whole _ i h hbits =>
    rcases Nat.lt_or_ge length (2 ^ 53) with hshort | hlong
    · have hlimit : (ofNat (length + 1)).whole? = some (length + 1 : ℤ) := whole?_ofNat hshort
      rw [lt_of_whole hlimit h]
      by_cases hi : (length + 1 : ℤ) < i
      · rw [decide_eq_true hi, if_pos rfl]
        refine ⟨_, hlimit, fun p hp => ?_⟩
        rw [Extended.whole_lt]
        omega
      · rw [decide_eq_false hi, if_neg Bool.false_ne_true]
        exact ⟨i, h, fun p _ => Extended.whole_lt⟩
    · -- The length is rounded, but not below the end, which is before it.
      rw [lt_ofNat_eq_false (by omega) h (by omega), if_neg Bool.false_ne_true]
      exact ⟨i, h, fun p _ => Extended.whole_lt⟩
  | top =>
    have hlimit : (ofNat (length + 1)).whole? = some (length + 1 : ℤ) := whole?_ofNat (hlength rfl)
    have hlt : (ofNat (length + 1)).lt (.infinite false) = true := by
      obtain ⟨s, units, heq, -⟩ := whole?_eq_some.1 hlimit
      rw [heq]
      rfl
    rw [hlt, if_pos rfl]
    exact ⟨_, hlimit, fun p hp => iff_of_true Extended.whole_lt_top (by omega)⟩
  | bottom => exact absurd rfl hm

end Number

/-! ### The characters in a range -/

namespace Text

/-- The characters whose positions, counted from one, are of a kind. -/
def select (t : Text) (kind : ℤ → Prop) [DecidablePred kind] : Text :=
  ((t.zipIdx 1).filter fun c => kind c.2).map Prod.fst

variable {t : Text} {kind : ℤ → Prop} [DecidablePred kind]

theorem select_eq_nil (h : ∀ p : ℤ, 1 ≤ p → p ≤ t.length → ¬kind p) : t.select kind = [] := by
  rw [select, List.map_eq_nil_iff, List.filter_eq_nil_iff]
  intro c hc
  obtain ⟨hle, hlt, -⟩ := List.mem_zipIdx hc
  rw [decide_eq_true_iff]
  exact h c.2 (by omega) (by omega)

theorem select_congr {kind' : ℤ → Prop} [DecidablePred kind'] (h : ∀ p, kind p ↔ kind' p) :
    t.select kind = t.select kind' := by
  unfold select
  exact congrArg _ (List.filter_congr fun c _ => decide_eq_decide.2 (h c.2))

/-- Taking a slice is selecting positions, which are counted from any number. -/
theorem filter_zipIdx (t : Text) (k first last : Nat) :
    ((t.zipIdx k).filter fun c => first ≤ c.2 ∧ c.2 < last).map Prod.fst = t.slice (first - k) (last - k) := by
  induction t generalizing k with
  | nil => rw [slice, List.drop_nil, List.take_nil, List.zipIdx_nil, List.filter_nil, List.map_nil]
  | cons c t ih =>
    have hrest := ih (k + 1)
    rw [slice] at hrest ⊢
    rw [List.zipIdx_cons, List.filter_cons]
    rcases Nat.lt_or_ge k first with hbefore | hbehind
    · rw [decide_eq_false fun h => Nat.not_le_of_lt hbefore h.1, if_neg Bool.false_ne_true, hrest,
        show first - k = (first - (k + 1)) + 1 by omega, List.drop_succ_cons]
      congr 1
      omega
    · rw [show first - k = 0 by omega, List.drop_zero, Nat.sub_zero]
      rw [show first - (k + 1) = 0 by omega, List.drop_zero, Nat.sub_zero] at hrest
      rcases Nat.lt_or_ge k last with hinside | hafter
      · rw [decide_eq_true ⟨hbehind, hinside⟩, if_pos rfl, List.map_cons, hrest,
          show last - k = (last - (k + 1)) + 1 by omega, List.take_succ_cons]
      · rw [decide_eq_false fun h => Nat.not_lt_of_le hafter h.2, if_neg Bool.false_ne_true, hrest,
          show last - k = 0 by omega, show last - (k + 1) = 0 by omega, List.take_zero, List.take_zero]

theorem select_eq_slice {first last : ℤ} (hfirst : 1 ≤ first)
    (h : ∀ p : ℤ, 1 ≤ p → p ≤ t.length → (kind p ↔ first ≤ p ∧ p < last)) :
    t.select kind = t.slice (first - 1).toNat (last - 1).toNat := by
  have hoffset : (t.zipIdx 1).filter (fun c => kind c.2) =
      (t.zipIdx 1).filter fun c => first.toNat ≤ c.2 ∧ c.2 < last.toNat := by
    refine List.filter_congr fun c hc => ?_
    obtain ⟨hle, hlt, -⟩ := List.mem_zipIdx hc
    rw [decide_eq_decide, h c.2 (by omega) (by omega)]
    omega
  rw [select, hoffset, filter_zipIdx, show (first - 1).toNat = first.toNat - 1 by omega,
    show (last - 1).toNat = last.toNat - 1 by omega]

end Text

/-! ### The range of `substr` -/

open Extended (whole)

section Range

variable {t : Text} {start length stop : Number} {m n : Extended}

/-- A text is cut between two positions without error, once they are moved into it. -/
theorem cut_of_stands {first last : Number} (hstart : start.Stands 52 m) (hstop : stop.Stands 53 n)
    (hfits : n = ⊤ → m ≠ ⊤ → t.length < 2 ^ 53) (hfirst : first = if start.lt .one then .one else start)
    (hlast : last = if (Number.ofNat (t.length + 1)).lt stop then .ofNat (t.length + 1) else stop) :
    (if last.le first then .ok [] else do
      let first ← first.toInt
      let last ← last.toInt
      .ok (t.slice (first - 1).toNat (last - 1).toNat)) =
      (.ok (t.select fun p => m ≤ whole p ∧ whole p < n) : Except Fault Text) := by
  rcases eq_or_ne m ⊤ with rfl | hm
  · -- The start is behind all positions, and stays there.
    cases hstart
    have hnan : last.isNan = false := by
      rw [hlast]
      split
      · exact Number.isNan_ofNat _
      · exact hstop.isNan
    have hfar : (Number.infinite false).lt .one = false := rfl
    rw [hfirst, hfar, if_neg Bool.false_ne_true, Number.le_infinite hnan, if_pos rfl]
    exact congrArg _ (Text.select_eq_nil fun p _ _ hp => not_le_of_gt Extended.whole_lt_top hp.1).symm
  rcases eq_or_ne n ⊥ with rfl | hn
  · -- The end is before all positions, and stays there.
    cases hstop
    have hnan : first.isNan = false := by
      rw [hfirst]
      split
      · rfl
      · exact hstart.isNan
    rw [hlast, Number.lt_infinite_true, if_neg Bool.false_ne_true, Number.infinite_le hnan, if_pos rfl]
    exact congrArg _ (Text.select_eq_nil fun p _ _ hp => not_lt_bot hp.2).symm
  obtain ⟨i, hi, hpos, hafter⟩ := hstart.exists_first hm
  obtain ⟨j, hj, hbefore⟩ := hstop.exists_last hn (hfits · hm)
  rw [← hfirst] at hi
  rw [← hlast] at hj
  have hrange (p : ℤ) (hp : 1 ≤ p) (hlength : p ≤ t.length) : m ≤ whole p ∧ whole p < n ↔ i ≤ p ∧ p < j :=
    and_congr (hafter p hp) (hbefore p hlength)
  rw [Number.le_of_whole hj hi]
  by_cases hempty : j ≤ i
  · rw [decide_eq_true hempty, if_pos rfl, Text.select_eq_nil]
    intro p hp hlength hin
    have := (hrange p hp hlength).1 hin
    omega
  · rw [decide_eq_false hempty, if_neg Bool.false_ne_true, Number.toInt_of_whole hi, Number.toInt_of_whole hj,
      Text.select_eq_slice hpos hrange]
    rfl

/-- A text is cut at whole numbers and infinities without error. -/
theorem substring_of_stands (hstart : start.Stands 52 m) (hlength : length.Stands 52 n) (hdown : ¬(m = ⊥ ∧ n = ⊤))
    (hup : ¬(m = ⊤ ∧ n = ⊥)) (hfits : n = ⊤ → t.length < 2 ^ 53) :
    substring t start length = .ok (t.select fun p => m ≤ whole p ∧ whole p < m + n) := by
  have hfrom := hstart.roundHalfUp
  have hstop := hfrom.add hlength.roundHalfUp hdown hup
  unfold substring
  dsimp only [Option.elim_some]
  rw [hfrom.isNan, hlength.roundHalfUp.isNan, Bool.or_false, if_neg Bool.false_ne_true]
  exact cut_of_stands hfrom hstop (fun hsum hm => hfits (Extended.eq_top_of_add hsum hm)) rfl rfl

/-- Without a length the text's end is the limit, as it is with an infinite one. -/
theorem substring_none (t : Text) (start : Number) :
    substring t start none = substring t start (some (.infinite false)) := rfl

/-- The end that is computed from two infinities of different sign is no number. -/
theorem substring_of_all_lost (t : Text) : substring t (.infinite true) none = .error .wholeOfNan := by
  have hsum : (Number.infinite true).roundHalfUp.add (.infinite false) = .nan true := rfl
  have hlt : (Number.ofNat (t.length + 1)).lt (.nan true) = false := by
    cases Number.ofNat (t.length + 1) <;> rfl
  unfold substring
  dsimp only [Option.elim_none]
  rw [hsum, hlt]
  rfl

end Range

namespace Printf

theorem segments_defaultFormat :
    segments defaultFormat = [.directive ⟨defaultFormat, [], .absent, .digits ['6'], some 'g'⟩] := by
  decide +kernel

end Printf

/-- Under the default format every number has a text. -/
theorem Number.exists_toText (x : Number) : ∃ t, x.toText defaultFormat = .ok t := by
  cases x with
  | nan s | infinite s => exact ⟨_, rfl⟩
  | finite s units =>
    unfold toText toTextBy
    dsimp only
    split
    · exact ⟨_, rfl⟩
    · rw [Printf.formatWith, Printf.segments_defaultFormat]
      exact ⟨_, rfl⟩

theorem Variables.exists_convfmt (vars : Variables) : ∃ format, vars.convfmt = .ok format := by
  unfold convfmt
  split
  · rename_i v _
    cases v with
    | num x => exact x.exists_toText
    | str t | strnum t => exact ⟨t, rfl⟩
    | unset => exact ⟨[], rfl⟩
  · exact ⟨defaultFormat, rfl⟩

namespace Eval

/-- The text of a text is there whatever the format is. -/
theorem run_textOf_str (m : Machine) (t : Text) : (textOf (.str t)).run m = (.ok t, m) := by
  obtain ⟨format, hformat⟩ := m.scalars.exists_convfmt
  rw [run_textOf, hformat]
  rfl

theorem run_substr (m : Machine) (t : Text) (start : Value) (more : List Value) :
    (applyBuiltin .substr (.str t :: start :: more)).run m =
      (raised ((substring t start.toNumber (more.head?.map Value.toNumber)).map Value.str), m) := by
  have hlength : (Value.str t :: start :: more)[2]? = more.head? := by cases more <;> rfl
  unfold applyBuiltin argumentText
  dsimp only
  rw [Action.run_bind, show argument (.str t :: start :: more) 0 = .str t from rfl, run_textOf_str]
  dsimp only
  rw [Action.run_bind, run_ofExcept, hlength, show argument (.str t :: start :: more) 1 = start from rfl]
  cases substring t start.toNumber (more.head?.map Value.toNumber) <;> rfl

/-- What `substr` gives are the characters in its range, if the numbers are whole or infinite.  A length can be left out
unless the start is below all positions: the missing length is an infinite one, and the sum is no number then. -/
theorem substr_selects (t : Text) {start : Value} {a : Extended} (hstart : start.toNumber.Stands 52 a) (m : Machine) :
    (∀ (length : Value) (b : Extended), length.toNumber.Stands 52 b → ¬(a = ⊥ ∧ b = ⊤) → ¬(a = ⊤ ∧ b = ⊥) →
      (b = ⊤ → t.length < 2 ^ 53) → (applyBuiltin .substr [.str t, start, length]).run m =
        (.ok (.str (t.select fun p => a ≤ whole p ∧ whole p < a + b)), m)) ∧
    (t.length < 2 ^ 53 → ((applyBuiltin .substr [.str t, start]).run m =
      (.ok (.str (t.select fun p => a ≤ whole p)), m) ↔ a ≠ ⊥)) := by
  refine ⟨fun length b hlength hdown hup hfits => ?_, fun hfits => ⟨?_, fun ha => ?_⟩⟩
  · rw [run_substr, List.head?_cons, Option.map_some, substring_of_stands hstart hlength hdown hup hfits]
    rfl
  · rintro hrun rfl
    rw [run_substr, List.head?_nil, Option.map_none, Number.eq_of_stands_bot hstart, substring_of_all_lost] at hrun
    cases hrun
  · have hall : t.select (fun p => a ≤ whole p ∧ whole p < a + ⊤) = t.select fun p => a ≤ whole p :=
      Text.select_congr fun p => and_iff_left (Extended.whole_lt_add_top ha)
    rw [run_substr, List.head?_nil, Option.map_none, substring_none,
      substring_of_stands hstart .top (fun h => ha h.1) (fun h => bot_ne_top h.2.symm) fun _ => hfits, hall]
    rfl

/-- A range that begins before the first character has only what is in the text. -/
theorem substr_selects_early :
    (applyBuiltin .substr [.str "hello".toList, .num .zero, .num (.ofNat 3)]).run (.forEvaluation [] [] none) =
      (.ok (.str "he".toList), .forEvaluation [] [] none) ∧
    (applyBuiltin .substr [.str "hello".toList, .num .zero]).run (.forEvaluation [] [] none) =
      (.ok (.str "hello".toList), .forEvaluation [] [] none) := by
  have hzero : (Value.num .zero).toNumber.Stands 52 (whole 0) :=
    .whole (Number.whole?_eq_some.2 ⟨false, 0, rfl, (Int.zero_mul _).symm⟩) (by decide)
  have hthree : (Number.ofNat 3).Stands 52 (whole 3) := .whole (Number.whole?_ofNat (by decide)) (by decide)
  have hcut := substr_selects "hello".toList hzero (.forEvaluation [] [] none)
  constructor
  · have hrange := hcut.1 (.num (.ofNat 3)) (whole 3) hthree (by decide) (by decide) (by decide)
    rw [hrange, show Text.select "hello".toList (fun p => whole 0 ≤ whole p ∧ whole p < whole 0 + whole 3) =
      "he".toList from by decide]
  · have hrest := (hcut.2 (by decide)).2 (by decide)
    rw [hrest, show Text.select "hello".toList (fun p => whole 0 ≤ whole p) = "hello".toList from by decide]

/-- Below all positions every character is in the range, and the call fails. -/
theorem substr_selects_lost :
    Text.select "hello".toList (fun p => (⊥ : Extended) ≤ whole p) = "hello".toList ∧
    (applyBuiltin .substr [.str "hello".toList, .num (.infinite true)]).run (.forEvaluation [] [] none) =
      (.error (.failure ⟨.wholeOfNan, none⟩), .forEvaluation [] [] none) := by
  constructor
  · decide
  · rw [run_substr, List.head?_nil, Option.map_none, Value.toNumber, substring_of_all_lost]
    rfl

end Eval

end Awk
