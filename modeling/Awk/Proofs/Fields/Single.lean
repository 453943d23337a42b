import Awk.Proofs.Fields.Joining
import Awk.Proofs.Fields.Lines

/-!
# A single character as separator

A text is cut at each occurrence of the character, which is what `List.splitOn` does
(`splitFields_single`).  The backslash takes another way: it is read as a regular expression, and what that finds are
the single backslashes.  The cuts of a search (`cutSpans`) are followed character by character, like those of
`List.splitOnP`.
-/

namespace Awk

namespace Text

theorem splitOn_eq_splitOnP (sep : Char → Bool) (t : Text) : splitOn sep t = List.splitOnP sep t := by
  induction t with
  | nil => rw [splitOn, List.splitOnP_nil]
  | cons c t ih =>
    obtain ⟨piece, pieces, hpieces⟩ := List.exists_cons_of_ne_nil (List.splitOnP_ne_nil sep t)
    rw [splitOn, ih, List.splitOnP_cons_eq_if_modifyHead, hpieces]
    rfl

end Text

/-! ### Cuts, character by character -/

/-- A character before the first span belongs to the first piece. -/
theorem cutSpans_cons {offset : Nat} {spans : List (Nat × Nat)}
    (h : ∀ span ∈ spans, offset < span.1 ∧ span.1 ≤ span.2) (d : Char) (text : Text) :
    cutSpans offset (d :: text) spans = (cutSpans (offset + 1) text spans).modifyHead (d :: ·) := by
  cases spans with
  | nil => rfl
  | cons span spans =>
    obtain ⟨hstart, hstop⟩ := h span List.mem_cons_self
    obtain ⟨start, stop⟩ := span
    dsimp only at hstart hstop
    rw [cutSpans, cutSpans, show start - offset = (start - (offset + 1)) + 1 by omega,
      show stop - offset = (stop - (offset + 1)) + 1 by omega]
    rfl

namespace Pattern

/-- The pattern of one character. -/
def single (c : Char) : Pattern := seq (char (.one c)) empty

variable {c : Char}

theorem matchAt_single_self (c : Char) (advance : Bool) (offset : Nat) (text : Text) :
    (single c).matchAt advance ⟨offset, c :: text⟩ = some (offset + 1) := by
  simp [matchAt, single, run, CharTest.holds]

theorem matchAt_single_of_ne {d : Char} (hd : d ≠ c) (advance : Bool) (offset : Nat) (text : Text) :
    (single c).matchAt advance ⟨offset, d :: text⟩ = none := by
  simp [matchAt, single, run, CharTest.holds, hd]

theorem findAllFrom_single_nil (c : Char) (fuel : Nat) (advance : Bool) (offset : Nat) :
    (single c).findAllFrom fuel advance offset [] = [] := by
  cases fuel with
  | zero => rfl
  | succ fuel => rfl

/-- The character itself is found where it stands. -/
theorem findAllFrom_single_self (c : Char) (fuel : Nat) (advance : Bool) (offset : Nat) (text : Text) :
    (single c).findAllFrom (fuel + 1) advance offset (c :: text) =
      (offset, offset + 1) :: (single c).findAllFrom fuel false (offset + 1) text := by
  have hmoved : (offset == offset + 1) = false := by simp
  rw [findAllFrom, findFrom, matchAt_single_self]
  dsimp only
  rw [hmoved, Nat.add_sub_cancel_left]
  rfl

/-- Another character is passed over. -/
theorem findAllFrom_single_of_ne {d : Char} (hd : d ≠ c) (fuel : Nat) (advance : Bool) (offset : Nat) (text : Text) :
    (single c).findAllFrom (fuel + 1) advance offset (d :: text) =
      (single c).findAllFrom (fuel + 1) false (offset + 1) text := by
  rw [findAllFrom, findFrom, matchAt_single_of_ne hd]
  dsimp only
  rw [findAllFrom]
  split
  · rfl
  · rename_i start stop hfound
    obtain ⟨hstart, hstop, -⟩ := findFrom_bounds hfound
    rw [show stop - offset = (stop - (offset + 1)) + 1 by omega]
    rfl

theorem cutSpans_findAllFrom_single (c : Char) {fuel : Nat} {text : Text} (hfuel : text.length < fuel) (advance : Bool)
    (offset : Nat) :
    cutSpans offset text ((single c).findAllFrom fuel advance offset text) = List.splitOn c text := by
  induction text generalizing fuel advance offset with
  | nil =>
    rw [findAllFrom_single_nil]
    rfl
  | cons d text ih =>
    obtain ⟨fuel, rfl⟩ := Nat.exists_eq_succ_of_ne_zero (Nat.ne_zero_of_lt hfuel)
    have hmore : text.length < fuel := Nat.lt_of_succ_lt_succ hfuel
    rw [List.splitOn_eq_splitOnP, List.splitOnP_cons_eq_if_modifyHead, ← List.splitOn_eq_splitOnP]
    by_cases hd : d = c
    · subst hd
      rw [findAllFrom_single_self, cutSpans, Nat.sub_self, Nat.add_sub_cancel_left, if_pos (beq_self_eq_true d),
        ← ih hmore false (offset + 1)]
      rfl
    · rw [findAllFrom_single_of_ne hd, if_neg (by simpa using hd), ← ih (Nat.lt_succ_of_lt hmore) false (offset + 1)]
      refine cutSpans_cons (fun span hspan => ?_) d text
      have hbounds := mem_findAllFrom hspan
      omega

theorem takesText_single (c : Char) (text : Text) : (single c).TakesText text := by
  intro offset _ hmatch
  cases hrest : text.drop offset with
  | nil =>
    rw [hrest] at hmatch
    cases hmatch
  | cons d rest =>
    rw [hrest] at hmatch
    by_cases hd : d = c
    · rw [hd, matchAt_single_self, Option.some.injEq] at hmatch
      omega
    · rw [matchAt_single_of_ne hd] at hmatch
      cases hmatch

theorem splitPattern_single (c : Char) {text : Text} (htext : text ≠ []) :
    splitPattern text (single c) = List.splitOn c text := by
  have hfuel : text.length < 2 * text.length + 2 := by omega
  rw [splitPattern, if_neg (by simpa using htext), (takesText_single c text).findAllNonempty_eq, findAll,
    cutSpans_findAllFrom_single c hfuel]

end Pattern

/-! ### Fields -/

variable {c : Char} {text : Text}

/-- A character that is no blank cuts a text at each of its occurrences. -/
theorem splitFields_single (hc : c ≠ ' ') (htext : text ≠ []) :
    splitFields text [c] false = .ok (List.splitOn c text) := by
  unfold splitFields
  rw [if_neg (by simpa using hc), if_neg (by simpa using htext)]
  dsimp only
  by_cases hbackslash : c = '\\'
  · have hread : compileEre ['\\'] = .ok (Pattern.single '\\') := by rfl
    rw [if_pos hbackslash, hbackslash, separatorEre, if_neg Bool.false_ne_true, hread]
    exact congrArg Except.ok (Pattern.splitPattern_single '\\' htext)
  · rw [if_neg hbackslash, Text.splitOn_eq_splitOnP, List.splitOn_eq_splitOnP]
    simp only [Bool.false_and, Bool.or_false]

/-- What has been cut is put together again by the same character. -/
theorem exists_splitFields_single (hc : c ≠ ' ') (htext : text ≠ []) :
    ∃ pieces, splitFields text [c] false = .ok pieces ∧ (∀ piece ∈ pieces, c ∉ piece) ∧
      Text.join [c] pieces = text := by
  refine ⟨_, splitFields_single hc htext, fun piece hpiece => ?_, List.intercalate_splitOn c⟩
  rw [List.splitOn_eq_splitOnP, ← Text.splitOn_eq_splitOnP] at hpiece
  exact Text.notMem_of_mem_splitOn (by simp) hpiece

/-- Pieces without the character that are put together by it are cut again into the same pieces. -/
theorem splitFields_join (hc : c ≠ ' ') {pieces : List Text} (hpieces : ∀ piece ∈ pieces, c ∉ piece)
    (hjoin : Text.join [c] pieces ≠ []) : splitFields (Text.join [c] pieces) [c] false = .ok pieces := by
  have hne : pieces ≠ [] := by
    rintro rfl
    exact hjoin rfl
  rw [splitFields_single hc hjoin, Text.join, List.splitOn_intercalate c hpieces hne]

end Awk
