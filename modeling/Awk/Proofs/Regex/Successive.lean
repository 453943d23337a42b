import Awk.Proofs.Regex.Alike

/-!
# Successive matches

What comes after a match is the search begun anew in the text after it (`filter_findAllFrom`), and for a pattern
without a mark for the start of the text this does not depend on where that text stands (`findAllNonempty_of_filter`).
The fuel of the search is enough wherever it begins (`findAllFrom_fuel`).
-/

namespace Awk

namespace Pattern

variable {p : Pattern}

/-- Does not ask whether it is at the start of the text. -/
def Unanchored : Pattern → Prop
  | empty => True
  | char _ => True
  | atEnd => True
  | _ => False

/-- The same text, but further on. -/
def Moved (shift : Nat) (a b : Place) : Prop := b.offset = a.offset + shift ∧ b.rest = a.rest

theorem Unanchored.blind {shift : Nat} {q : Pattern} (h : q.Unanchored) : q.Blind (Moved shift) := by
  intro a b hab
  have hrest := hab.2
  cases q with
  | empty => exact .some hab
  | char test =>
    unfold run
    rw [hrest]
    cases a.rest with
    | nil => exact .none
    | cons c rest =>
      dsimp only
      split
      · refine .some ⟨?_, rfl⟩
        rw [hab.1, Nat.add_right_comm]
      · exact .none
  | atEnd =>
    unfold run
    rw [hrest]
    split
    · exact .some hab
    · exact .none
  | atStart => exact h.elim
  | seq q q' => exact h.elim
  | alt q q' => exact h.elim
  | «repeat» q least most greed => exact h.elim

theorem matchAt_moved (hp : p.Leaves Unanchored) (shift offset : Nat) (advance : Bool) (text : Text) :
    p.matchAt advance ⟨offset + shift, text⟩ = (p.matchAt advance ⟨offset, text⟩).map (· + shift) := by
  have hmoved : Moved shift ⟨offset, text⟩ ⟨offset + shift, text⟩ := ⟨rfl, rfl⟩
  exact matchAt_alike (fun hab => hab.1) (hp.imp Unanchored.blind) hmoved advance

def moveSpan (shift : Nat) (span : Nat × Nat) : Nat × Nat := (span.1 + shift, span.2 + shift)

theorem findFrom_moved (hp : p.Leaves Unanchored) (shift offset : Nat) (advance : Bool) (text : Text) :
    p.findFrom advance (offset + shift) text = (p.findFrom advance offset text).map (moveSpan shift) := by
  induction text generalizing offset advance with
  | nil =>
    rw [findFrom, findFrom, matchAt_moved hp]
    cases p.matchAt advance ⟨offset, []⟩ with
    | none => rfl
    | some stop => rfl
  | cons c text ih =>
    rw [findFrom, findFrom, matchAt_moved hp]
    cases p.matchAt advance ⟨offset, c :: text⟩ with
    | none =>
      have hrest := ih (offset + 1) false
      rw [Nat.add_right_comm] at hrest
      exact hrest
    | some stop => rfl

theorem findAllFrom_moved (hp : p.Leaves Unanchored) (shift fuel : Nat) (advance : Bool) (offset : Nat) (text : Text) :
    p.findAllFrom fuel advance (offset + shift) text =
      (p.findAllFrom fuel advance offset text).map (moveSpan shift) := by
  induction fuel generalizing advance offset text with
  | zero => rfl
  | succ fuel ih =>
    rw [findAllFrom, findAllFrom, findFrom_moved hp]
    cases p.findFrom advance offset text with
    | none => rfl
    | some found =>
      have hsame : (found.1 + shift == found.2 + shift) = (found.1 == found.2) := by
        rw [Bool.eq_iff_iff]
        simp
      dsimp only [Option.map_some, moveSpan]
      rw [hsame, Nat.add_sub_add_right, ih]
      rfl

/-! ### Fuel -/

/-- Enough fuel for a search: two matches for each place, or one where a match without text does not count. -/
def Searches (fuel : Nat) (advance : Bool) (text : Text) : Prop :=
  2 * text.length + (if advance then 0 else 1) < fuel

theorem searches_all (text : Text) : Searches (2 * text.length + 2) false text := Nat.lt_succ_self _

/-- Where a match without text does not count, the one that is found stands further on or takes some. -/
theorem lt_of_findFrom {offset start stop : Nat} {text : Text} (h : p.findFrom true offset text = some (start, stop)) :
    offset < start ∨ start < stop := by
  unfold findFrom at h
  split at h
  · rename_i hmatch
    cases h
    obtain ⟨place, hrun, hoffset⟩ := Option.map_eq_some_iff.1 hmatch
    obtain ⟨next, hnext, hk⟩ := run_forward p hrun
    split at hk
    · cases hk
    · rename_i hmoved
      cases hk
      have hle : offset ≤ _ := hnext.offset_le
      simp only [Bool.true_and, beq_iff_eq] at hmoved
      exact .inr (by omega)
  · split at h
    · cases h
    · exact .inl (findFrom_bounds h).1

theorem Searches.next {fuel offset start stop : Nat} {advance : Bool} {text : Text}
    (h : Searches (fuel + 1) advance text) (hfound : p.findFrom advance offset text = some (start, stop)) :
    Searches fuel (start == stop) (text.drop (stop - offset)) := by
  obtain ⟨hstart, hle, hstop⟩ := findFrom_bounds hfound
  unfold Searches at h ⊢
  rw [List.length_drop]
  by_cases hsame : start = stop
  · rw [if_pos (beq_iff_eq.2 hsame)]
    cases advance with
    | false =>
      rw [if_neg Bool.false_ne_true] at h
      omega
    | true =>
      rw [if_pos rfl] at h
      rcases lt_of_findFrom hfound with hlt | hlt
      · omega
      · omega
  · rw [if_neg (by simpa using hsame)]
    split at h
    · omega
    · omega

/-- With enough fuel the matches that are found do not depend on it. -/
theorem findAllFrom_fuel {fuel fuel' offset : Nat} {advance : Bool} {text : Text} (h : Searches fuel advance text)
    (h' : Searches fuel' advance text) :
    p.findAllFrom fuel advance offset text = p.findAllFrom fuel' advance offset text := by
  induction fuel generalizing fuel' advance offset text with
  | zero => exact absurd h (Nat.not_lt_zero _)
  | succ fuel ih =>
    obtain ⟨fuel', rfl⟩ := Nat.exists_eq_succ_of_ne_zero (Nat.ne_zero_of_lt h')
    rw [findAllFrom, findAllFrom]
    split
    · rfl
    · rename_i start stop hfound
      rw [ih (h.next hfound) (h'.next hfound)]

/-! ### The first match that takes some text -/

/-- The span of a match that takes some text. -/
def takesText (span : Nat × Nat) : Bool := span.1 < span.2

/-- After the first match that takes some text the search begins anew. -/
theorem filter_findAllFrom {fuel offset start stop : Nat} {advance : Bool} {text : Text} {spans : List (Nat × Nat)}
    (hfuel : Searches fuel advance text)
    (h : (p.findAllFrom fuel advance offset text).filter takesText = (start, stop) :: spans) :
    spans = (p.findAllFrom (2 * (text.drop (stop - offset)).length + 2) false stop (text.drop (stop - offset))).filter
      takesText := by
  induction fuel generalizing advance offset text with
  | zero => cases h
  | succ fuel ih =>
    unfold findAllFrom at h
    split at h
    · cases h
    · rename_i first last hfound
      have hnext := hfuel.next hfound
      by_cases htakes : first < last
      · rw [List.filter_cons_of_pos (by simpa [takesText] using htakes)] at h
        cases h
        have hmoved : (start == stop) = false := by simpa using Nat.ne_of_lt htakes
        rw [hmoved] at hnext ⊢
        rw [findAllFrom_fuel hnext (searches_all _)]
      · rw [List.filter_cons_of_neg (by simpa [takesText] using htakes)] at h
        -- A match without text is passed over, and what follows it is dropped from the same text in two steps.
        have hlater := ih hnext h
        have hmem : (start, stop) ∈ p.findAllFrom fuel (first == last) last (text.drop (last - offset)) :=
          (List.mem_filter.1 (h ▸ List.mem_cons_self)).1
        have hafter := mem_findAllFrom hmem
        have hbefore := findFrom_bounds hfound
        rw [List.drop_drop, show last - offset + (stop - last) = stop - offset by omega] at hlater
        exact hlater

/-- After the first match that takes some text stand the matches in the text after it. -/
theorem findAllNonempty_of_unanchored (hp : p.Leaves Unanchored) {text : Text} {start stop : Nat}
    {spans : List (Nat × Nat)} (h : p.findAllNonempty text = (start, stop) :: spans) :
    spans = (p.findAllNonempty (text.drop stop)).map (moveSpan stop) := by
  have hrest := filter_findAllFrom (searches_all text) h
  rw [Nat.sub_zero, ← Nat.zero_add stop, findAllFrom_moved hp, Nat.zero_add, List.filter_map] at hrest
  have hsame : takesText ∘ moveSpan stop = takesText := by
    funext span
    simp [takesText, moveSpan]
  rw [hsame] at hrest
  exact hrest

end Pattern

end Awk
