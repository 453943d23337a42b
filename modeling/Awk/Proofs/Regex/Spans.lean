import Awk.Regex.Pattern

/-!
# Where matches lie

A pattern only ever moves forward through the text (`run_forward`), so a match begins and ends inside the text that
was searched, at or after the place where the search began (`mem_findAllFrom`).
-/

namespace Awk

/-- Some of the text after the first place stands between it and the second. -/
def Place.Reaches (a b : Place) : Prop := ∃ taken, a.rest = taken ++ b.rest ∧ b.offset = a.offset + taken.length

namespace Place

theorem Reaches.refl (a : Place) : a.Reaches a := ⟨[], rfl, rfl⟩

theorem Reaches.trans {a b c : Place} (hab : a.Reaches b) (hbc : b.Reaches c) : a.Reaches c := by
  obtain ⟨s, hs, hoffset⟩ := hab
  obtain ⟨t, ht, hoffset'⟩ := hbc
  refine ⟨s ++ t, ?_, ?_⟩
  · rw [hs, ht, List.append_assoc]
  · rw [hoffset', hoffset, List.length_append, Nat.add_assoc]

theorem Reaches.offset_le {a b : Place} (h : a.Reaches b) : a.offset ≤ b.offset := by
  obtain ⟨taken, -, hoffset⟩ := h
  omega

theorem Reaches.le_end {a b : Place} (h : a.Reaches b) : b.offset ≤ a.offset + a.rest.length := by
  obtain ⟨taken, hrest, hoffset⟩ := h
  rw [hrest, List.length_append]
  omega

end Place

namespace Pattern

/-- What answers with an end has gone forward to a place where the continuation answers with that end. -/
def Forward (body : Continuation → Continuation) : Prop :=
  ∀ {k : Continuation} {place stop : Place}, body k place = some stop →
    ∃ next, place.Reaches next ∧ k next = some stop

variable {body : Continuation → Continuation} {k : Continuation} {place stop : Place}

theorem Forward.reaches (hbody : Forward body) (h : body some place = some stop) : place.Reaches stop := by
  obtain ⟨next, hnext, heq⟩ := hbody h
  cases heq
  exact hnext

/-- The rest of a way may be gone after another part of it. -/
private theorem forward_step {fuel least : Nat} {most last : Option Nat}
    {rounds : Nat → Nat → Option Nat → Option Nat → Continuation} (hbody : Forward body)
    (ih : ∀ {place stop : Place}, rounds fuel least most last place = some stop →
      ∃ next, place.Reaches next ∧ k next = some stop)
    (h : body (rounds fuel least most last) place = some stop) :
    ∃ next, place.Reaches next ∧ k next = some stop := by
  obtain ⟨mid, hmid, hrest⟩ := hbody h
  obtain ⟨next, hnext, hk⟩ := ih hrest
  exact ⟨next, hmid.trans hnext, hk⟩

private theorem runGreedy_forward (hbody : Forward body) {fuel least : Nat} {most last : Option Nat}
    (h : runGreedy body k fuel least most last place = some stop) :
    ∃ next, place.Reaches next ∧ k next = some stop := by
  induction fuel generalizing least most last place stop with
  | zero => cases h
  | succ fuel ih =>
    cases least with
    | succ least => exact forward_step hbody ih h
    | zero =>
      unfold runGreedy at h
      split at h
      · exact ⟨place, .refl place, h⟩
      · split at h
        · rename_i found
          rw [h] at found
          exact forward_step hbody ih found
        · exact ⟨place, .refl place, h⟩

private theorem runLazy_forward (hbody : Forward body) {fuel least : Nat} {most last : Option Nat}
    (h : runLazy body k fuel least most last place = some stop) :
    ∃ next, place.Reaches next ∧ k next = some stop := by
  induction fuel generalizing least most last place stop with
  | zero => cases h
  | succ fuel ih =>
    cases least with
    | succ least => exact forward_step hbody ih h
    | zero =>
      unfold runLazy at h
      split at h
      · rename_i found
        rw [h] at found
        exact ⟨place, .refl place, found⟩
      · split at h
        · cases h
        · exact forward_step hbody ih h

theorem runPossessive_reaches (hbody : Forward body) {fuel least : Nat} {most last : Option Nat}
    (h : runPossessive body fuel least most last place = some stop) : place.Reaches stop := by
  induction fuel generalizing least most last place with
  | zero => cases h
  | succ fuel ih =>
    cases least with
    | succ least =>
      obtain ⟨mid, hround, hrest⟩ := Option.bind_eq_some_iff.1 h
      exact (hbody.reaches hround).trans (ih hrest)
    | zero =>
      unfold runPossessive at h
      split at h
      · cases h
        exact .refl _
      · split at h
        · rename_i hround
          exact (hbody.reaches hround).trans (ih h)
        · cases h
          exact .refl _

theorem run_forward (p : Pattern) : Forward p.run := by
  induction p with
  | empty =>
    intro k place stop h
    exact ⟨place, .refl place, h⟩
  | char test =>
    intro k place stop h
    unfold run at h
    split at h
    · rename_i c rest hrest
      split at h
      · exact ⟨⟨place.offset + 1, rest⟩, ⟨[c], hrest, rfl⟩, h⟩
      · cases h
    · cases h
  | atStart =>
    intro k place stop h
    unfold run at h
    split at h
    · exact ⟨place, .refl place, h⟩
    · cases h
  | atEnd =>
    intro k place stop h
    unfold run at h
    split at h
    · exact ⟨place, .refl place, h⟩
    · cases h
  | seq p q ihp ihq =>
    intro k place stop h
    obtain ⟨mid, hmid, hq⟩ := ihp h
    obtain ⟨next, hnext, hk⟩ := ihq hq
    exact ⟨next, hmid.trans hnext, hk⟩
  | alt p q ihp ihq =>
    intro k place stop h
    unfold run at h
    split at h
    · rename_i found
      rw [h] at found
      exact ihp found
    · exact ihq h
  | «repeat» p least most greed ih =>
    intro k place stop h
    cases greed with
    | greedy => exact runGreedy_forward ih h
    | lazy => exact runLazy_forward ih h
    | possessive =>
      obtain ⟨mid, hrounds, hk⟩ := Option.bind_eq_some_iff.1 h
      exact ⟨mid, runPossessive_reaches ih hrounds, hk⟩

variable {p : Pattern}

theorem matchAt_bounds {advance : Bool} {offset stop : Nat} {text : Text}
    (h : p.matchAt advance ⟨offset, text⟩ = some stop) : offset ≤ stop ∧ stop ≤ offset + text.length := by
  obtain ⟨last, hrun, rfl⟩ := Option.map_eq_some_iff.1 h
  obtain ⟨next, hnext, hk⟩ := run_forward p hrun
  split at hk
  · cases hk
  · cases hk
    exact ⟨hnext.offset_le, hnext.le_end⟩

theorem findFrom_bounds {advance : Bool} {offset start stop : Nat} {text : Text}
    (h : p.findFrom advance offset text = some (start, stop)) :
    offset ≤ start ∧ start ≤ stop ∧ stop ≤ offset + text.length := by
  induction text generalizing advance offset with
  | nil =>
    unfold findFrom at h
    split at h
    · rename_i hmatch
      cases h
      exact ⟨Nat.le_refl _, matchAt_bounds hmatch⟩
    · cases h
  | cons c text ih =>
    unfold findFrom at h
    split at h
    · rename_i hmatch
      cases h
      exact ⟨Nat.le_refl _, matchAt_bounds hmatch⟩
    · obtain ⟨hstart, hlen, hstop⟩ := ih h
      rw [List.length_cons]
      omega

/-- Matches lie in the text, after the place where the search begins. -/
theorem mem_findAllFrom {fuel offset start stop : Nat} {advance : Bool} {text : Text}
    (h : (start, stop) ∈ p.findAllFrom fuel advance offset text) :
    offset ≤ start ∧ start ≤ stop ∧ stop ≤ offset + text.length := by
  induction fuel generalizing advance offset text with
  | zero => cases h
  | succ fuel ih =>
    unfold findAllFrom at h
    split at h
    · cases h
    · rename_i first last hfound
      have hbounds := findFrom_bounds hfound
      rcases List.mem_cons.1 h with h | h
      · cases h
        exact hbounds
      · have hrest := ih h
        rw [List.length_drop] at hrest
        omega

theorem mem_findAllNonempty {start stop : Nat} {text : Text} (h : (start, stop) ∈ p.findAllNonempty text) :
    start < stop ∧ stop ≤ text.length := by
  obtain ⟨hmem, hlt⟩ := List.mem_filter.1 h
  have hbounds := mem_findAllFrom hmem
  simp only [decide_eq_true_eq] at hlt
  omega

end Pattern

end Awk
