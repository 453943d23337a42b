import Awk.Proofs.Regex.Successive
import Awk.Proofs.Substitution.Matches

/-!
# Splitting and substituting

Cutting a text at the matches of a pattern and substituting them go through the text each in its own way: the one looks
for all matches at first, the other for one after the other, with a rule of its own for matches without text.  For a
pattern that has none of these in the text (`Pattern.TakesText`) they find the same matches (`Pattern.finds_findAll`),
so that what has been cut can be joined again by a substitution (`join_splitPattern`).
-/

namespace Awk

namespace Pattern

variable {p : Pattern} {text : Text}

/-- At no place of the text is there a match without text. -/
def TakesText (p : Pattern) (text : Text) : Prop :=
  ∀ offset ≤ text.length, p.matchAt false ⟨offset, text.drop offset⟩ ≠ some offset

/-- What is found from an offset on matches where it begins. -/
theorem matchAt_of_findFrom {offset start stop : Nat} {rest : Text}
    (h : p.findFrom false offset rest = some (start, stop)) :
    p.matchAt false ⟨start, rest.drop (start - offset)⟩ = some stop := by
  induction rest generalizing offset with
  | nil =>
    unfold findFrom at h
    split at h
    · rename_i hmatch
      cases h
      rw [List.drop_nil]
      exact hmatch
    · cases h
  | cons c rest ih =>
    unfold findFrom at h
    split at h
    · rename_i hmatch
      cases h
      rw [Nat.sub_self]
      exact hmatch
    · have hbounds := findFrom_bounds h
      have hlater := ih h
      rw [show start - offset = (start - (offset + 1)) + 1 by omega]
      exact hlater

theorem TakesText.lt_of_search (h : p.TakesText text) {offset start stop : Nat} (hle : offset ≤ text.length)
    (hsearch : p.search text offset = some (start, stop)) : start < stop := by
  obtain ⟨hstart, hstop, hend⟩ := p.within_search text hle hsearch
  unfold search at hsearch
  rw [Nat.min_eq_left hle] at hsearch
  have hmatch := matchAt_of_findFrom hsearch
  rw [List.drop_drop, Nat.add_sub_of_le hstart] at hmatch
  refine Nat.lt_of_le_of_ne hstop fun heq => h start (by omega) ?_
  rw [hmatch, heq]

/-- The successive matches are those of repeated search. -/
theorem TakesText.finds_findAllFrom (h : p.TakesText text) {fuel offset : Nat} (hle : offset ≤ text.length)
    (hfuel : Searches fuel false (text.drop offset)) (last : Option Nat) :
    Search.Finds (p.search text) text last offset (p.findAllFrom fuel false offset (text.drop offset)) := by
  induction fuel generalizing offset last with
  | zero => exact absurd hfuel (Nat.not_lt_zero _)
  | succ fuel ih =>
    have hsearch : p.search text offset = p.findFrom false offset (text.drop offset) := by
      rw [search, Nat.min_eq_left hle]
    unfold findAllFrom
    split
    · rename_i hnothing
      exact .nothing hle (hsearch.trans hnothing)
    · rename_i start stop hfound
      have hlt := h.lt_of_search hle (hsearch.trans hfound)
      obtain ⟨hstart, -, hstop⟩ := p.within_search text hle (hsearch.trans hfound)
      have hmore := hfuel.next hfound
      have hdrop : (text.drop offset).drop (stop - offset) = text.drop stop := by
        rw [List.drop_drop, Nat.add_sub_of_le (by omega)]
      rw [beq_eq_false_iff_ne.2 (Nat.ne_of_lt hlt), hdrop] at hmore ⊢
      refine .found hle (hsearch.trans hfound) (fun heq => absurd heq (Nat.ne_of_lt hlt)) ?_
      rw [resume, if_neg (Nat.ne_of_lt hlt)]
      exact ih hstop hmore (some stop)

theorem TakesText.finds_findAll (h : p.TakesText text) : Search.Finds (p.search text) text none 0 (p.findAll text) :=
  h.finds_findAllFrom (Nat.zero_le _) (searches_all text) none

theorem TakesText.findAllNonempty_eq (h : p.TakesText text) : p.findAllNonempty text = p.findAll text := by
  refine List.filter_eq_self.2 fun span hspan => ?_
  obtain ⟨offset, hle, hsearch⟩ := h.finds_findAll.exists_search span hspan
  exact decide_eq_true (h.lt_of_search hle hsearch)

end Pattern

/-! ### Joining -/

theorem length_cutSpans (offset : Nat) (text : Text) (spans : List (Nat × Nat)) :
    (cutSpans offset text spans).length = spans.length + 1 := by
  induction spans generalizing offset text with
  | nil => rfl
  | cons span spans ih => rw [cutSpans, List.length_cons, ih, List.length_cons]

/-- The pieces joined by a separator are the text with the separator in the place of each span. -/
theorem join_cutSpans (separator text : Text) {offset : Nat} {spans : List (Nat × Nat)}
    (hspans : ∀ span ∈ spans, offset ≤ span.1 ∧ span.1 ≤ span.2)
    (horder : spans.Pairwise fun earlier later => earlier.2 ≤ later.1) :
    Text.join separator (cutSpans offset (text.drop offset) spans) =
      replaced (literally separator) text offset spans := by
  induction spans generalizing offset with
  | nil => exact List.intercalate_singleton
  | cons span spans ih =>
    obtain ⟨start, stop⟩ := span
    obtain ⟨hfirst, hspans⟩ := List.forall_mem_cons.1 hspans
    rw [List.pairwise_cons] at horder
    have hdrop : (text.drop offset).drop (stop - offset) = text.drop stop := by
      rw [List.drop_drop, Nat.add_sub_of_le (Nat.le_trans hfirst.1 hfirst.2)]
    have hne : cutSpans stop (text.drop stop) spans ≠ [] := by
      rw [← List.length_pos_iff, length_cutSpans]
      exact Nat.succ_pos _
    have hrest := ih (fun later hlater => ⟨horder.1 later hlater, (hspans later hlater).2⟩) horder.2
    rw [cutSpans, hdrop, Text.join, List.intercalate_cons_of_ne_nil hne, ← Text.join, hrest, replaced, expand_literally]
    rfl

/-- **Splitting and substituting agree on what separates.**  For a pattern that has no match without text in a text, the
pieces of the text joined by a separator are the text with every match replaced by that separator, and there is one
piece more than replacements, unless the text is empty. -/
theorem join_splitPattern {p : Pattern} {text : Text} (h : p.TakesText text) (separator : Text) :
    Text.join separator (splitPattern text p) = (substitute (p.search text) (literally separator) text true).1 ∧
      (text ≠ [] →
        (splitPattern text p).length = (substitute (p.search text) (literally separator) text true).2 + 1) := by
  have hwithin := p.within_search text
  have hfinds := h.finds_findAll
  have hbounds := hfinds.bounds hwithin
  have hsubstitute := hfinds.substitute hwithin (literally separator) true
  have hsplit (hne : text ≠ []) : splitPattern text p = cutSpans 0 (text.drop 0) (p.findAll text) := by
    rw [splitPattern, if_neg (by simpa using hne), h.findAllNonempty_eq, List.drop_zero]
  rw [hsubstitute]
  refine ⟨?_, fun hne => ?_⟩
  · by_cases hempty : text = []
    · subst hempty
      have hnone : p.findAll [] = [] := by
        rw [← h.findAllNonempty_eq, List.eq_nil_iff_forall_not_mem]
        rintro ⟨start, stop⟩ hspan
        have hend := Pattern.mem_findAllNonempty hspan
        rw [List.length_nil] at hend
        omega
      rw [hnone]
      rfl
    · rw [hsplit hempty]
      exact join_cutSpans separator text (fun span hspan => ⟨(hbounds span hspan).1, (hbounds span hspan).2.1⟩)
        (hfinds.pairwise hwithin)
  · rw [hsplit hne, length_cutSpans]
    rfl

/-- With an anchor, separators next to each other and at both ends, and marks in the separator. -/
theorem join_splitPattern_anchored : ∃ p, compileEre "^a|,".toList = .ok p ∧ p.TakesText "aa,,b,".toList ∧
    splitPattern "aa,,b,".toList p = [[], "a".toList, [], "b".toList, []] ∧
    Text.join "\\&".toList (splitPattern "aa,,b,".toList p) =
      (substitute (p.search "aa,,b,".toList) (literally "\\&".toList) "aa,,b,".toList true).1 ∧
    ("aa,,b,".toList ≠ [] → (splitPattern "aa,,b,".toList p).length =
      (substitute (p.search "aa,,b,".toList) (literally "\\&".toList) "aa,,b,".toList true).2 + 1) := by
  have htakes : Pattern.TakesText
      (.alt (.seq .atStart (.seq (.char (.one 'a')) .empty)) (.seq (.char (.one ',')) .empty)) "aa,,b,".toList := by
    unfold Pattern.TakesText
    decide
  exact ⟨_, by rfl, htakes, by rfl, join_splitPattern htakes _⟩

end Awk
