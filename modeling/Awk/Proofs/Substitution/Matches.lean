import Awk.Proofs.Regex.Spans
import Awk.Proofs.Substitution.Replacement
import Awk.Regex.Compile

/-!
# What a substitution replaces

A substitution goes through the matches that a search finds one after the other (`Search.Finds`).  It replaces these,
or the first of them, and keeps everything else (`substitute_eq_replaced`), for any search that answers with spans of
the text behind the place where it begins (`Search.Within`), as that of a pattern does (`Pattern.within_search`).
-/

namespace Awk

namespace Text

variable {offset start stop : Nat}

theorem slice_append_drop (t : Text) (h : start ≤ stop) : t.slice start stop ++ t.drop stop = t.drop start := by
  have hdrop : t.drop stop = (t.drop start).drop (stop - start) := by
    rw [List.drop_drop, Nat.add_sub_of_le h]
  rw [hdrop]
  exact List.take_append_drop _ _

theorem slice_append_slice (t : Text) (h : offset ≤ start) (h' : start ≤ stop) :
    t.slice offset start ++ t.slice start stop = t.slice offset stop := by
  have hdrop : t.drop start = (t.drop offset).drop (start - offset) := by
    rw [List.drop_drop, Nat.add_sub_of_le h]
  have hlength : stop - offset = (start - offset) + (stop - start) := by omega
  rw [slice, slice, slice, hdrop, hlength, List.take_add]

end Text

/-- Where the search goes on behind a match: at its end, or one character further if it takes no text. -/
def resume (start stop : Nat) : Nat := if start = stop then stop + 1 else stop

/-- The text from an offset on with its spans replaced. -/
def replaced (replacement text : Text) : Nat → List (Nat × Nat) → Text
  | offset, [] => text.drop offset
  | offset, (start, stop) :: spans =>
    text.slice offset start ++ expand replacement (text.slice start stop) ++ replaced replacement text stop spans

namespace Search

/-- What is found lies in the text, behind the offset where the search begins. -/
def Within (search : Search) (text : Text) : Prop :=
  ∀ ⦃offset start stop⦄, offset ≤ text.length → search offset = some (start, stop) →
    offset ≤ start ∧ start ≤ stop ∧ stop ≤ text.length

/-- The matches that are found one after the other, each searched for from where the step before it left off.  `last` is
the end of the match before; a match without text that stands there is passed over. -/
inductive Finds (search : Search) (text : Text) : Option Nat → Nat → List (Nat × Nat) → Prop
  | beyond {last offset} (hbeyond : text.length < offset) : Finds search text last offset []
  | nothing {last offset} (hle : offset ≤ text.length) (hsearch : search offset = none) :
    Finds search text last offset []
  | passed {offset start spans} (hle : offset ≤ text.length) (hsearch : search offset = some (start, start))
    (hmore : Finds search text (some start) (start + 1) spans) : Finds search text (some start) offset spans
  | found {last offset start stop spans} (hle : offset ≤ text.length) (hsearch : search offset = some (start, stop))
    (hnew : start = stop → last ≠ some start) (hmore : Finds search text (some stop) (resume start stop) spans) :
    Finds search text last offset ((start, stop) :: spans)

variable {search : Search} {text : Text} {last : Option Nat} {offset : Nat} {spans : List (Nat × Nat)}

theorem le_resume (start stop : Nat) : stop ≤ resume start stop := by
  unfold resume
  split <;> omega

theorem lt_resume {start stop : Nat} (hle : offset ≤ start) (hle' : start ≤ stop) : offset < resume start stop := by
  unfold resume
  split <;> omega

/-- Every step leaves off further on, so that the matches come to an end. -/
theorem Within.exists_finds (h : search.Within text) (last : Option Nat) (offset : Nat) :
    ∃ spans, search.Finds text last offset spans := by
  induction hn : text.length + 1 - offset using Nat.strongRecOn generalizing last offset with
  | ind n ih =>
    by_cases hle : offset ≤ text.length
    · rcases hsearch : search offset with _ | ⟨start, stop⟩
      · exact ⟨[], .nothing hle hsearch⟩
      · obtain ⟨hstart, hstop, -⟩ := h hle hsearch
        by_cases hpassed : start = stop ∧ last = some start
        · obtain ⟨rfl, rfl⟩ := hpassed
          obtain ⟨spans, hspans⟩ := ih _ (by omega) (some start) (start + 1) rfl
          exact ⟨spans, .passed hle hsearch hspans⟩
        · have hlt := lt_resume hstart hstop
          obtain ⟨spans, hspans⟩ := ih _ (by omega) (some stop) (resume start stop) rfl
          exact ⟨(start, stop) :: spans, .found hle hsearch (fun heq hlast => hpassed ⟨heq, hlast⟩) hspans⟩
    · exact ⟨[], .beyond (Nat.lt_of_not_le hle)⟩

theorem Finds.bounds (h : search.Finds text last offset spans) (hwithin : search.Within text) :
    ∀ span ∈ spans, offset ≤ span.1 ∧ span.1 ≤ span.2 ∧ span.2 ≤ text.length := by
  induction h with
  | beyond hbeyond => exact List.forall_mem_nil _
  | nothing hle hsearch => exact List.forall_mem_nil _
  | passed hle hsearch hmore ih =>
    intro span hspan
    have hbounds := hwithin hle hsearch
    have hspan := ih span hspan
    omega
  | found hle hsearch hnew hmore ih =>
    have hbounds := hwithin hle hsearch
    have hresume := lt_resume hbounds.1 hbounds.2.1
    refine List.forall_mem_cons.2 ⟨hbounds, fun span hspan => ?_⟩
    have hspan := ih span hspan
    omega

theorem Finds.pairwise (h : search.Finds text last offset spans) (hwithin : search.Within text) :
    spans.Pairwise fun earlier later => earlier.2 ≤ later.1 := by
  induction h with
  | beyond hbeyond => exact .nil
  | nothing hle hsearch => exact .nil
  | passed hle hsearch hmore ih => exact ih
  | found hle hsearch hnew hmore ih =>
    refine .cons (fun span hspan => ?_) ih
    exact Nat.le_trans (le_resume _ _) (hmore.bounds hwithin span hspan).1

theorem Finds.exists_search (h : search.Finds text last offset spans) :
    ∀ span ∈ spans, ∃ offset ≤ text.length, search offset = some span := by
  induction h with
  | beyond hbeyond => exact List.forall_mem_nil _
  | nothing hle hsearch => exact List.forall_mem_nil _
  | passed hle hsearch hmore ih => exact ih
  | @found last offset start stop spans hle hsearch hnew hmore ih =>
    exact List.forall_mem_cons.2 ⟨⟨offset, hle, hsearch⟩, ih⟩

/-- Behind the text nothing is found. -/
theorem Finds.eq_nil_of_lt (h : search.Finds text last offset spans) (hbeyond : text.length < offset) : spans = [] := by
  cases h with
  | beyond hbeyond => rfl
  | nothing hle hsearch => rfl
  | passed hle hsearch hmore => omega
  | found hle hsearch hnew hmore => omega

/-- Nothing is found behind the first search if that finds nothing. -/
theorem Finds.eq_nil_iff (h : search.Finds text none 0 spans) : spans = [] ↔ search 0 = none := by
  cases h with
  | beyond hbeyond => exact absurd hbeyond (Nat.not_lt_zero _)
  | nothing hle hsearch => simp [hsearch]
  | found hle hsearch hnew hmore => simp [hsearch]

end Search

namespace Pattern

/-- What a pattern finds lies in the text. -/
theorem within_search (p : Pattern) (text : Text) : Search.Within (p.search text) text := by
  intro offset start stop hle hsearch
  unfold search at hsearch
  rw [Nat.min_eq_left hle] at hsearch
  have hbounds := findFrom_bounds hsearch
  rw [List.length_drop] at hbounds
  omega

end Pattern

/-! ### Replacing -/

section Replaced

variable {text : Text} {offset mid : Nat} {spans : List (Nat × Nat)}

/-- What stands before the first span is kept. -/
theorem slice_append_replaced (replacement : Text) (hle : offset ≤ mid) (hspans : ∀ span ∈ spans, mid ≤ span.1) :
    text.slice offset mid ++ replaced replacement text mid spans = replaced replacement text offset spans := by
  cases spans with
  | nil => exact Text.slice_append_drop text hle
  | cons span spans =>
    have hmid := hspans span List.mem_cons_self
    rw [replaced, replaced, ← Text.slice_append_slice text hle hmid]
    simp only [List.append_assoc]

/-- Each match put in its own place gives the text back. -/
theorem replaced_ampersand (hspans : ∀ span ∈ spans, offset ≤ span.1 ∧ span.1 ≤ span.2)
    (horder : spans.Pairwise fun earlier later => earlier.2 ≤ later.1) :
    replaced ['&'] text offset spans = text.drop offset := by
  induction spans generalizing offset with
  | nil => rfl
  | cons span spans ih =>
    obtain ⟨hfirst, hspans⟩ := List.forall_mem_cons.1 hspans
    rw [List.pairwise_cons] at horder
    rw [replaced, expand_ampersand, ih (fun later hlater => ⟨horder.1 later hlater, (hspans later hlater).2⟩) horder.2,
      List.append_assoc, Text.slice_append_drop text hfirst.2, Text.slice_append_drop text hfirst.1]

end Replaced

/-- All matches, or the first one. -/
def kept (all : Bool) (spans : List (Nat × Nat)) : List (Nat × Nat) := if all then spans else spans.take 1

theorem kept_sublist (all : Bool) (spans : List (Nat × Nat)) : (kept all spans).Sublist spans := by
  unfold kept
  split
  · exact List.Sublist.refl _
  · exact List.take_sublist 1 spans

theorem kept_cons (all : Bool) (span : Nat × Nat) (spans : List (Nat × Nat)) :
    kept all (span :: spans) = span :: (if all then kept all spans else []) := by
  cases all with
  | true => rfl
  | false => rfl

theorem kept_nil (all : Bool) : kept all [] = [] := by
  cases all with
  | true => rfl
  | false => rfl

/-- With enough fuel a substitution replaces the matches that are found. -/
theorem Search.Finds.substituteFrom {search : Search} {text : Text} {last : Option Nat} {offset : Nat}
    {spans : List (Nat × Nat)} (h : search.Finds text last offset spans) (hwithin : search.Within text)
    (replacement : Text) (all : Bool) {fuel : Nat} (hfuel : text.length + 1 < fuel + offset) :
    Awk.substituteFrom search replacement text all fuel offset last =
      (replaced replacement text offset (kept all spans), (kept all spans).length) := by
  induction h generalizing fuel with
  | @beyond last offset hbeyond =>
    have hdrop : text.drop offset = [] := List.drop_eq_nil_of_le (Nat.le_of_lt hbeyond)
    rw [kept_nil, replaced, hdrop]
    cases fuel with
    | zero => rw [Awk.substituteFrom, hdrop, List.length_nil]
    | succ fuel => rw [Awk.substituteFrom, if_pos hbeyond, List.length_nil]
  | nothing hle hsearch =>
    obtain ⟨fuel, rfl⟩ := Nat.exists_eq_succ_of_ne_zero (show fuel ≠ 0 by omega)
    rw [Awk.substituteFrom, if_neg (Nat.not_lt.2 hle), hsearch, kept_nil, replaced, List.length_nil]
  | @passed offset start spans hle hsearch hmore ih =>
    obtain ⟨fuel, rfl⟩ := Nat.exists_eq_succ_of_ne_zero (show fuel ≠ 0 by omega)
    have hstart := (hwithin hle hsearch).1
    have hbehind : ∀ span ∈ kept all spans, start + 1 ≤ span.1 := fun span hspan =>
      (hmore.bounds hwithin span ((kept_sublist all spans).subset hspan)).1
    rw [Awk.substituteFrom, if_neg (Nat.not_lt.2 hle), hsearch]
    dsimp only
    rw [if_pos (by simp)]
    split
    · rename_i hend
      obtain rfl := hmore.eq_nil_of_lt (show text.length < start + 1 by omega)
      rw [kept_nil, replaced, List.length_nil]
    · rw [ih (by omega)]
      dsimp only
      rw [slice_append_replaced replacement (by omega) hbehind]
  | @found last offset start stop spans hle hsearch hnew hmore ih =>
    obtain ⟨fuel, rfl⟩ := Nat.exists_eq_succ_of_ne_zero (show fuel ≠ 0 by omega)
    obtain ⟨hstart, hstop, -⟩ := hwithin hle hsearch
    have hresume := lt_resume hstart hstop
    rw [Awk.substituteFrom, if_neg (Nat.not_lt.2 hle), hsearch]
    dsimp only
    rw [if_neg (by simpa using hnew), kept_cons]
    cases all with
    | false => rfl
    | true =>
      have hrest := ih (show text.length + 1 < fuel + resume start stop by omega)
      have hbehind : ∀ span ∈ kept true spans, resume start stop ≤ span.1 := fun span hspan =>
        (hmore.bounds hwithin span ((kept_sublist true spans).subset hspan)).1
      rw [if_neg (by simp), if_pos rfl, replaced, List.length_cons]
      by_cases hempty : start = stop
      · -- The character behind a match without text is kept before the search goes on.
        subst hempty
        rw [resume, if_pos rfl] at hrest hbehind
        rw [if_pos rfl, hrest, ← slice_append_replaced replacement (Nat.le_succ start) hbehind]
        simp only [List.append_assoc]
      · rw [resume, if_neg hempty] at hrest
        rw [if_neg hempty, hrest]

theorem Search.Finds.substitute {search : Search} {text : Text} {spans : List (Nat × Nat)}
    (h : search.Finds text none 0 spans) (hwithin : search.Within text) (replacement : Text) (all : Bool) :
    Awk.substitute search replacement text all =
      (replaced replacement text 0 (kept all spans), (kept all spans).length) :=
  h.substituteFrom hwithin replacement all (Nat.lt_succ_self _)

theorem length_kept_eq_zero_iff (all : Bool) (spans : List (Nat × Nat)) : (kept all spans).length = 0 ↔ spans = [] := by
  cases spans with
  | nil => simp [kept_nil]
  | cons span spans => simp [kept_cons]

/-- **What is found is replaced, and all else is kept.**  For every search that answers with spans of the text, a
substitution comes to an end, with the text in which the matches that are found, or the first of them, are replaced, and
their number.  It changes nothing if nothing is found, and nothing if each match is put in its own place. -/
theorem substitute_eq_replaced {search : Search} {text : Text} (hwithin : search.Within text) (replacement : Text)
    (all : Bool) :
    (∃ spans, search.Finds text none 0 spans ∧ (∀ span ∈ spans, span.1 ≤ span.2 ∧ span.2 ≤ text.length) ∧
      spans.Pairwise (fun earlier later => earlier.2 ≤ later.1) ∧
        substitute search replacement text all =
          (replaced replacement text 0 (kept all spans), (kept all spans).length)) ∧
      (∀ fuel, text.length + 2 ≤ fuel →
        substituteFrom search replacement text all fuel 0 none = substitute search replacement text all) ∧
      (all = false → (substitute search replacement text all).2 ≤ 1) ∧
      ((substitute search replacement text all).2 = 0 ↔ search 0 = none) ∧
      (search 0 = none → (substitute search replacement text all).1 = text) ∧
      (substitute search ['&'] text all).1 = text := by
  obtain ⟨spans, hspans⟩ := hwithin.exists_finds none 0
  have hbounds := hspans.bounds hwithin
  have horder := hspans.pairwise hwithin
  have heq (r : Text) := hspans.substitute hwithin r all
  have hkept : ∀ span ∈ kept all spans, 0 ≤ span.1 ∧ span.1 ≤ span.2 := fun span hspan =>
    have hspan := hbounds span ((kept_sublist all spans).subset hspan)
    ⟨hspan.1, hspan.2.1⟩
  refine ⟨⟨spans, hspans, fun span hspan => (hbounds span hspan).2, horder, heq replacement⟩, ?_, ?_, ?_, ?_, ?_⟩
  · intro fuel hle
    rw [hspans.substituteFrom hwithin replacement all (by omega), heq]
  · rintro rfl
    rw [heq]
    exact List.length_take_le 1 spans
  · rw [heq, length_kept_eq_zero_iff, hspans.eq_nil_iff]
  · intro hnothing
    obtain rfl := hspans.eq_nil_iff.2 hnothing
    rw [heq, kept_nil]
    rfl
  · rw [heq, replaced_ampersand hkept (horder.sublist (kept_sublist all spans))]
    rfl

/-- A match without text, one with text, one that is passed over behind it, and one at the end. -/
theorem substitute_eq_replaced_stars : ∃ p, compileEre "x*".toList = .ok p ∧
    Search.Within (p.search "axxb".toList) "axxb".toList ∧
    substitute (p.search "axxb".toList) "<&>".toList "axxb".toList true = ("<>a<xx>b<>".toList, 3) ∧
    (∃ spans, Search.Finds (p.search "axxb".toList) "axxb".toList none 0 spans ∧ spans.length = 3 ∧
      replaced "<&>".toList "axxb".toList 0 spans = "<>a<xx>b<>".toList) ∧
    (substitute (p.search "axxb".toList) ['&'] "axxb".toList true).1 = "axxb".toList := by
  refine ⟨.seq (.repeat (.char (.one 'x')) 0 none .greedy) .empty, by rfl, Pattern.within_search _ _, by rfl, ?_⟩
  have h := substitute_eq_replaced (Pattern.within_search (.seq (.repeat (.char (.one 'x')) 0 none .greedy) .empty)
    "axxb".toList) "<&>".toList true
  obtain ⟨⟨spans, hspans, -, -, heq⟩, -, -, -, -, hsame⟩ := h
  have hresult := heq.symm.trans (show _ = ("<>a<xx>b<>".toList, 3) by rfl)
  obtain ⟨htext, hcount⟩ := Prod.mk.inj hresult
  exact ⟨⟨spans, hspans, hcount, htext⟩, hsame⟩

end Awk
