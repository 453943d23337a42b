import Awk.Proofs.Fields.Runs
import Awk.Proofs.Regex.Branches

/-!
# Fields and lines

In paragraph mode a newline separates fields whatever else does (`newline_separates_fields_iff`), but for the empty
separator, under which every character of the text is a field of its own.  For a pattern the reason is that it takes
some text at each newline (`Pattern.TakesNewlines`): the search stops there at the latest, and if it stops without
taking text, it stops there once more.
-/

namespace Awk

open Awk.Action (bind_eq_ok)

namespace Text

variable {sep : Char → Bool}

theorem splitOn_ne_nil (sep : Char → Bool) (t : Text) : splitOn sep t ≠ [] := by
  cases t with
  | nil => simp [splitOn]
  | cons c t =>
    rw [splitOn]
    split
    · simp
    · split <;> simp

/-- No piece has a character in it that separates. -/
theorem notMem_of_mem_splitOn {c : Char} (hc : sep c) {t piece : Text} (h : piece ∈ splitOn sep t) : c ∉ piece := by
  induction t generalizing piece with
  | nil =>
    obtain rfl := List.mem_singleton.1 h
    exact List.not_mem_nil
  | cons d t ih =>
    obtain ⟨first, pieces, hpieces⟩ := List.exists_cons_of_ne_nil (splitOn_ne_nil sep t)
    rw [hpieces] at ih
    rw [splitOn, hpieces] at h
    dsimp only at h
    split at h
    · rcases List.mem_cons.1 h with rfl | h
      · exact List.not_mem_nil
      · exact ih h
    · rename_i hd
      rcases List.mem_cons.1 h with rfl | h
      · refine List.not_mem_cons_of_ne_of_not_mem ?_ (ih List.mem_cons_self)
        rintro rfl
        exact hd hc
      · exact ih (List.mem_cons_of_mem _ h)

end Text

namespace Pattern

variable {p : Pattern} {advance : Bool} {offset start stop : Nat} {text : Text}

/-- Matches at each newline, also where a match without text does not count. -/
def TakesNewlines (p : Pattern) : Prop :=
  ∀ advance offset rest, (p.matchAt advance ⟨offset, '\n' :: rest⟩).isSome

theorem HasBranch.takesNewlines (h : HasBranch (seq (char (.one '\n')) empty) p) : p.TakesNewlines := by
  intro advance offset rest
  rw [matchAt, Option.isSome_map]
  refine h.isSome_run ?_
  have hmoved : (advance && offset + 1 == offset) = false := by simp
  simp [run, CharTest.holds, hmoved]

theorem TakesNewlines.ne_of_matchAt (h : p.TakesNewlines) {c : Char}
    (hnone : p.matchAt advance ⟨offset, c :: text⟩ = none) : '\n' ≠ c := by
  rintro rfl
  have hsome := h advance offset text
  rw [hnone] at hsome
  cases hsome

theorem TakesNewlines.notMem_of_findFrom_none (h : p.TakesNewlines) (hnone : p.findFrom advance offset text = none) :
    '\n' ∉ text := by
  induction text generalizing advance offset with
  | nil => exact List.not_mem_nil
  | cons c text ih =>
    unfold findFrom at hnone
    split at hnone
    · cases hnone
    · rename_i hmatch
      exact List.not_mem_cons_of_ne_of_not_mem (h.ne_of_matchAt hmatch) (ih hnone)

/-- The search does not pass a newline. -/
theorem TakesNewlines.notMem_take (h : p.TakesNewlines) (hfound : p.findFrom advance offset text = some (start, stop)) :
    '\n' ∉ text.take (start - offset) := by
  induction text generalizing advance offset with
  | nil =>
    rw [List.take_nil]
    exact List.not_mem_nil
  | cons c text ih =>
    unfold findFrom at hfound
    split at hfound
    · cases hfound
      rw [Nat.sub_self]
      exact List.not_mem_nil
    · rename_i hmatch
      have hbounds := findFrom_bounds hfound
      rw [show start - offset = (start - (offset + 1)) + 1 by omega, List.take_succ_cons]
      exact List.not_mem_cons_of_ne_of_not_mem (h.ne_of_matchAt hmatch) (ih hfound)

/-- The pieces between the matches that are found have no newline in them.  `before` is what the search has passed since
the last match that took some text, which ends at `base`. -/
theorem TakesNewlines.notMem_cutSpans (h : p.TakesNewlines) {fuel base : Nat} {before : Text}
    (hfuel : Searches fuel advance text) (hoffset : offset = base + before.length) (hbefore : '\n' ∉ before) :
    ∀ piece ∈ cutSpans base (before ++ text) ((p.findAllFrom fuel advance offset text).filter takesText),
      '\n' ∉ piece := by
  induction fuel generalizing advance base before offset text with
  | zero => exact absurd hfuel (Nat.not_lt_zero _)
  | succ fuel ih =>
    unfold findAllFrom
    split
    · rename_i hnone
      refine List.forall_mem_singleton.2 (List.mem_append.not.2 (not_or.2 ⟨hbefore, ?_⟩))
      exact h.notMem_of_findFrom_none hnone
    · rename_i start stop hfound
      have hmore := hfuel.next hfound
      obtain ⟨hstart, hstop, hend⟩ := findFrom_bounds hfound
      have hpassed : '\n' ∉ before ++ text.take (start - offset) :=
        List.mem_append.not.2 (not_or.2 ⟨hbefore, h.notMem_take hfound⟩)
      by_cases htakes : start < stop
      · rw [List.filter_cons_of_pos (by simpa [takesText] using htakes), cutSpans]
        have htake : (before ++ text).take (start - base) = before ++ text.take (start - offset) := by
          have hcount : start - base - before.length = start - offset := by omega
          rw [List.take_append, List.take_of_length_le (by omega), hcount]
        have hdrop : (before ++ text).drop (stop - base) = [] ++ text.drop (stop - offset) := by
          have hcount : stop - base - before.length = stop - offset := by omega
          rw [List.drop_append, List.drop_of_length_le (by omega), hcount]
        rw [htake, hdrop]
        exact List.forall_mem_cons.2 ⟨hpassed, ih hmore rfl List.not_mem_nil⟩
      · -- A match without text does not end a piece; what stands before it has been passed.
        rw [List.filter_cons_of_neg (by simpa [takesText] using htakes)]
        have hsame : start = stop := by omega
        have hsplit : before ++ text = before ++ text.take (start - offset) ++ text.drop (stop - offset) := by
          rw [List.append_assoc, hsame, List.take_append_drop]
        rw [hsplit]
        refine ih hmore ?_ hpassed
        rw [List.length_append, List.length_take_of_le (by omega)]
        omega

theorem TakesNewlines.notMem_splitPattern (h : p.TakesNewlines) (text : Text) :
    ∀ piece ∈ splitPattern text p, '\n' ∉ piece := by
  unfold splitPattern
  split
  · exact List.forall_mem_nil _
  · have hoffset : 0 = 0 + ([] : Text).length := rfl
    exact h.notMem_cutSpans (searches_all text) hoffset List.not_mem_nil

end Pattern

theorem notMem_of_mem_blankRuns {text run : Text} (h : run ∈ blankRuns text) : '\n' ∉ run :=
  fun hmem => Bool.true_eq_false_eq_False ((Alternates.ofText text).solid run h '\n' hmem)

/-- Under a separator that is read as an ERE no field has a newline in it. -/
theorem notMem_of_splitPattern {text separator : Text} {fields : List Text}
    (h : (do .ok (splitPattern text (← compileEre (separatorEre separator true)))) = .ok fields) :
    ∀ field ∈ fields, '\n' ∉ field := by
  obtain ⟨p, hp, heq⟩ := bind_eq_ok.1 h
  cases heq
  exact (hasBranch_of_compileEre hp).takesNewlines.notMem_splitPattern text

/-- **In paragraph mode a newline separates fields**, whatever the separator, unless that is empty: then the characters
of the text are its fields, and a newline is one of them. -/
theorem newline_separates_fields_iff {text separator : Text} {fields : List Text}
    (h : splitFields text separator true = .ok fields) :
    (∀ field ∈ fields, '\n' ∉ field) ↔ (separator = [] → '\n' ∉ text) := by
  unfold splitFields at h
  split at h
  · rename_i hblank
    cases h
    subst hblank
    exact iff_of_true (fun field => notMem_of_mem_blankRuns) nofun
  · split at h
    · rename_i hempty
      cases h
      rw [List.isEmpty_iff.1 hempty]
      exact iff_of_true (List.forall_mem_nil _) fun _ => List.not_mem_nil
    · dsimp only at h
      split at h
      · cases h
        rw [List.forall_mem_map]
        refine ⟨fun hfree _ hmem => hfree '\n' hmem List.mem_cons_self, fun hfree c hc hmem => hfree rfl ?_⟩
        rwa [List.mem_singleton.1 hmem]
      · split at h
        · exact iff_of_true (notMem_of_splitPattern h) nofun
        · cases h
          exact iff_of_true (fun field => Text.notMem_of_mem_splitOn (by simp)) nofun
      · rename_i hne _
        exact iff_of_true (notMem_of_splitPattern h) fun hnil => absurd hnil hne

/-- The separator matches without text at every place, also at a newline. -/
theorem newline_separates_fields_iff_starred :
    splitFields "axb\n\nxc".toList "x*".toList true = .ok ["a".toList, "b".toList, [], [], "c".toList] ∧
      ((∀ field ∈ ["a".toList, "b".toList, [], [], "c".toList], '\n' ∉ field) ↔
        ("x*".toList = [] → '\n' ∉ "axb\n\nxc".toList)) :=
  ⟨by rfl, newline_separates_fields_iff (by rfl)⟩

/-- Under the empty separator a newline is a field. -/
theorem newline_is_field : splitFields "a\nb".toList [] true = .ok ["a".toList, ['\n'], "b".toList] ∧
    ¬∀ field ∈ ["a".toList, ['\n'], "b".toList], '\n' ∉ field := by
  refine ⟨by rfl, ?_⟩
  decide

end Awk
