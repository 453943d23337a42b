import Mathlib.Data.List.DropRight
import Awk.Reader

/-!
# Cutting a buffer

What the three ways to end a record find in a buffer: a character (`cutAt?_singleton`), a run of newlines with
nothing but newlines in it (`cutBlankLines_some`), and newlines at the end (`trimRight_append`).
-/

namespace Awk

namespace Text

theorem cutAt?_singleton {c : Char} {t before rest : Text} (h : cutAt? [c] t = some (before, rest)) :
    t = before ++ c :: rest ∧ c ∉ before := by
  induction t generalizing before with
  | nil => cases h
  | cons d t ih =>
    by_cases hd : d = c
    · subst hd
      simp only [cutAt?, dropPrefix?, if_true, Option.some.injEq, Prod.mk.injEq] at h
      obtain ⟨rfl, rfl⟩ := h
      exact ⟨rfl, List.not_mem_nil⟩
    · simp only [cutAt?, dropPrefix?, hd, if_false] at h
      obtain ⟨⟨before', rest'⟩, hcut, heq⟩ := Option.map_eq_some_iff.1 h
      simp only [Prod.mk.injEq] at heq
      obtain ⟨rfl, rfl⟩ := heq
      obtain ⟨rfl, hmem⟩ := ih hcut
      refine ⟨rfl, ?_⟩
      intro hc
      rcases List.mem_cons.1 hc with rfl | hc
      · exact hd rfl
      · exact hmem hc

theorem cutAt?_singleton_none {c : Char} {t : Text} (h : cutAt? [c] t = none) : c ∉ t := by
  induction t with
  | nil => exact List.not_mem_nil
  | cons d t ih =>
    by_cases hd : d = c
    · simp [cutAt?, dropPrefix?, hd] at h
    · simp only [cutAt?, dropPrefix?, hd, if_false, Option.map_eq_none_iff] at h
      intro hc
      rcases List.mem_cons.1 hc with rfl | hc
      · exact hd rfl
      · exact ih h hc

theorem trimRight_append (p : Char → Bool) (t : Text) :
    ∃ cut, t = trimRight p t ++ cut ∧ ∀ c ∈ cut, p c = true :=
  ⟨t.rtakeWhile p, List.rdropWhile_append_rtakeWhile.symm, fun _ h => List.mem_rtakeWhile_imp h⟩

theorem trimRight_append_of_forall {p : Char → Bool} (t : Text) {cut : Text} (h : ∀ c ∈ cut, p c = true) :
    trimRight p (t ++ cut) = trimRight p t := by
  rw [trimRight, trimRight, List.reverse_append, List.dropWhile_append_of_pos]
  intro c hc
  exact h c (List.mem_reverse.1 hc)

theorem getLast?_trimRight {p : Char → Bool} {t : Text} {c : Char} (h : (trimRight p t).getLast? = some c) :
    p c = false := by
  have hne : trimRight p t ≠ [] := by
    intro hnil
    rw [hnil] at h
    cases h
  rw [List.getLast?_eq_some_getLast hne, Option.some.injEq] at h
  have hlast := List.rdropWhile_last_not p t hne
  rw [Bool.not_eq_true] at hlast
  rw [← h]
  exact hlast

/-- No character of the kind that is dropped is left in first place. -/
theorem head?_dropWhile_ne (t : Text) (c : Char) : (t.dropWhile (· == c)).head? ≠ some c := by
  intro h
  have hnot := List.head?_dropWhile_not (· == c) t
  rw [h] at hnot
  simp at hnot

theorem dropWhile_eq_nil {t : Text} {c : Char} : t.dropWhile (· == c) = [] ↔ ∀ d ∈ t, d = c := by
  simp [List.dropWhile_eq_nil_iff]

theorem takeWhile_eq {t : Text} {c d : Char} (h : d ∈ t.takeWhile (· == c)) : d = c := by
  simpa using List.mem_takeWhile_imp h

end Text

namespace Reader

/-- A text with two newlines next to each other. -/
def HasBlankLine (t : Text) : Prop := ['\n', '\n'] <:+: t

theorem HasBlankLine.of_infix {s t : Text} (hs : HasBlankLine s) (h : s <:+: t) : HasBlankLine t := hs.trans h

theorem hasBlankLine_cons {c : Char} {t : Text} :
    HasBlankLine (c :: t) ↔ (c = '\n' ∧ t.head? = some '\n') ∨ HasBlankLine t := by
  rw [HasBlankLine, HasBlankLine, List.infix_cons_iff]
  refine or_congr_left ?_
  rw [List.cons_prefix_cons]
  cases t with
  | nil => simp
  | cons d t =>
    rw [List.cons_prefix_cons]
    simp [eq_comm]

/-- The cut is at the first blank lines, and takes all their newlines. -/
theorem cutBlankLines_some {t before rest : Text} (h : cutBlankLines t = some (before, rest)) :
    ∃ sep, t = before ++ sep ++ rest ∧ (∀ c ∈ sep, c = '\n') ∧ 2 ≤ sep.length ∧ rest.head? ≠ some '\n' ∧
      ¬HasBlankLine before ∧ before.getLast? ≠ some '\n' := by
  induction t using cutBlankLines.induct generalizing before with
  | case1 => cases h
  | case2 t =>
    simp only [cutBlankLines, Option.some.injEq, Prod.mk.injEq] at h
    obtain ⟨rfl, rfl⟩ := h
    refine ⟨'\n' :: '\n' :: t.takeWhile (· == '\n'), ?_, ?_, ?_, Text.head?_dropWhile_ne t '\n', ?_, by simp⟩
    · simp [List.takeWhile_append_dropWhile]
    · intro c hc
      simp only [List.mem_cons] at hc
      rcases hc with hc | hc | hc
      · exact hc
      · exact hc
      · exact Text.takeWhile_eq hc
    · simp
    · intro hblank
      exact absurd (List.infix_nil.1 hblank) (List.cons_ne_nil _ _)
  | case3 c t hfirst ih =>
    rw [cutBlankLines.eq_3 c t hfirst] at h
    obtain ⟨⟨before', rest'⟩, hcut, heq⟩ := Option.map_eq_some_iff.1 h
    simp only [Prod.mk.injEq] at heq
    obtain ⟨rfl, rfl⟩ := heq
    obtain ⟨sep, rfl, hsep, hlen, hrest, hinside, hlast⟩ := ih hcut
    refine ⟨sep, by simp, hsep, hlen, hrest, ?_, ?_⟩
    · rw [hasBlankLine_cons]
      rintro (⟨rfl, hhead⟩ | hblank)
      · cases before' with
        | nil => cases hhead
        | cons d before' =>
          cases hhead
          exact hfirst _ rfl rfl
      · exact hinside hblank
    · cases before' with
      | nil =>
        intro hlast
        obtain ⟨d, sep', rfl⟩ := List.exists_cons_of_length_pos (show 0 < sep.length by omega)
        have hd : d = '\n' := hsep d List.mem_cons_self
        subst hd
        cases hlast
        exact hfirst _ rfl rfl
      | cons d before' =>
        rw [List.getLast?_cons_cons]
        exact hlast

theorem cutBlankLines_none {t : Text} (h : cutBlankLines t = none) : ¬HasBlankLine t := by
  induction t using cutBlankLines.induct with
  | case1 =>
    intro hblank
    exact absurd (List.infix_nil.1 hblank) (List.cons_ne_nil _ _)
  | case2 t => cases h
  | case3 c t hfirst ih =>
    rw [cutBlankLines.eq_3 c t hfirst, Option.map_eq_none_iff] at h
    rw [hasBlankLine_cons]
    rintro (⟨rfl, hhead⟩ | hblank)
    · cases t with
      | nil => cases hhead
      | cons d t =>
        cases hhead
        exact hfirst _ rfl rfl
    · exact ih h hblank

end Reader

end Awk
