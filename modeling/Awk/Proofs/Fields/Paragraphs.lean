import Awk.Fields
import Awk.Proofs.Regex.OpenGroups

/-!
# Separators in paragraph mode

A separator that is an ERE is put in parentheses for paragraph mode, with a newline as an alternative.  It is accepted
there exactly if it is accepted otherwise, but for two kinds of separators (`refuses_paragraphs_iff`): one that ends in
a backslash that nothing follows escapes the closing parenthesis, and one with a parenthesis that closes nothing can
close the one that has been put before it.
-/

namespace Awk

open Awk.Action (bind_eq_ok)
open Pattern (marks openAfter finish Overcloses)

namespace Pattern

theorem read_eq (t : Text) : read t = openAfter (.empty, []) (marks t) >>= finish := ofMarks_eq _ _ _

theorem read_group (t : Text) :
    read ("(?:".toList ++ t) = openAfter (.empty, [.empty]) (marks t) >>= finish := by
  change read ('(' :: '?' :: ':' :: t) = _
  rw [read_eq, openAfter_marks_cons]
  rfl

/-- A parenthesis that closes nothing is not well formed. -/
theorem Overcloses.read {t : Text} (h : Overcloses (marks t)) : Pattern.read t = .error .malformed := by
  obtain ⟨before, after, p, hmarks, hbefore⟩ := h
  rw [ofMarks_eq] at hbefore
  obtain ⟨⟨g, outer⟩, hopen, hfinish⟩ := bind_eq_ok.1 hbefore
  cases outer with
  | nil =>
    rw [read_eq, hmarks, openAfter_append, hopen]
    rfl
  | cons parent outer => cases hfinish

theorem openAfter_around {t : Text} (h : ¬Overcloses (marks t)) :
    openAfter (.empty, [.empty]) (marks t) =
      (openAfter (.empty, []) (marks t)).map fun (g, outer) => (g, outer ++ [.empty]) := by
  cases hopen : openAfter (.empty, []) (marks t) with
  | ok groups => exact openAfter_outer hopen [.empty]
  | error e =>
    rcases openAfter_error hopen [.empty] with herror | ⟨before, after, g, hmarks, hbefore⟩
    · exact herror
    · refine absurd ⟨before, after, g.close, hmarks, ?_⟩ h
      rw [ofMarks_eq, hbefore]
      rfl

variable {t : Text}

/-- In a group with a newline as an alternative a text is read as it is read alone. -/
theorem read_grouped (hcomplete : Complete t) (hcloses : ¬Overcloses (marks t)) (e : ReadingFault) :
    read ("(?:".toList ++ (t ++ [')', '|', '\\', '\n'])) = .error e ↔ read t = .error e := by
  have htail : Detached [')', '|', '\\', '\n'] := ⟨.inl rfl, by decide, by decide⟩
  rw [read_group, read_eq, hcomplete.openAfter_append htail, openAfter_around hcloses]
  cases openAfter (.empty, []) (marks t) with
  | error e' => rfl
  | ok groups =>
    obtain ⟨g, outer⟩ := groups
    rcases outer with - | ⟨parent, outer⟩
    · exact iff_of_false nofun nofun
    · cases outer <;> rfl

/-- A group that is not closed makes a text refused that is accepted alone, and changes nothing else. -/
theorem read_unclosed (hcomplete : Complete t) (hcloses : ¬Overcloses (marks (t ++ ['\\', '\\']))) (e : ReadingFault) :
    read ("(?:".toList ++ (t ++ ['\\', ')', '|', '\\', '\n'])) = .error e ↔
      read (t ++ ['\\', '\\']) = .error e ∨ e = .malformed ∧ ∃ p, read (t ++ ['\\', '\\']) = .ok p := by
  have htail : Detached ['\\', ')', '|', '\\', '\n'] := ⟨.inr rfl, by decide, by decide⟩
  have htail' : Detached ['\\', '\\'] := ⟨.inr rfl, by decide, by decide⟩
  have haround := openAfter_around hcloses
  rw [read_group, read_eq, hcomplete.openAfter_append htail]
  rw [hcomplete.openAfter_append htail', hcomplete.openAfter_append htail'] at haround
  rw [hcomplete.openAfter_append htail']
  cases hopen : openAfter (.empty, []) (marks t) with
  | error e' =>
    rw [hopen] at haround
    cases hopen' : openAfter (.empty, [.empty]) (marks t) with
    | ok groups =>
      rw [hopen'] at haround
      cases haround
    | error e'' =>
      rw [hopen'] at haround
      cases haround
      constructor
      · exact .inl
      · rintro (herror | ⟨-, p, hp⟩)
        · exact herror
        · cases hp
  | ok groups =>
    obtain ⟨g, outer⟩ := groups
    rw [hopen] at haround
    cases hopen' : openAfter (.empty, [.empty]) (marks t) with
    | error e' =>
      rw [hopen'] at haround
      cases haround
    | ok groups' =>
      obtain ⟨g', outer'⟩ := groups'
      rw [hopen'] at haround
      have houter : outer' = outer ++ [.empty] := congrArg Prod.snd (Except.ok.inj haround)
      subst houter
      cases outer with
      | nil =>
        constructor
        · intro h
          cases h
          exact .inr ⟨rfl, _, rfl⟩
        · rintro (herror | ⟨rfl, -⟩)
          · cases herror
          · rfl
      | cons parent outer =>
        constructor
        · exact .inl
        · rintro (herror | ⟨-, p, hp⟩)
          · exact herror
          · cases hp

end Pattern

/-! ### Compiling -/

/-- The ERE is not well formed; this does not say that its counts are within limits. -/
def RefusedEre (ere : Text) : Prop := ∃ source reason, compileEre ere = .error (.badRegex source reason)

theorem refusedEre_of_patternText {ere : Text} (h : ¬∃ t, Ere.patternText ere = .ok t) : RefusedEre ere := by
  cases htext : Ere.patternText ere with
  | ok t => exact absurd ⟨t, htext⟩ h
  | error reason => exact ⟨ere, reason, by rw [compileEre, htext]⟩

section Text

variable {ere t : Text} (h : Ere.patternText ere = .ok t)

include h

theorem refusedEre_iff : RefusedEre ere ↔ Pattern.read t = .error .malformed := by
  rw [RefusedEre, compileEre, h]
  dsimp only
  cases Pattern.read t with
  | ok p => simp
  | error e => cases e <;> simp

theorem compileEre_eq_ok_iff : (∃ p, compileEre ere = .ok p) ↔ ∃ p, Pattern.read t = .ok p := by
  rw [compileEre, h]
  dsimp only
  cases Pattern.read t with
  | ok p => exact iff_of_true ⟨p, rfl⟩ ⟨p, rfl⟩
  | error e => cases e <;> simp

end Text

theorem separatorEre_true (separator : Text) :
    separatorEre separator true = '(' :: (separator ++ [')', '|', '\n']) := rfl

namespace Ere

variable {separator : Text} {ps : List Piece} {b : Bool}

/-- The pieces of a separator, in parentheses and with a newline as an alternative. -/
theorem Spells.grouped {tail : Text} {qs : List Piece} {b' : Bool} (h : Spells false separator ps b)
    (hpaired : Paired separator) (htail : Detached tail) (hqs : Spells b tail qs b') :
    patternText ('(' :: (separator ++ tail)) =
      .ok ("(?:".toList ++ (ps.flatMap Piece.render ++ qs.flatMap Piece.render)) := by
  rw [← List.flatMap_append]
  exact patternText_eq_ok_iff.2 ⟨.openGroup :: (ps ++ qs), b', .cons rfl (h.append hpaired htail hqs), rfl⟩

theorem spells_close (b : Bool) : Spells b [')', '|', '\n'] [.closeGroup, .bar, .literal '\n'] true :=
  .cons rfl (.cons rfl (.cons rfl (.nil true)))

theorem spells_escapedClose (b : Bool) :
    Spells b ['\\', ')', '|', '\n'] [.literal ')', .bar, .literal '\n'] true :=
  .cons rfl (.cons rfl (.cons rfl (.nil true)))

theorem spells_backslash (b : Bool) : Spells b ['\\'] [.literal '\\'] true := .cons rfl (.nil true)

theorem detached_close : Detached [')', '|', '\n'] := ⟨.inl rfl, by decide, by decide⟩

theorem detached_escapedClose : Detached ['\\', ')', '|', '\n'] := ⟨.inr rfl, by decide, by decide⟩

theorem detached_backslash : Detached ['\\'] := ⟨.inr rfl, by decide, by decide⟩

/-- A separator with a backslash left over is its beginning and that backslash. -/
theorem Spells.patternText_backslash (h : Spells false separator ps b) (hpaired : Paired separator) :
    patternText (separator ++ ['\\']) = .ok (ps.flatMap Piece.render ++ ['\\', '\\']) := by
  have hall := h.append hpaired detached_backslash (spells_backslash b)
  exact patternText_eq_ok_iff.2 ⟨_, _, hall, by rw [List.flatMap_append]; rfl⟩

/-- A separator is made of pieces if it is made of pieces in parentheses. -/
theorem exists_patternText_of_grouped (h : ∃ t, patternText (separatorEre separator true) = .ok t) :
    ∃ t, patternText separator = .ok t := by
  obtain ⟨t, htext⟩ := h
  rw [separatorEre_true] at htext
  obtain ⟨ps, b, hspells, -⟩ := patternText_eq_ok_iff.1 htext
  cases hspells with
  | cons hpiece hspells =>
    cases hpiece
    by_cases hpaired : Paired separator
    · obtain ⟨qs, b', hspells⟩ := hspells.of_append hpaired detached_close
      exact ⟨_, patternText_eq_ok_iff.2 ⟨qs, b', hspells, rfl⟩⟩
    · obtain ⟨s, rfl, hs⟩ := exists_of_not_paired hpaired
      rw [List.append_assoc] at hspells
      obtain ⟨qs, b', hspells⟩ := hspells.of_append hs detached_escapedClose
      exact ⟨_, hspells.patternText_backslash hs⟩

/-- A parenthesis of the ERE closes no group. -/
def OverclosesEre (ere : Text) : Prop := ∃ t, patternText ere = .ok t ∧ Overcloses (marks t)

theorem OverclosesEre.refused {ere : Text} (h : OverclosesEre ere) : RefusedEre ere := by
  obtain ⟨t, htext, hcloses⟩ := h
  exact (refusedEre_iff htext).2 hcloses.read

/-- In parentheses a separator is refused if it is refused alone, or if it escapes the closing one. -/
theorem refusedEre_grouped_iff (hcloses : ¬OverclosesEre separator) :
    RefusedEre (separatorEre separator true) ↔
      RefusedEre separator ∨ ¬Paired separator ∧ ∃ p, compileEre separator = .ok p := by
  by_cases hexists : ∃ t, patternText separator = .ok t
  · obtain ⟨t, htext⟩ := hexists
    have hmarks : ¬Overcloses (marks t) := fun h => hcloses ⟨t, htext, h⟩
    rw [refusedEre_iff htext, compileEre_eq_ok_iff htext]
    obtain ⟨ps, b, hspells, ht⟩ := patternText_eq_ok_iff.1 htext
    by_cases hpaired : Paired separator
    · subst ht
      have hgrouped := hspells.grouped hpaired detached_close (spells_close b)
      have hread := Pattern.read_grouped hspells.complete hmarks .malformed
      rw [separatorEre_true, refusedEre_iff hgrouped, or_iff_left fun h => h.1 hpaired]
      exact hread
    · obtain ⟨s, rfl, hs⟩ := exists_of_not_paired hpaired
      obtain ⟨qs, b', hqs⟩ := hspells.of_append hs detached_backslash
      cases htext.symm.trans (hqs.patternText_backslash hs)
      have hgrouped := hqs.grouped hs detached_escapedClose (spells_escapedClose b')
      have hread := Pattern.read_unclosed hqs.complete hmarks .malformed
      rw [separatorEre_true, List.append_assoc, List.singleton_append, refusedEre_iff hgrouped]
      exact hread.trans (by simp only [hpaired, not_false_eq_true, true_and])
  · have hgrouped := mt exists_patternText_of_grouped hexists
    exact iff_of_true (refusedEre_of_patternText hgrouped) (.inl (refusedEre_of_patternText hexists))

end Ere

/-! ### Splitting -/

/-- The separator is read as an ERE. -/
def IsEre (separator : Text) : Prop := separator = ['\\'] ∨ 2 ≤ separator.length

/-- There are no fields because the separator is not a well formed ERE. -/
def RefusesSeparator (text separator : Text) (paragraph : Bool) : Prop :=
  ∃ ere reason, splitFields text separator paragraph = .error (.badRegex ere reason)

variable {text separator : Text}

theorem splitFields_of_isEre (htext : text ≠ []) (h : IsEre separator) (paragraph : Bool) :
    splitFields text separator paragraph =
      (compileEre (separatorEre separator paragraph)).map (splitPattern text) := by
  have hblank : separator ≠ [' '] := by
    rintro rfl
    rcases h with h | h
    · exact absurd h (by decide)
    · exact absurd h (by decide)
  have hpattern : (do .ok (splitPattern text (← compileEre (separatorEre separator paragraph)))) =
      (compileEre (separatorEre separator paragraph)).map (splitPattern text) := by
    cases compileEre (separatorEre separator paragraph) <;> rfl
  unfold splitFields
  rw [if_neg hblank, if_neg (by simpa using htext), hpattern]
  dsimp only
  split
  · rcases h with h | h
    · cases h
    · exact absurd h (by decide)
  · rcases h with h | h
    · rw [if_pos (List.cons.inj h).1]
    · exact absurd h (by simp)
  · rfl

theorem exists_splitFields_of_not_isEre (h : ¬IsEre separator) (text : Text) (paragraph : Bool) :
    ∃ fields, splitFields text separator paragraph = .ok fields := by
  unfold splitFields
  split
  · exact ⟨_, rfl⟩
  · split
    · exact ⟨_, rfl⟩
    · dsimp only
      split
      · exact ⟨_, rfl⟩
      · split
        · rename_i hc
          exact absurd (.inl (congrArg (fun d => [d]) hc)) h
        · exact ⟨_, rfl⟩
      · rename_i _ _ hnil hsingle
        rcases separator with - | ⟨c, - | ⟨d, separator⟩⟩
        · exact absurd rfl hnil
        · exact absurd rfl (hsingle c)
        · exact absurd (.inr (by simp)) h

theorem refusesSeparator_iff (htext : text ≠ []) (h : IsEre separator) (paragraph : Bool) :
    RefusesSeparator text separator paragraph ↔ RefusedEre (separatorEre separator paragraph) := by
  rw [RefusesSeparator, splitFields_of_isEre htext h, RefusedEre]
  cases compileEre (separatorEre separator paragraph) with
  | ok p => exact iff_of_false nofun nofun
  | error f =>
    constructor
    · rintro ⟨ere, reason, herror⟩
      cases herror
      exact ⟨ere, reason, rfl⟩
    · rintro ⟨ere, reason, herror⟩
      cases herror
      exact ⟨ere, reason, rfl⟩

/-- **Paragraph mode accepts the same separators** as normal mode, except that an ERE with a backslash left over at its
end is refused in paragraph mode only, and an ERE with a parenthesis that closes no group in normal mode only, unless
paragraph mode refuses it too. -/
theorem refuses_paragraphs_iff (htext : text ≠ []) (separator : Text) :
    (RefusesSeparator text separator true ↔ RefusesSeparator text separator false) ↔
      (IsEre separator →
        ((∃ fields, splitFields text separator false = .ok fields) → Ere.Paired separator) ∧
        (Ere.OverclosesEre separator → RefusesSeparator text separator true)) := by
  by_cases here : IsEre separator
  · have hplain : separatorEre separator false = separator := rfl
    have haccepted : (∃ fields, splitFields text separator false = .ok fields) ↔
        ∃ p, compileEre separator = .ok p := by
      rw [splitFields_of_isEre htext here, hplain]
      cases compileEre separator with
      | ok p => exact iff_of_true ⟨_, rfl⟩ ⟨p, rfl⟩
      | error f => exact iff_of_false nofun nofun
    have hnot : RefusedEre separator → ¬∃ p, compileEre separator = .ok p := by
      rintro ⟨source, reason, hreason⟩ ⟨p, hp⟩
      rw [hreason] at hp
      cases hp
    rw [refusesSeparator_iff htext here, refusesSeparator_iff htext here, haccepted, hplain]
    by_cases hcloses : Ere.OverclosesEre separator
    · have hrefused := hcloses.refused
      have hnone := hnot hrefused
      tauto
    · have hgrouped := Ere.refusedEre_grouped_iff hcloses
      tauto
  · have hnone (paragraph : Bool) : ¬RefusesSeparator text separator paragraph := by
      rintro ⟨ere, reason, hrefused⟩
      obtain ⟨fields, hfields⟩ := exists_splitFields_of_not_isEre here text paragraph
      rw [hfields] at hrefused
      cases hrefused
    exact iff_of_true (iff_of_false (hnone true) (hnone false)) fun h => absurd h here

/-- A backslash alone escapes the parenthesis. -/
theorem refuses_backslash : ¬(RefusesSeparator "a\\b".toList "\\".toList true ↔
    RefusesSeparator "a\\b".toList "\\".toList false) := by
  have hparagraph : RefusesSeparator "a\\b".toList "\\".toList true := ⟨_, _, by rfl⟩
  have hfields : splitFields "a\\b".toList "\\".toList false = .ok ["a".toList, "b".toList] := by rfl
  rintro ⟨hrefused, -⟩
  obtain ⟨ere, reason, hrefused⟩ := hrefused hparagraph
  rw [hfields] at hrefused
  cases hrefused

/-- The first parenthesis closes the one before the separator, and the second is closed behind it. -/
theorem refuses_overclosed : Ere.OverclosesEre "a)|(b".toList ∧
    ¬RefusesSeparator "xa".toList "a)|(b".toList true ∧ RefusesSeparator "xa".toList "a)|(b".toList false := by
  have hcloses : Ere.OverclosesEre "a)|(b".toList :=
    ⟨"a)|(?:b".toList, rfl, [.test (.one 'a')], _, _, rfl, rfl⟩
  have hfields : splitFields "xa".toList "a)|(b".toList true = .ok ["x".toList, []] := by rfl
  have haccepted : ¬RefusesSeparator "xa".toList "a)|(b".toList true := by
    rintro ⟨ere, reason, hrefused⟩
    rw [hfields] at hrefused
    cases hrefused
  refine ⟨hcloses, haccepted, ?_⟩
  by_contra hnormal
  have hsame := (refuses_paragraphs_iff (by decide) "a)|(b".toList).1 (iff_of_false haccepted hnormal)
  exact haccepted ((hsame (.inr (by decide))).2 hcloses)

end Awk
