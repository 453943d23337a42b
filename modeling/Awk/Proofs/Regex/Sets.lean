import Awk.Regex.Reading

/-!
# Reading sets

A set is written in parts, each a character or the two ends of a range.  Where the parts fit, that is where no hyphen
makes a range of two of them, they are read as the ranges that they mean (`takeParts_texts`).
-/

namespace Awk

namespace Pattern

/-! ### Characters and parts -/

/-- A way to write a character as a member of a set. -/
structure Spells (w : Text) (c : Char) : Prop where
  takeMember (t : Text) : takeMember (w ++ t) = some (.range c c, t)
  head? : ∃ d, w.head? = some d ∧ d ≠ ']'

theorem Spells.plain {c : Char} (h : c ≠ '\\') (h' : c ≠ ']') : Spells [c] c := by
  refine ⟨fun t => ?_, c, rfl, h'⟩
  simp [Pattern.takeMember, h]

theorem Spells.escaped {d c : Char} (h : d ≠ 'x') (hc : escapedPart? d = some (.range c c)) : Spells ['\\', d] c := by
  refine ⟨fun t => ?_, '\\', rfl, by decide⟩
  simp [Pattern.takeMember, h, hc]

theorem Spells.head?_append {w : Text} {c : Char} (h : Spells w c) (t : Text) : (w ++ t).head? ≠ some ']' := by
  obtain ⟨d, hd, hne⟩ := h.head?
  rw [List.head?_append, hd]
  simpa using hne

/-- Part of a set as it is written: a character, or the two ends of a range. -/
inductive Part where
  | one (w : Text) (c : Char)
  | range (v w : Text) (lo hi : Char)

namespace Part

def text : Part → Text
  | one w _ => w
  | range v w _ _ => v ++ '-' :: w

def meaning : Part → SetPart
  | one _ c => .range c c
  | range _ _ lo hi => .range lo hi

/-- What does not begin with a hyphen, unless it ends there. -/
def NoRange (t : Text) : Prop := ∀ t', t = '-' :: t' → t'.head? = some ']'

theorem noRange_cons {c : Char} (h : c ≠ '-') (t : Text) : NoRange (c :: t) := by
  rintro t' heq
  cases heq
  exact absurd rfl h

/-- The part is read as it is meant before `t`. -/
def Fits (p : Part) (t : Text) : Prop :=
  match p with
  | one w c => Spells w c ∧ NoRange t
  | range v w lo hi => Spells v lo ∧ Spells w hi ∧ lo ≤ hi

/-- Each part fits before the others and `t`. -/
def AllFit (t : Text) : List Part → Prop
  | [] => True
  | p :: parts => p.Fits (parts.flatMap text ++ t) ∧ AllFit t parts

theorem allFit_append {t : Text} {ps qs : List Part} :
    AllFit t (ps ++ qs) ↔ AllFit (qs.flatMap text ++ t) ps ∧ AllFit t qs := by
  induction ps with
  | nil => simp [AllFit]
  | cons p ps ih => simp [AllFit, ih, and_assoc]

end Part

/-! ### Ranges -/

theorem takeParts_close (t : Text) : takeParts false (']' :: t) = some ([], t) := by
  rw [takeParts]
  rfl

theorem takeParts_hyphen (t : Text) : takeParts false ('-' :: ']' :: t) = some ([.range '-' '-'], t) := by
  have hmember : takeMember ('-' :: ']' :: t) = some (.range '-' '-', ']' :: t) := by simp [takeMember]
  rw [takeParts, if_neg (by simp)]
  split
  all_goals simp_all [takeParts_close]

theorem takeParts_single {first : Bool} {t rest : Text} {part : SetPart} (hclose : t.head? ≠ some ']')
    (hmember : takeMember t = some (part, rest)) (hrest : Part.NoRange rest) {parts : List SetPart} {rest' : Text}
    (h : takeParts false rest = some (parts, rest')) : takeParts first t = some (part :: parts, rest') := by
  rw [takeParts, if_neg (by simp [hclose])]
  split
  · rename_i hnone
    rw [hmember] at hnone
    cases hnone
  · rename_i hsome
    rw [hmember] at hsome
    cases hsome
    rw [takeParts_hyphen] at h
    cases h
    rfl
  · rename_i hne hsome
    rw [hmember] at hsome
    cases hsome
    obtain ⟨t'', rfl⟩ := List.head?_eq_some_iff.1 (hrest _ rfl)
    exact absurd rfl (hne _)
  · rename_i hsome
    rw [hmember] at hsome
    cases hsome
    rw [h]
    rfl

theorem takeParts_range {first : Bool} {t rest rest' : Text} {lo hi : Char} (hclose : t.head? ≠ some ']')
    (hlo : takeMember t = some (.range lo lo, '-' :: rest)) (hend : rest.head? ≠ some ']')
    (hhi : takeMember rest = some (.range hi hi, rest')) (hle : lo ≤ hi) {parts : List SetPart} {rest'' : Text}
    (h : takeParts false rest' = some (parts, rest'')) :
    takeParts first t = some (.range lo hi :: parts, rest'') := by
  have hrange : rangeTo? (.range lo lo) (.range hi hi) = some (.range lo hi) := if_neg (by simpa using hle)
  rw [takeParts, if_neg (by simp [hclose])]
  split
  · rename_i hnone
    rw [hlo] at hnone
    cases hnone
  · rename_i hsome
    rw [hlo] at hsome
    cases hsome
    exact absurd rfl hend
  · rename_i hsome
    rw [hlo] at hsome
    cases hsome
    split
    · rename_i hnone
      rw [hhi] at hnone
      cases hnone
    · rename_i hsome
      rw [hhi] at hsome
      cases hsome
      rw [hrange, h]
      rfl
  · rename_i hne hsome
    rw [hlo] at hsome
    cases hsome
    exact absurd rfl (hne _)

/-- Parts that fit are read as the ranges that they mean, up to the closing bracket. -/
theorem takeParts_texts {rest : Text} {parts : List Part} (h : Part.AllFit (']' :: rest) parts) {first : Bool}
    (hfirst : parts = [] → first = false) :
    takeParts first (parts.flatMap Part.text ++ ']' :: rest) = some (parts.map Part.meaning, rest) := by
  induction parts generalizing first with
  | nil =>
    rw [hfirst rfl]
    exact takeParts_close rest
  | cons p parts ih =>
    have hrest := ih h.2 fun _ => rfl
    rw [List.flatMap_cons, List.append_assoc]
    cases p with
    | one w c =>
      obtain ⟨hw, hnoRange⟩ := h.1
      exact takeParts_single (hw.head?_append _) (hw.takeMember _) hnoRange hrest
    | range v w lo hi =>
      obtain ⟨hv, hw, hle⟩ := h.1
      have hlo : takeMember (v ++ ('-' :: (w ++ (parts.flatMap Part.text ++ ']' :: rest)))) =
          some (.range lo lo, _) :=
        hv.takeMember _
      have htext : (Part.range v w lo hi).text ++ (parts.flatMap Part.text ++ ']' :: rest) =
          v ++ ('-' :: (w ++ (parts.flatMap Part.text ++ ']' :: rest))) := by simp [Part.text]
      rw [htext]
      exact takeParts_range (hv.head?_append _) hlo (hw.head?_append _) (hw.takeMember _) hle hrest

end Pattern

end Awk
