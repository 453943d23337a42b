import Awk.Proofs.Regex.Complete

/-!
# Open groups

Marks are read into the innermost open group.  Here is what is open behind some marks (`Pattern.openAfter`), so that
they can be read a part at a time (`Pattern.ofMarks_eq`).  Groups around do not matter to marks, unless one of these
closes a group that they have not opened (`Pattern.openAfter_error`).
-/

namespace Awk

open Awk.Action (bind_eq_ok)

namespace Pattern

/-- The groups that are open behind a mark: the innermost, and those around it. -/
def advance : Group × List Group → Mark → Except ReadingFault (Group × List Group)
  | (g, outer), .test t => .ok (g.push (char t) true, outer)
  | (g, outer), .atStart => .ok (g.push atStart false, outer)
  | (g, outer), .atEnd => .ok (g.push atEnd false, outer)
  | (g, outer), .openGroup => .ok (.empty, g :: outer)
  | (_, []), .closeGroup => .error .malformed
  | (g, parent :: outer), .closeGroup => .ok (parent.push g.close true, outer)
  | (g, outer), .bar => .ok (⟨ofItems g.items :: g.branches, []⟩, outer)
  | (g, outer), .count least most greed => (g.repeatLast least most greed).map fun g => (g, outer)
  | _, .bad => .error .malformed

/-- The groups that are open behind some marks. -/
def openAfter (groups : Group × List Group) (ms : List Mark) : Except ReadingFault (Group × List Group) :=
  ms.foldlM advance groups

/-- At the end no group may be left open. -/
def finish : Group × List Group → Except ReadingFault Pattern
  | (g, []) => .ok g.close
  | (_, _ :: _) => .error .malformed

variable {c : Char} {t tail : Text} {mark : Mark} {ms : List Mark} {g g' : Group} {outer outer' : List Group}
  {groups : Group × List Group} {e : ReadingFault}

theorem openAfter_cons (groups : Group × List Group) (mark : Mark) (ms : List Mark) :
    openAfter groups (mark :: ms) = advance groups mark >>= fun groups => openAfter groups ms := List.foldlM_cons

theorem openAfter_append (groups : Group × List Group) (ms ms' : List Mark) :
    openAfter groups (ms ++ ms') = openAfter groups ms >>= fun groups => openAfter groups ms' := List.foldlM_append

theorem ofMarks_eq (g : Group) (outer : List Group) (ms : List Mark) :
    ofMarks g outer ms = openAfter (g, outer) ms >>= finish := by
  induction ms generalizing g outer with
  | nil =>
    cases outer with
    | nil => rfl
    | cons parent outer => rfl
  | cons mark ms ih =>
    rw [openAfter_cons]
    cases mark with
    | closeGroup =>
      cases outer with
      | nil => rfl
      | cons parent outer => exact ih _ _
    | count least most greed =>
      change (g.repeatLast least most greed >>= fun g => ofMarks g outer ms) =
        ((g.repeatLast least most greed).map fun g => (g, outer)) >>= _ >>= finish
      cases g.repeatLast least most greed with
      | error e => rfl
      | ok g' => exact ih g' outer
    | bad => rfl
    | test t => exact ih _ _
    | atStart => exact ih _ _
    | atEnd => exact ih _ _
    | openGroup => exact ih _ _
    | bar => exact ih _ _

theorem advance_bad (groups : Group × List Group) : advance groups .bad = .error .malformed := by
  obtain ⟨g, outer⟩ := groups
  cases outer <;> rfl

/-- Marks behind one that is not well formed do not matter. -/
theorem openAfter_bad (groups : Group × List Group) (ms : List Mark) :
    openAfter groups (.bad :: ms) = .error .malformed := by
  rw [openAfter_cons, advance_bad]
  rfl

theorem length_nextMark (h : (nextMark c t).1 ≠ .bad) : (nextMark c t).2.length ≤ t.length := by
  obtain ⟨mark, rest, hmark⟩ : ∃ mark rest, nextMark c t = (mark, rest) := ⟨_, _, rfl⟩
  rw [hmark] at h ⊢
  obtain ⟨cut, hcut, hpos, -⟩ := (nextMark_cut hmark).resolve_left h
  have hlength := congrArg List.length hcut
  have hpos := List.length_pos_iff.2 hpos
  rw [List.length_append, List.length_cons] at hlength
  dsimp only
  omega

theorem openAfter_marksFuel {fuel fuel' : Nat} (hfuel : t.length ≤ fuel) (hfuel' : t.length ≤ fuel')
    (groups : Group × List Group) :
    openAfter groups (marksFuel fuel t) = openAfter groups (marksFuel fuel' t) := by
  induction fuel generalizing fuel' t groups with
  | zero =>
    obtain rfl := List.length_eq_zero_iff.1 (Nat.le_zero.1 hfuel)
    cases fuel' <;> rfl
  | succ fuel ih =>
    cases t with
    | nil => cases fuel' <;> rfl
    | cons c t =>
      obtain ⟨fuel', rfl⟩ := Nat.exists_eq_succ_of_ne_zero (Nat.ne_zero_of_lt (Nat.lt_of_succ_le hfuel'))
      rw [marksFuel, marksFuel]
      dsimp only
      by_cases hmark : (nextMark c t).1 = .bad
      · rw [hmark, openAfter_bad, openAfter_bad]
      · have hle := length_nextMark hmark
        rw [List.length_cons] at hfuel hfuel'
        rw [openAfter_cons, openAfter_cons]
        exact congrArg _ (funext fun groups => ih (by omega) (by omega) groups)

theorem openAfter_marks_cons (groups : Group × List Group) (c : Char) (t : Text) :
    openAfter groups (marks (c :: t)) =
      advance groups (nextMark c t).1 >>= fun groups => openAfter groups (marks (nextMark c t).2) := by
  rw [marks, List.length_cons, marksFuel]
  dsimp only
  by_cases hmark : (nextMark c t).1 = .bad
  · rw [hmark, openAfter_bad, advance_bad]
    rfl
  · rw [openAfter_cons]
    have hle := length_nextMark hmark
    exact congrArg _ (funext fun groups => openAfter_marksFuel hle (Nat.le_refl _) groups)

/-- Behind a complete text the marks of what follows are read as if it stood alone. -/
theorem Complete.openAfter_append (h : Complete t) (htail : Detached tail) (groups : Group × List Group) :
    openAfter groups (marks (t ++ tail)) =
      openAfter groups (marks t) >>= fun groups => openAfter groups (marks tail) := by
  induction hlength : t.length using Nat.strongRecOn generalizing t groups with
  | ind n ih =>
    subst hlength
    cases t with
    | nil => rfl
    | cons c t =>
      rw [List.cons_append, openAfter_marks_cons, openAfter_marks_cons]
      by_cases hmark : (nextMark c t).1 = .bad
      · rcases h.sound_nextMark htail with ⟨-, hbad⟩ | ⟨-, heq⟩
        · rw [hmark, hbad, advance_bad]
          rfl
        · rw [heq, hmark, advance_bad]
          rfl
      · rcases h.sound_nextMark htail with ⟨hbad, -⟩ | ⟨hrest, heq⟩
        · exact absurd hbad hmark
        · have hle := length_nextMark hmark
          rw [heq]
          dsimp only
          cases advance groups (nextMark c t).1 with
          | error e => rfl
          | ok groups' => exact ih _ (by rw [List.length_cons]; omega) hrest groups' rfl

/-! ### Groups around -/

theorem advance_outer (h : advance (g, outer) mark = .ok (g', outer')) (around : List Group) :
    advance (g, outer ++ around) mark = .ok (g', outer' ++ around) := by
  cases mark with
  | closeGroup =>
    cases outer with
    | nil => cases h
    | cons parent outer =>
      cases h
      rfl
  | count least most greed =>
    change (g.repeatLast least most greed).map (fun g => (g, outer)) = _ at h
    change (g.repeatLast least most greed).map (fun g => (g, outer ++ around)) = _
    cases hrepeat : g.repeatLast least most greed with
    | error e =>
      rw [hrepeat] at h
      cases h
    | ok g'' =>
      rw [hrepeat] at h
      cases h
      rfl
  | bad => cases h
  | test t => cases h; rfl
  | atStart => cases h; rfl
  | atEnd => cases h; rfl
  | openGroup => cases h; rfl
  | bar => cases h; rfl

/-- A group around makes a difference only to a parenthesis that closes nothing. -/
theorem advance_error (h : advance (g, outer) mark = .error e) (around : List Group) :
    advance (g, outer ++ around) mark = .error e ∨ mark = .closeGroup ∧ outer = [] := by
  cases mark with
  | closeGroup =>
    cases outer with
    | nil => exact .inr ⟨rfl, rfl⟩
    | cons parent outer => cases h
  | count least most greed =>
    change (g.repeatLast least most greed).map (fun g => (g, outer)) = _ at h
    refine .inl ?_
    change (g.repeatLast least most greed).map (fun g => (g, outer ++ around)) = _
    cases hrepeat : g.repeatLast least most greed with
    | error e =>
      rw [hrepeat] at h
      exact h
    | ok g'' =>
      rw [hrepeat] at h
      cases h
  | bad =>
    rw [advance_bad] at h
    rw [advance_bad]
    exact .inl h
  | test t => cases h
  | atStart => cases h
  | atEnd => cases h
  | openGroup => cases h
  | bar => cases h

theorem openAfter_outer (h : openAfter (g, outer) ms = .ok (g', outer')) (around : List Group) :
    openAfter (g, outer ++ around) ms = .ok (g', outer' ++ around) := by
  induction ms generalizing g outer with
  | nil =>
    cases h
    rfl
  | cons mark ms ih =>
    rw [openAfter_cons] at h ⊢
    obtain ⟨⟨g'', outer''⟩, hadvance, h⟩ := bind_eq_ok.1 h
    exact bind_eq_ok.2 ⟨_, advance_outer hadvance around, ih h⟩

/-- Some parenthesis closes no group, what stands before it being a pattern on its own. -/
def Overcloses (ms : List Mark) : Prop :=
  ∃ before after p, ms = before ++ .closeGroup :: after ∧ ofMarks .empty [] before = .ok p

theorem openAfter_error (h : openAfter (g, outer) ms = .error e) (around : List Group) :
    openAfter (g, outer ++ around) ms = .error e ∨
      ∃ before after g', ms = before ++ .closeGroup :: after ∧ openAfter (g, outer) before = .ok (g', []) := by
  induction ms generalizing g outer with
  | nil => cases h
  | cons mark ms ih =>
    rw [openAfter_cons] at h ⊢
    cases hadvance : advance (g, outer) mark with
    | error e' =>
      rw [hadvance] at h
      cases h
      rcases advance_error hadvance around with herror | ⟨rfl, rfl⟩
      · rw [herror]
        exact .inl rfl
      · exact .inr ⟨[], ms, g, rfl, rfl⟩
    | ok groups =>
      obtain ⟨g'', outer''⟩ := groups
      rw [hadvance] at h
      rw [advance_outer hadvance around]
      rcases ih h with herror | ⟨before, after, g', rfl, hbefore⟩
      · exact .inl herror
      · refine .inr ⟨mark :: before, after, g', rfl, ?_⟩
        rw [openAfter_cons, hadvance]
        exact hbefore

end Pattern

end Awk
