import Awk.Proofs.Reader.Delivery
import Awk.Proofs.Regex.Successive

/-!
# Separators

A text that is there as a whole is cut at the matches of its separator (`Pattern.cuts`).  A reader that has only some
lines of it can do the same if a match that ends before the end of some lines is the first match whatever follows these
lines (`Settles`), and if cutting a text is cutting at the first match and then cutting what is left (`Rebases`).

A pattern that matches no newline settles, for what it sees of the text ends with the line (`settles_of_inLine`); one
that does not ask for the start of the text rebases (`rebases_of_unanchored`).
-/

namespace Awk

/-! ### Cutting the whole text -/

/-- The pieces of a text between the spans, each with the span that ends it; there is no last piece if nothing is left
for it.  `offset` is that of the text. -/
def cutAtSpans (offset : Nat) (text : Text) : List (Nat × Nat) → List (Text × Text)
  | [] => if text.isEmpty then [] else [(text, [])]
  | (start, stop) :: spans =>
    (text.take (start - offset), Text.slice text (start - offset) (stop - offset)) ::
      cutAtSpans stop (text.drop (stop - offset)) spans

def withoutFinalEmpty (pieces : List Text) : List Text :=
  if pieces.getLast? = some [] then pieces.dropLast else pieces

theorem cutSpans_ne_nil (offset : Nat) (text : Text) (spans : List (Nat × Nat)) : cutSpans offset text spans ≠ [] := by
  cases spans with
  | nil => exact List.cons_ne_nil _ _
  | cons span spans => exact List.cons_ne_nil _ _

private theorem withoutFinalEmpty_cons {piece : Text} {pieces : List Text} (h : pieces ≠ []) :
    withoutFinalEmpty (piece :: pieces) = piece :: withoutFinalEmpty pieces := by
  obtain ⟨second, pieces, rfl⟩ := List.exists_cons_of_ne_nil h
  unfold withoutFinalEmpty
  rw [List.getLast?_cons_cons]
  split
  · rfl
  · rfl

/-- The pieces alone are those of `cutSpans`. -/
theorem map_fst_cutAtSpans (offset : Nat) (text : Text) (spans : List (Nat × Nat)) :
    (cutAtSpans offset text spans).map (·.1) = withoutFinalEmpty (cutSpans offset text spans) := by
  induction spans generalizing offset text with
  | nil =>
    unfold cutSpans cutAtSpans withoutFinalEmpty
    cases text with
    | nil => rfl
    | cons c text => rfl
  | cons span spans ih =>
    obtain ⟨start, stop⟩ := span
    unfold cutSpans cutAtSpans
    rw [withoutFinalEmpty_cons (cutSpans_ne_nil _ _ _), List.map_cons, ih]

namespace Pattern

/-- The text cut at the matches that take some text. -/
def cuts (p : Pattern) (t : Text) : List (Text × Text) := cutAtSpans 0 t (p.findAllNonempty t)

/-- A match in whole lines that does not touch their end stays the first match when more lines follow. -/
def Settles (p : Pattern) : Prop :=
  ∀ {lines : Text} {start stop : Nat}, Source.WholeLines lines →
    Reader.firstNonempty p lines = some (start, stop) → stop < lines.length →
    ∀ more, Reader.firstNonempty p (lines ++ more) = some (start, stop)

/-- After the first match a text is cut as if it began there. -/
def Rebases (p : Pattern) : Prop :=
  ∀ {t : Text} {start stop : Nat}, Reader.firstNonempty p t = some (start, stop) →
    p.cuts t = (t.take start, Text.slice t start stop) :: p.cuts (t.drop stop)

end Pattern

/-! ### Separators within a line -/

namespace Pattern

variable {p : Pattern}

/-- Matches no newline. -/
def InLine : Pattern → Prop
  | empty => True
  | char test => test.holds '\n' = false
  | atStart => True
  | atEnd => True
  | _ => False

/-- The same offset and the same text up to and including the next newline. -/
def SameLine (a b : Place) : Prop :=
  b.offset = a.offset ∧ (Source.cutLine b.rest).1 = (Source.cutLine a.rest).1

theorem SameLine.nil_iff {a b : Place} (h : SameLine a b) : b.rest = [] ↔ a.rest = [] := by
  rw [← Source.cutLine_fst_eq_nil, h.2, Source.cutLine_fst_eq_nil]

/-- A character that is no newline is followed by the same in both places. -/
theorem SameLine.next {c : Char} {rest : Text} {a b : Place} (h : SameLine a b) (hrest : a.rest = c :: rest) :
    ∃ rest', b.rest = c :: rest' ∧ (c ≠ '\n' → SameLine ⟨a.offset + 1, rest⟩ ⟨b.offset + 1, rest'⟩) := by
  obtain ⟨d, rest', hrest'⟩ := List.exists_cons_of_ne_nil (mt h.nil_iff.1 (by rw [hrest]; exact List.cons_ne_nil _ _))
  have hline := h.2
  rw [hrest, hrest', Source.fst_cutLine_cons, Source.fst_cutLine_cons, List.cons.injEq] at hline
  obtain ⟨rfl, hline⟩ := hline
  refine ⟨rest', hrest', fun hc => ⟨?_, ?_⟩⟩
  · rw [h.1]
  · rw [if_neg hc, if_neg hc] at hline
    exact hline

theorem InLine.blind {q : Pattern} (h : q.InLine) : q.Blind SameLine := by
  intro a b hab
  cases q with
  | empty => exact .some hab
  | char test =>
    unfold run
    rcases hrest : a.rest with _ | ⟨c, rest⟩
    · rw [hab.nil_iff.2 hrest]
      exact .none
    · obtain ⟨rest', hrest', hnext⟩ := hab.next hrest
      rw [hrest']
      dsimp only
      split
      · rename_i htest
        refine .some (hnext ?_)
        rintro rfl
        exact absurd (h.symm.trans htest) Bool.false_ne_true
      · exact .none
  | atStart =>
    unfold run
    rw [hab.1]
    split
    · exact .some hab
    · exact .none
  | atEnd =>
    unfold run
    have hends : b.rest.isEmpty = a.rest.isEmpty := by
      rw [Bool.eq_iff_iff, List.isEmpty_iff, List.isEmpty_iff, hab.nil_iff]
    rw [hends]
    split
    · exact .some hab
    · exact .none
  | seq q q' => exact h.elim
  | alt q q' => exact h.elim
  | «repeat» q least most greed => exact h.elim

theorem matchAt_of_sameLine (hp : p.Leaves InLine) {a b : Place} (h : SameLine a b) (advance : Bool) :
    p.matchAt advance b = p.matchAt advance a := by
  have hshift {a b : Place} (hab : SameLine a b) : b.offset = a.offset + 0 := hab.1
  rw [matchAt_alike hshift (hp.imp InLine.blind) h]
  exact Option.map_id'

/-- A match that begins in whole lines is found there whatever follows. -/
theorem findFrom_append (hp : p.Leaves InLine) {lines : Text} (hlines : Source.WholeLines lines) (more : Text)
    {advance : Bool} {offset start stop : Nat} (h : p.findFrom advance offset lines = some (start, stop))
    (hlt : start < offset + lines.length) : p.findFrom advance offset (lines ++ more) = some (start, stop) := by
  induction lines generalizing advance offset with
  | nil =>
    have hstart := (findFrom_bounds h).1
    rw [List.length_nil] at hlt
    omega
  | cons c lines ih =>
    have hmem : '\n' ∈ c :: lines := by
      rcases hlines with hnil | hlast
      · cases hnil
      · exact List.mem_of_getLast? hlast
    have hsame : SameLine ⟨offset, c :: lines⟩ ⟨offset, c :: lines ++ more⟩ :=
      ⟨rfl, by rw [Source.cutLine_append_of_mem hmem]⟩
    rw [List.cons_append, findFrom, ← List.cons_append, matchAt_of_sameLine hp hsame]
    rw [findFrom] at h
    split at h
    · exact h
    · refine ih (hlines.drop 1) h ?_
      rw [List.length_cons] at hlt
      omega

theorem head_findAllFrom_append (hp : p.Leaves InLine) {lines : Text} (hlines : Source.WholeLines lines) (more : Text)
    {fuel fuel' : Nat} (hle : fuel ≤ fuel') {advance : Bool} {offset : Nat} {span : Nat × Nat}
    (h : ((p.findAllFrom fuel advance offset lines).filter takesText).head? = some span) :
    ((p.findAllFrom fuel' advance offset (lines ++ more)).filter takesText).head? = some span := by
  induction fuel generalizing fuel' advance offset lines with
  | zero => cases h
  | succ fuel ih =>
    obtain ⟨fuel', rfl⟩ := Nat.exists_eq_succ_of_ne_zero (show fuel' ≠ 0 by omega)
    unfold findAllFrom at h
    split at h
    · cases h
    · rename_i first last hfound
      obtain ⟨hfirst, hlast, hend⟩ := findFrom_bounds hfound
      by_cases htakes : first < last
      · rw [findAllFrom, findFrom_append hp hlines more hfound (by omega)]
        rw [List.filter_cons_of_pos (by simpa [takesText] using htakes)] at h ⊢
        exact h
      · rw [List.filter_cons_of_neg (by simpa [takesText] using htakes)] at h
        -- A match without text that comes first stands before the end of the lines, for one with text comes later.
        have hmem := List.mem_filter.1 (List.mem_of_head? h)
        have hafter := mem_findAllFrom hmem.1
        have hpos : span.1 < span.2 := of_decide_eq_true hmem.2
        rw [List.length_drop] at hafter
        rw [findAllFrom, findFrom_append hp hlines more hfound (by omega)]
        rw [List.filter_cons_of_neg (by simpa [takesText] using htakes)]
        rw [List.drop_append_of_le_length (by omega)]
        exact ih (hlines.drop _) (Nat.le_of_succ_le_succ hle) h

theorem settles_of_inLine (hp : p.Leaves InLine) : p.Settles := by
  intro lines start stop hlines hfound _ more
  refine head_findAllFrom_append hp hlines more ?_ hfound
  rw [List.length_append]
  omega

theorem cutAtSpans_moved (shift offset : Nat) (text : Text) (spans : List (Nat × Nat)) :
    cutAtSpans (offset + shift) text (spans.map (moveSpan shift)) = cutAtSpans offset text spans := by
  induction spans generalizing offset text with
  | nil => rfl
  | cons span spans ih =>
    obtain ⟨start, stop⟩ := span
    rw [List.map_cons, moveSpan, cutAtSpans, cutAtSpans, Nat.add_sub_add_right, Nat.add_sub_add_right, ih]

theorem rebases_of_unanchored (hp : p.Leaves Unanchored) : p.Rebases := by
  intro t start stop hfound
  obtain ⟨spans, hspans⟩ := List.head?_eq_some_iff.1 hfound
  have hlater := findAllNonempty_of_unanchored hp hspans
  have hmoved := cutAtSpans_moved stop 0 (t.drop stop) (p.findAllNonempty (t.drop stop))
  rw [Nat.zero_add] at hmoved
  rw [cuts, hspans, cutAtSpans, Nat.sub_zero, Nat.sub_zero, hlater, hmoved, cuts]

end Pattern

end Awk
