import Awk.Proofs.Reader.Fetching

/-!
# What is at hand does not matter

How much of the unread text of a source is at hand decides when it is fetched, but not what is read: a reader answers as
one that has all of it at hand (`Reader.readRecord_gathered`).  What stands behind is only ever taken from the front
(`Reader.beyond_readRecord`), so that a stream can note how much of it has been fetched.
-/

namespace Awk

/-- The source with all of its text at hand. -/
def Source.gathered (s : Source) : Source := ⟨s.unread, []⟩

theorem Source.unread_gathered (s : Source) : s.gathered.unread = s.unread := List.append_nil _

theorem Source.line_gathered (s : Source) : s.gathered.line = (s.line.1, s.line.2.gathered) := by
  have hbeyond : s.gathered.line.2.beyond = [] := by
    unfold line
    split <;> rfl
  have hunread : s.gathered.line.2.unread = s.line.2.unread := by
    rw [unread_line, unread_line, unread_gathered]
  refine Prod.ext ?_ ?_
  · rw [line_fst, line_fst, unread_gathered]
  · generalize s.gathered.line.2 = t at *
    obtain ⟨pending, beyond⟩ := t
    subst hbeyond
    rw [gathered, ← hunread, unread, List.append_nil]

theorem Source.beyond_line (s : Source) : s.line.2.beyond <:+ s.beyond := by
  unfold line
  split
  · exact List.suffix_refl _
  · exact List.nil_suffix

namespace Reader

variable {r : Reader}

def gathered (r : Reader) : Reader := ⟨r.buffer, r.ended, r.source.gathered⟩

theorem gathered_ofText (t : Text) : (ofText t).gathered = ofText t := by
  simp [gathered, ofText, ofSource, Source.ofText, Source.gathered, Source.unread]

theorem rounds_gathered (r : Reader) : r.gathered.rounds = r.rounds := by
  rw [rounds, gathered, Source.unread_gathered]
  rfl

theorem fill_gathered (r : Reader) : r.gathered.fill = (r.fill.1, r.fill.2.gathered) := by
  obtain ⟨buffer, ended, source⟩ := r
  have hline := source.line_gathered
  cases ended with
  | true => rfl
  | false =>
    simp only [gathered, fill, Bool.false_eq_true, if_false, hline]
    split
    · rfl
    · rfl

theorem takeRest_gathered (r : Reader) : r.gathered.takeRest = (r.takeRest.1, r.takeRest.2.gathered) := by
  cases hbuffer : r.buffer.isEmpty with
  | true => simp [takeRest, gathered, hbuffer]
  | false => simp [takeRest, gathered, hbuffer]

theorem readUntilCharLoop_gathered (c : Char) (fuel : Nat) (r : Reader) :
    readUntilCharLoop c fuel r.gathered =
      ((readUntilCharLoop c fuel r).1, (readUntilCharLoop c fuel r).2.gathered) := by
  induction fuel generalizing r with
  | zero => rfl
  | succ fuel ih =>
    have hbuffer : r.gathered.buffer = r.buffer := rfl
    rw [readUntilCharLoop, readUntilCharLoop, r.fill_gathered, hbuffer]
    cases Text.cutAt? [c] r.buffer with
    | some cut => rfl
    | none =>
      rcases r.fill with ⟨_ | _, r'⟩
      · exact takeRest_gathered r'
      · exact ih r'

theorem readUntilChar_gathered (c : Char) (r : Reader) :
    r.gathered.readUntilChar c = ((r.readUntilChar c).1, (r.readUntilChar c).2.gathered) := by
  have hline : r.gathered.readLine = (r.readLine.1, r.readLine.2.gathered) := by
    have hline := r.source.line_gathered
    simp only [readLine, gathered, hline]
    split
    · rfl
    · rfl
  unfold readUntilChar
  rw [hline, rounds_gathered, readUntilCharLoop_gathered]
  change (if (decide (c = '\n') && r.buffer.isEmpty && !r.ended) = true then _ else _) = _
  split
  · rfl
  · rfl

theorem readUntilMatchLoop_gathered (p : Pattern) (fuel : Nat) (r : Reader) :
    readUntilMatchLoop p fuel r.gathered =
      ((readUntilMatchLoop p fuel r).1, (readUntilMatchLoop p fuel r).2.gathered) := by
  induction fuel generalizing r with
  | zero => rfl
  | succ fuel ih =>
    have hbuffer : r.gathered.buffer = r.buffer := rfl
    have hended : r.gathered.ended = r.ended := rfl
    rw [readUntilMatchLoop, readUntilMatchLoop, r.fill_gathered]
    dsimp only
    rw [hbuffer, hended]
    split
    · rfl
    · rcases r.fill with ⟨_ | _, r'⟩
      · change (if (firstNonempty p r.buffer).isSome then readUntilMatchLoop p fuel r'.gathered
          else r'.gathered.takeRest) = _
        dsimp only
        split
        · exact ih r'
        · exact takeRest_gathered r'
      · exact ih r'

theorem skipNewlines_gathered (fuel : Nat) (r : Reader) :
    skipNewlines fuel r.gathered = (skipNewlines fuel r).gathered := by
  induction fuel generalizing r with
  | zero => rfl
  | succ fuel ih =>
    rw [skipNewlines, skipNewlines]
    generalize hr : (⟨r.buffer.dropWhile (· == '\n'), r.ended, r.source⟩ : Reader) = r₁
    have hgathered : (⟨r.gathered.buffer.dropWhile (· == '\n'), r.gathered.ended, r.gathered.source⟩ : Reader) =
        r₁.gathered := by
      rw [← hr]
      rfl
    have hfill := r₁.fill_gathered
    rw [hgathered, hfill]
    change (if (!r₁.buffer.isEmpty) = true then _ else _) = _
    split
    · rfl
    · rcases r₁.fill with ⟨_ | _, r'⟩
      · rfl
      · exact ih r'

theorem readParagraphLoop_gathered (fuel : Nat) (r : Reader) :
    readParagraphLoop fuel r.gathered =
      ((readParagraphLoop fuel r).1, (readParagraphLoop fuel r).2.gathered) := by
  induction fuel generalizing r with
  | zero => rfl
  | succ fuel ih =>
    have hbuffer : r.gathered.buffer = r.buffer := rfl
    have hended : r.gathered.ended = r.ended := rfl
    rw [readParagraphLoop, readParagraphLoop, r.fill_gathered, hbuffer, hended]
    split
    · rfl
    · rcases r.fill with ⟨_ | _, r'⟩
      · rfl
      · exact ih r'

theorem readParagraph_gathered (r : Reader) :
    r.gathered.readParagraph = (r.readParagraph.1, r.readParagraph.2.gathered) := by
  unfold readParagraph
  rw [rounds_gathered, skipNewlines_gathered]
  generalize skipNewlines r.rounds r = r₁
  have hloop := readParagraphLoop_gathered r₁.rounds r₁
  dsimp only
  rw [rounds_gathered, hloop]
  change (if r₁.buffer.isEmpty = true then _ else _) = _
  split
  · rfl
  · rfl

/-- A reader answers as one that has all of its source at hand. -/
theorem readRecord_gathered (r : Reader) (separator : Text) :
    r.gathered.readRecord separator = ((r.readRecord separator).1, (r.readRecord separator).2.gathered) := by
  match separator with
  | [] =>
    have hread := r.readParagraph_gathered
    simp only [readRecord, hread]
  | [c] =>
    have hread := r.readUntilChar_gathered c
    simp only [readRecord, hread]
  | c :: d :: separator =>
    simp only [readRecord]
    cases compileEre (c :: d :: separator) with
    | error fault => rfl
    | ok p =>
      have hread := readUntilMatchLoop_gathered p (r.rounds + 1) r
      simp only [readUntilMatch, rounds_gathered, hread]

/-! ### What stands behind -/

section Source

variable {inv : Source → Prop} (hline : ∀ s, inv s → inv s.line.2)

include hline

theorem source_fill (h : inv r.source) : inv r.fill.2.source := by
  have hnext := hline r.source h
  unfold fill
  split
  · exact h
  · generalize r.source.line = next at hnext ⊢
    obtain ⟨line, source⟩ := next
    dsimp only at hnext ⊢
    split
    · exact hnext
    · exact hnext

omit hline in
theorem source_takeRest (h : inv r.source) : inv r.takeRest.2.source := by
  unfold takeRest
  split
  · exact h
  · exact h

theorem source_readUntilCharLoop (c : Char) (fuel : Nat) (h : inv r.source) :
    inv (readUntilCharLoop c fuel r).2.source := by
  induction fuel generalizing r with
  | zero => exact h
  | succ fuel ih =>
    have hfill := source_fill hline h
    rw [readUntilCharLoop]
    split
    · exact h
    · generalize r.fill = filled at hfill ⊢
      rcases filled with ⟨_ | _, r'⟩
      · exact source_takeRest hfill
      · exact ih hfill

theorem source_readUntilChar (c : Char) (h : inv r.source) : inv (r.readUntilChar c).2.source := by
  unfold readUntilChar
  split
  · have hnext := hline r.source h
    unfold readLine
    generalize r.source.line = next at hnext ⊢
    obtain ⟨line, source⟩ := next
    dsimp only at hnext ⊢
    split
    · exact hnext
    · exact hnext
  · exact source_readUntilCharLoop hline c _ h

theorem source_readUntilMatchLoop (p : Pattern) (fuel : Nat) (h : inv r.source) :
    inv (readUntilMatchLoop p fuel r).2.source := by
  induction fuel generalizing r with
  | zero => exact h
  | succ fuel ih =>
    have hfill := source_fill hline h
    rw [readUntilMatchLoop]
    dsimp only
    split
    · exact h
    · generalize r.fill = filled at hfill ⊢
      rcases filled with ⟨_ | _, r'⟩
      · dsimp only
        split
        · exact ih hfill
        · exact source_takeRest hfill
      · exact ih hfill

theorem source_skipNewlines (fuel : Nat) (h : inv r.source) : inv (skipNewlines fuel r).source := by
  induction fuel generalizing r with
  | zero => exact h
  | succ fuel ih =>
    rw [skipNewlines]
    generalize hr : (⟨r.buffer.dropWhile (· == '\n'), r.ended, r.source⟩ : Reader) = r₁
    have h₁ : inv r₁.source := hr ▸ h
    have hfill := source_fill hline h₁
    split
    · exact h₁
    · generalize r₁.fill = filled at hfill ⊢
      rcases filled with ⟨_ | _, r'⟩
      · exact hfill
      · exact ih hfill

theorem source_readParagraph (h : inv r.source) : inv r.readParagraph.2.source := by
  have hloop (fuel : Nat) {r : Reader} (h : inv r.source) : inv (readParagraphLoop fuel r).2.source := by
    induction fuel generalizing r with
    | zero => exact h
    | succ fuel ih =>
      have hfill := source_fill hline h
      rw [readParagraphLoop]
      split
      · exact h
      · generalize r.fill = filled at hfill ⊢
        rcases filled with ⟨_ | _, r'⟩
        · exact hfill
        · exact ih hfill
  have hskip := source_skipNewlines hline r.rounds h
  unfold readParagraph
  dsimp only
  split
  · exact hskip
  · exact hloop _ hskip

/-- What holds of a source as long as lines are taken from it holds of a reader's source after a record. -/
theorem source_readRecord (separator : Text) (h : inv r.source) : inv (r.readRecord separator).2.source := by
  match separator with
  | [] => exact source_readParagraph hline h
  | [c] => exact source_readUntilChar hline c h
  | c :: d :: separator =>
    simp only [readRecord]
    cases compileEre (c :: d :: separator) with
    | error fault => exact h
    | ok p => exact source_readUntilMatchLoop hline p _ h

end Source

theorem beyond_readRecord (r : Reader) (separator : Text) :
    (r.readRecord separator).2.source.beyond <:+ r.source.beyond :=
  source_readRecord (fun s hs => (s.beyond_line).trans hs) separator (List.suffix_refl _)

end Reader

end Awk
