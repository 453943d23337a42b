import Awk.Fields
import Awk.Proofs.Fields.Joining
import Awk.Proofs.Reader.Cutting

/-!
# Fields and blanks

By default the fields of a text are its maximal runs of characters that are no blanks (`fields_are_runs`).  They are come
by in two steps: the blanks around the text are taken away, and what is left is cut where the pattern of a run of blanks
matches, which takes all the blanks that stand there (`Pattern.matchAt_blanks`).  In between the text is seen as runs and
the gaps between them (`Alternates`), by which the places of all maximal runs are known (`Alternates.spans`).
-/

namespace Awk

/-! ### The pattern of a run of blanks -/

namespace Pattern

example : (read "[ \t\n]+".toList).toOption = some blanks := by decide +kernel

/-- A round for each character of the kind, as long as there are any. -/
theorem runGreedy_char {test : CharTest} {k : Continuation} {offset fuel : Nat} {last : Option Nat} {rest : Text}
    (hk : ∀ place : Place, offset ≤ place.offset → k place = some place) (hfuel : rest.length < fuel)
    (hlast : last ≠ some offset) :
    runGreedy (run (char test)) k fuel 0 none last ⟨offset, rest⟩ =
      some ⟨offset + (rest.takeWhile test.holds).length, rest.dropWhile test.holds⟩ := by
  obtain ⟨fuel, rfl⟩ := Nat.exists_eq_succ_of_ne_zero (Nat.ne_zero_of_lt hfuel)
  induction rest generalizing offset fuel last with
  | nil =>
    rw [runGreedy_round]
    split <;> exact hk _ (Nat.le_refl _)
  | cons c rest ih =>
    rw [runGreedy_round, if_neg (by simpa using hlast), List.takeWhile_cons, List.dropWhile_cons, run]
    dsimp only
    split
    · have hmore : rest.length < fuel := Nat.lt_of_succ_lt_succ hfuel
      obtain ⟨fuel, rfl⟩ := Nat.exists_eq_succ_of_ne_zero (Nat.ne_zero_of_lt hmore)
      have hlater : some offset ≠ some (offset + 1) := by simp
      rw [fewer, Option.map_none, ih (fun place hplace => hk place (Nat.le_of_succ_le hplace)) hlater fuel hmore,
        Option.some_or, List.length_cons, Nat.succ_add_eq_add_succ]
    · exact hk _ (Nat.le_refl _)

theorem holds_blanks (c : Char) :
    (CharTest.set false [.range ' ' ' ', .range '\t' '\t', .range '\n' '\n']).holds c = isFieldBlank c := by
  have hone (d : Char) : (decide (d ≤ c) && decide (c ≤ d)) = (c == d) := by
    rw [Bool.eq_iff_iff, Bool.and_eq_true, decide_eq_true_iff, decide_eq_true_iff, beq_iff_eq]
    exact ⟨fun h => Char.le_antisymm h.2 h.1, fun h => h ▸ ⟨Char.le_refl c, Char.le_refl c⟩⟩
  simp only [CharTest.holds, SetPart.holds, List.any_cons, List.any_nil, hone, Bool.or_false, isFieldBlank, Bool.or_assoc,
    Bool.bne_false]

/-- The pattern takes all the blanks at its place, if there are any. -/
theorem matchAt_blanks (advance : Bool) (offset : Nat) (c : Char) (t : Text) :
    blanks.matchAt advance ⟨offset, c :: t⟩ =
      if isFieldBlank c then some (offset + 1 + (t.takeWhile isFieldBlank).length) else none := by
  have hholds := funext holds_blanks
  have hk (place : Place) (hplace : offset + 1 ≤ place.offset) :
      run empty (fun stop => if advance && stop.offset == offset then none else some stop) place = some place :=
    if_neg (by simp; omega)
  have hlast : none ≠ some (offset + 1) := by simp
  unfold matchAt blanks
  rw [run, run]
  dsimp only
  rw [show 1 + (c :: t).length + 3 = (t.length + 4) + 1 by rw [List.length_cons]; omega, runGreedy, run]
  dsimp only
  rw [holds_blanks]
  split
  · rw [fewer, Option.map_none, runGreedy_char hk (by omega) hlast, hholds]
    rfl
  · rfl

theorem takesText_blanks (text : Text) : blanks.TakesText text := by
  intro offset _ hmatch
  cases hrest : text.drop offset with
  | nil =>
    rw [hrest] at hmatch
    cases hmatch
  | cons c rest =>
    rw [hrest, matchAt_blanks, Option.ite_none_right_eq_some, Option.some.injEq] at hmatch
    omega

variable {run : Text}

/-- What is no blank is passed over. -/
theorem findFrom_blanks (hrun : ∀ c ∈ run, isFieldBlank c = false) {d : Char} (hd : isFieldBlank d)
    (advance : Bool) (offset : Nat) (t : Text) :
    blanks.findFrom advance offset (run ++ d :: t) =
      some (offset + run.length, offset + run.length + 1 + (t.takeWhile isFieldBlank).length) := by
  induction run generalizing advance offset with
  | nil =>
    rw [List.nil_append, findFrom, matchAt_blanks, if_pos hd]
    rfl
  | cons c run ih =>
    obtain ⟨hc, hrun⟩ := List.forall_mem_cons.1 hrun
    rw [List.cons_append, findFrom, matchAt_blanks, hc, if_neg Bool.false_ne_true]
    dsimp only
    rw [ih hrun, List.length_cons, Nat.add_assoc offset, Nat.add_comm 1]

theorem findFrom_blanks_none (hrun : ∀ c ∈ run, isFieldBlank c = false) (advance : Bool) (offset : Nat) :
    blanks.findFrom advance offset run = none := by
  induction run generalizing advance offset with
  | nil => rfl
  | cons c run ih =>
    obtain ⟨hc, hrun⟩ := List.forall_mem_cons.1 hrun
    rw [findFrom, matchAt_blanks, hc, if_neg Bool.false_ne_true]
    exact ih hrun false (offset + 1)

end Pattern

/-! ### Runs and the gaps between them -/

/-- A text of runs of characters that are no blanks, each of them with blanks or the end of the text behind it. -/
inductive Alternates : Text → List Text → Prop
  | blanks {gap : Text} (hgap : ∀ c ∈ gap, isFieldBlank c) : Alternates gap []
  | run {gap run rest : Text} {runs : List Text} (hgap : ∀ c ∈ gap, isFieldBlank c)
    (hrun : ∀ c ∈ run, isFieldBlank c = false) (hne : run ≠ []) (hrest : ∀ c, rest.head? = some c → isFieldBlank c)
    (h : Alternates rest runs) : Alternates (gap ++ (run ++ rest)) (run :: runs)

namespace Alternates

variable {text gap : Text} {runs : List Text}

/-- The characters up to the first blank. -/
theorem exists_run (text : Text) :
    ∃ run tail, text = run ++ tail ∧ (∀ c ∈ run, isFieldBlank c = false) ∧
      ∀ c, tail.head? = some c → isFieldBlank c := by
  refine ⟨text.takeWhile (!isFieldBlank ·), text.dropWhile (!isFieldBlank ·), List.takeWhile_append_dropWhile.symm,
    fun c hc => ?_, fun c hc => ?_⟩
  · simpa using List.mem_takeWhile_imp hc
  · simpa [hc] using List.head?_dropWhile_not (!isFieldBlank ·) text

/-- The blanks at the beginning. -/
theorem exists_gap (text : Text) :
    ∃ gap rest, text = gap ++ rest ∧ (∀ c ∈ gap, isFieldBlank c) ∧
      ∀ c, rest.head? = some c → isFieldBlank c = false := by
  refine ⟨text.takeWhile isFieldBlank, text.dropWhile isFieldBlank, List.takeWhile_append_dropWhile.symm,
    fun c hc => List.mem_takeWhile_imp hc, fun c hc => ?_⟩
  simpa [hc] using List.head?_dropWhile_not isFieldBlank text

theorem blanks_append (hgap : ∀ c ∈ gap, isFieldBlank c) (h : Alternates text runs) : Alternates (gap ++ text) runs := by
  cases h with
  | blanks h => exact .blanks (List.forall_mem_append.2 ⟨hgap, h⟩)
  | run hgap' hrun hne hrest h =>
    rw [← List.append_assoc]
    exact .run (List.forall_mem_append.2 ⟨hgap, hgap'⟩) hrun hne hrest h

theorem run_append {run : Text} (hrun : ∀ c ∈ run, isFieldBlank c = false) (hne : run ≠ [])
    (hrest : ∀ c, text.head? = some c → isFieldBlank c) (h : Alternates text runs) :
    Alternates (run ++ text) (run :: runs) :=
  @Alternates.run [] run text runs (List.forall_mem_nil _) hrun hne hrest h

theorem append_blanks (h : Alternates text runs) (hgap : ∀ c ∈ gap, isFieldBlank c) : Alternates (text ++ gap) runs := by
  induction h with
  | blanks h => exact .blanks (List.forall_mem_append.2 ⟨h, hgap⟩)
  | @run gap' run rest runs hgap' hrun hne hrest _ ih =>
    rw [List.append_assoc, List.append_assoc]
    refine .run hgap' hrun hne (fun c hc => ?_) ih
    cases rest with
    | nil => exact hgap c (List.mem_of_mem_head? hc)
    | cons d rest => exact hrest c hc

/-- The cuts at runs of blanks, if the text neither begins nor ends with one. -/
theorem cutSpans_blanks {fuel offset : Nat} (hfuel : text.length < fuel) (hne : text ≠ [])
    (hfirst : ∀ c, text.head? = some c → isFieldBlank c = false)
    (hlast : ∀ c, text.getLast? = some c → isFieldBlank c = false) (advance : Bool) :
    Alternates text (cutSpans offset text (Pattern.blanks.findAllFrom fuel advance offset text)) := by
  induction fuel generalizing text offset advance with
  | zero => exact absurd hfuel (Nat.not_lt_zero _)
  | succ fuel ih =>
    obtain ⟨run, tail, rfl, hrun, htail⟩ := exists_run text
    have hrunne : run ≠ [] := by
      rintro rfl
      obtain ⟨c, tail, rfl⟩ := List.exists_cons_of_ne_nil hne
      exact Bool.false_ne_true ((hfirst c rfl).symm.trans (htail c rfl))
    rw [Pattern.findAllFrom]
    cases tail with
    | nil =>
      rw [List.append_nil, Pattern.findFrom_blanks_none hrun]
      have hwhole := run_append hrun hrunne (by simp) (.blanks (List.forall_mem_nil _))
      rwa [List.append_nil] at hwhole
    | cons d tail =>
      have hd := htail d rfl
      obtain ⟨gap, rest, rfl, hgap, hrest⟩ := exists_gap tail
      have htake : (gap ++ rest).takeWhile isFieldBlank = gap := by
        rw [List.takeWhile_append_of_pos hgap]
        cases rest with
        | nil => exact List.append_nil gap
        | cons c rest => rw [List.takeWhile_cons, hrest c rfl, if_neg Bool.false_ne_true, List.append_nil]
      -- A text that does not end with a blank goes on behind the gap.
      have hrestne : rest ≠ [] := by
        rintro rfl
        rw [List.append_nil] at hlast
        have hblank : ∀ c ∈ d :: gap, isFieldBlank c := List.forall_mem_cons.2 ⟨hd, hgap⟩
        have hend := hlast ((d :: gap).getLast (List.cons_ne_nil d gap))
          (by rw [List.getLast?_append_of_ne_nil _ (List.cons_ne_nil d gap), List.getLast?_eq_some_getLast])
        exact Bool.false_ne_true (hend.symm.trans (hblank _ (List.getLast_mem _)))
      have hlast' : ∀ c, rest.getLast? = some c → isFieldBlank c = false := fun c hc => hlast c (by
        rw [List.getLast?_append_of_ne_nil _ (List.cons_ne_nil d _), ← List.cons_append,
          List.getLast?_append_of_ne_nil _ hrestne, hc])
      rw [Pattern.findFrom_blanks hrun hd, htake, cutSpans]
      have hdrop : (run ++ d :: (gap ++ rest)).drop (offset + run.length + 1 + gap.length - offset) = rest := by
        rw [show offset + run.length + 1 + gap.length - offset = (run ++ d :: gap).length by
          rw [List.length_append, List.length_cons]; omega, ← List.cons_append, ← List.append_assoc, List.drop_left]
      have hmore : rest.length < fuel := by
        rw [List.length_append, List.length_cons, List.length_append] at hfuel
        omega
      rw [hdrop, Nat.add_sub_cancel_left, List.take_left]
      exact run_append hrun hrunne htail
        (blanks_append (List.forall_mem_cons.2 ⟨hd, hgap⟩) (ih hmore hrestne hrest hlast' _))

/-- The text is cut into the runs. -/
theorem ofText (text : Text) : Alternates text (blankRuns text) := by
  obtain ⟨before, inner, htext, hbefore, hfirst⟩ := exists_gap text
  obtain ⟨behind, hinner, hbehind⟩ := Text.trimRight_append isFieldBlank inner
  have htrim : text.trim isFieldBlank = Text.trimRight isFieldBlank inner := by
    rw [Text.trim, Text.trimLeft, htext, List.dropWhile_append_of_pos hbefore]
    cases inner with
    | nil => rfl
    | cons c inner => rw [List.dropWhile_cons, hfirst c rfl, if_neg Bool.false_ne_true]
  rw [blankRuns, htrim, splitPattern]
  nth_rewrite 1 [htext, hinner]
  refine blanks_append hbefore (append_blanks ?_ hbehind)
  split
  · rename_i hnil
    rw [List.isEmpty_iff.1 hnil]
    exact .blanks (List.forall_mem_nil _)
  · rename_i hne
    rw [(Pattern.takesText_blanks _).findAllNonempty_eq, Pattern.findAll]
    refine cutSpans_blanks (by omega) (by simpa using hne) (fun c hc => hfirst c ?_)
      (fun c => Text.getLast?_trimRight) false
    rw [hinner]
    rw [List.head?_append, hc, Option.some_or]
end Alternates

/-! ### The places of the runs -/

/-- A character that is neither a space nor a tab nor a newline stands at the offset. -/
def SolidAt (text : Text) (n : Nat) : Prop := ∃ c, text[n]? = some c ∧ c ≠ ' ' ∧ c ≠ '\t' ∧ c ≠ '\n'

/-- From one offset up to the other there are only such characters, and there is none next to them on either side. -/
structure IsRun (text : Text) (start stop : Nat) : Prop where
  lt : start < stop
  solid : ∀ n, start ≤ n → n < stop → SolidAt text n
  first : ∀ n, n + 1 = start → ¬SolidAt text n
  last : ¬SolidAt text stop

theorem isFieldBlank_eq_false {c : Char} : isFieldBlank c = false ↔ c ≠ ' ' ∧ c ≠ '\t' ∧ c ≠ '\n' := by
  simp [isFieldBlank, and_assoc]

section

variable {gap run rest : Text} {n start stop : Nat}


theorem not_solidAt (h : ∀ c, rest[n]? = some c → isFieldBlank c) : ¬SolidAt rest n := by
  rintro ⟨c, hc, hsolid⟩
  exact Bool.false_ne_true ((isFieldBlank_eq_false.2 hsolid).symm.trans (h c hc))

theorem solidAt_append (hgap : ∀ c ∈ gap, isFieldBlank c) (hrun : ∀ c ∈ run, isFieldBlank c = false) (rest : Text)
    (n : Nat) :
    SolidAt (gap ++ (run ++ rest)) n ↔
      (gap.length ≤ n ∧ n < gap.length + run.length) ∨
        (gap.length + run.length ≤ n ∧ SolidAt rest (n - (gap.length + run.length))) := by
  rcases Nat.lt_or_ge n gap.length with hn | hn
  · have hblank : ¬SolidAt (gap ++ (run ++ rest)) n := not_solidAt fun c hc => by
      rw [List.getElem?_append_left hn] at hc
      exact hgap c (List.mem_of_getElem? hc)
    exact iff_of_false hblank (by omega)
  · rw [SolidAt, List.getElem?_append_right hn]
    rcases Nat.lt_or_ge (n - gap.length) run.length with hlt | hge
    · rw [List.getElem?_append_left hlt]
      refine iff_of_true ⟨run[n - gap.length], List.getElem?_eq_getElem hlt, ?_⟩ (.inl (by omega))
      exact isFieldBlank_eq_false.1 (hrun _ (List.getElem_mem hlt))
    · rw [List.getElem?_append_right hge, Nat.sub_sub, ← SolidAt]
      have hle : gap.length + run.length ≤ n := by omega
      have hnot : ¬(gap.length ≤ n ∧ n < gap.length + run.length) := by omega
      simp only [hle, hnot, true_and, false_or]

/-- The first run stands behind the gap, and the others are those of the rest. -/
theorem isRun_append (hgap : ∀ c ∈ gap, isFieldBlank c) (hrun : ∀ c ∈ run, isFieldBlank c = false) (hne : run ≠ [])
    (hrest : ¬SolidAt rest 0) :
    IsRun (gap ++ (run ++ rest)) start stop ↔
      (start = gap.length ∧ stop = gap.length + run.length) ∨
        ∃ i j, IsRun rest i j ∧ start = gap.length + run.length + i ∧ stop = gap.length + run.length + j := by
  have hsolid := solidAt_append hgap hrun rest
  have hpos : 0 < run.length := List.length_pos_iff.2 hne
  generalize gap ++ (run ++ rest) = text at *
  generalize hk : gap.length + run.length = k at *
  constructor
  · intro h
    rcases (hsolid start).1 (h.solid start (Nat.le_refl _) h.lt) with ⟨hle, hlt⟩ | ⟨hle, -⟩
    · -- The run that begins in the first one begins with it, and it cannot go on behind it.
      have hfirst : start = gap.length := by
        by_contra hne
        exact h.first (start - 1) (by omega) ((hsolid _).2 (.inl (by omega)))
      have hbefore : k ≤ stop := by
        by_contra hlt
        exact h.last ((hsolid _).2 (.inl ⟨by have := h.lt; omega, by omega⟩))
      have hbehind : ¬k < stop := fun hlt => by
        rcases (hsolid k).1 (h.solid k (by omega) hlt) with ⟨-, hkk⟩ | ⟨-, hat⟩
        · exact Nat.lt_irrefl k hkk
        · exact hrest (Nat.sub_self k ▸ hat)
      exact .inl ⟨hfirst, by omega⟩
    · refine .inr ⟨start - k, stop - k, ⟨?_, fun n hn hlt => ?_, fun n hn hat => ?_, fun hat => ?_⟩, ?_, ?_⟩
      · have := h.lt
        omega
      · rcases (hsolid (k + n)).1 (h.solid (k + n) (by omega) (by omega)) with ⟨-, hlt⟩ | ⟨-, hat⟩
        · omega
        · rwa [Nat.add_sub_cancel_left] at hat
      · refine h.first (k + n) (by omega) ((hsolid _).2 (.inr ⟨by omega, ?_⟩))
        rwa [Nat.add_sub_cancel_left]
      · have := h.lt
        exact h.last ((hsolid _).2 (.inr ⟨by omega, hat⟩))
      · omega
      · have := h.lt
        omega
  · rintro (⟨rfl, rfl⟩ | ⟨i, j, h, rfl, rfl⟩)
    · refine ⟨by omega, fun n hn hlt => (hsolid n).2 (.inl ⟨hn, hlt⟩), fun n hn hat => ?_, fun hat => ?_⟩
      · rcases (hsolid n).1 hat with ⟨hle, -⟩ | ⟨hle, -⟩ <;> omega
      · rcases (hsolid stop).1 hat with ⟨-, hlt⟩ | ⟨-, hat⟩
        · exact Nat.lt_irrefl stop hlt
        · exact hrest (Nat.sub_self stop ▸ hat)
    · have hi : i ≠ 0 := by
        rintro rfl
        exact hrest (h.solid 0 (Nat.le_refl 0) h.lt)
      have hlt := h.lt
      refine ⟨by omega, fun n hn hlt => (hsolid n).2 (.inr ⟨by omega, ?_⟩), fun n hn hat => ?_, fun hat => ?_⟩
      · exact h.solid (n - k) (by omega) (by omega)
      · rcases (hsolid n).1 hat with ⟨-, hlt⟩ | ⟨-, hat⟩
        · omega
        · exact h.first (n - k) (by omega) hat
      · rcases (hsolid (k + j)).1 hat with ⟨-, hlt⟩ | ⟨-, hat⟩
        · omega
        · rw [Nat.add_sub_cancel_left] at hat
          exact h.last hat

end

namespace Alternates

variable {text : Text} {runs : List Text}

theorem not_solidAt_zero (h : ∀ c, text.head? = some c → isFieldBlank c) : ¬SolidAt text 0 :=
  not_solidAt fun c hc => h c (List.head?_eq_getElem?.trans hc)

/-- The runs stand at the places of the maximal runs, in their order. -/
theorem spans (h : Alternates text runs) :
    ∃ spans : List (Nat × Nat), runs = spans.map (fun span => text.slice span.1 span.2) ∧
      (spans.Pairwise fun earlier later => earlier.2 < later.1) ∧
      ∀ start stop, (start, stop) ∈ spans ↔ IsRun text start stop := by
  induction h with
  | blanks hgap =>
    refine ⟨[], rfl, .nil, fun start stop => iff_of_false List.not_mem_nil fun hrun => ?_⟩
    exact not_solidAt (fun c hc => hgap c (List.mem_of_getElem? hc)) (hrun.solid start (Nat.le_refl _) hrun.lt)
  | @run gap run rest runs hgap hrun hne hrest _ ih =>
    obtain ⟨spans, rfl, horder, hspans⟩ := ih
    have hzero := not_solidAt_zero hrest
    refine ⟨(gap.length, gap.length + run.length) ::
      spans.map (fun span => (gap.length + run.length + span.1, gap.length + run.length + span.2)), ?_, ?_, ?_⟩
    · have hfirst : (gap ++ (run ++ rest)).slice gap.length (gap.length + run.length) = run := by
        rw [Text.slice, List.drop_left, Nat.add_sub_cancel_left, List.take_left]
      have hlater (span : Nat × Nat) : (gap ++ (run ++ rest)).slice (gap.length + run.length + span.1)
          (gap.length + run.length + span.2) = rest.slice span.1 span.2 := by
        rw [Text.slice, Text.slice, ← List.drop_drop, ← List.append_assoc, ← List.length_append, List.drop_left,
          Nat.add_sub_add_left]
      rw [List.map_cons, hfirst, List.map_map]
      exact congrArg (run :: ·) (List.map_congr_left fun span _ => (hlater span).symm)
    · rw [List.pairwise_cons, List.pairwise_map]
      refine ⟨fun later hlater => ?_, horder.imp fun hlt => Nat.add_lt_add_left hlt _⟩
      obtain ⟨⟨start, stop⟩, hmem, rfl⟩ := List.mem_map.1 hlater
      have hrun := (hspans start stop).1 hmem
      have hstart : start ≠ 0 := by
        rintro rfl
        exact hzero (hrun.solid 0 (Nat.le_refl 0) hrun.lt)
      dsimp only
      omega
    · intro start stop
      rw [isRun_append hgap hrun hne hzero, List.mem_cons, Prod.mk.injEq, List.mem_map]
      refine or_congr_right ⟨?_, ?_⟩
      · rintro ⟨⟨i, j⟩, hmem, heq⟩
        cases heq
        exact ⟨i, j, (hspans i j).1 hmem, rfl, rfl⟩
      · rintro ⟨i, j, hij, rfl, rfl⟩
        exact ⟨(i, j), (hspans i j).2 hij, rfl⟩

theorem ne_nil (h : Alternates text runs) : ∀ run ∈ runs, run ≠ [] := by
  induction h with
  | blanks _ => exact List.forall_mem_nil _
  | run _ _ hne _ _ ih => exact List.forall_mem_cons.2 ⟨hne, ih⟩

/-- No run has a blank in it. -/
theorem solid (h : Alternates text runs) : ∀ run ∈ runs, ∀ c ∈ run, isFieldBlank c = false := by
  induction h with
  | blanks _ => exact List.forall_mem_nil _
  | run _ hrun _ _ _ ih => exact List.forall_mem_cons.2 ⟨hrun, ih⟩

theorem eq_nil_iff (h : Alternates text runs) : runs = [] ↔ ∀ c ∈ text, isFieldBlank c := by
  cases h with
  | blanks hgap => exact iff_of_true rfl hgap
  | @run gap run rest runs _ hrun hne _ _ =>
    obtain ⟨c, more, rfl⟩ := List.exists_cons_of_ne_nil hne
    refine iff_of_false (List.cons_ne_nil _ _) fun hall => ?_
    have hblank := hall c (List.mem_append_right gap (List.mem_append_left rest List.mem_cons_self))
    exact Bool.false_ne_true ((hrun c List.mem_cons_self).symm.trans hblank)

end Alternates

/-- By default, and in paragraph mode too, the fields of a text are its maximal runs of characters other than spaces,
tabs and newlines, in their order.  None of them is empty, and there are none exactly if the text has no such
character. -/
theorem fields_are_runs (text : Text) (paragraph : Bool) :
    ∃ (fields : List Text) (spans : List (Nat × Nat)), splitFields text [' '] paragraph = .ok fields ∧
      fields = spans.map (fun span => text.slice span.1 span.2) ∧
      (spans.Pairwise fun earlier later => earlier.2 < later.1) ∧
      (∀ start stop, (start, stop) ∈ spans ↔ IsRun text start stop) ∧
      (∀ field ∈ fields, field ≠ []) ∧
      (fields = [] ↔ ∀ c ∈ text, c = ' ' ∨ c = '\t' ∨ c = '\n') := by
  have hruns := Alternates.ofText text
  obtain ⟨spans, hfields, horder, hspans⟩ := hruns.spans
  refine ⟨blankRuns text, spans, if_pos rfl, hfields, horder, hspans, hruns.ne_nil, hruns.eq_nil_iff.trans ?_⟩
  simp [isFieldBlank, or_assoc]

end Awk
