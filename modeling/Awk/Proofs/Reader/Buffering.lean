import Awk.Proofs.Reader.Separators

/-!
# Matching in a buffer and matching in the whole text

A reader looks for the end of a record in the lines that it has fetched, and after a record it starts afresh with
what is left of them.  So it finds the records between the matches in the whole text only for patterns that do not
notice (`reads_cuts_iff`): those that settle and rebase.

A branch that reads across the end of a line breaks the one, a mark for the start of the text the other.
-/

namespace Awk

namespace Reader

/-- Reading with one separator until there is no record: the records, each with what was taken after it. -/
inductive Reads (separator : Text) : Reader → List (Text × Text) → Prop
  | done {r r' : Reader} (h : r.readRecord separator = (.ok none, r')) : Reads separator r []
  | more {r r' : Reader} {record sep : Text} {pieces : List (Text × Text)}
      (h : r.readRecord separator = (.ok (some record), r')) (hunread : r.unread = record ++ sep ++ r'.unread)
      (hrest : Reads separator r' pieces) : Reads separator r ((record, sep) :: pieces)

/-- What is in the buffer is whole lines, or all there is. -/
def Tidy (r : Reader) : Prop := Source.WholeLines r.buffer ∨ r.source.unread = []

variable {r : Reader} {p : Pattern}

theorem sound_ofText (t : Text) : (ofText t).Sound := sound_ofSource (.ofText t)

theorem tidy_ofText (t : Text) : (ofText t).Tidy := .inl (.inl rfl)

theorem unread_ofText (t : Text) : (ofText t).unread = t := List.append_nil t

theorem Fetched.tidy {line : Text} {r' : Reader} (h : Fetched r line r') (ht : r.Tidy) : r'.Tidy := by
  rcases h.whole with hline | hdone
  · rcases ht with hbuffer | hdone
    · rw [Tidy, h.buffer]
      exact .inl (hbuffer.append hline)
    · rw [h.source, List.append_eq_nil_iff] at hdone
      exact .inr hdone.2
  · exact .inr hdone

/-- What reading with a pattern that settles comes to: the first match in all that is unread. -/
structure TakesFirst (p : Pattern) (u : Text) (record : Option Text) (r' : Reader) : Prop where
  sound : r'.Sound
  tidy : r'.Tidy
  found : ∀ {start stop : Nat}, firstNonempty p u = some (start, stop) →
    record = some (u.take start) ∧ r'.unread = u.drop stop
  absent : firstNonempty p u = none → record = (if u = [] then none else some u) ∧ r'.unread = []

/-- Where a match ends in the buffer, it is the first match in what is unread. -/
private theorem firstNonempty_unread (hs : p.Settles) (hr : r.Sound) (ht : r.Tidy) {start stop : Nat}
    (hfound : firstNonempty p r.buffer = some (start, stop)) (hcertain : stop < r.buffer.length ∨ r.ended = true) :
    firstNonempty p r.unread = some (start, stop) := by
  have hdone : r.source.unread = [] → firstNonempty p r.unread = some (start, stop) := by
    intro hdone
    rw [unread, hdone, List.append_nil]
    exact hfound
  rcases hcertain with hlt | hended
  · rcases ht with hlines | hnil
    · exact hs hlines hfound hlt r.source.unread
    · exact hdone hnil
  · exact hdone (hr hended)

/-- Without a match all that is unread is the last record. -/
private theorem takesFirst_takeRest {r' : Reader} (h : Drained r r') (hnone : firstNonempty p r.buffer = none) :
    TakesFirst p r.unread r'.takeRest.1 r'.takeRest.2 := by
  rw [h.unread_eq]
  have hunread : r'.unread = r.buffer := by rw [h.unread, h.unread_eq]
  have hfound {α : Prop} {start stop : Nat} (hsome : firstNonempty p r.buffer = some (start, stop)) : α := by
    rw [hnone] at hsome
    cases hsome
  by_cases hnil : r.buffer = []
  · rw [takeRest_nil (h.buffer.trans hnil)]
    refine ⟨h.sound, .inr h.after, hfound, fun _ => ⟨?_, ?_⟩⟩
    · rw [if_pos hnil]
    · rw [hunread, hnil]
  · rw [takeRest_cons (h.buffer ▸ hnil)]
    refine ⟨h.sound.of_buffer [], .inr h.after, hfound, fun _ => ⟨?_, ?_⟩⟩
    · rw [if_neg hnil, h.buffer]
    · rw [unread, h.after]
      rfl

theorem readUntilMatchLoop_of_settles (hs : p.Settles) {fuel : Nat} (hr : r.Sound) (ht : r.Tidy)
    (hfuel : fetches r < fuel) :
    TakesFirst p r.unread (readUntilMatchLoop p fuel r).1 (readUntilMatchLoop p fuel r).2 := by
  induction fuel generalizing r with
  | zero => exact absurd hfuel (Nat.not_lt_zero _)
  | succ fuel ih =>
    unfold readUntilMatchLoop
    simp only
    split
    · rename_i start stop hfound
      simp only [Option.filter_eq_some_iff, Bool.or_eq_true, decide_eq_true_eq] at hfound
      obtain ⟨hfound, hcertain⟩ := hfound
      have hle := (firstNonempty_bounds hfound).2
      have hlt := (firstNonempty_bounds hfound).1
      have hwhole := firstNonempty_unread hs hr ht hfound hcertain
      refine ⟨hr.of_buffer _, ?_, ?_, ?_⟩
      · rcases ht with hlines | hdone
        · exact .inl (hlines.drop stop)
        · exact .inr hdone
      · intro start' stop' hfirst
        rw [hwhole, Option.some.injEq, Prod.mk.injEq] at hfirst
        obtain ⟨rfl, rfl⟩ := hfirst
        refine ⟨?_, ?_⟩
        · rw [unread, List.take_append_of_le_length (by omega)]
        · rw [unread, unread, List.drop_append_of_le_length hle]
      · intro hnone
        rw [hwhole] at hnone
        cases hnone
    · rename_i hfound
      rcases fill_cases hr with ⟨line, r', hfill, hfetched⟩ | ⟨r', hfill, hdrained⟩
      · rw [hfill, ← hfetched.unread]
        have hlt := hfetched.fetches_lt hr
        exact ih hfetched.sound (hfetched.tidy ht) (by omega)
      · rw [hfill]
        simp only
        rcases hfirst : firstNonempty p r.buffer with _ | ⟨start, stop⟩
        · exact takesFirst_takeRest hdrained hfirst
        · have hlt := hdrained.fetches_lt (not_ended_of_not_taken hfirst hfound)
          rw [← hdrained.unread]
          exact ih hdrained.sound (.inr hdrained.after) (by omega)

variable {separator : Text}

theorem readRecord_eq (hlong : 2 ≤ separator.length) (hp : compileEre separator = .ok p) (r : Reader) :
    r.readRecord separator = (.ok (r.readUntilMatch p).1, (r.readUntilMatch p).2) := by
  unfold readRecord
  split
  · exact absurd hlong (by simp)
  · exact absurd hlong (by simp)
  · rw [hp]

theorem readUntilMatch_of_settles (hs : p.Settles) (hr : r.Sound) (ht : r.Tidy) :
    TakesFirst p r.unread (r.readUntilMatch p).1 (r.readUntilMatch p).2 :=
  readUntilMatchLoop_of_settles hs hr ht (fetches_lt_rounds r)

theorem firstNonempty_nil : firstNonempty p [] = none := by
  rcases h : firstNonempty p [] with _ | ⟨start, stop⟩
  · rfl
  · obtain ⟨hlt, hle⟩ := firstNonempty_bounds h
    rw [List.length_nil] at hle
    omega

theorem cuts_of_absent {t : Text} (h : firstNonempty p t = none) : p.cuts t = if t.isEmpty then [] else [(t, [])] := by
  rw [firstNonempty, List.head?_eq_none_iff] at h
  rw [Pattern.cuts, h]
  rfl

theorem take_slice_drop {t : Text} {start stop : Nat} (h : start ≤ stop) :
    t = t.take start ++ Text.slice t start stop ++ t.drop stop := by
  have hdrop : t.drop stop = (t.drop start).drop (stop - start) := by
    rw [List.drop_drop]
    congr 1
    omega
  rw [Text.slice, hdrop, List.append_assoc, List.take_append_drop, List.take_append_drop]

/-- A pattern that settles and rebases is found by any reader where it is found in the whole of the unread text. -/
theorem reads_of_settles_of_rebases (hlong : 2 ≤ separator.length) (hp : compileEre separator = .ok p)
    (hs : p.Settles) (hb : p.Rebases) {n : Nat} (hr : r.Sound) (ht : r.Tidy) (hn : r.unread.length < n) :
    Reads separator r (p.cuts r.unread) := by
  induction n generalizing r with
  | zero => exact absurd hn (Nat.not_lt_zero _)
  | succ n ih =>
    have htakes := readUntilMatch_of_settles hs hr ht
    have hread := readRecord_eq hlong hp r
    rcases hfirst : firstNonempty p r.unread with _ | ⟨start, stop⟩
    · obtain ⟨hrecord, hrest⟩ := htakes.absent hfirst
      rw [cuts_of_absent hfirst]
      rw [hrecord] at hread
      by_cases hnil : r.unread = []
      · rw [if_pos hnil] at hread
        rw [if_pos (List.isEmpty_iff.2 hnil)]
        exact .done hread
      · rw [if_neg hnil] at hread
        rw [if_neg fun h => hnil (List.isEmpty_iff.1 h)]
        refine .more hread (by rw [hrest, List.append_nil, List.append_nil]) ?_
        -- Nothing is left, so the next call is the last one.
        have hlast := ih htakes.sound htakes.tidy (by
          have hpos := List.length_pos_iff.2 hnil
          rw [hrest, List.length_nil]
          omega)
        rw [hrest, cuts_of_absent firstNonempty_nil] at hlast
        exact hlast
    · obtain ⟨hrecord, hrest⟩ := htakes.found hfirst
      obtain ⟨hlt, hle⟩ := firstNonempty_bounds hfirst
      rw [hrecord] at hread
      rw [hb hfirst]
      refine .more hread ?_ ?_
      · rw [hrest]
        exact take_slice_drop (Nat.le_of_lt hlt)
      · rw [← hrest]
        refine ih htakes.sound htakes.tidy ?_
        rw [hrest, List.length_drop]
        omega

theorem TakesFirst.unique {u : Text} {record₁ record₂ : Option Text} {r₁ r₂ : Reader}
    (h₁ : TakesFirst p u record₁ r₁) (h₂ : TakesFirst p u record₂ r₂) :
    record₁ = record₂ ∧ r₁.unread = r₂.unread := by
  rcases hfirst : firstNonempty p u with _ | ⟨start, stop⟩
  · obtain ⟨hrecord₁, hrest₁⟩ := h₁.absent hfirst
    obtain ⟨hrecord₂, hrest₂⟩ := h₂.absent hfirst
    exact ⟨hrecord₁.trans hrecord₂.symm, hrest₁.trans hrest₂.symm⟩
  · obtain ⟨hrecord₁, hrest₁⟩ := h₁.found hfirst
    obtain ⟨hrecord₂, hrest₂⟩ := h₂.found hfirst
    exact ⟨hrecord₁.trans hrecord₂.symm, hrest₁.trans hrest₂.symm⟩

theorem readRecord_takesFirst (hlong : 2 ≤ separator.length) (hp : compileEre separator = .ok p) (hs : p.Settles)
    (hr : r.Sound) (ht : r.Tidy) {record : Option Text} {r' : Reader} (h : r.readRecord separator = (.ok record, r')) :
    TakesFirst p r.unread record r' := by
  rw [readRecord_eq hlong hp] at h
  cases h
  exact readUntilMatch_of_settles hs hr ht

/-- What is read with a pattern that settles depends on nothing but the unread text. -/
theorem Reads.unique (hlong : 2 ≤ separator.length) (hp : compileEre separator = .ok p) (hs : p.Settles)
    {r₁ r₂ : Reader} {pieces₁ pieces₂ : List (Text × Text)} (h₁ : Reads separator r₁ pieces₁)
    (h₂ : Reads separator r₂ pieces₂) (hr₁ : r₁.Sound) (ht₁ : r₁.Tidy) (hr₂ : r₂.Sound) (ht₂ : r₂.Tidy)
    (hunread : r₁.unread = r₂.unread) : pieces₁ = pieces₂ := by
  -- Each of the first reader's calls is matched by a call of the second, with the same answer by `TakesFirst.unique`.
  induction h₁ generalizing r₂ pieces₂ with
  | done h =>
    have htakes₁ := readRecord_takesFirst hlong hp hs hr₁ ht₁ h
    rw [hunread] at htakes₁
    cases h₂ with
    | done _ => rfl
    | more h' =>
      obtain ⟨hrecord, -⟩ := htakes₁.unique (readRecord_takesFirst hlong hp hs hr₂ ht₂ h')
      cases hrecord
  | more h hsep hrest ih =>
    have htakes₁ := readRecord_takesFirst hlong hp hs hr₁ ht₁ h
    rw [hunread] at htakes₁
    cases h₂ with
    | done h' =>
      obtain ⟨hrecord, -⟩ := htakes₁.unique (readRecord_takesFirst hlong hp hs hr₂ ht₂ h')
      cases hrecord
    | more h' hsep' hrest' =>
      have htakes₂ := readRecord_takesFirst hlong hp hs hr₂ ht₂ h'
      obtain ⟨hrecord, hunread'⟩ := htakes₁.unique htakes₂
      cases hrecord
      rw [hunread, hsep', hunread', List.append_cancel_right_eq, List.append_cancel_left_eq] at hsep
      rw [hsep, ih hrest' htakes₁.sound htakes₁.tidy htakes₂.sound htakes₂.tidy hunread']

/-! ### Where a reader stops in whole lines -/

/-- A fetch takes its line from the front of some lines, whatever comes after them. -/
theorem Fetched.next_of_lines {line lines more : Text} {r' : Reader} (h : Fetched r line r')
    (hsource : r.source.unread = lines ++ more) (hlines : Source.WholeLines lines) (hne : lines ≠ []) :
    line = (Source.cutLine lines).1 ∧ r'.source.unread = (Source.cutLine lines).2 ++ more := by
  have hmem : '\n' ∈ lines := by
    rcases hlines with hnil | hlast
    · exact absurd hnil hne
    · exact List.mem_of_getLast? hlast
  have hcut := Source.cutLine_append_of_mem hmem more
  have hline : line = (Source.cutLine lines).1 := by
    rw [h.next, hsource, hcut]
  refine ⟨hline, ?_⟩
  have hrest := h.source
  rw [hsource, hline, ← Source.cutLine_append lines, List.append_assoc] at hrest
  rw [Source.cutLine_append] at hrest
  exact (List.append_cancel_left hrest).symm

private theorem readUntilMatchLoop_found {start stop : Nat} (h : firstNonempty p r.buffer = some (start, stop))
    (hlt : stop < r.buffer.length) (fuel : Nat) :
    readUntilMatchLoop p (fuel + 1) r = (some (r.buffer.take start), ⟨r.buffer.drop stop, r.ended, r.source⟩) := by
  simp only [readUntilMatchLoop, h, Option.filter_some, hlt, decide_true, Bool.true_or, if_true]

private theorem readUntilMatchLoop_fetch {r' : Reader} (hended : r.ended = false)
    (h : ∀ {start stop : Nat}, firstNonempty p r.buffer = some (start, stop) → ¬stop < r.buffer.length)
    (hfill : r.fill = (true, r')) (fuel : Nat) :
    readUntilMatchLoop p (fuel + 1) r = readUntilMatchLoop p fuel r' := by
  have hnone : ((firstNonempty p r.buffer).filter fun found => found.2 < r.buffer.length || r.ended) = none := by
    rw [Option.filter_eq_none_iff]
    rintro ⟨start, stop⟩ hfound
    simp only [hended, Bool.or_false, decide_eq_true_eq]
    exact h hfound
  rw [readUntilMatchLoop]
  simp only [hnone, hfill]

/-- A match that ends before the end of some lines makes a reader stop in these lines, at a place that does not
depend on what comes after them. -/
theorem stops_in_lines {lines : Text} {start stop : Nat} (hfound : firstNonempty p lines = some (start, stop))
    (hlt : stop < lines.length) {n : Nat} {buffer ahead : Text} (happend : lines = buffer ++ ahead)
    (hahead : Source.WholeLines ahead) (hn : ahead.length < n) :
    ∃ start' stop', start' < stop' ∧ stop' ≤ lines.length ∧ ∀ {r : Reader} {more : Text} {fuel : Nat},
      r.Sound → r.buffer = buffer → r.ended = false → r.source.unread = ahead ++ more → fetches r < fuel →
      (readUntilMatchLoop p fuel r).1 = some (lines.take start') ∧
        (readUntilMatchLoop p fuel r).2.unread = lines.drop stop' ++ more := by
  -- The induction is on the lines that the reader has not fetched; `lines` are these and the buffer throughout.
  induction n generalizing buffer ahead with
  | zero => exact absurd hn (Nat.not_lt_zero _)
  | succ n ih =>
    by_cases hstops : ∃ start' stop', firstNonempty p buffer = some (start', stop') ∧ stop' < buffer.length
    · obtain ⟨start', stop', hfound', hlt'⟩ := hstops
      have hbounds := firstNonempty_bounds hfound'
      refine ⟨start', stop', hbounds.1, ?_, ?_⟩
      · rw [happend, List.length_append]
        omega
      · intro r more fuel _ hbuffer _ hsource hfuel
        obtain ⟨fuel, rfl⟩ := Nat.exists_eq_succ_of_ne_zero (show fuel ≠ 0 by omega)
        subst hbuffer
        rw [readUntilMatchLoop_found hfound' hlt']
        refine ⟨?_, ?_⟩
        · rw [happend, List.take_append_of_le_length (by omega)]
        · rw [unread, hsource, happend, List.drop_append_of_le_length (by omega), List.append_assoc]
    · -- The lines ahead are not used up, for in all the lines a match is found.
      have hne : ahead ≠ [] := by
        rintro rfl
        rw [List.append_nil] at happend
        exact hstops ⟨start, stop, happend ▸ hfound, happend ▸ hlt⟩
      have hcut := Source.cutLine_append ahead
      have hshorter : (Source.cutLine ahead).2.length < ahead.length := by
        have hpos := List.length_pos_iff.2 (mt Source.cutLine_fst_eq_nil.1 hne)
        have hlength := congrArg List.length hcut
        rw [List.length_append] at hlength
        omega
      have hrest : Source.WholeLines (Source.cutLine ahead).2 := by
        have hdrop : ahead.drop (Source.cutLine ahead).1.length = (Source.cutLine ahead).2 := by
          nth_rewrite 2 [← hcut]
          exact List.drop_left
        rw [← hdrop]
        exact hahead.drop _
      have happend' : lines = (buffer ++ (Source.cutLine ahead).1) ++ (Source.cutLine ahead).2 := by
        rw [List.append_assoc, hcut]
        exact happend
      obtain ⟨start', stop', hpos, hle, hreads⟩ := ih happend' hrest (by omega)
      refine ⟨start', stop', hpos, hle, ?_⟩
      intro r more fuel hr hbuffer hended hsource hfuel
      obtain ⟨fuel, rfl⟩ := Nat.exists_eq_succ_of_ne_zero (show fuel ≠ 0 by omega)
      rcases fill_cases hr with ⟨line, r', hfill, hfetched⟩ | ⟨r', hfill, hdrained⟩
      · obtain ⟨hline, hsource'⟩ := hfetched.next_of_lines hsource hahead hne
        have hlt := hfetched.fetches_lt hr
        rw [readUntilMatchLoop_fetch hended (fun h hlt => hstops ⟨_, _, hbuffer ▸ h, hbuffer ▸ hlt⟩) hfill]
        exact hreads hfetched.sound (by rw [hfetched.buffer, hbuffer, hline]) hfetched.ended hsource' (by omega)
      · have hnothing := hdrained.before
        rw [hsource, List.append_eq_nil_iff] at hnothing
        exact absurd hnothing.1 hne

/-! ### The patterns that do not notice -/

section Agreement

variable (hlong : 2 ≤ separator.length) (hp : compileEre separator = .ok p)
  (h : ∀ t, Reads separator (ofText t) (p.cuts t))

include hlong hp h

/-- If reading is cutting the whole text, then the place where a reader stops is that of the first match. -/
private theorem firstNonempty_of_reads {t : Text} {start stop : Nat} (hlt : start < stop) (hle : stop ≤ t.length)
    (hrecord : ((ofText t).readUntilMatch p).1 = some (t.take start))
    (hrest : ((ofText t).readUntilMatch p).2.unread = t.drop stop) :
    firstNonempty p t = some (start, stop) := by
  have hread := readRecord_eq hlong hp (ofText t)
  rw [hrecord] at hread
  have hreads := h t
  generalize hcuts : p.cuts t = pieces at hreads
  cases hreads with
  | done hread' =>
    rw [hread] at hread'
    cases hread'
  | more hread' hsep _ =>
    rw [hread] at hread'
    cases hread'
    rw [unread_ofText, hrest] at hsep
    have hlength := congrArg List.length hsep
    simp only [List.length_append, List.length_take, List.length_drop] at hlength
    unfold Pattern.cuts at hcuts
    rcases hspans : p.findAllNonempty t with _ | ⟨⟨start', stop'⟩, spans⟩
    · -- Without a match nothing is taken after the text.
      rw [hspans, cutAtSpans] at hcuts
      split at hcuts
      · cases hcuts
      · simp only [List.cons.injEq, Prod.mk.injEq] at hcuts
        obtain ⟨⟨-, rfl⟩, -⟩ := hcuts
        rw [List.length_nil] at hlength
        omega
    · have hfirst : firstNonempty p t = some (start', stop') := by rw [firstNonempty, hspans, List.head?_cons]
      obtain ⟨hlt', hle'⟩ := firstNonempty_bounds hfirst
      rw [hspans, cutAtSpans] at hcuts
      simp only [Nat.sub_zero, List.cons.injEq, Prod.mk.injEq] at hcuts
      obtain ⟨⟨hrecords, rfl⟩, -⟩ := hcuts
      have hstart := congrArg List.length hrecords
      rw [List.length_take, List.length_take] at hstart
      rw [Text.slice, List.length_take, List.length_drop] at hlength
      rw [hfirst, Option.some.injEq, Prod.mk.injEq]
      omega

theorem settles_of_reads : p.Settles := by
  intro lines start stop hlines hfound hlt more
  obtain ⟨start', stop', hpos, hle, hreads⟩ :=
    stops_in_lines hfound hlt (List.nil_append lines).symm hlines (Nat.lt_succ_self _)
  have hfirst (more : Text) : firstNonempty p (lines ++ more) = some (start', stop') := by
    obtain ⟨hrecord, hrest⟩ := hreads (sound_ofText (lines ++ more)) rfl rfl
      (List.append_nil (lines ++ more)) (fetches_lt_rounds _)
    apply firstNonempty_of_reads hlong hp h hpos
    · rw [List.length_append]
      omega
    · rw [List.take_append_of_le_length (by omega)]
      exact hrecord
    · rw [List.drop_append_of_le_length hle]
      exact hrest
  have hsame := hfirst []
  rw [List.append_nil, hfound] at hsame
  rw [hsame]
  exact hfirst more

theorem rebases_of_reads : p.Rebases := by
  intro t start stop hfound
  have hs : p.Settles := settles_of_reads hlong hp h
  have hreads := h t
  generalize p.cuts t = pieces at hreads
  cases hreads with
  | done hread =>
    have htakes := readRecord_takesFirst hlong hp hs (sound_ofText t) (tidy_ofText t) hread
    rw [unread_ofText] at htakes
    obtain ⟨hrecord, -⟩ := htakes.found hfound
    cases hrecord
  | more hread hsep hrest =>
    have htakes := readRecord_takesFirst hlong hp hs (sound_ofText t) (tidy_ofText t) hread
    rw [unread_ofText] at htakes hsep
    obtain ⟨hrecord, hunread⟩ := htakes.found hfound
    cases hrecord
    have hle := (firstNonempty_bounds hfound).1
    rw [hunread] at hsep
    nth_rewrite 1 [take_slice_drop (t := t) (Nat.le_of_lt hle)] at hsep
    rw [List.append_cancel_right_eq, List.append_cancel_left_eq] at hsep
    rw [hsep]
    congr 1
    exact hrest.unique hlong hp hs (h (t.drop stop)) htakes.sound htakes.tidy (sound_ofText _) (tidy_ofText _)
      (by rw [hunread, unread_ofText])

end Agreement

/-- Reading line by line cuts every text as it is cut when it is there as a whole, each record with what is taken
after it, for those patterns that settle and rebase and for no others. -/
theorem reads_cuts_iff (hlong : 2 ≤ separator.length) (hp : compileEre separator = .ok p) :
    ((∀ t, Reads separator (ofText t) (p.cuts t)) ↔ p.Settles ∧ p.Rebases) ∧
      ∀ t, (p.cuts t).map (·.1) = withoutFinalEmpty (cutSpans 0 t (p.findAllNonempty t)) := by
  refine ⟨⟨?_, ?_⟩, fun t => map_fst_cutAtSpans 0 t _⟩
  · intro h
    exact ⟨settles_of_reads hlong hp h, rebases_of_reads hlong hp h⟩
  · rintro ⟨hs, hb⟩ t
    have hreads := reads_of_settles_of_rebases hlong hp hs hb (sound_ofText t) (tidy_ofText t)
      (Nat.lt_succ_self (ofText t).unread.length)
    rw [unread_ofText] at hreads
    exact hreads

/-- Where one branch reads on in the next line and the other does not, a reader takes the shorter one, for it ends
before the end of the line. -/
theorem reads_shorter_branch :
    ∃ p pieces, compileEre "a\nb|a".toList = .ok p ∧
      Reads "a\nb|a".toList (ofText "xa\nb\ny".toList) pieces ∧
      pieces.map (·.1) = ["x".toList, "\nb\ny".toList] ∧
      withoutFinalEmpty (cutSpans 0 "xa\nb\ny".toList (p.findAllNonempty "xa\nb\ny".toList)) =
        ["x".toList, "\ny".toList] := by
  refine ⟨_, [("x".toList, "a".toList), ("\nb\ny".toList, [])], by rfl, ?_, by rfl, by rfl⟩
  refine .more (by rfl) (by rfl) ?_
  refine .more (by rfl) (by rfl) ?_
  exact .done (by rfl)

def commaAndBlanks : Pattern := .seq (.char (.one ',')) (.seq (.repeat (.char (.one ' ')) 0 none .greedy) .empty)

/-- With two branches of which one begins with the other, the second being longer by a line, and with a separator that
stays in the line and does not ask for the start of the text, which cuts every text. -/
theorem reads_cuts_iff_branches :
    (∃ p, 2 ≤ "a\nb|a".toList.length ∧ compileEre "a\nb|a".toList = .ok p ∧
      ((∀ t, Reads "a\nb|a".toList (ofText t) (p.cuts t)) ↔ p.Settles ∧ p.Rebases) ∧
      ∀ t, (p.cuts t).map (·.1) = withoutFinalEmpty (cutSpans 0 t (p.findAllNonempty t))) ∧
    ∃ p, compileEre ", *".toList = .ok p ∧ ∀ t, Reads ", *".toList (ofText t) (p.cuts t) := by
  refine ⟨⟨_, by decide, by rfl, ?_⟩, commaAndBlanks, by rfl, ?_⟩
  · exact reads_cuts_iff (by decide) (by rfl)
  · have hline : commaAndBlanks.Leaves Pattern.InLine := ⟨rfl, rfl, trivial⟩
    have hstart : commaAndBlanks.Leaves Pattern.Unanchored := ⟨trivial, trivial, trivial⟩
    exact (reads_cuts_iff (by decide) (by rfl)).1.2
      ⟨Pattern.settles_of_inLine hline, Pattern.rebases_of_unanchored hstart⟩

end Reader

end Awk
