import Awk.Proofs.Reader.Cutting
import Awk.Proofs.Reader.Fetching
import Awk.Proofs.Regex.Spans

/-!
# Nothing is lost

Whatever separators a reader is asked for one after the other, each record comes with the text around it off the
front of what was unread (`readRecord_delivers`): what is skipped before the record, the record, the separator and
what is unread afterwards make up what was unread before (`Delivers`).

Each of the loops keeps the unread text as it is while it fetches, so it is enough to see what it does with the
buffer in its last round.
-/

namespace Awk.Reader

/-! ### Where a record lies in the unread text -/

structure EndsAtChar (c : Char) (lead record sep rest : Text) : Prop where
  lead : lead = []
  inside : c ∉ record
  stop : sep = [c] ∨ sep = [] ∧ rest = []

/-- The match is one that is found in some beginning of the text. -/
structure EndsAtMatch (p : Pattern) (u lead record sep rest : Text) : Prop where
  lead : lead = []
  stop :
    sep ≠ [] ∧ (∃ seen, seen <+: u ∧ firstNonempty p seen = some (record.length, record.length + sep.length)) ∨
    sep = [] ∧ rest = [] ∧ firstNonempty p u = none

structure EndsAtBlankLines (u lead record sep rest : Text) : Prop where
  lead : lead = u.takeWhile (· == '\n')
  nonempty : record ≠ []
  head : record.head? ≠ some '\n'
  last : record.getLast? ≠ some '\n'
  inside : ¬HasBlankLine record
  newlines : ∀ c ∈ sep, c = '\n'
  stop : 2 ≤ sep.length ∧ rest.head? ≠ some '\n' ∨ rest = []

def EndsAt (separator u lead record sep rest : Text) : Prop :=
  match separator with
  | [] => EndsAtBlankLines u lead record sep rest
  | [c] => EndsAtChar c lead record sep rest
  | _ => ∃ p, compileEre separator = .ok p ∧ EndsAtMatch p u lead record sep rest

/-- There is no record in what is unread. -/
def Exhausted (separator u : Text) : Prop := u = [] ∨ separator = [] ∧ ∀ c ∈ u, c = '\n'

/-- What a reader may answer when `u` is unread, and what is then still unread. -/
def Delivers (separator u : Text) : Option Text → Text → Prop
  | none, rest => Exhausted separator u ∧ rest = []
  | some record, rest =>
    ¬Exhausted separator u ∧ rest.length < u.length ∧
    ∃ lead sep, u = lead ++ record ++ sep ++ rest ∧ EndsAt separator u lead record sep rest

def WellFormed (separator : Text) : Prop := separator.length ≤ 1 ∨ ∃ p, compileEre separator = .ok p

variable {r : Reader}

theorem lt_rounds (r : Reader) : r.source.unread.length < r.rounds := Nat.lt_add_of_pos_right Nat.two_pos

theorem not_exhausted {separator u : Text} (hu : u ≠ []) (hs : separator ≠ []) : ¬Exhausted separator u := by
  rintro (h | ⟨h, -⟩)
  · exact hu h
  · exact hs h

/-! ### Records that end at a character -/

theorem takeRest_nil (h : r.buffer = []) : r.takeRest = (none, r) := by
  rw [takeRest, if_pos (List.isEmpty_iff.2 h)]

theorem takeRest_cons (h : r.buffer ≠ []) : r.takeRest = (some r.buffer, ⟨[], r.ended, r.source⟩) := by
  rw [takeRest, if_neg fun hnil => h (List.isEmpty_iff.1 hnil)]

/-- A character found in the buffer ends the record there. -/
private theorem delivers_of_cutAt {c : Char} {record rest : Text} (hr : r.Sound)
    (h : Text.cutAt? [c] r.buffer = some (record, rest)) :
    Sound ⟨rest, r.ended, r.source⟩ ∧ Delivers [c] r.unread (some record) (rest ++ r.source.unread) := by
  obtain ⟨hbuffer, hinside⟩ := Text.cutAt?_singleton h
  have hunread : r.unread = record ++ [c] ++ (rest ++ r.source.unread) := by
    rw [unread, hbuffer]
    simp
  refine ⟨hr.of_buffer rest, not_exhausted ?_ (List.cons_ne_nil _ _), ?_, [], [c], hunread, rfl, hinside, .inl rfl⟩
  · rw [hunread]
    simp
  · rw [hunread]
    simp only [List.length_append, List.length_cons, List.length_nil]
    omega

/-- At the end of the source the buffer is the last record, if there is anything in it. -/
private theorem delivers_takeRest {separator : Text} (hseparator : separator ≠ []) {r' : Reader}
    (hdrained : Drained r r') (hends : EndsAt separator r.buffer [] r.buffer [] []) :
    r'.takeRest.2.Sound ∧ Delivers separator r.unread r'.takeRest.1 r'.takeRest.2.unread := by
  rw [hdrained.unread_eq]
  by_cases hnil : r.buffer = []
  · rw [takeRest_nil (hdrained.buffer.trans hnil), hnil]
    refine ⟨hdrained.sound, .inl rfl, ?_⟩
    rw [hdrained.unread, hdrained.unread_eq, hnil]
  · rw [takeRest_cons (hdrained.buffer ▸ hnil), hdrained.buffer]
    have hrest : ([] : Text) ++ r'.source.unread = [] := hdrained.after
    rw [unread, hrest]
    refine ⟨hdrained.sound.of_buffer [], not_exhausted hnil hseparator, List.length_pos_iff.2 hnil, [], [], ?_, hends⟩
    simp

theorem readUntilCharLoop_delivers (c : Char) {fuel : Nat} (hr : r.Sound) (hfuel : r.source.unread.length < fuel) :
    (readUntilCharLoop c fuel r).2.Sound ∧
      Delivers [c] r.unread (readUntilCharLoop c fuel r).1 (readUntilCharLoop c fuel r).2.unread := by
  induction fuel generalizing r with
  | zero => exact absurd hfuel (Nat.not_lt_zero _)
  | succ fuel ih =>
    unfold readUntilCharLoop
    rcases hcut : Text.cutAt? [c] r.buffer with _ | ⟨record, rest⟩
    · rcases fill_cases hr with ⟨line, r', hfill, hfetched⟩ | ⟨r', hfill, hdrained⟩
      · rw [hfill, ← hfetched.unread]
        have hlt := hfetched.length_lt
        exact ih hfetched.sound (by omega)
      · rw [hfill]
        have hinside := Text.cutAt?_singleton_none hcut
        exact delivers_takeRest (List.cons_ne_nil _ _) hdrained ⟨rfl, hinside, .inr ⟨rfl, rfl⟩⟩
    · exact delivers_of_cutAt hr hcut

theorem readLine_delivers (hbuffer : r.buffer = []) :
    r.readLine.2.Sound ∧ Delivers ['\n'] r.unread r.readLine.1 r.readLine.2.unread := by
  have hunread : r.unread = r.source.unread := by rw [unread, hbuffer, List.nil_append]
  have happend := Source.line_unread r.source
  have hfst := Source.line_fst r.source
  have hsnd := Source.unread_line r.source
  rw [hunread]
  unfold readLine
  rcases hnext : r.source.line with ⟨line, source⟩
  rw [hnext] at happend hfst hsnd
  simp only at happend hfst hsnd ⊢
  by_cases hnothing : r.source.unread = []
  · have hline : line = [] := hfst.trans (Source.cutLine_fst_eq_nil.2 hnothing)
    have hrest : source.unread = [] := by
      rw [hsnd, hnothing]
      rfl
    rw [if_pos (List.isEmpty_iff.2 hline)]
    exact ⟨fun _ => hrest, .inl hnothing, hrest⟩
  have hline : line ≠ [] := fun hnil => hnothing (Source.cutLine_fst_eq_nil.1 (hfst.symm.trans hnil))
  rw [if_neg fun hnil => hline (List.isEmpty_iff.1 hnil)]
  have hshorter : source.unread.length < r.source.unread.length := by
    have hpos := List.length_pos_iff.2 hline
    rw [← happend, List.length_append]
    omega
  refine ⟨fun hended => absurd hended Bool.false_ne_true, not_exhausted hnothing (List.cons_ne_nil _ _), hshorter,
    [], ?_⟩
  -- Only the last line of a source may lack its newline, and then nothing is left.
  rcases Source.cutLine_cases hnothing with ⟨record, hrecord, hinside⟩ | ⟨hinside, hrest⟩
  · rw [← hfst] at hrecord
    have hsome : (line.getLast? == some '\n') = true := by
      rw [hrecord, List.getLast?_concat]
      rfl
    rw [if_pos hsome, hrecord, List.dropLast_concat]
    refine ⟨['\n'], ?_, rfl, hinside, .inl rfl⟩
    rw [← happend, hrecord]
    rfl
  · rw [← hfst] at hinside
    have hsome : ¬(line.getLast? == some '\n') = true := by
      rw [beq_iff_eq]
      exact fun hlast => hinside (List.mem_of_getLast? hlast)
    rw [if_neg hsome]
    refine ⟨[], ?_, rfl, hinside, .inr ⟨rfl, hsnd.trans hrest⟩⟩
    rw [List.nil_append, List.append_nil]
    exact happend.symm

theorem readUntilChar_delivers (hr : r.Sound) (c : Char) :
    (r.readUntilChar c).2.Sound ∧ Delivers [c] r.unread (r.readUntilChar c).1 (r.readUntilChar c).2.unread := by
  unfold readUntilChar
  split
  · rename_i h
    simp only [Bool.and_eq_true, decide_eq_true_eq, List.isEmpty_iff] at h
    obtain ⟨⟨rfl, hbuffer⟩, -⟩ := h
    exact readLine_delivers hbuffer
  · exact readUntilCharLoop_delivers c hr (lt_rounds r)

/-! ### Records that end at a match -/

section Match

variable {separator : Text} {p : Pattern}

private theorem endsAt_of_match (hlong : 2 ≤ separator.length) (hp : compileEre separator = .ok p)
    {u lead record sep rest : Text} (h : EndsAtMatch p u lead record sep rest) :
    EndsAt separator u lead record sep rest := by
  rcases separator with _ | ⟨c, _ | ⟨d, separator⟩⟩
  · exact absurd hlong (by simp)
  · exact absurd hlong (by simp)
  · exact ⟨p, hp, h⟩

theorem ne_nil_of_long (hlong : 2 ≤ separator.length) : separator ≠ [] := by
  rintro rfl
  cases hlong

theorem firstNonempty_bounds {t : Text} {start stop : Nat} (h : firstNonempty p t = some (start, stop)) :
    start < stop ∧ stop ≤ t.length :=
  Pattern.mem_findAllNonempty (List.mem_of_head? h)

/-- A match in the buffer ends the record there. -/
private theorem delivers_of_found (hlong : 2 ≤ separator.length) (hp : compileEre separator = .ok p)
    {start stop : Nat} (h : firstNonempty p r.buffer = some (start, stop)) :
    Delivers separator r.unread (some (r.buffer.take start)) (r.buffer.drop stop ++ r.source.unread) := by
  obtain ⟨hlt, hle⟩ := firstNonempty_bounds h
  have hrecord : (r.buffer.take start).length = start := by
    rw [List.length_take]
    omega
  have hsep : ((r.buffer.drop start).take (stop - start)).length = stop - start := by
    rw [List.length_take, List.length_drop]
    omega
  have hbuffer : r.buffer = r.buffer.take start ++ (r.buffer.drop start).take (stop - start) ++ r.buffer.drop stop := by
    have hdrop : r.buffer.drop stop = (r.buffer.drop start).drop (stop - start) := by
      rw [List.drop_drop]
      congr 1
      omega
    rw [hdrop, List.append_assoc, List.take_append_drop, List.take_append_drop]
  have hlength : r.unread.length = r.buffer.length + r.source.unread.length := List.length_append
  refine ⟨not_exhausted ?_ (ne_nil_of_long hlong), ?_, [], (r.buffer.drop start).take (stop - start), ?_,
    endsAt_of_match hlong hp ⟨rfl, .inl ⟨?_, r.buffer, List.prefix_append _ _, ?_⟩⟩⟩
  · intro hnil
    rw [hnil, List.length_nil] at hlength
    omega
  · rw [hlength, List.length_append, List.length_drop]
    omega
  · rw [List.nil_append, ← List.append_assoc, ← hbuffer]
    rfl
  · intro hnil
    rw [hnil, List.length_nil] at hsep
    omega
  · rw [h, hrecord, hsep]
    congr 2
    omega

/-- The fetches that are left, and the one that finds the end. -/
def fetches (r : Reader) : Nat := r.source.unread.length + if r.ended then 0 else 1

theorem fetches_lt_rounds (r : Reader) : fetches r < r.rounds + 1 := by
  rw [fetches, rounds]
  split <;> omega

theorem Fetched.fetches_lt {line : Text} {r' : Reader} (hr : r.Sound) (h : Fetched r line r') :
    fetches r' < fetches r := by
  have hlt := h.length_lt
  have hended : r.ended = false := by
    rw [← Bool.not_eq_true]
    intro hended
    rw [hr hended] at hlt
    exact absurd hlt (Nat.not_lt_zero _)
  rw [fetches, fetches, h.ended, hended]
  exact Nat.add_lt_add_right hlt _

theorem Drained.fetches_lt {r' : Reader} (h : Drained r r') (hended : r.ended = false) :
    fetches r' < fetches r := by
  rw [fetches, fetches, h.after, h.before, h.ended, hended]
  exact Nat.lt_add_one _

theorem not_ended_of_not_taken {start stop : Nat} (hfirst : firstNonempty p r.buffer = some (start, stop))
    (h : ((firstNonempty p r.buffer).filter fun found => found.2 < r.buffer.length || r.ended) = none) :
    r.ended = false := by
  rw [hfirst, Option.filter_eq_none_iff] at h
  have hnot := h (start, stop) rfl
  simp only [Bool.or_eq_true, not_or, Bool.not_eq_true] at hnot
  exact hnot.2

theorem readUntilMatchLoop_delivers (hlong : 2 ≤ separator.length) (hp : compileEre separator = .ok p) {fuel : Nat}
    (hr : r.Sound) (hfuel : fetches r < fuel) :
    (readUntilMatchLoop p fuel r).2.Sound ∧
      Delivers separator r.unread (readUntilMatchLoop p fuel r).1 (readUntilMatchLoop p fuel r).2.unread := by
  induction fuel generalizing r with
  | zero => exact absurd hfuel (Nat.not_lt_zero _)
  | succ fuel ih =>
    unfold readUntilMatchLoop
    simp only
    split
    · rename_i start stop hfound
      rw [Option.filter_eq_some_iff] at hfound
      exact ⟨hr.of_buffer _, delivers_of_found hlong hp hfound.1⟩
    · rename_i hfound
      rcases fill_cases hr with ⟨line, r', hfill, hfetched⟩ | ⟨r', hfill, hdrained⟩
      · rw [hfill, ← hfetched.unread]
        have hlt := hfetched.fetches_lt hr
        exact ih hfetched.sound (by omega)
      · rw [hfill]
        simp only
        rcases hfirst : firstNonempty p r.buffer with _ | ⟨start, stop⟩
        · have hends : EndsAt separator r.buffer [] r.buffer [] [] :=
            endsAt_of_match hlong hp ⟨rfl, .inr ⟨rfl, rfl, hfirst⟩⟩
          exact delivers_takeRest (ne_nil_of_long hlong) hdrained hends
        · -- The match touches the end of the buffer; the next round takes it, for the end has been seen by then.
          have hlt := hdrained.fetches_lt (not_ended_of_not_taken hfirst hfound)
          rw [← hdrained.unread]
          exact ih hdrained.sound (by omega)

end Match

/-! ### Paragraphs -/

private theorem isNil_of_not {t : Text} (h : ¬(!t.isEmpty) = true) : t = [] := by
  simpa using h

/-- Leading newlines go, however many lines they take, and the buffer begins with what comes after them. -/
theorem skipNewlines_spec {fuel : Nat} (hr : r.Sound) (hfuel : r.source.unread.length < fuel) :
    (skipNewlines fuel r).Sound ∧ (skipNewlines fuel r).unread = r.unread.dropWhile (· == '\n') ∧
      ((skipNewlines fuel r).buffer = [] → (skipNewlines fuel r).source.unread = []) ∧
      (skipNewlines fuel r).buffer.head? ≠ some '\n' := by
  induction fuel generalizing r with
  | zero => exact absurd hfuel (Nat.not_lt_zero _)
  | succ fuel ih =>
    unfold skipNewlines
    simp only
    split
    · rename_i hsome
      refine ⟨hr.of_buffer _, ?_, ?_, Text.head?_dropWhile_ne _ _⟩
      · rw [unread, unread, List.dropWhile_append, if_neg (by simpa using hsome)]
      · intro hnil
        rw [List.isEmpty_iff.2 hnil] at hsome
        cases hsome
    · -- The buffer holds newlines only: it goes as a whole, and so may what the next line begins with.
      rename_i hnone
      have hnil := isNil_of_not hnone
      have hdrop : r.unread.dropWhile (· == '\n') = r.source.unread.dropWhile (· == '\n') := by
        rw [unread, List.dropWhile_append, if_pos (by rw [hnil]; rfl)]
      rw [hnil, hdrop]
      have hsound : Sound ⟨[], r.ended, r.source⟩ := hr.of_buffer []
      rcases fill_cases hsound with ⟨line, r', hfill, hfetched⟩ | ⟨r', hfill, hdrained⟩
      · rw [hfill]
        have hlt : r'.source.unread.length < r.source.unread.length := hfetched.length_lt
        have hunread : r'.unread = r.source.unread := hfetched.unread
        rw [← hunread]
        exact ih hfetched.sound (by omega)
      · rw [hfill]
        have hbefore : r.source.unread = [] := hdrained.before
        refine ⟨hdrained.sound, ?_, fun _ => hdrained.after, ?_⟩
        · rw [hdrained.unread, hbefore]
          exact hbefore
        · rw [hdrained.buffer]
          simp

/-- A paragraph without what stands before it: the buffer begins with it. -/
private structure Paragraph (u record sep rest : Text) : Prop where
  unread : u = record ++ sep ++ rest
  nonempty : record ≠ []
  head : record.head? ≠ some '\n'
  last : record.getLast? ≠ some '\n'
  inside : ¬HasBlankLine record
  newlines : ∀ c ∈ sep, c = '\n'
  stop : 2 ≤ sep.length ∧ rest.head? ≠ some '\n' ∨ rest = []

/-- A record that is a beginning of the buffer begins as the buffer does. -/
private theorem begins {record rest : Text} (hrecord : record ≠ []) :
    (record ++ rest).head? = record.head? := by
  rcases record with _ | ⟨c, record⟩
  · exact absurd rfl hrecord
  · rfl

/-- A buffer of newlines alone does not begin with anything else. -/
private theorem ne_nil_of_head {record sep : Text} (hbuffer : record ++ sep ≠ []) (hsep : ∀ c ∈ sep, c = '\n')
    (hhead : (record ++ sep).head? ≠ some '\n') : record ≠ [] := by
  rintro rfl
  rcases sep with _ | ⟨c, sep⟩
  · exact hbuffer rfl
  · exact hhead (by rw [List.nil_append, hsep c List.mem_cons_self]; rfl)

private theorem paragraph_of_cut {record rest : Text} (hr : r.Sound) (hhead : r.buffer.head? ≠ some '\n')
    (hcut : cutBlankLines r.buffer = some (record, rest)) (hcertain : rest ≠ [] ∨ r.ended = true) :
    ∃ sep, Paragraph r.unread record sep (rest ++ r.source.unread) := by
  obtain ⟨sep, hbuffer, hsep, hlen, hrest, hinside, hlast⟩ := cutBlankLines_some hcut
  have hnonempty : record ≠ [] := by
    rintro rfl
    obtain ⟨c, sep', rfl⟩ := List.exists_cons_of_length_pos (show 0 < sep.length by omega)
    rw [hbuffer, hsep c List.mem_cons_self] at hhead
    exact hhead rfl
  refine ⟨sep, ?_, hnonempty, ?_, hlast, hinside, hsep, .inl ⟨hlen, ?_⟩⟩
  · rw [unread, hbuffer, List.append_assoc]
  · rw [hbuffer, List.append_assoc, begins hnonempty] at hhead
    exact hhead
  · rcases hcertain with hmore | hended
    · rw [begins hmore]
      exact hrest
    · rw [hr hended, List.append_nil]
      exact hrest

/-- At the end of the source the buffer without its newlines is the last paragraph. -/
private theorem paragraph_of_rest {r' : Reader} (hdrained : Drained r r') (hnonempty : r.buffer ≠ [])
    (hhead : r.buffer.head? ≠ some '\n')
    (hcut : ∀ record rest, cutBlankLines r.buffer = some (record, rest) → rest = []) :
    ∃ sep, Paragraph r.unread (Text.trimRight (· == '\n') r'.buffer) sep ([] ++ r'.source.unread) := by
  rw [hdrained.buffer, hdrained.unread_eq, hdrained.after]
  obtain ⟨sep, hbuffer, hsep⟩ := Text.trimRight_append (· == '\n') r.buffer
  have hnewlines : ∀ c ∈ sep, c = '\n' := fun c hc => by simpa using hsep c hc
  have hrecord : Text.trimRight (· == '\n') r.buffer ≠ [] := by
    rw [hbuffer] at hnonempty hhead
    exact ne_nil_of_head hnonempty hnewlines hhead
  refine ⟨sep, by rw [List.append_nil, List.append_nil]; exact hbuffer, hrecord, ?_, ?_, ?_, hnewlines, .inr rfl⟩
  · rw [hbuffer, begins hrecord] at hhead
    exact hhead
  · intro hlast
    have hnot := Text.getLast?_trimRight hlast
    cases hnot
  · -- A blank line inside the record would have ended it, unless it is in the newlines at the end of the buffer.
    intro hblank
    rcases hfound : cutBlankLines r.buffer with _ | ⟨record, rest⟩
    · exact cutBlankLines_none hfound (hblank.of_infix (List.rdropWhile_prefix _ _).isInfix)
    · obtain ⟨run, hsplit, hrun, -, -, hinside, -⟩ := cutBlankLines_some hfound
      rw [hcut record rest hfound, List.append_nil] at hsplit
      rw [hsplit, Text.trimRight_append_of_forall record (fun c hc => by simpa using hrun c hc)] at hblank
      exact hinside (hblank.of_infix (List.rdropWhile_prefix _ _).isInfix)

theorem readParagraphLoop_spec {fuel : Nat} (hr : r.Sound) (hnonempty : r.buffer ≠ [])
    (hhead : r.buffer.head? ≠ some '\n') (hfuel : r.source.unread.length < fuel) :
    (readParagraphLoop fuel r).2.Sound ∧ ∃ record sep, (readParagraphLoop fuel r).1 = some record ∧
      Paragraph r.unread record sep (readParagraphLoop fuel r).2.unread := by
  induction fuel generalizing r with
  | zero => exact absurd hfuel (Nat.not_lt_zero _)
  | succ fuel ih =>
    unfold readParagraphLoop
    split
    · rename_i record rest hcut
      rw [Option.filter_eq_some_iff] at hcut
      obtain ⟨hcut, hcertain⟩ := hcut
      simp only [Bool.or_eq_true, Bool.not_eq_true', List.isEmpty_eq_false_iff] at hcertain
      obtain ⟨sep, hparagraph⟩ := paragraph_of_cut hr hhead hcut hcertain
      exact ⟨hr.of_buffer rest, record, sep, rfl, hparagraph⟩
    · rename_i hcut
      rcases fill_cases hr with ⟨line, r', hfill, hfetched⟩ | ⟨r', hfill, hdrained⟩
      · rw [hfill, ← hfetched.unread]
        have hlt := hfetched.length_lt
        -- What is fetched goes to the end of the buffer, which begins as before.
        refine ih hfetched.sound ?_ ?_ (by omega)
        · rw [hfetched.buffer]
          exact fun hnil => hnonempty (List.append_eq_nil_iff.1 hnil).1
        · rw [hfetched.buffer, begins hnonempty]
          exact hhead
      · rw [hfill]
        have hall : ∀ record rest, cutBlankLines r.buffer = some (record, rest) → rest = [] := by
          intro record rest hfound
          rw [hfound, Option.filter_eq_none_iff] at hcut
          have hnot := hcut (record, rest) rfl
          simp only [Bool.or_eq_true, not_or, Bool.not_eq_true, Bool.not_eq_false', List.isEmpty_iff] at hnot
          exact hnot.1
        obtain ⟨sep, hparagraph⟩ := paragraph_of_rest hdrained hnonempty hhead hall
        exact ⟨hdrained.sound.of_buffer [], _, sep, rfl, hparagraph⟩

theorem readParagraph_delivers (hr : r.Sound) :
    r.readParagraph.2.Sound ∧ Delivers [] r.unread r.readParagraph.1 r.readParagraph.2.unread := by
  obtain ⟨hsound, hunread, hdone, hhead⟩ := skipNewlines_spec hr (lt_rounds r)
  unfold readParagraph
  simp only
  split
  · rename_i hnil
    rw [List.isEmpty_iff] at hnil
    have hnothing : (skipNewlines r.rounds r).unread = [] := by
      rw [unread, hnil, hdone hnil]
      rfl
    refine ⟨hsound, .inr ⟨rfl, ?_⟩, hnothing⟩
    rw [hnothing] at hunread
    exact Text.dropWhile_eq_nil.1 hunread.symm
  · rename_i hsome
    rw [List.isEmpty_iff] at hsome
    obtain ⟨hsound', record, sep, hrecord, hparagraph⟩ :=
      readParagraphLoop_spec hsound hsome hhead (lt_rounds (skipNewlines r.rounds r))
    rw [hrecord]
    have hlead : r.unread = r.unread.takeWhile (· == '\n') ++ (skipNewlines r.rounds r).unread := by
      rw [hunread, List.takeWhile_append_dropWhile]
    have hlength := congrArg List.length hlead
    have hrest := congrArg List.length hparagraph.unread
    have hpos := List.length_pos_iff.2 hparagraph.nonempty
    simp only [List.length_append] at hlength hrest
    refine ⟨hsound', ?_, by omega, r.unread.takeWhile (· == '\n'), sep, ?_, rfl, hparagraph.nonempty,
      hparagraph.head, hparagraph.last, hparagraph.inside, hparagraph.newlines, hparagraph.stop⟩
    · rintro (hnil | ⟨-, hall⟩)
      · rw [hnil, List.length_nil] at hlength
        omega
      · rw [Text.dropWhile_eq_nil.2 hall] at hunread
        rw [hunread, List.length_nil] at hrest
        omega
    · rw [List.append_assoc, List.append_assoc, ← List.append_assoc record, ← hparagraph.unread]
      exact hlead

/-! ### Any record -/

/-- A separator that does not compile leaves the reader as it is. -/
theorem readRecord_of_not_wellFormed {separator : Text} (h : ¬WellFormed separator) :
    (r.readRecord separator).2 = r := by
  unfold readRecord
  split
  · exact absurd (.inl (by simp)) h
  · exact absurd (.inl (by simp)) h
  · split
    · rfl
    · rename_i p hp
      exact absurd (.inr ⟨p, hp⟩) h

/-- One call, from any reader that may arise. -/
theorem readRecord_spec (hr : r.Sound) (separator : Text) :
    (r.readRecord separator).2.Sound ∧ (WellFormed separator → ∃ record,
      (r.readRecord separator).1 = .ok record ∧ Delivers separator r.unread record (r.readRecord separator).2.unread) := by
  unfold readRecord
  split
  · obtain ⟨hsound, hdelivers⟩ := readParagraph_delivers hr
    exact ⟨hsound, fun _ => ⟨_, rfl, hdelivers⟩⟩
  · rename_i c
    obtain ⟨hsound, hdelivers⟩ := readUntilChar_delivers hr c
    exact ⟨hsound, fun _ => ⟨_, rfl, hdelivers⟩⟩
  · rename_i hempty hsingle
    have hlong : 2 ≤ separator.length := by
      rcases separator with _ | ⟨c, _ | ⟨d, separator⟩⟩
      · exact absurd rfl hempty
      · exact absurd rfl (hsingle c)
      · simp
    rcases hp : compileEre separator with fault | p
    · refine ⟨hr, ?_⟩
      rintro (hshort | ⟨p, hp'⟩)
      · omega
      · rw [hp] at hp'
        cases hp'
    · obtain ⟨hsound, hdelivers⟩ :=
        readUntilMatchLoop_delivers hlong hp hr (fetches_lt_rounds r)
      exact ⟨hsound, fun _ => ⟨_, rfl, hdelivers⟩⟩

/-- The reader after a call for each of the separators, whether or not it gave a record. -/
def after (r : Reader) (separators : List Text) : Reader :=
  separators.foldl (fun r separator => (r.readRecord separator).2) r

theorem sound_after (hr : r.Sound) (separators : List Text) : (r.after separators).Sound := by
  induction separators generalizing r with
  | nil => exact hr
  | cons separator separators ih => exact ih (readRecord_spec hr separator).1

theorem Delivers.suffix {separator u rest : Text} {record : Option Text} (h : Delivers separator u record rest) :
    rest <:+ u := by
  cases record with
  | none =>
    rw [h.2]
    exact List.nil_suffix
  | some record =>
    obtain ⟨-, -, lead, sep, hu, -⟩ := h
    exact ⟨lead ++ record ++ sep, hu.symm⟩

/-- What is unread is the end of what was unread, also after a call that failed. -/
theorem unread_after_suffix (hr : r.Sound) (separators : List Text) :
    (r.after separators).unread <:+ r.unread := by
  induction separators generalizing r with
  | nil => exact List.suffix_rfl
  | cons separator separators ih =>
    obtain ⟨hsound, hdelivers⟩ := readRecord_spec hr separator
    refine (ih hsound).trans ?_
    by_cases hwell : WellFormed separator
    · obtain ⟨record, -, hdelivers⟩ := hdelivers hwell
      exact hdelivers.suffix
    · have hstays := congrArg unread (readRecord_of_not_wellFormed (r := r) hwell)
      exact ⟨[], hstays⟩

/-- Whatever was read before and with whatever separators, what is unread is an end of the text, and a call takes a
record with its surroundings off the front of it, or finds that there is none. -/
theorem readRecord_delivers (s : Source) (before : List Text) {separator : Text} (h : WellFormed separator) :
    ((ofSource s).after before).unread <:+ s.unread ∧
    ∃ record, (((ofSource s).after before).readRecord separator).1 = .ok record ∧
      Delivers separator ((ofSource s).after before).unread record
        (((ofSource s).after before).readRecord separator).2.unread :=
  ⟨unread_after_suffix (sound_ofSource s) before,
    (readRecord_spec (sound_after (sound_ofSource s) before) separator).2 h⟩

/-- A line, then a paragraph, then a record that ends at a match across the end of a line. -/
theorem readRecord_delivers_mixed :
    let r := (ofText "a\n\n\nx\n\nyb\n\nc".toList).after [['\n'], []]
    WellFormed "b\\n+".toList ∧
      r.unread <:+ (Source.ofText "a\n\n\nx\n\nyb\n\nc".toList).unread ∧
      ∃ record, (r.readRecord "b\\n+".toList).1 = .ok record ∧
        Delivers "b\\n+".toList r.unread record (r.readRecord "b\\n+".toList).2.unread := by
  intro r
  have h : WellFormed "b\\n+".toList := .inr ⟨_, by rfl⟩
  exact ⟨h, readRecord_delivers (.ofText "a\n\n\nx\n\nyb\n\nc".toList) [['\n'], []] h⟩

end Awk.Reader
