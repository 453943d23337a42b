import Awk.Reader

/-!
# Fetching lines

A source, whatever part of its text is at hand, gives out the lines of its unread text one after the other
(`line_fst`, `unread_line`).  A reader that has seen the end of its source has nothing left to fetch (`Sound`); with
this invariant a fetch either moves the next line into the buffer or finds that there is none (`fill_cases`).
-/

namespace Awk

namespace Source

/-- A text of whole lines. -/
def WholeLines (t : Text) : Prop := t = [] ∨ t.getLast? = some '\n'

theorem fst_cutLine_cons (c : Char) (t : Text) :
    (cutLine (c :: t)).1 = c :: if c = '\n' then [] else (cutLine t).1 := by
  rw [cutLine]
  split
  · rfl
  · rfl

theorem cutLine_append_of_mem {a : Text} (h : '\n' ∈ a) (b : Text) :
    cutLine (a ++ b) = ((cutLine a).1, (cutLine a).2 ++ b) := by
  induction a with
  | nil => cases h
  | cons c a ih =>
    rw [List.cons_append]
    unfold cutLine
    split
    · rfl
    · rename_i hc
      have hmem : '\n' ∈ a := by
        rcases List.mem_cons.1 h with h | h
        · exact absurd h.symm hc
        · exact h
      rw [ih hmem]

theorem cutLine_fst_eq_nil {t : Text} : (cutLine t).1 = [] ↔ t = [] := by
  cases t with
  | nil => exact ⟨fun _ => rfl, fun _ => rfl⟩
  | cons c t =>
    rw [fst_cutLine_cons]
    simp

/-- The first line of a text ends with its only newline, or it is all there is and has none. -/
theorem cutLine_cases {t : Text} (h : t ≠ []) :
    (∃ line, (cutLine t).1 = line ++ ['\n'] ∧ '\n' ∉ line) ∨ '\n' ∉ (cutLine t).1 ∧ (cutLine t).2 = [] := by
  induction t with
  | nil => exact absurd rfl h
  | cons c t ih =>
    unfold cutLine
    split
    · rename_i hc
      exact .inl ⟨[], by rw [hc]; rfl, List.not_mem_nil⟩
    · rename_i hc
      by_cases ht : t = []
      · subst ht
        exact .inr ⟨fun hmem => hc (List.mem_singleton.1 hmem).symm, rfl⟩
      rcases ih ht with ⟨line, hline, hinside⟩ | ⟨hinside, hrest⟩
      · exact .inl ⟨c :: line, congrArg (c :: ·) hline, List.not_mem_cons_of_ne_of_not_mem (Ne.symm hc) hinside⟩
      · exact .inr ⟨List.not_mem_cons_of_ne_of_not_mem (Ne.symm hc) hinside, hrest⟩

theorem wholeLines_cutLine (t : Text) : WholeLines (cutLine t).1 ∨ (cutLine t).2 = [] := by
  by_cases ht : t = []
  · rw [ht]
    exact .inr rfl
  rcases cutLine_cases ht with ⟨line, hline, -⟩ | ⟨-, hrest⟩
  · rw [hline]
    exact .inl (.inr List.getLast?_concat)
  · exact .inr hrest

theorem WholeLines.append {a b : Text} (ha : WholeLines a) (hb : WholeLines b) : WholeLines (a ++ b) := by
  rcases hb with rfl | hb
  · rw [List.append_nil]
    exact ha
  · exact .inr (by rw [List.getLast?_append, hb]; rfl)

theorem WholeLines.drop {t : Text} (h : WholeLines t) (n : Nat) : WholeLines (t.drop n) := by
  rcases h with rfl | hlast
  · exact .inl List.drop_nil
  · by_cases hlen : n < t.length
    · refine .inr ?_
      rw [List.getLast?_drop, if_neg (by omega)]
      exact hlast
    · exact .inl (List.drop_eq_nil_of_le (by omega))

/-- The next line of a source is that of its unread text, however much of it is at hand. -/
theorem line_fst (s : Source) : s.line.1 = (cutLine s.unread).1 := by
  unfold line
  split
  · rename_i h
    rw [unread, cutLine_append_of_mem (by simpa using h)]
  · rfl

theorem unread_line (s : Source) : s.line.2.unread = (cutLine s.unread).2 := by
  unfold line
  split
  · rename_i h
    show (cutLine s.pending).2 ++ s.beyond = (cutLine (s.pending ++ s.beyond)).2
    rw [cutLine_append_of_mem (by simpa using h)]
  · simp [unread]

end Source

namespace Reader

/-- A reader that has seen the end has fetched everything. -/
def Sound (r : Reader) : Prop := r.ended = true → r.source.unread = []

variable {r : Reader}

theorem sound_ofSource (s : Source) : (ofSource s).Sound := fun hended => absurd hended Bool.false_ne_true

/-- What is left of the buffer does not matter for what has been fetched. -/
theorem Sound.of_buffer (hr : r.Sound) (buffer : Text) : Sound ⟨buffer, r.ended, r.source⟩ := hr

/-- A reader after a fetch that brought a line. -/
structure Fetched (r : Reader) (line : Text) (r' : Reader) : Prop where
  buffer : r'.buffer = r.buffer ++ line
  nonempty : line ≠ []
  next : line = (Source.cutLine r.source.unread).1
  source : r.source.unread = line ++ r'.source.unread
  ended : r'.ended = false

/-- A reader after a fetch that brought nothing. -/
structure Drained (r r' : Reader) : Prop where
  buffer : r'.buffer = r.buffer
  before : r.source.unread = []
  after : r'.source.unread = []
  ended : r'.ended = true

theorem Fetched.sound {line : Text} {r' : Reader} (h : Fetched r line r') : r'.Sound := by
  intro hended
  rw [h.ended] at hended
  cases hended

theorem Fetched.unread {line : Text} {r' : Reader} (h : Fetched r line r') : r'.unread = r.unread := by
  rw [Reader.unread, Reader.unread, h.buffer, h.source, List.append_assoc]

/-- What is fetched is a whole line, or the last. -/
theorem Fetched.whole {line : Text} {r' : Reader} (h : Fetched r line r') :
    Source.WholeLines line ∨ r'.source.unread = [] := by
  have happend := Source.cutLine_append r.source.unread
  rw [← h.next, h.source] at happend
  rcases Source.wholeLines_cutLine r.source.unread with hwhole | hrest
  · rw [← h.next] at hwhole
    exact .inl hwhole
  · rw [← h.source, hrest, h.source, List.append_cancel_left_eq] at happend
    exact .inr happend.symm

theorem Fetched.length_lt {line : Text} {r' : Reader} (h : Fetched r line r') :
    r'.source.unread.length < r.source.unread.length := by
  have hpos : 0 < line.length := List.length_pos_iff.2 h.nonempty
  rw [h.source, List.length_append]
  omega

theorem Drained.sound {r' : Reader} (h : Drained r r') : r'.Sound := fun _ => h.after

theorem Drained.unread {r' : Reader} (h : Drained r r') : r'.unread = r.unread := by
  rw [Reader.unread, Reader.unread, h.buffer, h.before, h.after]

theorem Drained.unread_eq {r' : Reader} (h : Drained r r') : r.unread = r.buffer := by
  rw [Reader.unread, h.before, List.append_nil]

/-- A fetch brings the next line or finds the end. -/
theorem fill_cases (hr : r.Sound) :
    (∃ line r', r.fill = (true, r') ∧ Fetched r line r') ∨ (∃ r', r.fill = (false, r') ∧ Drained r r') := by
  have happend := Source.line_unread r.source
  have hfst := Source.line_fst r.source
  have hsnd := Source.unread_line r.source
  unfold fill
  by_cases hended : r.ended = true
  · rw [if_pos hended]
    exact .inr ⟨r, rfl, rfl, hr hended, hr hended, hended⟩
  rw [if_neg hended]
  rcases hnext : r.source.line with ⟨line, source⟩
  rw [hnext] at happend hfst hsnd
  simp only at happend hfst hsnd ⊢
  by_cases hline : line = []
  · have hbefore : r.source.unread = [] := Source.cutLine_fst_eq_nil.1 (hfst.symm.trans hline)
    have hafter : source.unread = [] := by
      rw [hsnd, hbefore]
      rfl
    rw [if_pos (List.isEmpty_iff.2 hline)]
    exact .inr ⟨_, rfl, rfl, hbefore, hafter, rfl⟩
  · rw [if_neg (fun h => hline (List.isEmpty_iff.1 h))]
    exact .inl ⟨line, _, rfl, rfl, hline, hfst, happend.symm, rfl⟩

end Reader

end Awk
