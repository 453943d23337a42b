import Awk.Proofs.Syntax.Layout.Program

/-!
# Text put between tokens

What is passed over between tokens may be put into a program text wherever it is passed over
(`parseProgram_of_insertable`), and newlines behind every token that opens something (`parseProgram_of_newlines`).  The
program stays the same, its places forgotten.
-/

namespace Awk

/-! ### Places -/

/-- Places behind an offset are moved on, with the lines and columns of the new text. -/
def Placement.insertion (source : Text) (offset count : Nat) : Placement where
  span place :=
    let start := if place.start < offset then place.start else place.start + count
    let cursor := (Cursor.ofText source).advance start
    ⟨cursor.line, cursor.column, start, if place.stop ≤ offset then place.stop else place.stop + count⟩
  stop n := if n ≤ offset then n else n + count
  monotone m n h := by
    dsimp only
    split <;> split <;> omega
  span_stop _ _ := rfl

namespace Cursor

variable {source source' before y w : Text} {c c' : Cursor} {offset count : Nat}

/-- In front of the offset nothing is moved. -/
theorem still_insertion (before y w : Text) :
    Still (Placement.insertion (before ++ w) before.length count).span before y w (ofText (before ++ y))
      (ofText (before ++ w)) := by
  refine ⟨rfl, rfl, fun {n length} hpos hle => ?_⟩
  have hoffset : ((ofText (before ++ y)).advance n).offset = n := by
    rw [advance_offset (by simp [ofText]; omega)]
    exact Nat.zero_add n
  have hadvance : (ofText (before ++ w)).advance n =
      { (ofText (before ++ y)).advance n with rest := before.drop n ++ w } :=
    advance_with (c := ofText (before ++ y)) rfl (by omega)
  simp only [Placement.insertion, span, hoffset]
  rw [if_pos (by omega), if_pos hle, hadvance]

theorem Still.eq_changed {place : Span → Span} {u : Text} (h : Still place u y w c c') (hrest : c.rest = y) :
    c' = { c with rest := w } := by
  obtain rfl : u = [] := List.append_left_eq_self.1 (h.rest.symm.trans hrest)
  exact h.eq

/-- Behind it, everything is. -/
theorem moved_insertion (h' : Within source' c') (hrest : c'.rest = c.rest)
    (hle : offset ≤ c.offset) (hcount : c'.offset = c.offset + count) :
    Moved (Placement.insertion source' offset count).span c c' := by
  refine ⟨hrest, fun {n length} hpos hlength => ?_⟩
  have hoffset : (c.advance n).offset = c.offset + n := advance_offset (by omega)
  have hoffset' : (c'.advance n).offset = c.offset + n + count := by
    rw [advance_offset (by rw [hrest]; omega), hcount]
    omega
  have hadvance : (ofText source').advance (c.offset + n + count) = c'.advance n := by
    rw [Nat.add_right_comm, advance_add, ← hcount, ← h'.eq]
  simp only [Placement.insertion, span, hoffset]
  rw [if_neg (by omega), if_neg (by omega), hadvance, hoffset']
  congr 1
  omega

/-- A place in front of which nothing is changed. -/
theorem within_changed (h : Within (before ++ y) c) (hoffset : c.offset = before.length) (w : Text) :
    Within (before ++ w) { c with rest := w } := by
  have hadvance : (ofText (before ++ w)).advance before.length =
      { (ofText (before ++ y)).advance before.length with rest := before.drop before.length ++ w } :=
    advance_with (c := ofText (before ++ y)) rfl (Nat.le_refl _)
  refine ⟨by simp [hoffset], ?_⟩
  conv_lhs => rw [h.eq, hoffset]
  rw [hoffset, hadvance, List.drop_length, List.nil_append]

theorem Within.offset_eq (h : Within (before ++ y) c) (hrest : c.rest = y) : c.offset = before.length := by
  have hlength := congrArg List.length h.rest
  have hle := h.le
  rw [hrest, List.length_drop] at hlength
  rw [List.length_append] at hlength hle
  omega

/-- What has been moved is read as before. -/
theorem moved_changed (h : Within (before ++ y) c) (hrest : c.rest = y) {n : Nat} (hn : n ≤ y.length)
    (hdrop : w.drop (n + count) = y.drop n) (hcount : n + count ≤ w.length) :
    Moved (Placement.insertion (before ++ w) before.length count).span (c.advance n)
      (({ c with rest := w } : Cursor).advance (n + count)) := by
  have hoffset := h.offset_eq hrest
  have hoffset' : (c.advance n).offset = c.offset + n := advance_offset (by rw [hrest]; exact hn)
  refine moved_insertion ((within_changed h hoffset w).advance hcount) ?_ (by omega) ?_
  · rw [advance_rest, advance_rest, hrest, hdrop]
  · rw [advance_offset hcount, hoffset', Nat.add_assoc]

theorem skipBlanks_of_passed {comment : Bool} {g t : Text} (hrest : c.rest = g ++ t)
    (h : Lexeme.Passed false g comment) : c.skipBlanks = c.advance (g.length + Lexeme.blankLength comment t) := by
  rw [skipBlanks, hrest, h.blankLength]

theorem newlines_replicate {n : Nat} (h : c.rest = List.replicate n '\n' ++ y) : c.Newlines (c.advance n) := by
  induction n generalizing c with
  | zero => exact .refl
  | succ n ih =>
    rw [List.replicate_succ, List.cons_append] at h
    have hskip := skipBlanks_newline h
    rw [Nat.add_comm, advance_add]
    refine .step (token_newline (hskip.symm ▸ h)) rfl ?_
    rw [hskip]
    exact ih (by rw [advance_rest, h]; rfl)

end Cursor

/-! ### A text in two parts -/

/-- The parser takes some tokens of a program text in front of a place and the others behind it.  Which tokens they are
is told by the operands of the program (`Cursor.Covers.unique`). -/
structure Parted (source : Text) (p : Program) (taken left : List Token) (middle : Cursor) : Prop where
  parsed : parseProgram source = .ok p
  front : (Cursor.ofText source).Covers taken middle
  back : ∃ stop, middle.Covers left stop ∧ stop.AtEnd
  operands : operandsOf p.outline.leaves = operandsOf (taken ++ left)

/-- Take as many tokens as there are flags.  The flags tell which of them are regular expressions. -/
def Cursor.taken? : List Bool → Cursor → Option (List Token × Cursor)
  | [], c => some ([], c)
  | false :: flags, c =>
    match c.token with
    | .ok (token, behind) =>
      if token.kind = .eof then none else (behind.taken? flags).map (Prod.map (token :: ·) id)
    | .error _ => none
  | true :: flags, c =>
    match c.token, c.regex with
    | .ok (slash, _), .ok (token, behind) =>
      if slash.kind = .slash ∨ slash.kind = .divAssign then (behind.taken? flags).map (Prod.map (token :: ·) id)
      else none
    | _, _ => none

theorem Cursor.covers_of_taken? {flags : List Bool} {c stop : Cursor} {tokens : List Token}
    (h : c.taken? flags = some (tokens, stop)) : c.Covers tokens stop := by
  induction flags generalizing c tokens with
  | nil =>
    cases h
    exact .nil
  | cons regex flags ih =>
    cases regex with
    | false =>
      rw [taken?] at h
      split at h
      · rename_i token behind htoken
        split at h
        · cases h
        · rename_i hend
          obtain ⟨⟨more, stop⟩, hmore, heq⟩ := Option.map_eq_some_iff.1 h
          cases heq
          exact .token htoken hend (ih hmore)
      · cases h
    | true =>
      rw [taken?] at h
      split at h
      · rename_i slash after token behind hslash hregex
        split at h
        · rename_i hkind
          obtain ⟨⟨more, stop⟩, hmore, heq⟩ := Option.map_eq_some_iff.1 h
          cases heq
          exact .regex hslash hkind hregex (ih hmore)
        · cases h
      · cases h

/-- Cut a program text behind some of its tokens. -/
def parted? (source : Text) (front back : List Bool) : Option (Program × List Token × List Token × Cursor) :=
  match parseProgram source, (Cursor.ofText source).taken? front with
  | .ok p, some (taken, middle) =>
    match middle.taken? back with
    | some (left, stop) =>
      match stop.token with
      | .ok (last, _) =>
        if last.kind = .eof ∧ operandsOf p.outline.leaves = operandsOf (taken ++ left) then some (p, taken, left, middle)
        else none
      | .error _ => none
    | none => none
  | _, _ => none

theorem parted_of_parted? {source : Text} {front back : List Bool} {p : Program} {taken left : List Token}
    {middle : Cursor} (h : parted? source front back = some (p, taken, left, middle)) :
    Parted source p taken left middle := by
  unfold parted? at h
  split at h
  · rename_i p taken middle hparse hfront
    split at h
    · rename_i left stop hback
      split at h
      · rename_i last behind hlast
        split at h
        · rename_i hend
          cases h
          exact ⟨hparse, Cursor.covers_of_taken? hfront,
            ⟨stop, Cursor.covers_of_taken? hback, last, behind, hlast, hend.1⟩, hend.2⟩
        · cases h
      · cases h
    · cases h
  · cases h

namespace Parted

variable {before y w : Text} {p : Program} {taken left : List Token} {middle : Cursor}

/-- The text behind the place may be changed if that leaves a walk along the tokens. -/
theorem exists_program (count : Nat) (h : Parted (before ++ y) p taken left middle) (hle : y.length ≤ w.length)
    (hwalk : ∀ {marked rest : List Taken}, marked.map Taken.token = taken → rest.map Taken.token = left →
      Parser.Leads (p.items.map Item.outline) p.governed (marked ++ rest) →
        Cursor.Walk (.insertion (before ++ w) before.length count) Cursor.Ends (marked ++ rest)
          (.ofText (before ++ y)) (.ofText (before ++ w))) :
    ∃ p', parseProgram (before ++ w) = .ok p' ∧ p'.bare = p.bare := by
  obtain ⟨stop, hback, hend⟩ := h.back
  have hlength : (before ++ y).length ≤ (before ++ w).length := by
    rw [List.length_append, List.length_append]
    omega
  obtain ⟨p', hparse, hitems⟩ := Parser.exists_parseProgram_of_follows h.parsed hlength
    fun {path stop'} hleads hcovers hend' => by
      have hcarries : operandsOf (path.map Taken.token) = operandsOf (taken ++ left) := by
        rw [← h.operands, ← hleads.carries, Program.outline, Outline.leaves_node]
      obtain ⟨heq, -⟩ := hcovers.unique (h.front.append hback) hend' hend hcarries
      obtain ⟨marked, rest, rfl, hmarked, hrest⟩ := List.map_eq_append_iff.1 heq
      exact hwalk hmarked hrest hleads
  exact ⟨p', hparse, Program.bare_eq_of_items _ hitems⟩

end Parted

/-! ### Blanks and comments -/

namespace Lexeme

/-- What may be put between tokens in front of `after`, inside a comment or outside.  A comment may begin at the end of
a line, and there a line may be continued that ends with a comment. -/
inductive Insertable : Bool → Text → Text → Prop
  | passed {comment ins comment' after} (h : Passed comment ins comment')
    (hline : comment' = comment ∨ ∀ c ∈ after.head?, c = '\n') : Insertable comment ins after
  | broken {body ins comment after} (hbody : '\n' ∉ body) (h : Passed false ins comment)
    (hline : ∀ c ∈ after.head?, c = '\n') : Insertable true (body ++ '\n' :: ins) after

variable {comment comment' : Bool} {gap ins after : Text}

theorem blankLength_line_end (h : ∀ c ∈ after.head?, c = '\n') (comment : Bool) : blankLength comment after = 0 := by
  cases after with
  | nil => rfl
  | cons c t => rw [h c rfl, blankLength_newline]

theorem Passed.of_notMem {body : Text} (h : '\n' ∉ body) : Passed true body true := by
  induction body with
  | nil => exact .nil
  | cons c body ih =>
    rw [List.mem_cons, not_or] at h
    exact .body (Ne.symm h.1) (ih h.2)

theorem Insertable.breaks (h : Insertable comment ins after) (hgap : Passed false gap comment) (hne : ins ≠ [])
    (t : Text) : Breaks (gap ++ (ins ++ t)) := by
  rcases eq_or_ne gap [] with rfl | hgap'
  · cases hgap
    cases h with
    | passed h => exact h.breaks hne t
  · exact hgap.breaks hgap' _

end Lexeme

namespace Cursor

open Lexeme

variable {source' gap ins after : Text} {comment : Bool} {middle c' : Cursor}

/-- What is passed over is still passed over with more of it.  A newline is added if a line is broken. -/
theorem exists_newlines (hmiddle : middle.rest = gap ++ after) (hgap : Passed false gap comment)
    (hins : Insertable comment ins after) (hrest : c'.rest = gap ++ (ins ++ after)) :
    ∃ stop n, c'.Newlines stop ∧ (stop = c' ∨ ∀ c ∈ middle.skipBlanks.rest.head?, c = '\n') ∧ n ≤ after.length ∧
      middle.skipBlanks = middle.advance (gap.length + n) ∧
      stop.skipBlanks = c'.advance (gap.length + n + ins.length) := by
  cases hins with
  | @passed comment _ comment' _ h hline =>
    have hcomment : blankLength comment' after = blankLength comment after := by
      rcases hline with rfl | hline
      · rfl
      · rw [blankLength_line_end hline, blankLength_line_end hline]
    refine ⟨c', blankLength comment after, .refl, .inl rfl, blankLength_le _ _, skipBlanks_of_passed hmiddle hgap, ?_⟩
    rw [← List.append_assoc] at hrest
    rw [skipBlanks_of_passed hrest (hgap.append h), List.length_append, hcomment, Nat.add_right_comm]
  | @broken body more comment' _ hbody h hline =>
    have hmiddle' := skipBlanks_of_passed hmiddle hgap
    rw [blankLength_line_end hline] at hmiddle'
    -- The comment ends in front of the line end that has been put in.
    have hskip : c'.skipBlanks = c'.advance (gap ++ body).length := by
      have hrest' : c'.rest = (gap ++ body) ++ '\n' :: (more ++ after) := by rw [hrest]; simp
      rw [skipBlanks_of_passed hrest' (hgap.append (.of_notMem hbody)), blankLength_newline, Nat.add_zero]
    have hnewline : c'.skipBlanks.rest = '\n' :: (more ++ after) := by
      rw [hskip, advance_rest, hrest]
      simp
    have hbehind : (c'.skipBlanks.advance 1).rest = more ++ after := by
      rw [advance_rest, hnewline]
      rfl
    refine ⟨c'.skipBlanks.advance 1, 0, .step (token_newline hnewline) rfl .refl, .inr ?_, Nat.zero_le _, hmiddle', ?_⟩
    · rw [hmiddle', advance_rest, hmiddle, Nat.add_zero, List.drop_left]
      exact hline
    · rw [skipBlanks_of_passed hbehind h, blankLength_line_end hline, hskip, ← advance_add, ← advance_add]
      congr 1
      simp only [List.length_append, List.length_cons]
      omega

end Cursor

/-- No regular expression of a program leaves open a class that it opens in a bracket. -/
def Program.ClassesClosed (source : Text) (p : Program) : Prop :=
  ∀ token ∈ p.outline.leaves, token.kind = .ere → Lexeme.openMarks false (token.inner source) = []

/-- What is passed over between tokens may be put wherever it is passed over: blanks and continued line ends anywhere
but in a comment or a continued line end, comments at the end of a line.  Only a name that stands directly before a
parenthesis is told apart by what follows it. -/
theorem parseProgram_of_insertable {before gap ins after : Text} {p : Program} {taken left : List Token} {middle : Cursor}
    {comment : Bool} (h : Parted (before ++ (gap ++ after)) p taken left middle) (hmiddle : middle.rest = gap ++ after)
    (hclosed : p.ClassesClosed (before ++ (gap ++ after))) (hcall : ∀ last ∈ taken.getLast?, last.kind ≠ .funcName)
    (hgap : Lexeme.Passed false gap comment) (hins : Lexeme.Insertable comment ins after) :
    ∃ p', parseProgram (before ++ (gap ++ (ins ++ after))) = .ok p' ∧ p'.bare = p.bare := by
  by_cases hne : ins = []
  · exact ⟨p, by rw [hne]; exact h.parsed, rfl⟩
  have hwithin := (Cursor.Within.ofText _).covers h.front
  refine h.exists_program ins.length (by simp) fun {marked rest} hmarked hrest _ => ?_
  refine h.front.walk_still (Cursor.still_insertion before _ _) (hins.breaks hgap hne after) (le_of_eq (by rw [hmiddle]))
    (fun last hlast hkind => absurd hkind (hcall last hlast)) (.ofText _) (fun token htoken hkind mark hmark => ?_) hmarked
    fun {u m'} hstill => ?_
  · have hleaf : token ∈ operandsOf p.outline.leaves := by
      rw [h.operands]
      exact List.mem_filter.2 ⟨List.mem_append_left _ htoken, by rw [hkind]; rfl⟩
    rw [hclosed token (List.mem_filter.1 hleaf).1 hkind] at hmark
    cases hmark
  · obtain ⟨last, hback, hend⟩ := h.back
    obtain rfl := hstill.eq_changed hmiddle
    have hrest' : ({ middle with rest := gap ++ (ins ++ after) } : Cursor).rest = gap ++ (ins ++ after) := rfl
    obtain ⟨stop, n, hnewlines, hline, hn, hskip, hskip'⟩ := Cursor.exists_newlines hmiddle hgap hins hrest'
    refine hback.walk_newlines hend hnewlines hline ?_ hrest
    rw [hskip, hskip']
    refine Cursor.moved_changed hwithin hmiddle (by simpa using hn) ?_ (by simp; omega)
    rw [Nat.add_assoc, Nat.add_comm n, List.drop_length_add_append, List.drop_length_add_append,
      List.drop_length_add_append]

/-- A function and a call of it, cut in the middle of a line that is continued. -/
def continuedFront : Text := "function f(a, b) \x7b\n return a ~ /[[:digit:]/]/".toList

def continuedBack : Text := "\n\x7d\nf(1) \x7b\x7d".toList

/-- A continued line is continued once more, and gets a comment. -/
theorem parseProgram_of_insertable_comment : ∃ p taken left middle,
    Parted (continuedFront ++ (" \\\n".toList ++ continuedBack)) p taken left middle ∧
      middle.rest = " \\\n".toList ++ continuedBack ∧
      p.ClassesClosed (continuedFront ++ (" \\\n".toList ++ continuedBack)) ∧
      (∀ last ∈ taken.getLast?, last.kind ≠ .funcName) ∧ Lexeme.Passed false " \\\n".toList false ∧
      Lexeme.Insertable false "\t\\\r\n# one".toList continuedBack ∧
      ∃ p', parseProgram (continuedFront ++ (" \\\n".toList ++ ("\t\\\r\n# one".toList ++ continuedBack))) = .ok p' ∧
        p'.bare = p.bare := by
  have hcut : (parted? (continuedFront ++ (" \\\n".toList ++ continuedBack)) (List.replicate 12 false ++ [true])
      (List.replicate 9 false)).any (fun cut => decide (cut.2.2.2.rest = " \\\n".toList ++ continuedBack ∧
        (∀ token ∈ cut.1.outline.leaves, token.kind = .ere → Lexeme.openMarks false
          (token.inner (continuedFront ++ (" \\\n".toList ++ continuedBack))) = []) ∧
        (∀ last ∈ cut.2.1.getLast?, last.kind ≠ .funcName) ∧ '\n' ∉ " one".toList)) = true := by
    decide +kernel
  obtain ⟨⟨p, taken, left, middle⟩, hparted, htests⟩ := (Option.any_eq_true _ _).1 hcut
  obtain ⟨hmiddle, hclosed, hcall, hcomment⟩ := of_decide_eq_true htests
  have hparted := parted_of_parted? hparted
  have hgap : Lexeme.Passed false " \\\n".toList false := .blank rfl (.line .nil)
  have hins : Lexeme.Insertable false "\t\\\r\n# one".toList continuedBack :=
    .passed (.blank rfl (.returnLine (.comment (.of_notMem hcomment)))) (.inr (by rintro c ⟨⟩; rfl))
  exact ⟨p, taken, left, middle, hparted, hmiddle, hclosed, hcall, hgap, hins,
    parseProgram_of_insertable hparted hmiddle hclosed hcall hgap hins⟩

/-- In the middle of what continues a line, a blank may not be put. -/
theorem parseProgram_blank_in_continuation : ∃ p taken left middle,
    Parted ("BEGIN \x7b x =".toList ++ (" \\".toList ++ "\n1 \x7d".toList)) p taken left middle ∧
      middle.rest = " \\".toList ++ "\n1 \x7d".toList ∧
      p.ClassesClosed ("BEGIN \x7b x =".toList ++ (" \\".toList ++ "\n1 \x7d".toList)) ∧
      (∀ last ∈ taken.getLast?, last.kind ≠ .funcName) ∧
      ∀ p', parseProgram ("BEGIN \x7b x =".toList ++ (" \\".toList ++ ([' '] ++ "\n1 \x7d".toList))) ≠ .ok p' := by
  have hcut : (parted? ("BEGIN \x7b x =".toList ++ (" \\".toList ++ "\n1 \x7d".toList)) (List.replicate 4 false)
      (List.replicate 2 false)).any (fun cut => decide (cut.2.2.2.rest = " \\".toList ++ "\n1 \x7d".toList ∧
        (∀ token ∈ cut.1.outline.leaves, token.kind = .ere → Lexeme.openMarks false
          (token.inner ("BEGIN \x7b x =".toList ++ (" \\".toList ++ "\n1 \x7d".toList))) = []) ∧
        (∀ last ∈ cut.2.1.getLast?, last.kind ≠ .funcName) ∧
        (parseProgram ("BEGIN \x7b x =".toList ++ (" \\".toList ++ ([' '] ++ "\n1 \x7d".toList)))).isOk = false)) =
          true := by
    decide +kernel
  obtain ⟨⟨p, taken, left, middle⟩, hparted, htests⟩ := (Option.any_eq_true _ _).1 hcut
  obtain ⟨hmiddle, hclosed, hcall, hrefused⟩ := of_decide_eq_true htests
  refine ⟨p, taken, left, middle, parted_of_parted? hparted, hmiddle, hclosed, hcall, fun p' hparse => ?_⟩
  rw [hparse] at hrefused
  cases hrefused

/-! ### Newlines -/

namespace Lexeme

variable {pattern t y : Text} {mark : Char}

/-- What contains no line end stands on one side of one. -/
theorem infix_of_newline (hpattern : '\n' ∉ pattern) (h : pattern <:+: t ++ '\n' :: y) :
    pattern <:+: t ∨ pattern <:+: y := by
  induction t with
  | nil =>
    rcases List.infix_cons_iff.1 h with h | h
    · cases pattern with
      | nil => exact .inl (List.nil_infix ..)
      | cons c pattern =>
        obtain ⟨rfl, -⟩ := List.cons_prefix_cons.1 h
        exact absurd List.mem_cons_self hpattern
    · exact .inr h
  | cons c t ih =>
    rcases List.infix_cons_iff.1 h with h | h
    · refine .inl ?_
      rcases List.prefix_or_prefix_of_prefix h (List.prefix_append (c :: t) ('\n' :: y)) with h' | ⟨rest, rfl⟩
      · exact h'.isInfix
      · cases rest with
        | nil => simp
        | cons d rest =>
          obtain ⟨rfl, -⟩ := List.cons_prefix_cons.1 ((List.prefix_append_right_inj _).1 h)
          exact absurd (List.mem_append_right _ List.mem_cons_self) hpattern
    · exact (ih h).imp (List.infix_cons ·) id

theorem infix_of_newlines {n : Nat} (hpattern : '\n' ∉ pattern) (h : pattern <:+: t ++ (List.replicate n '\n' ++ y)) :
    pattern <:+: t ++ y := by
  induction n generalizing t with
  | zero => exact h
  | succ n ih =>
    rcases infix_of_newline hpattern h with h | h
    · exact h.trans (List.prefix_append t y).isInfix
    · exact List.IsInfix.trans (ih (t := []) h) (List.suffix_append t y).isInfix

theorem ne_of_mem_openMarks {b : Bool} (h : mark ∈ openMarks b t) : mark ≠ '\n' := by
  induction b, t using openMarks.induct with
  | case1 b =>
    rw [openMarks] at h
    cases h
  | case2 b c t ih =>
    rw [openMarks] at h
    exact ih h
  | case3 b c t hescape hbracket ih =>
    rw [openMarks_cons _ hescape, if_pos hbracket] at h
    exact ih h
  | case4 b c t hescape hbracket count hcount ih =>
    rw [openMarks_cons _ hescape, if_neg hbracket, hcount] at h
    exact ih h
  | case5 b c t hescape hbracket hcount ih =>
    rw [openMarks_cons _ hescape, if_neg hbracket, hcount, List.mem_append, Option.mem_toList] at h
    refine h.elim (fun hmark => ?_) ih
    rintro rfl
    unfold classMark? at hmark
    split at hmark
    · split at hmark
      · split at hmark
        · rename_i hmark'
          cases hmark
          cases hmark'
        · cases hmark
      · cases hmark
    · cases hmark

/-- Newlines close no class. -/
theorem find?_newlines {b : Bool} {n : Nat} {u : Text} (hmark : mark ∈ openMarks b u)
    (h : Text.find? [mark, ']'] (t ++ y) = none) :
    Text.find? [mark, ']'] (t ++ (List.replicate n '\n' ++ y)) = none := by
  rw [find?_eq_none_iff (List.cons_ne_nil _ _)] at h ⊢
  refine fun hinfix => h (infix_of_newlines ?_ hinfix)
  simpa [eq_comm] using ne_of_mem_openMarks hmark

end Lexeme

/-- A parenthesis in front of some tokens closes the header of an `if`, a `for` or a `while`: newlines apart, the
statement that this one governs comes next. -/
def Program.ClosesHeader (p : Program) (close : Token) (left : List Token) : Prop :=
  close.kind = .rpar ∧ ∃ gap first more, left = gap ++ first :: more ∧ (∀ token ∈ gap, token.kind = .newline) ∧
    first.span.start ∈ p.governed

theorem Cursor.Covers.split {c stop : Cursor} {tokens tokens' : List Token} (h : c.Covers (tokens ++ tokens') stop) :
    ∃ m, c.Covers tokens m ∧ m.Covers tokens' stop := by
  generalize hall : tokens ++ tokens' = all at h
  induction h generalizing tokens with
  | nil =>
    obtain ⟨rfl, rfl⟩ := List.append_eq_nil_iff.1 hall
    exact ⟨_, .nil, .nil⟩
  | token htoken hend hmore ih =>
    cases tokens with
    | nil =>
      obtain rfl := hall
      exact ⟨_, .nil, .token htoken hend hmore⟩
    | cons token tokens =>
      cases hall
      obtain ⟨m, hfront, hback⟩ := ih rfl
      exact ⟨m, .token htoken hend hfront, hback⟩
  | regex hslash hkind hregex hmore ih =>
    cases tokens with
    | nil =>
      obtain rfl := hall
      exact ⟨_, .nil, .regex hslash hkind hregex hmore⟩
    | cons token tokens =>
      cases hall
      obtain ⟨m, hfront, hback⟩ := ih rfl
      exact ⟨m, .regex hslash hkind hregex hfront, hback⟩

/-- A list is cut in one way only in front of an element that it has once. -/
theorem cut_unique {α : Type} {before before' after after' : List α} {a b : α}
    (h : before ++ a :: after = before' ++ b :: after') (hb : b ∉ after) (ha : a ∉ after') :
    before = before' ∧ a = b ∧ after = after' := by
  rcases List.append_eq_append_iff.1 h with ⟨rest, rfl, hrest⟩ | ⟨rest, rfl, hrest⟩
  · cases rest with
    | nil => simpa using hrest
    | cons c rest =>
      cases hrest
      exact absurd (List.mem_append_right _ List.mem_cons_self) hb
  · cases rest with
    | nil => simpa [eq_comm] using hrest
    | cons c rest =>
      cases hrest
      exact absurd (List.mem_append_right _ List.mem_cons_self) ha

/-- What covers a text has nothing twice. -/
theorem Cursor.Covers.start_lt {c stop : Cursor} {before after : List Taken} {taken : Taken}
    (h : c.Covers ((before ++ taken :: after).map Taken.token) stop) :
    ∀ other ∈ after, taken.token.span.start < other.token.span.start := by
  intro other hother
  have horder := List.pairwise_map.1 h.inOrder
  have hle := (List.pairwise_cons.1 (List.pairwise_append.1 horder).2.1).1 other hother
  have hlt := (h.bounds.2 taken.token (List.mem_map_of_mem (by simp))).2.1
  exact Nat.lt_of_lt_of_le hlt hle

/-- The parenthesis that closes a header is marked on the path. -/
theorem header_of_announces {c stop : Cursor} {offset : Nat} {marked gap more : List Taken} {close first : Taken}
    (h : Parser.Announces (marked ++ close :: (gap ++ first :: more)) offset)
    (hcovers : c.Covers ((marked ++ close :: (gap ++ first :: more)).map Taken.token) stop)
    (hclose : close.token.kind = .rpar) (hgap : ∀ taken ∈ gap, taken.token.kind = .newline)
    (hfirst : first.token.span.start = offset) : close.header = true := by
  obtain ⟨before, header, gap', first', after, heq, hheader, hrpar, hgap', hfirst'⟩ := h
  have hcut : (marked ++ close :: gap) ++ first :: more = (before ++ header :: gap') ++ first' :: after := by
    simpa using heq
  have hcovers₁ : c.Covers (((marked ++ close :: gap) ++ first :: more).map Taken.token) stop := by simpa using hcovers
  have hcovers₂ := hcut ▸ hcovers₁
  obtain ⟨hfront, -, -⟩ := cut_unique hcut (fun hmem => absurd (hcovers₁.start_lt _ hmem) (by omega))
    fun hmem => absurd (hcovers₂.start_lt _ hmem) (by omega)
  obtain ⟨-, rfl, -⟩ := cut_unique hfront (fun hmem => by cases hrpar.symm.trans (hgap header hmem))
    fun hmem => by cases hclose.symm.trans (eq_of_beq (hgap' close hmem))
  exact hheader

/-- Newlines may be put behind every token that opens something. -/
theorem parseProgram_of_newlines {before after : Text} {p : Program} {taken left : List Token} {opening : Token}
    {middle : Cursor} (h : Parted (before ++ after) p (taken ++ [opening]) left middle) (hmiddle : middle.rest = after)
    (hopening : opening.kind.isOpen = true ∨ p.ClosesHeader opening left) (n : Nat) :
    ∃ p', parseProgram (before ++ (List.replicate n '\n' ++ after)) = .ok p' ∧ p'.bare = p.bare := by
  cases n with
  | zero => exact ⟨p, h.parsed, rfl⟩
  | succ n =>
    obtain ⟨m, hfront, hlast⟩ := h.front.split
    have hkind : opening.kind.isOpen = true ∨ opening.kind = .rpar := hopening.imp id And.left
    have hopens : m.token = .ok (opening, middle) ∧ opening.kind ≠ .eof := by
      cases hlast with
      | token htoken hne hmore =>
        cases hmore
        exact ⟨htoken, hne⟩
      | regex hslash hslash' hregex =>
        rw [Cursor.kind_of_regex hregex] at hkind
        rcases hkind with hkind | hkind <;> cases hkind
    obtain ⟨hopens, hne⟩ := hopens
    have hlt := Parser.rest_lt_of_token hopens hne
    rw [hmiddle] at hlt
    have hwithin := (Cursor.Within.ofText _).covers h.front
    obtain ⟨stop, hback, hend⟩ := h.back
    have hbreaks : Breaks (List.replicate (n + 1) '\n' ++ after) := by
      rintro _ ⟨⟩
      decide
    refine h.exists_program (n + 1) (by simp) fun {marked rest} hmarked hrest hleads => ?_
    obtain ⟨marked, single, rfl, rfl, hsingle⟩ := List.map_eq_append_iff.1 hmarked
    obtain ⟨mark, _, rfl, rfl, hnone⟩ := List.map_eq_cons_iff.1 hsingle
    obtain rfl := List.map_eq_nil_iff.1 hnone
    subst hrest
    have hcovers : (Cursor.ofText (before ++ after)).Covers ((marked ++ mark :: rest).map Taken.token) stop := by
      simpa using h.front.append hback
    have hloose : mark.token.kind.isOpen = true ∨ mark.token.kind = .newline ∨
        mark.header = true ∧ mark.token.kind = .rpar := by
      rcases hopening with hopen | ⟨hclose, gap, first, more, hleft, hgap, hgoverned⟩
      · exact .inl hopen
      · obtain ⟨gap, _, rfl, rfl, hmore⟩ := List.map_eq_append_iff.1 hleft
        obtain ⟨first, more, rfl, rfl, rfl⟩ := List.map_eq_cons_iff.1 hmore
        have hannounces := hleads.announces _ hgoverned
        rw [List.append_assoc, List.singleton_append] at hannounces
        exact .inr (.inr ⟨header_of_announces hannounces hcovers hclose (List.forall_mem_map.1 hgap) rfl, hclose⟩)
    rw [List.append_assoc, List.singleton_append]
    refine hfront.walk_still (Cursor.still_insertion before _ _) hbreaks (le_of_lt hlt) (fun _ _ _ => hlt) (.ofText _)
      (fun _ _ _ mark hmark v hnone => Lexeme.find?_newlines hmark hnone) rfl fun {u m'} hstill => ?_
    obtain ⟨behind, u', htoken', hplaced, hstill', -⟩ := hstill.token hbreaks hopens hne (le_of_eq (by rw [hmiddle]))
      fun hcall => by rw [hcall] at hkind; rcases hkind with hkind | hkind <;> cases hkind
    obtain rfl := hstill'.eq_changed hmiddle
    refine .token hopens hne htoken' rfl (fun _ => hplaced.symm) (Cursor.newlines_replicate rfl) (.inr hloose) ?_
    refine hback.walk_newlines hend .refl (.inl rfl) ?_ rfl
    have hdrop : (List.replicate (n + 1) '\n' ++ after).drop (0 + (n + 1)) = after.drop 0 := by simp
    have hmoved := Cursor.moved_changed hwithin hmiddle (Nat.zero_le _) hdrop (by simp)
    rw [Cursor.advance_zero, Nat.zero_add] at hmoved
    exact hmoved.skipBlanks

/-- Newlines behind the header of an `if` in a loop that has a semicolon for its body. -/
theorem parseProgram_of_newlines_header : ∃ p taken left opening middle,
    Parted ("\x7b while (f(x)) ; if (x)".toList ++ "y; else z \x7d function f(a) \x7b\x7d".toList) p (taken ++ [opening])
        left middle ∧
      middle.rest = "y; else z \x7d function f(a) \x7b\x7d".toList ∧
      (opening.kind.isOpen = true ∨ p.ClosesHeader opening left) ∧
      ∃ p', parseProgram ("\x7b while (f(x)) ; if (x)".toList ++
        (List.replicate 2 '\n' ++ "y; else z \x7d function f(a) \x7b\x7d".toList)) = .ok p' ∧ p'.bare = p.bare := by
  have hcut : (parted? ("\x7b while (f(x)) ; if (x)".toList ++ "y; else z \x7d function f(a) \x7b\x7d".toList)
      (List.replicate 13 false) (List.replicate 12 false)).any (fun cut => decide
        (cut.2.2.2.rest = "y; else z \x7d function f(a) \x7b\x7d".toList ∧
          (∃ opening ∈ cut.2.1.getLast?, opening.kind = .rpar) ∧
          ∃ first ∈ cut.2.2.1.head?, first.span.start ∈ cut.1.governed)) = true := by
    decide +kernel
  obtain ⟨⟨p, taken, left, middle⟩, hparted, htests⟩ := (Option.any_eq_true _ _).1 hcut
  obtain ⟨hmiddle, ⟨opening, hlast, hclose⟩, first, hfirst, hgoverned⟩ := of_decide_eq_true htests
  obtain ⟨taken, rfl⟩ := List.getLast?_eq_some_iff.1 hlast
  obtain ⟨more, rfl⟩ := List.head?_eq_some_iff.1 hfirst
  have hparted := parted_of_parted? hparted
  have hheader : p.ClosesHeader opening (first :: more) :=
    ⟨hclose, [], first, more, rfl, List.forall_mem_nil _, hgoverned⟩
  exact ⟨p, taken, first :: more, opening, middle, hparted, hmiddle, .inr hheader,
    parseProgram_of_newlines hparted hmiddle (.inr hheader) 2⟩

end Awk
