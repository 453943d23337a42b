import Awk.Proofs.Syntax.Layout.Walk

/-!
# Line ends in regular expressions

A regular expression literal ends on its line: the scanner stops at a line end, unless there is a backslash before it.
But where a bracket expression names a class, it goes to the end of the class, wherever that is.  So the line ends that
a literal covers are all escaped exactly if those in the classes that it passes over are
(`Cursor.regex_staysOnLine_iff`).
-/

namespace Awk

namespace Lexeme

/-- There is a backslash before each line end, one that is not escaped itself. -/
def escapesNewlines : Text → Bool
  | [] => true
  | '\\' :: _ :: t => escapesNewlines t
  | c :: t => c != '\n' && escapesNewlines t

variable {b : Bool} {c : Char} {t : Text}

theorem escapesNewlines_cons (hc : c ≠ '\\') (t : Text) :
    escapesNewlines (c :: t) = (c != '\n' && escapesNewlines t) := by
  rw [escapesNewlines]
  exact fun _ _ h _ => hc h

theorem escapesNewlines_cons_of_ne (hc : c ≠ '\\') (hnewline : c ≠ '\n') (t : Text) :
    escapesNewlines (c :: t) = escapesNewlines t := by
  rw [escapesNewlines_cons hc, bne_iff_ne.2 hnewline, Bool.true_and]

/-- Behind any other character it does not matter whether this one is escaped. -/
theorem escapesNewlines_append (hc : c ≠ '\\') (hnewline : c ≠ '\n') (s t : Text) :
    escapesNewlines (s ++ c :: t) = (escapesNewlines s && escapesNewlines t) := by
  induction s using escapesNewlines.induct with
  | case1 =>
    rw [List.nil_append, escapesNewlines_cons_of_ne hc hnewline]
    rfl
  | case2 d s ih => rw [List.cons_append, List.cons_append, escapesNewlines, escapesNewlines, ih]
  | case3 d s hescape ih =>
    by_cases hd : d = '\\'
    · subst hd
      cases s with
      | nil =>
        rw [List.cons_append, List.nil_append, escapesNewlines]
        rfl
      | cons e s => exact absurd rfl (hescape e s rfl)
    · rw [List.cons_append, escapesNewlines_cons hd, escapesNewlines_cons hd, ih, Bool.and_assoc]

/-- What is passed over, each time together with the bracket before it, where a bracket expression names a class or a
collating element. -/
def passedOver (inBracket : Bool) (t : Text) : List Text :=
  match t with
  | [] => []
  | '\\' :: _ :: t => passedOver inBracket t
  | c :: t =>
    if c = '[' && !inBracket then passedOver true (t.drop (bracketStart t).length)
    else
      match passedClass inBracket c t with
      | some count => t.take count :: passedOver inBracket (t.drop count)
      | none => passedOver (inBracket && c != ']') t
termination_by t.length
decreasing_by all_goals (simp_all; try omega)

theorem passedOver_cons (b : Bool) (hescape : ∀ d u, c = '\\' → t ≠ d :: u) :
    passedOver b (c :: t) =
      if c = '[' && !b then passedOver true (t.drop (bracketStart t).length)
      else
        match passedClass b c t with
        | some count => t.take count :: passedOver b (t.drop count)
        | none => passedOver (b && c != ']') t := by
  rw [passedOver.eq_def]
  split
  · rename_i heq
    cases heq
  · rename_i heq
    cases heq
    exact absurd rfl (hescape _ _ rfl)
  · rename_i heq
    cases heq
    rfl

theorem take_of_find? {m n : Char} {offset : Nat} (h : Text.find? [m, n] t = some offset) :
    t.take (offset + 2) = t.take offset ++ [m, n] := by
  induction t generalizing offset with
  | nil => cases h
  | cons c t ih =>
    cases t with
    | nil =>
      rw [find?_single] at h
      cases h
    | cons d t =>
      rw [find?_cons_cons] at h
      split at h
      · rename_i hpair
        obtain ⟨rfl, rfl⟩ := hpair
        cases h
        rfl
      · obtain ⟨offset', hoffset, rfl⟩ := Option.map_eq_some_iff.1 h
        exact congrArg (c :: ·) (ih hoffset)

/-- What is passed over ends with a bracket. -/
theorem take_of_passedClass {count : Nat} (h : passedClass b c t = some count) : ∃ s, t.take count = s ++ [']'] := by
  unfold passedClass at h
  split at h
  · rename_i mark hmark
    obtain ⟨-, u, rfl⟩ := mem_classMark? hmark
    obtain ⟨offset, hoffset, rfl⟩ := Option.map_eq_some_iff.1 h
    refine ⟨mark :: (u.take offset ++ [mark]), ?_⟩
    rw [List.tail_cons] at hoffset
    rw [List.take_succ_cons, take_of_find? hoffset]
    simp
  · cases h

/-- So no line end behind it is escaped by what is passed over. -/
theorem escapesNewlines_passed {count : Nat} (h : passedClass b c t = some count) :
    escapesNewlines t = (escapesNewlines (t.take count) && escapesNewlines (t.drop count)) := by
  obtain ⟨s, hs⟩ := take_of_passedClass h
  have hsplit : t = s ++ ']' :: t.drop count := by
    have hjoined := List.take_append_drop count t
    rw [hs, List.append_assoc] at hjoined
    exact hjoined.symm
  rw [hs, escapesNewlines_append (by decide) (by decide)]
  conv_lhs => rw [hsplit, escapesNewlines_append (by decide) (by decide)]
  rw [escapesNewlines, Bool.and_true]

/-- Nothing that stands first in a bracket expression is a line end or a backslash. -/
theorem escapesNewlines_drop (t : Text) : escapesNewlines (t.drop (bracketStart t).length) = escapesNewlines t := by
  unfold bracketStart
  split <;> simp [escapesNewlines]

/-- The rest of a literal is read with the length that is left of it. -/
theorem exists_of_map_eq_some {found : Option (Text × Nat)} {f : Text × Nat → Text × Nat} {value : Text} {m n : Nat}
    (h : found.map f = some (value, m)) (hlength : ∀ rest, (f rest).2 = m → rest.2 = n) :
    ∃ value', found = some (value', n) := by
  obtain ⟨⟨value', n'⟩, hfound, heq⟩ := Option.map_eq_some_iff.1 h
  exact ⟨value', hlength (value', n') (congrArg Prod.snd heq) ▸ hfound⟩

/-- The line ends that are read outside of named classes are all escaped. -/
theorem escapesNewlines_iff {value : Text} (h : regexBody b (t ++ ['/']) = some (value, t.length)) :
    escapesNewlines t = true ↔ ∀ name ∈ passedOver b t, escapesNewlines name = true := by
  induction b, t using openMarks.induct generalizing value with
  | case1 b => simp [passedOver, escapesNewlines]
  | case2 b c t ih =>
    rw [List.cons_append, List.cons_append, regexBody_escape] at h
    obtain ⟨value', hrest⟩ := exists_of_map_eq_some (n := t.length) h fun _ hlength => Nat.add_right_cancel hlength
    rw [escapesNewlines, passedOver, ih hrest]
  | case3 b c t hescape hbracket ih =>
    rw [List.cons_append] at h
    obtain ⟨hnewline, hplain⟩ := ne_of_regexBody h fun d u hc ht => hescape d u hc ht
    have hle := bracketStart_length_le t
    rw [regexBody_cons _ hnewline fun _ _ hc => absurd hc hplain, if_pos hbracket, bracketStart_append,
      List.drop_append_of_le_length hle] at h
    obtain ⟨value', hrest⟩ := exists_of_map_eq_some (n := (t.drop (bracketStart t).length).length) h fun _ hlength => by
      simp only [List.length_cons, List.length_drop] at hlength ⊢
      omega
    rw [escapesNewlines_cons_of_ne hplain hnewline, ← escapesNewlines_drop, ih hrest,
      passedOver_cons _ fun _ _ hc => absurd hc hplain, if_pos hbracket]
  | case4 b c t hescape hbracket count hcount ih =>
    rw [List.cons_append] at h
    obtain ⟨hnewline, hplain⟩ := ne_of_regexBody h fun d u hc ht => hescape d u hc ht
    obtain ⟨hpassed, hle⟩ := passedClass_append_of_some hcount []
    rw [regexBody_cons _ hnewline fun _ _ hc => absurd hc hplain, if_neg hbracket, hpassed] at h
    dsimp only at h
    rw [List.drop_append_of_le_length hle] at h
    obtain ⟨value', hrest⟩ := exists_of_map_eq_some (n := (t.drop count).length) h fun _ hlength => by
      simp only [List.length_cons, List.length_drop] at hlength ⊢
      omega
    rw [escapesNewlines_cons_of_ne hplain hnewline, escapesNewlines_passed hcount,
      passedOver_cons _ fun _ _ hc => absurd hc hplain, if_neg hbracket, hcount]
    dsimp only
    rw [List.forall_mem_cons, ← ih hrest]
    exact Bool.and_eq_true_iff
  | case5 b c t hescape hbracket hnone ih =>
    rw [List.cons_append] at h
    obtain ⟨hnewline, hplain⟩ := ne_of_regexBody h fun d u hc ht => hescape d u hc ht
    have hpassed : passedClass b c (t ++ ['/']) = none := passedClass_append_of_none hnone fun _ _ => rfl
    rw [regexBody_cons _ hnewline fun _ _ hc => absurd hc hplain, if_neg hbracket, hpassed] at h
    dsimp only at h
    split at h
    · cases h
    · obtain ⟨value', hrest⟩ := exists_of_map_eq_some (n := t.length) h fun _ hlength => Nat.succ.inj hlength
      rw [escapesNewlines_cons_of_ne hplain hnewline, ih hrest,
        passedOver_cons _ fun _ _ hc => absurd hc hplain, if_neg hbracket, hnone]

/-- No line end is in a regular expression literal but behind a backslash.  Its first character is taken for the slash
that opens it. -/
def staysOnLine : Text → Bool
  | [] => true
  | first :: t => first != '\n' && escapesNewlines t

end Lexeme

namespace Cursor

variable {source : Text} {pos : Nat}

/-- A cursor at an offset within the text stands in it. -/
theorem within_atOffset (h : pos ≤ source.length) : Within source (atOffset source pos) := by
  have hoffset : ((ofText source).advance pos).offset = pos := (advance_offset h).trans (Nat.zero_add pos)
  refine ⟨h, ?_⟩
  unfold atOffset
  dsimp only
  generalize (ofText source).advance pos = cursor at hoffset ⊢
  subst hoffset
  rw [Nat.sub_self]
  rfl

/-- Where something is left to read, the offset is within the text. -/
theorem le_of_rest (h : (atOffset source pos).skipBlanks.rest ≠ []) : pos ≤ source.length := by
  by_contra hlt
  have hrest : (atOffset source pos).rest = [] := by
    change ((ofText source).advance pos).rest = []
    rw [advance_rest]
    exact List.drop_eq_nil_of_le (Nat.le_of_not_le hlt)
  rw [skipBlanks, advance_rest, hrest] at h
  exact h List.drop_nil

/-- At every place of a program text a regular expression is either read or reported as not terminated, at the place
where it begins.  One that is read stays on its line exactly if it does not begin with a line end, in the place of the
slash, and all line ends are escaped that are passed over with a named class. -/
theorem regex_staysOnLine_iff (source : Text) (pos : Nat) :
    (atOffset source pos).regex =
        .error ⟨.openRegex, (atOffset source pos).skipBlanks.line, (atOffset source pos).skipBlanks.column, none⟩ ∨
      ∃ token behind first body, (atOffset source pos).regex = .ok (token, behind) ∧ token.kind = .ere ∧
        Text.slice source token.span.start token.span.stop = first :: (body ++ ['/']) ∧
        (Lexeme.staysOnLine (Text.slice source token.span.start token.span.stop) = true ↔
          first ≠ '\n' ∧ ∀ name ∈ Lexeme.passedOver false body, Lexeme.escapesNewlines name = true) := by
  have hwithin (h : (atOffset source pos).skipBlanks.rest ≠ []) : Within source (atOffset source pos).skipBlanks :=
    (within_atOffset (le_of_rest h)).skipBlanks
  unfold regex take Lexeme.scanRegex
  generalize (atOffset source pos).skipBlanks = cursor at hwithin ⊢
  cases hbody : Lexeme.regexBody false cursor.rest.tail with
  | none => exact .inl rfl
  | some found =>
    obtain ⟨value, length⟩ := found
    obtain ⟨body, rest, htail, rfl, hread, -⟩ := Lexeme.regexBody_eq hbody
    obtain ⟨first, t, hrest⟩ : ∃ first t, cursor.rest = first :: t := by
      cases hrest : cursor.rest with
      | nil =>
        rw [hrest] at htail
        cases body <;> cases htail
      | cons first t => exact ⟨first, t, rfl⟩
    rw [hrest, List.tail_cons] at htail
    have hslice : Text.slice source cursor.offset (cursor.offset + (body.length + 2)) = first :: (body ++ ['/']) := by
      have hdrop := (hwithin (by simp [hrest])).rest
      have hsplit : first :: (body ++ '/' :: rest) = first :: (body ++ ['/']) ++ rest := by simp
      rw [Text.slice, ← hdrop, hrest, htail, Nat.add_sub_cancel_left, hsplit]
      exact List.take_left' (by simp)
    refine .inr ⟨_, _, first, body, rfl, rfl, hslice, ?_⟩
    rw [hslice, Lexeme.staysOnLine, Lexeme.escapesNewlines_append (by decide) (by decide)]
    simp [Lexeme.escapesNewlines_iff hread, Lexeme.escapesNewlines]

/-- A named class is passed over a line end. -/
theorem regex_passes_line_end : ∃ token behind, (atOffset "/[[:\n:]]/".toList 0).regex = .ok (token, behind) ∧
    Text.slice "/[[:\n:]]/".toList token.span.start token.span.stop = "/[[:\n:]]/".toList ∧
    Lexeme.staysOnLine "/[[:\n:]]/".toList = false :=
  ⟨⟨.ere, "[[:\n:]]".toList, ⟨1, 1, 0, 9⟩⟩, ⟨[], 9, 2, 5⟩, by decide +kernel, rfl, rfl⟩

end Cursor

end Awk
