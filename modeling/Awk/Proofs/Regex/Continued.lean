import Awk.Proofs.Regex.Branches

/-!
# An ERE with more behind it

The pieces of an ERE stay as they are if more text is put behind it, provided that this begins with a parenthesis or a
backslash (`Detached`) and that no backslash is left over that would escape it (`Ere.Paired`).  They are then followed
by the pieces of that text (`Ere.Spells.append`), and an ERE that has no pieces has none either way
(`Ere.Spells.of_append`).
-/

namespace Awk

open Awk.Action (bind_eq_ok)

/-- A text that does not become part of the last piece before it, and closes nothing that was left open. -/
structure Detached (tail : Text) : Prop where
  head : tail.head? = some ')' ∨ tail.head? = some '\\'
  bracket : ']' ∉ tail
  brace : '\x7d' ∉ tail

theorem Detached.head?_append {tail : Text} (h : Detached tail) {c : Char} (hc : c ∉ [')', '\\']) {t : Text}
    (hhead : (t ++ tail).head? = some c) : t.head? = some c := by
  cases t with
  | nil =>
    simp only [List.mem_cons, List.not_mem_nil, or_false, not_or] at hc
    rw [List.nil_append] at hhead
    rcases h.head with htail | htail
    · exact absurd (Option.some.inj (hhead.symm.trans htail)) hc.1
    · exact absurd (Option.some.inj (hhead.symm.trans htail)) hc.2
  | cons d t => exact hhead

/-- What ends in a character that is not behind a text ends in the text. -/
theorem exists_of_append_eq {t tail before rest : Text} {c : Char} (h : t ++ tail = before ++ c :: rest)
    (hc : c ∉ tail) : ∃ between, t = before ++ c :: between ∧ rest = between ++ tail := by
  rcases List.append_eq_append_iff.1 h with ⟨more, rfl, htail⟩ | ⟨more, rfl, hrest⟩
  · exact absurd (htail ▸ List.mem_append_right _ List.mem_cons_self) hc
  · cases more with
    | nil =>
      rw [List.nil_append] at hrest
      exact absurd (hrest ▸ List.mem_cons_self) hc
    | cons d more =>
      obtain ⟨rfl, rfl⟩ := List.cons.inj hrest
      exact ⟨more, rfl, rfl⟩

namespace Ere

variable {b b' b'' : Bool} {c : Char} {t tail rest : Text} {piece : Piece} {ps qs : List Piece}

/-! ### One piece -/

theorem takeEscape_append (htail : Detached tail) (c : Char) (t : Text) :
    takeEscape c (t ++ tail) = ((takeEscape c t).1, (takeEscape c t).2 ++ tail) := by
  obtain ⟨ds, ht, -, -, htake⟩ := takeEscape_cut c t
  have hmore : t ++ tail = ds ++ ((takeEscape c t).2 ++ tail) := by
    rw [← List.append_assoc, ← ht]
  rw [hmore]
  refine htake _ fun d hd => htail.head?_append fun hmem => ?_
  simp only [List.mem_cons, List.not_mem_nil, or_false] at hmem
  rcases hmem with rfl | rfl
  all_goals cases hd

theorem takeBracket_append {text : Text} (h : takeBracket t = .ok (text, rest)) (tail : Text) :
    takeBracket (t ++ tail) = .ok (text, rest ++ tail) := by
  obtain ⟨body, -, rfl, -, hsame, -⟩ := bracket_of_takeBracket h
  rw [List.append_assoc, List.cons_append]
  exact hsame _

theorem takeBracket_of_append {text : Text} (htail : ']' ∉ tail) (h : takeBracket (t ++ tail) = .ok (text, rest)) :
    ∃ rest', takeBracket t = .ok (text, rest') := by
  obtain ⟨body, -, heq, -, hsame, -⟩ := bracket_of_takeBracket h
  obtain ⟨between, rfl, -⟩ := exists_of_append_eq heq htail
  exact ⟨between, hsame between⟩

theorem takeInterval_append (htail : '\x7d' ∉ tail) (t : Text) :
    takeInterval ('\x7b' :: (t ++ tail)) =
      (takeInterval ('\x7b' :: t)).map fun (text, rest) => (text, rest ++ tail) := by
  cases h : takeInterval ('\x7b' :: t) with
  | some found =>
    obtain ⟨text, rest⟩ := found
    obtain ⟨ht, -, hsame, -⟩ := takeInterval_cut h
    rw [← List.cons_append, ht, List.append_assoc, hsame]
    rfl
  | none =>
    rw [Option.map_none]
    by_contra hsome
    obtain ⟨⟨text, rest⟩, hfound⟩ := Option.ne_none_iff_exists'.1 hsome
    obtain ⟨heq, -, hsame, ds, rfl⟩ := takeInterval_cut hfound
    have hends : ('\x7b' :: t) ++ tail = ('\x7b' :: ds) ++ '\x7d' :: rest := by
      simpa using heq
    obtain ⟨between, ht, -⟩ := exists_of_append_eq hends htail
    have hbetween := hsame between
    rw [List.cons_append, List.append_assoc, List.singleton_append, ← List.cons_append, ← ht, h] at hbetween
    cases hbetween

/-- The first piece is the same with more text behind, and leaves no backslash over that was not left over before. -/
structure Steady (b b' : Bool) (c : Char) (t : Text) (piece : Piece) (rest : Text) : Prop where
  append : ∀ {tail}, Detached tail → nextPiece b c (t ++ tail) = .ok (piece, b', rest ++ tail)
  paired : ∃ cut, c :: t = cut ++ rest ∧ Paired cut ∧ cut ≠ []

theorem steady_of_escape (hpaired : Paired ('\\' :: t)) (h : nextPiece b '\\' t = .ok (piece, b', rest)) :
    Steady b b' '\\' t piece rest := by
  cases t with
  | nil => cases hpaired
  | cons c t =>
    rw [nextPiece_escape] at h
    split at h
    · rename_i hnamed
      cases h
      refine ⟨fun _ => ?_, ['\\', c], rfl, Paired.escape c (List.forall_mem_nil _), by simp⟩
      rw [List.cons_append, nextPiece_escape, if_pos hnamed]
    · rename_i hnamed
      cases h
      obtain ⟨ds, ht, hds, -, -⟩ := takeEscape_cut c t
      refine ⟨fun htail => ?_, '\\' :: c :: ds, congrArg ('\\' :: c :: ·) ht, Paired.escape c hds, by simp⟩
      rw [List.cons_append, nextPiece_escape, if_neg hnamed, takeEscape_append htail]

theorem steady_of_bracket (h : nextPiece b '[' t = .ok (piece, b', rest)) : Steady b b' '[' t piece rest := by
  have heq (u : Text) : nextPiece b '[' u =
      takeBracket u >>= fun found => .ok (.bracket found.1, true, found.2) := rfl
  rw [heq] at h
  obtain ⟨⟨text, rest'⟩, hbracket, hfound⟩ := bind_eq_ok.1 h
  cases hfound
  refine ⟨fun _ => ?_, ?_⟩
  · rw [heq, takeBracket_append hbracket]
    rfl
  · obtain ⟨body, -, rfl, -⟩ := bracket_of_takeBracket hbracket
    exact ⟨'[' :: (body ++ [']']), by simp, Paired.concat ('[' :: body) (by decide), by simp⟩

theorem steady_of_brace (h : nextPiece b '\x7b' t = .ok (piece, b', rest)) : Steady b b' '\x7b' t piece rest := by
  rw [FirstCut.nextPiece_brace] at h
  cases b with
  | false =>
    cases h
    exact ⟨fun _ => rfl, ['\x7b'], rfl, Paired.concat [] (by decide), by simp⟩
  | true =>
    rw [if_pos rfl] at h
    cases hcount : takeInterval ('\x7b' :: t) with
    | some found =>
      rw [hcount] at h
      cases h
      obtain ⟨ht, -, -, ds, hends⟩ := takeInterval_cut hcount
      refine ⟨fun htail => ?_, found.1, ht, ?_, ?_⟩
      · rw [FirstCut.nextPiece_brace, if_pos rfl, takeInterval_append htail.brace, hcount]
        rfl
      · rw [hends]
        exact Paired.concat ('\x7b' :: ds) (by decide)
      · rw [hends]
        exact List.cons_ne_nil _ _
    | none =>
      rw [hcount] at h
      cases h
      refine ⟨fun htail => ?_, ['\x7b'], rfl, Paired.concat [] (by decide), by simp⟩
      rw [FirstCut.nextPiece_brace, if_pos rfl, takeInterval_append htail.brace, hcount]
      rfl

theorem steady_of_nextPiece (hpaired : Paired (c :: t)) (h : nextPiece b c t = .ok (piece, b', rest)) :
    Steady b b' c t piece rest := by
  by_cases hescape : c = '\\'
  · subst hescape
    exact steady_of_escape hpaired h
  by_cases hopen : c = '['
  · subst hopen
    exact steady_of_bracket h
  by_cases hbrace : c = '\x7b'
  · subst hbrace
    exact steady_of_brace h
  obtain ⟨piece', canRepeat, hall⟩ := nextPiece_plain b (c := c) (by simp [hescape, hopen, hbrace])
  rw [hall] at h
  cases h
  exact ⟨fun _ => hall _, [c], rfl, Paired.concat [] hescape, by simp⟩

/-- Only a bracket expression can fail to be a piece. -/
theorem exists_nextPiece (b : Bool) (hopen : c ≠ '[') (t : Text) :
    ∃ piece b' rest, nextPiece b c t = .ok (piece, b', rest) := by
  by_cases hescape : c = '\\'
  · subst hescape
    cases t with
    | nil => exact ⟨_, _, _, rfl⟩
    | cons d t =>
      rw [nextPiece_escape]
      split
      · exact ⟨_, _, _, rfl⟩
      · exact ⟨_, _, _, rfl⟩
  by_cases hbrace : c = '\x7b'
  · subst hbrace
    rw [FirstCut.nextPiece_brace]
    split
    · exact ⟨_, _, _, rfl⟩
    · exact ⟨_, _, _, rfl⟩
  obtain ⟨piece, b', hall⟩ := nextPiece_plain b (c := c) (by simp [hescape, hopen, hbrace])
  exact ⟨piece, b', t, hall t⟩

theorem nextPiece_of_append (htail : ']' ∉ tail) (h : nextPiece b c (t ++ tail) = .ok (piece, b', rest)) :
    ∃ piece b' rest, nextPiece b c t = .ok (piece, b', rest) := by
  by_cases hopen : c = '['
  · subst hopen
    obtain ⟨⟨text, rest'⟩, hbracket, -⟩ := bind_eq_ok.1 h
    obtain ⟨rest, hbracket⟩ := takeBracket_of_append htail hbracket
    exact ⟨.bracket text, true, rest, bind_eq_ok.2 ⟨_, hbracket, rfl⟩⟩
  · exact exists_nextPiece b hopen t

/-! ### All pieces -/

/-- The pieces of an ERE; `b` and `b'` say whether a quantifier could come before it and behind it. -/
inductive Spells : Bool → Text → List Piece → Bool → Prop
  | nil (b : Bool) : Spells b [] [] b
  | cons {b b' b'' : Bool} {c : Char} {t rest : Text} {piece : Piece} {ps : List Piece}
    (hpiece : nextPiece b c t = .ok (piece, b', rest)) (hrest : Spells b' rest ps b'') :
    Spells b (c :: t) (piece :: ps) b''

theorem length_of_nextPiece (h : nextPiece b c t = .ok (piece, b', rest)) : rest.length ≤ t.length := by
  obtain ⟨cut, hcut⟩ := cut_of_nextPiece h
  have hlength := congrArg List.length hcut.eq
  have hpos := List.length_pos_iff.2 hcut.pos
  rw [List.length_append, List.length_cons] at hlength
  omega

theorem piecesFuel_eq_ok_iff {fuel : Nat} (hfuel : t.length ≤ fuel) :
    piecesFuel fuel b t = .ok ps ↔ ∃ b', Spells b t ps b' := by
  induction fuel generalizing b t ps with
  | zero =>
    obtain rfl := List.length_eq_zero_iff.1 (Nat.le_zero.1 hfuel)
    constructor
    · intro h
      cases h
      exact ⟨b, .nil b⟩
    · rintro ⟨b', ⟨⟩⟩
      rfl
  | succ fuel ih =>
    cases t with
    | nil =>
      constructor
      · intro h
        cases h
        exact ⟨b, .nil b⟩
      · rintro ⟨b', ⟨⟩⟩
        rfl
    | cons c t =>
      have hle : t.length ≤ fuel := Nat.le_of_succ_le_succ hfuel
      constructor
      · intro h
        obtain ⟨⟨piece, b', rest⟩, hpiece, h⟩ := bind_eq_ok.1 h
        obtain ⟨ps', hps, heq⟩ := bind_eq_ok.1 h
        cases heq
        obtain ⟨b'', hspells⟩ := (ih (Nat.le_trans (length_of_nextPiece hpiece) hle)).1 hps
        exact ⟨b'', .cons hpiece hspells⟩
      · rintro ⟨b'', ⟨⟩⟩
        rename_i b' rest piece ps hpiece hrest
        refine bind_eq_ok.2 ⟨_, hpiece, bind_eq_ok.2 ⟨ps, ?_, rfl⟩⟩
        exact (ih (Nat.le_trans (length_of_nextPiece hpiece) hle)).2 ⟨b'', hrest⟩

theorem patternText_eq_ok_iff {text : Text} :
    patternText t = .ok text ↔ ∃ ps b, Spells false t ps b ∧ text = ps.flatMap Piece.render := by
  constructor
  · intro h
    obtain ⟨ps, hps, heq⟩ := bind_eq_ok.1 h
    cases heq
    obtain ⟨b, hspells⟩ := (piecesFuel_eq_ok_iff (Nat.le_refl _)).1 hps
    exact ⟨ps, b, hspells, rfl⟩
  · rintro ⟨ps, b, hspells, rfl⟩
    exact bind_eq_ok.2 ⟨ps, (piecesFuel_eq_ok_iff (Nat.le_refl _)).2 ⟨b, hspells⟩, rfl⟩

theorem Spells.append (h : Spells b t ps b') (hpaired : Paired t) (htail : Detached tail)
    (hqs : Spells b' tail qs b'') : Spells b (t ++ tail) (ps ++ qs) b'' := by
  induction h with
  | nil b => exact hqs
  | cons hpiece _ ih =>
    have hsteady := steady_of_nextPiece hpaired hpiece
    obtain ⟨cut, hcut, hcutPaired, -⟩ := hsteady.paired
    rw [hcut] at hpaired
    exact .cons (hsteady.append htail) (ih (hcutPaired.of_append hpaired) hqs)

theorem Spells.of_append (h : Spells b (t ++ tail) qs b'') (hpaired : Paired t) (htail : Detached tail) :
    ∃ ps b', Spells b t ps b' := by
  induction hlength : t.length using Nat.strongRecOn generalizing b t qs with
  | ind n ih =>
    subst hlength
    cases t with
    | nil => exact ⟨[], b, .nil b⟩
    | cons c t =>
      cases h with
      | cons hpiece hrest =>
        obtain ⟨first, b', rest, hfirst⟩ := nextPiece_of_append htail.bracket hpiece
        have hsteady := steady_of_nextPiece hpaired hfirst
        cases hpiece.symm.trans (hsteady.append htail)
        obtain ⟨cut, hcut, hcutPaired, -⟩ := hsteady.paired
        have hle := length_of_nextPiece hfirst
        rw [hcut] at hpaired
        obtain ⟨ps, b', hspells⟩ := ih rest.length (by simp; omega) hrest (hcutPaired.of_append hpaired) rfl
        exact ⟨_, b', .cons hfirst hspells⟩

end Ere

end Awk
