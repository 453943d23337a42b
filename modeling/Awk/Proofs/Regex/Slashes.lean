import Awk.Proofs.Regex.Enclosed
import Mathlib.Data.List.DropRight

/-!
# Extended regular expressions between slashes

To write an ERE as a literal, the slashes outside its bracket expressions get a backslash (`Ere.slashed`).  The literal
is read up to its closing slash, whatever follows, and its value is translated as the ERE is (`Ere.regex_slashed`):
both go through the text piece by piece, and each piece covers as much of the one as of the other (`Ere.FirstCut`).
-/

namespace Awk

namespace Ere

open Awk.Action (bind_eq_ok)
open Lexeme (regexBody ahead ahead_some)

/-! ### Literals -/

theorem length_takeBracket {t text rest : Text} (h : takeBracket t = .ok (text, rest)) : rest.length ≤ t.length := by
  obtain ⟨body, value, rfl, -⟩ := bracket_of_takeBracket h
  simp only [List.length_append, List.length_cons]
  omega

/-- The ERE as it is written between slashes: a slash outside its bracket expressions gets a backslash, if there is
none before it that escapes it. -/
def slashed (t : Text) : Text :=
  match t with
  | [] => []
  | '\\' :: c :: t => '\\' :: c :: slashed t
  | '/' :: t => '\\' :: '/' :: slashed t
  | '[' :: t =>
    match h : takeBracket t with
    | .ok (_, rest) =>
      have := length_takeBracket h
      '[' :: t.take (t.length - rest.length) ++ slashed rest
    | .error _ => '[' :: t
  | c :: t => c :: slashed t
termination_by t.length

theorem slashed_bracket {body text rest : Text} (h : takeBracket (body ++ ']' :: rest) = .ok (text, rest)) :
    slashed ('[' :: (body ++ ']' :: rest)) = '[' :: (body ++ ']' :: slashed rest) := by
  have hcount : (body ++ ']' :: rest).length - rest.length = (body ++ [']']).length := by
    simp only [List.length_append, List.length_cons, List.length_nil]
    omega
  have hsplit : body ++ ']' :: rest = (body ++ [']']) ++ rest := by
    simp
  rw [slashed]
  split
  · rename_i heq
    rw [h] at heq
    cases heq
    change '[' :: (body ++ ']' :: rest).take ((body ++ ']' :: rest).length - rest.length) ++ slashed rest = _
    rw [hcount, hsplit, List.take_left' rfl]
    simp
  · rename_i heq
    rw [h] at heq
    cases heq

theorem slashed_plain {c : Char} (hc : c ∉ ['\\', '/', '[']) (t : Text) : slashed (c :: t) = c :: slashed t := by
  simp only [List.mem_cons, List.not_mem_nil, or_false, not_or] at hc
  rw [slashed]
  · exact fun _ _ h => absurd h hc.1
  · exact hc.2.1
  · exact hc.2.2

/-- What the literal for an ERE is read as, whatever follows its closing slash. -/
structure Literal (r value : Text) : Prop where
  bares : Bares r value
  scans : ∀ rest, regexBody false (slashed r ++ '/' :: rest) = some (value, (slashed r).length)

namespace Literal

variable {r value : Text}

theorem nil : Literal [] [] where
  bares := .nil
  scans rest := by
    rw [slashed]
    exact Lexeme.regexBody_slash rest

theorem plain (h : Literal r value) {c : Char} (hc : c ∉ ['\n', '\\', '[', '/']) : Literal (c :: r) (c :: value) where
  bares := h.bares.keep c
  scans rest := by
    have hkept : c ∉ ['\\', '/', '['] := by
      simp only [List.mem_cons, List.not_mem_nil, or_false, not_or] at hc ⊢
      exact ⟨hc.2.1, hc.2.2.2, hc.2.2.1⟩
    rw [slashed_plain hkept, List.cons_append, Lexeme.regexBody_plain hc, h.scans, ahead_some, List.length_cons,
      Nat.add_comm]
    rfl

theorem ordinaries (h : Literal r value) {ds : Text} (hds : ∀ d ∈ ds, Lexeme.Ordinary d) :
    Literal (ds ++ r) (ds ++ value) := by
  induction ds with
  | nil => exact h
  | cons d ds ih =>
    rw [List.forall_mem_cons] at hds
    refine (ih hds.2).plain fun hd => hds.1 ?_
    simp only [List.mem_cons, List.not_mem_nil, or_false] at hd ⊢
    tauto

theorem slash (h : Literal r value) : Literal ('/' :: r) ('/' :: value) where
  bares := h.bares.keep '/'
  scans rest := by
    rw [slashed, List.cons_append, List.cons_append, Lexeme.regexBody_escapedSlash, h.scans, ahead_some,
      Nat.add_comm]
    rfl

theorem escapedSlash (h : Literal r value) : Literal ('\\' :: '/' :: r) ('/' :: value) where
  bares := .bare h.bares
  scans rest := by
    rw [slashed, List.cons_append, List.cons_append, Lexeme.regexBody_escapedSlash, h.scans, ahead_some,
      Nat.add_comm]
    rfl

theorem escape (h : Literal r value) {c : Char} (hc : c ≠ '/') : Literal ('\\' :: c :: r) ('\\' :: c :: value) where
  bares := (h.bares.keep c).keep '\\'
  scans rest := by
    rw [slashed, List.cons_append, List.cons_append, Lexeme.regexBody_pair hc, h.scans, ahead_some, Nat.add_comm]
    rfl

end Literal

/-! ### Piece after piece -/

/-- The text does not end in a backslash that nothing follows. -/
def Paired (t : Text) : Prop := (t.rtakeWhile (· == '\\')).length % 2 = 0

instance (t : Text) : Decidable (Paired t) := inferInstanceAs (Decidable (_ = _))

theorem Paired.of_append {s t : Text} (hs : Paired s) (h : Paired (s ++ t)) : Paired t := by
  unfold Paired List.rtakeWhile at *
  rw [List.length_reverse] at *
  rw [List.reverse_append, List.takeWhile_append] at h
  split at h
  · rename_i hall
    rw [List.length_append] at h
    omega
  · exact h

theorem Paired.concat (s : Text) {c : Char} (hc : c ≠ '\\') : Paired (s ++ [c]) := by
  rw [Paired, List.rtakeWhile_concat_neg]
  · rfl
  · simpa using hc

/-- A text that ends in an unpaired backslash has such a backslash in last place. -/
theorem exists_of_not_paired {t : Text} (h : ¬Paired t) : ∃ s, t = s ++ ['\\'] ∧ Paired s := by
  rcases List.eq_nil_or_concat' t with rfl | ⟨s, c, rfl⟩
  · exact absurd rfl h
  · by_cases hc : c = '\\'
    · subst hc
      refine ⟨s, rfl, ?_⟩
      unfold Paired at h ⊢
      rw [List.rtakeWhile_concat_pos _ _ _ (by simp), List.length_append, List.length_singleton] at h
      omega
    · exact absurd (Paired.concat s hc) h

/-- A backslash with the character behind it, and octal digits that belong to it. -/
theorem Paired.escape (c : Char) {ds : Text} (hds : ∀ d ∈ ds, isOctal d) : Paired ('\\' :: c :: ds) := by
  rcases List.eq_nil_or_concat' ds with rfl | ⟨ds, d, rfl⟩
  · by_cases hc : c = '\\'
    · subst hc
      rfl
    · exact Paired.concat ['\\'] hc
  · refine Paired.concat ('\\' :: c :: ds) ?_
    rintro rfl
    cases hds '\\' (by simp)

theorem ordinary_of_isDecimal {c : Char} (h : Unicode.isDecimal c) : Lexeme.Ordinary c := by
  intro hc
  have hall : (['\n', '\\', '[', ']', '/'].all fun c => !Unicode.isDecimal c) = true := by decide
  have hnot := List.all_eq_true.1 hall c hc
  simp [h] at hnot

section Decimals

variable {ds : Text} (hds : ∀ d ∈ ds, Unicode.isDecimal d) {c : Char} (hc : Unicode.isDecimal c = false) (u : Text)

include hds hc

theorem takeWhile_isDecimal : (ds ++ c :: u).takeWhile Unicode.isDecimal = ds := by
  rw [List.takeWhile_append_of_pos hds, List.takeWhile_cons_of_neg (by simp [hc]), List.append_nil]

theorem dropWhile_isDecimal : (ds ++ c :: u).dropWhile Unicode.isDecimal = c :: u := by
  rw [List.dropWhile_append_of_pos hds, List.dropWhile_cons_of_neg (by simp [hc])]

end Decimals

theorem takeInterval_eq {low comma high : Text} (hlow : ∀ d ∈ low, Unicode.isDecimal d)
    (hhigh : ∀ d ∈ high, Unicode.isDecimal d) (hcomma : comma = [','] ∨ comma = [] ∧ high = [])
    (hbound : ¬(low.isEmpty && high.isEmpty)) (u : Text) :
    takeInterval ('\x7b' :: low ++ comma ++ high ++ '\x7d' :: u) =
      some ('\x7b' :: low ++ comma ++ high ++ ['\x7d'], u) := by
  have hcommaMark : Unicode.isDecimal ',' = false := by decide
  have hclose : Unicode.isDecimal '\x7d' = false := by decide
  rcases hcomma with rfl | ⟨rfl, rfl⟩
  · simp [takeInterval, takeWhile_isDecimal hlow hcommaMark, dropWhile_isDecimal hlow hcommaMark,
      takeWhile_isDecimal hhigh hclose, dropWhile_isDecimal hhigh hclose] at hbound ⊢
    exact hbound
  · simp [takeInterval, takeWhile_isDecimal hlow hclose, dropWhile_isDecimal hlow hclose, hclose] at hbound ⊢
    exact hbound

theorem takeInterval_cons {t low comma afterComma : Text} (hlow : t.takeWhile Unicode.isDecimal = low)
    (hafter : t.dropWhile Unicode.isDecimal = comma ++ afterComma)
    (hcomma : comma = [','] ∨ comma = [] ∧ afterComma.head? ≠ some ',') :
    takeInterval ('\x7b' :: t) =
      match afterComma.dropWhile Unicode.isDecimal with
      | '\x7d' :: rest =>
        if low.isEmpty && (afterComma.takeWhile Unicode.isDecimal).isEmpty then none
        else some ('\x7b' :: low ++ comma ++ afterComma.takeWhile Unicode.isDecimal ++ ['\x7d'], rest)
      | _ => none := by
  rw [takeInterval, hlow, hafter]
  split
  rename_i first rest hcut
  obtain ⟨rfl, rfl⟩ : first = comma ∧ rest = afterComma := by
    rcases hcomma with rfl | ⟨rfl, hhead⟩
    · cases hcut
      exact ⟨rfl, rfl⟩
    · rw [List.nil_append] at hcut
      split at hcut
      · exact absurd rfl hhead
      · cases hcut
        exact ⟨rfl, rfl⟩
  rfl

/-- A repetition count is seen from its own characters, none of which a literal treats in a special way. -/
theorem takeInterval_cut {t text rest : Text} (h : takeInterval ('\x7b' :: t) = some (text, rest)) :
    '\x7b' :: t = text ++ rest ∧ (∀ c ∈ text, Lexeme.Ordinary c) ∧
      (∀ u, takeInterval (text ++ u) = some (text, u)) ∧ ∃ ds, text = '\x7b' :: (ds ++ ['\x7d']) := by
  have ht := (List.takeWhile_append_dropWhile (p := Unicode.isDecimal) (l := t)).symm
  have hlow : ∀ d ∈ t.takeWhile Unicode.isDecimal, Unicode.isDecimal d := fun d hd => List.mem_takeWhile_imp hd
  obtain ⟨comma, after, hafter, hcomma⟩ : ∃ comma after, t.dropWhile Unicode.isDecimal = comma ++ after ∧
      (comma = [','] ∨ comma = [] ∧ after.head? ≠ some ',') := by
    by_cases hhead : (t.dropWhile Unicode.isDecimal).head? = some ','
    · obtain ⟨u, hu⟩ := List.head?_eq_some_iff.1 hhead
      exact ⟨[','], u, hu, .inl rfl⟩
    · exact ⟨[], _, rfl, .inr ⟨rfl, hhead⟩⟩
  -- Without a comma nothing is left for a second bound.
  have hcomma' : comma = [','] ∨ comma = [] ∧ after.takeWhile Unicode.isDecimal = [] := by
    refine hcomma.imp_right fun ⟨hnil, _⟩ => ⟨hnil, ?_⟩
    have hstop := List.head?_dropWhile_not Unicode.isDecimal t
    rw [hafter, hnil] at hstop
    cases after with
    | nil => rfl
    | cons c u => exact List.takeWhile_cons_of_neg (by simpa using hstop)
  rw [takeInterval_cons rfl hafter hcomma] at h
  rw [hafter] at ht
  have hhigh : ∀ d ∈ after.takeWhile Unicode.isDecimal, Unicode.isDecimal d := fun d hd => List.mem_takeWhile_imp hd
  have hrest := (List.takeWhile_append_dropWhile (p := Unicode.isDecimal) (l := after)).symm
  split at h
  · rename_i hclose
    rw [hclose] at hrest
    split at h
    · cases h
    · rename_i hbound
      cases h
      refine ⟨?_, fun c hc => ?_, fun u => ?_,
        t.takeWhile Unicode.isDecimal ++ comma ++ after.takeWhile Unicode.isDecimal, by simp⟩
      · rw [hrest] at ht
        simpa using ht
      · have hmarks : Lexeme.Ordinary '\x7b' ∧ Lexeme.Ordinary '\x7d' ∧ Lexeme.Ordinary ',' := by
          unfold Lexeme.Ordinary
          decide
        simp only [List.cons_append, List.append_assoc, List.mem_cons, List.mem_append, List.not_mem_nil,
          or_false] at hc
        rcases hc with rfl | hc | hc | hc | rfl
        · exact hmarks.1
        · exact ordinary_of_isDecimal (hlow c hc)
        · rcases hcomma with rfl | ⟨rfl, -⟩
          · exact List.mem_singleton.1 hc ▸ hmarks.2.2
          · cases hc
        · exact ordinary_of_isDecimal (hhigh c hc)
        · exact hmarks.2.1
      · have hagain := takeInterval_eq hlow hhigh hcomma' hbound u
        simpa using hagain
  · cases h

theorem nextPiece_plain (b : Bool) {c : Char} (hc : c ∉ ['\\', '[', '\x7b']) :
    ∃ piece b', ∀ t, nextPiece b c t = .ok (piece, b', t) := by
  simp only [List.mem_cons, List.not_mem_nil, or_false, not_or] at hc
  unfold nextPiece
  split
  · exact absurd rfl hc.1
  · exact absurd rfl hc.2.1
  all_goals try exact ⟨_, _, fun t => rfl⟩
  exact absurd rfl hc.2.2

theorem nextPiece_escape (b : Bool) (c : Char) (t : Text) : nextPiece b '\\' (c :: t) =
    if "sSwW".toList.contains c then .ok (.named c, true, t)
    else .ok (.literal (takeEscape c t).1, true, (takeEscape c t).2) := rfl

/-- What is cut from an ERE for its first piece: behind it the ERE goes on as `rest`, and if the literal of that has a
value, the literal of the ERE has one that begins with the same piece. -/
structure FirstCut (b b' : Bool) (ere : Text) (piece : Piece) (cut rest : Text) : Prop where
  eq : ere = cut ++ rest
  pos : cut ≠ []
  paired : Paired cut
  value : ∀ v, Literal rest v → ∃ d u, Literal ere (d :: u) ∧ nextPiece b d u = .ok (piece, b', v) ∧ v.length ≤ u.length

namespace FirstCut

variable {b b' : Bool} {c : Char} {t rest : Text} {piece : Piece}

theorem of_plain (hc : c ∉ ['\n', '\\', '[', '\x7b']) (h : nextPiece b c t = .ok (piece, b', rest)) :
    FirstCut b b' (c :: t) piece [c] rest := by
  simp only [List.mem_cons, List.not_mem_nil, or_false, not_or] at hc
  obtain ⟨hnewline, hescape, hopen, hbrace⟩ := hc
  obtain ⟨piece', canRepeat, hall⟩ := nextPiece_plain b (c := c) (by simp [hescape, hopen, hbrace])
  rw [hall] at h
  cases h
  refine ⟨rfl, by simp, Paired.concat [] hescape, fun v hv => ⟨c, v, ?_, hall v, Nat.le_refl _⟩⟩
  by_cases hslash : c = '/'
  · subst hslash
    exact hv.slash
  · exact hv.plain (by simp [hnewline, hescape, hopen, hslash])

theorem nextPiece_brace (b : Bool) (u : Text) : nextPiece b '\x7b' u =
    match if b then takeInterval ('\x7b' :: u) else none with
    | some (text, rest) => .ok (.quantifier text, true, rest)
    | none => .ok (.literal '\x7b', true, u) := rfl

theorem of_brace (h : nextPiece b '\x7b' t = .ok (piece, b', rest)) :
    ∃ cut, FirstCut b b' ('\x7b' :: t) piece cut rest := by
  rw [nextPiece_brace] at h
  cases hcount : if b then takeInterval ('\x7b' :: t) else none with
  | some found =>
    obtain ⟨text, rest'⟩ := found
    rw [hcount] at h
    cases h
    cases b with
    | false => cases hcount
    | true =>
      obtain ⟨ht, hordinary, hsame, ds, rfl⟩ := takeInterval_cut hcount
      refine ⟨_, ht, by simp, Paired.concat ('\x7b' :: ds) (by decide), fun v hv => ?_⟩
      rw [ht]
      refine ⟨'\x7b', ds ++ ['\x7d'] ++ v, hv.ordinaries hordinary, ?_, by simp; omega⟩
      have hsame := hsame v
      rw [List.cons_append] at hsame
      rw [nextPiece_brace, if_pos rfl, hsame]
  | none =>
    rw [hcount] at h
    cases h
    refine ⟨['\x7b'], rfl, by simp, Paired.concat [] (by decide), fun v hv => ?_⟩
    refine ⟨'\x7b', v, hv.plain (by decide), ?_, Nat.le_refl _⟩
    have hnone : (if b then takeInterval ('\x7b' :: v) else none) = none := by
      cases b with
      | false => rfl
      | true =>
        rw [if_pos rfl] at hcount ⊢
        by_contra hsome
        obtain ⟨⟨text, rest'⟩, hfound⟩ := Option.ne_none_iff_exists'.1 hsome
        obtain ⟨hv', hordinary, hsame, -⟩ := takeInterval_cut hfound
        have hbares := hv.bares.keep '\x7b'
        rw [hv'] at hbares
        obtain ⟨u, ht, -⟩ := hbares.of_prefix fun hmem => hordinary _ hmem (by decide)
        rw [ht, hsame] at hcount
        cases hcount
    rw [nextPiece_brace, hnone]

theorem of_bracket (hnewline : '\n' ∉ t) (h : nextPiece b '[' t = .ok (piece, b', rest)) :
    ∃ cut, FirstCut b b' ('[' :: t) piece cut rest := by
  obtain ⟨⟨text, rest'⟩, hbracket, heq⟩ := bind_eq_ok.1 h
  cases heq
  obtain ⟨body, value, rfl, hbares, -, hreads, hscans⟩ := bracket_of_takeBracket hbracket
  rw [List.mem_append, not_or] at hnewline
  refine ⟨'[' :: (body ++ [']']), by simp, by simp, Paired.concat ('[' :: body) (by decide), fun v hv => ?_⟩
  refine ⟨'[', value ++ ']' :: v, ⟨?_, fun after => ?_⟩, ?_, by simp; omega⟩
  · exact (hbares.append (hv.bares.keep ']')).keep '['
  · have hcount : body.length + 2 + (slashed rest).length = ('[' :: (body ++ ']' :: slashed rest)).length := by
      simp only [List.length_cons, List.length_append]
      omega
    have hscans := hscans hnewline.1 (slashed rest ++ '/' :: after)
    rw [hv.scans, ahead_some, hcount] at hscans
    rw [slashed_bracket hbracket]
    simpa using hscans
  · have hpiece (u : Text) : nextPiece b '[' u =
        takeBracket u >>= fun found => .ok (.bracket found.1, true, found.2) := rfl
    rw [hpiece, hreads]
    rfl

theorem of_escape (hpaired : Paired ('\\' :: t)) (h : nextPiece b '\\' t = .ok (piece, b', rest)) :
    ∃ cut, FirstCut b b' ('\\' :: t) piece cut rest := by
  cases t with
  | nil => cases hpaired
  | cons c t =>
    rw [nextPiece_escape] at h
    split at h
    · rename_i hnamed
      cases h
      have hc : c ≠ '/' := by
        rintro rfl
        cases hnamed
      refine ⟨['\\', c], rfl, by simp, Paired.escape c (List.forall_mem_nil _), fun v hv => ?_⟩
      refine ⟨'\\', c :: v, hv.escape hc, ?_, by simp⟩
      rw [nextPiece_escape, if_pos hnamed]
    · rename_i hnamed
      cases h
      obtain ⟨ds, ht, hds, hoctal, htake⟩ := takeEscape_cut c t
      refine ⟨'\\' :: c :: ds, congrArg ('\\' :: c :: ·) ht, by simp, Paired.escape c hds, fun v hv => ?_⟩
      by_cases hc : c = '/'
      · subst hc
        exact ⟨'/', v, hv.escapedSlash, rfl, Nat.le_refl _⟩
      · have hordinary (d : Char) (hd : d ∈ ds) : Lexeme.Ordinary d := ordinary_of_isOctal (hds d hd)
        refine ⟨'\\', c :: (ds ++ v), ?_, ?_, by simp; omega⟩
        · have hliteral := (hv.ordinaries hordinary).escape hc
          rwa [← ht] at hliteral
        · rw [nextPiece_escape, if_neg hnamed, htake v fun d hd hhead => hv.bares.head? ?_ hhead]
          rintro rfl
          cases hd

theorem of_nextPiece (hnewline : '\n' ∉ c :: t) (hpaired : Paired (c :: t))
    (h : nextPiece b c t = .ok (piece, b', rest)) : ∃ cut, FirstCut b b' (c :: t) piece cut rest := by
  rw [List.mem_cons, not_or] at hnewline
  by_cases hescape : c = '\\'
  · subst hescape
    exact of_escape hpaired h
  by_cases hopen : c = '['
  · subst hopen
    exact of_bracket hnewline.2 h
  by_cases hbrace : c = '\x7b'
  · subst hbrace
    exact of_brace h
  exact ⟨[c], of_plain (by simp [Ne.symm hnewline.1, hescape, hopen, hbrace]) h⟩

end FirstCut

/-- The pieces of an ERE are those of the value of its literal. -/
theorem literal_of_pieces {fuel : Nat} {b : Bool} {r : Text} {ps : List Piece} (h : piecesFuel fuel b r = .ok ps)
    (hfuel : r.length ≤ fuel) (hnewline : '\n' ∉ r) (hpaired : Paired r) :
    ∃ v, Literal r v ∧ Writes b v (ps.flatMap Piece.render) := by
  induction fuel generalizing b r ps with
  | zero =>
    obtain rfl := List.length_eq_zero_iff.1 (Nat.le_zero.1 hfuel)
    cases h
    exact ⟨[], .nil, writes_nil b⟩
  | succ fuel ih =>
    cases r with
    | nil =>
      cases h
      exact ⟨[], .nil, writes_nil b⟩
    | cons c t =>
      obtain ⟨⟨piece, b', rest⟩, hpiece, h⟩ := bind_eq_ok.1 h
      obtain ⟨ps', hps, heq⟩ := bind_eq_ok.1 h
      cases heq
      obtain ⟨cut, hcut⟩ := FirstCut.of_nextPiece hnewline hpaired hpiece
      have hlength := congrArg List.length hcut.eq
      have hpos := List.length_pos_iff.2 hcut.pos
      rw [List.length_append] at hlength
      rw [hcut.eq] at hnewline hpaired
      obtain ⟨v, hliteral, hwrites⟩ := ih hps (by omega) (fun hmem => hnewline (List.mem_append_right _ hmem))
        (hcut.paired.of_append hpaired)
      obtain ⟨d, u, hliteral', hpiece', hle⟩ := hcut.value v hliteral
      exact ⟨d :: u, hliteral', Writes.cons piece hpiece' hle hwrites⟩

/-- **The scanner of literals and the translation agree.**  An ERE on one line that is translated, and does not end in
a backslash that nothing follows, is read from between slashes to the closing one, whatever follows; and what is read
is translated as the ERE. -/
theorem regex_slashed {r p : Text} (hnewline : '\n' ∉ r) (hpaired : Paired r) (h : patternText r = .ok p)
    (rest : Text) : ∃ value behind, (Cursor.ofText ('/' :: slashed r ++ '/' :: rest)).regex =
        .ok (⟨.ere, value, ⟨1, 1, 0, (slashed r).length + 2⟩⟩, behind) ∧
      behind.rest = rest ∧ patternText value = .ok p := by
  obtain ⟨ps, hps, heq⟩ := bind_eq_ok.1 h
  cases heq
  obtain ⟨v, hliteral, hwrites⟩ := literal_of_pieces hps (Nat.le_refl _) hnewline hpaired
  have hscan : Lexeme.scanRegex ('/' :: slashed r ++ '/' :: rest) = .ok ⟨.ere, v, (slashed r).length + 2⟩ := by
    rw [Lexeme.scanRegex, List.cons_append, List.tail_cons, hliteral.scans]
  have hskip : (Cursor.ofText ('/' :: slashed r ++ '/' :: rest)).skipBlanks =
      Cursor.ofText ('/' :: slashed r ++ '/' :: rest) := by
    have hblank : Lexeme.blankLength false ('/' :: (slashed r ++ '/' :: rest)) = 0 := by
      rw [Lexeme.blankLength.eq_def]
      simp [Lexeme.isBlank]
    rw [Cursor.skipBlanks, Cursor.ofText, List.cons_append, hblank]
    rfl
  refine ⟨v, (Cursor.ofText ('/' :: slashed r ++ '/' :: rest)).advance ((slashed r).length + 2), ?_, ?_,
    hwrites.patternText⟩
  · rw [Cursor.regex, hskip, Cursor.take, Cursor.ofText, hscan]
    simp only [Nat.zero_add]
  · rw [Cursor.advance_rest, Cursor.ofText, List.cons_append, List.drop_succ_cons, List.append_cons]
    exact List.drop_left' (by simp)

/-- Slashes in a bracket expression, which a closing bracket begins, and outside, with and without a backslash. -/
def mixedEre : Text := "[^]/[:alpha:]]a/b\\/\\\\{2}".toList

theorem regex_slashed_mixed : '\n' ∉ mixedEre ∧ Paired mixedEre ∧
    slashed mixedEre = "[^]/[:alpha:]]a\\/b\\/\\\\{2}".toList ∧
      patternText mixedEre = .ok "[^\\]/a-zA-Z]a/b/\\\\{2}".toList ∧
        ∃ value behind, (Cursor.ofText ('/' :: slashed mixedEre ++ '/' :: " ~ x]/".toList)).regex =
            .ok (⟨.ere, value, ⟨1, 1, 0, (slashed mixedEre).length + 2⟩⟩, behind) ∧
          behind.rest = " ~ x]/".toList ∧ patternText value = .ok "[^\\]/a-zA-Z]a/b/\\\\{2}".toList :=
  have hpattern : patternText mixedEre = .ok "[^\\]/a-zA-Z]a/b/\\\\{2}".toList := by decide +kernel
  ⟨by decide, by decide, by decide +kernel, hpattern, regex_slashed (by decide) (by decide) hpattern _⟩

end Ere

end Awk
