import Awk.Fields
import Awk.Proofs.Regex.Alike
import Awk.Proofs.Regex.Slashes

/-!
# A newline as a branch

In paragraph mode a separator is put in a group with a newline for the other branch.  Whatever the separator is, this is
a branch of the pattern if there is a pattern at all (`hasBranch_of_compileEre`).  No bracket expression and no count
begins in the separator and ends behind the group (`Halts`), so that both the ERE and the text of its pattern are read
up to the closing parenthesis and then behind it, also where the separator ends in a backslash that escapes it.
-/

namespace Awk

open Awk.Action (bind_eq_ok)

/-! ### Reading up to a parenthesis -/

/-- What is read in one step does not go on behind a closing parenthesis, or goes on to a closing bracket or brace. -/
def Halts (cut : Text) : Prop :=
  ∀ before behind, cut = before ++ ')' :: behind → behind = [] ∨ ']' ∈ behind ∨ '\x7d' ∈ behind

namespace Halts

theorem concat {s : Text} (h : ')' ∉ s) (c : Char) : Halts (s ++ [c]) := by
  intro before behind heq
  rcases List.eq_nil_or_concat' behind with rfl | ⟨behind, d, rfl⟩
  · exact .inl rfl
  · rw [← List.cons_append, ← List.append_assoc] at heq
    obtain ⟨rfl, -⟩ := List.append_inj' heq rfl
    exact absurd (by simp) h

theorem single (c : Char) : Halts [c] := concat List.not_mem_nil c

theorem of_notMem {s : Text} (h : ')' ∉ s) : Halts s := by
  rintro before behind rfl
  exact absurd (by simp) h

theorem closed (s : Text) {c : Char} (hc : c ∈ [']', '\x7d']) {greed : Text} (hgreed : ')' ∉ greed) :
    Halts (s ++ c :: greed) := by
  have hne : c ≠ ')' := by
    rintro rfl
    simp at hc
  intro before behind heq
  rcases List.append_eq_append_iff.1 heq with ⟨more, rfl, hbehind⟩ | ⟨more, rfl, hbehind⟩
  · cases more with
    | nil => exact absurd (List.cons.inj hbehind).1 hne
    | cons d more =>
      obtain ⟨rfl, rfl⟩ := List.cons.inj hbehind
      exact absurd (by simp) hgreed
  · cases more with
    | nil => exact absurd (List.cons.inj hbehind).1.symm hne
    | cons d more =>
      obtain ⟨rfl, rfl⟩ := List.cons.inj hbehind
      simp only [List.mem_cons, List.not_mem_nil, or_false] at hc
      rcases hc with rfl | rfl
      · exact .inr (.inl (by simp))
      · exact .inr (.inr (by simp))

/-- Where no closing bracket or brace follows the parenthesis, reading comes to it or ends with it. -/
theorem rest {cut rest t tail : Text} (h : Halts cut) (hbracket : ']' ∉ tail) (hbrace : '\x7d' ∉ tail)
    (heq : t ++ ')' :: tail = cut ++ rest) :
    (∃ t', t = cut ++ t' ∧ rest = t' ++ ')' :: tail) ∨ cut = t ++ [')'] ∧ rest = tail := by
  rcases List.append_eq_append_iff.1 heq with ⟨more, rfl, htail⟩ | ⟨more, rfl, htail⟩
  · cases more with
    | nil => exact .inl ⟨[], by simp, htail.symm⟩
    | cons d more =>
      obtain ⟨rfl, rfl⟩ := List.cons.inj htail
      rcases h t more rfl with rfl | hmem | hmem
      · exact .inr ⟨rfl, rfl⟩
      · exact absurd (List.mem_append_left _ hmem) hbracket
      · exact absurd (List.mem_append_left _ hmem) hbrace
  · exact .inl ⟨more, rfl, htail⟩

end Halts

namespace Ere

variable {b b' : Bool} {c : Char} {t rest : Text} {piece : Piece}

/-- What is cut from an ERE for its first piece.  If it ends in a closing parenthesis, so does the text of the piece. -/
structure Cut (ere : Text) (piece : Piece) (cut rest : Text) : Prop where
  eq : ere = cut ++ rest
  pos : cut ≠ []
  halts : Halts cut
  closes : cut.getLast? = some ')' → ∃ s, piece.render = s ++ [')']

theorem cut_of_escape (h : nextPiece b '\\' t = .ok (piece, b', rest)) : ∃ cut, Cut ('\\' :: t) piece cut rest := by
  cases t with
  | nil =>
    cases h
    exact ⟨['\\'], rfl, by simp, .single '\\', fun hlast => absurd (Option.some.inj hlast) (by decide)⟩
  | cons c t =>
    have hpair : Halts ['\\', c] := .concat (s := ['\\']) (by decide) c
    rw [nextPiece_escape] at h
    split at h
    · rename_i hnamed
      cases h
      refine ⟨['\\', c], rfl, by simp, hpair, fun hlast => ?_⟩
      obtain rfl : c = ')' := Option.some.inj hlast
      cases hnamed
    · cases h
      obtain ⟨ds, ht, hds, hoctal, -⟩ := takeEscape_cut c t
      refine ⟨'\\' :: c :: ds, congrArg ('\\' :: c :: ·) ht, by simp, ?_, fun hlast => ?_⟩
      · cases ds with
        | nil => exact hpair
        | cons d ds =>
          refine .of_notMem fun hmem => ?_
          simp only [List.mem_cons] at hmem hds
          rcases hmem with hmem | rfl | hmem
          · cases hmem
          · cases hoctal (by simp)
          · cases hds ')' hmem
      · rcases List.eq_nil_or_concat' ds with rfl | ⟨ds, d, rfl⟩
        · obtain rfl : c = ')' := Option.some.inj hlast
          exact ⟨['\\'], rfl⟩
        · rw [← List.cons_append, ← List.cons_append, List.getLast?_concat] at hlast
          obtain rfl : d = ')' := Option.some.inj hlast
          cases hds ')' (by simp)

theorem cut_of_brace (h : nextPiece b '\x7b' t = .ok (piece, b', rest)) : ∃ cut, Cut ('\x7b' :: t) piece cut rest := by
  rw [FirstCut.nextPiece_brace] at h
  cases hcount : if b then takeInterval ('\x7b' :: t) else none with
  | some found =>
    obtain ⟨text, rest'⟩ := found
    rw [hcount] at h
    cases h
    split at hcount
    · obtain ⟨ht, -, -, ds, rfl⟩ := takeInterval_cut hcount
      refine ⟨_, ht, by simp, .closed ('\x7b' :: ds) (by simp) List.not_mem_nil, fun hlast => ?_⟩
      rw [← List.cons_append, List.getLast?_concat] at hlast
      cases hlast
    · cases hcount
  | none =>
    rw [hcount] at h
    cases h
    exact ⟨['\x7b'], rfl, by simp, .single _, fun hlast => absurd (Option.some.inj hlast) (by decide)⟩

theorem cut_of_nextPiece (h : nextPiece b c t = .ok (piece, b', rest)) : ∃ cut, Cut (c :: t) piece cut rest := by
  by_cases hescape : c = '\\'
  · subst hescape
    exact cut_of_escape h
  by_cases hopen : c = '['
  · subst hopen
    obtain ⟨⟨text, rest'⟩, hbracket, heq⟩ := bind_eq_ok.1 h
    cases heq
    obtain ⟨body, -, rfl, -⟩ := bracket_of_takeBracket hbracket
    refine ⟨'[' :: body ++ [']'], by simp, by simp, .closed ('[' :: body) (by simp) List.not_mem_nil, fun hlast => ?_⟩
    rw [List.getLast?_concat] at hlast
    cases hlast
  by_cases hbrace : c = '\x7b'
  · subst hbrace
    exact cut_of_brace h
  by_cases hclose : c = ')'
  · subst hclose
    cases h
    exact ⟨[')'], rfl, by simp, .single ')', fun _ => ⟨[], rfl⟩⟩
  obtain ⟨piece', b'', hall⟩ := nextPiece_plain b (c := c) (by simp [hescape, hopen, hbrace])
  rw [hall] at h
  cases h
  exact ⟨[c], rfl, by simp, .single c, fun hlast => absurd (Option.some.inj hlast) hclose⟩

/-- The pieces of an ERE with a group, a bar and a newline at its end. -/
theorem pieces_closed {fuel : Nat} {ps : List Piece} (h : piecesFuel fuel b (t ++ [')', '|', '\n']) = .ok ps)
    (hfuel : (t ++ [')', '|', '\n']).length ≤ fuel) :
    ∃ qs s, ps = qs ++ [.bar, .literal '\n'] ∧ qs.flatMap Piece.render = s ++ [')'] := by
  induction fuel generalizing b t ps with
  | zero => simp at hfuel
  | succ fuel ih =>
    obtain ⟨c, u, hcons⟩ := List.exists_cons_of_ne_nil (show t ++ [')', '|', '\n'] ≠ [] by simp)
    rw [hcons] at h hfuel
    obtain ⟨⟨piece, b', rest⟩, hpiece, h⟩ := bind_eq_ok.1 h
    obtain ⟨ps', hps, heq⟩ := bind_eq_ok.1 h
    cases heq
    obtain ⟨cut, hcut⟩ := cut_of_nextPiece hpiece
    have hlength := congrArg List.length hcut.eq
    have hpos := List.length_pos_iff.2 hcut.pos
    rw [List.length_append] at hlength
    -- The parenthesis is read later, or it is the last character that has been read now.
    rcases hcut.halts.rest (by decide) (by decide) (hcons.trans hcut.eq) with ⟨t', -, rfl⟩ | ⟨rfl, rfl⟩
    · obtain ⟨qs, s, rfl, hs⟩ := ih hps (by omega)
      exact ⟨piece :: qs, piece.render ++ s, rfl, by rw [List.flatMap_cons, hs, List.append_assoc]⟩
    · obtain ⟨s, hs⟩ := hcut.closes (by simp)
      obtain ⟨fuel, rfl⟩ := Nat.exists_eq_add_of_le' (show 2 ≤ fuel by simp at hlength hfuel; omega)
      have hbranch : piecesFuel (fuel + 2) b' ['|', '\n'] = .ok [.bar, .literal '\n'] := by cases fuel <;> rfl
      cases hbranch.symm.trans hps
      exact ⟨[piece], s, rfl, by simpa using hs⟩

theorem patternText_closed {ere text : Text} (h : patternText (ere ++ [')', '|', '\n']) = .ok text) :
    ∃ s, text = s ++ [')', '|', '\\', '\n'] := by
  obtain ⟨ps, hps, heq⟩ := bind_eq_ok.1 h
  cases heq
  obtain ⟨qs, s, rfl, hs⟩ := pieces_closed hps (Nat.le_refl _)
  refine ⟨s, ?_⟩
  rw [List.flatMap_append, hs, List.append_assoc]
  rfl

end Ere

namespace Pattern

variable {c : Char} {t rest : Text} {mark : Mark}

theorem takeMember_cut {part : SetPart} (h : takeMember t = some (part, rest)) : ∃ cut, t = cut ++ rest := by
  unfold takeMember at h
  split at h
  · cases h
  · cases h
  · rename_i a b u
    split at h
    · cases h
      exact ⟨['\\', 'x', a, b], rfl⟩
    · cases h
  · rename_i d _ _
    obtain ⟨part', -, heq⟩ := Option.map_eq_some_iff.1 h
    cases heq
    exact ⟨['\\', d], rfl⟩
  · cases h
    exact ⟨[_], rfl⟩

theorem takeParts_cut {first : Bool} {parts : List SetPart} (h : takeParts first t = some (parts, rest)) :
    ∃ cut, t = cut ++ ']' :: rest := by
  fun_induction takeParts first t generalizing parts with
  | case1 first t hclose =>
    cases h
    simp only [Bool.and_eq_true, decide_eq_true_eq] at hclose
    obtain ⟨u, rfl⟩ := List.head?_eq_some_iff.1 hclose.1
    exact ⟨[], rfl⟩
  | case2 first t hclose hnone => cases h
  | case3 first t hclose lo u hlo =>
    cases h
    obtain ⟨cut, rfl⟩ := takeMember_cut hlo
    exact ⟨cut ++ ['-'], by simp⟩
  | case4 first t hclose lo u hend hlo hlt hnone => cases h
  | case5 first t hclose lo u hend hlo hlt hi v hhi hlt' hrange => cases h
  | case6 first t hclose lo u hend hlo hlt hi v hhi hlt' part hrange ih =>
    obtain ⟨⟨more, w⟩, hmore, heq⟩ := Option.map_eq_some_iff.1 h
    cases heq
    obtain ⟨cut, rfl⟩ := takeMember_cut hlo
    obtain ⟨cut', rfl⟩ := takeMember_cut hhi
    obtain ⟨cut'', rfl⟩ := ih hmore
    exact ⟨cut ++ '-' :: (cut' ++ cut''), by simp⟩
  | case7 first t hclose lo u hhyphen hne hlo hlt ih =>
    obtain ⟨⟨more, w⟩, hmore, heq⟩ := Option.map_eq_some_iff.1 h
    cases heq
    obtain ⟨cut, rfl⟩ := takeMember_cut hlo
    obtain ⟨cut', rfl⟩ := ih hmore
    exact ⟨cut ++ cut', by simp⟩

theorem takeSet_cut {test : CharTest} (h : takeSet t = some (test, rest)) : ∃ cut, t = cut ++ ']' :: rest := by
  unfold takeSet at h
  split at h
  · obtain ⟨⟨parts, u⟩, hparts, heq⟩ := Option.map_eq_some_iff.1 h
    cases heq
    obtain ⟨cut, rfl⟩ := takeParts_cut hparts
    exact ⟨'^' :: cut, rfl⟩
  · obtain ⟨⟨parts, u⟩, hparts, heq⟩ := Option.map_eq_some_iff.1 h
    cases heq
    exact takeParts_cut hparts

theorem takeBounds_cut {low high : Text} (h : takeBounds t = some (low, high, rest)) :
    ∃ cut, t = cut ++ '\x7d' :: rest ∧ ∀ d ∈ cut, d.isDigit ∨ d = ',' := by
  have hlow := List.takeWhile_append_dropWhile (p := Char.isDigit) (l := t)
  unfold takeBounds at h
  dsimp only at h
  split at h
  · rename_i hafter
    split at h
    · cases h
    · cases h
      rw [hafter] at hlow
      exact ⟨_, hlow.symm, fun d hd => .inl (List.mem_takeWhile_imp hd)⟩
  · rename_i u hafter
    have hhigh := List.takeWhile_append_dropWhile (p := Char.isDigit) (l := u)
    split at h
    · rename_i hafter'
      cases h
      rw [hafter'] at hhigh
      rw [hafter, ← hhigh] at hlow
      refine ⟨t.takeWhile Char.isDigit ++ ',' :: u.takeWhile Char.isDigit, by simpa using hlow.symm, fun d hd => ?_⟩
      rw [List.mem_append, List.mem_cons] at hd
      rcases hd with hd | rfl | hd
      · exact .inl (List.mem_takeWhile_imp hd)
      · exact .inr rfl
      · exact .inl (List.mem_takeWhile_imp hd)
    · cases h
  · cases h

theorem takeGreed_cut (t : Text) : ∃ greed, t = greed ++ (takeGreed t).2 ∧ ')' ∉ greed := by
  unfold takeGreed
  split
  · exact ⟨['?'], rfl, by decide⟩
  · exact ⟨['+'], rfl, by decide⟩
  · exact ⟨[], rfl, List.not_mem_nil⟩

theorem countMark_cut {least : Nat} {most : Option Nat} (h : countMark least most t = (mark, rest)) :
    ∃ greed, t = greed ++ rest ∧ ')' ∉ greed := by
  cases h
  exact takeGreed_cut t

theorem boundsMark_cut {low high : Text} (h : boundsMark low high t = (mark, rest)) :
    mark = .bad ∨ ∃ greed, t = greed ++ rest ∧ ')' ∉ greed := by
  unfold boundsMark at h
  dsimp only at h
  split at h
  · cases h
    exact .inl rfl
  · split at h
    · cases h
      exact .inl rfl
    · exact .inr (countMark_cut h)

theorem mark_of_escape (h : nextMark '\\' t = (mark, rest)) : mark = .bad ∨ ∃ c, t = c :: rest := by
  cases t with
  | nil =>
    cases h
    exact .inl rfl
  | cons c t =>
    have hrest : (nextMark '\\' (c :: t)).2 = t := by
      unfold nextMark
      split
      case h_1 => split <;> simp_all
      all_goals contradiction
    rw [h] at hrest
    exact .inr ⟨c, congrArg (c :: ·) hrest.symm⟩

theorem mark_of_bracket (h : nextMark '[' t = (mark, rest)) : mark = .bad ∨ ∃ cut, t = cut ++ ']' :: rest := by
  rw [nextMark] at h
  split at h
  · rename_i hset
    cases h
    exact .inr (takeSet_cut hset)
  · cases h
    exact .inl rfl

theorem mark_of_open (h : nextMark '(' t = (mark, rest)) : mark = .bad ∨ t = '?' :: ':' :: rest := by
  unfold nextMark at h
  split at h
  case h_3 =>
    split at h
    · cases h
      exact .inr rfl
    · cases h
      exact .inl rfl
  all_goals contradiction

theorem mark_of_brace (h : nextMark '\x7b' t = (mark, rest)) :
    mark = .bad ∨ t = rest ∨ ∃ cut greed, t = cut ++ '\x7d' :: (greed ++ rest) ∧ ')' ∉ greed := by
  rw [nextMark] at h
  split at h
  · rename_i hbounds
    obtain ⟨cut, rfl, -⟩ := takeBounds_cut hbounds
    rcases boundsMark_cut h with rfl | ⟨greed, rfl, hgreed⟩
    · exact .inl rfl
    · exact .inr (.inr ⟨cut, greed, rfl, hgreed⟩)
  · cases h
    exact .inr (.inl rfl)

/-- Any other character is a mark, and may be followed by how greedy it is. -/
theorem mark_of_plain (hc : c ∉ ['\\', '[', '(', '\x7b']) (h : nextMark c t = (mark, rest)) :
    ∃ greed, t = greed ++ rest ∧ ')' ∉ greed := by
  simp only [List.mem_cons, List.not_mem_nil, or_false, not_or] at hc
  unfold nextMark at h
  split at h
  · exact absurd rfl hc.1
  · exact absurd rfl hc.2.1
  · exact absurd rfl hc.2.2.1
  all_goals try exact countMark_cut h
  all_goals try exact ⟨[], (Prod.mk.inj h).2, List.not_mem_nil⟩
  exact absurd rfl hc.2.2.2

theorem nextMark_cut (h : nextMark c t = (mark, rest)) :
    mark = .bad ∨ ∃ cut, c :: t = cut ++ rest ∧ cut ≠ [] ∧ Halts cut := by
  by_cases hescape : c = '\\'
  · subst hescape
    exact (mark_of_escape h).imp_right fun ⟨c, ht⟩ =>
      ⟨['\\', c], congrArg ('\\' :: ·) ht, by simp, .concat (s := ['\\']) (by decide) c⟩
  by_cases hbracket : c = '['
  · subst hbracket
    refine (mark_of_bracket h).imp_right fun ⟨cut, ht⟩ => ⟨'[' :: cut ++ [']'], ?_, by simp, ?_⟩
    · rw [ht]
      simp
    · exact .closed ('[' :: cut) (by simp) List.not_mem_nil
  by_cases hopen : c = '('
  · subst hopen
    exact (mark_of_open h).imp_right fun ht =>
      ⟨['(', '?', ':'], congrArg ('(' :: ·) ht, by simp, .of_notMem (by decide)⟩
  by_cases hbrace : c = '\x7b'
  · subst hbrace
    refine (mark_of_brace h).imp_right fun hcut => ?_
    rcases hcut with rfl | ⟨cut, greed, rfl, hgreed⟩
    · exact ⟨['\x7b'], rfl, by simp, .single _⟩
    · exact ⟨'\x7b' :: cut ++ '\x7d' :: greed, by simp, by simp, .closed ('\x7b' :: cut) (by simp) hgreed⟩
  by_cases hclose : c = ')'
  · subst hclose
    cases h
    exact .inr ⟨[')'], rfl, by simp, .single ')'⟩
  obtain ⟨greed, rfl, hgreed⟩ := mark_of_plain (by simp [hescape, hbracket, hopen, hbrace]) h
  exact .inr ⟨c :: greed, rfl, by simp, .of_notMem (List.not_mem_cons_of_ne_of_not_mem (Ne.symm hclose) hgreed)⟩

/-- The marks of a pattern text with a group, a bar and an escaped newline at its end. -/
theorem marks_closed {fuel : Nat} (hfuel : (t ++ [')', '|', '\\', '\n']).length ≤ fuel) :
    .bad ∈ marksFuel fuel (t ++ [')', '|', '\\', '\n']) ∨
      ∃ ms, marksFuel fuel (t ++ [')', '|', '\\', '\n']) = ms ++ [.bar, .test (.one '\n')] := by
  induction fuel generalizing t with
  | zero => simp at hfuel
  | succ fuel ih =>
    obtain ⟨c, u, hcons⟩ := List.exists_cons_of_ne_nil (show t ++ [')', '|', '\\', '\n'] ≠ [] by simp)
    rw [hcons] at hfuel ⊢
    obtain ⟨mark, rest, hmark⟩ : ∃ mark rest, nextMark c u = (mark, rest) := ⟨_, _, rfl⟩
    have heq : marksFuel (fuel + 1) (c :: u) = mark :: marksFuel fuel rest := by rw [marksFuel, hmark]
    rw [heq]
    rcases nextMark_cut hmark with rfl | ⟨cut, hcut, hpos, hhalts⟩
    · exact .inl List.mem_cons_self
    · have hlength := congrArg List.length hcut
      have hpos := List.length_pos_iff.2 hpos
      rw [List.length_append] at hlength
      rcases hhalts.rest (by decide) (by decide) (hcons.trans hcut) with ⟨t', -, rfl⟩ | ⟨rfl, rfl⟩
      · rcases ih (t := t') (by omega) with hbad | ⟨ms, hms⟩
        · exact .inl (List.mem_cons_of_mem _ hbad)
        · exact .inr ⟨mark :: ms, by rw [hms]; rfl⟩
      · obtain ⟨fuel, rfl⟩ := Nat.exists_eq_add_of_le' (show 2 ≤ fuel by simp at hlength hfuel; omega)
        exact .inr ⟨[mark], by cases fuel <;> rfl⟩

/-! ### Branches -/

/-- One of the branches that a pattern tries. -/
inductive HasBranch (branch : Pattern) : Pattern → Prop
  | self : HasBranch branch branch
  | left {p q} (h : HasBranch branch p) : HasBranch branch (alt p q)
  | right {p q} (h : HasBranch branch q) : HasBranch branch (alt p q)

variable {branch p : Pattern} {g : Group} {outer : List Group} {ms : List Mark}

theorem HasBranch.isSome_run (h : HasBranch branch p) {k : Continuation} {place : Place}
    (hrun : (branch.run k place).isSome) : (p.run k place).isSome := by
  induction h with
  | self => exact hrun
  | left h ih => rw [run_alt, Option.isSome_or, ih, Bool.true_or]
  | right h ih => rw [run_alt, Option.isSome_or, ih, Bool.or_true]

theorem hasBranch_close (branches : List Pattern) (items : List Item) :
    HasBranch (ofItems items) (Group.close ⟨branches, items⟩) := by
  suffices h : ∀ q, HasBranch (ofItems items) q →
      HasBranch (ofItems items) (branches.foldl (fun p branch => alt branch p) q) from h _ .self
  induction branches with
  | nil => exact fun q hq => hq
  | cons branch branches ih => exact fun q hq => ih _ (.right hq)

/-- A mark that can be read is well formed, and what follows it is read on. -/
theorem exists_of_ofMarks_cons (h : ofMarks g outer (mark :: ms) = .ok p) :
    mark ≠ .bad ∧ ∃ g' outer', ofMarks g' outer' ms = .ok p := by
  cases mark with
  | closeGroup =>
    cases outer with
    | nil => cases h
    | cons parent outer => exact ⟨nofun, _, _, h⟩
  | count least most greed =>
    obtain ⟨g', -, h⟩ := bind_eq_ok.1 h
    exact ⟨nofun, _, _, h⟩
  | bad => cases h
  | test t => exact ⟨nofun, _, _, h⟩
  | atStart => exact ⟨nofun, _, _, h⟩
  | atEnd => exact ⟨nofun, _, _, h⟩
  | openGroup => exact ⟨nofun, _, _, h⟩
  | bar => exact ⟨nofun, _, _, h⟩

theorem bad_notMem_of_ofMarks (h : ofMarks g outer ms = .ok p) : .bad ∉ ms := by
  induction ms generalizing g outer with
  | nil => exact List.not_mem_nil
  | cons mark ms ih =>
    obtain ⟨hmark, g', outer', h⟩ := exists_of_ofMarks_cons h
    exact List.not_mem_cons_of_ne_of_not_mem hmark.symm (ih h)

theorem hasBranch_of_ofMarks {test : CharTest} (h : ofMarks g outer (ms ++ [.bar, .test test]) = .ok p) :
    HasBranch (ofItems [⟨char test, true⟩]) p := by
  induction ms generalizing g outer with
  | nil =>
    cases outer with
    | nil =>
      cases h
      exact hasBranch_close _ _
    | cons parent outer => cases h
  | cons mark ms ih =>
    obtain ⟨-, g', outer', h⟩ := exists_of_ofMarks_cons h
    exact ih h

end Pattern

/-- In paragraph mode a newline is a branch of every separator. -/
theorem hasBranch_of_compileEre {separator : Text} {p : Pattern}
    (h : compileEre (separatorEre separator true) = .ok p) : Pattern.HasBranch (.seq (.char (.one '\n')) .empty) p := by
  unfold compileEre at h
  split at h
  · cases h
  · rename_i text htext
    have hclosed : Ere.patternText ('(' :: separator ++ [')', '|', '\n']) = .ok text := htext
    obtain ⟨s, rfl⟩ := Ere.patternText_closed hclosed
    split at h
    · rename_i q hread
      cases h
      rcases Pattern.marks_closed (t := s) (Nat.le_refl _) with hbad | ⟨ms, hms⟩
      · exact absurd hbad (Pattern.bad_notMem_of_ofMarks hread)
      · rw [Pattern.read, Pattern.marks, hms] at hread
        exact Pattern.hasBranch_of_ofMarks hread
    · cases h
    · cases h

end Awk
