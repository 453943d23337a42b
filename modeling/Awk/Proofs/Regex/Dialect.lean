import Awk.Proofs.Regex.Outside
import Awk.Proofs.Regex.Slashes

/-!
# What translated patterns are written with

Pattern text has more syntax than EREs have: groups of several kinds, references to groups, assertions, and quantifiers
that are lazy or possessive.  Outside of sets, and unless it is escaped, none of this is in the text of a translated ERE
(`Pattern.Portable`), but for the last: a quantifier becomes lazy or possessive where the ERE has two quantifiers in a
row (`Ere.portable_of_patternText`).

Each piece of an ERE leaves its text outside of sets, except for a bracket expression without members, which opens a set
that the next bracket expression closes (`Ere.exposed`).
-/

namespace Awk

namespace Ere

open Awk.Action (bind_eq_ok)
open Pattern (Members Spot afterQuantifier notMem_of_signs outsideFrom)

/-! ### Bracket expressions -/

/-- A character that stands for itself is written with a backslash if it has a meaning in pattern text. -/
theorem quote_cases (c : Char) :
    quote c = ['\\', c] ∧ c.isAlphanum = false ∨ quote c = [c] ∧ c ∉ Pattern.signs := by
  have hquoted : ("()[]\x7b\x7d?*+-|^$\\.&~# \t\n\r\x0b\x0c".toList.all fun c => !c.isAlphanum) = true := by decide
  have hsigns : Pattern.signs.all isSpecial = true := by decide
  unfold quote
  split
  · rename_i hc
    exact .inl ⟨rfl, by simpa using List.all_eq_true.1 hquoted c (List.contains_iff_mem.1 hc)⟩
  · rename_i hc
    exact .inr ⟨rfl, fun hmem => hc (List.all_eq_true.1 hsigns c hmem)⟩

theorem members_quote (c : Char) : Members (quote c) := by
  rcases quote_cases c with ⟨hquote, -⟩ | ⟨hquote, hplain⟩
  · exact hquote ▸ ⟨rfl, rfl⟩
  · have hother := notMem_of_signs hplain (show ['\\', ']'] ⊆ Pattern.signs by decide)
    simp only [List.mem_cons, List.not_mem_nil, or_false, not_or] at hother
    simp [Members, Spot.after, outsideFrom, Spot.next, hquote, hother]

theorem members_classMembers? {name ms : Text} (h : classMembers? name = some ms) : Members ms := by
  have hall : ∀ entry ∈ classes, Members entry.2.toList := by decide
  obtain ⟨members, hlookup, rfl⟩ := Option.map_eq_some_iff.1 h
  obtain ⟨before, after, hsplit, -⟩ := List.lookup_eq_some_iff.1 hlookup
  exact hall (String.ofList name, members) (by simp [hsplit])

/-- What the members of a bracket expression are written with: what holds of the members of classes, of characters
behind a backslash and of plain characters, and of texts put together, holds of it. -/
theorem takeMembers_induction {P : Text → Prop} (nil : P []) (append : ∀ {s t}, P s → P t → P (s ++ t))
    (named : ∀ {name ms}, classMembers? name = some ms → P ms) (quoted : ∀ c, P (quote c))
    (plain : ∀ c, c ∉ ['\\', '[', ']'] → P [c]) {t members rest : Text} (h : takeMembers t = .ok (members, rest)) :
    P members := by
  have quotedAll (element : Text) : P (quoteAll element) := by
    induction element with
    | nil => exact nil
    | cons c element ih => exact append (quoted c) ih
  induction t using takeMembers.induct generalizing members with
  | case1 =>
    rw [takeMembers] at h
    cases h
  | case2 t =>
    rw [takeMembers] at h
    cases h
    exact nil
  | case3 t hcut =>
    rw [takeMembers_class, hcut] at h
    cases h
  | case4 t name rest' hcut hclass =>
    rw [takeMembers_class, hcut] at h
    dsimp only at h
    rw [hclass] at h
    cases h
  | case5 t name rest' hcut ms hclass hle ih =>
    rw [takeMembers_class, hcut] at h
    dsimp only at h
    rw [hclass] at h
    obtain ⟨⟨more, rest''⟩, hmore, heq⟩ := bind_eq_ok.1 h
    cases heq
    exact append (named hclass) (ih hmore)
  | case6 mark t hcolon hmark hcut =>
    rw [takeMembers_collating (by simpa using hmark), hcut] at h
    cases h
  | case7 mark t hcolon hmark name rest' hcut hle ih =>
    rw [takeMembers_collating (by simpa using hmark), hcut] at h
    obtain ⟨⟨more, rest''⟩, hmore, heq⟩ := bind_eq_ok.1 h
    cases heq
    exact append (quotedAll name) (ih hmore)
  | case8 mark t hcolon hmark ih =>
    rw [takeMembers, if_neg hmark] at h
    · obtain ⟨⟨more, rest''⟩, hmore, heq⟩ := bind_eq_ok.1 h
      cases heq
      exact append (quoted '[') (ih hmore)
    · exact hcolon
  | case9 c t hle ih =>
    rw [takeMembers] at h
    obtain ⟨⟨more, rest''⟩, hmore, heq⟩ := bind_eq_ok.1 h
    cases heq
    exact append (quoted _) (ih hmore)
  | case10 c t hclose hclass hopen hescape ih =>
    rw [takeMembers] at h
    · obtain ⟨⟨more, rest''⟩, hmore, heq⟩ := bind_eq_ok.1 h
      cases heq
      refine append ?_ (ih hmore)
      split
      · rename_i hc
        have hquote : quote c = ['\\', c] := by
          simp only [Bool.or_eq_true, decide_eq_true_eq] at hc
          rcases hc with rfl | rfl
          all_goals rfl
        exact hquote ▸ quoted c
      · rename_i hc
        simp only [Bool.or_eq_true, decide_eq_true_eq, not_or] at hc
        have hclose : c ≠ ']' := fun hc => hclose hc
        exact plain c (by simp [hc, hclose])
    · exact hclose
    · exact hclass
    · exact hopen
    · exact hescape

theorem members_of_takeMembers {t members rest : Text} (h : takeMembers t = .ok (members, rest)) : Members members := by
  refine takeMembers_induction ⟨rfl, rfl⟩ Members.append members_classMembers? members_quote (fun c hc => ?_) h
  simp only [List.mem_cons, List.not_mem_nil, or_false, not_or] at hc
  simp [Members, Spot.after, outsideFrom, Spot.next, hc]

/-- A bracket expression is written as a set, the members of which do not end it. -/
theorem members_of_takeBracket {t text rest : Text} (h : takeBracket t = .ok (text, rest)) :
    ∃ body, text = '[' :: (body ++ [']']) ∧ Members body := by
  rw [takeBracket_eq_takeMembers] at h
  obtain ⟨⟨members, rest'⟩, hmembers, heq⟩ := bind_eq_ok.1 h
  cases heq
  refine ⟨_ ++ members, rfl, Members.append ?_ (members_of_takeMembers hmembers)⟩
  rcases bracketStart_cases t with ⟨u, -, hs⟩ | ⟨u, -, -, hs⟩ | ⟨u, -, hs⟩ | ⟨-, -, hs⟩
  all_goals
    rw [hs]
    exact ⟨rfl, rfl⟩

/-! ### Pieces -/

/-- Bounds between braces, with digits of any script. -/
def IsInterval (t : Text) : Prop := ∃ ds, t = '\x7b' :: (ds ++ ['\x7d']) ∧ ∀ d ∈ ds, Unicode.isDecimal d ∨ d = ','

/-- No decimal digit of any script has a meaning in pattern text. -/
theorem notMem_signs_of_isDecimal {c : Char} (h : Unicode.isDecimal c) : c ∉ Pattern.signs := by
  intro hc
  have hall : (Pattern.signs.all fun c => !Unicode.isDecimal c) = true := by decide
  have hnot := List.all_eq_true.1 hall c hc
  simp [h] at hnot

theorem isInterval_of_takeInterval {t text rest : Text} (h : takeInterval t = some (text, rest)) : IsInterval text := by
  have hdigits (u comma v : Text) (hcomma : ∀ d ∈ comma, d = ',') :
      IsInterval ('\x7b' :: u.takeWhile Unicode.isDecimal ++ comma ++ v.takeWhile Unicode.isDecimal ++ ['\x7d']) := by
    refine ⟨u.takeWhile Unicode.isDecimal ++ comma ++ v.takeWhile Unicode.isDecimal, by simp, fun d hd => ?_⟩
    rw [List.mem_append, List.mem_append] at hd
    rcases hd with (hd | hd) | hd
    · exact .inl (List.mem_takeWhile_imp hd)
    · exact .inr (hcomma d hd)
    · exact .inl (List.mem_takeWhile_imp hd)
  unfold takeInterval at h
  split at h
  · rename_i u
    dsimp only at h
    split at h
    · split at h
      all_goals
        split at h
        · cases h
        · cases h
          exact hdigits _ _ _ (by simp)
    · cases h
  · cases h

/-- What the pieces of an ERE are written with. -/
def Piece.Fits : Piece → Prop
  | .named letter => letter ∈ "sSwW".toList
  | .bracket t => ∃ body, t = '[' :: (body ++ [']']) ∧ Members body
  | .quantifier t => t ∈ [['*'], ['+'], ['?']] ∨ IsInterval t
  | _ => True

theorem fits_of_nextPiece {b b' : Bool} {c : Char} {t rest : Text} {piece : Piece}
    (h : nextPiece b c t = .ok (piece, b', rest)) : piece.Fits := by
  have hmark {d : Char} (hd : [d] ∈ [['*'], ['+'], ['?']]) :
      (if b then .quantifier [d] else .literal d : Piece).Fits := by
    cases b with
    | true => exact .inl hd
    | false => trivial
  unfold nextPiece at h
  split at h
  · split at h
    · cases h
      trivial
    · split at h
      · rename_i hnamed
        cases h
        exact List.contains_iff_mem.1 hnamed
      · cases h
        trivial
  · obtain ⟨⟨text, rest'⟩, hbracket, heq⟩ := bind_eq_ok.1 h
    cases heq
    exact members_of_takeBracket hbracket
  · cases h
    exact hmark (by simp)
  · cases h
    exact hmark (by simp)
  · cases h
    exact hmark (by simp)
  · split at h
    · rename_i text rest' hcount
      cases h
      split at hcount
      · exact .inr (isInterval_of_takeInterval hcount)
      · cases hcount
    · cases h
      trivial
  all_goals
    cases h
    trivial

theorem fits_of_piecesFuel {fuel : Nat} {b : Bool} {t : Text} {ps : List Piece} (h : piecesFuel fuel b t = .ok ps) :
    ∀ piece ∈ ps, piece.Fits := by
  induction fuel generalizing b t ps with
  | zero =>
    cases t <;> cases h <;> exact List.forall_mem_nil _
  | succ fuel ih =>
    cases t with
    | nil =>
      cases h
      exact List.forall_mem_nil _
    | cons c t =>
      obtain ⟨⟨piece, canRepeat, rest⟩, hnext, h⟩ := bind_eq_ok.1 h
      obtain ⟨more, hmore, heq⟩ := bind_eq_ok.1 h
      cases heq
      exact List.forall_mem_cons.2 ⟨fits_of_nextPiece hnext, ih hmore⟩

def Piece.isBracket : Piece → Bool
  | .bracket _ => true
  | _ => false

/-- A set without members, which goes on behind its closing bracket. -/
def Piece.leavesOpen : Piece → Bool
  | .bracket t => t = ['[', ']'] || t = ['[', '^', ']']
  | _ => false

/-- The ends of a list of pieces that begin outside of sets that have been left open. -/
def exposed : Bool → List Piece → List (List Piece)
  | _, [] => []
  | true, piece :: rest => exposed (!piece.isBracket) rest
  | false, piece :: rest => (piece :: rest) :: exposed piece.leavesOpen rest

theorem suffix_of_mem_exposed {left : Bool} {ps qs : List Piece} (h : qs ∈ exposed left ps) : qs <:+ ps := by
  induction ps generalizing left with
  | nil => cases left <;> cases h
  | cons piece ps ih =>
    cases left with
    | true => exact (ih h).trans (List.suffix_cons piece ps)
    | false =>
      rcases List.mem_cons.1 h with rfl | h
      · exact List.suffix_refl _
      · exact (ih h).trans (List.suffix_cons piece ps)

namespace Piece.Fits

variable {piece : Piece}

/-- Nothing in a quantifier is a backslash or a bracket, or begins a group or an anchor. -/
theorem plain_quantifier {q : Text} (h : (Piece.quantifier q).Fits) :
    ∀ c ∈ q, c ∉ ['\\', '[', ']', '(', '$'] := by
  intro c hc
  rcases h with h | ⟨ds, rfl, hds⟩
  · simp only [List.mem_cons, List.not_mem_nil, or_false] at h
    rcases h with rfl | rfl | rfl
    all_goals
      rw [List.mem_singleton.1 hc]
      decide
  · rw [List.mem_cons, List.mem_append, List.mem_singleton] at hc
    rcases hc with rfl | hc | rfl
    · decide
    · rcases hds c hc with hdecimal | rfl
      · exact notMem_of_signs (notMem_signs_of_isDecimal hdecimal) (by decide)
      · decide
    · decide

theorem scan (h : piece.Fits) :
    Spot.outside.after piece.render = (if piece.leavesOpen then .inside else .outside) ∧
      Spot.inside.after piece.render = (if piece.isBracket then .outside else .inside) ∧
        outsideFrom .inside piece.render = [] := by
  cases piece with
  | literal c =>
    have hmembers := members_quote c
    refine ⟨?_, hmembers⟩
    change Spot.outside.after (quote c) = .outside
    rcases quote_cases c with ⟨hquote, -⟩ | ⟨hquote, hplain⟩
    · exact hquote ▸ rfl
    · refine hquote ▸ (Pattern.scan_plain fun d hd => ?_).1
      exact List.mem_singleton.1 hd ▸ notMem_of_signs hplain (by decide)
  | named letter => exact ⟨rfl, rfl, rfl⟩
  | bracket t =>
    obtain ⟨body, rfl, hbody⟩ := h
    have hopen : (Piece.bracket ('[' :: (body ++ [']']))).leavesOpen = decide (body = [] ∨ body = ['^']) := by
      have hcaret : body ++ [']'] = ['^'] ++ [']'] ↔ body = ['^'] := List.append_left_inj _
      rw [List.singleton_append] at hcaret
      simp [leavesOpen, hcaret]
    have hafter := hbody.scan_set.1
    rw [hopen]
    refine ⟨?_, hbody.closes⟩
    simpa [render] using hafter
  | quantifier q =>
    exact Pattern.scan_plain fun c hc hmem => h.plain_quantifier c hc (List.mem_append_left ['(', '$'] hmem)
  | _ => exact ⟨rfl, rfl, rfl⟩

theorem allowed (h : piece.Fits) {t : Text} (ht : t ∈ outsideFrom .outside piece.render) : Pattern.Allowed t := by
  cases piece with
  | literal c =>
    change t ∈ outsideFrom .outside (quote c) at ht
    rcases quote_cases c with ⟨hquote, hother⟩ | ⟨hquote, hplain⟩
    · rw [hquote] at ht
      obtain rfl := List.mem_singleton.1 ht
      refine ⟨nofun, fun u hu => ?_, nofun⟩
      cases hu
      exact ⟨c, rfl, .inl hother⟩
    · have hplaces : outsideFrom .outside [c] = [[c]] := rfl
      rw [hquote, hplaces, List.mem_singleton] at ht
      exact ht ▸ Pattern.allowed_of_head (notMem_of_signs hplain (by decide))
  | named letter =>
    obtain rfl := List.mem_singleton.1 ht
    refine ⟨nofun, fun u hu => ?_, nofun⟩
    cases hu
    exact ⟨letter, rfl, .inr (List.mem_append_left ['Z'] h)⟩
  | bracket text =>
    obtain ⟨body, rfl, hbody⟩ := h
    change t ∈ outsideFrom .outside ('[' :: (body ++ [']'])) at ht
    rw [hbody.scan_set.2, List.mem_singleton] at ht
    exact ht ▸ Pattern.allowed_of_head (by decide)
  | quantifier q =>
    obtain ⟨c, t, rfl⟩ := List.exists_cons_of_ne_nil (Pattern.ne_nil_of_mem_outsideFrom ht)
    have hc := h.plain_quantifier c ((Pattern.suffix_of_mem_outsideFrom ht).subset List.mem_cons_self)
    have hsubset : ['(', '\\', '$'] ⊆ ['\\', '[', ']', '(', '$'] := by decide
    exact Pattern.allowed_of_head fun hmem => hc (hsubset hmem)
  | openGroup =>
    have hplaces : outsideFrom .outside openGroup.render = [['(', '?', ':'], ['?', ':'], [':']] := rfl
    simp only [hplaces, List.mem_cons, List.not_mem_nil, or_false] at ht
    rcases ht with rfl | rfl | rfl
    · refine ⟨fun u hu => ?_, nofun, nofun⟩
      cases hu
      exact List.prefix_refl _
    · exact Pattern.allowed_of_head (by decide)
    · exact Pattern.allowed_of_head (by decide)
  | atEnd =>
    obtain rfl := List.mem_singleton.1 ht
    refine ⟨nofun, fun u hu => ?_, nofun⟩
    cases hu
    exact ⟨'Z', rfl, .inr (by decide)⟩
  | any => exact List.mem_singleton.1 ht ▸ Pattern.allowed_of_head (by decide)
  | closeGroup => exact List.mem_singleton.1 ht ▸ Pattern.allowed_of_head (by decide)
  | bar => exact List.mem_singleton.1 ht ▸ Pattern.allowed_of_head (by decide)
  | atStart => exact List.mem_singleton.1 ht ▸ Pattern.allowed_of_head (by decide)

end Piece.Fits

theorem outsideFrom_pieces {ps : List Piece} (hps : ∀ piece ∈ ps, piece.Fits) (left : Bool) {t : Text} :
    t ∈ outsideFrom (if left then .inside else .outside) (ps.flatMap Piece.render) ↔
      ∃ piece rest, piece :: rest ∈ exposed left ps ∧ ∃ u ∈ outsideFrom .outside piece.render,
        t = u ++ rest.flatMap Piece.render := by
  induction ps generalizing left with
  | nil => cases left <;> simp [exposed, outsideFrom]
  | cons piece ps ih =>
    rw [List.forall_mem_cons] at hps
    obtain ⟨houtside, hinside, hnone⟩ := hps.1.scan
    rw [List.flatMap_cons, Pattern.outsideFrom_append]
    cases left with
    | true =>
      have hspot : (if piece.isBracket then .outside else .inside : Spot) =
          if !piece.isBracket then .inside else .outside := by
        cases piece.isBracket <;> rfl
      rw [if_pos rfl, hnone, hinside, hspot, List.map_nil, List.nil_append, ih hps.2]
      rfl
    | false =>
      rw [if_neg (by simp), houtside, List.mem_append, ih hps.2, exposed]
      constructor
      · rintro (ht | ⟨piece', rest, hmem, hu⟩)
        · obtain ⟨u, hu, rfl⟩ := List.mem_map.1 ht
          exact ⟨piece, ps, List.mem_cons_self, u, hu, rfl⟩
        · exact ⟨piece', rest, List.mem_cons_of_mem _ hmem, hu⟩
      · rintro ⟨piece', rest, hmem, u, hu, rfl⟩
        rcases List.mem_cons.1 hmem with heq | hmem
        · cases heq
          exact .inl (List.mem_map_of_mem hu)
        · exact .inr ⟨piece', rest, hmem, u, hu, rfl⟩

/-! ### Quantifiers in a row -/

/-- What a quantifier of an ERE is in a pattern text does not depend on what follows. -/
theorem afterQuantifier_append {q : Text} (h : (Piece.quantifier q).Fits) :
    (∀ t, afterQuantifier (q ++ t) = none) ∨ ∀ t, afterQuantifier (q ++ t) = some t := by
  rcases h with h | ⟨ds, rfl, hds⟩
  · simp only [List.mem_cons, List.not_mem_nil, or_false] at h
    rcases h with rfl | rfl | rfl
    all_goals exact .inr fun t => rfl
  · have hclose : '\x7d' ∉ ds := by
      intro hmem
      rcases hds _ hmem with hdecimal | hcomma
      · exact notMem_signs_of_isDecimal hdecimal (by decide)
      · cases hcomma
    have hbraces (t : Text) : afterQuantifier ('\x7b' :: (ds ++ ['\x7d']) ++ t) =
        (Pattern.takeBounds (ds ++ '\x7d' :: t)).map fun bounds => bounds.2.2 := by
      rw [List.cons_append, List.append_assoc]
      rfl
    simp only [hbraces]
    rcases Pattern.takeBounds_closed hclose with hnone | ⟨low, high, hsome⟩
    · exact .inl fun t => by rw [hnone, Option.map_none]
    · exact .inr fun t => by rw [hsome, Option.map_some]

/-- A mark that could make a quantifier lazy or possessive is a quantifier itself. -/
theorem eq_of_head?_render {piece : Piece} (h : piece.Fits) {c : Char} (hc : c ∈ ['?', '+'])
    (hhead : piece.render.head? = some c) : piece = .quantifier [c] := by
  have hne {d : Char} (hd : d ∉ ['?', '+']) (hhead : some d = some c) : piece = .quantifier [c] :=
    absurd (Option.some.inj hhead ▸ hc) hd
  cases piece with
  | literal d =>
    change (quote d).head? = some c at hhead
    rcases quote_cases d with ⟨hquote, -⟩ | ⟨hquote, hplain⟩
    · rw [hquote] at hhead
      exact hne (by decide) hhead
    · rw [hquote] at hhead
      exact hne (notMem_of_signs hplain (by decide)) hhead
  | bracket t =>
    obtain ⟨body, rfl, -⟩ := h
    exact hne (by decide) hhead
  | quantifier q =>
    rcases h with h | ⟨ds, rfl, -⟩
    · simp only [List.mem_cons, List.not_mem_nil, or_false] at h
      rcases h with rfl | rfl | rfl
      · exact hne (by decide) hhead
      · cases hhead
        rfl
      · cases hhead
        rfl
    · exact hne (by decide) hhead
  | _ => exact hne (by decide) hhead

/-- No quantifier begins within another. -/
theorem exists_tail_quantifier {q : Text} (h : (Piece.quantifier q).Fits) :
    ∃ c t, q = c :: t ∧ ∀ d ∈ t, d ∉ ['*', '+', '?', '\x7b'] := by
  rcases h with h | ⟨ds, rfl, hds⟩
  · simp only [List.mem_cons, List.not_mem_nil, or_false] at h
    rcases h with rfl | rfl | rfl
    all_goals exact ⟨_, [], rfl, List.forall_mem_nil _⟩
  · refine ⟨_, _, rfl, fun d hd => ?_⟩
    rcases List.mem_append.1 hd with hd | hd
    · rcases hds d hd with hdecimal | rfl
      · exact notMem_of_signs (notMem_signs_of_isDecimal hdecimal) (by decide)
      · decide
    · rw [List.mem_singleton.1 hd]
      decide

theorem exists_render {piece : Piece} (h : piece.Fits) : ∃ c t, piece.render = c :: t := by
  cases piece with
  | literal c =>
    rcases quote_cases c with ⟨hquote, -⟩ | ⟨hquote, -⟩
    · exact ⟨_, _, hquote⟩
    · exact ⟨_, _, hquote⟩
  | bracket t =>
    obtain ⟨body, rfl, -⟩ := h
    exact ⟨_, _, rfl⟩
  | quantifier q =>
    obtain ⟨c, t, rfl, -⟩ := exists_tail_quantifier h
    exact ⟨c, t, rfl⟩
  | _ => exact ⟨_, _, rfl⟩

/-- A quantifier with such a mark behind it is a whole piece. -/
theorem quantifier_of_place {piece : Piece} (h : piece.Fits) {t more u : Text}
    (ht : t ∈ outsideFrom .outside piece.render) (hu : afterQuantifier (t ++ more) = some u) {c : Char}
    (hc : c ∈ ['?', '+']) (hhead : u.head? = some c) : piece = .quantifier t := by
  have hne {d : Char} {v : Text} (hd : d ∉ ['*', '+', '?', '\x7b']) (htext : t = d :: v) : piece = .quantifier t := by
    rw [htext, List.cons_append, Pattern.afterQuantifier_eq_none hd] at hu
    cases hu
  cases piece with
  | literal d =>
    change t ∈ outsideFrom .outside (quote d) at ht
    rcases quote_cases d with ⟨hquote, -⟩ | ⟨hquote, hplain⟩
    · rw [hquote] at ht
      exact hne (by decide) (List.mem_singleton.1 ht)
    · have hplaces : outsideFrom .outside [d] = [[d]] := rfl
      rw [hquote, hplaces, List.mem_singleton] at ht
      exact hne (notMem_of_signs hplain (by decide)) ht
  | bracket text =>
    obtain ⟨body, rfl, hbody⟩ := h
    change t ∈ outsideFrom .outside ('[' :: (body ++ [']'])) at ht
    rw [hbody.scan_set.2, List.mem_singleton] at ht
    exact hne (by decide) ht
  | openGroup =>
    have hplaces : outsideFrom .outside Piece.openGroup.render = [['(', '?', ':'], ['?', ':'], [':']] := rfl
    simp only [hplaces, List.mem_cons, List.not_mem_nil, or_false] at ht
    rcases ht with ht | rfl | ht
    · exact hne (by decide) ht
    · cases hu
      cases hhead
      exact absurd hc (by decide)
    · exact hne (by decide) ht
  | quantifier q =>
    obtain ⟨d, v, rfl⟩ := List.exists_cons_of_ne_nil (Pattern.ne_nil_of_mem_outsideFrom ht)
    obtain ⟨e, tail, rfl, htail⟩ := exists_tail_quantifier h
    rcases List.suffix_cons_iff.1 (Pattern.suffix_of_mem_outsideFrom ht) with heq | hsuffix
    · rw [heq]
    · exact hne (htail d (hsuffix.subset List.mem_cons_self)) rfl
  | _ => exact hne (by decide) (List.mem_singleton.1 ht)

/-- Wherever an ERE can be translated, what it becomes has, outside of sets, no groups, references and assertions that
EREs do not have.  A quantifier in it is lazy or possessive exactly if in the ERE, outside of a set that a bracket
expression without members has left open, a quantifier has a `?` or a `+` right behind it. -/
theorem portable_of_patternText {ere p : Text} (h : patternText ere = .ok p) :
    Pattern.Portable p ∧ ∃ ps, pieces ere = .ok ps ∧
      (Pattern.Requantified p ↔ ∃ q c rest, .quantifier q :: .quantifier [c] :: rest ∈ exposed false ps ∧
        afterQuantifier q = some [] ∧ c ∈ ['?', '+']) := by
  obtain ⟨ps, hps, heq⟩ := bind_eq_ok.1 h
  cases heq
  have hfits := fits_of_piecesFuel hps
  have hplaces {t : Text} := outsideFrom_pieces hfits false (t := t)
  refine ⟨fun t ht => ?_, ps, hps, ?_, ?_⟩
  · obtain ⟨piece, rest, hmem, u, hu, rfl⟩ := hplaces.1 ht
    have hpiece := hfits piece ((suffix_of_mem_exposed hmem).subset List.mem_cons_self)
    exact (hpiece.allowed hu).append (Pattern.ne_nil_of_mem_outsideFrom hu) _
  · rintro ⟨t, ht, u, hu, c, hc, hhead⟩
    obtain ⟨piece, rest, hmem, v, hv, rfl⟩ := hplaces.1 ht
    have hsuffix := suffix_of_mem_exposed hmem
    have hpiece := hfits piece (hsuffix.subset List.mem_cons_self)
    obtain rfl := quantifier_of_place hpiece hv hu hc hhead
    rcases afterQuantifier_append hpiece with hnone | hsome
    · rw [hnone] at hu
      cases hu
    · rw [hsome] at hu
      cases hu
      cases rest with
      | nil => cases hhead
      | cons next rest =>
        have hnext := hfits next (hsuffix.subset (by simp))
        obtain ⟨d, t, hrender⟩ := exists_render hnext
        rw [List.flatMap_cons, hrender] at hhead
        obtain rfl := eq_of_head?_render hnext hc (by rw [hrender]; exact hhead)
        exact ⟨v, c, rest, hmem, by simpa using hsome [], hc⟩
  · rintro ⟨q, c, rest, hmem, hq, hc⟩
    have hpiece := hfits _ ((suffix_of_mem_exposed hmem).subset List.mem_cons_self)
    obtain ⟨d, t, rfl, -⟩ := exists_tail_quantifier hpiece
    have hplace := hplaces.2 ⟨_, _, hmem, d :: t, Pattern.self_mem_outsideFrom d t, rfl⟩
    refine ⟨_, hplace, c :: rest.flatMap Piece.render, ?_, c, hc, rfl⟩
    rcases afterQuantifier_append hpiece with hnone | hsome
    · rw [← List.append_nil (d :: t), hnone] at hq
      cases hq
    · exact hsome _

/-- In the set that the empty collating element leaves open, quantifiers are members. -/
theorem portable_of_patternText_open : Pattern.Portable "[]*?[x](?:y)\\Z".toList ∧
    ¬Pattern.Requantified "[]*?[x](?:y)\\Z".toList := by
  have htext : patternText "[[..]]*?[x](y)$".toList = .ok "[]*?[x](?:y)\\Z".toList := by decide +kernel
  have hpieces : pieces "[[..]]*?[x](y)$".toList = .ok [.bracket "[]".toList, .quantifier ['*'], .quantifier ['?'],
      .bracket "[x]".toList, .openGroup, .literal 'y', .closeGroup, .atEnd] := by
    decide +kernel
  obtain ⟨hportable, ps, hps, hiff⟩ := portable_of_patternText htext
  refine ⟨hportable, fun hrequantified => ?_⟩
  obtain ⟨q, c, rest, hmem, -⟩ := hiff.1 hrequantified
  cases hpieces.symm.trans hps
  simp [exposed, Piece.leavesOpen, Piece.isBracket] at hmem

/-- A quantifier behind another makes it lazy. -/
theorem requantified_star : patternText "a*?".toList = .ok "a*?".toList ∧ Pattern.Requantified "a*?".toList ∧
    Pattern.marks "a*?".toList = [.test (.one 'a'), .count 0 none .lazy] :=
  ⟨rfl, ⟨"*?".toList, by decide, "?".toList, rfl, '?', by decide, rfl⟩, rfl⟩

end Ere

end Awk
