import Awk.Proofs.Regex.Compilation
import Awk.Proofs.Regex.Continued
import Awk.Proofs.Regex.Dialect

/-!
# Pattern text with more behind it

The pattern text of an ERE ends neither in a backslash nor in the middle of a code (`Pattern.Complete`).  If more text
is put behind it (`Detached`), each mark stays what it was, unless it was not well formed; and then it is not either
way (`Pattern.Complete.sound_nextMark`).
-/

namespace Awk

open Awk.Action (bind_eq_ok)

namespace Pattern

/-- A backslash has a character behind it, and the code of a character its two digits. -/
inductive Complete : Text → Prop
  | nil : Complete []
  | plain {c : Char} {t : Text} (hc : c ≠ '\\') (ht : Complete t) : Complete (c :: t)
  | escape {c : Char} {t : Text} (hc : c ≠ 'x') (ht : Complete t) : Complete ('\\' :: c :: t)
  | code {a b : Char} {t : Text} (ha : (hexValue? a).isSome) (hb : (hexValue? b).isSome) (ht : Complete t) :
    Complete ('\\' :: 'x' :: a :: b :: t)

namespace Complete

variable {c : Char} {s t : Text}

theorem append (hs : Complete s) (ht : Complete t) : Complete (s ++ t) := by
  induction hs with
  | nil => exact ht
  | plain hc _ ih => exact .plain hc ih
  | escape hc _ ih => exact .escape hc ih
  | code ha hb _ ih => exact .code ha hb ih

theorem of_plain (h : ∀ c ∈ t, c ≠ '\\') : Complete t := by
  induction t with
  | nil => exact .nil
  | cons c t ih =>
    rw [List.forall_mem_cons] at h
    exact .plain h.1 (ih h.2)

theorem tail (hc : c ≠ '\\') (h : Complete (c :: t)) : Complete t := by
  cases h with
  | plain _ ht => exact ht
  | escape => exact absurd rfl hc
  | code => exact absurd rfl hc

theorem of_append (hs : ∀ c ∈ s, c ≠ '\\') (h : Complete (s ++ t)) : Complete t := by
  induction s with
  | nil => exact h
  | cons c s ih =>
    rw [List.forall_mem_cons] at hs
    exact ih hs.2 (h.tail hs.1)

theorem ne_escape_of_hexValue? (h : (hexValue? c).isSome) : c ≠ '\\' := by
  rintro rfl
  cases h

/-- The character behind a backslash is there, and what follows it is complete. -/
theorem exists_of_escape (h : Complete ('\\' :: t)) : ∃ c u, t = c :: u ∧ Complete u := by
  cases h with
  | plain hc => exact absurd rfl hc
  | escape _ ht => exact ⟨_, _, rfl, ht⟩
  | code ha hb ht =>
    exact ⟨_, _, rfl, .plain (ne_escape_of_hexValue? ha) (.plain (ne_escape_of_hexValue? hb) ht)⟩

end Complete

/-! ### Sets -/

variable {c : Char} {t tail rest : Text} {mark : Mark}

theorem takeMember_plain (hc : c ≠ '\\') (t : Text) : takeMember (c :: t) = some (.range c c, t) := by
  unfold takeMember
  split
  all_goals simp_all

theorem takeMember_escape (hc : c ≠ 'x') (t : Text) :
    takeMember ('\\' :: c :: t) = (escapedPart? c).map (·, t) := by
  unfold takeMember
  split
  all_goals simp_all
  rename_i hpair heq
  exact absurd heq.2.symm (hpair c t heq.1.symm)

/-- In a complete text the next member, or a bad escape in its place, is there wherever the text goes on. -/
theorem Complete.takeMember_append (h : Complete t) (hne : t ≠ []) :
    (∀ more, takeMember (t ++ more) = none) ∨
      ∃ part rest, Complete rest ∧ ∀ more, takeMember (t ++ more) = some (part, rest ++ more) := by
  cases h with
  | nil => exact absurd rfl hne
  | plain hc ht => exact .inr ⟨_, _, ht, fun more => takeMember_plain hc _⟩
  | @escape c u hc ht =>
    cases hpart : escapedPart? c with
    | none =>
      refine .inl fun more => (takeMember_escape hc _).trans ?_
      rw [hpart]
      rfl
    | some part =>
      refine .inr ⟨part, u, ht, fun more => (takeMember_escape hc _).trans ?_⟩
      rw [hpart]
      rfl
  | @code a b u ha hb ht =>
    obtain ⟨m, hm⟩ := Option.isSome_iff_exists.1 ha
    obtain ⟨n, hn⟩ := Option.isSome_iff_exists.1 hb
    let c := Char.ofNat (16 * m + n)
    exact .inr ⟨.range c c, u, ht, fun more => by simp [takeMember, hm, hn, c]⟩

theorem takeParts_eq_none (first : Bool) (h : ']' ∉ t) : takeParts first t = none := by
  cases hparts : takeParts first t with
  | none => rfl
  | some found =>
    obtain ⟨cut, rfl⟩ := takeParts_cut hparts
    exact absurd (by simp) h

/-- Parts of a set, its first member having been read. -/
def partsAfter (lo : SetPart) : Text → Option (List SetPart × Text)
  | '-' :: ']' :: rest => some ([lo, .range '-' '-'], rest)
  | '-' :: rest => (takeMember rest).bind fun (hi, rest) =>
    (rangeTo? lo hi).bind fun part => (takeParts false rest).map fun (parts, rest) => (part :: parts, rest)
  | rest => (takeParts false rest).map fun (parts, rest) => (lo :: parts, rest)

theorem partsAfter_range (lo : SetPart) (hend : t.head? ≠ some ']') :
    partsAfter lo ('-' :: t) = (takeMember t).bind fun (hi, rest) =>
      (rangeTo? lo hi).bind fun part => (takeParts false rest).map fun (parts, rest) => (part :: parts, rest) := by
  cases t with
  | nil => rfl
  | cons c t =>
    have hc : c ≠ ']' := fun hc => hend (congrArg some hc)
    rw [partsAfter]
    exact fun rest heq => hc (List.cons.inj heq).1

theorem partsAfter_single (lo : SetPart) (hhyphen : t.head? ≠ some '-') :
    partsAfter lo t = (takeParts false t).map fun (parts, rest) => (lo :: parts, rest) := by
  cases t with
  | nil => rfl
  | cons c t =>
    have hc : c ≠ '-' := fun hc => hhyphen (congrArg some hc)
    rw [partsAfter]
    · exact fun rest heq => hc (List.cons.inj heq).1
    · exact fun rest heq => hc (List.cons.inj heq).1

theorem takeParts_eq (first : Bool) (t : Text) :
    takeParts first t = if t.head? = some ']' && !first then some ([], t.tail)
      else (takeMember t).bind fun (lo, rest) => partsAfter lo rest := by
  rw [takeParts]
  split
  · rfl
  · split
    · rename_i hnone
      rw [hnone, Option.bind_none]
    · rename_i hsome
      rw [hsome]
      rfl
    · rename_i lo rest hend hsome
      dsimp only
      rw [hsome, Option.bind_some, partsAfter_range lo]
      · split
        · rename_i hnone
          rw [hnone, Option.bind_none]
        · rename_i hsome
          rw [hsome, Option.bind_some]
          dsimp only
          split
          · rename_i hnone
            rw [hnone, Option.bind_none]
          · rename_i hrange
            rw [hrange, Option.bind_some]
      · intro hhead
        obtain ⟨u, rfl⟩ := List.head?_eq_some_iff.1 hhead
        exact hend u rfl
    · rename_i lo rest _ hhyphen hsome
      dsimp only
      rw [hsome, Option.bind_some, partsAfter_single lo]
      intro hhead
      obtain ⟨u, rfl⟩ := List.head?_eq_some_iff.1 hhead
      exact hhyphen u rfl

/-- Both have failed; or both have read the same, and what was left of the one is complete, and has `tail` behind it in
the other. -/
def Kept {α : Type} (tail : Text) (x y : Option (α × Text)) : Prop :=
  x = none ∧ y = none ∨ ∃ a rest, Complete rest ∧ x = some (a, rest) ∧ y = some (a, rest ++ tail)

theorem Kept.map {α β : Type} {x y : Option (α × Text)} (h : Kept tail x y) (f : α → β) :
    Kept tail (x.map fun (a, rest) => (f a, rest)) (y.map fun (a, rest) => (f a, rest)) := by
  rcases h with ⟨rfl, rfl⟩ | ⟨a, rest, hrest, rfl, rfl⟩
  · exact .inl ⟨rfl, rfl⟩
  · exact .inr ⟨f a, rest, hrest, rfl, rfl⟩

theorem Complete.kept_partsAfter {rest : Text} (h : Complete rest) (htail : Detached tail)
    (hmore : ∀ u, Complete u → u.length ≤ rest.length → Kept tail (takeParts false u) (takeParts false (u ++ tail)))
    (lo : SetPart) : Kept tail (partsAfter lo rest) (partsAfter lo (rest ++ tail)) := by
  by_cases hhyphen : rest.head? = some '-'
  · obtain ⟨u, rfl⟩ := List.head?_eq_some_iff.1 hhyphen
    have hu := h.tail (by decide)
    by_cases hend : u.head? = some ']'
    · obtain ⟨v, rfl⟩ := List.head?_eq_some_iff.1 hend
      exact .inr ⟨_, v, hu.tail (by decide), rfl, rfl⟩
    have hend' : (u ++ tail).head? ≠ some ']' := fun hhead => hend (htail.head?_append (by decide) hhead)
    rw [List.cons_append, partsAfter_range lo hend, partsAfter_range lo hend']
    by_cases hnil : u = []
    · subst hnil
      refine .inl ⟨rfl, Option.bind_eq_none_iff.2 fun (hi, r) hmember => ?_⟩
      obtain ⟨cut, hcut⟩ := takeMember_cut hmember
      rw [List.nil_append] at hcut
      have hclose : ']' ∉ r := fun hmem => htail.bracket (hcut ▸ List.mem_append_right cut hmem)
      dsimp only
      rw [takeParts_eq_none false hclose]
      cases rangeTo? lo hi <;> rfl
    · rcases hu.takeMember_append hnil with hmember | ⟨hi, r, hr, hmember⟩
      · have hhi := hmember []
        rw [List.append_nil] at hhi
        rw [hhi, hmember]
        exact .inl ⟨rfl, rfl⟩
      · have hhi := hmember []
        rw [List.append_nil, List.append_nil] at hhi
        have hlt := length_takeMember hhi
        rw [hhi, hmember, Option.bind_some, Option.bind_some]
        dsimp only
        cases rangeTo? lo hi with
        | none => exact .inl ⟨rfl, rfl⟩
        | some part => exact (hmore r hr (by rw [List.length_cons]; omega)).map _
  · have hhyphen' : (rest ++ tail).head? ≠ some '-' := fun hhead => hhyphen (htail.head?_append (by decide) hhead)
    rw [partsAfter_single lo hhyphen, partsAfter_single lo hhyphen']
    exact (hmore rest h (Nat.le_refl _)).map _

theorem Complete.kept_takeParts (h : Complete t) (htail : Detached tail) (first : Bool) :
    Kept tail (takeParts first t) (takeParts first (t ++ tail)) := by
  induction hlength : t.length using Nat.strongRecOn generalizing t first with
  | ind n ih =>
    subst hlength
    by_cases hnil : t = []
    · subst hnil
      exact .inl ⟨takeParts_eq_none first List.not_mem_nil, takeParts_eq_none first htail.bracket⟩
    have hhead : (t ++ tail).head? = t.head? := List.head?_append_of_ne_nil t hnil
    rw [takeParts_eq, takeParts_eq, hhead]
    split
    · rename_i hclose
      simp only [Bool.and_eq_true, decide_eq_true_eq] at hclose
      obtain ⟨u, rfl⟩ := List.head?_eq_some_iff.1 hclose.1
      exact .inr ⟨[], u, h.tail (by decide), rfl, rfl⟩
    · rcases h.takeMember_append hnil with hmember | ⟨lo, rest, hrest, hmember⟩
      · have hlo := hmember []
        rw [List.append_nil] at hlo
        rw [hlo, hmember]
        exact .inl ⟨rfl, rfl⟩
      · have hlo := hmember []
        rw [List.append_nil, List.append_nil] at hlo
        have hlt := length_takeMember hlo
        rw [hlo, hmember, Option.bind_some, Option.bind_some]
        exact hrest.kept_partsAfter htail (fun u hu hle => ih u.length (by omega) hu false rfl) lo

theorem Complete.kept_takeSet (h : Complete t) (htail : Detached tail) :
    Kept tail (takeSet t) (takeSet (t ++ tail)) := by
  by_cases hcaret : t.head? = some '^'
  · obtain ⟨u, rfl⟩ := List.head?_eq_some_iff.1 hcaret
    exact ((h.tail (by decide)).kept_takeParts htail true).map _
  · have heq {u : Text} (hu : u.head? ≠ some '^') :
        takeSet u = (takeParts true u).map fun (parts, rest) => (.set false parts, rest) := by
      unfold takeSet
      split
      · exact absurd rfl hu
      · rfl
    rw [heq hcaret, heq fun hhead => hcaret (htail.head?_append (by decide) hhead)]
    exact (h.kept_takeParts htail true).map _

/-! ### Marks -/

theorem takeGreed_append (htail : Detached tail) (t : Text) :
    takeGreed (t ++ tail) = ((takeGreed t).1, (takeGreed t).2 ++ tail) := by
  by_cases hlazy : t.head? = some '?'
  · obtain ⟨u, rfl⟩ := List.head?_eq_some_iff.1 hlazy
    rfl
  by_cases hpossessive : t.head? = some '+'
  · obtain ⟨u, rfl⟩ := List.head?_eq_some_iff.1 hpossessive
    rfl
  have hplain : Plain (t ++ tail) := ⟨fun hhead => hlazy (htail.head?_append (by decide) hhead), fun hhead =>
    hpossessive (htail.head?_append (by decide) hhead)⟩
  rw [takeGreed_plain ⟨hlazy, hpossessive⟩, takeGreed_plain hplain]

theorem Complete.takeGreed (h : Complete t) : Complete (takeGreed t).2 := by
  unfold Pattern.takeGreed
  split
  · exact h.tail (by decide)
  · exact h.tail (by decide)
  · exact h

theorem countMark_append (htail : Detached tail) (least : Nat) (most : Option Nat) (t : Text) :
    countMark least most (t ++ tail) = ((countMark least most t).1, (countMark least most t).2 ++ tail) := by
  simp only [countMark, takeGreed_append htail]

/-- The mark is the same with `tail` behind, and leaves a complete text, unless it is not well formed either way. -/
def Sound (tail : Text) (x y : Mark × Text) : Prop :=
  x.1 = .bad ∧ y.1 = .bad ∨ Complete x.2 ∧ y = (x.1, x.2 ++ tail)

theorem Complete.sound_countMark (h : Complete t) (htail : Detached tail) (least : Nat) (most : Option Nat) :
    Sound tail (countMark least most t) (countMark least most (t ++ tail)) :=
  .inr ⟨h.takeGreed, countMark_append htail least most t⟩

theorem Complete.sound_boundsMark (h : Complete t) (htail : Detached tail) (low high : Text) :
    Sound tail (boundsMark low high t) (boundsMark low high (t ++ tail)) := by
  unfold boundsMark
  dsimp only
  split
  · exact .inl ⟨rfl, rfl⟩
  · split
    · exact .inl ⟨rfl, rfl⟩
    · exact h.sound_countMark htail _ _

theorem nextMark_brace_of_some {low high rest : Text}
    (h : takeBounds t = some (low, high, rest)) : nextMark '\x7b' t = boundsMark low high rest := by
  simp [nextMark, h]

theorem nextMark_brace_of_none (h : takeBounds t = none) : nextMark '\x7b' t = (.test (.one '\x7b'), t) := by
  simp [nextMark, h]

theorem Complete.sound_brace (h : Complete t) (htail : Detached tail) :
    Sound tail (nextMark '\x7b' t) (nextMark '\x7b' (t ++ tail)) := by
  by_cases hclose : '\x7d' ∈ t
  · obtain ⟨ds, u, rfl, hds⟩ := List.eq_append_cons_of_mem hclose
    rw [List.append_assoc, List.cons_append]
    rcases takeBounds_closed hds with hnone | ⟨low, high, hsome⟩
    · rw [nextMark_brace_of_none (hnone _), nextMark_brace_of_none (hnone _)]
      exact .inr ⟨h, by simp⟩
    · rw [nextMark_brace_of_some (hsome _), nextMark_brace_of_some (hsome _)]
      refine Complete.sound_boundsMark ?_ htail low high
      obtain ⟨cut, hcut, hdigits⟩ := takeBounds_cut (hsome u)
      rw [hcut] at h
      refine (h.of_append fun d hd => ?_).tail (by decide)
      rintro rfl
      rcases hdigits '\\' hd with hdigit | hcomma
      · cases hdigit
      · cases hcomma
  · have hnone {u : Text} (hu : '\x7d' ∉ u) : takeBounds u = none := by
      cases hbounds : takeBounds u with
      | none => rfl
      | some found =>
        obtain ⟨cut, rfl, -⟩ := takeBounds_cut hbounds
        exact absurd (by simp) hu
    rw [nextMark_brace_of_none (hnone hclose), nextMark_brace_of_none (hnone (by simp [hclose, htail.brace]))]
    exact .inr ⟨h, rfl⟩

theorem nextMark_bracket_of_some {set : CharTest} {rest : Text} (h : takeSet t = some (set, rest)) :
    nextMark '[' t = (.test set, rest) := by
  simp [nextMark, h]

theorem nextMark_bracket_of_none (h : takeSet t = none) : nextMark '[' t = (.bad, []) := by
  simp [nextMark, h]

theorem Complete.sound_bracket (h : Complete t) (htail : Detached tail) :
    Sound tail (nextMark '[' t) (nextMark '[' (t ++ tail)) := by
  rcases h.kept_takeSet htail with ⟨hnone, hnone'⟩ | ⟨set, rest, hrest, hsome, hsome'⟩
  · rw [nextMark_bracket_of_none hnone, nextMark_bracket_of_none hnone']
    exact .inl ⟨rfl, rfl⟩
  · rw [nextMark_bracket_of_some hsome, nextMark_bracket_of_some hsome']
    exact .inr ⟨hrest, rfl⟩

/-- A backslash and the character behind it are a mark of their own. -/
theorem exists_nextMark_escape (c : Char) : ∃ mark, ∀ t, nextMark '\\' (c :: t) = (mark, t) := by
  by_cases hnamed : c ∈ ['Z', 's', 'S', 'w', 'W']
  · simp only [List.mem_cons, List.not_mem_nil, or_false] at hnamed
    rcases hnamed with rfl | rfl | rfl | rfl | rfl
    all_goals exact ⟨_, fun t => rfl⟩
  · simp only [List.mem_cons, List.not_mem_nil, or_false, not_or] at hnamed
    exact ⟨.test (.one c), fun t => by simp [nextMark, hnamed]⟩

theorem Complete.sound_escape (h : Complete ('\\' :: t)) (tail : Text) :
    Sound tail (nextMark '\\' t) (nextMark '\\' (t ++ tail)) := by
  obtain ⟨c, u, rfl, hu⟩ := h.exists_of_escape
  obtain ⟨mark, hmark⟩ := exists_nextMark_escape c
  rw [List.cons_append, hmark, hmark]
  exact .inr ⟨hu, rfl⟩

theorem Complete.sound_open (h : Complete t) (htail : Detached tail) :
    Sound tail (nextMark '(' t) (nextMark '(' (t ++ tail)) := by
  rcases mark_of_open (t := t) rfl with hbad | ht
  · refine .inl ⟨hbad, ?_⟩
    rcases mark_of_open (t := t ++ tail) rfl with hbad' | ht
    · exact hbad'
    · -- What makes it a group would have to be in the text before.
      obtain ⟨u, rfl⟩ := List.head?_eq_some_iff.1 (htail.head?_append (t := t) (by decide) (congrArg List.head? ht))
      obtain ⟨v, rfl⟩ := List.head?_eq_some_iff.1
        (htail.head?_append (t := u) (by decide) (congrArg List.head? (List.cons.inj ht).2))
      cases hbad
  · rw [ht]
    refine .inr ⟨(Complete.tail (by decide) (Complete.tail (by decide) (ht ▸ h)) : Complete _), rfl⟩

/-- Any other character is a mark on its own or a count. -/
theorem nextMark_plain (hc : c ∉ ['\\', '[', '(', '\x7b']) :
    (∃ mark, ∀ t, nextMark c t = (mark, t)) ∨ ∃ least most, ∀ t, nextMark c t = countMark least most t := by
  simp only [List.mem_cons, List.not_mem_nil, or_false, not_or] at hc
  unfold nextMark
  split
  · exact absurd rfl hc.1
  · exact absurd rfl hc.2.1
  · exact absurd rfl hc.2.2.1
  all_goals try exact .inr ⟨_, _, fun t => rfl⟩
  all_goals try exact .inl ⟨_, fun t => rfl⟩
  exact absurd rfl hc.2.2.2

theorem Complete.sound_nextMark (h : Complete (c :: t)) (htail : Detached tail) :
    Sound tail (nextMark c t) (nextMark c (t ++ tail)) := by
  by_cases hescape : c = '\\'
  · subst hescape
    exact h.sound_escape tail
  have ht := h.tail hescape
  by_cases hbracket : c = '['
  · subst hbracket
    exact ht.sound_bracket htail
  by_cases hopen : c = '('
  · subst hopen
    exact ht.sound_open htail
  by_cases hbrace : c = '\x7b'
  · subst hbrace
    exact ht.sound_brace htail
  rcases nextMark_plain (c := c) (by simp [hescape, hbracket, hopen, hbrace]) with ⟨mark, hmark⟩ | ⟨least, most, hmark⟩
  · rw [hmark, hmark]
    exact .inr ⟨ht, rfl⟩
  · rw [hmark, hmark]
    exact ht.sound_countMark htail least most

end Pattern

/-! ### Translated text -/

namespace Ere

open Pattern (Complete)

theorem complete_quote (c : Char) : Complete (quote c) := by
  rcases quote_cases c with ⟨hquote, halphanum⟩ | ⟨hquote, hplain⟩
  · rw [hquote]
    refine .escape ?_ .nil
    rintro rfl
    cases halphanum
  · rw [hquote]
    refine .plain ?_ .nil
    rintro rfl
    exact hplain (by decide)

theorem complete_classMembers? {name ms : Text} (h : classMembers? name = some ms) : Complete ms := by
  obtain ⟨members, hlookup, rfl⟩ := Option.map_eq_some_iff.1 h
  obtain ⟨before, after, hsplit, -⟩ := List.lookup_eq_some_iff.1 hlookup
  have hmem : (String.ofList name, members) ∈ classes := by simp [hsplit]
  have hall : ∀ entry ∈ classes, Complete entry.2.toList := by
    simp only [classes, List.forall_mem_cons]
    refine ⟨?_, ?_, ?_, ?_, ?_, ?_, ?_, ?_, ?_, ?_, ?_, ?_, ?_, List.forall_mem_nil _⟩
    all_goals repeat first
      | exact .nil
      | refine .plain (by decide) ?_
      | refine .escape (by decide) ?_
      | refine .code rfl rfl ?_
  exact hall _ hmem

theorem complete_of_takeBracket {t text rest : Text} (h : takeBracket t = .ok (text, rest)) : Complete text := by
  rw [takeBracket_eq_takeMembers] at h
  obtain ⟨⟨members, rest'⟩, hmembers, heq⟩ := bind_eq_ok.1 h
  cases heq
  have hinside : Complete members := by
    refine takeMembers_induction .nil Complete.append complete_classMembers? complete_quote (fun c hc => ?_) hmembers
    refine .plain ?_ .nil
    rintro rfl
    exact hc List.mem_cons_self
  have hstart : Complete ((Lexeme.bracketStart t).flatMap fun c => if c = ']' then ['\\', c] else [c]) := by
    rcases bracketStart_cases t with ⟨u, -, hs⟩ | ⟨u, -, -, hs⟩ | ⟨u, -, hs⟩ | ⟨-, -, hs⟩
    · rw [hs]
      exact .plain (by decide) (.escape (by decide) .nil)
    · rw [hs]
      exact .plain (by decide) .nil
    · rw [hs]
      exact .escape (by decide) .nil
    · rw [hs]
      exact .nil
  exact .plain (by decide) ((hstart.append hinside).append (.plain (by decide) .nil))

theorem takeBracket_of_nextPiece {b b' : Bool} {c : Char} {t text rest : Text}
    (h : nextPiece b c t = .ok (.bracket text, b', rest)) : takeBracket t = .ok (text, rest) := by
  unfold nextPiece at h
  split at h
  · split at h
    · cases h
    · split at h
      · cases h
      · cases h
  · obtain ⟨⟨text', rest'⟩, hbracket, heq⟩ := bind_eq_ok.1 h
    cases heq
    exact hbracket
  · cases b <;> cases h
  · cases b <;> cases h
  · cases b <;> cases h
  · split at h
    · cases h
    · cases h
  all_goals cases h

theorem complete_of_nextPiece {b b' : Bool} {c : Char} {t rest : Text} {piece : Piece}
    (h : nextPiece b c t = .ok (piece, b', rest)) : Complete piece.render := by
  have hfits := fits_of_nextPiece h
  cases piece with
  | literal d => exact complete_quote d
  | named letter =>
    refine .escape ?_ .nil
    rintro rfl
    exact absurd hfits (show 'x' ∉ "sSwW".toList by decide)
  | bracket text => exact complete_of_takeBracket (takeBracket_of_nextPiece h)
  | quantifier q =>
    refine Complete.of_plain fun d hd => ?_
    rintro rfl
    exact hfits.plain_quantifier _ hd List.mem_cons_self
  | any => exact .plain (by decide) .nil
  | openGroup => exact .plain (by decide) (.plain (by decide) (.plain (by decide) .nil))
  | closeGroup => exact .plain (by decide) .nil
  | bar => exact .plain (by decide) .nil
  | atStart => exact .plain (by decide) .nil
  | atEnd => exact .escape (by decide) .nil

theorem Spells.complete {b b' : Bool} {t : Text} {ps : List Piece} (h : Spells b t ps b') :
    Complete (ps.flatMap Piece.render) := by
  induction h with
  | nil b => exact .nil
  | cons hpiece _ ih => exact (complete_of_nextPiece hpiece).append ih

end Ere

end Awk
