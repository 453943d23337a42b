import Awk.Proofs.Regex.Translation

/-!
# Compiled expressions match their words

The pattern text of an ERE is read mark by mark into the innermost open group; `Regex.after` is that group behind the
ERE, whatever follows (`Regex.WellFormed.reads`).  Its items are those it had and then the ERE, in order, and its
branches the alternatives (`Regex.language_after`).  So an ERE that is well formed compiles, and a search finds a match
if and only if the text has a word of it (`search_compileEre`).
-/

namespace Awk

namespace Pattern

/-! ### Reading pattern text -/

/-- With the group `g` open inside the groups `outer`, the text goes on so that it is the pattern `p` in all. -/
def Reads (g : Group) (outer : List Group) (t : Text) (p : Pattern) : Prop :=
  ∀ fuel, t.length ≤ fuel → ofMarks g outer (marksFuel fuel t) = .ok p

/-- What does not make a quantifier lazy or possessive. -/
def Plain (t : Text) : Prop := t.head? ≠ some '?' ∧ t.head? ≠ some '+'

variable {g : Group} {outer : List Group} {p : Pattern}

theorem reads_nil (g : Group) : Reads g [] [] g.close := by
  intro fuel _
  cases fuel with
  | zero => rfl
  | succ fuel => rfl

theorem Reads.cons {c : Char} {t rest : Text} (mark : Mark) (hmark : nextMark c t = (mark, rest))
    (hlength : rest.length ≤ t.length)
    (h : ∀ fuel, rest.length ≤ fuel → ofMarks g outer (mark :: marksFuel fuel rest) = .ok p) :
    Reads g outer (c :: t) p := by
  intro fuel hfuel
  obtain ⟨fuel, rfl⟩ := Nat.exists_eq_succ_of_ne_zero (Nat.ne_of_gt (Nat.lt_of_lt_of_le (Nat.succ_pos _) hfuel))
  rw [marksFuel, hmark]
  exact h fuel (Nat.le_trans hlength (Nat.le_of_succ_le_succ hfuel))

theorem Reads.quote {c : Char} {rest : Text} (h : Reads (g.push (.char (.one c)) true) outer rest p) :
    Reads g outer (Ere.quote c ++ rest) p := by
  unfold Ere.quote
  split
  · rename_i hspecial
    have hne (d : Char) (hd : Ere.isSpecial d = false) : c ≠ d := by
      rintro rfl
      rw [hd] at hspecial
      cases hspecial
    have hmark : nextMark '\\' (c :: rest) = (.test (.one c), rest) := by
      simp [nextMark, hne 'Z' rfl, hne 's' rfl, hne 'S' rfl, hne 'w' rfl, hne 'W' rfl]
    exact Reads.cons (.test (.one c)) hmark (Nat.le_succ _) h
  · rename_i hplain
    have hmark : nextMark c rest = (.test (.one c), rest) := by
      unfold nextMark
      split
      all_goals first | rfl | (exact absurd (by decide) hplain)
    exact Reads.cons (.test (.one c)) hmark (Nat.le_refl _) h

theorem plain_quote (c : Char) (t : Text) : Plain (Ere.quote c ++ t) := by
  unfold Ere.quote
  split
  · exact ⟨by simp, by simp⟩
  · rename_i hplain
    refine ⟨fun heq => hplain ?_, fun heq => hplain ?_⟩
    · obtain rfl : c = '?' := Option.some.inj heq
      rfl
    · obtain rfl : c = '+' := Option.some.inj heq
      rfl

theorem takeGreed_plain {t : Text} (h : Plain t) : takeGreed t = (.greedy, t) := by
  unfold takeGreed
  split
  · exact absurd rfl h.1
  · exact absurd rfl h.2
  · rfl

theorem countMark_plain (least : Nat) (most : Option Nat) {t : Text} (h : Plain t) :
    countMark least most t = (.count least most .greedy, t) := by
  simp [countMark, takeGreed_plain h]

theorem boundsMark_ofNat {n : Nat} {high rest : Text} (hn : n < Nat.pow 2 31) (hhigh : high.length ≤ numeralLimit)
    (h : Plain rest) : boundsMark (Text.ofNat n) high rest = (.count n (number? high) .greedy, rest) := by
  have hlow : ¬numeralLimit < (Text.ofNat n).length := Nat.not_lt.2 (Ere.length_ofNat_le (Nat.lt_trans hn (by decide)))
  rw [boundsMark, if_neg hlow, Ere.number?_ofNat]
  simp [Nat.not_lt.2 hhigh, countMark_plain _ _ h]

/-- A quantifier is read as its bounds. -/
theorem nextMark_quantifier {q : Ere.Quantifier} (hq : q.WellFormed) {rest : Text} (h : Plain rest) :
    ∃ c t, q.text = c :: t ∧ nextMark c (t ++ rest) = (.count q.least q.most .greedy, rest) := by
  have hbounds {t low high : Text} (ht : takeBounds t = some (low, high, rest)) :
      nextMark '\x7b' t = boundsMark low high rest := by
    simp [nextMark, ht]
  have hdigit (c : Char) (h : c.isDigit) : c.isDigit = true := h
  have hcomma : Char.isDigit ',' = false := by decide
  have hclose : Char.isDigit '\x7d' = false := by decide
  cases q with
  | star => exact ⟨'*', [], rfl, countMark_plain 0 none h⟩
  | plus => exact ⟨'+', [], rfl, countMark_plain 1 none h⟩
  | optional => exact ⟨'?', [], rfl, countMark_plain 0 (some 1) h⟩
  | exactly n =>
    refine ⟨'\x7b', Text.ofNat n ++ ['\x7d'], rfl, ?_⟩
    have ht : takeBounds (Text.ofNat n ++ ['\x7d'] ++ rest) = some (Text.ofNat n, Text.ofNat n, rest) := by
      simp [takeBounds, Ere.takeWhile_ofNat hdigit n hclose, Ere.dropWhile_ofNat hdigit n hclose, Ere.ofNat_ne_nil]
    have hn : n < Nat.pow 2 31 := hq.1
    rw [hbounds ht, boundsMark_ofNat hn (Ere.length_ofNat_le (Nat.lt_trans hn (by decide))) h, Ere.number?_ofNat]
    rfl
  | atLeast n =>
    refine ⟨'\x7b', Text.ofNat n ++ [',', '\x7d'], rfl, ?_⟩
    have ht : takeBounds (Text.ofNat n ++ [',', '\x7d'] ++ rest) = some (Text.ofNat n, [], rest) := by
      simp [takeBounds, Ere.takeWhile_ofNat hdigit n hcomma, Ere.dropWhile_ofNat hdigit n hcomma, hclose]
    have hn : n < Nat.pow 2 31 := hq.1
    rw [hbounds ht, boundsMark_ofNat hn (Nat.zero_le _) h]
    rfl
  | between least most =>
    refine ⟨'\x7b', Text.ofNat least ++ ',' :: Text.ofNat most ++ ['\x7d'], by simp [Ere.Quantifier.text], ?_⟩
    have ht : takeBounds (Text.ofNat least ++ ',' :: Text.ofNat most ++ ['\x7d'] ++ rest) =
        some (Text.ofNat least, Text.ofNat most, rest) := by
      simp [takeBounds, Ere.takeWhile_ofNat hdigit _ hcomma, Ere.dropWhile_ofNat hdigit _ hcomma,
        Ere.takeWhile_ofNat hdigit _ hclose, Ere.dropWhile_ofNat hdigit _ hclose]
    have hleast : least < Nat.pow 2 31 := hq.1
    have hmost := (hq.2 most rfl).2
    rw [hbounds ht, boundsMark_ofNat hleast (Ere.length_ofNat_le (Nat.lt_trans hmost (by decide))) h, Ere.number?_ofNat]
    rfl

theorem Reads.quantifier {q : Ere.Quantifier} (hq : q.WellFormed) {body : Pattern} {rest : Text} (hplain : Plain rest)
    (h : Reads ⟨g.branches, ⟨.repeat body q.least q.most .greedy, false⟩ :: g.items⟩ outer rest p) :
    Reads (g.push body true) outer (q.text ++ rest) p := by
  obtain ⟨c, t, htext, hmark⟩ := nextMark_quantifier hq hplain
  rw [htext]
  refine Reads.cons (.count q.least q.most .greedy) hmark (by simp) fun fuel hfuel => ?_
  have hlimit : Nat.pow 2 31 ≤ countLimit := by decide
  have hleast : ¬countLimit ≤ q.least := Nat.not_le.2 (Nat.lt_of_lt_of_le hq.1 hlimit)
  have hmost : q.most.any (countLimit ≤ ·) = false := by
    rw [Option.any_eq_false]
    exact fun n hn => decide_eq_false (Nat.not_le.2 (Nat.lt_of_lt_of_le (hq.2 n hn).2 hlimit))
  have horder : q.most.any (· < q.least) = false := by
    rw [Option.any_eq_false]
    exact fun n hn => decide_eq_false (Nat.not_lt.2 (hq.2 n hn).1)
  have hrepeat : (g.push body true).repeatLast q.least q.most .greedy =
      .ok ⟨g.branches, ⟨.repeat body q.least q.most .greedy, false⟩ :: g.items⟩ := by
    simp [Group.repeatLast, hleast, hmost, horder, Group.push]
  rw [ofMarks, hrepeat]
  exact h fuel hfuel

/-! ### Groups -/

namespace Group

/-- The words of some of the patterns. -/
def anyOf (ps : List Pattern) : Language := fun before word after => ∃ p ∈ ps, p.language before word after

theorem language_ofItems (items : List Item) (item : Item) :
    (ofItems (item :: items)).language = (ofItems items).language.concat item.pattern.language := by
  have hfold (items : List Item) (p : Pattern) : (items.foldl (fun p item => seq item.pattern p) p).language =
      (ofItems items).language.concat p.language := by
    induction items generalizing p with
    | nil => exact (Language.empty_concat _).symm
    | cons item items ih =>
      rw [ofItems, List.foldl_cons, List.foldl_cons, ih, ih, Language.concat_assoc]
      exact congrArg _ (congrArg (·.concat p.language) (Language.concat_empty _).symm)
  rw [ofItems, List.foldl_cons, hfold]
  exact congrArg _ (Language.concat_empty _)

theorem language_close (g : Group) : g.close.language = (anyOf g.branches).union (ofItems g.items).language := by
  have hfold (ps : List Pattern) (p : Pattern) :
      (ps.foldl (fun p branch => alt branch p) p).language = (anyOf ps).union p.language := by
    induction ps generalizing p with
    | nil =>
      funext before word after
      simp [anyOf, Language.union]
    | cons q ps ih =>
      rw [List.foldl_cons, ih]
      funext before word after
      simp only [anyOf, Language.union, language, List.mem_cons, or_and_right, exists_or, exists_eq_left, eq_iff_iff]
      rw [or_left_comm, or_assoc]
  exact hfold _ _

/-- The group with its latest item under a quantifier. -/
def quantify (g : Group) (q : Ere.Quantifier) : Group :=
  match g.items with
  | [] => g
  | item :: items => ⟨g.branches, ⟨.repeat item.pattern q.least q.most .greedy, false⟩ :: items⟩

/-- The group when a bar has been read. -/
def bar (g : Group) : Group := ⟨ofItems g.items :: g.branches, []⟩

def Greedy (g : Group) : Prop := (∀ p ∈ g.branches, p.Greedy) ∧ ∀ item ∈ g.items, item.pattern.Greedy

theorem greedy_ofItems {items : List Item} (h : ∀ item ∈ items, item.pattern.Greedy) : (ofItems items).Greedy := by
  have hfold (p : Pattern) (hp : p.Greedy) : (items.foldl (fun p item => seq item.pattern p) p).Greedy := by
    induction items generalizing p with
    | nil => exact hp
    | cons item items ih =>
      exact ih (fun item hitem => h item (List.mem_cons_of_mem _ hitem)) _ ⟨h item List.mem_cons_self, hp⟩
  exact hfold _ trivial

theorem Greedy.close {g : Group} (h : g.Greedy) : g.close.Greedy := by
  have hfold (ps : List Pattern) (hps : ∀ p ∈ ps, p.Greedy) (p : Pattern) (hp : p.Greedy) :
      (ps.foldl (fun p branch => alt branch p) p).Greedy := by
    induction ps generalizing p with
    | nil => exact hp
    | cons q ps ih =>
      exact ih (fun p hp => hps p (List.mem_cons_of_mem _ hp)) _ ⟨hps q List.mem_cons_self, hp⟩
  exact hfold _ h.1 _ (greedy_ofItems h.2)

theorem Greedy.push {g : Group} (h : g.Greedy) {p : Pattern} (hp : p.Greedy) (repeatable : Bool) :
    (g.push p repeatable).Greedy :=
  ⟨h.1, List.forall_mem_cons.2 ⟨hp, h.2⟩⟩

end Group

end Pattern

namespace Ere.Regex

open Pattern

/-- The group that an ERE is read into, as it is behind it. -/
def after : Regex → Group → Group
  | empty, g => g
  | char c, g => g.push (.char (.one c.char)) true
  | any, g => g.push (.char .any) true
  | bracket b, g => g.push (.char b.test) true
  | group r, g => g.push (r.after .empty).close true
  | atStart, g => g.push .atStart false
  | atEnd, g => g.push .atEnd false
  | quantified r q, g => (r.after g).quantify q
  | concat r s, g => s.after (r.after g)
  | alt r s, g => s.after (r.after g).bar

theorem exists_push {r : Regex} (h : r.IsAtom) : ∃ p, ∀ g, r.after g = g.push p true := by
  cases r with
  | char c => exact ⟨_, fun _ => rfl⟩
  | any => exact ⟨_, fun _ => rfl⟩
  | bracket b => exact ⟨_, fun _ => rfl⟩
  | group r => exact ⟨_, fun _ => rfl⟩
  | _ => exact h.elim

theorem isBranch_of_isAtom {r : Regex} (h : r.IsAtom) : r.IsBranch := by
  cases r with
  | alt r s => exact h
  | _ => trivial

theorem plain_patternText {r : Regex} (h : r.WellFormed) {rest : Text} (hrest : r.IsAtom ∨ Plain rest) :
    Plain (r.patternText ++ rest) := by
  induction r generalizing rest with
  | empty => exact hrest.resolve_left id
  | char g => exact plain_quote g.char rest
  | any => exact ⟨by simp [patternText], by simp [patternText]⟩
  | bracket b => exact ⟨by simp [patternText], by simp [patternText]⟩
  | group r ih => exact ⟨by simp [patternText], by simp [patternText]⟩
  | atStart => exact ⟨by simp [patternText], by simp [patternText]⟩
  | atEnd => exact ⟨by simp [patternText], by simp [patternText]⟩
  | quantified r q ih =>
    have hplain : Plain (r.patternText ++ (q.text ++ rest)) := ih h.2.1 (.inl h.1)
    rwa [← List.append_assoc] at hplain
  | concat r s ihr ihs =>
    have hplain := ihr h.1.2 (.inr (ihs h.2.2 (.inr (hrest.resolve_left id))))
    rwa [← List.append_assoc] at hplain
  | alt r s ihr ihs =>
    have hplain : Plain (r.patternText ++ '|' :: (s.patternText ++ rest)) := ihr h.1 (.inr ⟨by simp, by simp⟩)
    simpa [patternText] using hplain

theorem WellFormed.reads {r : Regex} (h : r.WellFormed) {g : Group} {outer : List Group} {rest : Text} {p : Pattern}
    (hreads : Reads (r.after g) outer rest p) (hrest : r.IsAtom ∨ Plain rest) :
    Reads g outer (r.patternText ++ rest) p := by
  induction r generalizing g outer rest with
  | empty => exact hreads
  | char c => exact Reads.quote hreads
  | any => exact Reads.cons (.test .any) rfl (Nat.le_refl _) hreads
  | bracket b =>
    have hmark : nextMark '[' (b.inSet ++ rest) = (.test b.test, rest) := by
      simp only [nextMark, Bracket.WellFormed.takeSet h rest]
    exact Reads.cons (.test b.test) hmark (by simp) hreads
  | group r ih =>
    have hclose : Reads (r.after .empty) (g :: outer) (')' :: rest) p :=
      Reads.cons .closeGroup rfl (Nat.le_refl _) hreads
    have hgroup := ih h hclose (.inr ⟨by simp, by simp⟩)
    have hopen : Reads g outer ('(' :: '?' :: ':' :: (r.patternText ++ ')' :: rest)) p :=
      Reads.cons .openGroup rfl (Nat.le_add_right _ 2) hgroup
    simpa [patternText] using hopen
  | atStart => exact Reads.cons .atStart rfl (Nat.le_refl _) hreads
  | atEnd => exact Reads.cons .atEnd rfl (Nat.le_succ _) hreads
  | quantified r q ih =>
    have hrest := hrest.resolve_left id
    obtain ⟨body, hbody⟩ := exists_push h.1
    rw [after, hbody] at hreads
    have hquantifier : Reads (g.push body true) outer (q.text ++ rest) p := Reads.quantifier h.2.2 hrest hreads
    rw [← hbody] at hquantifier
    have hatom := ih h.2.1 hquantifier (.inl h.1)
    rwa [← List.append_assoc] at hatom
  | concat r s ihr ihs =>
    have hrest := hrest.resolve_left id
    have hconcat := ihr h.1.2 (ihs h.2.2 hreads (.inr hrest)) (.inr (plain_patternText h.2.2 (.inr hrest)))
    rwa [← List.append_assoc] at hconcat
  | alt r s ihr ihs =>
    have hrest := hrest.resolve_left id
    have hbar : Reads (r.after g) outer ('|' :: (s.patternText ++ rest)) p :=
      Reads.cons .bar rfl (Nat.le_refl _) (ihs h.2 hreads (.inr hrest))
    have halt := ihr h.1 hbar (.inr ⟨by simp, by simp⟩)
    simpa [patternText] using halt

theorem greedy_after {r : Regex} (h : r.WellFormed) {g : Group} (hg : g.Greedy) : (r.after g).Greedy := by
  have hempty : Group.empty.Greedy := ⟨by simp [Group.empty], by simp [Group.empty]⟩
  induction r generalizing g with
  | empty => exact hg
  | char c => exact hg.push (p := .char _) trivial _
  | any => exact hg.push (p := .char _) trivial _
  | bracket b => exact hg.push (p := .char _) trivial _
  | group r ih => exact hg.push (ih h hempty).close _
  | atStart => exact hg.push (p := .atStart) trivial _
  | atEnd => exact hg.push (p := .atEnd) trivial _
  | quantified r q ih =>
    obtain ⟨body, hbody⟩ := exists_push h.1
    have hgreedy := ih h.2.1 hempty
    rw [hbody] at hgreedy
    have hrepeat : (Pattern.repeat body q.least q.most .greedy).Greedy :=
      ⟨rfl, fun m hm => (h.2.2.2 m hm).1, hgreedy.2 _ List.mem_cons_self⟩
    rw [after, hbody]
    exact hg.push hrepeat false
  | concat r s ihr ihs => exact ihs h.2.2 (ihr h.1.2 hg)
  | alt r s ihr ihs =>
    have hr := ihr h.1 hg
    exact ihs h.2 ⟨List.forall_mem_cons.2 ⟨Group.greedy_ofItems hr.2, hr.1⟩, by simp [Group.bar]⟩

/-- A branch goes on with the items of a group, and an ERE with its branches. -/
theorem language_after {r : Regex} (h : r.WellFormed) (g : Group) :
    (r.IsBranch → (r.after g).branches = g.branches ∧
        (ofItems (r.after g).items).language = (ofItems g.items).language.concat r.language) ∧
      (g.items = [] → (r.after g).close.language = (Group.anyOf g.branches).union r.language) := by
  have hbranch {g g' : Group} {L : Language} (h : g'.branches = g.branches ∧
      (ofItems g'.items).language = (ofItems g.items).language.concat L) (hg : g.items = []) :
      g'.close.language = (Group.anyOf g.branches).union L := by
    rw [Group.language_close, h.1, h.2, hg]
    exact congrArg _ (Language.empty_concat L)
  have hpush {g : Group} {p : Pattern} {repeatable : Bool} {L : Language} (hp : p.language = L) :
      (g.push p repeatable).branches = g.branches ∧
        (ofItems (g.push p repeatable).items).language = (ofItems g.items).language.concat L :=
    ⟨rfl, hp ▸ Group.language_ofItems g.items ⟨p, repeatable⟩⟩
  induction r generalizing g with
  | empty =>
    have hempty : (ofItems g.items).language = (ofItems g.items).language.concat .empty :=
      (Language.concat_empty _).symm
    exact ⟨fun _ => ⟨rfl, hempty⟩, hbranch ⟨rfl, hempty⟩⟩
  | char c =>
    have hc : (Pattern.char (.one c.char)).language = (char c).language := by
      funext before word after
      simp [Pattern.language, language, CharTest.holds]
    exact ⟨fun _ => hpush hc, hbranch (hpush hc)⟩
  | any =>
    have hc : (Pattern.char .any).language = any.language := by
      funext before word after
      simp [Pattern.language, language, CharTest.holds]
    exact ⟨fun _ => hpush hc, hbranch (hpush hc)⟩
  | bracket b =>
    have hc : (Pattern.char b.test).language = (bracket b).language := by
      funext before word after
      simp [Pattern.language, language, Bracket.holds_test]
    exact ⟨fun _ => hpush hc, hbranch (hpush hc)⟩
  | group r ih =>
    have hgroup : (r.after .empty).close.language = r.language := by
      rw [(ih h .empty).2 rfl]
      funext before word after
      simp [Group.anyOf, Group.empty, Language.union]
    exact ⟨fun _ => hpush hgroup, hbranch (hpush hgroup)⟩
  | atStart => exact ⟨fun _ => hpush rfl, hbranch (hpush rfl)⟩
  | atEnd => exact ⟨fun _ => hpush rfl, hbranch (hpush rfl)⟩
  | quantified r q ih =>
    obtain ⟨body, hbody⟩ := exists_push h.1
    have hbody' : body.language = r.language := by
      have hempty := ((ih h.2.1 .empty).1 (isBranch_of_isAtom h.1)).2
      rw [hbody, Group.push, Group.language_ofItems] at hempty
      exact (Language.empty_concat _).symm.trans (hempty.trans (Language.empty_concat _))
    have hrepeat : (Pattern.repeat body q.least q.most .greedy).language = (quantified r q).language :=
      congrArg (·.rounds q.least q.most) hbody'
    have hafter : (quantified r q).after g = g.push (.repeat body q.least q.most .greedy) false := by
      rw [after, hbody]
      rfl
    rw [hafter]
    exact ⟨fun _ => hpush hrepeat, hbranch (hpush hrepeat)⟩
  | concat r s ihr ihs =>
    obtain ⟨hbranches, hitems⟩ := (ihr h.1.2 g).1 h.1.1
    obtain ⟨hbranches', hitems'⟩ := (ihs h.2.2 (r.after g)).1 h.2.1
    rw [hitems, Language.concat_assoc] at hitems'
    have hconcat := And.intro (hbranches'.trans hbranches) hitems'
    exact ⟨fun _ => hconcat, hbranch hconcat⟩
  | alt r s ihr ihs =>
    refine ⟨False.elim, fun hg => ?_⟩
    have hs := (ihs h.2 (r.after g).bar).2 rfl
    have hr := (ihr h.1 g).2 hg
    have hbar : Group.anyOf (r.after g).bar.branches = (r.after g).close.language := by
      rw [Group.language_close]
      funext before word after
      simp [Group.anyOf, Group.bar, Language.union, or_comm]
    rw [hbar, hr, Language.union_assoc] at hs
    exact hs

end Ere.Regex

/-- A well formed ERE compiles, and a search finds a match if and only if the text has a word of the ERE. -/
theorem search_compileEre {r : Ere.Regex} (h : r.WellFormed) : ∃ p, compileEre r.text = .ok p ∧
    ∀ text, (p.search text 0).isSome ↔
      ∃ before word after, text = before ++ word ++ after ∧ r.language before word after := by
  have hempty : Pattern.Group.empty.Greedy := ⟨by simp [Pattern.Group.empty], by simp [Pattern.Group.empty]⟩
  have hread : Pattern.read r.patternText = .ok (r.after .empty).close := by
    have hreads := h.reads (Pattern.reads_nil (r.after .empty)) (.inr ⟨by simp, by simp⟩)
    rw [List.append_nil] at hreads
    exact hreads _ (Nat.le_refl _)
  have hlanguage : (r.after .empty).close.language = r.language := by
    rw [(Ere.Regex.language_after h .empty).2 rfl]
    funext before word after
    simp [Pattern.Group.anyOf, Pattern.Group.empty, Language.union]
  refine ⟨(r.after .empty).close, ?_, fun text => ?_⟩
  · rw [compileEre, h.patternText_eq]
    simp only [hread]
  · rw [Pattern.isSome_search (Ere.Regex.greedy_after h hempty).close, hlanguage]

/-- One of two branches, with a bracket expression that begins with a closing bracket. -/
def codeSign : Ere.Regex :=
  .group (.alt (.char ⟨'a', false⟩)
    (.bracket ⟨false, [.char ⟨']', false⟩, .range ⟨'b', false⟩ ⟨'d', false⟩, .named .digit, .char ⟨'-', false⟩]⟩))

/-- One or two signs and a full stop, and nothing else. -/
def codeRegex : Ere.Regex :=
  .concat .atStart (.concat (.quantified codeSign (.between 1 2)) (.concat (.char ⟨'.', true⟩) .atEnd))

theorem search_compileEre_code : codeRegex.text = "^(a|[]b-d[:digit:]-])\x7b1,2\x7d\\.$".toList ∧
    ∃ p, compileEre codeRegex.text = .ok p ∧ (p.search "]c.".toList 0).isSome := by
  have hwellFormed : codeRegex.WellFormed := by
    simp [codeRegex, codeSign, Ere.Regex.WellFormed, Ere.Regex.IsAtom, Ere.Regex.IsBranch, Ere.Glyph.IsLiteral,
      Ere.Quantifier.WellFormed, Ere.Quantifier.least, Ere.Quantifier.most, Ere.Bracket.WellFormed, Ere.MembersFit,
      Ere.Member.Fits, Ere.Member.GlyphsFit, Ere.Glyph.Fits, Ere.membersText, Ere.Member.text, Ere.Glyph.text]
  obtain ⟨p, hp, hsearch⟩ := search_compileEre hwellFormed
  have hrounds : (Ere.Regex.quantified codeSign (.between 1 2)).language [] [']', 'c'] ['.'] := by
    refine ⟨2, by decide, ?_, [']'], ['c'], rfl, .inr ⟨']', rfl, by decide⟩, ['c'], [], rfl, .inr ⟨'c', rfl, by decide⟩,
      rfl⟩
    simp [Ere.Quantifier.most]
  have hword : codeRegex.language [] [']', 'c', '.'] [] :=
    ⟨[], [']', 'c', '.'], rfl, ⟨rfl, rfl⟩, [']', 'c'], ['.'], rfl, hrounds, ['.'], [], rfl, ⟨'.', rfl, rfl⟩, rfl, rfl⟩
  exact ⟨by decide, p, hp, (hsearch _).2 ⟨[], [']', 'c', '.'], [], rfl, hword⟩⟩

end Awk
