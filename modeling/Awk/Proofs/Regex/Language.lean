import Awk.Proofs.Regex.Alike

/-!
# Languages of patterns

What a pattern matches depends on where the word stands, because of the anchors; so a language here is a set of words
with what stands before and after them.  The order in which a pattern tries its ways decides which match is found but
not whether there is one: a pattern whose repetitions are greedy matches from a place if and only if a word of its
language begins there (`decides_run`), and a search finds a match if and only if the language has a word of the text
(`isSome_search`).
-/

namespace Awk

/-- Words that stand in a text: what is before the word, the word, and what is after it. -/
abbrev Language := Text → Text → Text → Prop

namespace Language

def empty : Language := fun _ word _ => word = []

def atStart : Language := fun before word _ => word = [] ∧ before = []

def atEnd : Language := fun _ word after => word = [] ∧ after = []

/-- Words of one character. -/
def one (p : Char → Prop) : Language := fun _ word _ => ∃ c, word = [c] ∧ p c

def concat (L M : Language) : Language := fun before word after =>
  ∃ u v, word = u ++ v ∧ L before u (v ++ after) ∧ M (before ++ u) v after

def union (L M : Language) : Language := fun before word after => L before word after ∨ M before word after

def power (L : Language) : Nat → Language
  | 0 => empty
  | n + 1 => L.concat (L.power n)

/-- Some number of words, at least `least` and at most `most`. -/
def rounds (L : Language) (least : Nat) (most : Option Nat) : Language := fun before word after =>
  ∃ n, least ≤ n ∧ (∀ m ∈ most, n ≤ m) ∧ L.power n before word after

theorem empty_concat (L : Language) : empty.concat L = L := by
  funext before word after
  refine propext ⟨?_, fun h => ⟨[], word, rfl, rfl, by simpa using h⟩⟩
  rintro ⟨u, v, rfl, rfl, h⟩
  simpa using h

theorem concat_empty (L : Language) : L.concat empty = L := by
  funext before word after
  refine propext ⟨?_, fun h => ⟨word, [], by simp, by simpa using h, rfl⟩⟩
  rintro ⟨u, v, rfl, h, rfl⟩
  simpa using h

theorem concat_assoc (L M N : Language) : (L.concat M).concat N = L.concat (M.concat N) := by
  funext before word after
  refine propext ⟨?_, ?_⟩
  · rintro ⟨_, w, rfl, ⟨u, v, rfl, hu, hv⟩, hw⟩
    exact ⟨u, v ++ w, by simp, by simpa using hu, v, w, rfl, hv, by simpa using hw⟩
  · rintro ⟨u, _, rfl, hu, v, w, rfl, hv, hw⟩
    exact ⟨u ++ v, w, by simp, ⟨u, v, rfl, by simpa using hu, hv⟩, by simpa using hw⟩

theorem union_assoc (L M N : Language) : (L.union M).union N = L.union (M.union N) := by
  funext before word after
  exact propext or_assoc

end Language

namespace Pattern

/-- The words that a pattern is to match. -/
def language : Pattern → Language
  | empty => .empty
  | char test => .one fun c => test.holds c
  | atStart => .atStart
  | atEnd => .atEnd
  | seq p q => p.language.concat q.language
  | alt p q => p.language.union q.language
  | «repeat» p least most _ => p.language.rounds least most

/-- Every repetition is greedy, and its bounds are in order. -/
def Greedy : Pattern → Prop
  | seq p q => p.Greedy ∧ q.Greedy
  | alt p q => p.Greedy ∧ q.Greedy
  | «repeat» p least most greed => greed = .greedy ∧ (∀ m ∈ most, least ≤ m) ∧ p.Greedy
  | _ => True

/-- There is a way on from a place if and only if there is one behind a word of the language that begins there. -/
def Decides (L : Language) (body : Continuation → Continuation) : Prop :=
  ∀ (k : Continuation) (before rest : Text), (body k ⟨before.length, rest⟩).isSome ↔
    ∃ word after, rest = word ++ after ∧ L before word after ∧ (k ⟨(before ++ word).length, after⟩).isSome

variable {L : Language} {body : Continuation → Continuation} {k : Continuation}

/-! ### Repetitions -/

/-- One round and then the others. -/
theorem rounds_append {least least' : Nat} {most : Option Nat} {before u v after : Text} (hleast : least ≤ least' + 1)
    (hmost : most ≠ some 0) (hu : L before u (v ++ after))
    (hv : L.rounds least' (fewer most) (before ++ u) v after) : L.rounds least most before (u ++ v) after := by
  obtain ⟨n, hn, hle, hpower⟩ := hv
  refine ⟨n + 1, by omega, fun m hm => ?_, u, v, rfl, hu, hpower⟩
  cases hm
  have hn' := hle (m - 1) rfl
  have hzero : m ≠ 0 := fun hzero => hmost (congrArg some hzero)
  omega

/-- A repetition goes on behind rounds whose number is within the bounds. -/
theorem Decides.exists_rounds (hbody : Decides L body) {fuel least : Nat} {most last : Option Nat}
    {before rest : Text} (hmost : ∀ m ∈ most, least ≤ m)
    (h : (runGreedy body k fuel least most last ⟨before.length, rest⟩).isSome) :
    ∃ word after, rest = word ++ after ∧ L.rounds least most before word after ∧
      (k ⟨(before ++ word).length, after⟩).isSome := by
  induction fuel generalizing least most last before rest with
  | zero => cases h
  | succ fuel ih =>
    -- A round has been made, and the others are those of the induction hypothesis.
    have hround {least' : Nat} {last' : Option Nat} (hleast : least ≤ least' + 1) (hpos : most ≠ some 0)
        (hmost' : ∀ m ∈ fewer most, least' ≤ m)
        (h : (body (runGreedy body k fuel least' (fewer most) last') ⟨before.length, rest⟩).isSome) :
        ∃ word after, rest = word ++ after ∧ L.rounds least most before word after ∧
          (k ⟨(before ++ word).length, after⟩).isSome := by
      obtain ⟨u, _, rfl, hu, h⟩ := (hbody _ _ _).1 h
      obtain ⟨v, after, rfl, hv, hk⟩ := ih hmost' h
      exact ⟨u ++ v, after, by simp, rounds_append hleast hpos hu hv, by simpa using hk⟩
    cases least with
    | succ least =>
      have hpos : most ≠ some 0 := by
        rintro rfl
        exact absurd (hmost 0 rfl) (by omega)
      refine hround (Nat.le_refl _) hpos (fun m hm => ?_) h
      obtain ⟨m', hm', rfl⟩ := Option.map_eq_some_iff.1 hm
      have := hmost m' hm'
      omega
    | zero =>
      have hnone (hk : (k ⟨before.length, rest⟩).isSome) :
          ∃ word after, rest = word ++ after ∧ L.rounds 0 most before word after ∧
            (k ⟨(before ++ word).length, after⟩).isSome :=
        ⟨[], rest, rfl, ⟨0, Nat.le_refl _, fun _ _ => Nat.zero_le _, rfl⟩, by simpa using hk⟩
      rw [runGreedy_round] at h
      split at h
      · exact hnone h
      · rename_i hgo
        rw [Option.isSome_or, Bool.or_eq_true] at h
        rcases h with h | h
        · refine hround (Nat.zero_le _) ?_ (fun _ _ => Nat.zero_le _) h
          rintro rfl
          simp at hgo
        · exact hnone h

/-- Some way through a repetition goes behind any number of rounds within the bounds.  Those beyond the least number
that take no text may be left out, and are: a round is tried only where the last one has moved on. -/
theorem Decides.isSome_rounds (hbody : Decides L body) {n fuel least : Nat} {most last : Option Nat}
    {before word after : Text} (hleast : least ≤ n) (hmost : ∀ m ∈ most, n ≤ m)
    (hword : L.power n before word after) (hk : (k ⟨(before ++ word).length, after⟩).isSome)
    (hlast : ∀ offset ∈ last, offset < before.length)
    (hfuel : Enough fuel least last ⟨before.length, word ++ after⟩) :
    (runGreedy body k fuel least most last ⟨before.length, word ++ after⟩).isSome := by
  induction n generalizing fuel least most last before word with
  | zero =>
    obtain rfl : least = 0 := by omega
    obtain rfl : word = [] := hword
    obtain ⟨fuel, rfl⟩ := hfuel.exists_succ
    rw [List.append_nil] at hk
    rw [runGreedy_round]
    split
    · exact hk
    · rw [Option.isSome_or, Bool.or_eq_true]
      exact .inr hk
  | succ n ih =>
    obtain ⟨u, v, rfl, hu, hv⟩ := hword
    have hreaches : Place.Reaches ⟨before.length, (u ++ v) ++ after⟩ ⟨(before ++ u).length, v ++ after⟩ :=
      ⟨u, by simp, by simp⟩
    have hfewer : ∀ m ∈ fewer most, n ≤ m := by
      intro m hm
      obtain ⟨m', hm', rfl⟩ := Option.map_eq_some_iff.1 hm
      have := hmost m' hm'
      omega
    have hk' : (k ⟨(before ++ u ++ v).length, after⟩).isSome := by simpa using hk
    cases least with
    | succ least =>
      obtain ⟨fuel, rfl⟩ := hfuel.exists_succ
      rw [runGreedy, hbody]
      refine ⟨u, v ++ after, by simp, hu, ?_⟩
      refine ih (by omega) hfewer hv hk' (fun offset hoffset => ?_) (hfuel.least hreaches)
      have := hlast offset hoffset
      simp only [List.length_append]
      omega
    | zero =>
      rcases List.eq_nil_or_concat u with rfl | hne
      · rw [List.append_nil] at hv hk'
        exact ih (Nat.zero_le _) (fun m hm => Nat.le_of_succ_le (hmost m hm)) hv hk' hlast hfuel
      · have hlen : 0 < u.length := by
          obtain ⟨u', c, rfl⟩ := hne
          simp
        obtain ⟨fuel, rfl⟩ := hfuel.exists_succ
        rw [runGreedy_round, if_neg]
        · rw [Option.isSome_or, Bool.or_eq_true, hbody]
          refine .inl ⟨u, v ++ after, by simp, hu, ?_⟩
          refine ih (Nat.zero_le _) hfewer hv hk' (fun offset hoffset => ?_) (hfuel.round ?_ hreaches)
          · cases hoffset
            simp only [List.length_append]
            omega
          · intro hsame
            exact absurd (hlast _ hsame) (Nat.lt_irrefl _)
        · rw [Bool.or_eq_true, beq_iff_eq, beq_iff_eq]
          rintro (hzero | hsame)
          · exact absurd (hmost 0 hzero) (by omega)
          · exact absurd (hlast _ hsame) (Nat.lt_irrefl _)

/-! ### Whole patterns -/

theorem Decides.concat {M : Language} {body' : Continuation → Continuation} (h : Decides L body)
    (h' : Decides M body') : Decides (L.concat M) fun k => body (body' k) := by
  intro k before rest
  rw [h]
  constructor
  · rintro ⟨u, _, rfl, hu, hbody⟩
    obtain ⟨v, after, rfl, hv, hk⟩ := (h' _ _ _).1 hbody
    exact ⟨u ++ v, after, by simp, ⟨u, v, rfl, hu, hv⟩, by simpa using hk⟩
  · rintro ⟨_, after, rfl, ⟨u, v, rfl, hu, hv⟩, hk⟩
    exact ⟨u, v ++ after, by simp, hu, (h' _ _ _).2 ⟨v, after, rfl, hv, by simpa using hk⟩⟩

theorem Decides.union {M : Language} {body' : Continuation → Continuation} (h : Decides L body)
    (h' : Decides M body') : Decides (L.union M) fun k place => (body k place).or (body' k place) := by
  intro k before rest
  rw [Option.isSome_or, Bool.or_eq_true, h, h']
  constructor
  · rintro (⟨word, after, hrest, hL, hk⟩ | ⟨word, after, hrest, hM, hk⟩)
    · exact ⟨word, after, hrest, .inl hL, hk⟩
    · exact ⟨word, after, hrest, .inr hM, hk⟩
  · rintro ⟨word, after, hrest, hL | hM, hk⟩
    · exact .inl ⟨word, after, hrest, hL, hk⟩
    · exact .inr ⟨word, after, hrest, hM, hk⟩

/-- A mark takes no text and asks where it stands. -/
theorem decides_mark {p : Text → Text → Prop}
    (hL : ∀ before word after, L before word after ↔ word = [] ∧ p before after)
    (hbody : ∀ (k : Continuation) before rest,
      (body k ⟨before.length, rest⟩).isSome ↔ p before rest ∧ (k ⟨before.length, rest⟩).isSome) :
    Decides L body := by
  intro k before rest
  rw [hbody]
  constructor
  · rintro ⟨hp, hk⟩
    exact ⟨[], rest, rfl, (hL ..).2 ⟨rfl, hp⟩, by simpa using hk⟩
  · rintro ⟨word, after, rfl, hword, hk⟩
    obtain ⟨rfl, hp⟩ := (hL ..).1 hword
    rw [List.append_nil] at hk
    exact ⟨hp, hk⟩

theorem decides_char (test : CharTest) : Decides (.one fun c => test.holds c) (run (.char test)) := by
  intro k before rest
  unfold run
  cases rest with
  | nil =>
    constructor
    · intro h
      cases h
    · rintro ⟨_, after, hrest, ⟨c, rfl, -⟩, -⟩
      cases hrest
  | cons c rest =>
    dsimp only
    constructor
    · intro h
      split at h
      · rename_i hc
        exact ⟨[c], rest, rfl, ⟨c, rfl, hc⟩, by simpa using h⟩
      · cases h
    · rintro ⟨_, after, hrest, ⟨d, rfl, hd⟩, hk⟩
      cases hrest
      rw [if_pos hd]
      simpa using hk

/-- A pattern of greedy repetitions matches exactly the words of its language. -/
theorem decides_run {p : Pattern} (hp : p.Greedy) : Decides p.language p.run := by
  induction p with
  | empty =>
    have hempty (before word after : Text) : Language.empty before word after ↔ word = [] ∧ True :=
      (and_iff_left trivial).symm
    refine decides_mark hempty fun k before rest => ?_
    simp [run]
  | char test => exact decides_char test
  | atStart =>
    refine decides_mark (fun before word after => Iff.rfl) fun k before rest => ?_
    unfold run
    split <;> simp_all
  | atEnd =>
    refine decides_mark (fun before word after => Iff.rfl) fun k before rest => ?_
    unfold run
    split <;> simp_all
  | seq p q ihp ihq => exact (ihp hp.1).concat (ihq hp.2)
  | alt p q ihp ihq =>
    intro k before rest
    rw [run_alt]
    exact ((ihp hp.1).union (ihq hp.2)) k before rest
  | «repeat» p least most greed ih =>
    obtain ⟨rfl, hmost, hp⟩ := hp
    intro k before rest
    refine ⟨fun h => (ih hp).exists_rounds hmost h, ?_⟩
    rintro ⟨word, after, rfl, ⟨n, hleast, hmost, hword⟩, hk⟩
    refine (ih hp).isSome_rounds hleast hmost hword hk (by simp) ?_
    unfold Enough
    rw [if_neg (Option.some_ne_none _).symm]
    omega

variable {p : Pattern}

theorem isSome_matchAt (hp : p.Greedy) (before rest : Text) :
    (p.matchAt false ⟨before.length, rest⟩).isSome ↔
      ∃ word after, rest = word ++ after ∧ p.language before word after := by
  unfold matchAt
  rw [Option.isSome_map, decides_run hp]
  simp

theorem isSome_findFrom (hp : p.Greedy) (before rest : Text) :
    (p.findFrom false before.length rest).isSome ↔
      ∃ skipped word after, rest = skipped ++ word ++ after ∧ p.language (before ++ skipped) word after := by
  induction rest generalizing before with
  | nil =>
    have hfind : p.findFrom false before.length [] =
        (p.matchAt false ⟨before.length, []⟩).map (before.length, ·) := by
      unfold findFrom
      cases p.matchAt false ⟨before.length, []⟩ with
      | none => rfl
      | some stop => rfl
    rw [hfind, Option.isSome_map, isSome_matchAt hp]
    constructor
    · rintro ⟨word, after, hrest, hword⟩
      exact ⟨[], word, after, hrest, by simpa using hword⟩
    · rintro ⟨skipped, word, after, hrest, hword⟩
      obtain ⟨rfl, rfl, rfl⟩ : skipped = [] ∧ word = [] ∧ after = [] := by simpa using hrest.symm
      exact ⟨[], [], rfl, by simpa using hword⟩
  | cons c rest ih =>
    have hfind : p.findFrom false before.length (c :: rest) =
        ((p.matchAt false ⟨before.length, c :: rest⟩).map (before.length, ·)).or
          (p.findFrom false (before ++ [c]).length rest) := by
      rw [findFrom]
      cases p.matchAt false ⟨before.length, c :: rest⟩ with
      | none => simp
      | some stop => rfl
    rw [hfind, Option.isSome_or, Bool.or_eq_true, Option.isSome_map, isSome_matchAt hp, ih]
    constructor
    · rintro (⟨word, after, hrest, hword⟩ | ⟨skipped, word, after, rfl, hword⟩)
      · exact ⟨[], word, after, hrest, by simpa using hword⟩
      · exact ⟨c :: skipped, word, after, rfl, by simpa using hword⟩
    · rintro ⟨skipped, word, after, hrest, hword⟩
      cases skipped with
      | nil => exact .inl ⟨word, after, hrest, by simpa using hword⟩
      | cons d skipped =>
        cases hrest
        exact .inr ⟨skipped, word, after, rfl, by simpa using hword⟩

/-- A search finds a match if and only if the text has a word of the language. -/
theorem isSome_search (hp : p.Greedy) (text : Text) : (p.search text 0).isSome ↔
    ∃ before word after, text = before ++ word ++ after ∧ p.language before word after := by
  have h := isSome_findFrom hp [] text
  simpa [search] using h

end Pattern

end Awk
