import Awk.Proofs.Syntax.Rendering.Lexeme

/-!
# Regular expressions in front of any text

Where a regular expression opens a named class in a bracket, the scanner looks for the mark that closes it in all the
text that follows.  If the regular expression leaves none open that is closed further on, then what follows its closing
slash does not matter (`Lexeme.regexBody_append`).
-/

namespace Awk.Lexeme

/-- The mark of a named class that begins with a character of a bracket. -/
def classMark? (inBracket : Bool) (c : Char) (t : Text) : Option Char :=
  if inBracket && c = '[' then
    match t with
    | mark :: _ => if mark = ':' || mark = '.' || mark = '=' then some mark else none
    | [] => none
  else none

/-- How many characters are passed over together with one that begins a named class. -/
def passedClass (inBracket : Bool) (c : Char) (t : Text) : Option Nat :=
  match classMark? inBracket c t with
  | some mark => (Text.find? [mark, ']'] t.tail).map fun offset => offset + 3
  | none => none

/-- The marks of the named classes that a regular expression opens in a bracket and does not close. -/
def openMarks (inBracket : Bool) (t : Text) : List Char :=
  match t with
  | [] => []
  | '\\' :: _ :: t => openMarks inBracket t
  | c :: t =>
    if c = '[' && !inBracket then openMarks true (t.drop (bracketStart t).length)
    else
      match passedClass inBracket c t with
      | some count => openMarks inBracket (t.drop count)
      | none => (classMark? inBracket c t).toList ++ openMarks (inBracket && c != ']') t
termination_by t.length
decreasing_by all_goals (simp_all; try omega)

variable {b : Bool} {c : Char} {t rest : Text}

/-! ### One character after the other -/

theorem passedClass_eq (b : Bool) (c : Char) (t : Text) :
    passedClass b c t =
      if b && c = '[' then
        match t with
        | mark :: rest =>
          if mark = ':' || mark = '.' || mark = '=' then
            (Text.find? [mark, ']'] rest).map fun offset => offset + 3
          else none
        | [] => none
      else none := by
  unfold passedClass classMark?
  by_cases hopen : (b && decide (c = '[')) = true
  · rw [if_pos hopen, if_pos hopen]
    cases t with
    | nil => rfl
    | cons mark t =>
      dsimp only
      by_cases hmark : (decide (mark = ':') || decide (mark = '.') || decide (mark = '=')) = true
      · rw [if_pos hmark, if_pos hmark, List.tail_cons]
      · rw [if_neg hmark, if_neg hmark]
  · rw [if_neg hopen, if_neg hopen]

theorem regexBody_escape (b : Bool) (c : Char) (t : Text) :
    regexBody b ('\\' :: c :: t) =
      (regexBody b t).map fun (value, length) =>
        (if c = '/' then '/' :: value else '\\' :: c :: value, length + 2) := by
  rw [regexBody]

theorem regexBody_cons (b : Bool) (hnewline : c ≠ '\n') (hescape : ∀ d u, c = '\\' → t ≠ d :: u) :
    regexBody b (c :: t) =
      if c = '[' && !b then
        (regexBody true (t.drop (bracketStart t).length)).map fun (value, length) =>
          ('[' :: bracketStart t ++ value, (bracketStart t).length + length + 1)
      else
        match passedClass b c t with
        | some count => (regexBody b (t.drop count)).map fun (value, length) =>
            (c :: t.take count ++ value, length + count + 1)
        | none =>
          if c = '/' && !b then some ([], 0)
          else (regexBody (b && c != ']') t).map fun (value, length) => (c :: value, length + 1) := by
  rw [regexBody.eq_def, passedClass_eq]
  split
  · rename_i heq
    cases heq
  · rename_i heq
    cases heq
    exact absurd rfl hnewline
  · rename_i heq
    cases heq
    exact absurd rfl (hescape _ _ rfl)
  · rename_i heq
    cases heq
    rfl

/-! ### What follows a regular expression -/

theorem bracketStart_append (t rest : Text) : bracketStart (t ++ '/' :: rest) = bracketStart t := by
  cases t with
  | nil => rfl
  | cons c t =>
    by_cases hcaret : c = '^'
    · subst hcaret
      cases t with
      | nil => rfl
      | cons d t =>
        by_cases hclose : d = ']'
        · subst hclose
          rfl
        · simp [bracketStart, hclose]
    · by_cases hclose : c = ']'
      · subst hclose
        rfl
      · simp [bracketStart, hcaret, hclose]

theorem bracketStart_length_le (t : Text) : (bracketStart t).length ≤ t.length := by
  unfold bracketStart
  split <;> simp

theorem classMark?_append (b : Bool) (c : Char) (t rest : Text) :
    classMark? b c (t ++ '/' :: rest) = classMark? b c t := by
  unfold classMark?
  split
  · cases t <;> rfl
  · rfl

theorem find?_single (m n c : Char) : Text.find? [m, n] [c] = none := by
  simp [Text.find?, Text.startsWith, Text.dropPrefix?]

theorem find?_cons_cons (m n c d : Char) (t : Text) :
    Text.find? [m, n] (c :: d :: t) =
      if c = m ∧ d = n then some 0 else (Text.find? [m, n] (d :: t)).map (· + 1) := by
  rw [Text.find?]
  by_cases hc : c = m
  · by_cases hd : d = n
    · simp [Text.startsWith, Text.dropPrefix?, hc, hd]
    · simp [Text.startsWith, Text.dropPrefix?, hc, hd]
  · simp [Text.startsWith, Text.dropPrefix?, hc]

theorem find?_append_of_some {m n : Char} {offset : Nat} (h : Text.find? [m, n] t = some offset) (r : Text) :
    Text.find? [m, n] (t ++ r) = some offset ∧ offset + 2 ≤ t.length := by
  induction t generalizing offset with
  | nil => cases h
  | cons c t ih =>
    cases t with
    | nil =>
      rw [find?_single] at h
      cases h
    | cons d t =>
      rw [find?_cons_cons] at h
      rw [List.cons_append, List.cons_append, find?_cons_cons]
      split at h
      · rename_i hpair
        cases h
        exact ⟨if_pos hpair, Nat.le_add_left _ _⟩
      · rename_i hpair
        obtain ⟨offset', hoffset, rfl⟩ := Option.map_eq_some_iff.1 h
        obtain ⟨hfound, hle⟩ := ih hoffset
        rw [List.cons_append] at hfound
        rw [if_neg hpair, hfound]
        exact ⟨rfl, Nat.succ_le_succ hle⟩

theorem find?_append_of_none {m : Char} (hm : m ≠ '/') (h : Text.find? [m, ']'] t = none)
    (hrest : Text.find? [m, ']'] rest = none) : Text.find? [m, ']'] (t ++ '/' :: rest) = none := by
  induction t with
  | nil =>
    rw [List.nil_append, Text.find?]
    simp [Text.startsWith, Text.dropPrefix?, hm.symm, hrest]
  | cons c t ih =>
    cases t with
    | nil =>
      have hslash : Text.find? [m, ']'] ('/' :: rest) = none := ih rfl
      rw [List.cons_append, List.nil_append, find?_cons_cons, hslash, if_neg (fun hpair => by cases hpair.2)]
      rfl
    | cons d t =>
      rw [find?_cons_cons] at h
      split at h
      · cases h
      · rename_i hpair
        rw [Option.map_eq_none_iff] at h
        have hnone := ih h
        rw [List.cons_append] at hnone
        rw [List.cons_append, List.cons_append, find?_cons_cons, if_neg hpair, hnone]
        rfl

theorem mem_classMark? {mark : Char} (h : mark ∈ classMark? b c t) : mark ≠ '/' ∧ ∃ u, t = mark :: u := by
  unfold classMark? at h
  split at h
  · split at h
    · rename_i mark' u
      split at h
      · rename_i hmark
        cases h
        refine ⟨?_, u, rfl⟩
        rintro rfl
        exact absurd hmark (by decide)
      · cases h
    · cases h
  · cases h

theorem passedClass_append_of_some {count : Nat} (h : passedClass b c t = some count) (rest : Text) :
    passedClass b c (t ++ '/' :: rest) = some count ∧ count ≤ t.length := by
  unfold passedClass at h ⊢
  rw [classMark?_append]
  split at h
  · rename_i mark hmark
    obtain ⟨-, u, rfl⟩ := mem_classMark? hmark
    obtain ⟨offset, hoffset, rfl⟩ := Option.map_eq_some_iff.1 h
    obtain ⟨hfound, hle⟩ := find?_append_of_some hoffset ('/' :: rest)
    rw [List.tail_cons] at hle
    rw [List.cons_append, List.tail_cons]
    rw [List.tail_cons] at hfound
    rw [hfound]
    exact ⟨rfl, Nat.succ_le_succ hle⟩
  · cases h

theorem passedClass_append_of_none (h : passedClass b c t = none)
    (hrest : ∀ mark ∈ classMark? b c t, Text.find? [mark, ']'] rest = none) :
    passedClass b c (t ++ '/' :: rest) = none := by
  unfold passedClass at h ⊢
  rw [classMark?_append]
  split at h
  · rename_i mark hmark
    obtain ⟨hslash, u, rfl⟩ := mem_classMark? hmark
    rw [Option.map_eq_none_iff, List.tail_cons] at h
    rw [List.cons_append, List.tail_cons, find?_append_of_none hslash h (hrest mark hmark)]
    rfl
  · rfl

theorem openMarks_cons (b : Bool) (hescape : ∀ d u, c = '\\' → t ≠ d :: u) :
    openMarks b (c :: t) =
      if c = '[' && !b then openMarks true (t.drop (bracketStart t).length)
      else
        match passedClass b c t with
        | some count => openMarks b (t.drop count)
        | none => (classMark? b c t).toList ++ openMarks (b && c != ']') t := by
  rw [openMarks.eq_def]
  split
  · rename_i heq
    cases heq
  · rename_i heq
    cases heq
    exact absurd rfl (hescape _ _ rfl)
  · rename_i heq
    cases heq
    rfl

theorem regexBody_nil (b : Bool) : regexBody b [] = none := by
  rw [regexBody]

theorem regexBody_slash (rest : Text) : regexBody false ('/' :: rest) = some ([], 0) := by
  rw [regexBody_cons _ (by decide) fun _ _ h => absurd h (by decide)]
  simp [passedClass, classMark?]

/-- A regular expression in front of its closing slash begins neither with a line end nor, unless it goes on, with a
backslash. -/
theorem ne_of_regexBody {found : Text × Nat} (h : regexBody b (c :: (t ++ ['/'])) = some found)
    (hescape : ∀ d u, c = '\\' → t ≠ d :: u) : c ≠ '\n' ∧ c ≠ '\\' := by
  constructor
  · rintro rfl
    rw [regexBody] at h
    cases h
  · rintro rfl
    cases t with
    | nil =>
      rw [List.nil_append, regexBody_escape, regexBody_nil] at h
      cases h
    | cons d t => exact hescape d t rfl rfl

/-- A regular expression is read as it is on its own, if what follows closes none of the classes that it leaves
open. -/
theorem regexBody_append {value : Text} (h : regexBody b (t ++ ['/']) = some (value, t.length))
    (hopen : ∀ mark ∈ openMarks b t, Text.find? [mark, ']'] rest = none) :
    regexBody b (t ++ '/' :: rest) = some (value, t.length) := by
  induction b, t using openMarks.induct generalizing value with
  | case1 b =>
    cases b with
    | false =>
      rw [List.nil_append, regexBody_slash] at h
      cases h
      exact regexBody_slash rest
    | true =>
      rw [List.nil_append, regexBody_cons _ (by decide) fun _ _ h => absurd h (by decide)] at h
      simp [passedClass, classMark?, regexBody_nil] at h
  | case2 b c t ih =>
    rw [openMarks] at hopen
    rw [List.cons_append, List.cons_append, regexBody_escape] at h ⊢
    obtain ⟨⟨value', length⟩, hrest, heq⟩ := Option.map_eq_some_iff.1 h
    obtain ⟨rfl, hlength⟩ := Prod.mk.inj heq
    obtain rfl : length = t.length := by
      simp only [List.length_cons] at hlength
      omega
    rw [ih hrest hopen]
    rfl
  | case3 b c t hescape hbracket ih =>
    rw [List.cons_append] at h
    obtain ⟨hnewline, hplain⟩ := ne_of_regexBody h fun d u hc ht => hescape d u hc ht
    rw [openMarks_cons _ fun _ _ hc => absurd hc hplain, if_pos hbracket] at hopen
    rw [regexBody_cons _ hnewline fun _ _ hc => absurd hc hplain, if_pos hbracket, bracketStart_append,
      List.drop_append_of_le_length (bracketStart_length_le t)] at h
    obtain ⟨⟨value', length⟩, hrest, heq⟩ := Option.map_eq_some_iff.1 h
    obtain ⟨rfl, hlength⟩ := Prod.mk.inj heq
    have hle := bracketStart_length_le t
    obtain rfl : length = (t.drop (bracketStart t).length).length := by
      simp only [List.length_cons, List.length_drop] at hlength ⊢
      omega
    rw [List.cons_append, regexBody_cons _ hnewline fun _ _ hc => absurd hc hplain, if_pos hbracket,
      bracketStart_append, List.drop_append_of_le_length hle, ih hrest hopen]
    rw [Option.map_some, ← hlength]
  | case4 b c t hescape hbracket count hcount ih =>
    rw [List.cons_append] at h
    obtain ⟨hnewline, hplain⟩ := ne_of_regexBody h fun d u hc ht => hescape d u hc ht
    rw [openMarks_cons _ fun _ _ hc => absurd hc hplain, if_neg hbracket, hcount] at hopen
    obtain ⟨hpassed, hle⟩ := passedClass_append_of_some hcount []
    rw [regexBody_cons _ hnewline fun _ _ hc => absurd hc hplain, if_neg hbracket, hpassed] at h
    dsimp only at h hopen
    rw [List.drop_append_of_le_length hle, List.take_append_of_le_length hle] at h
    obtain ⟨⟨value', length⟩, hrest, heq⟩ := Option.map_eq_some_iff.1 h
    obtain ⟨rfl, hlength⟩ := Prod.mk.inj heq
    obtain rfl : length = (t.drop count).length := by
      simp only [List.length_cons, List.length_drop] at hlength ⊢
      omega
    obtain ⟨hpassed', -⟩ := passedClass_append_of_some hcount rest
    rw [List.cons_append, regexBody_cons _ hnewline fun _ _ hc => absurd hc hplain, if_neg hbracket, hpassed']
    dsimp only
    rw [List.drop_append_of_le_length hle, List.take_append_of_le_length hle, ih hrest hopen, Option.map_some,
      ← hlength]
  | case5 b c t hescape hbracket hnone ih =>
    rw [List.cons_append] at h
    obtain ⟨hnewline, hplain⟩ := ne_of_regexBody h fun d u hc ht => hescape d u hc ht
    rw [openMarks_cons _ fun _ _ hc => absurd hc hplain, if_neg hbracket, hnone] at hopen
    dsimp only at hopen
    simp only [List.mem_append, Option.mem_toList] at hopen
    have hpassed : passedClass b c (t ++ ['/']) = none := passedClass_append_of_none hnone fun _ _ => rfl
    have hpassed' := passedClass_append_of_none hnone fun mark hmark => hopen mark (.inl hmark)
    rw [regexBody_cons _ hnewline fun _ _ hc => absurd hc hplain, if_neg hbracket, hpassed] at h
    rw [List.cons_append, regexBody_cons _ hnewline fun _ _ hc => absurd hc hplain, if_neg hbracket, hpassed']
    dsimp only at h ⊢
    split at h
    · cases h
    · rename_i hslash
      obtain ⟨⟨value', length⟩, hrest, heq⟩ := Option.map_eq_some_iff.1 h
      obtain ⟨rfl, hlength⟩ := Prod.mk.inj heq
      obtain rfl : length = t.length := Nat.succ.inj hlength
      rw [if_neg hslash, ih hrest fun mark hmark => hopen mark (.inr hmark)]
      rfl

/-! ### The regular expression in a text -/

theorem find?_eq_none_iff {p : Text} (hp : p ≠ []) : Text.find? p t = none ↔ ¬p <:+: t := by
  induction t with
  | nil => simp [Text.find?, hp]
  | cons c t ih =>
    rw [Text.find?, List.infix_cons_iff]
    split
    · rename_i hstarts
      simp [startsWith_iff.1 hstarts]
    · rename_i hstarts
      rw [startsWith_iff] at hstarts
      simp [ih, hstarts]

theorem find?_of_append {m n : Char} {offset : Nat} (h : Text.find? [m, n] (t ++ rest) = some offset)
    (hle : offset + 2 ≤ t.length) : Text.find? [m, n] t = some offset := by
  induction t generalizing offset with
  | nil => simp at hle
  | cons c t ih =>
    cases t with
    | nil => simp at hle
    | cons d t =>
      rw [List.cons_append, List.cons_append, find?_cons_cons] at h
      rw [find?_cons_cons]
      split at h
      · rename_i hpair
        rw [if_pos hpair]
        exact h
      · rename_i hpair
        obtain ⟨offset', hoffset, rfl⟩ := Option.map_eq_some_iff.1 h
        rw [if_neg hpair, ih hoffset (Nat.le_of_succ_le_succ hle)]
        rfl

theorem passedClass_of_append {count : Nat} (h : passedClass b c (t ++ '/' :: rest) = some count)
    (hle : count ≤ t.length) : passedClass b c t = some count := by
  unfold passedClass at h ⊢
  rw [classMark?_append] at h
  split at h
  · rename_i mark hmark
    obtain ⟨-, u, rfl⟩ := mem_classMark? hmark
    obtain ⟨offset, hoffset, rfl⟩ := Option.map_eq_some_iff.1 h
    rw [List.cons_append, List.tail_cons] at hoffset
    rw [List.tail_cons, find?_of_append hoffset (Nat.le_of_succ_le_succ hle)]
    rfl
  · cases h

theorem passedClass_none_of_append (h : passedClass b c (t ++ '/' :: rest) = none) :
    passedClass b c t = none ∧ ∀ mark ∈ classMark? b c t, Text.find? [mark, ']'] rest = none := by
  unfold passedClass at h ⊢
  rw [classMark?_append] at h
  split at h
  · rename_i mark hmark
    obtain ⟨-, u, rfl⟩ := mem_classMark? hmark
    rw [Option.map_eq_none_iff, List.cons_append, List.tail_cons, find?_eq_none_iff (List.cons_ne_nil _ _)] at h
    rw [List.tail_cons, Option.map_eq_none_iff, hmark, find?_eq_none_iff (List.cons_ne_nil _ _)]
    refine ⟨fun hu => h (hu.trans (List.prefix_append _ _).isInfix), ?_⟩
    rintro _ ⟨⟩
    rw [find?_eq_none_iff (List.cons_ne_nil _ _)]
    exact fun hrest => h (hrest.trans ((List.suffix_cons _ _).trans (List.suffix_append _ _)).isInfix)
  · rename_i hmark
    rw [hmark]
    exact ⟨rfl, fun mark hmark => by cases hmark⟩

theorem bracketStart_prefixes (t : Text) : bracketStart t <+: t := by
  unfold bracketStart
  split <;> simp

/-- A regular expression is read up to its closing slash, which is there whatever follows, and what follows closes none
of the classes that it leaves open. -/
theorem regexBody_eq {value : Text} {length : Nat} (h : regexBody b t = some (value, length)) :
    ∃ body rest, t = body ++ '/' :: rest ∧ body.length = length ∧
      regexBody b (body ++ ['/']) = some (value, length) ∧
        ∀ mark ∈ openMarks b body, Text.find? [mark, ']'] rest = none := by
  induction b, t using openMarks.induct generalizing value length with
  | case1 b =>
    rw [regexBody_nil] at h
    cases h
  | case2 b c t ih =>
    rw [regexBody_escape] at h
    obtain ⟨⟨value', length'⟩, hrest, heq⟩ := Option.map_eq_some_iff.1 h
    obtain ⟨rfl, rfl⟩ := Prod.mk.inj heq
    obtain ⟨body, rest, rfl, rfl, hbody, hopen⟩ := ih hrest
    refine ⟨'\\' :: c :: body, rest, rfl, rfl, ?_, by rw [openMarks]; exact hopen⟩
    rw [List.cons_append, List.cons_append, regexBody_escape, hbody]
    rfl
  | case3 b c t hescape hbracket ih =>
    have hnewline : c ≠ '\n' := by
      rintro rfl
      cases hbracket
    rw [regexBody_cons _ hnewline fun d u hc ht => hescape d u hc ht, if_pos hbracket] at h
    obtain ⟨⟨value', length'⟩, hrest, heq⟩ := Option.map_eq_some_iff.1 h
    obtain ⟨rfl, rfl⟩ := Prod.mk.inj heq
    obtain ⟨body, rest, hdrop, rfl, hbody, hopen⟩ := ih hrest
    have hplain : c ≠ '\\' := by
      rintro rfl
      cases hbracket
    have ht : t = bracketStart t ++ body ++ '/' :: rest := by
      rw [List.append_assoc, ← hdrop]
      exact (List.prefix_iff_eq_append.1 (bracketStart_prefixes t)).symm
    have hfirst : c = '[' := by
      rw [Bool.and_eq_true, decide_eq_true_eq] at hbracket
      exact hbracket.1
    subst hfirst
    generalize hstart : bracketStart t = start at *
    subst ht
    rw [bracketStart_append] at hstart
    refine ⟨'[' :: (start ++ body), rest, by simp, by simp, ?_, ?_⟩
    · rw [List.cons_append, regexBody_cons _ hnewline fun _ _ hc => absurd hc hplain, if_pos hbracket,
        bracketStart_append, hstart, List.append_assoc, List.drop_left, hbody]
      rfl
    · rw [openMarks_cons _ fun _ _ hc => absurd hc hplain, if_pos hbracket, hstart, List.drop_left]
      exact hopen
  | case4 b c t hescape hbracket count hcount ih =>
    have hnewline : c ≠ '\n' := by
      rintro rfl
      simp [passedClass, classMark?] at hcount
    have hplain : c ≠ '\\' := by
      rintro rfl
      simp [passedClass, classMark?] at hcount
    have hle := (passedClass_append_of_some hcount []).2
    rw [regexBody_cons _ hnewline fun d u hc ht => hescape d u hc ht, if_neg hbracket, hcount] at h
    obtain ⟨⟨value', length'⟩, hrest, heq⟩ := Option.map_eq_some_iff.1 h
    obtain ⟨rfl, rfl⟩ := Prod.mk.inj heq
    obtain ⟨body, rest, hdrop, rfl, hbody, hopen⟩ := ih hrest
    have ht : t = t.take count ++ body ++ '/' :: rest := by
      rw [List.append_assoc, ← hdrop, List.take_append_drop]
    have htake : (t.take count).length = count := List.length_take_of_le hle
    generalize t.take count = passed at *
    subst ht
    have hcount' := passedClass_of_append hcount (by simp; omega)
    refine ⟨c :: (passed ++ body), rest, by simp, by simp; omega, ?_, ?_⟩
    · rw [List.cons_append, regexBody_cons _ hnewline fun _ _ hc => absurd hc hplain, if_neg hbracket,
        (passedClass_append_of_some hcount' []).1]
      dsimp only
      rw [List.append_assoc, List.drop_left' htake, List.take_left' htake, hbody]
      rfl
    · rw [openMarks_cons _ fun _ _ hc => absurd hc hplain, if_neg hbracket, hcount']
      dsimp only
      rw [List.drop_left' htake]
      exact hopen
  | case5 b c t hescape hbracket hnone ih =>
    have hnewline : c ≠ '\n' := by
      rintro rfl
      rw [regexBody] at h
      cases h
    rw [regexBody_cons _ hnewline fun d u hc ht => hescape d u hc ht, if_neg hbracket, hnone] at h
    dsimp only at h
    split at h
    · rename_i hslash
      cases h
      simp only [Bool.and_eq_true, decide_eq_true_eq, Bool.not_eq_true'] at hslash
      obtain ⟨rfl, rfl⟩ := hslash
      exact ⟨[], t, rfl, rfl, regexBody_slash [], by simp [openMarks]⟩
    · rename_i hslash
      obtain ⟨⟨value', length'⟩, hrest, heq⟩ := Option.map_eq_some_iff.1 h
      obtain ⟨rfl, rfl⟩ := Prod.mk.inj heq
      obtain ⟨body, rest, rfl, rfl, hbody, hopen⟩ := ih hrest
      have hplain : c ≠ '\\' := by
        rintro rfl
        cases body with
        | nil => exact hescape _ _ rfl rfl
        | cons d body => exact hescape _ _ rfl rfl
      obtain ⟨hnone', hmark⟩ := passedClass_none_of_append hnone
      refine ⟨c :: body, rest, rfl, rfl, ?_, ?_⟩
      · rw [List.cons_append, regexBody_cons _ hnewline fun _ _ hc => absurd hc hplain, if_neg hbracket,
          passedClass_append_of_none hnone' fun _ _ => rfl]
        dsimp only
        rw [if_neg hslash, hbody]
        rfl
      · rw [openMarks_cons _ fun _ _ hc => absurd hc hplain, if_neg hbracket, hnone']
        simp only [List.mem_append, Option.mem_toList]
        rintro mark (hopens | hopens)
        · exact hmark mark hopens
        · exact hopen mark hopens

end Awk.Lexeme
