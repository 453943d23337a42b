import Awk.Proofs.Action
import Awk.Proofs.Regex.Translation
import Awk.Proofs.Syntax.Rendering.Regex
import Mathlib.Data.List.TakeWhile

/-!
# Where bracket expressions end

The scanner of literals and the translation of EREs find the ends of bracket expressions each on their own.  They agree
(`Ere.bracket_of_takeBracket`), although the scanner takes the backslash from a slash in a bracket, and so goes on with
another text than it was given (`Ere.Bares`).
-/

namespace Awk

namespace Lexeme

/-- What has been read of a regular expression, in front of what the scanner reads of the rest. -/
def ahead (value : Text) (count : Nat) (read : Option (Text × Nat)) : Option (Text × Nat) :=
  read.map fun (more, length) => (value ++ more, count + length)

theorem ahead_ahead (value more : Text) (count length : Nat) (read : Option (Text × Nat)) :
    ahead value count (ahead more length read) = ahead (value ++ more) (count + length) read := by
  cases read with
  | none => rfl
  | some read => simp [ahead, Nat.add_assoc]

theorem ahead_some (value more : Text) (count length : Nat) :
    ahead value count (some (more, length)) = some (value ++ more, count + length) := rfl

theorem map_eq_ahead {value : Text} {count : Nat} {f : Text × Nat → Text × Nat}
    (h : ∀ more length, f (more, length) = (value ++ more, count + length)) (read : Option (Text × Nat)) :
    read.map f = ahead value count read :=
  congrArg (read.map ·) (funext fun (more, length) => h more length)

variable {b : Bool} {c : Char} {t : Text}

theorem regexBody_pair (hc : c ≠ '/') (b : Bool) (t : Text) :
    regexBody b ('\\' :: c :: t) = ahead ['\\', c] 2 (regexBody b t) := by
  rw [regexBody_escape]
  refine map_eq_ahead (fun more length => ?_) _
  simp [hc, Nat.add_comm]

theorem regexBody_escapedSlash (b : Bool) (t : Text) :
    regexBody b ('\\' :: '/' :: t) = ahead ['/'] 2 (regexBody b t) := by
  rw [regexBody_escape]
  refine map_eq_ahead (fun more length => ?_) _
  simp [Nat.add_comm]

theorem regexBody_member (hnewline : c ≠ '\n') (hescape : c ≠ '\\') (hclass : classMark? true c t = none) :
    regexBody true (c :: t) = ahead [c] 1 (regexBody (c != ']') t) := by
  have hpassed : passedClass true c t = none := by
    rw [passedClass, hclass]
  rw [regexBody_cons _ hnewline fun _ _ hc => absurd hc hescape, if_neg (by simp), hpassed]
  dsimp only
  rw [if_neg (by simp), Bool.true_and]
  refine map_eq_ahead (fun more length => ?_) _
  rw [Nat.add_comm]
  rfl

theorem regexBody_plain (hc : c ∉ ['\n', '\\', '[', '/']) (t : Text) :
    regexBody false (c :: t) = ahead [c] 1 (regexBody false t) := by
  simp only [List.mem_cons, List.not_mem_nil, or_false, not_or] at hc
  obtain ⟨hnewline, hescape, hopen, hslash⟩ := hc
  rw [regexBody_cons _ hnewline fun _ _ hc => absurd hc hescape, if_neg (by simp [hopen])]
  have hpassed : passedClass false c t = none := rfl
  rw [hpassed]
  dsimp only
  rw [if_neg (by simp [hslash]), Bool.false_and]
  refine map_eq_ahead (fun more length => ?_) _
  rw [Nat.add_comm]
  rfl

/-- A character that is ordinary in a bracket expression and outside. -/
def Ordinary (c : Char) : Prop := c ∉ ['\n', '\\', '[', ']', '/']

theorem regexBody_ordinary (hc : Ordinary c) (b : Bool) (t : Text) :
    regexBody b (c :: t) = ahead [c] 1 (regexBody b t) := by
  simp only [Ordinary, List.mem_cons, List.not_mem_nil, or_false, not_or] at hc
  obtain ⟨hnewline, hescape, hopen, hclose, hslash⟩ := hc
  cases b with
  | false => exact regexBody_plain (by simp [hnewline, hescape, hopen, hslash]) t
  | true =>
    rw [regexBody_member hnewline hescape (by simp [classMark?, hopen]), bne_iff_ne.2 hclose]

theorem regexBody_ordinaries {ds : Text} (hds : ∀ d ∈ ds, Ordinary d) (b : Bool) (t : Text) :
    regexBody b (ds ++ t) = ahead ds ds.length (regexBody b t) := by
  induction ds with
  | nil =>
    cases hread : regexBody b t with
    | none => simp [ahead, hread]
    | some read => simp [ahead, hread]
  | cons d ds ih =>
    rw [List.forall_mem_cons] at hds
    rw [List.cons_append, regexBody_ordinary hds.1, ih hds.2, ahead_ahead, List.length_cons, Nat.add_comm 1]
    rfl

theorem regexBody_open (t : Text) :
    regexBody false ('[' :: t) =
      ahead ('[' :: bracketStart t) ((bracketStart t).length + 1)
        (regexBody true (t.drop (bracketStart t).length)) := by
  rw [regexBody_cons _ (by decide) fun _ _ hc => absurd hc (by decide), if_pos (by decide)]
  refine map_eq_ahead (fun more length => ?_) _
  rw [Nat.add_right_comm]

/-- A named class is passed over whole. -/
theorem regexBody_class {mark : Char} {name : Text} (hmark : mark ∈ [':', '.', '=']) {u : Text}
    (hfind : Text.find? [mark, ']'] (name ++ mark :: ']' :: u) = some name.length) :
    regexBody true ('[' :: mark :: (name ++ mark :: ']' :: u)) =
      ahead ('[' :: mark :: (name ++ [mark, ']'])) (name.length + 4) (regexBody true u) := by
  have hclass : classMark? true '[' (mark :: (name ++ mark :: ']' :: u)) = some mark := by
    simp only [List.mem_cons, List.not_mem_nil, or_false] at hmark
    simp [classMark?, hmark, or_assoc]
  have hpassed : passedClass true '[' (mark :: (name ++ mark :: ']' :: u)) = some (name.length + 3) := by
    rw [passedClass, hclass]
    dsimp only
    rw [List.tail_cons, hfind]
    rfl
  have hsplit : mark :: (name ++ mark :: ']' :: u) = (mark :: (name ++ [mark, ']'])) ++ u := by
    simp
  have hlength : (mark :: (name ++ [mark, ']'])).length = name.length + 3 := by
    simp
  rw [regexBody_cons _ (by decide) fun _ _ hc => absurd hc (by decide), if_neg (by simp), hpassed]
  dsimp only
  rw [hsplit, List.drop_left' hlength, List.take_left' hlength]
  refine map_eq_ahead (fun more length => ?_) _
  rw [Nat.add_comm (name.length + 4), ← Nat.add_assoc]
  rfl

end Lexeme

namespace Ere

open Awk.Action (bind_eq_ok)
open Lexeme (regexBody ahead ahead_ahead ahead_some classMark? bracketStart)

/-! ### Slashes without their backslash -/

/-- The text `v` is `t` with some slashes without the backslash before them. -/
inductive Bares : Text → Text → Prop
  | nil : Bares [] []
  | bare {t v : Text} : Bares t v → Bares ('\\' :: '/' :: t) ('/' :: v)
  | keep {t v : Text} (c : Char) : Bares t v → Bares (c :: t) (c :: v)

namespace Bares

variable {s t v w : Text}

theorem keeps (s : Text) (h : Bares t v) : Bares (s ++ t) (s ++ v) := by
  induction s with
  | nil => exact h
  | cons c s ih => exact .keep c ih

theorem append (hs : Bares s v) (ht : Bares t w) : Bares (s ++ t) (v ++ w) := by
  induction hs with
  | nil => exact ht
  | bare _ ih => exact .bare ih
  | keep c _ ih => exact .keep c ih

/-- What has no slash stands in front of both or of none. -/
theorem of_prefix {p : Text} (h : Bares t (p ++ v)) (hp : '/' ∉ p) : ∃ u, t = p ++ u ∧ Bares u v := by
  induction p generalizing t with
  | nil => exact ⟨t, rfl, h⟩
  | cons c p ih =>
    rw [List.mem_cons, not_or] at hp
    cases h with
    | bare => exact absurd rfl hp.1
    | keep _ h =>
      obtain ⟨u, rfl, hu⟩ := ih h hp.2
      exact ⟨u, rfl, hu⟩

theorem head? (h : Bares t v) {c : Char} (hc : c ≠ '/') (hv : v.head? = some c) : t.head? = some c := by
  cases h with
  | nil => exact hv
  | bare =>
    cases hv
    exact absurd rfl hc
  | keep d => exact hv

theorem head?_append (h : Bares t v) {c d : Char} (hc : c ≠ '/') (s w : Text)
    (hw : (v ++ d :: w).head? = some c) : (t ++ d :: s).head? = some c := by
  cases h with
  | nil => exact hw
  | bare =>
    cases hw
    exact absurd rfl hc
  | keep e => exact hw

end Bares

/-! ### Escapes -/

theorem ordinary_of_isOctal {c : Char} (h : isOctal c) : Lexeme.Ordinary c := by
  intro hc
  simp only [List.mem_cons, List.not_mem_nil, or_false] at hc
  rcases hc with rfl | rfl | rfl | rfl | rfl
  all_goals cases h

theorem takeOctal_same {n : Nat} {t v : Text}
    (h : ∀ c, isOctal c → v.head? = some c → (t.drop ((t.take n).takeWhile isOctal).length).head? = some c) :
    (((t.take n).takeWhile isOctal ++ v).take n).takeWhile isOctal = (t.take n).takeWhile isOctal := by
  induction n generalizing t with
  | zero => simp
  | succ n ih =>
    have hstop (hhead : ∀ c, isOctal c → v.head? ≠ some c) : (v.take (n + 1)).takeWhile isOctal = [] := by
      cases v with
      | nil => rfl
      | cons c v =>
        rw [List.take_succ_cons, List.takeWhile_cons_of_neg fun hc => hhead c hc rfl]
    cases t with
    | nil => exact hstop fun c hc hv => by cases h c hc hv
    | cons c t =>
      rw [List.take_succ_cons] at h ⊢
      by_cases hc : isOctal c
      · rw [List.takeWhile_cons_of_pos hc] at h ⊢
        rw [List.cons_append, List.take_succ_cons, List.takeWhile_cons_of_pos hc, ih h]
      · rw [List.takeWhile_cons_of_neg hc] at h ⊢
        refine hstop fun d hd hv => hc ?_
        cases h d hd hv
        exact hd

/-- An escape covers a run of octal digits, and it covers no more of a text that goes on with the same digit or with
none. -/
theorem takeEscape_cut (c : Char) (t : Text) :
    ∃ ds, t = ds ++ (takeEscape c t).2 ∧ (∀ d ∈ ds, isOctal d) ∧ (ds ≠ [] → isOctal c) ∧
      ∀ v, (∀ d, isOctal d → v.head? = some d → (takeEscape c t).2.head? = some d) →
        takeEscape c (ds ++ v) = ((takeEscape c t).1, v) := by
  unfold takeEscape
  cases hlookup : escapes.lookup c with
  | some d => exact ⟨[], rfl, by simp, by simp, fun v _ => rfl⟩
  | none =>
    by_cases hc : isOctal c
    · simp only [hc, if_true, takeOctal, List.take_succ_cons, List.takeWhile_cons, List.length_cons,
        List.drop_succ_cons]
      have hdrop : t = (t.take 2).takeWhile isOctal ++ t.drop ((t.take 2).takeWhile isOctal).length :=
        (List.prefix_iff_eq_append.1 ((List.takeWhile_prefix _).trans (List.take_prefix _ _))).symm
      refine ⟨(t.take 2).takeWhile isOctal, hdrop, fun d hd => List.mem_takeWhile_imp hd, fun _ => trivial,
        fun v hv => ?_⟩
      rw [takeOctal_same hv, List.drop_left]
    · simp only [hc]
      exact ⟨[], rfl, by simp, by simp, fun v _ => rfl⟩

/-! ### Bracket expressions -/

theorem dropPrefix?_pair (c d m n : Char) (t : Text) :
    Text.dropPrefix? (c :: d :: t) [m, n] = if c = m ∧ d = n then some t else none := by
  by_cases hc : c = m
  · by_cases hd : d = n
    · simp [Text.dropPrefix?, hc, hd]
    · simp [Text.dropPrefix?, hc, hd]
  · simp [Text.dropPrefix?, hc]

/-- Where a named class ends is seen from what stands up to its end. -/
theorem cutAt?_pair {m n : Char} {t name rest : Text} (h : Text.cutAt? [m, n] t = some (name, rest)) :
    t = name ++ m :: n :: rest ∧ ∀ u, Text.cutAt? [m, n] (name ++ m :: n :: u) = some (name, u) ∧
      Text.find? [m, n] (name ++ m :: n :: u) = some name.length := by
  induction t generalizing name with
  | nil => cases h
  | cons c t ih =>
    rw [Text.cutAt?] at h
    split at h
    · rename_i r hr
      cases h
      cases t with
      | nil => simp [Text.dropPrefix?] at hr
      | cons d t =>
        rw [dropPrefix?_pair] at hr
        split at hr
        · rename_i hcd
          obtain ⟨rfl, rfl⟩ := hcd
          cases hr
          exact ⟨rfl, fun u => by simp [Text.cutAt?, Text.find?, Text.startsWith, Text.dropPrefix?]⟩
        · cases hr
    · rename_i hnone
      obtain ⟨⟨name', rest'⟩, hcut, heq⟩ := Option.map_eq_some_iff.1 h
      cases heq
      obtain ⟨rfl, hany⟩ := ih hcut
      have hnone (u : Text) : Text.dropPrefix? (c :: (name' ++ m :: n :: u)) [m, n] = none := by
        cases name' with
        | nil =>
          rw [List.nil_append, dropPrefix?_pair] at hnone ⊢
          simpa using hnone
        | cons d name' =>
          rw [List.cons_append, dropPrefix?_pair] at hnone ⊢
          simpa using hnone
      refine ⟨rfl, fun u => ?_⟩
      obtain ⟨hcutAt, hfind⟩ := hany u
      simp [Text.cutAt?, Text.find?, Text.startsWith, hnone, hcutAt, hfind]

theorem takeMembers_class (t : Text) :
    takeMembers ('[' :: ':' :: t) =
      match Text.cutAt? [':', ']'] t with
      | none => .error .openClass
      | some (name, rest) =>
        match classMembers? name with
        | none => .error (.unknownClass name)
        | some ms => takeMembers rest >>= fun (members, rest) => .ok (ms ++ members, rest) := by
  rw [takeMembers]
  split
  · rename_i hcut
    rewrite [hcut]
    rfl
  · rename_i hcut
    dsimp only
    rewrite [hcut]
    rfl

theorem takeMembers_collating {mark : Char} (hmark : mark = '.' ∨ mark = '=') (t : Text) :
    takeMembers ('[' :: mark :: t) =
      match Text.cutAt? [mark, ']'] t with
      | none => .error .openCollating
      | some (element, rest) =>
        takeMembers rest >>= fun (members, rest) => .ok (quoteAll element ++ members, rest) := by
  have hcolon : mark ≠ ':' := by
    rcases hmark with rfl | rfl
    · decide
    · decide
  rw [takeMembers]
  · rw [if_pos (by simpa using hmark)]
    split
    · rename_i hcut
      simp only [hcut]
    · rename_i hcut
      simp only [hcut]
  · exact hcolon

/-- What stands in a bracket expression, behind what may stand first and before the closing bracket: the members are the
same whatever follows, also with `value` in its place, and `value` is what the scanner reads it as. -/
structure Inside (body value members : Text) : Prop where
  bares : Bares body value
  same : ∀ t, takeMembers (body ++ ']' :: t) = .ok (members, t)
  reads : ∀ t, takeMembers (value ++ ']' :: t) = .ok (members, t)
  scans : '\n' ∉ body → ∀ t,
    regexBody true (body ++ ']' :: t) = ahead (value ++ [']']) (body.length + 1) (regexBody false t)

namespace Inside

variable {body value members : Text}

theorem nil : Inside [] [] [] where
  bares := .nil
  same t := by rw [List.nil_append, takeMembers]
  reads t := by rw [List.nil_append, takeMembers]
  scans _ t := Lexeme.regexBody_member (by decide) (by decide) rfl

theorem member (h : Inside body value members) {c : Char} (hclose : c ≠ ']') (hescape : c ≠ '\\') (hopen : c ≠ '[') :
    Inside (c :: body) (c :: value) (c :: members) where
  bares := h.bares.keep c
  same t := takeMembers_plain hclose hescape hopen (h.same t)
  reads t := takeMembers_plain hclose hescape hopen (h.reads t)
  scans hnewline t := by
    rw [List.mem_cons, not_or] at hnewline
    rw [List.cons_append, Lexeme.regexBody_member (Ne.symm hnewline.1) hescape (by simp [classMark?, hopen])]
    rw [bne_iff_ne.2 hclose, h.scans hnewline.2, ahead_ahead, List.length_cons, Nat.add_comm 1]
    rfl

/-- The scanner takes the backslash from a slash in a bracket expression as well, where either way it is a slash. -/
theorem escapedSlash (h : Inside body value members) :
    Inside ('\\' :: '/' :: body) ('/' :: value) ('/' :: members) where
  bares := .bare h.bares
  same t := by
    rw [List.cons_append, List.cons_append, takeMembers]
    change (takeMembers (body ++ ']' :: t) >>= fun (more, rest) => .ok (quote '/' ++ more, rest)) = _
    rw [h.same]
    rfl
  reads t := takeMembers_plain (by decide) (by decide) (by decide) (h.reads t)
  scans hnewline t := by
    simp only [List.mem_cons, not_or] at hnewline
    rw [List.cons_append, List.cons_append, Lexeme.regexBody_escapedSlash, h.scans hnewline.2.2, ahead_ahead,
      List.length_cons, List.length_cons, Nat.add_comm 2]
    rfl

/-- A character behind a backslash, and the octal digits that belong to it. -/
theorem escape (h : Inside body value members) {c : Char} (hc : c ≠ '/') {ds : Text} (hds : ∀ d ∈ ds, isOctal d)
    {e : Char} (htake : ∀ more ∈ [body, value], ∀ t, takeEscape c (ds ++ (more ++ ']' :: t)) = (e, more ++ ']' :: t)) :
    Inside ('\\' :: c :: (ds ++ body)) ('\\' :: c :: (ds ++ value)) (quote e ++ members) where
  bares := ((h.bares.keeps ds).keep c).keep '\\'
  same t := by
    simp only [List.cons_append, List.append_assoc]
    rw [takeMembers, htake body (by simp), h.same]
    rfl
  reads t := by
    simp only [List.cons_append, List.append_assoc]
    rw [takeMembers, htake value (by simp), h.reads]
    rfl
  scans hnewline t := by
    have hcount : 2 + ds.length + (body.length + 1) = ('\\' :: c :: (ds ++ body)).length + 1 := by
      simp only [List.length_cons, List.length_append]
      omega
    simp only [List.mem_cons, List.mem_append, not_or] at hnewline
    simp only [List.cons_append, List.append_assoc]
    rw [Lexeme.regexBody_pair hc, Lexeme.regexBody_ordinaries fun d hd => ordinary_of_isOctal (hds d hd),
      h.scans hnewline.2.2.2, ahead_ahead, ahead_ahead, hcount]
    simp

/-- A bracket that opens nothing. -/
theorem opening (h : Inside body value members)
    (hmark : ∀ c ∈ [':', '.', '='], (body ++ [']']).head? ≠ some c) :
    Inside ('[' :: body) ('[' :: value) ('\\' :: '[' :: members) where
  bares := h.bares.keep '['
  same t := by
    have hsame := h.same t
    cases body with
    | nil => exact takeMembers_open (by decide) hsame
    | cons mark body => exact takeMembers_open (fun hc => hmark mark hc rfl) hsame
  reads t := by
    have hreads := h.reads t
    have hhead (c : Char) (hc : c ∈ [':', '.', '=']) : (value ++ ']' :: t).head? ≠ some c := by
      refine fun hv => hmark c hc (h.bares.head?_append ?_ [] t hv)
      rintro rfl
      simp at hc
    rw [List.cons_append]
    generalize value ++ ']' :: t = u at hreads hhead
    cases u with
    | nil =>
      unfold takeMembers at hreads
      cases hreads
    | cons mark u => exact takeMembers_open (fun hc => hhead mark hc rfl) hreads
  scans hnewline t := by
    rw [List.mem_cons, not_or] at hnewline
    have hclass : classMark? true '[' (body ++ ']' :: t) = none := by
      cases body with
      | nil => rfl
      | cons mark body =>
        have hmark (c : Char) (hc : c ∈ [':', '.', '=']) : mark ≠ c := fun heq => hmark c hc (congrArg some heq)
        simp [classMark?, hmark]
    rw [List.cons_append, Lexeme.regexBody_member (by decide) (by decide) hclass]
    rw [bne_iff_ne.2 (by decide), h.scans hnewline.2, ahead_ahead, List.length_cons, Nat.add_comm 1]
    rfl

/-- A named class or a collating element. -/
theorem passed (h : Inside body value members) {mark : Char} (hmark : mark ∈ [':', '.', '=']) {name ms : Text}
    (hfind : ∀ u, Text.find? [mark, ']'] (name ++ mark :: ']' :: u) = some name.length)
    (hreads : ∀ {s t}, takeMembers s = .ok (members, t) →
      takeMembers ('[' :: mark :: (name ++ mark :: ']' :: s)) = .ok (ms ++ members, t)) :
    Inside ('[' :: mark :: (name ++ mark :: ']' :: body)) ('[' :: mark :: (name ++ mark :: ']' :: value))
      (ms ++ members) where
  bares := by
    have hbares := h.bares.keeps ('[' :: mark :: (name ++ [mark, ']']))
    simpa using hbares
  same t := by
    simpa using hreads (h.same t)
  reads t := by
    simpa using hreads (h.reads t)
  scans hnewline t := by
    have hcount : name.length + 4 + (body.length + 1) = ('[' :: mark :: (name ++ mark :: ']' :: body)).length + 1 := by
      simp only [List.length_cons, List.length_append]
      omega
    simp only [List.mem_cons, List.mem_append, not_or] at hnewline
    have hscans := Lexeme.regexBody_class hmark (hfind (body ++ ']' :: t))
    rw [h.scans hnewline.2.2.2.2.2, ahead_ahead, hcount] at hscans
    simpa using hscans

end Inside

/-- The members of a bracket expression end where the scanner ends the bracket. -/
theorem inside_of_takeMembers {t members rest : Text} (h : takeMembers t = .ok (members, rest)) :
    ∃ body value, t = body ++ ']' :: rest ∧ Inside body value members := by
  induction t using takeMembers.induct generalizing members with
  | case1 =>
    rw [takeMembers] at h
    cases h
  | case2 t =>
    rw [takeMembers] at h
    cases h
    exact ⟨[], [], rfl, .nil⟩
  | case3 t hcut =>
    rw [takeMembers_class, hcut] at h
    cases h
  | case4 t name rest' hcut hclass =>
    rw [takeMembers_class, hcut] at h
    dsimp only at h
    rw [hclass] at h
    cases h
  | case5 t name rest' hcut ms hclass hle ih =>
    rw [takeMembers_class, hcut] at h
    dsimp only at h
    rw [hclass] at h
    obtain ⟨⟨more, rest''⟩, hmore, heq⟩ := bind_eq_ok.1 h
    cases heq
    obtain ⟨body, value, rfl, hinside⟩ := ih hmore
    obtain ⟨rfl, hany⟩ := cutAt?_pair hcut
    refine ⟨_, _, ?_, hinside.passed (by decide) (fun u => (hany u).2) fun {s t} hs => ?_⟩
    · simp
    · rw [takeMembers_class, (hany s).1]
      dsimp only
      rw [hclass, hs]
      rfl
  | case6 mark t hcolon hmark hcut =>
    rw [takeMembers_collating (by simpa using hmark), hcut] at h
    cases h
  | case7 mark t hcolon hmark name rest' hcut hle ih =>
    have hmark : mark = '.' ∨ mark = '=' := by simpa using hmark
    rw [takeMembers_collating hmark, hcut] at h
    obtain ⟨⟨more, rest''⟩, hmore, heq⟩ := bind_eq_ok.1 h
    cases heq
    obtain ⟨body, value, rfl, hinside⟩ := ih hmore
    obtain ⟨rfl, hany⟩ := cutAt?_pair hcut
    refine ⟨_, _, ?_, hinside.passed (by simp [hmark]) (fun u => (hany u).2) fun {s t} hs => ?_⟩
    · simp
    · rw [takeMembers_collating hmark, (hany s).1]
      dsimp only
      rw [hs]
      rfl
  | case8 mark t hcolon hmark ih =>
    rw [takeMembers, if_neg hmark] at h
    · obtain ⟨⟨more, rest''⟩, hmore, heq⟩ := bind_eq_ok.1 h
      cases heq
      obtain ⟨body, value, ht, hinside⟩ := ih hmore
      refine ⟨'[' :: body, '[' :: value, congrArg ('[' :: ·) ht, hinside.opening fun c hc hhead => ?_⟩
      have hmarks : mark ∉ [':', '.', '='] := by
        simp only [Bool.or_eq_true, decide_eq_true_eq, not_or] at hmark
        simp only [List.mem_cons, List.not_mem_nil, or_false, not_or]
        exact ⟨hcolon, hmark⟩
      have hhead' : (mark :: t).head? = some c := by
        rw [ht, ← hhead]
        cases body with
        | nil => rfl
        | cons d body => rfl
      cases hhead'
      exact hmarks hc
    · exact hcolon
  | case9 c t hle ih =>
    rw [takeMembers] at h
    obtain ⟨⟨more, rest''⟩, hmore, heq⟩ := bind_eq_ok.1 h
    cases heq
    obtain ⟨body, value, hrest, hinside⟩ := ih hmore
    by_cases hc : c = '/'
    · subst hc
      exact ⟨'\\' :: '/' :: body, '/' :: value, congrArg ('\\' :: '/' :: ·) hrest, hinside.escapedSlash⟩
    · obtain ⟨ds, ht, hds, -, htake⟩ := takeEscape_cut c t
      rw [hrest] at ht htake
      refine ⟨'\\' :: c :: (ds ++ body), '\\' :: c :: (ds ++ value), by rw [ht]; simp,
        hinside.escape hc hds fun more hmore t => htake _ fun d hd hhead => ?_⟩
      simp only [List.mem_cons, List.not_mem_nil, or_false] at hmore
      rcases hmore with rfl | rfl
      · cases more with
        | nil => exact hhead
        | cons d more => exact hhead
      · refine hinside.bares.head?_append ?_ rest t hhead
        rintro rfl
        cases hd
  | case10 c t hclose hclass hopen hescape ih =>
    rw [takeMembers] at h
    · obtain ⟨⟨more, rest''⟩, hmore, heq⟩ := bind_eq_ok.1 h
      cases heq
      obtain ⟨body, value, rfl, hinside⟩ := ih hmore
      have hplain : c ≠ '\\' ∧ c ≠ '[' := by
        cases hu : body ++ ']' :: rest with
        | nil => simp at hu
        | cons d u => exact ⟨fun hc => hescape d u hc hu, fun hc => hopen d u hc hu⟩
      refine ⟨c :: body, c :: value, rfl, ?_⟩
      simpa [hplain] using hinside.member hclose hplain.1 hplain.2
    · exact hclose
    · exact hclass
    · exact hopen
    · exact hescape

theorem bracketStart_cases (t : Text) :
    (∃ u, t = '^' :: ']' :: u ∧ bracketStart t = ['^', ']']) ∨
      (∃ u, t = '^' :: u ∧ u.head? ≠ some ']' ∧ bracketStart t = ['^']) ∨
        (∃ u, t = ']' :: u ∧ bracketStart t = [']']) ∨
          t.head? ≠ some '^' ∧ t.head? ≠ some ']' ∧ bracketStart t = [] := by
  rcases t with - | ⟨c, t⟩
  · exact .inr (.inr (.inr ⟨by simp, by simp, rfl⟩))
  · by_cases hcaret : c = '^'
    · subst hcaret
      rcases t with - | ⟨d, t⟩
      · exact .inr (.inl ⟨[], rfl, by simp, rfl⟩)
      · by_cases hclose : d = ']'
        · subst hclose
          exact .inl ⟨t, rfl, rfl⟩
        · exact .inr (.inl ⟨d :: t, rfl, by simp [hclose], by simp [bracketStart, hclose]⟩)
    · by_cases hclose : c = ']'
      · subst hclose
        exact .inr (.inr (.inl ⟨t, rfl, rfl⟩))
      · exact .inr (.inr (.inr ⟨by simp [hcaret], by simp [hclose], by simp [bracketStart, hcaret, hclose]⟩))

theorem takeBracket_eq_takeMembers (t : Text) :
    takeBracket t = takeMembers (t.drop (bracketStart t).length) >>= fun (members, rest) =>
      .ok ('[' :: ((bracketStart t).flatMap fun c => if c = ']' then ['\\', c] else [c]) ++ members ++ [']'],
        rest) := by
  rcases bracketStart_cases t with ⟨u, rfl, hs⟩ | ⟨u, rfl, hhead, hs⟩ | ⟨u, rfl, hs⟩ | ⟨hcaret, hclose, hs⟩
  · rw [hs]
    rfl
  · rw [hs]
    cases u with
    | nil => rfl
    | cons c u =>
      have hc : c ≠ ']' := fun hc => hhead (congrArg some hc)
      simp [takeBracket, hc]
  · rw [hs]
    rfl
  · rw [hs]
    cases t with
    | nil => rfl
    | cons c t =>
      have hc : c ≠ '^' ∧ c ≠ ']' := ⟨fun hc => hcaret (congrArg some hc), fun hc => hclose (congrArg some hc)⟩
      simp [takeBracket, hc]

/-- What stands first in a bracket expression is seen from the character behind it. -/
theorem bracketStart_same {s u v : Text} (hs : bracketStart (s ++ u) = s)
    (h : ∀ c ∈ ['^', ']'], v.head? = some c → u.head? = some c) : bracketStart (s ++ v) = s := by
  rcases bracketStart_cases (s ++ u) with ⟨w, hw, heq⟩ | ⟨w, hw, hhead, heq⟩ | ⟨w, hw, heq⟩ | ⟨hcaret, hclose, heq⟩
  · obtain rfl := hs.symm.trans heq
    rfl
  · obtain rfl := hs.symm.trans heq
    cases hw
    have hv : v.head? ≠ some ']' := fun hv => hhead (h _ (by decide) hv)
    cases v with
    | nil => rfl
    | cons d v =>
      have hd : d ≠ ']' := fun hd => hv (congrArg some hd)
      simp [bracketStart, hd]
  · obtain rfl := hs.symm.trans heq
    rfl
  · obtain rfl := hs.symm.trans heq
    cases v with
    | nil => rfl
    | cons d v =>
      have hd : d ≠ '^' ∧ d ≠ ']' :=
        ⟨fun hd => hcaret (h _ (by decide) (congrArg some hd)), fun hd => hclose (h _ (by decide) (congrArg some hd))⟩
      simp [bracketStart, hd]

/-- A bracket expression ends where the scanner ends it, and with its value in its place it ends there as well. -/
theorem bracket_of_takeBracket {t text rest : Text} (h : takeBracket t = .ok (text, rest)) :
    ∃ body value, t = body ++ ']' :: rest ∧ Bares body value ∧
      (∀ u, takeBracket (body ++ ']' :: u) = .ok (text, u)) ∧ (∀ u, takeBracket (value ++ ']' :: u) = .ok (text, u)) ∧
        ('\n' ∉ body → ∀ u, regexBody false ('[' :: (body ++ ']' :: u)) =
          ahead ('[' :: (value ++ [']'])) (body.length + 2) (regexBody false u)) := by
  rw [takeBracket_eq_takeMembers] at h
  obtain ⟨⟨members, rest'⟩, hmembers, heq⟩ := bind_eq_ok.1 h
  cases heq
  obtain ⟨body, value, hdrop, hinside⟩ := inside_of_takeMembers hmembers
  have ht : t = bracketStart t ++ (body ++ ']' :: rest) := by
    rw [← hdrop]
    exact (List.prefix_iff_eq_append.1 (Lexeme.bracketStart_prefixes t)).symm
  generalize hs : bracketStart t = s at ht ⊢
  subst ht
  have hbody (u : Text) : bracketStart (s ++ (body ++ ']' :: u)) = s := by
    refine bracketStart_same hs fun c _ hhead => ?_
    cases body with
    | nil => exact hhead
    | cons d body => exact hhead
  have hvalue (u : Text) : bracketStart (s ++ (value ++ ']' :: u)) = s := by
    refine bracketStart_same hs fun c hc hhead => hinside.bares.head?_append ?_ rest u hhead
    rintro rfl
    simp at hc
  refine ⟨s ++ body, s ++ value, by simp, hinside.bares.keeps s, fun u => ?_, fun u => ?_, fun hnewline u => ?_⟩
  · rw [takeBracket_eq_takeMembers, List.append_assoc, hbody, List.drop_left, hinside.same]
    rfl
  · rw [takeBracket_eq_takeMembers, List.append_assoc, hvalue, List.drop_left, hinside.reads]
    rfl
  · have hcount : s.length + 1 + (body.length + 1) = (s ++ body).length + 2 := by
      rw [List.length_append]
      omega
    rw [List.mem_append, not_or] at hnewline
    rw [List.append_assoc, Lexeme.regexBody_open, hbody, List.drop_left, hinside.scans hnewline.2, ahead_ahead, hcount]
    simp

end Ere

end Awk
