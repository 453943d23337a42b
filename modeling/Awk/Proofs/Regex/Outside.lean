import Awk.Regex.Reading

/-!
# What stands outside of sets in pattern text

Pattern text is read with a state that says what is in a set and what is escaped (`Pattern.Spot`).  What matters of a
text outside of its sets is where it continues from there (`Pattern.outsideFrom`): a text is portable if none of these
places has a group, a reference or an assertion that EREs do not have (`Pattern.Portable`), and requantified if at one
of them a quantifier has a mark behind it that makes it lazy or possessive (`Pattern.Requantified`).
-/

namespace Awk

namespace Pattern

/-- Characters that have a meaning in pattern text, outside of sets or in them. -/
def signs : List Char := ['\\', '[', ']', '(', '$', '*', '+', '?', '\x7b', '\x7d']

theorem notMem_of_signs {c : Char} (h : c ∉ signs) {cs : List Char} (hcs : cs ⊆ signs) : c ∉ cs := fun hc => h (hcs hc)

/-- Where a character of a pattern text stands: outside of sets, behind a backslash, behind the bracket that opens a
set, behind that and its `^`, or among the members of a set, of which the first may be a closing bracket. -/
inductive Spot where
  | outside
  | escaped
  | opened
  | negated
  | inside
  | insideEscaped
  deriving DecidableEq, Repr

namespace Spot

/-- Where the character behind it stands. -/
def next (c : Char) : Spot → Spot
  | outside => if c = '\\' then escaped else if c = '[' then opened else outside
  | escaped => outside
  | opened => if c = '^' then negated else if c = '\\' then insideEscaped else inside
  | negated => if c = '\\' then insideEscaped else inside
  | inside => if c = '\\' then insideEscaped else if c = ']' then outside else inside
  | insideEscaped => inside

def after (spot : Spot) (t : Text) : Spot := t.foldl (fun spot c => spot.next c) spot

theorem after_append (spot : Spot) (s t : Text) : spot.after (s ++ t) = (spot.after s).after t := List.foldl_append

end Spot

/-- The ends of a text that begin outside of sets with a character that is not escaped. -/
def outsideFrom : Spot → Text → List Text
  | _, [] => []
  | spot, c :: t => (if spot = .outside then [c :: t] else []) ++ outsideFrom (spot.next c) t

theorem outsideFrom_append (spot : Spot) (s t : Text) :
    outsideFrom spot (s ++ t) = (outsideFrom spot s).map (· ++ t) ++ outsideFrom (spot.after s) t := by
  induction s generalizing spot with
  | nil => rfl
  | cons c s ih =>
    rw [List.cons_append, outsideFrom, outsideFrom, ih, List.map_append, ← List.append_assoc]
    congr 2
    split <;> rfl

theorem self_mem_outsideFrom (c : Char) (t : Text) : c :: t ∈ outsideFrom .outside (c :: t) := List.mem_cons_self

theorem ne_nil_of_mem_outsideFrom {spot : Spot} {t u : Text} (h : u ∈ outsideFrom spot t) : u ≠ [] := by
  induction t generalizing spot with
  | nil => cases h
  | cons c t ih =>
    rcases List.mem_append.1 h with h | h
    · split at h
      · rw [List.mem_singleton.1 h]
        exact List.cons_ne_nil c t
      · cases h
    · exact ih h

theorem suffix_of_mem_outsideFrom {spot : Spot} {t u : Text} (h : u ∈ outsideFrom spot t) : u <:+ t := by
  induction t generalizing spot with
  | nil => cases h
  | cons c t ih =>
    rcases List.mem_append.1 h with h | h
    · split at h
      · exact List.mem_singleton.1 h ▸ List.suffix_refl _
      · cases h
    · exact (ih h).trans (List.suffix_cons c t)

/-- A text without backslashes and brackets stays where it begins. -/
theorem scan_plain {t : Text} (h : ∀ c ∈ t, c ∉ ['\\', '[', ']']) :
    Spot.outside.after t = .outside ∧ Spot.inside.after t = .inside ∧ outsideFrom .inside t = [] := by
  induction t with
  | nil => exact ⟨rfl, rfl, rfl⟩
  | cons c t ih =>
    rw [List.forall_mem_cons] at h
    obtain ⟨hc, ht⟩ := h
    simp only [List.mem_cons, List.not_mem_nil, or_false, not_or] at hc
    simpa [Spot.after, outsideFrom, Spot.next, hc] using ih ht

/-- The text behind a quantifier. -/
def afterQuantifier : Text → Option Text
  | '*' :: t | '+' :: t | '?' :: t => some t
  | '\x7b' :: t => (takeBounds t).map fun bounds => bounds.2.2
  | _ => none

theorem afterQuantifier_eq_none {c : Char} (hc : c ∉ ['*', '+', '?', '\x7b']) (t : Text) :
    afterQuantifier (c :: t) = none := by
  simp only [List.mem_cons, List.not_mem_nil, or_false, not_or] at hc
  simp [afterQuantifier, hc]

/-- A text that is not read in a way that EREs do not have: a group opener captures nothing and asserts nothing, and an
escape is a character that is neither letter nor digit, a class, or the end. -/
structure Allowed (t : Text) : Prop where
  group : ∀ u, t = '(' :: u → ['?', ':'] <+: u
  escape : ∀ u, t = '\\' :: u → ∃ c, u.head? = some c ∧ (c.isAlphanum = false ∨ c ∈ "sSwWZ".toList)
  anchor : t.head? ≠ some '$'

/-- Outside of sets, and where they are not escaped, there are no groups, references and assertions that EREs do not
have. -/
def Portable (p : Text) : Prop := ∀ t ∈ outsideFrom .outside p, Allowed t

/-- Outside of sets there is a quantifier with a mark behind it that makes it lazy or possessive. -/
def Requantified (p : Text) : Prop :=
  ∃ t ∈ outsideFrom .outside p, ∃ u, afterQuantifier t = some u ∧ ∃ c ∈ ['?', '+'], u.head? = some c

theorem allowed_of_head {c : Char} {t : Text} (hc : c ∉ ['(', '\\', '$']) : Allowed (c :: t) := by
  simp only [List.mem_cons, List.not_mem_nil, or_false, not_or] at hc
  refine ⟨fun u hu => absurd (List.cons.inj hu).1 hc.1, fun u hu => absurd (List.cons.inj hu).1 hc.2.1, ?_⟩
  simpa using hc.2.2

theorem Allowed.append {t : Text} (h : Allowed t) (ht : t ≠ []) (more : Text) : Allowed (t ++ more) := by
  obtain ⟨c, t, rfl⟩ := List.exists_cons_of_ne_nil ht
  refine ⟨fun u hu => ?_, fun u hu => ?_, h.anchor⟩
  · obtain ⟨rfl, rfl⟩ := List.cons.inj hu
    exact (h.group t rfl).trans (List.prefix_append t more)
  · obtain ⟨rfl, rfl⟩ := List.cons.inj hu
    obtain ⟨c, hc, hkind⟩ := h.escape t rfl
    obtain ⟨v, rfl⟩ := List.head?_eq_some_iff.1 hc
    exact ⟨c, rfl, hkind⟩

/-! ### Sets -/

/-- Members of a set, none of which ends it. -/
def Members (t : Text) : Prop := Spot.inside.after t = .inside ∧ outsideFrom .inside t = []

instance (t : Text) : Decidable (Members t) := inferInstanceAs (Decidable (_ ∧ _))

namespace Members

variable {c : Char} {s t : Text}

theorem append (hs : Members s) (ht : Members t) : Members (s ++ t) := by
  refine ⟨by rw [Spot.after_append, hs.1, ht.1], ?_⟩
  rw [outsideFrom_append, hs.1, hs.2, ht.2]
  rfl

/-- A closing bracket in first place would end the set. -/
theorem head?_ne (h : Members t) : t.head? ≠ some ']' := by
  intro hhead
  obtain ⟨u, rfl⟩ := List.head?_eq_some_iff.1 hhead
  cases u with
  | nil => cases h.1
  | cons c u => cases h.2

theorem tail (hc : c ≠ '\\') (h : Members (c :: t)) : Members t := by
  have hclose : c ≠ ']' := fun hc => h.head?_ne (congrArg some hc)
  have hnext : Spot.inside.next c = .inside := by simp [Spot.next, hc, hclose]
  obtain ⟨hafter, hnone⟩ := h
  rw [Spot.after, List.foldl_cons, hnext] at hafter
  rw [outsideFrom, hnext] at hnone
  exact ⟨hafter, (List.append_eq_nil_iff.1 hnone).2⟩

/-- Behind its members a set is closed. -/
theorem closes (h : Members t) : Spot.inside.after (t ++ [']']) = .outside ∧ outsideFrom .inside (t ++ [']']) = [] := by
  refine ⟨by rw [Spot.after_append, h.1]; rfl, ?_⟩
  rw [outsideFrom_append, h.1, h.2]
  rfl

/-- So is a set that begins with a member. -/
theorem closes_first (h : Members (c :: t)) {spot : Spot} (hspot : spot ≠ .outside)
    (hnext : spot.next c = Spot.inside.next c) :
    spot.after (c :: t ++ [']']) = .outside ∧ outsideFrom spot (c :: t ++ [']']) = [] := by
  have hclosed := h.closes
  rw [List.cons_append, outsideFrom, Spot.after, List.foldl_cons] at hclosed ⊢
  rw [hnext, if_neg hspot]
  exact hclosed

/-- Without members a set is not closed by the bracket behind, which is its first member. -/
theorem scan_set (h : Members t) :
    Spot.outside.after ('[' :: (t ++ [']'])) = (if t = [] ∨ t = ['^'] then .inside else .outside) ∧
      outsideFrom .outside ('[' :: (t ++ [']'])) = ['[' :: (t ++ [']'])] := by
  have hopened : Spot.opened.after (t ++ [']']) = (if t = [] ∨ t = ['^'] then .inside else .outside) ∧
      outsideFrom .opened (t ++ [']']) = [] := by
    cases t with
    | nil => exact ⟨rfl, rfl⟩
    | cons c t =>
      have hclose : c ≠ ']' := fun hc => h.head?_ne (congrArg some hc)
      by_cases hc : c = '^'
      · subst hc
        have htail := h.tail (by decide)
        cases t with
        | nil => exact ⟨rfl, rfl⟩
        | cons d t =>
          have hclose : d ≠ ']' := fun hd => htail.head?_ne (congrArg some hd)
          have hclosed := htail.closes_first (show Spot.negated ≠ .outside by decide) (by simp [Spot.next, hclose])
          rw [if_neg (by simp)]
          exact hclosed
      · have hclosed := h.closes_first (show Spot.opened ≠ .outside by decide) (by simp [Spot.next, hc, hclose])
        rw [if_neg (by simp [hc])]
        exact hclosed
  exact ⟨hopened.1, congrArg (['[' :: (t ++ [']'])] ++ ·) hopened.2⟩

end Members

/-! ### Counts in braces -/

theorem takeWhile_closed (t u : Text) :
    (t ++ '\x7d' :: u).takeWhile Char.isDigit = t.takeWhile Char.isDigit ∧
      (t ++ '\x7d' :: u).dropWhile Char.isDigit = t.dropWhile Char.isDigit ++ '\x7d' :: u := by
  induction t with
  | nil => exact ⟨rfl, rfl⟩
  | cons c t ih =>
    by_cases hc : c.isDigit
    · simp [hc, ih]
    · simp [hc]

/-- A count in braces, if it is one, ends at the first closing brace. -/
theorem takeBounds_closed {t : Text} (h : '\x7d' ∉ t) :
    (∀ u, takeBounds (t ++ '\x7d' :: u) = none) ∨
      ∃ low high, ∀ u, takeBounds (t ++ '\x7d' :: u) = some (low, high, u) := by
  have hdigits (u : Text) := (takeWhile_closed t u).1
  have hafter (u : Text) := (takeWhile_closed t u).2
  unfold takeBounds
  simp only [hdigits, hafter]
  cases hrest : t.dropWhile Char.isDigit with
  | nil =>
    cases hlow : (t.takeWhile Char.isDigit).isEmpty with
    | true => exact .inl fun u => by simp
    | false => exact .inr ⟨_, _, fun u => by simp; exact ⟨rfl, rfl⟩⟩
  | cons c v =>
    have hsuffix : c :: v <:+ t := hrest ▸ List.dropWhile_suffix _
    have hc : c ≠ '\x7d' := fun hc => h (hsuffix.subset (hc ▸ List.mem_cons_self))
    by_cases hcomma : c = ','
    · subst hcomma
      have hdigits (u : Text) := (takeWhile_closed v u).1
      have hafter (u : Text) := (takeWhile_closed v u).2
      simp only [List.cons_append, hdigits, hafter]
      cases hrest' : v.dropWhile Char.isDigit with
      | nil => exact .inr ⟨_, _, fun u => rfl⟩
      | cons d w =>
        have hsuffix' : d :: w <:+ v := hrest' ▸ List.dropWhile_suffix _
        have hd : d ≠ '\x7d' := fun hd =>
          h (hsuffix.subset (List.mem_cons_of_mem _ (hsuffix'.subset (hd ▸ List.mem_cons_self))))
        exact .inl fun u => by simp [hd]
    · exact .inl fun u => by simp [hc, hcomma]

end Pattern

end Awk
