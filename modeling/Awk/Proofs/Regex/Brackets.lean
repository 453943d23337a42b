import Awk.Proofs.Regex.Grammar
import Awk.Proofs.Regex.Sets

/-!
# Bracket expressions as sets

A well formed bracket expression is read to its closing bracket (`Bracket.WellFormed.reads`), and the set that it
becomes is read as a test for the characters that it has (`Bracket.WellFormed.takeSet`, `Bracket.holds_test`).  A set
has a syntax of its own, so what is written in it is compared part by part.
-/

namespace Awk

namespace Ere

open Pattern (Part Spells)

theorem cutAt?_append {mark : Char} {before : Text} (h : mark ∉ before) (t : Text) :
    Text.cutAt? [mark, ']'] (before ++ mark :: ']' :: t) = some (before, t) := by
  induction before with
  | nil => simp [Text.cutAt?, Text.dropPrefix?]
  | cons c before ih =>
    rw [List.mem_cons, not_or] at h
    rw [List.cons_append, Text.cutAt?]
    simp [Text.dropPrefix?, Ne.symm h.1, ih h.2]

/-! ### Classes -/

namespace CharClass

/-- The members of the class, as they are written in a set. -/
def parts : CharClass → List Part
  | alpha => [.range ['a'] ['z'] 'a' 'z', .range ['A'] ['Z'] 'A' 'Z']
  | digit => [.range ['0'] ['9'] '0' '9']
  | alnum => [.range ['a'] ['z'] 'a' 'z', .range ['A'] ['Z'] 'A' 'Z', .range ['0'] ['9'] '0' '9']
  | upper => [.range ['A'] ['Z'] 'A' 'Z']
  | lower => [.range ['a'] ['z'] 'a' 'z']
  | space =>
    [.one [' '] ' ', .one ['\\', 't'] '\t', .one ['\\', 'n'] '\n', .one ['\\', 'r'] '\r', .one ['\\', 'f'] '\x0c',
      .one ['\\', 'v'] '\x0b']
  | blank => [.one [' '] ' ', .one ['\\', 't'] '\t']
  | punct =>
    [.range ['!'] ['/'] '!' '/', .range [':'] ['@'] ':' '@', .range ['\\', '['] ['`'] '[' '`',
      .range ['\x7b'] ['~'] '\x7b' '~']
  | print => [.range [' '] ['~'] ' ' '~']
  | graph => [.range ['!'] ['~'] '!' '~']
  | cntrl =>
    [.range ['\\', 'x', '0', '0'] ['\\', 'x', '1', 'f'] '\x00' '\x1f', .one ['\\', 'x', '7', 'f'] '\x7f']
  | xdigit => [.range ['0'] ['9'] '0' '9', .range ['A'] ['F'] 'A' 'F', .range ['a'] ['f'] 'a' 'f']

theorem classMembers?_name (k : CharClass) : classMembers? k.name.toList = some (k.parts.flatMap Part.text) := by
  cases k <;> decide

theorem notMem_name (k : CharClass) : ':' ∉ k.name.toList := by
  cases k <;> decide

theorem any_parts (k : CharClass) (c : Char) :
    (k.parts.map Part.meaning).any (·.holds c) = k.has c := by
  have hupper : c.isUpper = decide (c.val ≥ 'A'.val ∧ c.val ≤ 'Z'.val) := rfl
  have hlower : c.isLower = (c.val ≥ 'a'.val && c.val ≤ 'z'.val) := rfl
  have halpha : c.isAlpha = (c.isUpper || c.isLower) := rfl
  have hdigit : c.isDigit = (c.val ≥ '0'.val && c.val ≤ '9'.val) := rfl
  have halphanum : c.isAlphanum = (c.isAlpha || c.isDigit) := rfl
  rw [Bool.eq_iff_iff]
  cases k <;> simp [parts, Part.meaning, SetPart.holds, has, isGraph, halphanum, halpha, hupper, hlower, hdigit, Char.le_def,
    Char.lt_def, UInt32.le_iff_toNat_le, UInt32.lt_iff_toNat_lt, Char.ext_iff, ← UInt32.toNat_inj] <;> omega

theorem spells_hex {a b : Char} {m n : Nat} (ha : Pattern.hexValue? a = some m) (hb : Pattern.hexValue? b = some n) :
    Spells ['\\', 'x', a, b] (Char.ofNat (16 * m + n)) := by
  refine ⟨fun t => ?_, '\\', rfl, by decide⟩
  simp [Pattern.takeMember, ha, hb]

theorem allFit (k : CharClass) {t : Text} (ht : Part.NoRange t) : Part.AllFit t k.parts := by
  have hnul : Spells ['\\', 'x', '0', '0'] '\x00' := spells_hex (m := 0) (n := 0) rfl rfl
  have hunit : Spells ['\\', 'x', '1', 'f'] '\x1f' := spells_hex (m := 1) (n := 15) rfl rfl
  have hdelete : Spells ['\\', 'x', '7', 'f'] '\x7f' := spells_hex (m := 7) (n := 15) rfl rfl
  have hbracket : Spells ['\\', '['] '[' := .escaped (by decide) rfl
  have hblank : Spells ['\\', 't'] '\t' := .escaped (by decide) rfl
  have hspace : Spells ['\\', 'n'] '\n' ∧ Spells ['\\', 'r'] '\r' ∧ Spells ['\\', 'f'] '\x0c' ∧
      Spells ['\\', 'v'] '\x0b' :=
    ⟨.escaped (by decide) rfl, .escaped (by decide) rfl, .escaped (by decide) rfl, .escaped (by decide) rfl⟩
  cases k <;> simp [parts, Part.AllFit, Part.Fits, Part.text, Part.noRange_cons, Spells.plain, ht, hnul, hunit,
    hdelete, hbracket, hblank, hspace]

end CharClass

/-! ### Glyphs -/

/-- A letter or digit apart, a character behind a backslash is itself. -/
theorem takeEscape_eq {c : Char} (h : c.isAlphanum = false) (t : Text) : takeEscape c t = (c, t) := by
  have hall : ∀ pair ∈ escapes, pair.1.isAlphanum = true ∨ pair.1 = pair.2 := by decide
  have hoctal : isOctal c = false := by
    rw [Bool.eq_false_iff]
    intro hoctal
    simp only [isOctal, Bool.and_eq_true, decide_eq_true_eq, Char.le_def, UInt32.le_iff_toNat_le] at hoctal
    have hdigit : c.isDigit := by
      simp only [Char.isDigit, ge_iff_le, Bool.and_eq_true, decide_eq_true_eq, UInt32.le_iff_toNat_le]
      exact ⟨hoctal.1, Nat.le_trans hoctal.2 (by decide)⟩
    simp [Char.isAlphanum, hdigit] at h
  unfold takeEscape
  split
  · rename_i d hd
    obtain ⟨before, after, heq, -⟩ := List.lookup_eq_some_iff.1 hd
    rcases hall (c, d) (by simp [heq]) with hc | hc
    · rw [h] at hc
      cases hc
    · exact congrArg (·, t) hc.symm
  · rw [if_neg (by simp [hoctal])]

theorem takeMembers_plain {c : Char} {t more rest : Text} (hclose : c ≠ ']') (hescape : c ≠ '\\')
    (hopen : c ≠ '[') (h : takeMembers t = .ok (more, rest)) : takeMembers (c :: t) = .ok (c :: more, rest) := by
  unfold takeMembers
  split
  all_goals simp_all
  rfl

theorem takeMembers_escape {c : Char} {t more rest : Text} (hc : c.isAlphanum = false)
    (h : takeMembers t = .ok (more, rest)) : takeMembers ('\\' :: c :: t) = .ok (quote c ++ more, rest) := by
  rw [takeMembers, takeEscape_eq hc, h]
  rfl

theorem takeMembers_open {mark : Char} {t more rest : Text} (hmark : mark ∉ [':', '.', '='])
    (h : takeMembers (mark :: t) = .ok (more, rest)) :
    takeMembers ('[' :: mark :: t) = .ok ('\\' :: '[' :: more, rest) := by
  simp only [List.mem_cons, List.not_mem_nil, or_false, not_or] at hmark
  rw [takeMembers]
  · simp [hmark, h]
    rfl
  · rintro rfl
    simp at hmark

theorem takeMembers_named (k : CharClass) {t more rest : Text} (h : takeMembers t = .ok (more, rest)) :
    takeMembers ((Member.named k).text ++ t) = .ok (k.parts.flatMap Part.text ++ more, rest) := by
  have htext : (Member.named k).text ++ t = '[' :: ':' :: (k.name.toList ++ ':' :: ']' :: t) := by
    simp [Member.text]
  rw [htext, takeMembers]
  split
  · rename_i hcut
    rw [cutAt?_append k.notMem_name] at hcut
    cases hcut
  · rename_i hcut
    rw [cutAt?_append k.notMem_name] at hcut
    cases hcut
    rw [k.classMembers?_name]
    simp only [h]
    rfl

/-! ### Glyphs and members -/

namespace Glyph

variable {g : Glyph} {first : Bool}

/-- The glyph as it is written in a set. -/
def inSet (g : Glyph) : Text :=
  if g.escaped then quote g.char else if g.char = '[' ∨ g.char = ']' then ['\\', g.char] else [g.char]

theorem Fits.spells {t : Text} (h : g.Fits first t) : Spells g.inSet g.char := by
  have hletters : ∀ pair ∈ Pattern.namedParts, pair.1.isAlphanum = true := by decide
  have hlookup {c : Char} (hc : c.isAlphanum = false) : Pattern.escapedPart? c = some (.range c c) := by
    unfold Pattern.escapedPart?
    cases hfound : Pattern.namedParts.lookup c with
    | none => simp [hc]
    | some part =>
      obtain ⟨before, after, heq, -⟩ := List.lookup_eq_some_iff.1 hfound
      have halphanum := hletters (c, part) (by simp [heq])
      rw [hc] at halphanum
      cases halphanum
  unfold Fits at h
  unfold inSet
  split
  · rename_i hescaped
    rw [if_pos hescaped] at h
    unfold quote
    split
    · refine .escaped ?_ (hlookup h)
      intro hx
      rw [hx] at h
      cases h
    · rename_i hspecial
      refine .plain ?_ ?_
      · intro heq
        exact hspecial (heq ▸ by decide)
      · intro heq
        exact hspecial (heq ▸ by decide)
  · rename_i hescaped
    rw [if_neg hescaped] at h
    split
    · rename_i hbracket
      rcases hbracket with hbracket | hbracket
      · rw [hbracket]
        exact .escaped (by decide) rfl
      · rw [hbracket]
        exact .escaped (by decide) rfl
    · rename_i hbracket
      exact .plain h.1 fun heq => hbracket (.inr heq)

theorem Fits.reads {t more rest : Text} (h : g.Fits false t) (ht : takeMembers t = .ok (more, rest)) :
    takeMembers (g.text ++ t) = .ok (g.inSet ++ more, rest) := by
  unfold Fits at h
  unfold text inSet
  split
  · rename_i hescaped
    rw [if_pos hescaped] at h
    exact takeMembers_escape h ht
  · rename_i hescaped
    rw [if_neg hescaped] at h
    obtain ⟨hescape, hclose, hopen⟩ := h
    have hclose : g.char ≠ ']' := fun heq => Bool.false_ne_true (hclose heq)
    by_cases hbracket : g.char = '['
    · rw [if_pos (.inl hbracket), hbracket]
      cases t with
      | nil =>
        unfold takeMembers at ht
        cases ht
      | cons mark t => exact takeMembers_open (hopen hbracket mark rfl) ht
    · rw [if_neg (by simp [hbracket, hclose])]
      exact takeMembers_plain hclose hescape hbracket ht

theorem Fits.congr {t t' : Text} (h : g.Fits first t) (ht : t'.head? = t.head?) : g.Fits first t' := by
  unfold Fits
  rw [ht]
  exact h

/-- In first place only a closing bracket is special. -/
theorem Fits.of_first {t : Text} (h : g.Fits true t) (hclose : g.text.head? ≠ some ']') : g.Fits false t := by
  unfold Fits at h ⊢
  split
  · rename_i hescaped
    rwa [if_pos hescaped] at h
  · rename_i hescaped
    rw [if_neg hescaped] at h
    refine ⟨h.1, fun heq => ?_, h.2.2⟩
    simp [text, hescaped, heq] at hclose

theorem eq_of_head? {c : Char} (hc : c ≠ '\\') (h : g.text.head? = some c) : g = ⟨c, false⟩ := by
  obtain ⟨d, escaped⟩ := g
  cases escaped with
  | true =>
    cases h
    exact absurd rfl hc
  | false =>
    cases h
    rfl

/-- What begins with a character that is special there is that character itself. -/
theorem eq_of_head?_inSet {c : Char} (hc : c ≠ '\\') (hspecial : isSpecial c) (h : g.inSet.head? = some c) :
    g = ⟨c, false⟩ := by
  obtain ⟨d, escaped⟩ := g
  unfold inSet quote at h
  split at h
  · split at h
    · cases h
      exact absurd rfl hc
    · rename_i hplain
      obtain rfl : d = c := Option.some.inj h
      exact absurd hspecial hplain
  · rename_i hescaped
    split at h
    · cases h
      exact absurd rfl hc
    · cases h
      rw [Bool.not_eq_true] at hescaped
      exact congrArg (Glyph.mk d) hescaped

theorem isSome_head?_inSet (g : Glyph) : g.inSet.head?.isSome := by
  unfold inSet quote
  split
  · split
    · rfl
    · rfl
  · split
    · rfl
    · rfl

end Glyph

namespace Member

/-- The member as it is written in a set. -/
def parts : Member → List Part
  | char g => [.one g.inSet g.char]
  | range lo hi => [.range lo.inSet hi.inSet lo.char hi.char]
  | named k => k.parts

variable {m : Member} {t t' more rest : Text}

theorem GlyphsFit.reads (h : m.GlyphsFit false t) (hhead : t'.head? = t.head?)
    (ht : takeMembers t' = .ok (more, rest)) :
    takeMembers (m.text ++ t') = .ok (m.parts.flatMap Part.text ++ more, rest) := by
  cases m with
  | char g => simpa [text, parts, Part.text] using (Glyph.Fits.congr h hhead).reads ht
  | range lo hi =>
    obtain ⟨hlo, hhi⟩ := h
    have hend : takeMembers ('-' :: (hi.text ++ t')) = .ok ('-' :: (hi.inSet ++ more), rest) :=
      takeMembers_plain (by decide) (by decide) (by decide) ((hhi.congr hhead).reads ht)
    have hlo : lo.Fits false ('-' :: (hi.text ++ t')) := hlo.congr rfl
    simpa [text, parts, Part.text] using hlo.reads hend
  | named k => exact takeMembers_named k ht

theorem isSome_head?_text (m : Member) : m.text.head?.isSome := by
  cases m with
  | char g =>
    obtain ⟨c, escaped⟩ := g
    cases escaped with
    | true => rfl
    | false => rfl
  | range lo hi => simp [text]
  | named k => rfl

theorem head?_range (lo hi : Glyph) : (range lo hi).text.head? = lo.text.head? := by
  obtain ⟨c, escaped⟩ := lo
  cases escaped with
  | true => rfl
  | false => rfl

/-- In first place a closing bracket is cut off before the members are read. -/
theorem GlyphsFit.reads_first (h : m.GlyphsFit true t) (hhead : t'.head? = t.head?)
    (ht : takeMembers t' = .ok (more, rest)) :
    (m.text.head? ≠ some ']' ∧ takeMembers (m.text ++ t') = .ok (m.parts.flatMap Part.text ++ more, rest)) ∨
      ∃ w more', m.text = ']' :: w ∧ takeMembers (w ++ t') = .ok (more', rest) ∧
        m.parts.flatMap Part.text ++ more = '\\' :: ']' :: more' := by
  by_cases hclose : m.text.head? = some ']'
  · right
    cases m with
    | char g =>
      obtain rfl := Glyph.eq_of_head? (by decide) hclose
      exact ⟨[], more, rfl, ht, rfl⟩
    | range lo hi =>
      rw [head?_range] at hclose
      obtain rfl := Glyph.eq_of_head? (by decide) hclose
      have hend : takeMembers ('-' :: (hi.text ++ t')) = .ok ('-' :: (hi.inSet ++ more), rest) :=
        takeMembers_plain (by decide) (by decide) (by decide) ((h.2.congr hhead).reads ht)
      refine ⟨'-' :: hi.text, _, rfl, hend, ?_⟩
      simp [parts, Part.text, Glyph.inSet]
    | named k => cases hclose
  · left
    refine ⟨hclose, GlyphsFit.reads ?_ hhead ht⟩
    cases m with
    | char g => exact Glyph.Fits.of_first h hclose
    | range lo hi => exact ⟨h.1.of_first (head?_range lo hi ▸ hclose), h.2⟩
    | named k => trivial

end Member

/-! ### Whole bracket expressions -/

def partsOf (members : List Member) : List Part := members.flatMap Member.parts

theorem head?_membersText (members : List Member) (rest : Text) :
    (membersText members ++ rest).head? = (membersText members).head? := by
  rw [List.head?_append, Option.or_of_isSome]
  simp [membersText]

theorem eq_nil_of_membersText {members : List Member} (h : membersText members = [']']) : members = [] := by
  cases members with
  | nil => rfl
  | cons m members =>
    have hlength := congrArg List.length h
    have hpos := List.length_pos_iff.2 (List.isSome_head?.1 m.isSome_head?_text)
    simp only [membersText, List.flatMap_cons, List.length_append, List.length_singleton] at hlength
    omega

theorem MembersFit.reads {members : List Member} (h : MembersFit false members) (rest : Text) :
    takeMembers (membersText members ++ rest) = .ok ((partsOf members).flatMap Part.text, rest) := by
  induction members with
  | nil =>
    rw [membersText, List.flatMap_nil, List.nil_append, List.singleton_append, takeMembers]
    rfl
  | cons m members ih =>
    have hreads := h.1.1.reads (head?_membersText members rest) (ih h.2)
    simpa [membersText, partsOf] using hreads

/-- A hyphen or a caret stands first in the set only if it is written first. -/
theorem head?_parts (m : Member) (t : Text) {c : Char} (hc : c ∈ ['-', '^'])
    (h : (m.parts.flatMap Part.text ++ t).head? = some c) : m.text.head? = some c := by
  have hescape : c ≠ '\\' ∧ isSpecial c = true := by
    simp only [List.mem_cons, List.not_mem_nil, or_false] at hc
    rcases hc with rfl | rfl
    · exact ⟨by decide, rfl⟩
    · exact ⟨by decide, rfl⟩
  cases m with
  | char g =>
    have hg : g.inSet.head? = some c := by
      simpa [Member.parts, Part.text, List.head?_append, Option.or_of_isSome g.isSome_head?_inSet] using h
    rw [g.eq_of_head?_inSet hescape.1 hescape.2 hg]
    rfl
  | range lo hi =>
    have hlo : lo.inSet.head? = some c := by
      simpa [Member.parts, Part.text, List.head?_append, Option.or_of_isSome lo.isSome_head?_inSet] using h
    rw [Member.head?_range, lo.eq_of_head?_inSet hescape.1 hescape.2 hlo]
    rfl
  | named k =>
    cases k <;> (cases h; simp at hc)

theorem MembersFit.noRange {members : List Member} (h : MembersFit false members) (rest : Text) :
    Part.NoRange ((partsOf members).flatMap Part.text ++ ']' :: rest) := by
  intro t ht
  cases members with
  | nil => cases ht
  | cons m members =>
    have hparts : (partsOf (m :: members)).flatMap Part.text ++ ']' :: rest =
        m.parts.flatMap Part.text ++ ((partsOf members).flatMap Part.text ++ ']' :: rest) := by
      simp [partsOf]
    have hhead : m.text.head? = some '-' := by
      refine head?_parts m ((partsOf members).flatMap Part.text ++ ']' :: rest) (by decide) ?_
      rw [← hparts, ht]
      rfl
    cases m with
    | char g =>
      obtain rfl := Glyph.eq_of_head? (by decide) hhead
      -- Not in first place, the hyphen is the last member.
      rcases h.1.2 rfl with hfirst | hlast
      · cases hfirst
      · obtain rfl : members = [] := eq_nil_of_membersText hlast
        cases ht
        rfl
    | range lo hi =>
      rw [Member.head?_range] at hhead
      obtain rfl := Glyph.eq_of_head? (by decide) hhead
      cases h.1.2.1 rfl
    | named k => cases hhead

theorem MembersFit.allFit {members : List Member} {first : Bool} (h : MembersFit first members) (rest : Text) :
    Part.AllFit (']' :: rest) (partsOf members) := by
  induction members generalizing first with
  | nil => trivial
  | cons m members ih =>
    have hnoRange := h.2.noRange rest
    refine Part.allFit_append.2 ⟨?_, ih h.2⟩
    cases m with
    | char g => exact ⟨⟨Glyph.Fits.spells h.1.1, hnoRange⟩, trivial⟩
    | range lo hi => exact ⟨⟨h.1.1.1.spells, h.1.1.2.spells, h.1.2.2⟩, trivial⟩
    | named k => exact k.allFit hnoRange

theorem any_partsOf (members : List Member) (c : Char) :
    ((partsOf members).map Part.meaning).any (·.holds c) = members.any (·.has c) := by
  induction members with
  | nil => rfl
  | cons m members ih =>
    have hm : (m.parts.map Part.meaning).any (·.holds c) = m.has c := by
      cases m with
      | char g =>
        rw [Bool.eq_iff_iff]
        simp only [Member.parts, List.map_cons, List.map_nil, Part.meaning, SetPart.holds, List.any_cons, List.any_nil,
          Bool.or_false, Bool.and_eq_true, decide_eq_true_eq, Member.has, beq_iff_eq]
        exact ⟨fun h => Char.le_antisymm h.2 h.1, fun h => h ▸ ⟨Char.le_refl c, Char.le_refl c⟩⟩
      | range lo hi => simp [Member.parts, Part.meaning, SetPart.holds, Member.has]
      | named k => exact k.any_parts c
    rw [partsOf, List.flatMap_cons, List.map_append, List.any_append, hm, List.any_cons]
    exact congrArg (m.has c || ·) ih

namespace Bracket

/-- The text of the set that the bracket expression becomes, behind its opening bracket. -/
def inSet (b : Bracket) : Text :=
  (if b.negated then ['^'] else []) ++ (partsOf b.members).flatMap Part.text ++ [']']

theorem takeBracket_eq {negated : Bool} {t t' more rest first : Text} (hnegated : negated = false → t.head? ≠ some '^')
    (hfirst : t.head? ≠ some ']' ∧ t = t' ∧ first = [] ∨ t = ']' :: t' ∧ first = ['\\', ']'])
    (h : takeMembers t' = .ok (more, rest)) :
    takeBracket ((if negated then ['^'] else []) ++ t) =
      .ok ('[' :: (if negated then ['^'] else []) ++ first ++ more ++ [']'], rest) := by
  rcases hfirst with ⟨hclose, rfl, rfl⟩ | ⟨rfl, rfl⟩
  · cases t with
    | nil =>
      unfold takeMembers at h
      cases h
    | cons c t =>
      have hclose : c ≠ ']' := fun heq => hclose (congrArg some heq)
      have hnegated (hfalse : negated = false) : c ≠ '^' := fun heq => hnegated hfalse (congrArg some heq)
      cases negated with
      | true =>
        simp [takeBracket, hclose, h]
        rfl
      | false =>
        simp [takeBracket, hclose, hnegated, h]
        rfl
  · cases negated with
    | true =>
      simp [takeBracket, h]
      rfl
    | false =>
      simp [takeBracket, h]
      rfl

theorem WellFormed.reads {b : Bracket} (h : b.WellFormed) (rest : Text) :
    takeBracket (b.text ++ rest) = .ok ('[' :: b.inSet, rest) := by
  obtain ⟨negated, members⟩ := b
  obtain ⟨hfit, hnegated⟩ := h
  cases members with
  | nil => cases hfit
  | cons m members =>
    have htext : membersText (m :: members) ++ rest = m.text ++ (membersText members ++ rest) := by
      simp [membersText]
    have hhead := head?_membersText (m :: members) rest
    have hcaret (hfalse : negated = false) : (membersText (m :: members) ++ rest).head? ≠ some '^' :=
      hhead ▸ hnegated hfalse
    have hmember := hfit.1.1.reads_first (head?_membersText members rest) (hfit.2.reads rest)
    rw [text, List.append_assoc, inSet]
    rcases hmember with ⟨hclose, hreads⟩ | ⟨w, more, hw, hreads, hmore⟩
    · have hhead' : (membersText (m :: members) ++ rest).head? ≠ some ']' := by
        rw [htext, List.head?_append, Option.or_of_isSome m.isSome_head?_text]
        exact hclose
      rw [htext] at hhead' hcaret ⊢
      rw [takeBracket_eq hcaret (.inl ⟨hhead', rfl, rfl⟩) hreads]
      simp [partsOf]
    · rw [hw] at htext
      rw [takeBracket_eq hcaret (.inr ⟨htext, rfl⟩) hreads, partsOf, List.flatMap_cons, List.flatMap_append]
      rw [partsOf] at hmore
      simp [hmore]

def test (b : Bracket) : CharTest := .set b.negated ((partsOf b.members).map Part.meaning)

theorem holds_test (b : Bracket) (c : Char) : b.test.holds c = b.has c := by
  rw [test, CharTest.holds, any_partsOf]
  rfl

/-- The set is read as the characters that the bracket expression has. -/
theorem WellFormed.takeSet {b : Bracket} (h : b.WellFormed) (rest : Text) :
    Pattern.takeSet (b.inSet ++ rest) = some (b.test, rest) := by
  obtain ⟨negated, members⟩ := b
  obtain ⟨hfit, hnegated⟩ := h
  cases members with
  | nil => cases hfit
  | cons m members =>
    have hparts : partsOf (m :: members) ≠ [] := by
      rw [partsOf, List.flatMap_cons]
      cases m with
      | char g => exact List.cons_ne_nil _ _
      | range lo hi => exact List.cons_ne_nil _ _
      | named k => cases k <;> exact List.cons_ne_nil _ _
    have hranges : Pattern.takeParts true ((partsOf (m :: members)).flatMap Part.text ++ ']' :: rest) =
        some ((partsOf (m :: members)).map Part.meaning, rest) :=
      Pattern.takeParts_texts (hfit.allFit rest) fun hnil => (hparts hnil).elim
    have hset : inSet ⟨negated, m :: members⟩ ++ rest =
        (if negated then ['^'] else []) ++ ((partsOf (m :: members)).flatMap Part.text ++ ']' :: rest) := by
      simp [inSet]
    rw [hset]
    cases negated with
    | true =>
      simp only [if_true, List.singleton_append, Pattern.takeSet, hranges]
      rfl
    | false =>
      simp only [Bool.false_eq_true, if_false, List.nil_append]
      unfold Pattern.takeSet
      split
      · rename_i t heq
        have hcaret : m.text.head? = some '^' := by
          refine head?_parts m ((partsOf members).flatMap Part.text ++ ']' :: rest) (by decide) ?_
          rw [partsOf, List.flatMap_cons, List.flatMap_append, List.append_assoc] at heq
          exact congrArg List.head? heq
        refine absurd ?_ (hnegated rfl)
        rw [membersText, List.flatMap_cons, List.append_assoc, List.head?_append,
          Option.or_of_isSome m.isSome_head?_text]
        exact hcaret
      · rw [hranges]
        rfl

end Bracket

end Ere

end Awk
