import Awk.Proofs.Syntax.Rendering.Words
import Awk.Proofs.Syntax.Spelling

/-!
# Where tokens stand

A token begins at or behind the cursor it is read from and ends at the cursor behind it, and every token but the end of
the text takes some text (`Cursor.token_extent`).  A regular expression begins where the token does that it is read in
the place of (`Cursor.regex_extent`).
-/

namespace Awk

theorem Lexeme.blankLength_le (comment : Bool) (t : Text) : blankLength comment t ≤ t.length := by
  fun_induction blankLength comment t <;> simp_all

namespace Cursor

variable {cursor behind : Cursor} {token : Token}

@[simp]
theorem advance_zero (cursor : Cursor) : cursor.advance 0 = cursor := rfl

theorem advance_add (m n : Nat) (cursor : Cursor) : cursor.advance (m + n) = (cursor.advance m).advance n := by
  induction m generalizing cursor with
  | zero => rw [Nat.zero_add, advance_zero]
  | succ m ih =>
    rw [Nat.succ_add, advance, advance]
    split
    · rename_i hrest
      cases n with
      | zero => rfl
      | succ n =>
        rw [advance]
        simp [hrest]
    · exact ih _

theorem advance_offset {n : Nat} (h : n ≤ cursor.rest.length) : (cursor.advance n).offset = cursor.offset + n := by
  induction n generalizing cursor with
  | zero => rfl
  | succ n ih =>
    rw [advance]
    split
    · rename_i hrest
      rw [hrest] at h
      cases h
    · rename_i c t hrest
      rw [hrest, List.length_cons, Nat.succ_le_succ_iff] at h
      split <;> rw [ih h] <;> simp only <;> omega

/-- What is taken at a cursor is a lexeme that stands there. -/
theorem take_iff {scan : Text → Except SyntaxFault Lexeme} :
    cursor.take scan = .ok (token, behind) ↔ ∃ lexeme, scan cursor.rest = .ok lexeme ∧
      token = ⟨lexeme.kind, lexeme.value, ⟨cursor.line, cursor.column, cursor.offset, cursor.offset + lexeme.length⟩⟩ ∧
        behind = cursor.advance lexeme.length := by
  unfold take
  cases hscan : scan cursor.rest with
  | error fault => simp
  | ok lexeme => simp [eq_comm]

theorem token_iff : cursor.token = .ok (token, behind) ↔ ∃ lexeme, Lexeme.scan cursor.skipBlanks.rest = .ok lexeme ∧
    token = ⟨lexeme.kind, lexeme.value, ⟨cursor.skipBlanks.line, cursor.skipBlanks.column, cursor.skipBlanks.offset,
      cursor.skipBlanks.offset + lexeme.length⟩⟩ ∧ behind = cursor.skipBlanks.advance lexeme.length :=
  take_iff

theorem regex_iff : cursor.regex = .ok (token, behind) ↔
    ∃ lexeme, Lexeme.scanRegex cursor.skipBlanks.rest = .ok lexeme ∧
      token = ⟨lexeme.kind, lexeme.value, ⟨cursor.skipBlanks.line, cursor.skipBlanks.column, cursor.skipBlanks.offset,
        cursor.skipBlanks.offset + lexeme.length⟩⟩ ∧ behind = cursor.skipBlanks.advance lexeme.length :=
  take_iff

theorem skipBlanks_offset (cursor : Cursor) :
    cursor.skipBlanks.offset = cursor.offset + Lexeme.blankLength false cursor.rest :=
  advance_offset (Lexeme.blankLength_le _ _)

theorem token_extent (h : cursor.token = .ok (token, behind)) :
    cursor.offset ≤ token.span.start ∧ token.span.start ≤ token.span.stop ∧ token.span.stop = behind.offset ∧
      (token.kind ≠ .eof → token.span.start < token.span.stop) := by
  obtain ⟨lexeme, hscan, rfl, rfl⟩ := token_iff.1 h
  obtain ⟨hle, hpos⟩ := Lexeme.length_of_scan hscan
  have hskip := skipBlanks_offset cursor
  exact ⟨by simp only; omega, Nat.le_add_right _ _, (advance_offset hle).symm,
    fun hend => Nat.lt_add_of_pos_right (hpos hend)⟩

end Cursor

/-- A regular expression covers its two slashes. -/
theorem Lexeme.length_of_scanRegex {t : Text} {lexeme : Lexeme} (h : scanRegex t = .ok lexeme) :
    2 ≤ lexeme.length ∧ (t ≠ [] → lexeme.length ≤ t.length) := by
  unfold scanRegex at h
  split at h
  · rename_i value length hbody
    cases h
    obtain ⟨body, rest, hrest, rfl, -, -⟩ := regexBody_eq hbody
    refine ⟨Nat.le_add_left _ _, fun hne => ?_⟩
    obtain ⟨c, t, rfl⟩ := List.exists_cons_of_ne_nil hne
    rw [List.tail_cons] at hrest
    simp [hrest]
  · cases h

/-- What a slash begins is at most two characters long as an operator. -/
theorem Lexeme.length_of_slash {t : Text} {lexeme : Lexeme} (h : scan t = .ok lexeme)
    (hkind : lexeme.kind = .slash ∨ lexeme.kind = .divAssign) : lexeme.length ≤ 2 := by
  have hslash : TokenKind.slash.spellings = [['/']] := by decide
  have hassign : TokenKind.divAssign.spellings = [['/', '=']] := by decide
  have hspells := spells_scan h
  rw [length_eq_of_scan h (by rcases hkind with hkind | hkind <;> rw [hkind] <;> decide)]
  rcases hkind with hkind | hkind
  · rw [hkind, TokenKind.Spells, hslash] at hspells
    rcases hspells with hspells | hspells
    · cases hspells
    · rw [List.mem_singleton.1 hspells]
      decide
  · rw [hkind, TokenKind.Spells, hassign] at hspells
    rcases hspells with hspells | hspells
    · cases hspells
    · rw [List.mem_singleton.1 hspells]
      decide

namespace Cursor

variable {cursor after behind : Cursor} {slash token : Token}

theorem regex_extent (hslash : cursor.token = .ok (slash, after))
    (hkind : slash.kind = .slash ∨ slash.kind = .divAssign) (h : cursor.regex = .ok (token, behind)) :
    token.span = { slash.span with stop := token.span.stop } ∧ slash.span.stop ≤ token.span.stop ∧
      token.span.stop = behind.offset := by
  obtain ⟨lexeme, hscan, rfl, rfl⟩ := token_iff.1 hslash
  obtain ⟨lexeme', hscan', rfl, rfl⟩ := regex_iff.1 h
  have hlong := Lexeme.length_of_slash hscan hkind
  obtain ⟨hpos, hle⟩ := Lexeme.length_of_scanRegex hscan'
  have hne : cursor.skipBlanks.rest ≠ [] := by
    intro hnil
    rw [hnil] at hscan
    cases hscan
    rcases hkind with hkind | hkind <;> cases hkind
  exact ⟨rfl, by simp only; omega, (advance_offset (hle hne)).symm⟩

end Cursor

end Awk
