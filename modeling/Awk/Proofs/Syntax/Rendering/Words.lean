import Awk.Proofs.Syntax.Grammar.Expr
import Awk.Proofs.Syntax.Rendering.Regex

/-!
# Words laid out in a text

A word is a lexeme written out.  Words are laid out in a text when nothing but blanks stands before, between and behind
them (`Laid`).  From a cursor in front of them the scanner finds them one after the other (`Laid.token`, `Laid.regex`).
-/

namespace Awk

/-- The text of a token and how it is written. -/
structure Word where
  kind : TokenKind
  value : Text
  spelling : Text
  deriving DecidableEq

namespace Word

/-- A word that is written as its text. -/
def plain (kind : TokenKind) (t : Text) : Word := ⟨kind, t, t⟩

/-- A string literal. -/
def quoted (body : Text) : Word := ⟨.string, body, '"' :: body ++ ['"']⟩

/-- A regular expression between slashes, and its text when slashes have lost their backslashes. -/
def slashed (body value : Text) : Word := ⟨.ere, value, '/' :: body ++ ['/']⟩

/-- A word is a lexeme on its own.  If it is a regular expression, then what follows it in the text may not close a
class that is left open in it. -/
inductive Scans : Word → Text → Prop
  | token {w rest} (hscan : Lexeme.scan w.spelling = .ok ⟨w.kind, w.value, w.spelling.length⟩)
    (hnonempty : w.spelling ≠ []) : Scans w rest
  | regex {body value rest} (hbody : Lexeme.regexBody false (body ++ ['/']) = some (value, body.length))
    (hopen : ∀ mark ∈ Lexeme.openMarks false body, Text.find? [mark, ']'] rest = none) :
    Scans (slashed body value) rest

theorem Scans.spelling_ne_nil {w : Word} {rest : Text} (h : w.Scans rest) : w.spelling ≠ [] := by
  cases h with
  | token hscan hnonempty => exact hnonempty
  | regex hbody hopen => exact List.cons_ne_nil _ _

end Word

/-- Words with blanks around them. -/
inductive Laid : List Word → Text → Prop
  | nil {blanks} (hblanks : ∀ c ∈ blanks, Lexeme.isBlank c = true) : Laid [] blanks
  | cons {blanks w words rest} (hblanks : ∀ c ∈ blanks, Lexeme.isBlank c = true) (hscans : w.Scans rest)
    (hapart : Apart rest) (hrest : Laid words rest) : Laid (w :: words) (blanks ++ w.spelling ++ rest)

/-! ### What the scanner finds -/

variable {w : Word} {words : List Word} {cursor : Cursor}

theorem skipBlanks_rest {blanks t : Text} (hrest : cursor.rest = blanks ++ t)
    (hblanks : ∀ c ∈ blanks, Lexeme.isBlank c = true) (ht : Lexeme.blankLength false t = 0) :
    cursor.skipBlanks.rest = t := by
  unfold Cursor.skipBlanks
  rw [Cursor.advance_rest, hrest, Lexeme.blankLength_append hblanks ht, List.drop_left]

/-- What a cursor in front of a lexeme takes. -/
theorem take_ok {scan : Text → Except SyntaxFault Lexeme} {lexeme : Lexeme} (hscan : scan cursor.rest = .ok lexeme) :
    ∃ span behind, cursor.take scan = .ok (⟨lexeme.kind, lexeme.value, span⟩, behind) ∧
      behind.rest = cursor.rest.drop lexeme.length := by
  unfold Cursor.take
  rw [hscan]
  exact ⟨_, _, rfl, Cursor.advance_rest _ _⟩

theorem Laid.eof (h : Laid [] cursor.rest) :
    ∃ span behind, cursor.token = .ok (⟨.eof, [], span⟩, behind) ∧ Laid [] behind.rest := by
  generalize hrest : cursor.rest = t at h
  cases h with
  | nil hblanks =>
    have hskip : cursor.skipBlanks.rest = [] := skipBlanks_rest (by rw [hrest, List.append_nil]) hblanks rfl
    have hscan : Lexeme.scan cursor.skipBlanks.rest = .ok ⟨.eof, [], 0⟩ := by rw [hskip, Lexeme.scan]
    obtain ⟨span, behind, htake, hbehind⟩ := take_ok hscan
    refine ⟨span, behind, htake, ?_⟩
    rw [hbehind, hskip]
    exact .nil (List.forall_mem_nil _)

theorem Laid.token (h : Laid (w :: words) cursor.rest) (hw : w.kind ≠ .ere) :
    ∃ span behind, cursor.token = .ok (⟨w.kind, w.value, span⟩, behind) ∧ Laid words behind.rest := by
  generalize hrest : cursor.rest = t at h
  cases h with
  | cons hblanks hscans hapart hlaid =>
    cases hscans with
    | regex hbody hopen => exact absurd rfl hw
    | token hscan hnonempty =>
      have hscan := Lexeme.scan_whole hapart.breaks hnonempty hscan
      rw [List.append_assoc] at hrest
      have hskip := skipBlanks_rest hrest hblanks (Lexeme.blankLength_of_scan hscan)
      rw [← hskip] at hscan
      obtain ⟨span, behind, htake, hbehind⟩ := take_ok hscan
      refine ⟨span, behind, htake, ?_⟩
      rw [hbehind, hskip, List.drop_left]
      exact hlaid

/-- Where a regular expression stands a slash is found, unless it is a regular expression that is asked for. -/
theorem Laid.regex {body value : Text} (h : Laid (.slashed body value :: words) cursor.rest) :
    (∃ token behind, cursor.token = .ok (token, behind) ∧ (token.kind = .slash ∨ token.kind = .divAssign)) ∧
      ∃ span behind, cursor.regex = .ok (⟨.ere, value, span⟩, behind) ∧ Laid words behind.rest := by
  generalize hrest : cursor.rest = t at h
  generalize hword : Word.slashed body value = w at h
  cases h with
  | cons hblanks hscans hapart hlaid =>
    rename_i blanks rest
    cases hscans with
    | token hscan hnonempty =>
      subst hword
      obtain ⟨lexeme, hslash, hkind⟩ := Lexeme.scan_slash (body ++ ['/'])
      have hlexeme := hslash.symm.trans hscan
      cases hlexeme
      rcases hkind with hkind | hkind <;> cases hkind
    | regex hbody hopen =>
      simp only [Word.slashed, Word.mk.injEq, true_and] at hword
      obtain ⟨rfl, hspelling⟩ := hword
      obtain rfl := List.append_cancel_right (List.cons.inj hspelling).2
      obtain ⟨lexeme, hslash, hkind⟩ := Lexeme.scan_slash (body ++ '/' :: rest)
      have hword : cursor.rest = blanks ++ '/' :: (body ++ '/' :: rest) := by simp [hrest, Word.slashed]
      have hskip := skipBlanks_rest hword hblanks (Lexeme.blankLength_of_scan hslash)
      constructor
      · rw [← hskip] at hslash
        obtain ⟨span, behind, htake, -⟩ := take_ok hslash
        exact ⟨_, behind, htake, hkind⟩
      · have hscan : Lexeme.scanRegex cursor.skipBlanks.rest = .ok ⟨.ere, value, body.length + 2⟩ := by
          unfold Lexeme.scanRegex
          rw [hskip, List.tail_cons, Lexeme.regexBody_append hbody hopen]
        obtain ⟨span, behind, htake, hbehind⟩ := take_ok hscan
        refine ⟨span, behind, htake, ?_⟩
        have hbehind' : behind.rest = rest := by simp [hbehind, hskip]
        rw [hbehind']
        exact hlaid

theorem Lexeme.nameKind_ne_ere (name rest : Text) : Lexeme.nameKind name rest ≠ .ere := by
  have hkeywords : ∀ entry ∈ keywords, entry.2 ≠ .ere := by decide
  unfold Lexeme.nameKind
  split
  · rename_i kind hkeyword
    obtain ⟨entry, hentry, rfl⟩ := Option.map_eq_some_iff.1 hkeyword
    exact hkeywords entry (List.mem_of_find?_eq_some hentry)
  · split
    · exact TokenKind.noConfusion
    · split <;> exact TokenKind.noConfusion

/-- A regular expression is found only where one is asked for. -/
theorem Lexeme.kind_ne_ere {t : Text} {lexeme : Lexeme} (h : Lexeme.scan t = .ok lexeme) : lexeme.kind ≠ .ere := by
  have hoperators : ∀ entry ∈ operators, entry.2 ≠ .ere := by decide
  unfold Lexeme.scan at h
  split at h
  · cases h
    exact TokenKind.noConfusion
  split at h
  · cases h
    exact TokenKind.noConfusion
  split at h
  · split at h
    · cases h
      exact TokenKind.noConfusion
    · cases h
  split at h
  · cases h
    exact TokenKind.noConfusion
  split at h
  · cases h
    exact Lexeme.nameKind_ne_ere _ _
  split at h
  · rename_i op kind hfound
    cases h
    exact hoperators _ (List.mem_of_find?_eq_some hfound)
  · cases h

theorem Laid.exists_slashed {t : Text} (h : Laid (w :: words) t) (hw : w.kind = .ere) :
    ∃ body value, w = .slashed body value := by
  cases h with
  | cons hblanks hscans hapart hrest =>
    cases hscans with
    | token hscan hnonempty => exact absurd hw (Lexeme.kind_ne_ere hscan)
    | regex hbody hopen => exact ⟨_, _, rfl⟩

/-- Some token can be read wherever words are laid out. -/
theorem Laid.exists_token (h : Laid words cursor.rest) : ∃ token behind, cursor.token = .ok (token, behind) := by
  cases words with
  | nil =>
    obtain ⟨span, behind, htoken, -⟩ := h.eof
    exact ⟨_, behind, htoken⟩
  | cons w words =>
    by_cases hw : w.kind = .ere
    · obtain ⟨body, value, rfl⟩ := h.exists_slashed hw
      obtain ⟨⟨token, behind, htoken, -⟩, -⟩ := h.regex
      exact ⟨token, behind, htoken⟩
    · obtain ⟨span, behind, htoken, -⟩ := h.token hw
      exact ⟨_, behind, htoken⟩

/-! ### The parser in front of words -/

/-- The parser has come to where words are laid out up to the end of the text, and has met no call. -/
structure At (s : ParserState) (words : List Word) : Prop where
  fed : Parser.Fed s
  laid : Laid words s.position.rest
  calls : s.calls = []

/-- The kind of the token with which words begin. -/
def next : List Word → TokenKind
  | [] => .eof
  | w :: _ => w.kind

namespace At

variable {s : ParserState}

theorem takes (h : At s (w :: words)) (hw : w.kind ≠ .ere) :
    s.current.kind = w.kind ∧ s.current.text = w.value ∧ ∃ s', Parser.Takes s s' ∧ At s' words := by
  obtain ⟨span, behind, htoken, hlaid⟩ := h.laid.token hw
  have hfed := h.fed
  rw [Parser.Fed, htoken] at hfed
  obtain ⟨hcurrent, hbehind⟩ := Prod.mk.inj (Except.ok.inj hfed)
  rw [← hcurrent]
  rw [hbehind] at hlaid
  obtain ⟨token, behind', hnext⟩ := hlaid.exists_token
  exact ⟨rfl, rfl, _, Parser.takes_iff.2 ⟨token, behind', hnext, rfl⟩, hnext, hlaid, h.calls⟩

theorem takesRegex {body value : Text} (h : At s (.slashed body value :: words)) :
    (s.current.kind = .slash ∨ s.current.kind = .divAssign) ∧
      ∃ span s', Parser.TakesRegex s ⟨.ere, value, span⟩ s' ∧ At s' words := by
  obtain ⟨⟨slash, after, hslash, hkind⟩, span, behind, hregex, hlaid⟩ := h.laid.regex
  have hfed := h.fed
  rw [Parser.Fed, hslash] at hfed
  obtain ⟨hcurrent, -⟩ := Prod.mk.inj (Except.ok.inj hfed)
  rw [← hcurrent]
  obtain ⟨token, behind', hnext⟩ := hlaid.exists_token
  exact ⟨hkind, span, _, Parser.takesRegex_iff.2 ⟨behind, token, behind', hregex, hnext, rfl⟩, hnext, hlaid, h.calls⟩

theorem kind_eq (h : At s words) (hnext : next words ≠ .ere) : s.current.kind = next words := by
  cases words with
  | nil =>
    obtain ⟨span, behind, htoken, -⟩ := h.laid.eof
    have hfed := h.fed
    rw [Parser.Fed, htoken] at hfed
    obtain ⟨hcurrent, -⟩ := Prod.mk.inj (Except.ok.inj hfed)
    rw [← hcurrent]
    rfl
  | cons w words => exact (h.takes hnext).1

end At

theorem exists_start {source : Text} (h : Laid words source) : ∃ s, Parser.start source = .ok s ∧ At s words := by
  have hlaid : Laid words (Cursor.ofText source).rest := h
  obtain ⟨token, behind, htoken⟩ := hlaid.exists_token
  refine ⟨⟨.ofText source, token, behind, none, [], []⟩, ?_, htoken, h, rfl⟩
  unfold Parser.start
  dsimp only
  rw [htoken]
  rfl

end Awk
