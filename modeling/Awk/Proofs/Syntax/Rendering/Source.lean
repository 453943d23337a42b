import Awk.Proofs.Syntax.Rendering.Accepted
import Awk.Syntax.Parser.Program

/-!
# Rendered expressions as sources

A text in which the words of an expression are laid out is accepted, as an expression of the same shape
(`parseExpr_of_renders`).
-/

namespace Awk

open Awk.Parser

variable {s s' : ParserState} {words : List Word} {e : Expr}

/-- Each word takes at least one character. -/
theorem Laid.length_le {text : Text} (h : Laid words text) : words.length ≤ text.length := by
  induction h with
  | nil => exact Nat.zero_le _
  | cons hblanks hscans hapart hrest ih =>
    have hspelling := List.length_pos_iff.2 hscans.spelling_ne_nil
    simp only [List.length_append, List.length_cons]
    omega

theorem checkCalls_none (hcalls : s.calls = []) : checkCalls.run s = .ok ((), s) := by
  simp only [checkCalls, bind_ok, get_ok]
  refine ⟨s, s, ⟨rfl, rfl⟩, ?_⟩
  rw [hcalls]
  exact ⟨⟨⟩, s, rfl, rfl⟩

theorem soleExpr_ok {fuel : Nat} (hread : Costs fuel (level · .assignment false) s e s') (hat : At s' []) :
    (soleExpr fuel).run s = .ok (e, s') := by
  have hkind : s'.current.kind = .eof := hat.kind_eq TokenKind.noConfusion
  have hline : s'.current.kind ≠ .newline := by rw [hkind]; exact TokenKind.noConfusion
  simp only [soleExpr, expr, bind_ok, kind_ok]
  refine ⟨e, s', hread fuel le_rfl, _, s', skipNewlines_none hline, _, _, ⟨rfl, rfl⟩, ?_⟩
  rw [if_neg (not_not_intro hkind)]
  exact bind_ok.2 ⟨_, s', checkCalls_none hat.calls, rfl⟩

/-- Rendered expressions are accepted and given back, where no regular expression leaves a class open that the text
behind it closes (`Word.Scans`). -/
theorem parseExpr_of_renders {text : Text} (h : Renders .whole e words) (hlaid : Laid words text) :
    ∃ e', parseExpr text = .ok e' ∧ e'.prune.map Expr.unplaced = e.prune.map Expr.unplaced := by
  obtain ⟨s, hstart, hat⟩ := exists_start hlaid
  rw [← List.append_nil words] at hat
  have hends : TokenKind.eof.Ends := by decide
  obtain ⟨e', s', hread, hat', hshape⟩ := h.accepted.restored hat hends
  have hlength := hlaid.length_le
  have hfuel : 32 * words.length + 60 ≤ fuelFor text := by
    unfold fuelFor
    omega
  refine ⟨e', ?_, hshape⟩
  refine Action.bind_eq_ok.2 ⟨s, hstart, Action.bind_eq_ok.2 ⟨(e', s'), ?_, rfl⟩⟩
  exact soleExpr_ok (hread.mono hfuel) hat'

/-! ### Blanks in front of each word -/

/-- The words with a blank in front of each. -/
def Word.spaced (words : List Word) : Text := words.flatMap fun w => ' ' :: w.spelling

theorem Laid.spaced (h : ∀ rest, ∀ w ∈ words, w.Scans rest) : Laid words (Word.spaced words) := by
  induction words with
  | nil => exact .nil (List.forall_mem_nil _)
  | cons w words ih =>
    have hapart : Apart (Word.spaced words) := by
      intro c hc
      cases words with
      | nil => cases hc
      | cons w' words =>
        cases hc
        decide
    have hrest := ih fun rest w hw => h rest w (List.mem_cons_of_mem _ hw)
    exact .cons (List.forall_mem_singleton.2 (by decide)) (h _ w List.mem_cons_self) hapart hrest

/-- Words are lexemes if they are tokens, but for a regular expression that is one. -/
theorem scans_of_tokens {body value rest : Text} (hregex : (Word.slashed body value).Scans rest)
    (hwords : ∀ w ∈ words, w = .slashed body value ∨
      (Lexeme.scan w.spelling = .ok ⟨w.kind, w.value, w.spelling.length⟩ ∧ w.spelling ≠ [])) :
    ∀ w ∈ words, w.Scans rest := by
  intro w hw
  rcases hwords w hw with rfl | ⟨hscan, hnonempty⟩
  · exact hregex
  · exact .token hscan hnonempty

/-- An assignment of what a command writes, a regular expression and an element, one after the other. -/
def gathering : Expr :=
  .assign .nowhere (.var ⟨.name, ['x'], .nowhere⟩) .set ⟨.assign, ['='], .nowhere⟩
    (.concat .nowhere
      [.getlineCommand .nowhere (.string ⟨.string, "cmd".toList, .nowhere⟩) none,
       .regex ⟨.ere, "a[/]/b".toList, .nowhere⟩,
       .lvalue (.index .nowhere ⟨.name, ['y'], .nowhere⟩
        [.number ⟨.number, ['1'], .nowhere⟩, .lvalue (.field .nowhere (.number ⟨.number, ['2'], .nowhere⟩))] .nowhere)])

def gatheringWords : List Word :=
  [.plain .name ['x'], .plain .assign ['='], .lpar, .lpar, .quoted "cmd".toList, .pipe, .getline, .rpar, .lpar,
   .slashed "a[/]\\/b".toList "a[/]/b".toList, .rpar, .plain .name ['y'], .lsqb, .plain .number ['1'], .comma, .dollar,
   .plain .number ['2'], .rsqb, .rpar]

theorem renders_gathering : Renders .whole gathering gatheringWords := by
  have hcommand : Renders .operand (.getlineCommand .nowhere (.string ⟨.string, "cmd".toList, .nowhere⟩) none)
      (.lpar :: ([.quoted "cmd".toList] ++ .pipe :: .getline :: []) ++ [.rpar]) :=
    .group (.getlineCommand .string .noTarget)
  have hregex : Renders .operand (.regex ⟨.ere, "a[/]/b".toList, .nowhere⟩)
      (.lpar :: [.slashed "a[/]\\/b".toList "a[/]/b".toList] ++ [.rpar]) :=
    .group (.regex rfl)
  have hone : Renders .operand (.number ⟨.number, ['1'], .nowhere⟩) [.plain .number ['1']] := .number rfl
  have hfield : Renders .whole (.lvalue (.field .nowhere (.number ⟨.number, ['2'], .nowhere⟩)))
      (.dollar :: [.plain .number ['2']]) :=
    .lvalue (.field (.number rfl))
  have helement : Renders .operand
      (.lvalue (.index .nowhere ⟨.name, ['y'], .nowhere⟩
        [.number ⟨.number, ['1'], .nowhere⟩, .lvalue (.field .nowhere (.number ⟨.number, ['2'], .nowhere⟩))] .nowhere))
      (.plain .name ['y'] :: .lsqb :: ([.plain .number ['1']] ++ .comma :: .dollar :: [.plain .number ['2']]) ++
        [.rsqb]) :=
    .element (.index rfl (.items (.operand hone) (.item hfield)))
  have hvariable : Renders .lvalue (.var ⟨.name, ['x'], .nowhere⟩) [.plain .name ['x']] := .name rfl
  exact .assign rfl hvariable (.group (.concat (.parts hcommand (.parts hregex (.part helement)))))

theorem scans_gatheringWords (rest : Text) : ∀ w ∈ gatheringWords, w.Scans rest := by
  have hscans : Lexeme.regexBody false ("a[/]\\/b".toList ++ ['/']) = some ("a[/]/b".toList, "a[/]\\/b".toList.length) ∧
      Lexeme.openMarks false "a[/]\\/b".toList = [] ∧
      ∀ w ∈ gatheringWords, w = .slashed "a[/]\\/b".toList "a[/]/b".toList ∨
        (Lexeme.scan w.spelling = .ok ⟨w.kind, w.value, w.spelling.length⟩ ∧ w.spelling ≠ []) := by
    decide +kernel
  obtain ⟨hbody, hclosed, hwords⟩ := hscans
  refine scans_of_tokens (.regex hbody ?_) hwords
  rw [hclosed]
  exact List.forall_mem_nil _

theorem parseExpr_of_renders_gathering : ∃ e', parseExpr (Word.spaced gatheringWords) = .ok e' ∧
    e'.prune.map Expr.unplaced = gathering.prune.map Expr.unplaced :=
  parseExpr_of_renders renders_gathering (.spaced scans_gatheringWords)

/-! ### A class left open -/

/-- A regular expression that leaves a class open, and a string with what would close it. -/
def openClass : Expr :=
  .concat .nowhere
    [.regex ⟨.ere, "[[:a]".toList, .nowhere⟩, .string ⟨.string, ":]".toList, .nowhere⟩]

def openClassWords : List Word :=
  [.lpar, .slashed "[[:a]".toList "[[:a]".toList, .rpar, .quoted ":]".toList]

/-- Blanks do not keep a regular expression that leaves a class open from what follows it. -/
theorem parseExpr_openClass :
    Renders .whole openClass openClassWords ∧ (∀ w ∈ openClassWords, w.Scans []) ∧
      ∀ e, parseExpr (Word.spaced openClassWords) ≠ .ok e := by
  have hregex : Renders .operand (.regex ⟨.ere, "[[:a]".toList, .nowhere⟩)
      (.lpar :: [.slashed "[[:a]".toList "[[:a]".toList] ++ [.rpar]) :=
    .group (.regex rfl)
  have hscans : Lexeme.regexBody false ("[[:a]".toList ++ ['/']) = some ("[[:a]".toList, "[[:a]".toList.length) ∧
      (∀ w ∈ openClassWords, w = .slashed "[[:a]".toList "[[:a]".toList ∨
        (Lexeme.scan w.spelling = .ok ⟨w.kind, w.value, w.spelling.length⟩ ∧ w.spelling ≠ [])) ∧
      (parseExpr (Word.spaced openClassWords)).isOk = false := by
    decide +kernel
  obtain ⟨hbody, hwords, hrefused⟩ := hscans
  refine ⟨.concat (.parts hregex (.part .string)), scans_of_tokens (.regex hbody fun mark _ => rfl) hwords, ?_⟩
  intro e he
  rw [he] at hrefused
  cases hrefused

end Awk
