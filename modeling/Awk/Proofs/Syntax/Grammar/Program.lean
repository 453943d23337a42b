import Awk.Proofs.Syntax.Grammar.Stmt
import Awk.Proofs.Syntax.Parser.Program

/-!
# Readings of programs

The grammar of items on top of that of statements: `ReadsItems s items s'` says that from the state `s` to the state
`s'`, at the end of the text, the parser may read `items`.  Every program that the parser gives is a reading of its
text (`exists_reads_of_parseProgram`).
-/

namespace Awk.Parser

/-- Names with commas between them; newlines may precede each. -/
inductive ReadsParams : ParserState → List Token → ParserState → Prop
  | last {s s₁ s'} (hskip : SkipsNewlines s s₁) (hname : s₁.current.kind = .name) (htake : Takes s₁ s') :
    ReadsParams s [s₁.current] s'
  | more {s s₁ s₂ s₃ params s'} (hskip : SkipsNewlines s s₁) (hname : s₁.current.kind = .name) (htake : Takes s₁ s₂)
    (hcomma : s₂.current.kind = .comma) (htake' : Takes s₂ s₃) (hmore : ReadsParams s₃ params s') :
    ReadsParams s (s₁.current :: params) s'

inductive ReadsSelector : ParserState → Selector → ParserState → Prop
  | single {s e s'} (h : Reads (.level .assignment false) s e s') :
    ReadsSelector s (.single (s'.spanFrom s.current) e) s'
  | range {s first s₁ s₂ s₃ last s'} (hfirst : Reads (.level .assignment false) s first s₁)
    (hcomma : s₁.current.kind = .comma) (htake : Takes s₁ s₂) (hskip : SkipsNewlines s₂ s₃)
    (hlast : Reads (.level .assignment false) s₃ last s') :
    ReadsSelector s (.range (s'.spanFrom s.current) first last) s'

/-- The state with one more function on record. -/
abbrev withFunction (s : ParserState) (name : Token) (params : List Token) : ParserState :=
  { s with functions := s.functions ++ [(name.text, params.length)] }

inductive ReadsItem : ParserState → Item → ParserState → Prop
  | begin {s s₁ body s'} (hkind : s.current.kind = .begin) (htake : Takes s s₁)
    (hbody : ReadsStmt (.block ⟨false, false, true⟩) s₁ body s') :
    ReadsItem s (.begin (s'.spanFrom s.current) body) s'
  | end {s s₁ body s'} (hkind : s.current.kind = .end) (htake : Takes s s₁)
    (hbody : ReadsStmt (.block ⟨false, false, true⟩) s₁ body s') : ReadsItem s (.end (s'.spanFrom s.current) body) s'
  | always {s body s'} (hbody : ReadsStmt (.block ⟨false, false, false⟩) s body s') :
    ReadsItem s (.rule (s'.spanFrom s.current) none (some body)) s'
  | rule {s selector s₁ body s'} (hselector : ReadsSelector s selector s₁)
    (hbody : ReadsStmt (.block ⟨false, false, false⟩) s₁ body s') :
    ReadsItem s (.rule (s'.spanFrom s.current) (some selector) (some body)) s'
  | selector {s selector s'} (h : ReadsSelector s selector s') :
    ReadsItem s (.rule (s'.spanFrom s.current) (some selector) none) s'
  | function {s s₁ s₂ s₃ params s₄ s₅ s₆ body s'} (hkind : s.current.kind = .function) (htake : Takes s s₁)
    (hname : s₁.current.kind = .name ∨ s₁.current.kind = .funcName) (htake₁ : Takes s₁ s₂)
    (hopen : s₂.current.kind = .lpar) (htake₂ : Takes s₂ s₃)
    (hparams : params = [] ∧ s₄ = s₃ ∨ ReadsParams s₃ params s₄) (hclose : s₄.current.kind = .rpar)
    (htake₃ : Takes s₄ s₅) (hskip : SkipsNewlines (withFunction s₅ s₁.current params) s₆)
    (hbody : ReadsStmt (.block ⟨false, true, false⟩) s₆ body s') :
    ReadsItem s (.function (s'.spanFrom s.current) s₁.current params body) s'

inductive ReadsItems : ParserState → List Item → ParserState → Prop
  | end {s s'} (hskip : SkipsTerminators s s') (hend : s'.current.kind = .eof) : ReadsItems s [] s'
  | item {s s₁ first s₂ more s'} (hskip : SkipsTerminators s s₁) (hfirst : ReadsItem s₁ first s₂)
    (hmore : ReadsItems s₂ more s') : ReadsItems s (first :: more) s'

variable {fuel n : Nat} {s s' : ParserState}

theorem reads_moreParams {function : Text} {seen params : List Token}
    (h : (moreParams function fuel seen).run s = .ok (params, s')) :
    ∃ more, params = seen ++ more ∧ ReadsParams s more s' := by
  induction fuel generalizing s seen with
  | zero => exact absurd h tooDeep_ok
  | succ fuel ih =>
    obtain ⟨_, s₁, hskip, h⟩ := bind_ok.1 h
    obtain ⟨_, s₂, htoken, h⟩ := bind_ok.1 h
    obtain ⟨rfl, hname, htake⟩ := expect_iff.1 htoken
    obtain ⟨-, h⟩ := unless_ok failAt_ok h
    obtain ⟨-, h⟩ := unless_ok failAt_ok h
    have hskips := skips_of_skip hskip
    rcases accept_cases h with ⟨s₃, hcomma, htake', h⟩ | h
    · obtain ⟨more, rfl, hmore⟩ := ih h
      exact ⟨s₁.current :: more, by simp, .more hskips hname htake hcomma htake' hmore⟩
    · obtain ⟨rfl, rfl⟩ := pure_ok.1 h
      exact ⟨[s₁.current], rfl, .last hskips hname htake⟩

/-- Whether a function has parameters or not, the parser goes on in the same way. -/
theorem reads_params {function : Text} {α : Type} {next : List Token → Parser α} {a : α} {p : Prop} [Decidable p]
    (h : (if p then pure [] >>= next else moreParams function fuel [] >>= next).run s = .ok (a, s')) :
    ∃ params s₁, (params = [] ∧ s₁ = s ∨ ReadsParams s params s₁) ∧ (next params).run s₁ = .ok (a, s') := by
  split at h
  · simp only [bind_ok, pure_ok] at h
    obtain ⟨params, s₁, ⟨rfl, rfl⟩, h⟩ := h
    exact ⟨[], s₁, .inl ⟨rfl, rfl⟩, h⟩
  · obtain ⟨params, s₁, hparams, h⟩ := bind_ok.1 h
    obtain ⟨_, rfl, hmore⟩ := reads_moreParams hparams
    exact ⟨_, s₁, .inr hmore, h⟩

theorem reads_functionItem (hkind : s.current.kind = .function) {item : Item}
    (h : (functionItem fuel).run s = .ok (item, s')) : ReadsItem s item s' := by
  simp only [functionItem] at h
  obtain ⟨_, s₁, hstart, h⟩ := bind_ok.1 h
  obtain ⟨rfl, htake⟩ := advance_iff.1 hstart
  obtain ⟨_, _, hcurrent, hrest⟩ := bind_ok.1 h
  obtain ⟨rfl, rfl⟩ := current_ok.1 hcurrent
  split at hrest
  · rename_i hname
    rw [Bool.or_eq_true, decide_eq_true_eq, decide_eq_true_eq] at hname
    obtain ⟨_, s₂, htoken, h⟩ := bind_ok.1 hrest
    obtain ⟨rfl, htake₁⟩ := advance_iff.1 htoken
    obtain ⟨_, _, hget, hdefine⟩ := bind_ok.1 h
    obtain ⟨rfl, rfl⟩ := get_ok.1 hget
    obtain ⟨-, hnew⟩ := unless_ok failAt_ok hdefine
    obtain ⟨_, s₃, hparen, h⟩ := bind_ok.1 hnew
    obtain ⟨-, hopen, htake₂⟩ := expect_iff.1 hparen
    obtain ⟨_, _, hk, h⟩ := bind_ok.1 h
    obtain ⟨rfl, rfl⟩ := kind_ok.1 hk
    obtain ⟨params, s₄, hparams, h⟩ := reads_params h
    simp only [bind_ok, expect_iff, modify_ok, spanFrom_iff, pure_ok] at h
    obtain ⟨_, s₅, ⟨-, hclose, htake₃⟩, _, _, rfl, _, s₆, hskip, body, s₇, hbody, _, _, ⟨rfl, rfl⟩, rfl, rfl⟩ := h
    exact .function hkind htake hname htake₁ hopen htake₂ hparams hclose htake₃ (skips_of_skip hskip)
      ((stmtReads fuel).block hbody)
  · obtain ⟨_, _, hfail, -⟩ := bind_ok.1 hrest
    exact absurd hfail failExpecting_ok

theorem reads_selector {selector : Selector} (h : (Parser.selector fuel).run s = .ok (selector, s')) :
    ReadsSelector s selector s' := by
  simp only [Parser.selector] at h
  obtain ⟨_, _, hcurrent, h⟩ := bind_ok.1 h
  obtain ⟨rfl, rfl⟩ := current_ok.1 hcurrent
  obtain ⟨first, s₁, hfirst, h⟩ := bind_ok.1 h
  rcases accept_cases h with ⟨s₂, hcomma, htake, h⟩ | h
  · simp only [bind_ok, spanFrom_iff, pure_ok] at h
    obtain ⟨_, s₃, hskip, last, s₄, hlast, _, _, ⟨rfl, rfl⟩, rfl, rfl⟩ := h
    exact .range (reads_of_expr hfirst) hcomma htake (skips_of_skip hskip) (reads_of_expr hlast)
  · simp only [bind_ok, spanFrom_iff, pure_ok] at h
    obtain ⟨_, _, ⟨rfl, rfl⟩, rfl, rfl⟩ := h
    exact .single (reads_of_expr hfirst)

theorem reads_item {found : Item} (h : (item fuel).run s = .ok (found, s')) : ReadsItem s found s' := by
  simp only [item] at h
  obtain ⟨_, _, hcurrent, h⟩ := bind_ok.1 h
  obtain ⟨rfl, rfl⟩ := current_ok.1 hcurrent
  -- Special rules, functions, an action alone, and a selector with or without an action.
  split at h
  · rename_i hkind
    simp only [bind_ok, advance_iff, spanFrom_iff, pure_ok] at h
    obtain ⟨_, s₁, ⟨-, htake⟩, body, s₂, hbody, _, _, ⟨rfl, rfl⟩, rfl, rfl⟩ := h
    exact .begin hkind htake ((stmtReads fuel).block hbody)
  · rename_i hkind
    simp only [bind_ok, advance_iff, spanFrom_iff, pure_ok] at h
    obtain ⟨_, s₁, ⟨-, htake⟩, body, s₂, hbody, _, _, ⟨rfl, rfl⟩, rfl, rfl⟩ := h
    exact .end hkind htake ((stmtReads fuel).block hbody)
  · rename_i hkind
    exact reads_functionItem hkind h
  · simp only [bind_ok, spanFrom_iff, pure_ok] at h
    obtain ⟨body, s₁, hbody, _, _, ⟨rfl, rfl⟩, rfl, rfl⟩ := h
    exact .always ((stmtReads fuel).block hbody)
  · obtain ⟨chosen, s₁, hchosen, h⟩ := bind_ok.1 h
    obtain ⟨_, _, hk, h⟩ := bind_ok.1 h
    obtain ⟨rfl, rfl⟩ := kind_ok.1 hk
    have hread := reads_selector hchosen
    split at h
    · simp only [bind_ok, spanFrom_iff, pure_ok] at h
      obtain ⟨body, s₂, hbody, _, _, ⟨rfl, rfl⟩, rfl, rfl⟩ := h
      exact .rule hread ((stmtReads fuel).block hbody)
    · obtain ⟨b, _, hend, h⟩ := bind_ok.1 h
      cases atTerminator_ok hend
      obtain ⟨-, h⟩ := unless_ok failExpecting_ok h
      simp only [bind_ok, spanFrom_iff, pure_ok] at h
      obtain ⟨_, _, ⟨rfl, rfl⟩, rfl, rfl⟩ := h
      exact .selector hread

theorem reads_items {list : List Item} (h : (items n).run s = .ok (list, s')) : ReadsItems s list s' := by
  induction n generalizing s list with
  | zero => exact absurd h tooDeep_ok
  | succ n ih =>
    obtain ⟨_, s₁, hskip, h⟩ := bind_ok.1 h
    obtain ⟨_, _, hk, h⟩ := bind_ok.1 h
    obtain ⟨rfl, rfl⟩ := kind_ok.1 hk
    have hskips := skips_of_skip hskip
    split at h
    · rename_i hend
      obtain ⟨rfl, rfl⟩ := pure_ok.1 h
      exact .end hskips hend
    · simp only [bind_ok, pure_ok] at h
      obtain ⟨first, s₂, hfirst, more, s₃, hmore, rfl, rfl⟩ := h
      exact .item hskips (reads_item hfirst) (ih hmore)

/-- A program that the parser gives is read from the start of its text to the end. -/
theorem exists_reads_of_parseProgram {source : Text} {p : Program} (h : parseProgram source = .ok p) :
    ∃ s s', start source = .ok s ∧ ReadsItems s p.items s' ∧ p.span = s'.spanFrom s.current := by
  obtain ⟨s, hstart, h⟩ := Action.bind_eq_ok.1 h
  obtain ⟨⟨p', s'⟩, hprogram, h⟩ := Action.bind_eq_ok.1 h
  cases h
  simp only [program, bind_ok, current_ok, spanFrom_iff, pure_ok] at hprogram
  obtain ⟨_, _, ⟨rfl, rfl⟩, list, s₁, hlist, _, _, hcheck, _, _, ⟨rfl, rfl⟩, rfl, -⟩ := hprogram
  obtain ⟨rfl, -⟩ := checkCalls_ok hcheck
  exact ⟨_, _, hstart, reads_items hlist, rfl⟩

end Awk.Parser
