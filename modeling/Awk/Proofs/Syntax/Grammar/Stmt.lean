import Awk.Proofs.Syntax.Grammar.Expr
import Awk.Proofs.Syntax.Parser.Stmt

/-!
# Readings of statements

The grammar of statements as a relation, on top of that of expressions: `ReadsStmt x s v s'` says that from the state
`s` to the state `s'` the parser may read `v` as the clause `x`.  Where the parser looks ahead and goes back, the
reading goes on from where the parser went back to, so that nothing is read twice.
-/

namespace Awk.Parser

abbrev SkipsTerminators : ParserState → ParserState → Prop := Skips fun k => k == .newline || k == .semi

inductive Clause where
  /-- An expression that may be missing. -/
  | expr?
  /-- An expression in parentheses. -/
  | test
  /-- The items of a print statement. -/
  | items
  | simple (context : Context)
  | simple? (context : Context)
  | block (context : Context)
  /-- The statements of a block, the closing brace included. -/
  | body (context : Context)
  | statement (context : Context)
  /-- The statement that a loop or a branch governs. -/
  | governed (context : Context)

/-- What a clause is read as. -/
abbrev Clause.Result : Clause → Type
  | expr? => Option Expr
  | test => Expr
  | items => List Expr
  | simple _ | block _ | statement _ | governed _ => Stmt
  | simple? _ => Option Stmt
  | body _ => List Stmt

inductive ReadsStmt : (x : Clause) → ParserState → x.Result → ParserState → Prop
  | noExpr {s} : ReadsStmt .expr? s none s
  | someExpr {s e s'} (h : Reads (.level .assignment false) s e s') : ReadsStmt .expr? s (some e) s'
  | test {s s₁ e s₂ s'} (hopen : s.current.kind = .lpar) (htake : Takes s s₁)
    (he : Reads (.level .assignment false) s₁ e s₂) (hclose : s₂.current.kind = .rpar) (htake' : Takes s₂ s') :
    ReadsStmt .test s e s'
  | noItems {s} : ReadsStmt .items s [] s
  | items {s first s₁ more s'} (hfirst : Reads (.level .assignment true) s first s₁)
    (hmore : Reads (.moreItems true) s₁ more s') : ReadsStmt .items s (first :: more) s'
  | listedItems {s s₁ first s₂ second more s₃ s'} (hopen : s.current.kind = .lpar) (htake : Takes s s₁)
    (hfirst : Reads (.level .assignment false) s₁ first s₂) (hmore : Reads (.moreItems false) s₂ (second :: more) s₃)
    (hclose : s₃.current.kind = .rpar) (htake' : Takes s₃ s') : ReadsStmt .items s (first :: second :: more) s'
  | print {context s s₁ items s'} (hkind : s.current.kind = .print ∨ s.current.kind = .printf) (htake : Takes s s₁)
    (hitems : ReadsStmt .items s₁ items s') :
    ReadsStmt (.simple context) s
      (.print (s'.spanFrom s.current) s.current (s.current.kind == .printf) items none) s'
  | printTo {context s s₁ items s₂ op s₃ target s'} (hkind : s.current.kind = .print ∨ s.current.kind = .printf)
    (htake : Takes s s₁) (hitems : ReadsStmt .items s₁ items s₂) (hop : RedirectOp.ofKind? s₂.current.kind = some op)
    (htake' : Takes s₂ s₃) (htarget : Reads (.level .concatenation true) s₃ target s') :
    ReadsStmt (.simple context) s
      (.print (s'.spanFrom s.current) s.current (s.current.kind == .printf) items
        (some ⟨s'.spanFrom s₂.current, op, s₂.current, target⟩)) s'
  | delete {context s s₁ s'} (hkind : s.current.kind = .delete) (htake : Takes s s₁) (hname : s₁.current.kind = .name)
    (htake' : Takes s₁ s') : ReadsStmt (.simple context) s (.delete (s'.spanFrom s.current) s₁.current none) s'
  | deleteElement {context s s₁ s₂ s₃ subs s'} (hkind : s.current.kind = .delete) (htake : Takes s s₁)
    (hname : s₁.current.kind = .name) (htake' : Takes s₁ s₂) (hopen : s₂.current.kind = .lsqb) (htake'' : Takes s₂ s₃)
    (hsubs : Reads .subscripts s₃ subs s') :
    ReadsStmt (.simple context) s (.delete (s'.spanFrom s.current) s₁.current (some subs)) s'
  | break {context s s'} (hkind : s.current.kind = .break) (hloop : context.inLoop = true) (htake : Takes s s') :
    ReadsStmt (.simple context) s (.break (s'.spanFrom s.current)) s'
  | continue {context s s'} (hkind : s.current.kind = .continue) (hloop : context.inLoop = true) (htake : Takes s s') :
    ReadsStmt (.simple context) s (.continue (s'.spanFrom s.current)) s'
  | next {context s s'} (hkind : s.current.kind = .next) (hrule : context.inSpecial = false) (htake : Takes s s') :
    ReadsStmt (.simple context) s (.next (s'.spanFrom s.current)) s'
  | nextFile {context s s'} (hkind : s.current.kind = .nextFile) (hrule : context.inSpecial = false)
    (htake : Takes s s') : ReadsStmt (.simple context) s (.nextFile (s'.spanFrom s.current)) s'
  | exit {context s s₁ code s'} (hkind : s.current.kind = .exit) (htake : Takes s s₁)
    (hcode : ReadsStmt .expr? s₁ code s') : ReadsStmt (.simple context) s (.exit (s'.spanFrom s.current) code) s'
  | return {context s s₁ value s'} (hkind : s.current.kind = .return) (hfunction : context.inFunction = true)
    (htake : Takes s s₁) (hvalue : ReadsStmt .expr? s₁ value s') :
    ReadsStmt (.simple context) s (.return (s'.spanFrom s.current) value) s'
  | expr {context s e s'} (he : Reads (.level .assignment false) s e s') :
    ReadsStmt (.simple context) s (.expr (s'.spanFrom s.current) e) s'
  | noStmt {context s} : ReadsStmt (.simple? context) s none s
  | someStmt {context s stmt s'} (h : ReadsStmt (.simple context) s stmt s') :
    ReadsStmt (.simple? context) s (some stmt) s'
  | block {context s s₁ body s'} (hopen : s.current.kind = .lbrace) (htake : Takes s s₁)
    (hbody : ReadsStmt (.body context) s₁ body s') :
    ReadsStmt (.block context) s (.block (s'.spanFrom s.current) body) s'
  | endBody {context s s₁ s'} (hskip : SkipsTerminators s s₁) (hclose : s₁.current.kind = .rbrace)
    (htake : Takes s₁ s') : ReadsStmt (.body context) s [] s'
  | body {context s s₁ first s₂ more s'} (hskip : SkipsTerminators s s₁)
    (hfirst : ReadsStmt (.statement context) s₁ first s₂) (hmore : ReadsStmt (.body context) s₂ more s') :
    ReadsStmt (.body context) s (first :: more) s'
  | ofBlock {context s stmt s'} (h : ReadsStmt (.block context) s stmt s') : ReadsStmt (.statement context) s stmt s'
  | ofSimple {context s stmt s'} (h : ReadsStmt (.simple context) s stmt s') :
    ReadsStmt (.statement context) s stmt s'
  | empty {context s s'} (hkind : s.current.kind = .semi) (htake : Takes s s') :
    ReadsStmt (.statement context) s (.empty (s'.spanFrom s.current)) s'
  | ifThen {context s s₁ test s₂ yes s'} (hkind : s.current.kind = .if) (htake : Takes s s₁)
    (htest : ReadsStmt .test s₁ test s₂) (hyes : ReadsStmt (.governed context) s₂ yes s') :
    ReadsStmt (.statement context) s (.ifElse (s'.spanFrom s.current) test yes none) s'
  | ifElse {context s s₁ test s₂ yes s₃ s₄ s₅ no s'} (hkind : s.current.kind = .if) (htake : Takes s s₁)
    (htest : ReadsStmt .test s₁ test s₂) (hyes : ReadsStmt (.governed context) s₂ yes s₃)
    (hskip : SkipsTerminators s₃ s₄) (helse : s₄.current.kind = .else) (htake' : Takes s₄ s₅)
    (hno : ReadsStmt (.governed context) s₅ no s') :
    ReadsStmt (.statement context) s (.ifElse (s'.spanFrom s.current) test yes (some no)) s'
  | while {context s s₁ test s₂ body s'} (hkind : s.current.kind = .while) (htake : Takes s s₁)
    (htest : ReadsStmt .test s₁ test s₂) (hbody : ReadsStmt (.governed { context with inLoop := true }) s₂ body s') :
    ReadsStmt (.statement context) s (.while (s'.spanFrom s.current) test body) s'
  | doWhile {context s s₁ body s₂ s₃ s₄ test s'} (hkind : s.current.kind = .do) (htake : Takes s s₁)
    (hbody : ReadsStmt (.governed { context with inLoop := true }) s₁ body s₂) (hskip : SkipsTerminators s₂ s₃)
    (hwhile : s₃.current.kind = .while) (htake' : Takes s₃ s₄) (htest : ReadsStmt .test s₄ test s') :
    ReadsStmt (.statement context) s (.doWhile (s'.spanFrom s.current) body test) s'
  | forIn {context s s₁ s₂ s₃ s₄ s₅ s₆ body s'} (hkind : s.current.kind = .for) (htake : Takes s s₁)
    (hopen : s₁.current.kind = .lpar) (htake₁ : Takes s₁ s₂) (helement : s₂.current.kind = .name)
    (htake₂ : Takes s₂ s₃) (hin : s₃.current.kind = .in) (htake₃ : Takes s₃ s₄) (harray : s₄.current.kind = .name)
    (htake₄ : Takes s₄ s₅) (hclose : s₅.current.kind = .rpar) (htake₅ : Takes s₅ s₆)
    (hbody : ReadsStmt (.governed { context with inLoop := true }) s₆ body s') :
    ReadsStmt (.statement context) s (.forIn (s'.spanFrom s.current) s₂.current s₄.current body) s'
  | for {context s s₁ s₂ start s₃ s₄ s₅ test s₆ s₇ s₈ update s₉ t body s'} (hkind : s.current.kind = .for)
    (htake : Takes s s₁) (hopen : s₁.current.kind = .lpar) (htake₁ : Takes s₁ s₂)
    (hstart : ReadsStmt (.simple? context) s₂ start s₃) (hsemi : s₃.current.kind = .semi) (htake₂ : Takes s₃ s₄)
    (hskip : SkipsNewlines s₄ s₅) (htest : ReadsStmt .expr? s₅ test s₆) (hsemi' : s₆.current.kind = .semi)
    (htake₃ : Takes s₆ s₇) (hskip' : SkipsNewlines s₇ s₈) (hupdate : ReadsStmt (.simple? context) s₈ update s₉)
    (hclose : s₉.current.kind = .rpar) (htake₄ : Takes s₉ t)
    (hbody : ReadsStmt (.governed { context with inLoop := true }) t body s') :
    ReadsStmt (.statement context) s (.for (s'.spanFrom s.current) start test update body) s'
  | governed {context s s₁ stmt s'} (hskip : SkipsNewlines s s₁) (h : ReadsStmt (.statement context) s₁ stmt s') :
    ReadsStmt (.governed context) s stmt s'

variable {fuel n : Nat} {s s' : ParserState} {context : Context}

/-! ### Steps -/

theorem Skips.mono {skipped skipped' : TokenKind → Bool} (himp : ∀ {k}, skipped k = true → skipped' k = true)
    (h : Skips skipped s s') : Skips skipped' s s' := by
  induction h with
  | refl => exact .refl
  | step hkind htake hrest ih => exact .step (himp hkind) htake ih

theorem Skips.trans {skipped : TokenKind → Bool} {s₁ : ParserState} (h : Skips skipped s s₁)
    (h' : Skips skipped s₁ s') : Skips skipped s s' := by
  induction h with
  | refl => exact h'
  | step hkind htake hrest ih => exact .step hkind htake (ih h')

/-- Newlines with at most one semicolon among them. -/
theorem skipsTerminators_of_else {s₁ s₂ : ParserState} {b : Bool} (hbefore : SkipsNewlines s s₁)
    (haccept : (accept .semi).run s₁ = .ok (b, s₂)) (hafter : SkipsNewlines s₂ s') : SkipsTerminators s s' := by
  have hnewline {s s'} (h : SkipsNewlines s s') : SkipsTerminators s s' := h.mono fun hk => by simp [hk]
  have hbetween : SkipsTerminators s₁ s₂ := by
    rw [accept_iff] at haccept
    by_cases hkind : s₁.current.kind = .semi
    · rw [if_pos hkind] at haccept
      exact .step (by simp [hkind]) haccept.2 .refl
    · rw [if_neg hkind] at haccept
      obtain ⟨-, rfl⟩ := haccept
      exact .refl
  exact (hnewline hbefore).trans (hbetween.trans (hnewline hafter))

/-- The four tokens that a loop over an array begins with behind its parenthesis. -/
theorem startsForIn_next (h : startsForIn.run s = .ok (true, s')) :
    s.current.kind = .name ∧ ∀ {s₁ s₂ s₃}, Takes s s₁ → Takes s₁ s₂ → Takes s₂ s₃ →
      s₁.current.kind = .in ∧ s₂.current.kind = .name ∧ s₃.current.kind = .rpar := by
  have hno {s₁ s'} : ¬(pure false : Parser Bool).run s₁ = .ok (true, s') := by
    intro h
    cases (pure_ok.1 h).1
  simp only [startsForIn, bind_ok, get_ok] at h
  obtain ⟨_, _, ⟨rfl, rfl⟩, h⟩ := h
  split at h
  · rename_i hname
    obtain ⟨⟨first, behind₁⟩, _, hfirst, hrest⟩ := bind_ok.1 h
    obtain ⟨htoken₁, rfl⟩ := lift_ok.1 hfirst
    split at hrest
    · rename_i hin
      obtain ⟨⟨second, behind₂⟩, _, hsecond, hlast⟩ := bind_ok.1 hrest
      obtain ⟨htoken₂, rfl⟩ := lift_ok.1 hsecond
      split at hlast
      · rename_i hname'
        obtain ⟨⟨third, behind₃⟩, _, hthird, hreturn⟩ := bind_ok.1 hlast
        obtain ⟨htoken₃, rfl⟩ := lift_ok.1 hthird
        obtain ⟨hclose, -⟩ := pure_ok.1 hreturn
        refine ⟨hname, fun htake₁ htake₂ htake₃ => ?_⟩
        obtain ⟨rfl, rfl⟩ := htake₁.current_eq htoken₁
        obtain ⟨rfl, rfl⟩ := htake₂.current_eq htoken₂
        obtain ⟨rfl, rfl⟩ := htake₃.current_eq htoken₃
        exact ⟨hin, hname', eq_of_beq hclose.symm⟩
      · exact absurd hlast hno
    · exact absurd hrest hno
  · exact absurd h hno

/-! ### Print statements -/

/-- A list in parentheses is read, or nothing is. -/
theorem reads_parenthesisedItems (hopen : s.current.kind = .lpar) {listed : Option (List Expr)}
    (h : (parenthesisedItems fuel).run s = .ok (listed, s')) :
    (∃ items, listed = some items ∧ ReadsStmt .items s items s') ∨ listed = none ∧ s' = s := by
  have hback {s₁ : ParserState} (h : (do set s; pure none : Parser (Option (List Expr))).run s₁ = .ok (listed, s')) :
      listed = none ∧ s' = s := by
    simp only [bind_ok, set_ok, pure_ok] at h
    obtain ⟨_, _, rfl, rfl, rfl⟩ := h
    exact ⟨rfl, rfl⟩
  obtain ⟨_, _, hsaved, hrest⟩ := bind_ok.1 h
  obtain ⟨rfl, rfl⟩ := get_ok.1 hsaved
  obtain ⟨_, s₁, hstart, h⟩ := bind_ok.1 hrest
  obtain ⟨-, htake⟩ := advance_iff.1 hstart
  obtain ⟨first, s₂, hfirst, h⟩ := bind_ok.1 h
  obtain ⟨more, s₃, hmore, h⟩ := bind_ok.1 h
  split at h
  · exact .inr (hback h)
  · rename_i hne
    obtain ⟨second, more, rfl⟩ := List.exists_cons_of_ne_nil hne
    rcases accept_cases h with ⟨s₄, hclose, htake', h⟩ | h
    · obtain ⟨b, _, hend, h⟩ := bind_ok.1 h
      cases atTerminator_ok hend
      obtain ⟨k, _, hk, h⟩ := bind_ok.1 h
      obtain ⟨rfl, rfl⟩ := kind_ok.1 hk
      split at h
      · obtain ⟨rfl, rfl⟩ := pure_ok.1 h
        exact .inl ⟨_, rfl,
          .listedItems hopen htake (reads_of_expr hfirst) ((exprReads fuel).moreItems hmore) hclose htake'⟩
      · exact .inr (hback h)
    · exact .inr (hback h)

theorem reads_plainItems {items : List Expr} (h : (plainItems fuel).run s = .ok (items, s')) :
    ReadsStmt .items s items s' := by
  simp only [plainItems, bind_ok (x := kind), bind_ok (x := atTerminator), kind_ok] at h
  obtain ⟨b, _, hend, k, _, ⟨rfl, rfl⟩, h⟩ := h
  cases atTerminator_ok hend
  split at h
  · obtain ⟨rfl, rfl⟩ := pure_ok.1 h
    exact .noItems
  · simp only [bind_ok, pure_ok] at h
    obtain ⟨first, s₁, hfirst, more, s₂, hmore, rfl, rfl⟩ := h
    exact .items (reads_of_expr hfirst) ((exprReads fuel).moreItems hmore)

/-- Whichever way the items are written, the parser goes on with them in the same way. -/
theorem reads_printItems {α : Type} {next : List Expr → Parser α} {a : α}
    (h : (if s.current.kind = TokenKind.lpar then do
        match ← parenthesisedItems fuel with
        | some items => pure items >>= next
        | none => plainItems fuel >>= next
      else do
        match ← pure none with
        | some items => pure items >>= next
        | none => plainItems fuel >>= next).run s = .ok (a, s')) :
    ∃ items s₁, ReadsStmt .items s items s₁ ∧ (next items).run s₁ = .ok (a, s') := by
  have hplain (h : (plainItems fuel >>= next).run s = .ok (a, s')) :
      ∃ items s₁, ReadsStmt .items s items s₁ ∧ (next items).run s₁ = .ok (a, s') := by
    obtain ⟨items, s₁, hitems, h⟩ := bind_ok.1 h
    exact ⟨items, s₁, reads_plainItems hitems, h⟩
  split at h
  · rename_i hopen
    obtain ⟨listed, s₁, hlisted, h⟩ := bind_ok.1 h
    rcases reads_parenthesisedItems hopen hlisted with ⟨items, rfl, hitems⟩ | ⟨rfl, hback⟩
    · exact ⟨items, s₁, hitems, h⟩
    · rw [hback] at h
      exact hplain h
  · exact hplain h

theorem reads_printStmt (hkind : s.current.kind = .print ∨ s.current.kind = .printf) {stmt : Stmt}
    (h : (printStmt fuel).run s = .ok (stmt, s')) : ReadsStmt (.simple context) s stmt s' := by
  obtain ⟨_, s₁, hstart, h⟩ := bind_ok.1 h
  obtain ⟨rfl, htake⟩ := advance_iff.1 hstart
  obtain ⟨_, _, hk, h⟩ := bind_ok.1 h
  obtain ⟨rfl, rfl⟩ := kind_ok.1 hk
  obtain ⟨items, s₂, hitems, h⟩ := reads_printItems h
  obtain ⟨-, h⟩ := unless_ok failExpecting_ok h
  obtain ⟨_, _, hk, h⟩ := bind_ok.1 h
  obtain ⟨rfl, rfl⟩ := kind_ok.1 hk
  split at h
  · rename_i op hop
    simp only [bind_ok, advance_iff, spanFrom_iff, pure_ok] at h
    obtain ⟨_, s₃, ⟨rfl, htake'⟩, target, s₄, htarget, _, _, ⟨rfl, rfl⟩, _, _, ⟨rfl, rfl⟩, rfl, rfl⟩ := h
    exact .printTo hkind htake hitems hop htake' ((exprReads fuel).level htarget)
  · simp only [bind_ok, spanFrom_iff, pure_ok] at h
    obtain ⟨_, _, ⟨rfl, rfl⟩, rfl, rfl⟩ := h
    exact .print hkind htake hitems

/-! ### Statements without a body -/

theorem reads_optionalExpr {e : Option Expr} (h : (optionalExpr fuel).run s = .ok (e, s')) :
    ReadsStmt .expr? s e s' := by
  obtain ⟨b, _, hend, h⟩ := bind_ok.1 h
  cases atTerminator_ok hend
  split at h
  · obtain ⟨rfl, rfl⟩ := pure_ok.1 h
    exact .noExpr
  · simp only [bind_ok, pure_ok] at h
    obtain ⟨e, _, he, rfl, rfl⟩ := h
    exact .someExpr (reads_of_expr he)

theorem reads_delete (hkind : s.current.kind = .delete) {stmt : Stmt}
    (h : (do
      let _ ← advance
      let array ← expect .name "array name"
      if ← accept .lsqb then
        let subs ← subscripts fuel
        return .delete (← spanFrom s.current) array (some subs)
      else
        return .delete (← spanFrom s.current) array none : Parser Stmt).run s = .ok (stmt, s')) :
    ReadsStmt (.simple context) s stmt s' := by
  obtain ⟨_, s₁, hstart, h⟩ := bind_ok.1 h
  obtain ⟨-, htake⟩ := advance_iff.1 hstart
  obtain ⟨_, s₂, harray, h⟩ := bind_ok.1 h
  obtain ⟨rfl, hname, htake'⟩ := expect_iff.1 harray
  rcases accept_cases h with ⟨s₃, hopen, htake'', h⟩ | h
  · simp only [bind_ok, spanFrom_iff, pure_ok] at h
    obtain ⟨subs, s₄, hsubs, _, _, ⟨rfl, rfl⟩, rfl, rfl⟩ := h
    exact .deleteElement hkind htake hname htake' hopen htake'' ((exprReads fuel).subscripts hsubs)
  · simp only [bind_ok, spanFrom_iff, pure_ok] at h
    obtain ⟨_, _, ⟨rfl, rfl⟩, rfl, rfl⟩ := h
    exact .delete hkind htake hname htake'

/-- A statement that is a keyword and nothing else is allowed where it stands. -/
theorem reads_keyword {p : Prop} [Decidable p] {fault : SyntaxFault} {build : Span → Stmt} {stmt : Stmt}
    (h : (do
      let _ ← advance
      if p then failAt fault s.current
      let span ← spanFrom s.current
      return build span).run s = .ok (stmt, s')) : ¬p ∧ Takes s s' ∧ stmt = build (s'.spanFrom s.current) := by
  obtain ⟨_, s₁, hstart, h⟩ := bind_ok.1 h
  obtain ⟨-, htake⟩ := advance_iff.1 hstart
  obtain ⟨hp, h⟩ := unless_ok failAt_ok h
  simp only [bind_ok, spanFrom_iff, pure_ok] at h
  obtain ⟨_, _, ⟨rfl, rfl⟩, rfl, rfl⟩ := h
  exact ⟨hp, htake, rfl⟩

theorem reads_simpleStmt {stmt : Stmt} (h : (simpleStmt fuel context).run s = .ok (stmt, s')) :
    ReadsStmt (.simple context) s stmt s' := by
  obtain ⟨_, _, hstart, h⟩ := bind_ok.1 h
  obtain ⟨rfl, rfl⟩ := current_ok.1 hstart
  -- By the kind of the first token, in the order of the grammar.
  split at h
  · rename_i hkind
    exact reads_printStmt (.inl hkind) h
  · rename_i hkind
    exact reads_printStmt (.inr hkind) h
  · rename_i hkind
    exact reads_delete hkind h
  · rename_i hkind
    obtain ⟨hloop, htake, rfl⟩ := reads_keyword h
    rw [if_pos hkind]
    exact .break hkind (by simpa using hloop) htake
  · rename_i hkind
    obtain ⟨hloop, htake, rfl⟩ := reads_keyword h
    rw [if_neg (by simp [hkind])]
    exact .continue hkind (by simpa using hloop) htake
  · rename_i hkind
    obtain ⟨hrule, htake, rfl⟩ := reads_keyword h
    rw [if_pos hkind]
    exact .next hkind (by simpa using hrule) htake
  · rename_i hkind
    obtain ⟨hrule, htake, rfl⟩ := reads_keyword h
    rw [if_neg (by simp [hkind])]
    exact .nextFile hkind (by simpa using hrule) htake
  · rename_i hkind
    simp only [bind_ok, advance_iff, spanFrom_iff, pure_ok] at h
    obtain ⟨_, s₁, ⟨-, htake⟩, code, s₂, hcode, _, _, ⟨rfl, rfl⟩, rfl, rfl⟩ := h
    exact .exit hkind htake (reads_optionalExpr hcode)
  · rename_i hkind
    obtain ⟨_, s₁, hreturn, h⟩ := bind_ok.1 h
    obtain ⟨-, htake⟩ := advance_iff.1 hreturn
    obtain ⟨hfunction, h⟩ := unless_ok failAt_ok h
    simp only [bind_ok, spanFrom_iff, pure_ok] at h
    obtain ⟨value, s₂, hvalue, _, _, ⟨rfl, rfl⟩, rfl, rfl⟩ := h
    exact .return hkind (by simpa using hfunction) htake (reads_optionalExpr hvalue)
  · simp only [bind_ok, spanFrom_iff, pure_ok] at h
    obtain ⟨e, s₁, he, _, _, ⟨rfl, rfl⟩, rfl, rfl⟩ := h
    exact .expr (reads_of_expr he)

theorem reads_optionalStmt {absent : TokenKind} {stmt : Option Stmt}
    (h : (optionalStmt fuel context absent).run s = .ok (stmt, s')) : ReadsStmt (.simple? context) s stmt s' := by
  obtain ⟨_, _, hkind, h⟩ := bind_ok.1 h
  obtain ⟨rfl, rfl⟩ := kind_ok.1 hkind
  split at h
  · obtain ⟨rfl, rfl⟩ := pure_ok.1 h
    exact .noStmt
  · simp only [bind_ok, pure_ok] at h
    obtain ⟨stmt, _, hstmt, rfl, rfl⟩ := h
    exact .someStmt (reads_simpleStmt hstmt)

theorem reads_parenthesised {e : Expr} (h : (parenthesised fuel).run s = .ok (e, s')) : ReadsStmt .test s e s' := by
  simp only [parenthesised, bind_ok, expect_iff, pure_ok] at h
  obtain ⟨_, s₁, ⟨-, hopen, htake⟩, e, s₂, he, _, s₃, ⟨-, hclose, htake'⟩, rfl, rfl⟩ := h
  exact .test hopen htake (reads_of_expr he) hclose htake'

/-! ### Statements with a body -/

/-- What every function of the grammar of statements gives with a fuel is a reading. -/
structure StmtReads (n : Nat) : Prop where
  block : ∀ {context s stmt s'}, (block n context).run s = .ok (stmt, s') → ReadsStmt (.block context) s stmt s'
  blockBody : ∀ {context s stmts s'}, (blockBody n context).run s = .ok (stmts, s') →
    ReadsStmt (.body context) s stmts s'
  statement : ∀ {context s stmt s'}, (statement n context).run s = .ok (stmt, s') →
    ReadsStmt (.statement context) s stmt s'
  forStmt : ∀ {context s stmt s'}, s.current.kind = .for → (forStmt n context).run s = .ok (stmt, s') →
    ReadsStmt (.statement context) s stmt s'
  bodyStmt : ∀ {context s stmt s'}, (bodyStmt n context).run s = .ok (stmt, s') →
    ReadsStmt (.governed context) s stmt s'

variable {stmt : Stmt}

theorem reads_block (ih : StmtReads n) (h : (block (n + 1) context).run s = .ok (stmt, s')) :
    ReadsStmt (.block context) s stmt s' := by
  simp only [block, bind_ok, expect_iff, spanFrom_iff, pure_ok] at h
  obtain ⟨_, s₁, ⟨rfl, hopen, htake⟩, body, s₂, hbody, _, _, ⟨rfl, rfl⟩, rfl, rfl⟩ := h
  exact .block hopen htake (ih.blockBody hbody)

theorem reads_blockBody (ih : StmtReads n) {stmts : List Stmt}
    (h : (blockBody (n + 1) context).run s = .ok (stmts, s')) : ReadsStmt (.body context) s stmts s' := by
  simp only [blockBody] at h
  obtain ⟨_, s₁, hskip, h⟩ := bind_ok.1 h
  rcases accept_cases h with ⟨s₂, hclose, htake, h⟩ | h
  · obtain ⟨rfl, rfl⟩ := pure_ok.1 h
    exact .endBody (skips_of_skip hskip) hclose htake
  · obtain ⟨_, _, hk, h⟩ := bind_ok.1 h
    obtain ⟨rfl, rfl⟩ := kind_ok.1 hk
    split at h
    · exact absurd h failExpecting_ok
    · simp only [bind_ok, pure_ok] at h
      obtain ⟨first, s₂, hfirst, more, s₃, hmore, rfl, rfl⟩ := h
      exact .body (skips_of_skip hskip) (ih.statement hfirst) (ih.blockBody hmore)

theorem reads_bodyStmt (ih : StmtReads n) (h : (bodyStmt (n + 1) context).run s = .ok (stmt, s')) :
    ReadsStmt (.governed context) s stmt s' := by
  obtain ⟨_, s₁, hskip, h⟩ := bind_ok.1 h
  exact .governed (skips_of_skip hskip) (ih.statement h)

/-- Whether the test of a loop is there or not, the parser goes on in the same way. -/
theorem reads_forTest {α : Type} {next : Option Expr → Parser α} {a : α} {p : Prop} [Decidable p]
    (h : (if p then pure none >>= next else do
        let e ← expr fuel false
        pure (some e) >>= next).run s = .ok (a, s')) :
    ∃ test s₁, ReadsStmt .expr? s test s₁ ∧ (next test).run s₁ = .ok (a, s') := by
  split at h
  · obtain ⟨test, s₁, htest, h⟩ := bind_ok.1 h
    obtain ⟨rfl, rfl⟩ := pure_ok.1 htest
    exact ⟨none, s₁, .noExpr, h⟩
  · obtain ⟨e, s₁, he, h⟩ := bind_ok.1 h
    obtain ⟨test, s₂, htest, h⟩ := bind_ok.1 h
    obtain ⟨rfl, rfl⟩ := pure_ok.1 htest
    exact ⟨some e, s₂, .someExpr (reads_of_expr he), h⟩

theorem reads_forStmt (ih : StmtReads n) (hkind : s.current.kind = .for)
    (h : (forStmt (n + 1) context).run s = .ok (stmt, s')) : ReadsStmt (.statement context) s stmt s' := by
  simp only [forStmt] at h
  obtain ⟨_, s₁, hstart, h⟩ := bind_ok.1 h
  obtain ⟨rfl, htake⟩ := advance_iff.1 hstart
  obtain ⟨_, s₂, hparen, h⟩ := bind_ok.1 h
  obtain ⟨-, hopen, htake₁⟩ := expect_iff.1 hparen
  obtain ⟨b, _, hforIn, h⟩ := bind_ok.1 h
  cases startsForIn_ok hforIn
  split at h
  · rename_i hb
    subst hb
    simp only [bind_ok, advance_iff, spanFrom_iff, pure_ok] at h
    obtain ⟨_, s₃, ⟨rfl, htake₂⟩, _, s₄, ⟨-, htake₃⟩, _, s₅, ⟨rfl, htake₄⟩, _, s₆, ⟨-, htake₅⟩, body, s₇, hbody, _, _,
      ⟨rfl, rfl⟩, rfl, rfl⟩ := h
    obtain ⟨helement, hnext⟩ := startsForIn_next hforIn
    obtain ⟨hin, harray, hclose⟩ := hnext htake₂ htake₃ htake₄
    exact .forIn hkind htake hopen htake₁ helement htake₂ hin htake₃ harray htake₄ hclose htake₅ (ih.bodyStmt hbody)
  · obtain ⟨start, s₃, hfirst, h⟩ := bind_ok.1 h
    obtain ⟨_, s₄, hsemi, h⟩ := bind_ok.1 h
    obtain ⟨-, hsemi, htake₂⟩ := expect_iff.1 hsemi
    obtain ⟨_, s₅, hskip, h⟩ := bind_ok.1 h
    obtain ⟨_, _, hk, h⟩ := bind_ok.1 h
    obtain ⟨rfl, rfl⟩ := kind_ok.1 hk
    obtain ⟨test, s₆, htest, h⟩ := reads_forTest h
    simp only [bind_ok, expect_iff, spanFrom_iff, pure_ok] at h
    obtain ⟨_, s₇, ⟨-, hsemi', htake₃⟩, _, s₈, hskip', update, s₉, hupdate, _, t, ⟨-, hclose, htake₄⟩, body, _, hbody,
      _, _, ⟨rfl, rfl⟩, rfl, rfl⟩ := h
    exact .for hkind htake hopen htake₁ (reads_optionalStmt hfirst) hsemi htake₂ (skips_of_skip hskip) htest hsemi'
      htake₃ (skips_of_skip hskip') (reads_optionalStmt hupdate) hclose htake₄ (ih.bodyStmt hbody)

/-- The newlines behind a branch are only taken where another branch follows them. -/
theorem reads_ifElse (ih : StmtReads n) (hkind : s.current.kind = .if)
    (h : (do
      let _ ← advance
      let test ← parenthesised n
      let yes ← bodyStmt n context
      let saved ← get
      skipNewlines
      let _ ← accept .semi
      skipNewlines
      if ← accept .else then
        let no ← bodyStmt n context
        return .ifElse (← spanFrom s.current) test yes (some no)
      else
        set saved
        return .ifElse (← spanFrom s.current) test yes none : Parser Stmt).run s = .ok (stmt, s')) :
    ReadsStmt (.statement context) s stmt s' := by
  obtain ⟨_, s₁, hif, h⟩ := bind_ok.1 h
  obtain ⟨-, htake⟩ := advance_iff.1 hif
  obtain ⟨test, s₂, htest, h⟩ := bind_ok.1 h
  obtain ⟨yes, s₃, hyes, h⟩ := bind_ok.1 h
  obtain ⟨_, _, hsaved, hrest⟩ := bind_ok.1 h
  obtain ⟨rfl, rfl⟩ := get_ok.1 hsaved
  obtain ⟨_, s₄, hskip, h⟩ := bind_ok.1 hrest
  obtain ⟨b, s₅, hsemi, h⟩ := bind_ok.1 h
  obtain ⟨_, s₆, hskip', h⟩ := bind_ok.1 h
  have hread := reads_parenthesised htest
  have hread' := ih.bodyStmt hyes
  rcases accept_cases h with ⟨s₇, helse, htake', h⟩ | h
  · simp only [bind_ok, spanFrom_iff, pure_ok] at h
    obtain ⟨no, s₈, hno, _, _, ⟨rfl, rfl⟩, rfl, rfl⟩ := h
    have hskips := skipsTerminators_of_else (skips_of_skip hskip) hsemi (skips_of_skip hskip')
    exact .ifElse hkind htake hread hread' hskips helse htake' (ih.bodyStmt hno)
  · simp only [bind_ok, set_ok, spanFrom_iff, pure_ok] at h
    obtain ⟨_, _, rfl, _, _, ⟨rfl, rfl⟩, rfl, rfl⟩ := h
    exact .ifThen hkind htake hread hread'

theorem reads_doWhile (ih : StmtReads n) (hkind : s.current.kind = .do)
    (h : (do
      let _ ← advance
      let body ← bodyStmt n { context with inLoop := true }
      skipTerminators
      let _ ← expect .while "'while'"
      let test ← parenthesised n
      if !(← atTerminator) then failExpecting "';' or newline"
      return .doWhile (← spanFrom s.current) body test : Parser Stmt).run s = .ok (stmt, s')) :
    ReadsStmt (.statement context) s stmt s' := by
  obtain ⟨_, s₁, hdo, h⟩ := bind_ok.1 h
  obtain ⟨-, htake⟩ := advance_iff.1 hdo
  obtain ⟨body, s₂, hbody, h⟩ := bind_ok.1 h
  obtain ⟨_, s₃, hskip, h⟩ := bind_ok.1 h
  obtain ⟨_, s₄, hwhile, h⟩ := bind_ok.1 h
  obtain ⟨-, hwhile, htake'⟩ := expect_iff.1 hwhile
  obtain ⟨test, s₅, htest, h⟩ := bind_ok.1 h
  obtain ⟨b, _, hend, h⟩ := bind_ok.1 h
  cases atTerminator_ok hend
  obtain ⟨-, h⟩ := unless_ok failExpecting_ok h
  simp only [bind_ok, spanFrom_iff, pure_ok] at h
  obtain ⟨_, _, ⟨rfl, rfl⟩, rfl, rfl⟩ := h
  exact .doWhile hkind htake (ih.bodyStmt hbody) (skips_of_skip hskip) hwhile htake' (reads_parenthesised htest)

theorem reads_statement (ih : StmtReads n) (h : (statement (n + 1) context).run s = .ok (stmt, s')) :
    ReadsStmt (.statement context) s stmt s' := by
  simp only [statement, bind_ok (x := current), current_ok] at h
  obtain ⟨_, _, ⟨rfl, rfl⟩, h⟩ := h
  -- By the kind of the first token, in the order of the grammar.
  split at h
  · exact .ofBlock (ih.block h)
  · rename_i hkind
    exact reads_ifElse ih hkind h
  · rename_i hkind
    simp only [bind_ok, advance_iff, spanFrom_iff, pure_ok] at h
    obtain ⟨_, s₁, ⟨-, htake⟩, test, s₂, htest, body, s₃, hbody, _, _, ⟨rfl, rfl⟩, rfl, rfl⟩ := h
    exact .while hkind htake (reads_parenthesised htest) (ih.bodyStmt hbody)
  · rename_i hkind
    exact reads_doWhile ih hkind h
  · rename_i hkind
    exact ih.forStmt hkind h
  · rename_i hkind
    simp only [bind_ok, advance_iff, spanFrom_iff, pure_ok] at h
    obtain ⟨_, s₁, ⟨-, htake⟩, _, _, ⟨rfl, rfl⟩, rfl, rfl⟩ := h
    exact .empty hkind htake
  · obtain ⟨stmt', s₁, hstmt, h⟩ := bind_ok.1 h
    obtain ⟨b, _, hend, h⟩ := bind_ok.1 h
    cases atTerminator_ok hend
    obtain ⟨-, h⟩ := unless_ok failExpecting_ok h
    obtain ⟨rfl, rfl⟩ := pure_ok.1 h
    exact .ofSimple (reads_simpleStmt hstmt)

/-- Everything that the grammar of statements gives, with whatever fuel, is a reading. -/
theorem stmtReads (n : Nat) : StmtReads n := by
  induction n with
  | zero => constructor <;> intros <;> rename_i h <;> exact absurd h tooDeep_ok
  | succ n ih =>
    exact {
      block := reads_block ih
      blockBody := reads_blockBody ih
      statement := reads_statement ih
      forStmt := reads_forStmt ih
      bodyStmt := reads_bodyStmt ih }

end Awk.Parser
