import Awk.Proofs.Syntax.Parser.State
import Awk.Syntax.Parser.Expr

/-!
# Readings of expressions

The grammar of expressions as a relation: `Reads x s v s'` says that from the state `s` to the state `s'` the parser
may read `v` as the nonterminal `x`.  The loops of the parser are left recursion here, and its fuel is gone.  Whatever
the parser gives is a reading (`exprReads`), so a property of the trees is shown by induction on readings, one case
for each rule of the grammar.
-/

namespace Awk

/-- The place from a token to the last token taken. -/
def ParserState.spanFrom (s : ParserState) (token : Token) : Span :=
  { token.span with stop := max (s.lastStop.getD token.span.stop) token.span.stop }

namespace Parser

/-! ### Steps -/

/-- The current token is taken. -/
def Takes (s s' : ParserState) : Prop := advance.run s = .ok (s.current, s')

/-- The current token is what stands behind the last token taken. -/
def Fed (s : ParserState) : Prop := s.position.token = .ok (s.current, s.behind)

/-- A regular expression is taken that begins where the current token does. -/
def TakesRegex (s : ParserState) (token : Token) (s' : ParserState) : Prop := takeRegex.run s = .ok (token, s')

/-- Some tokens are taken, all of certain kinds. -/
inductive Skips (skipped : TokenKind → Bool) : ParserState → ParserState → Prop
  | refl {s} : Skips skipped s s
  | step {s s₁ s'} (hkind : skipped s.current.kind) (htake : Takes s s₁) (hrest : Skips skipped s₁ s') :
    Skips skipped s s'

abbrev SkipsNewlines : ParserState → ParserState → Prop := Skips (· == .newline)

/-! ### The grammar -/

inductive Nonterminal where
  | level (lvl : Level) (inPrint : Bool)
  /-- An operand of a comparison.  Pipes that follow it are placed from the token `start` on. -/
  | operand (inPrint : Bool) (start : Token)
  | signed (lvl : Level) (inPrint : Bool)
  | parts (inPrint : Bool)
  | lvalue
  | subscripts
  | moreItems (inPrint : Bool)
  | arguments
  | getlineTarget
  | primary

/-- What a nonterminal is read as. -/
abbrev Nonterminal.Result : Nonterminal → Type
  | level .. | operand .. | signed .. | primary => Expr
  | parts _ | moreItems _ | arguments => List Expr
  | lvalue => LValue
  | subscripts => Subscripts
  | getlineTarget => Option LValue

inductive Reads : (x : Nonterminal) → ParserState → x.Result → ParserState → Prop
  | tighter {lvl p s e s'} (h : Reads (.level lvl.tighter p) s e s') : Reads (.level lvl p) s e s'
  | assign {p s target s₁ op s₂ s₃ right s'} (hleft : Reads (.level .conditional p) s (.lvalue target) s₁)
    (hop : AssignOp.ofKind? s₁.current.kind = some op) (htake : Takes s₁ s₂) (hskip : SkipsNewlines s₂ s₃)
    (hright : Reads (.level .assignment p) s₃ right s') :
    Reads (.level .assignment p) s (.assign (s'.spanFrom s.current) target op s₁.current right) s'
  | conditional {p s test s₁ s₂ s₃ yes s₄ s₅ s₆ s₇ no s'} (htest : Reads (.level .disjunction p) s test s₁)
    (hmark : s₁.current.kind = .qmark) (htake : Takes s₁ s₂) (hskip : SkipsNewlines s₂ s₃)
    (hyes : Reads (.level .assignment p) s₃ yes s₄) (hskip' : SkipsNewlines s₄ s₅) (hcolon : s₅.current.kind = .colon)
    (htake' : Takes s₅ s₆) (hskip'' : SkipsNewlines s₆ s₇) (hno : Reads (.level .assignment p) s₇ no s') :
    Reads (.level .conditional p) s (.conditional (s'.spanFrom s.current) test yes no) s'
  | disjunction {p s left s₁ s₂ s₃ right s'} (hleft : Reads (.level .disjunction p) s left s₁)
    (hkind : s₁.current.kind = .or) (htake : Takes s₁ s₂) (hskip : SkipsNewlines s₂ s₃)
    (hright : Reads (.level .conjunction p) s₃ right s') :
    Reads (.level .disjunction p) s (.logical (s'.spanFrom s.current) .or left right) s'
  | conjunction {p s left s₁ s₂ s₃ right s'} (hleft : Reads (.level .conjunction p) s left s₁)
    (hkind : s₁.current.kind = .and) (htake : Takes s₁ s₂) (hskip : SkipsNewlines s₂ s₃)
    (hright : Reads (.level .membership p) s₃ right s') :
    Reads (.level .conjunction p) s (.logical (s'.spanFrom s.current) .and left right) s'
  | membership {p s left s₁ s₂ s'} (hleft : Reads (.level .membership p) s left s₁) (hkind : s₁.current.kind = .in)
    (htake : Takes s₁ s₂) (hname : s₂.current.kind = .name) (htake' : Takes s₂ s') :
    Reads (.level .membership p) s (.member (s'.spanFrom s.current) [left] none s₂.current) s'
  | matching {p s left s₁ negated s₂ right s'} (hleft : Reads (.level .matching p) s left s₁)
    (hkind : s₁.current.kind = if negated then .noMatch else .tilde) (htake : Takes s₁ s₂)
    (hright : Reads (.level .comparison p) s₂ right s') :
    Reads (.level .matching p) s (.matching (s'.spanFrom s.current) left negated s₁.current right) s'
  | uncompared {p s e s'} (h : Reads (.operand p s.current) s e s') : Reads (.level .comparison p) s e s'
  | compare {p s left s₁ op s₂ right s'} (hleft : Reads (.operand p s.current) s left s₁)
    (hop : CompareOp.ofKind? s₁.current.kind = some op) (hprint : ¬(p = true ∧ op = .gt)) (htake : Takes s₁ s₂)
    (hright : Reads (.operand p s.current) s₂ right s') :
    Reads (.level .comparison p) s (.compare (s'.spanFrom s.current) left op s₁.current right) s'
  | unpiped {p start s e s'} (h : Reads (.level .concatenation p) s e s') : Reads (.operand p start) s e s'
  | pipe {start s command s₁ s₂ s₃ target s'} (hcommand : Reads (.operand false start) s command s₁)
    (hpipe : s₁.current.kind = .pipe) (htake : Takes s₁ s₂) (hgetline : s₂.current.kind = .getline)
    (htake' : Takes s₂ s₃) (htarget : Reads .getlineTarget s₃ target s') :
    Reads (.operand false start) s (.getlineCommand (s'.spanFrom start) command target) s'
  | concat {p s first s₁ part more s'} (hfirst : Reads (.level .sum p) s first s₁)
    (hmore : Reads (.parts p) s₁ (part :: more) s') :
    Reads (.level .concatenation p) s (.concat (s'.spanFrom s.current) (first :: part :: more)) s'
  | noParts {p s} : Reads (.parts p) s [] s
  | parts {p s part s₁ more s'} (hstart : startsPart s.current.kind = true) (hpart : Reads (.level .sum p) s part s₁)
    (hmore : Reads (.parts p) s₁ more s') : Reads (.parts p) s (part :: more) s'
  | sum {p s left s₁ op s₂ right s'} (hleft : Reads (.level .sum p) s left s₁)
    (hop : ArithOp.sum? s₁.current.kind = some op) (htake : Takes s₁ s₂)
    (hright : Reads (.level .product p) s₂ right s') :
    Reads (.level .sum p) s (.arith (s'.spanFrom s.current) left op s₁.current right) s'
  | product {p s left s₁ op s₂ right s'} (hleft : Reads (.level .product p) s left s₁)
    (hop : ArithOp.product? s₁.current.kind = some op) (htake : Takes s₁ s₂)
    (hright : Reads (.level .sign p) s₂ right s') :
    Reads (.level .product p) s (.arith (s'.spanFrom s.current) left op s₁.current right) s'
  | sign {p s e s'} (h : Reads (.signed .power p) s e s') : Reads (.level .sign p) s e s'
  | unsigned {lvl p s e s'} (h : Reads (.level lvl p) s e s') : Reads (.signed lvl p) s e s'
  | signed {lvl p s op s₁ operand s'} (hop : SignOp.ofKind? s.current.kind = some op) (htake : Takes s s₁)
    (hoperand : Reads (.signed lvl p) s₁ operand s') :
    Reads (.signed lvl p) s (.sign (s'.spanFrom s.current) op s.current operand) s'
  | power {p s base s₁ s₂ exponent s'} (hbase : Reads (.level .step p) s base s₁) (hkind : s₁.current.kind = .pow)
    (htake : Takes s₁ s₂) (hexponent : Reads (.signed .power p) s₂ exponent s') :
    Reads (.level .power p) s (.power (s'.spanFrom s.current) base exponent) s'
  | preStep {p s op s₁ target s'} (hop : StepOp.ofKind? s.current.kind = some op) (htake : Takes s s₁)
    (htarget : Reads .lvalue s₁ target s') :
    Reads (.level .step p) s (.preStep (s'.spanFrom s.current) op s.current target) s'
  | postStep {p s target s₁ op s'} (htarget : Reads (.level .primary p) s (.lvalue target) s₁)
    (hop : StepOp.ofKind? s₁.current.kind = some op) (htake : Takes s₁ s') :
    Reads (.level .step p) s (.postStep (s'.spanFrom s.current) target op s₁.current) s'
  | primary {p s e s'} (h : Reads .primary s e s') : Reads (.level .primary p) s e s'
  | number {s s'} (hkind : s.current.kind = .number) (htake : Takes s s') : Reads .primary s (.number s.current) s'
  | string {s s'} (hkind : s.current.kind = .string) (htake : Takes s s') : Reads .primary s (.string s.current) s'
  | regex {s token s'} (hkind : s.current.kind = .slash ∨ s.current.kind = .divAssign)
    (htake : TakesRegex s token s') : Reads .primary s (.regex token) s'
  | lvalue {s target s'} (h : Reads .lvalue s target s') : Reads .primary s (.lvalue target) s'
  | call {s s₁ s₂ args s'} (hkind : s.current.kind = .funcName) (htake : Takes s s₁) (hopen : s₁.current.kind = .lpar)
    (htake' : Takes s₁ s₂) (hargs : Reads .arguments s₂ args s') :
    Reads .primary s (.call (s'.spanFrom s.current) s.current args)
      { s' with calls := (s.current, args.length) :: s'.calls }
  | builtin {s b s₁ s₂ args s'} (hkind : s.current.kind = .builtin b) (htake : Takes s s₁)
    (hopen : s₁.current.kind = .lpar) (htake' : Takes s₁ s₂) (hargs : Reads .arguments s₂ args s') :
    Reads .primary s (.builtin (s'.spanFrom s.current) b s.current args) s'
  | bareLength {s s'} (hkind : s.current.kind = .builtin .length) (htake : Takes s s') :
    Reads .primary s (.builtin (s'.spanFrom s.current) .length s.current []) s'
  | getline {s s₁ target s'} (hkind : s.current.kind = .getline) (htake : Takes s s₁)
    (htarget : Reads .getlineTarget s₁ target s') : Reads .primary s (.getline (s'.spanFrom s.current) target) s'
  | getlineFile {s s₁ target s₂ s₃ file s'} (hkind : s.current.kind = .getline) (htake : Takes s s₁)
    (htarget : Reads .getlineTarget s₁ target s₂) (hfrom : s₂.current.kind = .lt) (htake' : Takes s₂ s₃)
    (hfile : Reads (.level .step false) s₃ file s') :
    Reads .primary s (.getlineFile (s'.spanFrom s.current) target file) s'
  | group {s s₁ inner s₂ s'} (hopen : s.current.kind = .lpar) (htake : Takes s s₁)
    (hinner : Reads (.level .assignment false) s₁ inner s₂) (hclose : s₂.current.kind = .rpar) (htake' : Takes s₂ s') :
    Reads .primary s (.group (s'.spanFrom s.current) inner) s'
  | members {s s₁ first s₂ second more s₃ s₄ s₅ s'} (hopen : s.current.kind = .lpar) (htake : Takes s s₁)
    (hfirst : Reads (.level .assignment false) s₁ first s₂)
    (hmore : Reads (.moreItems false) s₂ (second :: more) s₃) (hclose : s₃.current.kind = .rpar)
    (htake₁ : Takes s₃ s₄) (hin : s₄.current.kind = .in) (htake₂ : Takes s₄ s₅) (hname : s₅.current.kind = .name)
    (htake₃ : Takes s₅ s') :
    Reads .primary s
      (.member (s'.spanFrom s.current) (first :: second :: more)
        (some { s.current.span with stop := s₃.current.span.stop }) s₅.current) s'
  | field {s s₁ index s'} (hkind : s.current.kind = .dollar) (htake : Takes s s₁)
    (hindex : Reads (.signed .primary false) s₁ index s') : Reads .lvalue s (.field (s'.spanFrom s.current) index) s'
  | fieldStep {s s₁ op s₂ target s'} (hkind : s.current.kind = .dollar) (htake : Takes s s₁)
    (hop : StepOp.ofKind? s₁.current.kind = some op) (htake' : Takes s₁ s₂) (htarget : Reads .lvalue s₂ target s') :
    Reads .lvalue s
      (.field (s'.spanFrom s.current) (.preStep (s'.spanFrom s₁.current) op s₁.current target)) s'
  | name {s s'} (hkind : s.current.kind = .name) (htake : Takes s s') : Reads .lvalue s (.var s.current) s'
  | element {s s₁ s₂ subs s'} (hkind : s.current.kind = .name) (htake : Takes s s₁) (hopen : s₁.current.kind = .lsqb)
    (htake' : Takes s₁ s₂) (hsubs : Reads .subscripts s₂ subs s') :
    Reads .lvalue s (.index (s'.spanFrom s.current) s.current subs.items subs.span) s'
  | subscripts {s first s₁ more s₂ s'} (hfirst : Reads (.level .assignment false) s first s₁)
    (hmore : Reads (.moreItems false) s₁ more s₂) (hclose : s₂.current.kind = .rsqb) (htake : Takes s₂ s') :
    Reads .subscripts s ⟨s'.spanFrom s.current, first :: more⟩ s'
  | noItems {p s} : Reads (.moreItems p) s [] s
  | moreItems {p s s₁ s₂ e s₃ more s'} (hcomma : s.current.kind = .comma) (htake : Takes s s₁)
    (hskip : SkipsNewlines s₁ s₂) (he : Reads (.level .assignment p) s₂ e s₃)
    (hmore : Reads (.moreItems p) s₃ more s') : Reads (.moreItems p) s (e :: more) s'
  | noArguments {s s₁ s'} (hskip : SkipsNewlines s s₁) (hclose : s₁.current.kind = .rpar) (htake : Takes s₁ s') :
    Reads .arguments s [] s'
  | arguments {s s₁ first s₂ more s₃ s₄ s'} (hskip : SkipsNewlines s s₁)
    (hfirst : Reads (.level .assignment false) s₁ first s₂) (hmore : Reads (.moreItems false) s₂ more s₃)
    (hskip' : SkipsNewlines s₃ s₄) (hclose : s₄.current.kind = .rpar) (htake : Takes s₄ s') :
    Reads .arguments s (first :: more) s'
  | noTarget {s} : Reads .getlineTarget s none s
  | someTarget {s target s'} (h : Reads .lvalue s target s') : Reads .getlineTarget s (some target) s'

/-! ### What the steps of the parser come to -/

variable {s s' : ParserState}

theorem advance_iff {token : Token} : advance.run s = .ok (token, s') ↔ token = s.current ∧ Takes s s' := by
  constructor
  · intro h
    obtain ⟨rfl, -⟩ := advance_ok h
    exact ⟨rfl, h⟩
  · rintro ⟨rfl, h⟩
    exact h

theorem expect_iff {k : TokenKind} {construct : String} {token : Token} :
    (expect k construct).run s = .ok (token, s') ↔ token = s.current ∧ s.current.kind = k ∧ Takes s s' := by
  simp only [expect, bind_ok, kind_ok]
  by_cases hkind : s.current.kind = k
  · constructor
    · rintro ⟨_, _, ⟨rfl, rfl⟩, h⟩
      rw [if_pos hkind] at h
      obtain ⟨rfl, htake⟩ := advance_iff.1 h
      exact ⟨rfl, hkind, htake⟩
    · rintro ⟨rfl, -, htake⟩
      refine ⟨_, _, ⟨rfl, rfl⟩, ?_⟩
      rw [if_pos hkind]
      exact htake
  · constructor
    · rintro ⟨_, _, ⟨rfl, rfl⟩, h⟩
      rw [if_neg hkind] at h
      exact absurd h failExpecting_ok
    · rintro ⟨-, h, -⟩
      exact absurd h hkind

theorem accept_iff {k : TokenKind} {b : Bool} :
    (accept k).run s = .ok (b, s') ↔
      if s.current.kind = k then b = true ∧ Takes s s' else b = false ∧ s' = s := by
  simp only [accept, bind_ok, kind_ok]
  by_cases hkind : s.current.kind = k
  · rw [if_pos hkind]
    constructor
    · rintro ⟨_, _, ⟨rfl, rfl⟩, h⟩
      rw [if_pos hkind] at h
      simp only [bind_ok, pure_ok, advance_iff] at h
      obtain ⟨_, _, ⟨-, htake⟩, rfl, rfl⟩ := h
      exact ⟨rfl, htake⟩
    · rintro ⟨rfl, htake⟩
      refine ⟨_, _, ⟨rfl, rfl⟩, ?_⟩
      rw [if_pos hkind]
      exact bind_ok.2 ⟨_, _, advance_iff.2 ⟨rfl, htake⟩, pure_ok.2 ⟨rfl, rfl⟩⟩
  · rw [if_neg hkind]
    constructor
    · rintro ⟨_, _, ⟨rfl, rfl⟩, h⟩
      rw [if_neg hkind] at h
      exact pure_ok.1 h
    · intro h
      refine ⟨_, _, ⟨rfl, rfl⟩, ?_⟩
      rw [if_neg hkind]
      exact pure_ok.2 h

/-- Accepting a token takes it and goes on in one way, or goes on in the other way. -/
theorem accept_cases {α : Type} {k : TokenKind} {yes no : Parser α} {a : α}
    (h : (do if ← accept k then yes else no).run s = .ok (a, s')) :
    (∃ s₁, s.current.kind = k ∧ Takes s s₁ ∧ yes.run s₁ = .ok (a, s')) ∨ no.run s = .ok (a, s') := by
  obtain ⟨b, s₁, haccept, hnext⟩ := bind_ok.1 h
  rw [accept_iff] at haccept
  by_cases hkind : s.current.kind = k
  · rw [if_pos hkind] at haccept
    obtain ⟨rfl, htake⟩ := haccept
    exact .inl ⟨s₁, hkind, htake, hnext⟩
  · rw [if_neg hkind] at haccept
    obtain ⟨rfl, rfl⟩ := haccept
    exact .inr hnext

theorem skips_of_skipFuel {skipped : TokenKind → Bool} {fuel : Nat} {u : Unit}
    (h : (skipFuel skipped fuel).run s = .ok (u, s')) : Skips skipped s s' := by
  induction fuel generalizing s with
  | zero =>
    obtain ⟨-, rfl⟩ := pure_ok.1 h
    exact .refl
  | succ fuel ih =>
    simp only [skipFuel, bind_ok, kind_ok] at h
    obtain ⟨_, _, ⟨rfl, rfl⟩, h⟩ := h
    split at h
    · rename_i hkind
      simp only [bind_ok, advance_iff] at h
      obtain ⟨_, s₂, ⟨-, htake⟩, h⟩ := h
      exact .step hkind htake (ih h)
    · obtain ⟨-, rfl⟩ := pure_ok.1 h
      exact .refl

theorem skips_of_skip {skipped : TokenKind → Bool} {u : Unit} (h : (skip skipped).run s = .ok (u, s')) :
    Skips skipped s s' := by
  obtain ⟨_, _, hget, hloop⟩ := bind_ok.1 h
  obtain ⟨rfl, rfl⟩ := get_ok.1 hget
  exact skips_of_skipFuel hloop

theorem spanFrom_iff {token : Token} {span : Span} :
    (spanFrom token).run s = .ok (span, s') ↔ span = s.spanFrom token ∧ s' = s := by
  simp only [spanFrom, bind_ok, get_ok, pure_ok]
  constructor
  · rintro ⟨_, _, ⟨rfl, rfl⟩, rfl, rfl⟩
    exact ⟨rfl, rfl⟩
  · rintro ⟨rfl, rfl⟩
    exact ⟨_, _, ⟨rfl, rfl⟩, rfl, rfl⟩

theorem moveTo_iff {position : Cursor} {lastStop : Option Nat} {u : Unit} :
    (moveTo position lastStop).run s = .ok (u, s') ↔ ∃ token behind, position.token = .ok (token, behind) ∧
      s' = { s with position := position, current := token, behind := behind, lastStop := lastStop } := by
  simp only [moveTo, bind_ok, lift_ok, modify_ok]
  constructor
  · rintro ⟨⟨token, behind⟩, _, ⟨htoken, rfl⟩, rfl⟩
    exact ⟨token, behind, htoken, rfl⟩
  · rintro ⟨token, behind, htoken, rfl⟩
    exact ⟨(token, behind), s, ⟨htoken, rfl⟩, rfl⟩

/-- A token is taken when the one that follows it can be read. -/
theorem takes_iff : Takes s s' ↔ ∃ token behind, s.behind.token = .ok (token, behind) ∧
    s' = { s with
      position := s.behind, current := token, behind := behind, lastStop := some s.current.span.stop } := by
  simp only [Takes, advance, bind_ok, get_ok, moveTo_iff, pure_ok]
  constructor
  · rintro ⟨_, _, ⟨rfl, rfl⟩, _, _, hmove, -, rfl⟩
    exact hmove
  · intro hmove
    exact ⟨s, s, ⟨rfl, rfl⟩, ⟨⟩, s', hmove, rfl, rfl⟩

theorem takesRegex_iff {token : Token} : TakesRegex s token s' ↔ ∃ stop next behind,
    s.position.regex = .ok (token, stop) ∧ stop.token = .ok (next, behind) ∧
      s' = { s with
        position := stop, current := next, behind := behind, lastStop := some token.span.stop } := by
  simp only [TakesRegex, takeRegex, bind_ok, get_ok, lift_ok, moveTo_iff, pure_ok]
  constructor
  · rintro ⟨_, _, ⟨rfl, rfl⟩, ⟨token, stop⟩, _, ⟨hregex, rfl⟩, _, _, ⟨next, behind, hnext, rfl⟩, rfl, rfl⟩
    exact ⟨stop, next, behind, hregex, hnext, rfl⟩
  · rintro ⟨stop, next, behind, hregex, hnext, rfl⟩
    exact ⟨s, s, ⟨rfl, rfl⟩, (token, stop), s, ⟨hregex, rfl⟩, ⟨⟩, _, ⟨next, behind, hnext, rfl⟩, rfl, rfl⟩

/-- What is seen by looking ahead is what comes next. -/
theorem Takes.current_eq {token : Token} {behind : Cursor} (h : Takes s s')
    (htoken : s.behind.token = .ok (token, behind)) : s'.current = token ∧ s'.behind = behind := by
  obtain ⟨token', behind', htoken', rfl⟩ := takes_iff.1 h
  rw [htoken] at htoken'
  cases htoken'
  exact ⟨rfl, rfl⟩

/-- Looking ahead takes nothing, and what is seen is the kind of the token that comes next. -/
theorem nextKind_next {k : TokenKind} (h : nextKind.run s = .ok (k, s')) :
    s' = s ∧ ∀ {s₁}, Takes s s₁ → s₁.current.kind = k := by
  simp only [nextKind, bind_ok, get_ok, lift_ok, pure_ok] at h
  obtain ⟨_, _, ⟨rfl, rfl⟩, ⟨token, behind⟩, _, ⟨htoken, rfl⟩, rfl, rfl⟩ := h
  refine ⟨rfl, fun htake => ?_⟩
  rw [(htake.current_eq htoken).1]

theorem tooDeep_ok {α : Type} {a : α} : ¬(do failAt .tooDeep (← current) : Parser α).run s = .ok (a, s') := by
  intro h
  obtain ⟨_, _, -, h⟩ := bind_ok.1 h
  exact failAt_ok h

/-! ### Whatever the parser gives is a reading -/

/-- What the functions of the grammar give with a fuel is a reading.  A chain, and a row of pipes, extends a reading
that began at an earlier state. -/
structure ExprReads (n : Nat) : Prop where
  level : ∀ {lvl p s e s'}, (level n lvl p).run s = .ok (e, s') → Reads (.level lvl p) s e s'
  chain : ∀ {lvl p s left s₁ e s'}, Reads (.level lvl p) s left s₁ →
    (chain n lvl p s.current left).run s₁ = .ok (e, s') → Reads (.level lvl p) s e s'
  signed : ∀ {lvl p s e s'}, (signed n lvl p).run s = .ok (e, s') → Reads (.signed lvl p) s e s'
  parts : ∀ {p s es s'}, (parts n p).run s = .ok (es, s') → Reads (.parts p) s es s'
  pipes : ∀ {start s command s₁ e s'}, Reads (.operand false start) s command s₁ →
    (pipes n start command).run s₁ = .ok (e, s') → Reads (.operand false start) s e s'
  lvalue : ∀ {s target s'}, (lvalue n).run s = .ok (target, s') → Reads .lvalue s target s'
  field : ∀ {s target s'}, s.current.kind = .dollar → (field n).run s = .ok (target, s') → Reads .lvalue s target s'
  name : ∀ {s target s'}, (name n).run s = .ok (target, s') → Reads .lvalue s target s'
  subscripts : ∀ {s subs s'}, (subscripts n).run s = .ok (subs, s') → Reads .subscripts s subs s'
  moreItems : ∀ {p s es s'}, (moreItems n p).run s = .ok (es, s') → Reads (.moreItems p) s es s'
  arguments : ∀ {s es s'}, (arguments n).run s = .ok (es, s') → Reads .arguments s es s'
  getlineTarget : ∀ {s target s'}, (getlineTarget n).run s = .ok (target, s') → Reads .getlineTarget s target s'
  primary : ∀ {s e s'}, (primary n).run s = .ok (e, s') → Reads .primary s e s'

variable {n : Nat} {p : Bool} {e : Expr} {es : List Expr} {target : LValue}

theorem eq_of_asLValue? (h : e.asLValue? = some target) : e = .lvalue target := by
  cases e with
  | lvalue target' =>
    cases h
    rfl
  | _ => cases h

section Levels

-- The lemmas of this section open `level`, whose equations take long to make and are made here for all of them.
attribute [local simp] level

theorem reads_assignment (ih : ExprReads n) (h : (level (n + 1) .assignment p).run s = .ok (e, s')) :
    Reads (.level .assignment p) s e s' := by
  simp only [level, bind_ok, current_ok, kind_ok] at h
  obtain ⟨_, _, ⟨rfl, rfl⟩, left, s₁, hleft, _, _, ⟨rfl, rfl⟩, h⟩ := h
  have hread := ih.level hleft
  split at h
  · rename_i op target hop htarget
    obtain rfl := eq_of_asLValue? htarget
    simp only [bind_ok, advance_iff, pure_ok, spanFrom_iff] at h
    obtain ⟨_, s₂, ⟨rfl, htake⟩, _, s₃, hskip, right, s₄, hright, _, _, ⟨rfl, rfl⟩, rfl, rfl⟩ := h
    exact .assign hread hop htake (skips_of_skip hskip) (ih.level hright)
  · obtain ⟨rfl, rfl⟩ := pure_ok.1 h
    exact .tighter hread

theorem reads_conditional (ih : ExprReads n) (h : (level (n + 1) .conditional p).run s = .ok (e, s')) :
    Reads (.level .conditional p) s e s' := by
  simp only [level, bind_ok (x := current), current_ok] at h
  obtain ⟨_, _, ⟨rfl, rfl⟩, h⟩ := h
  obtain ⟨test, s₁, htest, h⟩ := bind_ok.1 h
  have hread := ih.level htest
  rcases accept_cases h with ⟨s₂, hmark, htake, h⟩ | h
  · simp only [bind_ok, expect_iff, pure_ok, spanFrom_iff] at h
    obtain ⟨_, s₃, hskip, yes, s₄, hyes, _, s₅, hskip', _, s₆, ⟨-, hcolon, htake'⟩, _, s₇, hskip'', no, s₈, hno, _, _,
      ⟨rfl, rfl⟩, rfl, rfl⟩ := h
    exact .conditional hread hmark htake (skips_of_skip hskip) (ih.level hyes) (skips_of_skip hskip') hcolon htake'
      (skips_of_skip hskip'') (ih.level hno)
  · obtain ⟨rfl, rfl⟩ := pure_ok.1 h
    exact .tighter hread

/-- Outside a print statement pipes may follow an operand, and in either case the parser goes on in the same way. -/
theorem reads_operand (ih : ExprReads n) {start : Token} {left : Expr} {s₁ : ParserState}
    (hleft : Reads (.level .concatenation p) s left s₁) {α : Type} {next : Expr → Parser α} {a : α}
    (h : (if p then pure left >>= next else pipes n start left >>= next).run s₁ = .ok (a, s')) :
    ∃ e s₂, Reads (.operand p start) s e s₂ ∧ (next e).run s₂ = .ok (a, s') := by
  cases p with
  | true =>
    simp only [if_pos, bind_ok, pure_ok] at h
    obtain ⟨_, _, ⟨rfl, rfl⟩, h⟩ := h
    exact ⟨_, _, .unpiped hleft, h⟩
  | false =>
    rw [if_neg Bool.false_ne_true] at h
    obtain ⟨e, s₂, hpipes, h⟩ := bind_ok.1 h
    exact ⟨e, s₂, ih.pipes (.unpiped hleft) hpipes, h⟩

theorem reads_comparison (ih : ExprReads n) (h : (level (n + 1) .comparison p).run s = .ok (e, s')) :
    Reads (.level .comparison p) s e s' := by
  simp only [level, bind_ok (x := current), current_ok] at h
  obtain ⟨_, _, ⟨rfl, rfl⟩, h⟩ := h
  obtain ⟨first, s₁, hfirst, h⟩ := bind_ok.1 h
  obtain ⟨left, s₂, hleft, h⟩ := reads_operand ih (ih.level hfirst) h
  simp only [bind_ok (x := kind), kind_ok] at h
  obtain ⟨_, _, ⟨rfl, rfl⟩, h⟩ := h
  split at h
  · rename_i op hop
    split at h
    · obtain ⟨rfl, rfl⟩ := pure_ok.1 h
      exact .uncompared hleft
    · rename_i hprint
      simp only [Bool.and_eq_true, decide_eq_true_eq] at hprint
      obtain ⟨_, s₃, htoken, h⟩ := bind_ok.1 h
      obtain ⟨rfl, htake⟩ := advance_iff.1 htoken
      obtain ⟨second, s₄, hsecond, h⟩ := bind_ok.1 h
      obtain ⟨right, s₅, hright, h⟩ := reads_operand ih (ih.level hsecond) h
      simp only [bind_ok, spanFrom_iff, pure_ok] at h
      obtain ⟨_, _, ⟨rfl, rfl⟩, rfl, rfl⟩ := h
      exact .compare hleft hop hprint htake hright
  · obtain ⟨rfl, rfl⟩ := pure_ok.1 h
    exact .uncompared hleft

theorem reads_concatenation (ih : ExprReads n) (h : (level (n + 1) .concatenation p).run s = .ok (e, s')) :
    Reads (.level .concatenation p) s e s' := by
  simp only [level, bind_ok, current_ok] at h
  obtain ⟨_, _, ⟨rfl, rfl⟩, first, s₁, hfirst, more, s₂, hmore, h⟩ := h
  have hread := ih.level hfirst
  split at h
  · obtain ⟨rfl, rfl⟩ := pure_ok.1 h
    cases ih.parts hmore
    exact .tighter hread
  · rename_i hne
    simp only [bind_ok, spanFrom_iff, pure_ok] at h
    obtain ⟨_, _, ⟨rfl, rfl⟩, rfl, rfl⟩ := h
    obtain ⟨part, more, rfl⟩ := List.exists_cons_of_ne_nil hne
    exact .concat hread (ih.parts hmore)

theorem reads_power (ih : ExprReads n) (h : (level (n + 1) .power p).run s = .ok (e, s')) :
    Reads (.level .power p) s e s' := by
  simp only [level, bind_ok (x := current), current_ok] at h
  obtain ⟨_, _, ⟨rfl, rfl⟩, h⟩ := h
  obtain ⟨base, s₁, hbase, h⟩ := bind_ok.1 h
  have hread := ih.level hbase
  rcases accept_cases h with ⟨s₂, hkind, htake, h⟩ | h
  · simp only [bind_ok, spanFrom_iff, pure_ok] at h
    obtain ⟨exponent, s₃, hexponent, _, _, ⟨rfl, rfl⟩, rfl, rfl⟩ := h
    exact .power hread hkind htake (ih.signed hexponent)
  · obtain ⟨rfl, rfl⟩ := pure_ok.1 h
    exact .tighter hread

theorem reads_step (ih : ExprReads n) (h : (level (n + 1) .step p).run s = .ok (e, s')) :
    Reads (.level .step p) s e s' := by
  simp only [level, bind_ok (x := current), current_ok] at h
  obtain ⟨_, _, ⟨rfl, rfl⟩, h⟩ := h
  split at h
  · rename_i op hop
    simp only [bind_ok, advance_iff, spanFrom_iff, pure_ok] at h
    obtain ⟨_, s₁, ⟨rfl, htake⟩, target, s₂, htarget, _, _, ⟨rfl, rfl⟩, rfl, rfl⟩ := h
    exact .preStep hop htake (ih.lvalue htarget)
  · simp only [bind_ok, kind_ok] at h
    obtain ⟨operand, s₁, hoperand, _, _, ⟨rfl, rfl⟩, h⟩ := h
    have hread := ih.level hoperand
    split at h
    · rename_i target op htarget hop
      obtain rfl := eq_of_asLValue? htarget
      simp only [bind_ok, advance_iff, spanFrom_iff, pure_ok] at h
      obtain ⟨_, s₂, ⟨rfl, htake⟩, _, _, ⟨rfl, rfl⟩, rfl, rfl⟩ := h
      exact .postStep hread hop htake
    · obtain ⟨rfl, rfl⟩ := pure_ok.1 h
      exact .tighter hread

end Levels

/-- The levels whose operators associate to the left. -/
theorem reads_chain_start (ih : ExprReads n) {lvl : Level}
    (h : (do
      let start ← current
      let left ← level n lvl.tighter p
      chain n lvl p start left : Parser Expr).run s = .ok (e, s')) : Reads (.level lvl p) s e s' := by
  simp only [bind_ok, current_ok] at h
  obtain ⟨_, _, ⟨rfl, rfl⟩, left, s₁, hleft, h⟩ := h
  exact ih.chain (.tighter (ih.level hleft)) h

theorem reads_level (ih : ExprReads n) {lvl : Level} (h : (level (n + 1) lvl p).run s = .ok (e, s')) :
    Reads (.level lvl p) s e s' := by
  cases lvl with
  | assignment => exact reads_assignment ih h
  | conditional => exact reads_conditional ih h
  | comparison => exact reads_comparison ih h
  | concatenation => exact reads_concatenation ih h
  | sign => exact .sign (ih.signed h)
  | power => exact reads_power ih h
  | step => exact reads_step ih h
  | primary => exact .primary (ih.primary h)
  | _ => exact reads_chain_start ih h

/-- What one round of a chain makes of two operands is read from where the first of them begins. -/
theorem reads_chain (ih : ExprReads n) {lvl : Level} {left : Expr} {s₁ : ParserState}
    (hleft : Reads (.level lvl p) s left s₁) (h : (chain (n + 1) lvl p s.current left).run s₁ = .ok (e, s')) :
    Reads (.level lvl p) s e s' := by
  simp only [chain, bind_ok (x := kind), kind_ok] at h
  obtain ⟨_, _, ⟨rfl, rfl⟩, h⟩ := h
  -- By level, and by the operator that goes on with it; without one the chain ends.
  split at h
  · rename_i hkind
    simp only [bind_ok, advance_iff, spanFrom_iff] at h
    obtain ⟨_, s₂, ⟨-, htake⟩, _, s₃, hskip, right, s₄, hright, _, _, ⟨rfl, rfl⟩, h⟩ := h
    exact ih.chain (.disjunction hleft hkind htake (skips_of_skip hskip) (ih.level hright)) h
  · rename_i hkind
    simp only [bind_ok, advance_iff, spanFrom_iff] at h
    obtain ⟨_, s₂, ⟨-, htake⟩, _, s₃, hskip, right, s₄, hright, _, _, ⟨rfl, rfl⟩, h⟩ := h
    exact ih.chain (.conjunction hleft hkind htake (skips_of_skip hskip) (ih.level hright)) h
  · rename_i hkind
    simp only [bind_ok, advance_iff, expect_iff, spanFrom_iff] at h
    obtain ⟨_, s₂, ⟨-, htake⟩, _, s₃, ⟨rfl, hname, htake'⟩, _, _, ⟨rfl, rfl⟩, h⟩ := h
    exact ih.chain (.membership hleft hkind htake hname htake') h
  · rename_i hkind
    simp only [bind_ok, advance_iff, spanFrom_iff] at h
    obtain ⟨_, s₂, ⟨rfl, htake⟩, right, s₃, hright, _, _, ⟨rfl, rfl⟩, h⟩ := h
    have hmark : _ = if false then TokenKind.noMatch else .tilde := hkind
    exact ih.chain (.matching hleft hmark htake (ih.level hright)) h
  · rename_i hkind
    simp only [bind_ok, advance_iff, spanFrom_iff] at h
    obtain ⟨_, s₂, ⟨rfl, htake⟩, right, s₃, hright, _, _, ⟨rfl, rfl⟩, h⟩ := h
    have hmark : _ = if true then TokenKind.noMatch else .tilde := hkind
    exact ih.chain (.matching hleft hmark htake (ih.level hright)) h
  · split at h
    · rename_i op hop
      simp only [bind_ok, advance_iff, spanFrom_iff] at h
      obtain ⟨_, s₂, ⟨rfl, htake⟩, right, s₃, hright, _, _, ⟨rfl, rfl⟩, h⟩ := h
      exact ih.chain (.sum hleft hop htake (ih.level hright)) h
    · obtain ⟨rfl, rfl⟩ := pure_ok.1 h
      exact hleft
  · split at h
    · rename_i op hop
      simp only [bind_ok, advance_iff, spanFrom_iff] at h
      obtain ⟨_, s₂, ⟨rfl, htake⟩, right, s₃, hright, _, _, ⟨rfl, rfl⟩, h⟩ := h
      exact ih.chain (.product hleft hop htake (ih.level hright)) h
    · obtain ⟨rfl, rfl⟩ := pure_ok.1 h
      exact hleft
  · obtain ⟨rfl, rfl⟩ := pure_ok.1 h
    exact hleft

theorem reads_signed (ih : ExprReads n) {lvl : Level} (h : (signed (n + 1) lvl p).run s = .ok (e, s')) :
    Reads (.signed lvl p) s e s' := by
  simp only [signed, bind_ok (x := current), current_ok] at h
  obtain ⟨_, _, ⟨rfl, rfl⟩, h⟩ := h
  split at h
  · rename_i op hop
    simp only [bind_ok, advance_iff, spanFrom_iff, pure_ok] at h
    obtain ⟨_, s₁, ⟨rfl, htake⟩, operand, s₂, hoperand, _, _, ⟨rfl, rfl⟩, rfl, rfl⟩ := h
    exact .signed hop htake (ih.signed hoperand)
  · exact .unsigned (ih.level h)

theorem reads_parts (ih : ExprReads n) (h : (parts (n + 1) p).run s = .ok (es, s')) : Reads (.parts p) s es s' := by
  simp only [parts, bind_ok (x := kind), kind_ok] at h
  obtain ⟨_, _, ⟨rfl, rfl⟩, h⟩ := h
  split at h
  · rename_i hstart
    simp only [bind_ok, pure_ok] at h
    obtain ⟨part, s₁, hpart, more, s₂, hmore, rfl, rfl⟩ := h
    exact .parts hstart (ih.level hpart) (ih.parts hmore)
  · obtain ⟨rfl, rfl⟩ := pure_ok.1 h
    exact .noParts

theorem reads_pipes (ih : ExprReads n) {start : Token} {command : Expr} {s₁ : ParserState}
    (hcommand : Reads (.operand false start) s command s₁)
    (h : (pipes (n + 1) start command).run s₁ = .ok (e, s')) : Reads (.operand false start) s e s' := by
  simp only [pipes, bind_ok (x := kind), kind_ok] at h
  obtain ⟨_, _, ⟨rfl, rfl⟩, h⟩ := h
  split at h
  · rename_i hpipe
    obtain ⟨k, s₂, hnext, hrest⟩ := bind_ok.1 h
    obtain ⟨rfl, hk⟩ := nextKind_next hnext
    split at hrest
    · rename_i hgetline
      simp only [bind_ok, advance_iff, spanFrom_iff] at hrest
      obtain ⟨_, s₃, ⟨-, htake⟩, _, s₄, ⟨-, htake'⟩, target, s₅, htarget, _, _, ⟨rfl, rfl⟩, h⟩ := hrest
      exact ih.pipes (.pipe hcommand hpipe htake ((hk htake).trans hgetline) htake' (ih.getlineTarget htarget)) h
    · obtain ⟨rfl, rfl⟩ := pure_ok.1 hrest
      exact hcommand
  · obtain ⟨rfl, rfl⟩ := pure_ok.1 h
    exact hcommand

theorem reads_lvalue (ih : ExprReads n) (h : (lvalue (n + 1)).run s = .ok (target, s')) :
    Reads .lvalue s target s' := by
  simp only [lvalue, bind_ok (x := kind), kind_ok] at h
  obtain ⟨_, _, ⟨rfl, rfl⟩, h⟩ := h
  split at h
  · rename_i hkind
    exact ih.field hkind h
  · exact ih.name h
  · exact absurd h failExpecting_ok

theorem reads_field (ih : ExprReads n) (hkind : s.current.kind = .dollar)
    (h : (field (n + 1)).run s = .ok (target, s')) : Reads .lvalue s target s' := by
  simp only [field, bind_ok (x := advance), bind_ok (x := current), advance_iff, current_ok] at h
  obtain ⟨_, s₁, ⟨rfl, htake⟩, _, _, ⟨rfl, rfl⟩, h⟩ := h
  split at h
  · rename_i op hop
    simp only [bind_ok, advance_iff, spanFrom_iff, pure_ok] at h
    obtain ⟨_, s₂, ⟨rfl, htake'⟩, target, s₃, htarget, _, _, ⟨rfl, rfl⟩, _, _, ⟨rfl, rfl⟩, rfl, rfl⟩ := h
    exact .fieldStep hkind htake hop htake' (ih.lvalue htarget)
  · simp only [bind_ok, spanFrom_iff, pure_ok] at h
    obtain ⟨index, s₂, hindex, _, _, ⟨rfl, rfl⟩, rfl, rfl⟩ := h
    exact .field hkind htake (ih.signed hindex)

theorem reads_name (ih : ExprReads n) (h : (name (n + 1)).run s = .ok (target, s')) : Reads .lvalue s target s' := by
  simp only [name] at h
  obtain ⟨_, s₁, htoken, h⟩ := bind_ok.1 h
  obtain ⟨rfl, hkind, htake⟩ := expect_iff.1 htoken
  rcases accept_cases h with ⟨s₂, hopen, htake', h⟩ | h
  · simp only [bind_ok, spanFrom_iff, pure_ok] at h
    obtain ⟨subs, s₃, hsubs, _, _, ⟨rfl, rfl⟩, rfl, rfl⟩ := h
    exact .element hkind htake hopen htake' (ih.subscripts hsubs)
  · obtain ⟨rfl, rfl⟩ := pure_ok.1 h
    exact .name hkind htake

theorem reads_subscripts (ih : ExprReads n) {subs : Subscripts} (h : (subscripts (n + 1)).run s = .ok (subs, s')) :
    Reads .subscripts s subs s' := by
  simp only [subscripts, bind_ok, current_ok, expect_iff, spanFrom_iff, pure_ok] at h
  obtain ⟨_, _, ⟨rfl, rfl⟩, first, s₁, hfirst, more, s₂, hmore, _, s₃, ⟨-, hclose, htake⟩, _, _, ⟨rfl, rfl⟩, rfl,
    rfl⟩ := h
  exact .subscripts (ih.level hfirst) (ih.moreItems hmore) hclose htake

theorem reads_moreItems (ih : ExprReads n) (h : (moreItems (n + 1) p).run s = .ok (es, s')) :
    Reads (.moreItems p) s es s' := by
  simp only [moreItems] at h
  rcases accept_cases h with ⟨s₁, hcomma, htake, h⟩ | h
  · simp only [bind_ok, pure_ok] at h
    obtain ⟨_, s₂, hskip, e, s₃, he, more, s₄, hmore, rfl, rfl⟩ := h
    exact .moreItems hcomma htake (skips_of_skip hskip) (ih.level he) (ih.moreItems hmore)
  · obtain ⟨rfl, rfl⟩ := pure_ok.1 h
    exact .noItems

theorem reads_arguments (ih : ExprReads n) (h : (arguments (n + 1)).run s = .ok (es, s')) :
    Reads .arguments s es s' := by
  simp only [arguments] at h
  obtain ⟨_, s₁, hskip, h⟩ := bind_ok.1 h
  rcases accept_cases h with ⟨s₂, hclose, htake, h⟩ | h
  · obtain ⟨rfl, rfl⟩ := pure_ok.1 h
    exact .noArguments (skips_of_skip hskip) hclose htake
  · simp only [bind_ok, expect_iff, pure_ok] at h
    obtain ⟨first, s₂, hfirst, more, s₃, hmore, _, s₄, hskip', _, s₅, ⟨-, hclose, htake⟩, rfl, rfl⟩ := h
    exact .arguments (skips_of_skip hskip) (ih.level hfirst) (ih.moreItems hmore) (skips_of_skip hskip') hclose htake

theorem reads_getlineTarget (ih : ExprReads n) {target : Option LValue}
    (h : (getlineTarget (n + 1)).run s = .ok (target, s')) : Reads .getlineTarget s target s' := by
  simp only [getlineTarget, bind_ok (x := kind), kind_ok] at h
  obtain ⟨_, _, ⟨rfl, rfl⟩, h⟩ := h
  split at h
  · simp only [bind_ok, pure_ok] at h
    obtain ⟨target, _, htarget, rfl, rfl⟩ := h
    exact .someTarget (ih.name htarget)
  · rename_i hkind
    simp only [bind_ok, pure_ok] at h
    obtain ⟨target, _, htarget, rfl, rfl⟩ := h
    exact .someTarget (ih.field hkind htarget)
  · obtain ⟨rfl, rfl⟩ := pure_ok.1 h
    exact .noTarget

theorem reads_call (ih : ExprReads n) (hkind : s.current.kind = .funcName)
    (h : (do
      let function ← advance
      let _ ← expect .lpar "'('"
      let args ← arguments n
      modify fun s => { s with calls := (function, args.length) :: s.calls }
      return .call (← spanFrom s.current) function args : Parser Expr).run s = .ok (e, s')) :
    Reads .primary s e s' := by
  simp only [bind_ok, advance_iff, expect_iff, modify_ok, spanFrom_iff, pure_ok] at h
  obtain ⟨_, s₁, ⟨rfl, htake⟩, _, s₂, ⟨-, hopen, htake'⟩, args, s₃, hargs, _, s₄, rfl, _, _, ⟨rfl, rfl⟩, rfl, rfl⟩ := h
  exact .call hkind htake hopen htake' (ih.arguments hargs)

theorem reads_builtin (ih : ExprReads n) {b : Builtin} (hkind : s.current.kind = .builtin b)
    (h : (do
      let token ← advance
      if ← accept .lpar then
        let args ← arguments n
        return .builtin (← spanFrom s.current) b token args
      else if b = .length then
        return .builtin (← spanFrom s.current) b token []
      else
        failExpecting "'('" : Parser Expr).run s = .ok (e, s')) : Reads .primary s e s' := by
  obtain ⟨_, s₁, htoken, h⟩ := bind_ok.1 h
  obtain ⟨rfl, htake⟩ := advance_iff.1 htoken
  rcases accept_cases h with ⟨s₂, hopen, htake', h⟩ | h
  · simp only [bind_ok, spanFrom_iff, pure_ok] at h
    obtain ⟨args, s₃, hargs, _, _, ⟨rfl, rfl⟩, rfl, rfl⟩ := h
    exact .builtin hkind htake hopen htake' (ih.arguments hargs)
  split at h
  · rename_i hlength
    subst hlength
    simp only [bind_ok, spanFrom_iff, pure_ok] at h
    obtain ⟨_, _, ⟨rfl, rfl⟩, rfl, rfl⟩ := h
    exact .bareLength hkind htake
  · exact absurd h failExpecting_ok

theorem reads_getline (ih : ExprReads n) (hkind : s.current.kind = .getline)
    (h : (do
      let _ ← advance
      let target ← getlineTarget n
      if ← accept .lt then
        let file ← level n .step false
        return .getlineFile (← spanFrom s.current) target file
      else
        return .getline (← spanFrom s.current) target : Parser Expr).run s = .ok (e, s')) : Reads .primary s e s' := by
  obtain ⟨_, s₁, htoken, h⟩ := bind_ok.1 h
  obtain ⟨-, htake⟩ := advance_iff.1 htoken
  obtain ⟨target, s₂, htarget, h⟩ := bind_ok.1 h
  have hread := ih.getlineTarget htarget
  rcases accept_cases h with ⟨s₃, hfrom, htake', h⟩ | h
  · simp only [bind_ok, spanFrom_iff, pure_ok] at h
    obtain ⟨file, s₄, hfile, _, _, ⟨rfl, rfl⟩, rfl, rfl⟩ := h
    exact .getlineFile hkind htake hread hfrom htake' (ih.level hfile)
  · simp only [bind_ok, spanFrom_iff, pure_ok] at h
    obtain ⟨_, _, ⟨rfl, rfl⟩, rfl, rfl⟩ := h
    exact .getline hkind htake hread

/-- Parentheses hold one expression, or the subscripts of an element that is looked for. -/
theorem reads_group (ih : ExprReads n) (hopen : s.current.kind = .lpar)
    (h : (do
      let _ ← advance
      let first ← level n .assignment false
      if (← kind) = .comma then
        let more ← moreItems n false
        let close ← expect .rpar "')'"
        if ← accept .in then
          let array ← expect .name "array name"
          return .member (← spanFrom s.current) (first :: more)
            (some { s.current.span with stop := close.span.stop }) array
        else
          failExpecting "'in'"
      else
        let _ ← expect .rpar "')'"
        return .group (← spanFrom s.current) first : Parser Expr).run s = .ok (e, s')) : Reads .primary s e s' := by
  obtain ⟨_, s₁, htoken, h⟩ := bind_ok.1 h
  obtain ⟨-, htake⟩ := advance_iff.1 htoken
  obtain ⟨first, s₂, hfirst, h⟩ := bind_ok.1 h
  obtain ⟨k, _, hk, h⟩ := bind_ok.1 h
  obtain ⟨rfl, rfl⟩ := kind_ok.1 hk
  have hread := ih.level hfirst
  split at h
  · rename_i hcomma
    obtain ⟨more, s₃, hmore, h⟩ := bind_ok.1 h
    obtain ⟨_, s₄, hclosed, h⟩ := bind_ok.1 h
    obtain ⟨rfl, hclose, htake₁⟩ := expect_iff.1 hclosed
    rcases accept_cases h with ⟨s₅, hin, htake₂, h⟩ | h
    · simp only [bind_ok, expect_iff, spanFrom_iff, pure_ok] at h
      obtain ⟨_, s₆, ⟨rfl, hname, htake₃⟩, _, _, ⟨rfl, rfl⟩, rfl, rfl⟩ := h
      have hitems := ih.moreItems hmore
      cases more with
      | nil =>
        -- Behind a comma there is an item.
        cases hitems
        rw [hcomma] at hclose
        cases hclose
      | cons second more => exact .members hopen htake hread hitems hclose htake₁ hin htake₂ hname htake₃
    · exact absurd h failExpecting_ok
  · simp only [bind_ok, expect_iff, spanFrom_iff, pure_ok] at h
    obtain ⟨_, s₃, ⟨-, hclose, htake'⟩, _, _, ⟨rfl, rfl⟩, rfl, rfl⟩ := h
    exact .group hopen htake hread hclose htake'

theorem reads_primary (ih : ExprReads n) (h : (primary (n + 1)).run s = .ok (e, s')) : Reads .primary s e s' := by
  simp only [primary, bind_ok (x := current), current_ok] at h
  obtain ⟨_, _, ⟨rfl, rfl⟩, h⟩ := h
  -- By the kind of the first token, in the order of the grammar.
  split at h
  · rename_i hkind
    simp only [bind_ok, advance_iff, pure_ok] at h
    obtain ⟨_, _, ⟨rfl, htake⟩, rfl, rfl⟩ := h
    exact .number hkind htake
  · rename_i hkind
    simp only [bind_ok, advance_iff, pure_ok] at h
    obtain ⟨_, _, ⟨rfl, htake⟩, rfl, rfl⟩ := h
    exact .string hkind htake
  · rename_i hkind
    simp only [bind_ok, pure_ok] at h
    obtain ⟨token, _, htoken, rfl, rfl⟩ := h
    exact .regex (.inl hkind) htoken
  · rename_i hkind
    simp only [bind_ok, pure_ok] at h
    obtain ⟨token, _, htoken, rfl, rfl⟩ := h
    exact .regex (.inr hkind) htoken
  · rename_i hkind
    simp only [bind_ok, pure_ok] at h
    obtain ⟨target, _, htarget, rfl, rfl⟩ := h
    exact .lvalue (ih.field hkind htarget)
  · simp only [bind_ok, pure_ok] at h
    obtain ⟨target, _, htarget, rfl, rfl⟩ := h
    exact .lvalue (ih.name htarget)
  · rename_i hkind
    exact reads_call ih hkind h
  · rename_i b hkind
    exact reads_builtin ih hkind h
  · rename_i hkind
    exact reads_getline ih hkind h
  · rename_i hkind
    exact reads_group ih hkind h
  · exact absurd h failExpecting_ok

/-- Everything that the grammar of expressions gives, with whatever fuel, is a reading. -/
theorem exprReads (n : Nat) : ExprReads n := by
  induction n with
  | zero => constructor <;> intros <;> rename_i h <;> exact absurd h tooDeep_ok
  | succ n ih =>
    exact {
      level := reads_level ih
      chain := reads_chain ih
      signed := reads_signed ih
      parts := reads_parts ih
      pipes := reads_pipes ih
      lvalue := reads_lvalue ih
      field := reads_field ih
      name := reads_name ih
      subscripts := reads_subscripts ih
      moreItems := reads_moreItems ih
      arguments := reads_arguments ih
      getlineTarget := reads_getlineTarget ih
      primary := reads_primary ih }

theorem reads_of_expr {fuel : Nat} (h : (expr fuel p).run s = .ok (e, s')) : Reads (.level .assignment p) s e s' :=
  (exprReads fuel).level h

end Parser

end Awk
