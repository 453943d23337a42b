import Awk.Proofs.Syntax.Places.Delimited
import Awk.Proofs.Syntax.Precedence

/-!
# The places that the parser gives

What the parser reads between two states is spelt by the tokens that it takes there (`Writes`), with the places that it
gives to the nodes.  The rules of the grammar are taken one by one; from them follows that in the tree of an accepted
program the places delimit the text and hold each other exactly if no comparison has a pipe into `getline` for its right
operand (`delimits_of_parseProgram`).
-/

namespace Awk

open Outline

variable {os os' : List Outline} {tokens tokens' : List Token}

/-! ### Pipes that are placed where they begin -/

/-- Two places begin at the same character. -/
def Span.SameStart (a b : Span) : Prop := a.line = b.line ∧ a.column = b.column ∧ a.start = b.start

theorem pipedFrom_congr {start start' : Span} (h : start.SameStart start') (e : Expr) :
    e.pipedFrom start = e.pipedFrom start' := by
  obtain ⟨hline, hcolumn, hstart⟩ := h
  fun_induction Expr.pipedFrom start e with
  | case1 span command target ih => rw [Expr.pipedFrom, ih, hline, hcolumn, hstart]
  | case2 e he =>
    unfold Expr.pipedFrom
    split
    · exact absurd rfl (he _ _ _)
    · rfl

namespace Outline

theorem Spells.ne_nil (h : Spells os tokens) (hplaces : placesIn os ≠ []) : tokens ≠ [] := by
  obtain ⟨place, hplace⟩ := List.exists_mem_of_ne_nil _ hplaces
  obtain ⟨a, ha, -⟩ := h.bounded place hplace
  exact List.ne_nil_of_mem ha

theorem Spells.split {o : Outline} (h : Spells (o :: os) tokens) :
    ∃ front back, tokens = front ++ back ∧ Spells [o] front ∧ Spells os back := by
  cases h with
  | leaf hgap hmore => exact ⟨_, _, rfl, by simpa using Spells.leaf hgap .nil, hmore⟩
  | node hcompare hopening hbefore hfirst hchildren hspan hgap hmore =>
    exact ⟨_, _, rfl, by simpa using Spells.node hcompare hopening hbefore hfirst hchildren hspan hgap .nil, hmore⟩
  | @compare left right mark inner inner' gap os tokens hleft hright hgap hmore =>
    refine ⟨_, _, rfl, ?_, hmore⟩
    have hfront : Spells _ (inner ++ mark :: inner' ++ gap ++ []) := .compare hleft hright hgap .nil
    rwa [List.append_nil] at hfront

/-- The tokens of a tree begin with those of its first child, if the construct opens with nothing else. -/
theorem Spells.children {label : String} {span : Option Span} {children : List Outline}
    (h : Spells (Outline.node label span children :: os) tokens) (hcompare : label ≠ "compare") (hopening : openings label = [[]]) :
    ∃ inner rest, tokens = inner ++ rest ∧ Spells children inner ∧ Reaches span inner := by
  cases h with
  | node _ hopening' hbefore hfirst hchildren hspan hgap hmore =>
    rw [hopening, List.mem_singleton, List.map_eq_nil_iff] at hopening'
    subst hopening'
    obtain rfl := hfirst rfl
    exact ⟨_, _, List.append_assoc _ _ _, hchildren, hspan⟩
  | compare => exact absurd rfl hcompare

end Outline

/-- Where an expression begins its pipes begin as well. -/
theorem pipedFrom_eq_self {e : Expr} {start : Span} (h : Spells [e.outline] tokens)
    (hstart : ∀ first ∈ tokens.head?, first.span.SameStart start) : e.pipedFrom start = e := by
  fun_induction Expr.pipedFrom start e generalizing tokens with
  | case1 span command target ih =>
    rw [Expr.outline] at h
    obtain ⟨inner, rest, rfl, hchildren, hspan⟩ := h.children (by decide) rfl
    obtain ⟨front, back, rfl, hcommand, -⟩ := hchildren.split
    obtain ⟨place, hplace⟩ := places_of_spells hcommand
    obtain ⟨first, more, rfl⟩ := List.exists_cons_of_ne_nil (hcommand.ne_nil (by simp [placesIn, hplace]))
    obtain ⟨-, rfl⟩ := hspan span rfl
    obtain ⟨hline, hcolumn, hbegin⟩ := hstart first rfl
    rw [ih hcommand fun _ hfirst => hstart _ hfirst, ← hline, ← hcolumn, ← hbegin]
    rfl
  | case2 => rfl

namespace Parser

variable {s s₁ s₂ s' : ParserState}

/-! ### Steps -/

/-- Marks are taken from one state to another. -/
def PassesMarks (s s' : ParserState) : Prop := ∃ tokens, Moves s tokens s' ∧ Marks tokens

/-- Some outlines are spelt by what is taken from one state to another. -/
def Writes (s : ParserState) (os : List Outline) (s' : ParserState) : Prop :=
  Fed s → ∃ tokens, Moves s tokens s' ∧ Spells os tokens

/-- Some outlines go on with what has been written up to a state. -/
def Continues (s : ParserState) (os : List Outline) (s' : ParserState) : Prop :=
  ∀ {s₀ before}, before ≠ [] → Writes s₀ before s → Writes s₀ (before ++ os) s'

theorem PassesMarks.refl : PassesMarks s s := ⟨[], .refl, List.forall_mem_nil _⟩

theorem PassesMarks.trans (h : PassesMarks s s₁) (h' : PassesMarks s₁ s') : PassesMarks s s' := by
  obtain ⟨tokens, hmoves, hmarks⟩ := h
  obtain ⟨tokens', hmoves', hmarks'⟩ := h'
  exact ⟨_, hmoves.trans hmoves', hmarks.append hmarks'⟩

theorem Takes.marks (h : Takes s s') (hmark : isMark s.current.kind = true) : PassesMarks s s' := by
  rw [isMark, Bool.and_eq_true, Bool.not_eq_true', bne_iff_ne] at hmark
  exact ⟨[s.current], .take hmark.2 h .refl, by simpa [Marks] using hmark.1⟩

theorem Skips.marks {skipped : TokenKind → Bool} (h : Skips skipped s s')
    (hmark : ∀ {k}, skipped k = true → isMark k = true) : PassesMarks s s' := by
  induction h with
  | refl => exact .refl
  | step hkind htake hrest ih => exact (htake.marks (hmark hkind)).trans ih

theorem SkipsNewlines.marks (h : SkipsNewlines s s') : PassesMarks s s' :=
  Skips.marks h fun hk => by rw [eq_of_beq hk]; rfl

theorem SkipsTerminators.marks (h : SkipsTerminators s s') : PassesMarks s s' := by
  refine Skips.marks h fun hk => ?_
  rcases Bool.or_eq_true_iff.1 hk with hk | hk <;> rw [eq_of_beq hk] <;> rfl

theorem PassesMarks.recorded {functions : List (Text × Nat)} {calls : List (Token × Nat)} (h : PassesMarks s s') :
    PassesMarks s { s' with functions := functions, calls := calls } := by
  obtain ⟨tokens, hmoves, hmarks⟩ := h
  exact ⟨tokens, by simpa using hmoves.trans (.record .refl), hmarks⟩

theorem Writes.refl : Writes s [] s := fun _ => ⟨[], .refl, .nil⟩

theorem Writes.trans (h : Writes s os s₁) (h' : Writes s₁ os' s') : Writes s (os ++ os') s' := by
  intro hfed
  obtain ⟨tokens, hmoves, hspells⟩ := h hfed
  obtain ⟨tokens', hmoves', hspells'⟩ := h' (hmoves.fed hfed)
  exact ⟨_, hmoves.trans hmoves', hspells.append hspells'⟩

theorem Writes.marks_of_ne (h : Writes s os s₁) (h' : PassesMarks s₁ s') (hne : os ≠ []) : Writes s os s' := by
  intro hfed
  obtain ⟨tokens, hmoves, hspells⟩ := h hfed
  obtain ⟨gap, hmoves', hgap⟩ := h'
  exact ⟨_, hmoves.trans hmoves', hspells.marks hne hgap⟩

theorem Writes.marks {o : Outline} (h : Writes s (o :: os) s₁) (h' : PassesMarks s₁ s') : Writes s (o :: os) s' :=
  h.marks_of_ne h' (List.cons_ne_nil o os)

theorem Takes.writes (h : Takes s s') (hend : s.current.kind ≠ .eof) : Writes s [.leaf s.current] s' :=
  fun _ => ⟨[s.current], .take hend h .refl, .single _⟩

/-- The functions and calls on record have no part in what is written. -/
theorem Writes.recorded {functions : List (Text × Nat)} {calls : List (Token × Nat)} (h : Writes s os s') :
    Writes s os { s' with functions := functions, calls := calls } := by
  intro hfed
  obtain ⟨tokens, hmoves, hspells⟩ := h hfed
  exact ⟨tokens, by simpa using hmoves.trans (.record .refl), hspells⟩

/-! ### Nodes -/

/-- A node without a place of its own. -/
theorem Writes.bundle (h : Writes s os s') (label : String)
    (hlabel : label ≠ "compare" ∧ [] ∈ openings label) : Writes s [node label none os] s' := by
  intro hfed
  obtain ⟨tokens, hmoves, hspells⟩ := h hfed
  exact ⟨tokens, hmoves, .around hlabel.1 hlabel.2 hspells fun _ h => by cases h⟩

/-- A node that begins with its first child. -/
theorem Writes.operation (h : Writes s os s') (hplaces : ∀ {tokens}, Spells os tokens → placesIn os ≠ [])
    (label : String) (hlabel : label ≠ "compare" ∧ [] ∈ openings label) :
    Writes s [node label (some (s'.spanFrom s.current)) os] s' := by
  intro hfed
  obtain ⟨tokens, hmoves, hspells⟩ := h hfed
  have hne := hspells.ne_nil (hplaces hspells)
  rw [hmoves.spanFrom hfed hne]
  exact ⟨tokens, hmoves, .around hlabel.1 hlabel.2 hspells (reaches_extentOf hne)⟩

/-- A comparison opens with nothing of its own, and no construct opens with the end of the text. -/
theorem ne_of_opens {label : String} {k : TokenKind} (h : [k] ∈ openings label) : label ≠ "compare" ∧ k ≠ .eof := by
  constructor
  · rintro rfl
    exact absurd h (by simp [openings])
  · rintro rfl
    unfold openings at h
    split at h <;> exact absurd h (by decide)

/-- A node that begins with a token of its own. -/
theorem Writes.construct {k : TokenKind} (hkind : s.current.kind = k) {label : String} (hopening : [k] ∈ openings label)
    (htake : Takes s s₁) (hmarks : PassesMarks s₁ s₂) (h : Writes s₂ os s') :
    Writes s [node label (some (s'.spanFrom s.current)) os] s' := by
  intro hfed
  obtain ⟨hcompare, hend⟩ := ne_of_opens hopening
  obtain ⟨before, hmoves₁, hbefore⟩ := hmarks
  have hmoves₂ := Moves.take (hkind ▸ hend) htake hmoves₁
  obtain ⟨inner, hmoves₃, hspells⟩ := h (hmoves₂.fed hfed)
  have hmoves := hmoves₂.trans hmoves₃
  rw [hmoves.spanFrom hfed (by simp)]
  exact ⟨_, hmoves, .opened hcompare (hkind ▸ hopening) hbefore hspells (reaches_extentOf (by simp))⟩

theorem spells_leaf (token : Token) (label : String) (hlabel : label ≠ "compare" ∧ [] ∈ openings label) :
    Spells [node label (some token.span) [.leaf token]] [token] := by
  have hextent : Reaches (some token.span) [token] := reaches_extentOf (List.cons_ne_nil token [])
  exact .around hlabel.1 hlabel.2 (.single token) hextent

/-- A node for a single token. -/
theorem Takes.writesNode (h : Takes s s') (hend : s.current.kind ≠ .eof) (label : String)
    (hlabel : label ≠ "compare" ∧ [] ∈ openings label) :
    Writes s [node label (some s.current.span) [.leaf s.current]] s' := by
  intro hfed
  exact ⟨[s.current], .take hend h .refl, spells_leaf s.current label hlabel⟩

theorem TakesRegex.writesNode {token : Token} (h : TakesRegex s token s')
    (hkind : s.current.kind = .slash ∨ s.current.kind = .divAssign) :
    Writes s [node "regex" (some token.span) [.leaf token]] s' := by
  intro hfed
  exact ⟨[token], .regex hkind h .refl, spells_leaf token "regex" (by decide)⟩

theorem placesIn_expr {e : Expr} (h : Spells (e.outline :: os) tokens) : placesIn (e.outline :: os) ≠ [] := by
  obtain ⟨place, hplace⟩ := places_of_spells h
  simp [placesIn, hplace]

theorem placesIn_leaf {token : Token} : placesIn (.leaf token :: os) ≠ [] := List.cons_ne_nil _ _

/-- The current token stands further and further back. -/
theorem Moves.current_le (h : Moves s tokens s') (hfed : Fed s) (hne : tokens ≠ []) :
    s.current.span.stop ≤ s'.current.span.stop := by
  obtain ⟨first, rest, rfl⟩ := List.exists_cons_of_ne_nil hne
  obtain ⟨-, hle⟩ := h.head hfed first rfl
  obtain ⟨-, -, hstop⟩ := (h.covers hfed).bounds.2 first List.mem_cons_self
  obtain ⟨hstart, hextent, -⟩ := Cursor.token_extent (h.fed hfed)
  omega

/-! ### Expressions -/

/-- What is read as a nonterminal is written, with places that delimit the text.  The pipes of an operand are placed
from a token on that may stand before it. -/
def Nonterminal.Written : (x : Nonterminal) → ParserState → x.Result → ParserState → Prop
  | level .., s, e, s' | signed .., s, e, s' | primary, s, e, s' => Writes s [e.outline] s'
  | operand _ start, s, e, s' =>
    Fed s → start.span.stop ≤ s.current.span.stop →
      ∃ e' : Expr, e = e'.pipedFrom start.span ∧ Writes s [e'.outline] s'
  | parts _, s, es, s' => Writes s (Awk.outlines es) s'
  | moreItems _, s, es, s' => Continues s (Awk.outlines es) s'
  | arguments, s, es, s' => Continues s [node "args" none (Awk.outlines es)] s'
  | lvalue, s, target, s' => Writes s [target.outline] s'
  | subscripts, s, subs, s' => Writes s [subs.outline] s'
  | getlineTarget, s, target, s' => Writes s [targetOutline target] s'

/-- An operand whose pipes are placed from its own first token on. -/
theorem written_operand {p : Bool} {e : Expr} (h : (Nonterminal.operand p s.current).Written s e s') :
    Writes s [e.outline] s' := by
  intro hfed
  obtain ⟨e', rfl, hwrites⟩ := h hfed (Nat.le_refl _)
  obtain ⟨tokens, hmoves, hspells⟩ := hwrites hfed
  rw [pipedFrom_eq_self hspells fun first hfirst => ?_]
  · exact ⟨tokens, hmoves, hspells⟩
  · rw [(hmoves.head hfed first hfirst).1]
    exact ⟨rfl, rfl, rfl⟩

theorem written_pipe {start : Token} {command : Expr} {target : Option LValue} (hfed : Fed s)
    (hle : start.span.stop ≤ s.current.span.stop) (hcommand : Writes s [command.outline] s₁)
    (hmarks : PassesMarks s₁ s₂) (htarget : Writes s₂ [targetOutline target] s') :
    ∃ e' : Expr, .getlineCommand (s'.spanFrom start) (command.pipedFrom start.span) target = e'.pipedFrom start.span ∧
      Writes s [e'.outline] s' := by
  have hboth := (hcommand.marks hmarks).trans htarget
  refine ⟨.getlineCommand (s'.spanFrom s.current) command target, ?_,
    hboth.operation placesIn_expr "pipe_getline" (by decide)⟩
  obtain ⟨tokens, hmoves, hspells⟩ := hboth hfed
  have hne := hspells.ne_nil (placesIn_expr hspells)
  obtain ⟨hlast, hreach⟩ := hmoves.reach hfed hne
  rw [Expr.pipedFrom, ParserState.spanFrom, ParserState.spanFrom, hlast, Option.getD_some, Option.getD_some,
    Nat.max_eq_left hreach, Nat.max_eq_left (Nat.le_trans hle hreach)]

/-- Subscripts in parentheses. -/
theorem written_subscripts (hopen : s.current.kind = .lpar) (htake : Takes s s₁) (h : Writes s₁ os s₂) (hne : os ≠ [])
    (hclose : s₂.current.kind = .rpar) (htake' : Takes s₂ s') :
    Writes s [node "subscripts" (some { s.current.span with stop := s₂.current.span.stop }) os] s' := by
  intro hfed
  have hmoves₁ : Moves s [s.current] s₁ := .take (by rw [hopen]; decide) htake .refl
  obtain ⟨inner, hmoves₂, hspells⟩ := h (hmoves₁.fed hfed)
  have hmoves₃ : Moves s₂ [s₂.current] s' := .take (by rw [hclose]; decide) htake' .refl
  refine ⟨_, hmoves₁.trans (hmoves₂.trans hmoves₃), ?_⟩
  have hmarks : Marks [s₂.current] := by simp [Marks, hclose, TokenKind.isOperand]
  have hextent : Reaches (some { s.current.span with stop := s₂.current.span.stop })
      (s.current :: inner ++ [s₂.current]) := by
    rw [← extentOf_cons_append]
    exact reaches_extentOf (by simp)
  exact .opened (by decide) (by rw [hopen]; decide) .nil (hspells.marks hne hmarks) hextent

theorem written_compare {left right : Expr} {op : CompareOp} (hleft : Writes s [left.outline] s₁)
    (hend : s₁.current.kind ≠ .eof) (htake : Takes s₁ s₂) (hright : Writes s₂ [right.outline] s') :
    Writes s [(Expr.compare (s'.spanFrom s.current) left op s₁.current (right.pipedFrom s.current.span)).outline] s' := by
  intro hfed
  obtain ⟨tokens, hmoves, hspells⟩ := hleft hfed
  have hmoves' := hmoves.trans (.take hend htake .refl)
  obtain ⟨tokens', hmoves'', hspells'⟩ := hright (hmoves'.fed hfed)
  have hall := hmoves'.trans hmoves''
  have hextent := hall.spanFrom hfed (by simp)
  rw [List.append_assoc, List.singleton_append] at hall hextent
  have hsame : s.current.span.SameStart (extentOf (tokens ++ s₁.current :: tokens')) := by
    rw [← hextent]
    exact ⟨rfl, rfl, rfl⟩
  refine ⟨_, hall, ?_⟩
  rw [Expr.outline, hextent, pipedFrom_congr hsame]
  exact .compared _ hspells hspells'

theorem written_of_reads {x : Nonterminal} {v : x.Result} (h : Reads x s v s') : x.Written s v s' := by
  induction h with
  | tighter h ih => exact ih
  | assign hleft hop htake hskip hright ihleft ihright =>
    have hmark := (htake.writes (ne_eof_of_some hop rfl)).marks hskip.marks
    exact (ihleft.trans (hmark.trans ihright)).operation placesIn_expr "assign" (by decide)
  | conditional htest hmark htake hskip hyes hskip' hcolon htake' hskip'' hno ihtest ihyes ihno =>
    have hbetween := (htake.marks (by rw [hmark]; rfl)).trans hskip.marks
    have hbetween' := hskip'.marks.trans ((htake'.marks (by rw [hcolon]; rfl)).trans hskip''.marks)
    exact ((ihtest.marks hbetween).trans ((ihyes.marks hbetween').trans ihno)).operation placesIn_expr "ternary"
      (by decide)
  | disjunction hleft hkind htake hskip hright ihleft ihright =>
    have hbetween := (htake.marks (by rw [hkind]; rfl)).trans hskip.marks
    exact ((ihleft.marks hbetween).trans ihright).operation placesIn_expr "or" (by decide)
  | conjunction hleft hkind htake hskip hright ihleft ihright =>
    have hbetween := (htake.marks (by rw [hkind]; rfl)).trans hskip.marks
    exact ((ihleft.marks hbetween).trans ihright).operation placesIn_expr "and" (by decide)
  | membership hleft hkind htake hname htake' ihleft =>
    have hbetween := htake.marks (by rw [hkind]; rfl)
    have harray := htake'.writes (by rw [hname]; decide)
    exact (((ihleft.bundle "subscripts" (by decide)).marks hbetween).trans harray).operation
      (fun _ => by simp [placesIn, places]) "in_expr" (by decide)
  | @matching p s left s₁ negated s₂ right s' hleft hkind htake hright ihleft ihright =>
    have hmark := htake.writes (by rw [hkind]; cases negated <;> decide)
    exact (ihleft.trans (hmark.trans ihright)).operation placesIn_expr "match" (by decide)
  | uncompared h ih => exact written_operand ih
  | compare hleft hop hprint htake hright ihleft ihright =>
    intro hfed
    have hend := ne_eof_of_some hop rfl
    obtain ⟨tokens, hmoves, -⟩ := written_operand ihleft hfed
    have hmoves' := hmoves.trans (.take hend htake .refl)
    obtain ⟨right, rfl, hwrites⟩ := ihright (hmoves'.fed hfed) (hmoves'.current_le hfed (by simp))
    exact written_compare (written_operand ihleft) hend htake hwrites hfed
  | unpiped h ih =>
    intro hfed hle
    have hfits := (respects_of_reads h).2
    refine ⟨_, (pipedFrom_of_not_isPipe _ ?_).symm, ih⟩
    rw [Bool.eq_false_iff, ne_eq, isPipe_outline]
    rintro ⟨span, command, target, rfl⟩
    exact absurd hfits (show ¬Level.concatenation.rank ≤ Level.comparison.rank by decide)
  | pipe hcommand hpipe htake hgetline htake' htarget ihcommand ihtarget =>
    intro hfed hle
    obtain ⟨command, rfl, hwrites⟩ := ihcommand hfed hle
    have hbetween := (htake.marks (by rw [hpipe]; rfl)).trans (htake'.marks (by rw [hgetline]; rfl))
    exact written_pipe hfed hle hwrites hbetween ihtarget
  | concat hfirst hmore ihfirst ihmore => exact (ihfirst.trans ihmore).operation placesIn_expr "concat" (by decide)
  | noParts => exact .refl
  | parts hstart hpart hmore ihpart ihmore => exact ihpart.trans ihmore
  | sum hleft hop htake hright ihleft ihright =>
    have hmark := htake.writes (ne_eof_of_some hop rfl)
    exact (ihleft.trans (hmark.trans ihright)).operation placesIn_expr "arith" (by decide)
  | product hleft hop htake hright ihleft ihright =>
    have hmark := htake.writes (ne_eof_of_some hop rfl)
    exact (ihleft.trans (hmark.trans ihright)).operation placesIn_expr "arith" (by decide)
  | sign h ih => exact ih
  | unsigned h ih => exact ih
  | signed hop htake hoperand ih =>
    exact ((htake.writes (ne_eof_of_some hop rfl)).trans ih).operation (fun _ => placesIn_leaf) "unary" (by decide)
  | power hbase hkind htake hexponent ihbase ihexponent =>
    have hbetween := htake.marks (by rw [hkind]; rfl)
    exact ((ihbase.marks hbetween).trans ihexponent).operation placesIn_expr "power" (by decide)
  | preStep hop htake htarget ih =>
    exact ((htake.writes (ne_eof_of_some hop rfl)).trans ih).operation (fun _ => placesIn_leaf) "pre_incdec" (by decide)
  | postStep htarget hop htake ih =>
    exact (ih.trans (htake.writes (ne_eof_of_some hop rfl))).operation placesIn_expr "post_incdec" (by decide)
  | primary h ih => exact ih
  | number hkind htake => exact htake.writesNode (by rw [hkind]; decide) "number" (by decide)
  | string hkind htake => exact htake.writesNode (by rw [hkind]; decide) "string" (by decide)
  | regex hkind htake => exact htake.writesNode hkind
  | lvalue h ih => exact ih
  | call hkind htake hopen htake' hargs ih =>
    have hname := (htake.writes (by rw [hkind]; decide)).marks (htake'.marks (by rw [hopen]; rfl))
    exact ((ih (List.cons_ne_nil _ _) hname).operation (fun _ => placesIn_leaf) "call" (by decide)).recorded
  | @builtin s b s₁ s₂ args s' hkind htake hopen htake' hargs ih =>
    have hname := (htake.writes (by rw [hkind]; exact TokenKind.noConfusion)).marks (htake'.marks (by rw [hopen]; rfl))
    exact (ih (List.cons_ne_nil _ _) hname).operation (fun _ => placesIn_leaf) "builtin_call" (by decide)
  | bareLength hkind htake =>
    have hname := htake.writes (by rw [hkind]; decide)
    exact (hname.trans (Writes.refl.bundle "args" (by decide))).operation (fun _ => placesIn_leaf) "builtin_call"
      (by decide)
  | getline hkind htake htarget ih =>
    exact .construct hkind (by decide) htake .refl ih
  | getlineFile hkind htake htarget hfrom htake' hfile ihtarget ihfile =>
    have hbetween := htake'.marks (by rw [hfrom]; rfl)
    exact .construct hkind (by decide) htake .refl ((ihtarget.marks hbetween).trans ihfile)
  | group hopen htake hinner hclose htake' ih =>
    exact .construct hopen (by decide) htake .refl (ih.marks (htake'.marks (by rw [hclose]; rfl)))
  | members hopen htake hfirst hmore hclose htake₁ hin htake₂ hname htake₃ ihfirst ihmore =>
    have hitems := ihmore (List.cons_ne_nil _ _) ihfirst
    have hsubs := written_subscripts hopen htake hitems (List.cons_ne_nil _ _) hclose htake₁
    have harray := htake₃.writes (by rw [hname]; decide)
    exact ((hsubs.marks (htake₂.marks (by rw [hin]; rfl))).trans harray).operation (fun _ => List.cons_ne_nil _ _)
      "in_expr" (by decide)
  | field hkind htake hindex ih => exact .construct hkind (by decide) htake .refl ih
  | fieldStep hkind htake hop htake' htarget ih =>
    have hstep := ((htake'.writes (ne_eof_of_some hop rfl)).trans ih).operation (fun _ => placesIn_leaf) "pre_incdec"
      (by decide)
    exact .construct hkind (by decide) htake .refl hstep
  | name hkind htake => exact htake.writesNode (by rw [hkind]; decide) "var" (by decide)
  | element hkind htake hopen htake' hsubs ih =>
    have hname := (htake.writes (by rw [hkind]; decide)).marks (htake'.marks (by rw [hopen]; rfl))
    exact (hname.trans ih).operation (fun _ => placesIn_leaf) "index" (by decide)
  | subscripts hfirst hmore hclose htake ihfirst ihmore =>
    exact ((ihmore (List.cons_ne_nil _ _) ihfirst).marks (htake.marks (by rw [hclose]; rfl))).operation placesIn_expr
      "subscripts" (by decide)
  | noItems =>
    intro s₀ before hne h
    simpa [Awk.outlines] using h
  | moreItems hcomma htake hskip he hmore ihe ihmore =>
    intro s₀ before hne h
    have hbefore := h.marks_of_ne ((htake.marks (by rw [hcomma]; rfl)).trans hskip.marks) hne
    simpa [Awk.outlines] using ihmore (by simp) (hbefore.trans ihe)
  | noArguments hskip hclose htake =>
    intro s₀ before hne h
    have hbefore := h.marks_of_ne (hskip.marks.trans (htake.marks (by rw [hclose]; rfl))) hne
    exact hbefore.trans (Writes.refl.bundle "args" (by decide))
  | arguments hskip hfirst hmore hskip' hclose htake ihfirst ihmore =>
    intro s₀ before hne h
    have hargs := (ihmore (List.cons_ne_nil _ _) ihfirst).bundle "args" (by decide)
    exact (h.marks_of_ne hskip.marks hne).trans (hargs.marks (hskip'.marks.trans (htake.marks (by rw [hclose]; rfl))))
  | noTarget => exact Writes.refl.bundle "empty" (by decide)
  | someTarget h ih => exact ih

/-! ### Statements -/

/-- What is read as a clause is written, with places that delimit the text. -/
def Clause.Written : (x : Clause) → ParserState → x.Result → ParserState → Prop
  | expr?, s, e, s' => Writes s (e.map Expr.outline).toList s'
  | test, s, e, s' => ∃ s₁, PassesMarks s s₁ ∧ Writes s₁ [e.outline] s'
  | items, s, es, s' => Continues s [node "expr_list" none (Awk.outlines es)] s'
  | simple _, s, stmt, s' | block _, s, stmt, s' | statement _, s, stmt, s' => Writes s [stmt.outline] s'
  | simple? _, s, stmt, s' => Writes s [stmtOutline stmt] s'
  | body _, s, stmts, s' => ∃ s₁, PassesMarks s s₁ ∧ Writes s₁ (stmtOutlines stmts) s'
  | governed _, s, stmt, s' => ∃ s₁, PassesMarks s s₁ ∧ Writes s₁ [stmt.outline] s'

/-- A part that is missing is shown as an empty one. -/
theorem written_exprOutline {e : Option Expr} (h : Writes s (e.map Expr.outline).toList s') :
    Writes s [exprOutline e] s' := by
  cases e with
  | none => exact h.bundle "empty" (by decide)
  | some e => exact h

theorem written_of_readsStmt {x : Clause} {v : x.Result} (h : ReadsStmt x s v s') : x.Written s v s' := by
  induction h with
  | noExpr => exact .refl
  | someExpr h => exact written_of_reads h
  | test hopen htake he hclose htake' =>
    have he := written_of_reads he
    exact ⟨_, htake.marks (by rw [hopen]; rfl), he.marks (htake'.marks (by rw [hclose]; rfl))⟩
  | noItems =>
    intro s₀ before hne h
    exact h.trans (Writes.refl.bundle "expr_list" (by decide))
  | items hfirst hmore =>
    have hitems := written_of_reads hmore (List.cons_ne_nil _ _) (written_of_reads hfirst)
    intro s₀ before hne h
    exact h.trans (hitems.bundle "expr_list" (by decide))
  | listedItems hopen htake hfirst hmore hclose htake' =>
    have hitems := written_of_reads hmore (List.cons_ne_nil _ _) (written_of_reads hfirst)
    have hlist := (hitems.bundle "expr_list" (by decide)).marks (htake'.marks (by rw [hclose]; rfl))
    intro s₀ before hne h
    exact (h.marks_of_ne (htake.marks (by rw [hopen]; rfl)) hne).trans hlist
  | print hkind htake hitems ih =>
    have hprint := htake.writes (by rcases hkind with hkind | hkind <;> rw [hkind] <;> decide)
    exact (ih (List.cons_ne_nil _ _) hprint).operation (fun _ => placesIn_leaf) "print_stmt" (by decide)
  | printTo hkind htake hitems hop htake' htarget ih =>
    have hprint := htake.writes (by rcases hkind with hkind | hkind <;> rw [hkind] <;> decide)
    have hredirect := ((htake'.writes (ne_eof_of_some hop rfl)).trans (written_of_reads htarget)).operation
      (fun _ => placesIn_leaf) "output_redirect" (by decide)
    exact ((ih (List.cons_ne_nil _ _) hprint).trans hredirect).operation (fun _ => placesIn_leaf) "print_stmt"
      (by decide)
  | delete hkind htake hname htake' =>
    exact .construct hkind (by decide) htake .refl (htake'.writes (by rw [hname]; decide))
  | deleteElement hkind htake hname htake' hopen htake'' hsubs =>
    have harray := (htake'.writes (by rw [hname]; decide)).marks (htake''.marks (by rw [hopen]; rfl))
    exact .construct hkind (by decide) htake .refl (harray.trans (written_of_reads hsubs))
  | «break» hkind hloop htake => exact .construct hkind (by decide) htake .refl .refl
  | «continue» hkind hloop htake => exact .construct hkind (by decide) htake .refl .refl
  | next hkind hrule htake => exact .construct hkind (by decide) htake .refl .refl
  | nextFile hkind hrule htake => exact .construct hkind (by decide) htake .refl .refl
  | exit hkind htake hcode ih => exact .construct hkind (by decide) htake .refl ih
  | «return» hkind hfunction htake hvalue ih =>
    exact .construct hkind (by decide) htake .refl ih
  | expr he => exact Writes.operation (written_of_reads he) placesIn_expr "expr_stmt" (by decide)
  | noStmt => exact Writes.refl.bundle "empty" (by decide)
  | someStmt h ih => exact ih
  | block hopen htake hbody ih =>
    obtain ⟨s₁, hmarks, hbody⟩ := ih
    exact .construct hopen (by decide) htake hmarks hbody
  | endBody hskip hclose htake => exact ⟨_, hskip.marks.trans (htake.marks (by rw [hclose]; rfl)), .refl⟩
  | body hskip hfirst hmore ihfirst ihmore =>
    obtain ⟨s₁, hmarks, hmore⟩ := ihmore
    exact ⟨_, hskip.marks, (ihfirst.marks hmarks).trans hmore⟩
  | ofBlock h ih => exact ih
  | ofSimple h ih => exact ih
  | empty hkind htake => exact .construct hkind (by decide) htake .refl .refl
  | ifThen hkind htake htest hyes ihtest ihyes =>
    obtain ⟨s₁, hmarks, htest⟩ := ihtest
    obtain ⟨s₂, hmarks', hyes⟩ := ihyes
    exact .construct hkind (by decide) htake hmarks ((htest.marks hmarks').trans hyes)
  | ifElse hkind htake htest hyes hskip helse htake' hno ihtest ihyes ihno =>
    obtain ⟨s₁, hmarks, htest⟩ := ihtest
    obtain ⟨s₂, hmarks', hyes⟩ := ihyes
    obtain ⟨s₃, hmarks'', hno⟩ := ihno
    have hbetween := hskip.marks.trans ((htake'.marks (by rw [helse]; rfl)).trans hmarks'')
    exact .construct hkind (by decide) htake hmarks ((htest.marks hmarks').trans ((hyes.marks hbetween).trans hno))
  | «while» hkind htake htest hbody ihtest ihbody =>
    obtain ⟨s₁, hmarks, htest⟩ := ihtest
    obtain ⟨s₂, hmarks', hbody⟩ := ihbody
    exact .construct hkind (by decide) htake hmarks ((htest.marks hmarks').trans hbody)
  | doWhile hkind htake hbody hskip hwhile htake' htest ihbody ihtest =>
    obtain ⟨s₁, hmarks, hbody⟩ := ihbody
    obtain ⟨s₂, hmarks', htest⟩ := ihtest
    have hbetween := hskip.marks.trans ((htake'.marks (by rw [hwhile]; rfl)).trans hmarks')
    exact .construct hkind (by decide) htake hmarks ((hbody.marks hbetween).trans htest)
  | forIn hkind htake hopen htake₁ helement htake₂ hin htake₃ harray htake₄ hclose htake₅ hbody ih =>
    obtain ⟨s₁, hmarks, hbody⟩ := ih
    have helement := (htake₂.writes (by rw [helement]; decide)).marks (htake₃.marks (by rw [hin]; rfl))
    have harray := (htake₄.writes (by rw [harray]; decide)).marks ((htake₅.marks (by rw [hclose]; rfl)).trans hmarks)
    exact .construct hkind (by decide) htake (htake₁.marks (by rw [hopen]; rfl)) (helement.trans (harray.trans hbody))
  | «for» hkind htake hopen htake₁ hstart hsemi htake₂ hskip htest hsemi' htake₃ hskip' hupdate hclose htake₄ hbody
      ihstart ihtest ihupdate ihbody =>
    obtain ⟨s₁, hmarks, hbody⟩ := ihbody
    have hstart := ihstart.marks ((htake₂.marks (by rw [hsemi]; rfl)).trans hskip.marks)
    have htest := (written_exprOutline ihtest).marks ((htake₃.marks (by rw [hsemi']; rfl)).trans hskip'.marks)
    have hupdate := ihupdate.marks ((htake₄.marks (by rw [hclose]; rfl)).trans hmarks)
    exact .construct hkind (by decide) htake (htake₁.marks (by rw [hopen]; rfl))
      (hstart.trans (htest.trans (hupdate.trans hbody)))
  | governed hskip h ih => exact ⟨_, hskip.marks, ih⟩

/-! ### Items -/

theorem written_of_readsParams {params : List Token} (h : ReadsParams s params s') :
    ∃ s₁, PassesMarks s s₁ ∧ Writes s₁ (params.map .leaf) s' := by
  induction h with
  | last hskip hname htake => exact ⟨_, hskip.marks, htake.writes (by rw [hname]; decide)⟩
  | more hskip hname htake hcomma htake' hmore ih =>
    obtain ⟨s₁, hmarks, hmore⟩ := ih
    have hparam := htake.writes (by rw [hname]; decide)
    exact ⟨_, hskip.marks, (hparam.marks ((htake'.marks (by rw [hcomma]; rfl)).trans hmarks)).trans hmore⟩

theorem written_of_readsSelector {selector : Selector} (h : ReadsSelector s selector s') :
    Writes s [selector.outline] s' := by
  cases h with
  | single h => exact Writes.operation (written_of_reads h) placesIn_expr "pattern" (by decide)
  | range hfirst hcomma htake hskip hlast =>
    have hbetween := (htake.marks (by rw [hcomma]; rfl)).trans hskip.marks
    exact (Writes.trans (Writes.marks (written_of_reads hfirst) hbetween) (written_of_reads hlast)).operation placesIn_expr
      "range_pattern" (by decide)

theorem placesIn_stmt (stmt : Stmt) : placesIn (stmt.outline :: os) ≠ [] := by
  cases stmt <;> exact List.cons_ne_nil _ _

theorem placesIn_selector (selector : Selector) : placesIn (selector.outline :: os) ≠ [] := by
  cases selector <;> exact List.cons_ne_nil _ _

theorem written_of_readsItem {item : Item} (h : ReadsItem s item s') : Writes s [item.outline] s' := by
  cases h with
  | begin hkind htake hbody | «end» hkind htake hbody =>
    exact .construct hkind (by decide) htake .refl (written_of_readsStmt hbody)
  | always hbody => exact Writes.operation (written_of_readsStmt hbody) (fun _ => placesIn_stmt _) "rule" (by decide)
  | rule hselector hbody =>
    exact (Writes.trans (written_of_readsSelector hselector) (written_of_readsStmt hbody)).operation
      (fun _ => placesIn_selector _) "rule" (by decide)
  | selector hselector =>
    exact (written_of_readsSelector hselector).operation (fun _ => placesIn_selector _) "rule" (by decide)
  | function hkind htake hname htake₁ hopen htake₂ hparams hclose htake₃ hskip hbody =>
    have hnamed := htake₁.writes (by rcases hname with hname | hname <;> rw [hname] <;> decide)
    obtain ⟨s₇, hmarks, hlisted⟩ := hparams.elim
      (fun ⟨hnone, hsame⟩ => ⟨_, .refl, by rw [hnone, hsame]; exact .refl⟩) written_of_readsParams
    have hopened := (htake₂.marks (by rw [hopen]; rfl)).trans hmarks
    have hclosed := (htake₃.marks (by rw [hclose]; rfl)).recorded.trans hskip.marks
    have hheader := (hnamed.marks hopened).trans ((hlisted.bundle "params" (by decide)).marks hclosed)
    exact .construct hkind (by decide) htake .refl (hheader.trans (written_of_readsStmt hbody))

theorem written_of_readsItems {list : List Item} (h : ReadsItems s list s') :
    (∃ s₁, PassesMarks s s₁ ∧ Writes s₁ (list.map Item.outline) s') ∧ s'.current.kind = .eof := by
  induction h with
  | «end» hskip hend => exact ⟨⟨_, hskip.marks, .refl⟩, hend⟩
  | item hskip hfirst hmore ih =>
    obtain ⟨⟨s₁, hmarks, hmore⟩, hend⟩ := ih
    exact ⟨⟨_, hskip.marks, ((written_of_readsItem hfirst).marks hmarks).trans hmore⟩, hend⟩

end Parser

/-! ### Programs -/

/-- The places in a program delimit its text.  The program begins with the first token of the text, each of its items
where its tokens do. -/
def Program.Delimits (p : Program) (tokens : List Token) : Prop :=
  (∃ first ∈ tokens.head?, p.span.SameStart first.span) ∧
    ∃ before inner, tokens = before ++ inner ∧ Marks before ∧ Outline.Delimits (p.items.map Item.outline) inner

theorem Marks.operands (h : Marks tokens) : operandsOf tokens = [] := by
  refine List.filter_eq_nil_iff.2 fun token htoken => ?_
  rw [h token htoken]
  exact Bool.false_ne_true

/-- What a construct opens with is no operand. -/
theorem marks_of_openings {label : String} {opening : List Token} (h : opening.map Token.kind ∈ openings label) :
    Marks opening := by
  have hall : ∀ kinds ∈ openings label, ∀ k ∈ kinds, k.isOperand = false := by
    unfold openings
    split <;> decide
  exact fun token htoken => hall _ h _ (List.mem_map_of_mem htoken)

theorem leaves_pipedFrom (start : Span) (e : Expr) : (e.pipedFrom start).outline.leaves = e.outline.leaves := by
  fun_induction Expr.pipedFrom start e with
  | case1 span command target ih => simp [Expr.outline, ih]
  | case2 => rfl

/-- The operands of a text are those among the leaves that it spells. -/
theorem Outline.Spells.operands (h : Spells os tokens) : operandsOf (leavesIn os) = operandsOf tokens := by
  induction h with
  | nil => rfl
  | @leaf token gap os tokens hgap hmore ih =>
    have happend : token :: gap ++ tokens = [token] ++ (gap ++ tokens) := rfl
    rw [leavesIn_cons, leaves_leaf, operandsOf_append, ih, happend, operandsOf_append, operandsOf_append, hgap.operands,
      List.nil_append]
  | node hcompare hopening hbefore hfirst hchildren hspan hgap hmore ihchildren ih =>
    rw [leavesIn_cons, leaves_node, operandsOf_append, ihchildren, ih]
    simp only [operandsOf_append, (marks_of_openings hopening).operands, hbefore.operands, hgap.operands,
      List.nil_append, List.append_nil]
  | @compare left right mark inner inner' gap os tokens hleft hright hgap hmore ihleft ihright ih =>
    have happend : inner ++ mark :: inner' = inner ++ ([mark] ++ inner') := rfl
    simp only [leavesIn_cons, leavesIn_nil, List.append_nil] at ihleft ihright
    simp only [leavesIn_cons, leavesIn_nil, leaves_node, leaves_leaf, leaves_pipedFrom, operandsOf_append, ihleft, ihright,
      ih, happend, hgap.operands, List.append_nil, List.nil_append, List.append_assoc]

namespace Parser

variable {s s' : ParserState} {p : Program} {before inner : List Token}

/-- Marks at the end of a text belong to its last item, or if there are no items to the program. -/
theorem delimits_items {items : List Outline} {last : Token} (hbefore : Marks before) (hspells : Spells items inner)
    (hlast : Marks [last]) (hpipes : pipesRightIn items = false) :
    ∃ front back, before ++ inner ++ [last] = front ++ back ∧ Marks front ∧ Outline.Delimits items back := by
  by_cases hitems : items = []
  · subst hitems
    cases hspells
    exact ⟨_, _, by rw [List.append_nil, List.append_nil], hbefore.append hlast, .nil⟩
  · exact ⟨_, _, List.append_assoc _ _ _, hbefore, (hspells.marks hitems hlast).delimits hpipes⟩

/-- The place of a program holds its items. -/
theorem holds_program {items : List Outline} (hmoves : Moves s (before ++ inner) s') (hfed : Fed s)
    (hspells : Spells items inner) (horder : Ordered (before ++ inner)) :
    holds (some (s'.spanFrom s.current)) (placesIn items) = true := by
  by_cases hnone : before ++ inner = []
  · rw [List.append_eq_nil_iff] at hnone
    have hplaces : placesIn items = [] := by
      by_contra hne
      exact hspells.ne_nil hne hnone.2
    rw [hplaces]
    rfl
  · rw [hmoves.spanFrom hfed hnone]
    exact holds_of_spells before hspells horder (reaches_extentOf hnone)

/-- A program begins with the first token of its text. -/
theorem sameStart_program {tokens : List Token} (hmoves : Moves s tokens s') (hfed : Fed s) :
    ∃ first ∈ (tokens ++ [s'.current]).head?, (s'.spanFrom s.current).SameStart first.span := by
  cases tokens with
  | nil => exact ⟨s'.current, rfl, by rw [hmoves.current_eq]; exact ⟨rfl, rfl, rfl⟩⟩
  | cons first rest =>
    refine ⟨first, rfl, ?_⟩
    rw [(hmoves.head hfed first rfl).1]
    exact ⟨rfl, rfl, rfl⟩

end Parser

/-- The nodes of an accepted program reach each from the first of its tokens to the last and hold their children one
behind the other, if and only if no comparison in it has a pipe into `getline` for its right operand. -/
theorem delimits_of_parseProgram {source : Text} {p : Program} (h : parseProgram source = .ok p) :
    ∃ tokens stop last behind, (Cursor.ofText source).Covers tokens stop ∧ stop.token = .ok (last, behind) ∧
      last.kind = .eof ∧ operandsOf p.outline.leaves = operandsOf tokens ∧
        (p.Delimits (tokens ++ [last]) ∧ p.outline.nested = true ↔ p.outline.pipesRight = false) := by
  obtain ⟨s, s', hstart, hreads, hspan⟩ := Parser.exists_reads_of_parseProgram h
  obtain ⟨hfed, hposition⟩ := Parser.fed_start hstart
  obtain ⟨⟨s₁, ⟨before, hmoves, hbefore⟩, hwrites⟩, hend⟩ := Parser.written_of_readsItems hreads
  obtain ⟨inner, hmoves', hspells⟩ := hwrites (hmoves.fed hfed)
  have hall := hmoves.trans hmoves'
  have hcovers := hall.covers hfed
  have hordered : Ordered (before ++ inner) :=
    ⟨hcovers.inOrder, fun token htoken => (hcovers.bounds.2 token htoken).2.1⟩
  refine ⟨before ++ inner, s'.position, s'.current, s'.behind, hposition ▸ hcovers, hall.fed hfed, hend, ?_, ?_⟩
  · rw [Program.outline, leaves_node, hspells.operands, operandsOf_append, hbefore.operands, List.nil_append]
  have hpipes : p.outline.pipesRight = pipesRightIn (p.items.map Item.outline) := by
    simp [Program.outline, pipesRight]
  have hnested : p.outline.nested = true ↔ p.outline.pipesRight = false := by
    rw [hpipes, Program.outline, nested, hspan, Parser.holds_program hall hfed hspells hordered, Bool.true_and]
    exact hspells.nested_iff hordered.of_append.2
  refine ⟨fun hboth => hnested.1 hboth.2, fun hnone => ⟨⟨?_, ?_⟩, hnested.2 hnone⟩⟩
  · rw [hspan]
    exact Parser.sameStart_program hall hfed
  · have hlast : Marks [s'.current] := by simp [Marks, hend, TokenKind.isOperand]
    exact Parser.delimits_items hbefore hspells hlast (hpipes ▸ hnone)

/-- A statement whose condition compares what a pipe into `getline` gives. -/
def pipedCondition : Text := "BEGIN \x7b if (\"c\" | getline x > 0)\n  print x, 1 ~ \"a\"; ; \x7d # end".toList

theorem delimits_of_parseProgram_pipedCondition :
    ∃ p tokens stop last behind, parseProgram pipedCondition = .ok p ∧ (Cursor.ofText pipedCondition).Covers tokens stop ∧
      stop.token = .ok (last, behind) ∧ last.kind = .eof ∧ operandsOf p.outline.leaves = operandsOf tokens ∧
        p.Delimits (tokens ++ [last]) ∧ p.outline.nested = true := by
  have hpipes : ((parseProgram pipedCondition).map fun p => p.outline.pipesRight).toOption = some false := by
    decide +kernel
  cases hparse : parseProgram pipedCondition with
  | error e =>
    rw [hparse] at hpipes
    cases hpipes
  | ok p =>
    rw [hparse] at hpipes
    obtain ⟨tokens, stop, last, behind, hcovers, hstop, hend, heq, hlaws⟩ := delimits_of_parseProgram hparse
    obtain ⟨hdelimits, hnested⟩ := hlaws.2 (Option.some.inj hpipes)
    exact ⟨p, tokens, stop, last, behind, rfl, hcovers, hstop, hend, heq, hdelimits, hnested⟩

/-- A pattern that compares a number with what a pipe into `getline` gives. -/
def comparedPipe : Text := "1 == \"c\" | getline".toList

/-- The pipe is placed from the first token of the comparison on, over the left operand. -/
theorem not_nested_comparedPipe : ∃ p, parseProgram comparedPipe = .ok p ∧ p.outline.nested = false := by
  have hnested : ((parseProgram comparedPipe).map fun p => p.outline.nested).toOption = some false := by
    decide +kernel
  cases hparse : parseProgram comparedPipe with
  | error e =>
    rw [hparse] at hnested
    cases hnested
  | ok p =>
    rw [hparse] at hnested
    exact ⟨p, rfl, Option.some.inj hnested⟩

end Awk
