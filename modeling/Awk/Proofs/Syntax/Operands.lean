import Awk.Proofs.Syntax.Grammar.Program
import Awk.Syntax.Outline

/-!
# No operand is lost

The literals and names of a program text stand in the tree in the order of the text, each once
(`operands_of_parseProgram`).  Every rule of the grammar keeps them so: what is read between two states has the
operands of the tokens between them (`Consumes`), of which the rules pass over none but operators, keywords and
punctuation.
-/

namespace Awk

/-- Kinds of the tokens that are operands: literals and names. -/
def TokenKind.isOperand : TokenKind → Bool
  | number | string | ere | name | funcName | builtin _ => true
  | _ => false

def operandsOf (tokens : List Token) : List Token := tokens.filter (·.kind.isOperand)

mutual

/-- The tokens of an outline from left to right. -/
def Outline.leaves : Outline → List Token
  | node _ _ children => Outline.leavesIn children
  | leaf token => [token]
  | value _ => []

def Outline.leavesIn : List Outline → List Token
  | [] => []
  | o :: os => o.leaves ++ Outline.leavesIn os

end

/-- The text between two places is covered by tokens, with nothing but blanks between them.  Where a slash stands, a
regular expression may be read in its place. -/
inductive Cursor.Covers : Cursor → List Token → Cursor → Prop
  | nil {cursor} : Covers cursor [] cursor
  | token {cursor token behind tokens stop} (htoken : cursor.token = .ok (token, behind)) (hend : token.kind ≠ .eof)
    (hmore : Covers behind tokens stop) : Covers cursor (token :: tokens) stop
  | regex {cursor slash after token behind tokens stop} (hslash : cursor.token = .ok (slash, after))
    (hkind : slash.kind = .slash ∨ slash.kind = .divAssign) (hregex : cursor.regex = .ok (token, behind))
    (hmore : Covers behind tokens stop) : Covers cursor (token :: tokens) stop

@[simp]
theorem operandsOf_append (tokens tokens' : List Token) :
    operandsOf (tokens ++ tokens') = operandsOf tokens ++ operandsOf tokens' :=
  List.filter_append ..

theorem Cursor.Covers.append {cursor middle stop : Cursor} {tokens tokens' : List Token}
    (h : cursor.Covers tokens middle) (h' : middle.Covers tokens' stop) : cursor.Covers (tokens ++ tokens') stop := by
  induction h with
  | nil => exact h'
  | token htoken hend hmore ih => exact .token htoken hend (ih h')
  | regex hslash hkind hregex hmore ih => exact .regex hslash hkind hregex (ih h')

namespace Outline

@[simp]
theorem leaves_node (label : String) (span : Option Span) (children : List Outline) :
    (node label span children).leaves = leavesIn children := by
  rw [leaves]

@[simp]
theorem leaves_leaf (token : Token) : (leaf token).leaves = [token] := by
  rw [leaves]

@[simp]
theorem leavesIn_nil : leavesIn [] = [] := by
  rw [leavesIn]

@[simp]
theorem leavesIn_cons (o : Outline) (os : List Outline) : leavesIn (o :: os) = o.leaves ++ leavesIn os := by
  rw [leavesIn]

theorem leavesIn_append (os os' : List Outline) : leavesIn (os ++ os') = leavesIn os ++ leavesIn os' := by
  induction os with
  | nil => simp
  | cons o os ih => simp [ih]

@[simp]
theorem leaves_nothing : nothing.leaves = [] := by simp [nothing]

@[simp]
theorem leavesIn_map_leaf (tokens : List Token) : leavesIn (tokens.map leaf) = tokens := by
  induction tokens with
  | nil => rfl
  | cons token tokens ih => simp [ih]

end Outline

namespace Parser

open Outline

/-- The operands among some leaves are those of the tokens between two states. -/
def Consumes (s : ParserState) (leaves : List Token) (s' : ParserState) : Prop :=
  Fed s → Fed s' ∧ ∃ tokens, s.position.Covers tokens s'.position ∧ operandsOf leaves = operandsOf tokens

variable {s s' s₁ : ParserState} {leaves leaves' : List Token}

theorem Consumes.refl : Consumes s [] s := fun h => ⟨h, [], .nil, rfl⟩

theorem Consumes.trans (h : Consumes s leaves s₁) (h' : Consumes s₁ leaves' s') :
    Consumes s (leaves ++ leaves') s' := by
  intro hfed
  obtain ⟨hfed₁, tokens, hcovers, heq⟩ := h hfed
  obtain ⟨hfed', tokens', hcovers', heq'⟩ := h' hfed₁
  refine ⟨hfed', tokens ++ tokens', hcovers.append hcovers', ?_⟩
  rw [operandsOf_append, operandsOf_append, heq, heq']

/-- The functions and calls on record are no part of what is read. -/
theorem Consumes.recorded {functions : List (Text × Nat)} {calls : List (Token × Nat)} (h : Consumes s leaves s') :
    Consumes s leaves { s' with functions := functions, calls := calls } :=
  h

theorem Takes.consumes (h : Takes s s') (hend : s.current.kind ≠ .eof) : Consumes s [s.current] s' := by
  intro hfed
  obtain ⟨token, behind, htoken, rfl⟩ := takes_iff.1 h
  exact ⟨htoken, [s.current], .token hfed hend .nil, rfl⟩

theorem TakesRegex.consumes {token : Token} (h : TakesRegex s token s')
    (hkind : s.current.kind = .slash ∨ s.current.kind = .divAssign) : Consumes s [token] s' := by
  intro hfed
  obtain ⟨stop, next, behind, hregex, hnext, rfl⟩ := takesRegex_iff.1 h
  exact ⟨hnext, [token], .regex hfed hkind hregex .nil, rfl⟩

/-- Kinds of the tokens that may be left out of the tree: neither operands nor the end of the text. -/
def isMark (k : TokenKind) : Bool := !k.isOperand && k != .eof

theorem Takes.passes (h : Takes s s') (hmark : isMark s.current.kind = true) : Consumes s [] s' := by
  rw [isMark, Bool.and_eq_true, Bool.not_eq_true', bne_iff_ne] at hmark
  intro hfed
  obtain ⟨hfed', tokens, hcovers, heq⟩ := h.consumes hmark.2 hfed
  refine ⟨hfed', tokens, hcovers, ?_⟩
  rw [← heq]
  simp [operandsOf, hmark.1]

theorem Skips.passes {skipped : TokenKind → Bool} (h : Skips skipped s s')
    (hmark : ∀ {k}, skipped k = true → isMark k = true) : Consumes s [] s' := by
  induction h with
  | refl => exact .refl
  | step hkind htake hrest ih => exact (htake.passes (hmark hkind)).trans ih

theorem SkipsNewlines.passes (h : SkipsNewlines s s') : Consumes s [] s' :=
  Skips.passes h fun hk => by rw [eq_of_beq hk]; rfl

theorem SkipsTerminators.passes (h : SkipsTerminators s s') : Consumes s [] s' := by
  refine Skips.passes h fun hk => ?_
  rcases Bool.or_eq_true_iff.1 hk with hk | hk <;> rw [eq_of_beq hk] <;> rfl

/-! ### Expressions -/

/-- What is read as a nonterminal, as outlines from left to right. -/
def Nonterminal.outlines : (x : Nonterminal) → x.Result → List Outline
  | level .., e | operand .., e | signed .., e | primary, e => [e.outline]
  | parts _, es | moreItems _, es | arguments, es => Awk.outlines es
  | lvalue, target => [target.outline]
  | subscripts, subs => Awk.outlines subs.items
  | getlineTarget, target => [targetOutline target]

/-- The end of the text is no operator. -/
theorem ne_eof_of_some {α : Type} {table : TokenKind → Option α} {k : TokenKind} {op : α} (h : table k = some op)
    (hnone : table .eof = none) : k ≠ .eof := by
  rintro rfl
  rw [hnone] at h
  cases h

theorem consumes_of_reads {x : Nonterminal} {v : x.Result} (h : Reads x s v s') :
    Consumes s (leavesIn (x.outlines v)) s' := by
  induction h with
  | tighter h ih => exact ih
  | assign hleft hop htake hskip hright ihleft ihright =>
    have hmark := htake.consumes (ne_eof_of_some hop rfl)
    simpa [Nonterminal.outlines, Expr.outline] using ihleft.trans (hmark.trans (hskip.passes.trans ihright))
  | conditional htest hmark htake hskip hyes hskip' hcolon htake' hskip'' hno ihtest ihyes ihno =>
    have hbetween := (htake.passes (by rw [hmark]; rfl)).trans hskip.passes
    have hbetween' := hskip'.passes.trans ((htake'.passes (by rw [hcolon]; rfl)).trans hskip''.passes)
    simpa [Nonterminal.outlines, Expr.outline] using
      ihtest.trans (hbetween.trans (ihyes.trans (hbetween'.trans ihno)))
  | disjunction hleft hkind htake hskip hright ihleft ihright =>
    have hbetween := (htake.passes (by rw [hkind]; rfl)).trans hskip.passes
    simpa [Nonterminal.outlines, Expr.outline] using ihleft.trans (hbetween.trans ihright)
  | conjunction hleft hkind htake hskip hright ihleft ihright =>
    have hbetween := (htake.passes (by rw [hkind]; rfl)).trans hskip.passes
    simpa [Nonterminal.outlines, Expr.outline] using ihleft.trans (hbetween.trans ihright)
  | membership hleft hkind htake hname htake' ihleft =>
    have hbetween := htake.passes (by rw [hkind]; rfl)
    have harray := htake'.consumes (by rw [hname]; decide)
    simpa [Nonterminal.outlines, Expr.outline, Awk.outlines] using ihleft.trans (hbetween.trans harray)
  | @matching p s left s₁ negated s₂ right s' hleft hkind htake hright ihleft ihright =>
    have hmark := htake.consumes (by rw [hkind]; cases negated <;> decide)
    simpa [Nonterminal.outlines, Expr.outline] using ihleft.trans (hmark.trans ihright)
  | uncompared h ih => exact ih
  | compare hleft hop hprint htake hright ihleft ihright =>
    have hmark := htake.consumes (ne_eof_of_some hop rfl)
    simpa [Nonterminal.outlines, Expr.outline] using ihleft.trans (hmark.trans ihright)
  | unpiped h ih => exact ih
  | pipe hcommand hpipe htake hgetline htake' htarget ihcommand ihtarget =>
    have hbetween := (htake.passes (by rw [hpipe]; rfl)).trans (htake'.passes (by rw [hgetline]; rfl))
    simpa [Nonterminal.outlines, Expr.outline] using ihcommand.trans (hbetween.trans ihtarget)
  | concat hfirst hmore ihfirst ihmore =>
    simpa [Nonterminal.outlines, Expr.outline, Awk.outlines] using ihfirst.trans ihmore
  | noParts => exact .refl
  | parts hstart hpart hmore ihpart ihmore =>
    simpa [Nonterminal.outlines, Awk.outlines] using ihpart.trans ihmore
  | sum hleft hop htake hright ihleft ihright =>
    have hmark := htake.consumes (ne_eof_of_some hop rfl)
    simpa [Nonterminal.outlines, Expr.outline] using ihleft.trans (hmark.trans ihright)
  | product hleft hop htake hright ihleft ihright =>
    have hmark := htake.consumes (ne_eof_of_some hop rfl)
    simpa [Nonterminal.outlines, Expr.outline] using ihleft.trans (hmark.trans ihright)
  | sign h ih => exact ih
  | unsigned h ih => exact ih
  | signed hop htake hoperand ih =>
    have hmark := htake.consumes (ne_eof_of_some hop rfl)
    simpa [Nonterminal.outlines, Expr.outline] using hmark.trans ih
  | power hbase hkind htake hexponent ihbase ihexponent =>
    have hbetween := htake.passes (by rw [hkind]; rfl)
    simpa [Nonterminal.outlines, Expr.outline] using ihbase.trans (hbetween.trans ihexponent)
  | preStep hop htake htarget ih =>
    have hmark := htake.consumes (ne_eof_of_some hop rfl)
    simpa [Nonterminal.outlines, Expr.outline] using hmark.trans ih
  | postStep htarget hop htake ih =>
    have hmark := htake.consumes (ne_eof_of_some hop rfl)
    simpa [Nonterminal.outlines, Expr.outline] using ih.trans hmark
  | primary h ih => exact ih
  | number hkind htake =>
    simpa [Nonterminal.outlines, Expr.outline] using htake.consumes (by rw [hkind]; decide)
  | string hkind htake =>
    simpa [Nonterminal.outlines, Expr.outline] using htake.consumes (by rw [hkind]; decide)
  | regex hkind htake => simpa [Nonterminal.outlines, Expr.outline] using htake.consumes hkind
  | lvalue h ih => simpa [Nonterminal.outlines, Expr.outline] using ih
  | call hkind htake hopen htake' hargs ih =>
    have hname := htake.consumes (by rw [hkind]; decide)
    have hbetween := htake'.passes (by rw [hopen]; rfl)
    simpa [Nonterminal.outlines, Expr.outline] using (hname.trans (hbetween.trans ih)).recorded
  | @builtin s b s₁ s₂ args s' hkind htake hopen htake' hargs ih =>
    have hname := htake.consumes (by rw [hkind]; exact TokenKind.noConfusion)
    have hbetween := htake'.passes (by rw [hopen]; rfl)
    simpa [Nonterminal.outlines, Expr.outline] using hname.trans (hbetween.trans ih)
  | bareLength hkind htake =>
    simpa [Nonterminal.outlines, Expr.outline, Awk.outlines] using htake.consumes (by rw [hkind]; decide)
  | getline hkind htake htarget ih =>
    have hbefore := htake.passes (by rw [hkind]; rfl)
    simpa [Nonterminal.outlines, Expr.outline] using hbefore.trans ih
  | getlineFile hkind htake htarget hfrom htake' hfile ihtarget ihfile =>
    have hbefore := htake.passes (by rw [hkind]; rfl)
    have hbetween := htake'.passes (by rw [hfrom]; rfl)
    simpa [Nonterminal.outlines, Expr.outline] using hbefore.trans (ihtarget.trans (hbetween.trans ihfile))
  | group hopen htake hinner hclose htake' ih =>
    have hbefore := htake.passes (by rw [hopen]; rfl)
    have hafter := htake'.passes (by rw [hclose]; rfl)
    simpa [Nonterminal.outlines, Expr.outline] using hbefore.trans (ih.trans hafter)
  | members hopen htake hfirst hmore hclose htake₁ hin htake₂ hname htake₃ ihfirst ihmore =>
    have hbefore := htake.passes (by rw [hopen]; rfl)
    have hbetween := (htake₁.passes (by rw [hclose]; rfl)).trans (htake₂.passes (by rw [hin]; rfl))
    have harray := htake₃.consumes (by rw [hname]; decide)
    simpa [Nonterminal.outlines, Expr.outline, Awk.outlines] using
      hbefore.trans (ihfirst.trans (ihmore.trans (hbetween.trans harray)))
  | field hkind htake hindex ih =>
    have hbefore := htake.passes (by rw [hkind]; rfl)
    simpa [Nonterminal.outlines, LValue.outline] using hbefore.trans ih
  | fieldStep hkind htake hop htake' htarget ih =>
    have hbefore := htake.passes (by rw [hkind]; rfl)
    have hmark := htake'.consumes (ne_eof_of_some hop rfl)
    simpa [Nonterminal.outlines, LValue.outline, Expr.outline] using hbefore.trans (hmark.trans ih)
  | name hkind htake =>
    simpa [Nonterminal.outlines, LValue.outline] using htake.consumes (by rw [hkind]; decide)
  | element hkind htake hopen htake' hsubs ih =>
    have hname := htake.consumes (by rw [hkind]; decide)
    have hbetween := htake'.passes (by rw [hopen]; rfl)
    simpa [Nonterminal.outlines, LValue.outline] using hname.trans (hbetween.trans ih)
  | subscripts hfirst hmore hclose htake ihfirst ihmore =>
    have hafter := htake.passes (by rw [hclose]; rfl)
    simpa [Nonterminal.outlines, Awk.outlines] using ihfirst.trans (ihmore.trans hafter)
  | noItems => exact .refl
  | moreItems hcomma htake hskip he hmore ihe ihmore =>
    have hbefore := (htake.passes (by rw [hcomma]; rfl)).trans hskip.passes
    simpa [Nonterminal.outlines, Awk.outlines] using hbefore.trans (ihe.trans ihmore)
  | noArguments hskip hclose htake =>
    simpa [Nonterminal.outlines, Awk.outlines] using hskip.passes.trans (htake.passes (by rw [hclose]; rfl))
  | arguments hskip hfirst hmore hskip' hclose htake ihfirst ihmore =>
    have hafter := hskip'.passes.trans (htake.passes (by rw [hclose]; rfl))
    simpa [Nonterminal.outlines, Awk.outlines] using hskip.passes.trans (ihfirst.trans (ihmore.trans hafter))
  | noTarget => simpa [Nonterminal.outlines, targetOutline] using Consumes.refl
  | someTarget h ih => simpa [Nonterminal.outlines, targetOutline] using ih

/-! ### Statements -/

/-- What is read as a clause, as outlines from left to right. -/
def Clause.outlines : (x : Clause) → x.Result → List Outline
  | expr?, e => [exprOutline e]
  | test, e => [e.outline]
  | items, es => Awk.outlines es
  | simple _, stmt | block _, stmt | statement _, stmt | governed _, stmt => [stmt.outline]
  | simple? _, stmt => [stmtOutline stmt]
  | body _, stmts => stmtOutlines stmts

@[simp]
theorem leavesIn_exprOutline (e : Option Expr) :
    leavesIn (e.map Expr.outline).toList = (exprOutline e).leaves := by
  cases e <;> simp [exprOutline]

theorem consumes_of_readsStmt {x : Clause} {v : x.Result} (h : ReadsStmt x s v s') :
    Consumes s (leavesIn (x.outlines v)) s' := by
  induction h with
  | noExpr => simpa [Clause.outlines, exprOutline] using Consumes.refl
  | someExpr h => exact consumes_of_reads h
  | test hopen htake he hclose htake' =>
    have hbefore := htake.passes (by rw [hopen]; rfl)
    have hafter := htake'.passes (by rw [hclose]; rfl)
    simpa [Clause.outlines, Nonterminal.outlines] using hbefore.trans ((consumes_of_reads he).trans hafter)
  | noItems => exact .refl
  | items hfirst hmore =>
    simpa [Clause.outlines, Nonterminal.outlines, Awk.outlines] using
      (consumes_of_reads hfirst).trans (consumes_of_reads hmore)
  | listedItems hopen htake hfirst hmore hclose htake' =>
    have hbefore := htake.passes (by rw [hopen]; rfl)
    have hafter := htake'.passes (by rw [hclose]; rfl)
    have hitems := (consumes_of_reads hfirst).trans (consumes_of_reads hmore)
    simpa [Clause.outlines, Nonterminal.outlines, Awk.outlines] using hbefore.trans (hitems.trans hafter)
  | print hkind htake hitems ih =>
    have hprint := htake.consumes (by rcases hkind with hkind | hkind <;> rw [hkind] <;> decide)
    simpa [Clause.outlines, Stmt.outline] using hprint.trans ih
  | printTo hkind htake hitems hop htake' htarget ih =>
    have hprint := htake.consumes (by rcases hkind with hkind | hkind <;> rw [hkind] <;> decide)
    have hmark := htake'.consumes (ne_eof_of_some hop rfl)
    simpa [Clause.outlines, Nonterminal.outlines, Stmt.outline, Redirect.outline] using
      hprint.trans (ih.trans (hmark.trans (consumes_of_reads htarget)))
  | delete hkind htake hname htake' =>
    have hbefore := htake.passes (by rw [hkind]; rfl)
    simpa [Clause.outlines, Stmt.outline] using hbefore.trans (htake'.consumes (by rw [hname]; decide))
  | deleteElement hkind htake hname htake' hopen htake'' hsubs =>
    have hbefore := htake.passes (by rw [hkind]; rfl)
    have harray := htake'.consumes (by rw [hname]; decide)
    have hbetween := htake''.passes (by rw [hopen]; rfl)
    simpa [Clause.outlines, Nonterminal.outlines, Stmt.outline, Subscripts.outline] using
      hbefore.trans (harray.trans (hbetween.trans (consumes_of_reads hsubs)))
  | «break» hkind hloop htake =>
    simpa [Clause.outlines, Stmt.outline] using htake.passes (by rw [hkind]; rfl)
  | «continue» hkind hloop htake =>
    simpa [Clause.outlines, Stmt.outline] using htake.passes (by rw [hkind]; rfl)
  | next hkind hrule htake => simpa [Clause.outlines, Stmt.outline] using htake.passes (by rw [hkind]; rfl)
  | nextFile hkind hrule htake => simpa [Clause.outlines, Stmt.outline] using htake.passes (by rw [hkind]; rfl)
  | exit hkind htake hcode ih =>
    have hbefore := htake.passes (by rw [hkind]; rfl)
    simpa [Clause.outlines, Stmt.outline] using hbefore.trans ih
  | «return» hkind hfunction htake hvalue ih =>
    have hbefore := htake.passes (by rw [hkind]; rfl)
    simpa [Clause.outlines, Stmt.outline] using hbefore.trans ih
  | expr he => simpa [Clause.outlines, Stmt.outline, Nonterminal.outlines] using consumes_of_reads he
  | noStmt => simpa [Clause.outlines, stmtOutline] using Consumes.refl
  | someStmt h ih => simpa [Clause.outlines, stmtOutline] using ih
  | block hopen htake hbody ih =>
    have hbefore := htake.passes (by rw [hopen]; rfl)
    simpa [Clause.outlines, Stmt.outline] using hbefore.trans ih
  | endBody hskip hclose htake =>
    simpa [Clause.outlines, stmtOutlines] using hskip.passes.trans (htake.passes (by rw [hclose]; rfl))
  | body hskip hfirst hmore ihfirst ihmore =>
    simpa [Clause.outlines, stmtOutlines] using hskip.passes.trans (ihfirst.trans ihmore)
  | ofBlock h ih => exact ih
  | ofSimple h ih => exact ih
  | empty hkind htake => simpa [Clause.outlines, Stmt.outline] using htake.passes (by rw [hkind]; rfl)
  | ifThen hkind htake htest hyes ihtest ihyes =>
    have hbefore := htake.passes (by rw [hkind]; rfl)
    simpa [Clause.outlines, Stmt.outline, elseOutline] using hbefore.trans (ihtest.trans ihyes)
  | ifElse hkind htake htest hyes hskip helse htake' hno ihtest ihyes ihno =>
    have hbefore := htake.passes (by rw [hkind]; rfl)
    have hbetween := hskip.passes.trans (htake'.passes (by rw [helse]; rfl))
    simpa [Clause.outlines, Stmt.outline, elseOutline] using
      hbefore.trans (ihtest.trans (ihyes.trans (hbetween.trans ihno)))
  | «while» hkind htake htest hbody ihtest ihbody =>
    have hbefore := htake.passes (by rw [hkind]; rfl)
    simpa [Clause.outlines, Stmt.outline] using hbefore.trans (ihtest.trans ihbody)
  | doWhile hkind htake hbody hskip hwhile htake' htest ihbody ihtest =>
    have hbefore := htake.passes (by rw [hkind]; rfl)
    have hbetween := hskip.passes.trans (htake'.passes (by rw [hwhile]; rfl))
    simpa [Clause.outlines, Stmt.outline] using hbefore.trans (ihbody.trans (hbetween.trans ihtest))
  | forIn hkind htake hopen htake₁ helement htake₂ hin htake₃ harray htake₄ hclose htake₅ hbody ih =>
    have hbefore := (htake.passes (by rw [hkind]; rfl)).trans (htake₁.passes (by rw [hopen]; rfl))
    have hheader := (htake₂.consumes (by rw [helement]; decide)).trans
      ((htake₃.passes (by rw [hin]; rfl)).trans (htake₄.consumes (by rw [harray]; decide)))
    have hafter := htake₅.passes (by rw [hclose]; rfl)
    simpa [Clause.outlines, Stmt.outline] using hbefore.trans (hheader.trans (hafter.trans ih))
  | «for» hkind htake hopen htake₁ hstart hsemi htake₂ hskip htest hsemi' htake₃ hskip' hupdate hclose htake₄ hbody
      ihstart ihtest ihupdate ihbody =>
    have hbefore := (htake.passes (by rw [hkind]; rfl)).trans (htake₁.passes (by rw [hopen]; rfl))
    have hbetween := (htake₂.passes (by rw [hsemi]; rfl)).trans hskip.passes
    have hbetween' := (htake₃.passes (by rw [hsemi']; rfl)).trans hskip'.passes
    have hafter := htake₄.passes (by rw [hclose]; rfl)
    simpa [Clause.outlines, Stmt.outline] using hbefore.trans (ihstart.trans (hbetween.trans
      (ihtest.trans (hbetween'.trans (ihupdate.trans (hafter.trans ihbody))))))
  | governed hskip h ih => exact hskip.passes.trans ih

/-! ### Items -/

theorem consumes_of_readsParams {params : List Token} (h : ReadsParams s params s') : Consumes s params s' := by
  induction h with
  | last hskip hname htake => exact hskip.passes.trans (htake.consumes (by rw [hname]; decide))
  | more hskip hname htake hcomma htake' hmore ih =>
    have hparam := hskip.passes.trans (htake.consumes (by rw [hname]; decide))
    exact hparam.trans ((htake'.passes (by rw [hcomma]; rfl)).trans ih)

theorem consumes_of_readsSelector {selector : Selector} (h : ReadsSelector s selector s') :
    Consumes s selector.outline.leaves s' := by
  cases h with
  | single h => simpa [Selector.outline, Nonterminal.outlines] using consumes_of_reads h
  | range hfirst hcomma htake hskip hlast =>
    have hbetween := (htake.passes (by rw [hcomma]; rfl)).trans hskip.passes
    simpa [Selector.outline, Nonterminal.outlines] using
      (consumes_of_reads hfirst).trans (hbetween.trans (consumes_of_reads hlast))

theorem consumes_of_readsItem {item : Item} (h : ReadsItem s item s') : Consumes s item.outline.leaves s' := by
  cases h with
  | begin hkind htake hbody | «end» hkind htake hbody =>
    have hbefore := htake.passes (by rw [hkind]; rfl)
    simpa [Item.outline, Clause.outlines] using hbefore.trans (consumes_of_readsStmt hbody)
  | always hbody => simpa [Item.outline, Clause.outlines] using consumes_of_readsStmt hbody
  | rule hselector hbody =>
    simpa [Item.outline, Clause.outlines] using
      (consumes_of_readsSelector hselector).trans (consumes_of_readsStmt hbody)
  | selector hselector => simpa [Item.outline] using consumes_of_readsSelector hselector
  | function hkind htake hname htake₁ hopen htake₂ hparams hclose htake₃ hskip hbody =>
    have hbefore := htake.passes (by rw [hkind]; rfl)
    have hnamed := htake₁.consumes (by rcases hname with hname | hname <;> rw [hname] <;> decide)
    have hopened := htake₂.passes (by rw [hopen]; rfl)
    have hlisted := hparams.elim (fun ⟨hnone, hsame⟩ => by rw [hnone, hsame]; exact .refl) consumes_of_readsParams
    have hclosed := (htake₃.passes (by rw [hclose]; rfl)).recorded.trans hskip.passes
    simpa [Item.outline, Clause.outlines] using hbefore.trans (hnamed.trans (hopened.trans
      (hlisted.trans (hclosed.trans (consumes_of_readsStmt hbody)))))

theorem consumes_of_readsItems {list : List Item} (h : ReadsItems s list s') :
    Consumes s (leavesIn (list.map Item.outline)) s' ∧ s'.current.kind = .eof := by
  induction h with
  | «end» hskip hend => exact ⟨hskip.passes, hend⟩
  | item hskip hfirst hmore ih =>
    refine ⟨?_, ih.2⟩
    simpa using hskip.passes.trans ((consumes_of_readsItem hfirst).trans ih.1)

theorem fed_start {source : Text} (h : start source = .ok s) : Fed s ∧ s.position = .ofText source := by
  obtain ⟨⟨token, behind⟩, htoken, h⟩ := Action.bind_eq_ok.1 h
  cases h
  exact ⟨htoken, rfl⟩

end Parser

/-- The literals and names of a program text, a regular expression being one of them, are the leaves of these kinds of
its tree, in the order of the text and with their places: tokens cover the text up to its end, and the operands among
them are those among the leaves. -/
theorem operands_of_parseProgram {source : Text} {p : Program} (h : parseProgram source = .ok p) :
    ∃ tokens stop token behind, (Cursor.ofText source).Covers tokens stop ∧ stop.token = .ok (token, behind) ∧
      token.kind = .eof ∧ operandsOf p.outline.leaves = operandsOf tokens := by
  obtain ⟨s, s', hstart, hreads, -⟩ := Parser.exists_reads_of_parseProgram h
  obtain ⟨hfed, hposition⟩ := Parser.fed_start hstart
  obtain ⟨hconsumes, hend⟩ := Parser.consumes_of_readsItems hreads
  obtain ⟨hfed', tokens, hcovers, heq⟩ := hconsumes hfed
  rw [hposition] at hcovers
  exact ⟨tokens, s'.position, s'.current, s'.behind, hcovers, hfed', hend, by simpa [Program.outline] using heq⟩

/-- A rule whose print statement begins with a parenthesis that holds only its first item. -/
def groupedItem : Text := "/a b/ \x7b print (x) / y, z[1] > \"f\" \x7d".toList

theorem operands_of_parseProgram_groupedItem :
    ∃ p tokens stop token behind, parseProgram groupedItem = .ok p ∧
      (Cursor.ofText groupedItem).Covers tokens stop ∧ stop.token = .ok (token, behind) ∧ token.kind = .eof ∧
      operandsOf p.outline.leaves = operandsOf tokens ∧
      (operandsOf tokens).map Token.text = ["a b", "x", "y", "z", "1", "f"].map String.toList := by
  have htexts : ((parseProgram groupedItem).map fun p => (operandsOf p.outline.leaves).map Token.text).toOption =
      some (["a b", "x", "y", "z", "1", "f"].map String.toList) := by
    decide +kernel
  cases hparse : parseProgram groupedItem with
  | error e =>
    rw [hparse] at htexts
    cases htexts
  | ok p =>
    rw [hparse] at htexts
    obtain ⟨tokens, stop, token, behind, hcovers, hstop, hend, heq⟩ := operands_of_parseProgram hparse
    refine ⟨p, tokens, stop, token, behind, rfl, hcovers, hstop, hend, heq, ?_⟩
    rw [← heq]
    exact Option.some.inj htexts

end Awk
