import Awk.Proofs.Numerals.Literals
import Awk.Proofs.Action
import Awk.Proofs.Syntax.Layout.Walk

/-!
# Folding a program

Folding goes through the whole tree and fails at number literals only.  So a tree that the parser gives is folded if,
and only if, the number literals among its leaves can be folded, by a case for each rule of the grammar.
-/

namespace Awk

open Awk.Action (bind_eq_ok)
open Outline (leavesIn)
open Unicode (isDecimal isDigit)

/-- The token can be folded, if it is a number literal. -/
def Token.Folds (token : Token) : Prop := token.kind = .number → ∃ v, literalNumber token.text = .ok v

/-- The number literals among some leaves can be folded. -/
def Folding (leaves : List Token) : Prop := ∀ token ∈ leaves, token.Folds

@[simp]
theorem folding_nil : Folding [] := List.forall_mem_nil _

@[simp]
theorem folding_cons {token : Token} {leaves : List Token} : Folding (token :: leaves) ↔ token.Folds ∧ Folding leaves :=
  List.forall_mem_cons

@[simp]
theorem folding_append {leaves leaves' : List Token} :
    Folding (leaves ++ leaves') ↔ Folding leaves ∧ Folding leaves' :=
  List.forall_mem_append

theorem Token.folds_of_ne {token : Token} (h : token.kind ≠ .number) : token.Folds := fun hkind => absurd hkind h

/-- An operator is no number. -/
theorem Token.folds_of_some {α : Type} {table : TokenKind → Option α} {token : Token} {op : α}
    (h : table token.kind = some op) (hnone : table .number = none) : token.Folds := by
  refine folds_of_ne fun hkind => ?_
  rw [hkind, hnone] at h
  cases h

/-- A computation in two steps succeeds if both do. -/
@[simp]
theorem exists_bind_eq_ok {α β : Type} {x : Except Fault α} {f : α → Except Fault β} :
    (∃ b, (x >>= f) = .ok b) ↔ ∃ a, x = .ok a ∧ ∃ b, f a = .ok b := by
  simp only [bind_eq_ok]
  constructor
  · rintro ⟨b, a, ha, hb⟩
    exact ⟨a, ha, b, hb⟩
  · rintro ⟨a, ha, b, hb⟩
    exact ⟨b, a, ha, hb⟩

namespace Parser

variable {s s' : ParserState}

/-! ### Expressions -/

/-- What is read as a nonterminal can be folded. -/
def Nonterminal.Prunes : (x : Nonterminal) → x.Result → Prop
  | level .., e | operand .., e | signed .., e | primary, e => ∃ e', e.prune = .ok e'
  | parts _, es | moreItems _, es | arguments, es => ∃ es', pruneAll es = .ok es'
  | lvalue, target => ∃ target', target.prune = .ok target'
  | subscripts, subs => ∃ items, pruneAll subs.items = .ok items
  | getlineTarget, target => ∃ target', pruneTarget target = .ok target'

theorem prunes_of_reads {x : Nonterminal} {v : x.Result} (h : Reads x s v s') :
    x.Prunes v ↔ Folding (leavesIn (x.outlines v)) := by
  induction h with
  | tighter h ih => exact ih
  | assign hleft hop htake hskip hright ihleft ihright =>
    have hmark := Token.folds_of_some hop rfl
    simpa [Nonterminal.Prunes, Nonterminal.outlines, Expr.prune, Expr.outline, hmark] using and_congr ihleft ihright
  | conditional htest hmark htake hskip hyes hskip' hcolon htake' hskip'' hno ihtest ihyes ihno =>
    simpa [Nonterminal.Prunes, Nonterminal.outlines, Expr.prune, Expr.outline] using
      and_congr ihtest (and_congr ihyes ihno)
  | disjunction hleft hkind htake hskip hright ihleft ihright =>
    simpa [Nonterminal.Prunes, Nonterminal.outlines, Expr.prune, Expr.outline] using and_congr ihleft ihright
  | conjunction hleft hkind htake hskip hright ihleft ihright =>
    simpa [Nonterminal.Prunes, Nonterminal.outlines, Expr.prune, Expr.outline] using and_congr ihleft ihright
  | membership hleft hkind htake hname htake' ihleft =>
    have harray := Token.folds_of_ne (by rw [hname]; decide)
    simpa [Nonterminal.Prunes, Nonterminal.outlines, Expr.prune, Expr.outline, Awk.outlines, pruneAll, harray] using
      ihleft
  | @matching p s left s₁ negated s₂ right s' hleft hkind htake hright ihleft ihright =>
    have hmark := Token.folds_of_ne (by rw [hkind]; cases negated <;> decide)
    simpa [Nonterminal.Prunes, Nonterminal.outlines, Expr.prune, Expr.outline, hmark] using and_congr ihleft ihright
  | uncompared h ih => exact ih
  | compare hleft hop hprint htake hright ihleft ihright =>
    have hmark := Token.folds_of_some hop rfl
    simpa [Nonterminal.Prunes, Nonterminal.outlines, Expr.prune, Expr.outline, hmark] using and_congr ihleft ihright
  | unpiped h ih => exact ih
  | pipe hcommand hpipe htake hgetline htake' htarget ihcommand ihtarget =>
    simpa [Nonterminal.Prunes, Nonterminal.outlines, Expr.prune, Expr.outline] using and_congr ihcommand ihtarget
  | concat hfirst hmore ihfirst ihmore =>
    simpa [Nonterminal.Prunes, Nonterminal.outlines, Expr.prune, Expr.outline, Awk.outlines, pruneAll] using
      and_congr ihfirst ihmore
  | noParts => simp [Nonterminal.Prunes, Nonterminal.outlines, Awk.outlines, pruneAll]
  | parts hstart hpart hmore ihpart ihmore =>
    simpa [Nonterminal.Prunes, Nonterminal.outlines, Expr.prune, Expr.outline, Awk.outlines, pruneAll] using
      and_congr ihpart ihmore
  | sum hleft hop htake hright ihleft ihright =>
    have hmark := Token.folds_of_some hop rfl
    simpa [Nonterminal.Prunes, Nonterminal.outlines, Expr.prune, Expr.outline, hmark] using and_congr ihleft ihright
  | product hleft hop htake hright ihleft ihright =>
    have hmark := Token.folds_of_some hop rfl
    simpa [Nonterminal.Prunes, Nonterminal.outlines, Expr.prune, Expr.outline, hmark] using and_congr ihleft ihright
  | sign h ih => exact ih
  | unsigned h ih => exact ih
  | signed hop htake hoperand ih =>
    have hmark := Token.folds_of_some hop rfl
    simpa [Nonterminal.Prunes, Nonterminal.outlines, Expr.prune, Expr.outline, hmark] using ih
  | power hbase hkind htake hexponent ihbase ihexponent =>
    simpa [Nonterminal.Prunes, Nonterminal.outlines, Expr.prune, Expr.outline] using and_congr ihbase ihexponent
  | preStep hop htake htarget ih =>
    have hmark := Token.folds_of_some hop rfl
    simpa [Nonterminal.Prunes, Nonterminal.outlines, Expr.prune, Expr.outline, hmark] using ih
  | postStep htarget hop htake ih =>
    have hmark := Token.folds_of_some hop rfl
    simpa [Nonterminal.Prunes, Nonterminal.outlines, Expr.prune, Expr.outline, hmark] using ih
  | primary h ih => exact ih
  | number hkind htake => simp [Nonterminal.Prunes, Nonterminal.outlines, Expr.prune, Expr.outline, Token.Folds, hkind]
  | string hkind htake =>
    have htoken := Token.folds_of_ne (by rw [hkind]; decide)
    simp [Nonterminal.Prunes, Nonterminal.outlines, Expr.prune, Expr.outline, htoken]
  | regex hkind htake =>
    obtain ⟨stop, next, behind, hregex, -⟩ := takesRegex_iff.1 htake
    have htoken := Token.folds_of_ne (by rw [Cursor.kind_of_regex hregex]; decide)
    simp [Nonterminal.Prunes, Nonterminal.outlines, Expr.prune, Expr.outline, htoken]
  | lvalue h ih =>
    simpa [Nonterminal.Prunes, Nonterminal.outlines, Expr.prune, Expr.outline] using ih
  | call hkind htake hopen htake' hargs ih =>
    have hname := Token.folds_of_ne (by rw [hkind]; decide)
    simpa [Nonterminal.Prunes, Nonterminal.outlines, Expr.prune, Expr.outline, hname] using ih
  | @builtin s b s₁ s₂ args s' hkind htake hopen htake' hargs ih =>
    have hname := Token.folds_of_ne (by rw [hkind]; exact TokenKind.noConfusion)
    simpa [Nonterminal.Prunes, Nonterminal.outlines, Expr.prune, Expr.outline, hname] using ih
  | bareLength hkind htake =>
    have hname := Token.folds_of_ne (by rw [hkind]; decide)
    simp [Nonterminal.Prunes, Nonterminal.outlines, Expr.prune, Expr.outline, Awk.outlines, pruneAll, hname]
  | getline hkind htake htarget ih =>
    simpa [Nonterminal.Prunes, Nonterminal.outlines, Expr.prune, Expr.outline] using ih
  | getlineFile hkind htake htarget hfrom htake' hfile ihtarget ihfile =>
    simpa [Nonterminal.Prunes, Nonterminal.outlines, Expr.prune, Expr.outline] using and_congr ihtarget ihfile
  | group hopen htake hinner hclose htake' ih =>
    simpa [Nonterminal.Prunes, Nonterminal.outlines, Expr.prune, Expr.outline] using ih
  | members hopen htake hfirst hmore hclose htake₁ hin htake₂ hname htake₃ ihfirst ihmore =>
    have harray := Token.folds_of_ne (by rw [hname]; decide)
    simpa [Nonterminal.Prunes, Nonterminal.outlines, Expr.prune, Expr.outline, Awk.outlines, pruneAll, harray] using
      and_congr ihfirst ihmore
  | field hkind htake hindex ih =>
    simpa [Nonterminal.Prunes, Nonterminal.outlines, Expr.prune, Expr.outline, LValue.prune, LValue.outline] using ih
  | fieldStep hkind htake hop htake' htarget ih =>
    have hmark := Token.folds_of_some hop rfl
    simpa [Nonterminal.Prunes, Nonterminal.outlines, Expr.prune, Expr.outline, LValue.prune, LValue.outline,
      hmark] using ih
  | name hkind htake =>
    have hname := Token.folds_of_ne (by rw [hkind]; decide)
    simp [Nonterminal.Prunes, Nonterminal.outlines, LValue.prune, LValue.outline, hname]
  | element hkind htake hopen htake' hsubs ih =>
    have hname := Token.folds_of_ne (by rw [hkind]; decide)
    simpa [Nonterminal.Prunes, Nonterminal.outlines, Expr.prune, Expr.outline, LValue.prune, LValue.outline,
      hname] using ih
  | subscripts hfirst hmore hclose htake ihfirst ihmore =>
    simpa [Nonterminal.Prunes, Nonterminal.outlines, Expr.prune, Expr.outline, Awk.outlines, pruneAll] using
      and_congr ihfirst ihmore
  | noItems => simp [Nonterminal.Prunes, Nonterminal.outlines, Awk.outlines, pruneAll]
  | moreItems hcomma htake hskip he hmore ihe ihmore =>
    simpa [Nonterminal.Prunes, Nonterminal.outlines, Expr.prune, Expr.outline, Awk.outlines, pruneAll] using
      and_congr ihe ihmore
  | noArguments hskip hclose htake => simp [Nonterminal.Prunes, Nonterminal.outlines, Awk.outlines, pruneAll]
  | arguments hskip hfirst hmore hskip' hclose htake ihfirst ihmore =>
    simpa [Nonterminal.Prunes, Nonterminal.outlines, Expr.prune, Expr.outline, Awk.outlines, pruneAll] using
      and_congr ihfirst ihmore
  | noTarget => simp [Nonterminal.Prunes, Nonterminal.outlines, pruneTarget, targetOutline]
  | someTarget h ih =>
    simpa [Nonterminal.Prunes, Nonterminal.outlines, pruneTarget, targetOutline] using ih

/-! ### Statements -/

/-- What is read as a clause can be folded. -/
def Clause.Prunes : (x : Clause) → x.Result → Prop
  | expr?, e => ∃ e', Expr.pruneOption e = .ok e'
  | test, e => ∃ e', e.prune = .ok e'
  | items, es => ∃ es', pruneAll es = .ok es'
  | simple _, stmt | block _, stmt | statement _, stmt | governed _, stmt => ∃ stmt', stmt.prune = .ok stmt'
  | simple? _, stmt => ∃ stmt', pruneStmt? stmt = .ok stmt'
  | body _, stmts => ∃ stmts', pruneStmts stmts = .ok stmts'

theorem prunes_of_readsStmt {x : Clause} {v : x.Result} (h : ReadsStmt x s v s') :
    x.Prunes v ↔ Folding (leavesIn (x.outlines v)) := by
  induction h with
  | noExpr => simp [Clause.Prunes, Clause.outlines, Expr.pruneOption, exprOutline]
  | someExpr h =>
    simpa [Clause.Prunes, Clause.outlines, Expr.pruneOption, exprOutline, Nonterminal.Prunes,
      Nonterminal.outlines] using prunes_of_reads h
  | test hopen htake he hclose htake' => exact prunes_of_reads he
  | noItems => simp [Clause.Prunes, Clause.outlines, pruneAll, Awk.outlines]
  | items hfirst hmore =>
    simpa [Clause.Prunes, Clause.outlines, pruneAll, Awk.outlines, Nonterminal.Prunes, Nonterminal.outlines] using
      and_congr (prunes_of_reads hfirst) (prunes_of_reads hmore)
  | listedItems hopen htake hfirst hmore hclose htake' =>
    simpa [Clause.Prunes, Clause.outlines, pruneAll, Awk.outlines, Nonterminal.Prunes, Nonterminal.outlines] using
      and_congr (prunes_of_reads hfirst) (prunes_of_reads hmore)
  | print hkind htake hitems ih =>
    have hprint := Token.folds_of_ne (by rcases hkind with hkind | hkind <;> rw [hkind] <;> decide)
    simpa [Clause.Prunes, Clause.outlines, Stmt.prune, Stmt.outline, hprint] using ih
  | printTo hkind htake hitems hop htake' htarget ih =>
    have hprint := Token.folds_of_ne (by rcases hkind with hkind | hkind <;> rw [hkind] <;> decide)
    have hmark := Token.folds_of_some hop rfl
    -- The target of the output is folded before the items.
    simpa [Clause.Prunes, Clause.outlines, Stmt.prune, Stmt.outline, Redirect.prune, Redirect.outline,
      Nonterminal.Prunes, Nonterminal.outlines, hprint, hmark, and_comm] using
      and_congr ih (prunes_of_reads htarget)
  | delete hkind htake hname htake' =>
    have harray := Token.folds_of_ne (by rw [hname]; decide)
    simp [Clause.Prunes, Clause.outlines, Stmt.prune, Stmt.outline, harray]
  | deleteElement hkind htake hname htake' hopen htake'' hsubs =>
    have harray := Token.folds_of_ne (by rw [hname]; decide)
    simpa [Clause.Prunes, Clause.outlines, Stmt.prune, Stmt.outline, Subscripts.prune, Subscripts.outline,
      Nonterminal.Prunes, Nonterminal.outlines, harray] using prunes_of_reads hsubs
  | «break» hkind hloop htake => simp [Clause.Prunes, Clause.outlines, Stmt.prune, Stmt.outline]
  | «continue» hkind hloop htake => simp [Clause.Prunes, Clause.outlines, Stmt.prune, Stmt.outline]
  | next hkind hrule htake => simp [Clause.Prunes, Clause.outlines, Stmt.prune, Stmt.outline]
  | nextFile hkind hrule htake => simp [Clause.Prunes, Clause.outlines, Stmt.prune, Stmt.outline]
  | exit hkind htake hcode ih =>
    simpa [Clause.Prunes, Clause.outlines, Stmt.prune, Stmt.outline] using ih
  | «return» hkind hfunction htake hvalue ih =>
    simpa [Clause.Prunes, Clause.outlines, Stmt.prune, Stmt.outline] using ih
  | expr he =>
    simpa [Clause.Prunes, Clause.outlines, Stmt.prune, Stmt.outline, Nonterminal.Prunes, Nonterminal.outlines] using
      prunes_of_reads he
  | noStmt => simp [Clause.Prunes, Clause.outlines, pruneStmt?, stmtOutline]
  | someStmt h ih => simpa [Clause.Prunes, Clause.outlines, pruneStmt?, stmtOutline] using ih
  | block hopen htake hbody ih =>
    simpa [Clause.Prunes, Clause.outlines, Stmt.prune, Stmt.outline] using ih
  | endBody hskip hclose htake => simp [Clause.Prunes, Clause.outlines, pruneStmts, stmtOutlines]
  | body hskip hfirst hmore ihfirst ihmore =>
    simpa [Clause.Prunes, Clause.outlines, pruneStmts, stmtOutlines] using and_congr ihfirst ihmore
  | ofBlock h ih => exact ih
  | ofSimple h ih => exact ih
  | empty hkind htake => simp [Clause.Prunes, Clause.outlines, Stmt.prune, Stmt.outline]
  | ifThen hkind htake htest hyes ihtest ihyes =>
    simpa [Clause.Prunes, Clause.outlines, Stmt.prune, Stmt.outline, pruneStmt?, elseOutline] using
      and_congr ihtest ihyes
  | ifElse hkind htake htest hyes hskip helse htake' hno ihtest ihyes ihno =>
    simpa [Clause.Prunes, Clause.outlines, Stmt.prune, Stmt.outline, pruneStmt?, elseOutline] using
      and_congr ihtest (and_congr ihyes ihno)
  | «while» hkind htake htest hbody ihtest ihbody =>
    simpa [Clause.Prunes, Clause.outlines, Stmt.prune, Stmt.outline] using and_congr ihtest ihbody
  | doWhile hkind htake hbody hskip hwhile htake' htest ihbody ihtest =>
    simpa [Clause.Prunes, Clause.outlines, Stmt.prune, Stmt.outline] using and_congr ihbody ihtest
  | forIn hkind htake hopen htake₁ helement htake₂ hin htake₃ harray htake₄ hclose htake₅ hbody ih =>
    have hfirst := Token.folds_of_ne (by rw [helement]; decide)
    have hsecond := Token.folds_of_ne (by rw [harray]; decide)
    simpa [Clause.Prunes, Clause.outlines, Stmt.prune, Stmt.outline, hfirst, hsecond] using ih
  | «for» hkind htake hopen htake₁ hstart hsemi htake₂ hskip htest hsemi' htake₃ hskip' hupdate hclose htake₄ hbody
      ihstart ihtest ihupdate ihbody =>
    simpa [Clause.Prunes, Clause.outlines, Stmt.prune, Stmt.outline] using
      and_congr ihstart (and_congr ihtest (and_congr ihupdate ihbody))
  | governed hskip h ih => exact ih

/-! ### Items -/

theorem folding_of_readsParams {params : List Token} (h : ReadsParams s params s') : Folding params := by
  induction h with
  | last hskip hname htake =>
    have hparam := Token.folds_of_ne (by rw [hname]; decide)
    exact folding_cons.2 ⟨hparam, folding_nil⟩
  | more hskip hname htake hcomma htake' hmore ih =>
    have hparam := Token.folds_of_ne (by rw [hname]; decide)
    exact folding_cons.2 ⟨hparam, ih⟩

theorem prunes_of_readsSelector {selector : Selector} (h : ReadsSelector s selector s') :
    (∃ selector', selector.prune = .ok selector') ↔ Folding selector.outline.leaves := by
  cases h with
  | single h =>
    simpa [Selector.prune, Selector.outline, Nonterminal.Prunes, Nonterminal.outlines] using prunes_of_reads h
  | range hfirst hcomma htake hskip hlast =>
    simpa [Selector.prune, Selector.outline, Nonterminal.Prunes, Nonterminal.outlines] using
      and_congr (prunes_of_reads hfirst) (prunes_of_reads hlast)

theorem prunes_of_readsItem {item : Item} (h : ReadsItem s item s') :
    (∃ item', item.prune = .ok item') ↔ Folding item.outline.leaves := by
  cases h with
  | begin hkind htake hbody | «end» hkind htake hbody | always hbody =>
    simpa [Item.prune, Item.outline, pruneStmt?, Clause.Prunes, Clause.outlines] using prunes_of_readsStmt hbody
  | rule hselector hbody =>
    simpa [Item.prune, Item.outline, pruneStmt?, Clause.Prunes, Clause.outlines] using
      and_congr (prunes_of_readsSelector hselector) (prunes_of_readsStmt hbody)
  | selector hselector =>
    simpa [Item.prune, Item.outline, pruneStmt?] using prunes_of_readsSelector hselector
  | function hkind htake hname htake₁ hopen htake₂ hparams hclose htake₃ hskip hbody =>
    have hnamed := Token.folds_of_ne (by rcases hname with hname | hname <;> rw [hname] <;> decide)
    have hlisted := hparams.elim (fun hnone => by rw [hnone.1]; exact folding_nil) folding_of_readsParams
    simpa [Item.prune, Item.outline, Clause.Prunes, Clause.outlines, hnamed, hlisted] using prunes_of_readsStmt hbody

theorem prunes_of_readsItems {list : List Item} (h : ReadsItems s list s') :
    (∃ list', list.mapM Item.prune = .ok list') ↔ Folding (leavesIn (list.map Item.outline)) := by
  induction h with
  | «end» hskip hend => exact iff_of_true ⟨[], rfl⟩ folding_nil
  | item hskip hfirst hmore ih =>
    rw [List.mapM_cons, List.map_cons, Outline.leavesIn_cons, folding_append, ← prunes_of_readsItem hfirst, ← ih]
    simp only [exists_bind_eq_ok]
    constructor
    · rintro ⟨first', hfirst', more', hmore', -⟩
      exact ⟨⟨first', hfirst'⟩, more', hmore'⟩
    · rintro ⟨⟨first', hfirst'⟩, more', hmore'⟩
      exact ⟨first', hfirst', more', hmore', _, rfl⟩

end Parser

/-- A number among the tokens that cover a text is what the lexer gives at some place. -/
theorem Cursor.Covers.exists_token {cursor stop : Cursor} {tokens : List Token} (h : cursor.Covers tokens stop)
    {token : Token} (hmem : token ∈ tokens) (hkind : token.kind = .number) :
    ∃ place behind : Cursor, place.token = .ok (token, behind) := by
  induction h with
  | nil => cases hmem
  | token htoken hend hmore ih =>
    rcases List.mem_cons.1 hmem with rfl | hmem
    · exact ⟨_, _, htoken⟩
    · exact ih hmem
  | regex hslash hslashKind hregex hmore ih =>
    rcases List.mem_cons.1 hmem with rfl | hmem
    · rw [kind_of_regex hregex] at hkind
      cases hkind
    · exact ih hmem

/-- The program is folded exactly if its number literals can be. -/
theorem prune_iff_folding {source : Text} {p : Program} (h : parseProgram source = .ok p) :
    (∃ p', p.prune = .ok p') ↔ Folding p.outline.leaves := by
  obtain ⟨s, s', -, hreads, -⟩ := Parser.exists_reads_of_parseProgram h
  simpa [Program.prune, Program.outline] using Parser.prunes_of_readsItems hreads

/-- Wherever in a text a number literal is read, it is folded to the value that it has as numeric text, and is numeric,
if its digits are decimal; else it is not folded, and is not numeric.  So a program is folded exactly if the digits of
all its number literals are decimal. -/
theorem number_literals (source : Text) :
    (∀ (n : Nat) {token : Token} {behind : Cursor}, ((Cursor.ofText source).advance n).token = .ok (token, behind) →
      token.kind = .number →
      (Decimal token.text → (Expr.number token).prune = .ok (.literal (.num (numericValue token.text))) ∧
        looksNumeric token.text = true) ∧
      (¬Decimal token.text → (Expr.number token).prune = .error (.badNumeral token.text) ∧
        looksNumeric token.text = false)) ∧
    ∀ {p : Program}, parseProgram source = .ok p →
      ((∃ p', p.prune = .ok p') ↔ ∀ token ∈ p.outline.leaves, token.kind = .number → Decimal token.text) := by
  refine ⟨fun n {token behind} htoken hkind => ?_, fun {p} hparse => ?_⟩
  · obtain ⟨hdecimal, hloose⟩ := literal_of_token htoken hkind
    constructor
    · intro h
      obtain ⟨hvalue, hnumeric⟩ := hdecimal h
      rw [Expr.prune, hvalue]
      exact ⟨rfl, hnumeric⟩
    · intro h
      obtain ⟨hfault, hnumeric⟩ := hloose h
      rw [Expr.prune, hfault]
      exact ⟨rfl, hnumeric⟩
  · rw [prune_iff_folding hparse]
    obtain ⟨tokens, stop, -, -, hcovers, -, -, heq⟩ := operands_of_parseProgram hparse
    refine forall₂_congr fun token hleaf => forall_congr' fun hkind => ?_
    have hmem : token ∈ operandsOf p.outline.leaves := List.mem_filter.2 ⟨hleaf, by rw [hkind]; rfl⟩
    rw [heq] at hmem
    obtain ⟨place, behind, htoken⟩ := hcovers.exists_token (List.mem_filter.1 hmem).1 hkind
    obtain ⟨hdecimal, hloose⟩ := literal_of_token htoken hkind
    constructor
    · rintro ⟨v, hv⟩
      by_contra hnot
      rw [(hloose hnot).1] at hv
      cases hv
    · intro h
      exact ⟨_, (hdecimal h).1⟩

/-- A pattern whose digits are of two scripts. -/
def mixedDigits : Text := "٣.5e+1".toList

theorem number_literals_mixed :
    ∃ token behind p p', (Cursor.ofText mixedDigits).token = .ok (token, behind) ∧ token.kind = .number ∧
      (Expr.number token).prune = .ok (.literal (.num (numericValue token.text))) ∧ looksNumeric token.text = true ∧
      parseProgram mixedDigits = .ok p ∧ p.prune = .ok p' := by
  have htoken : (Cursor.ofText mixedDigits).token = .ok (⟨.number, mixedDigits, ⟨1, 1, 0, 6⟩⟩, ⟨[], 6, 1, 7⟩) := by
    decide +kernel
  have hdecimal : Decimal mixedDigits := by
    have hall : mixedDigits.all (fun c => decide (isDigit c = true → isDecimal c = true)) = true := by decide +kernel
    intro c hc
    exact of_decide_eq_true (List.all_eq_true.1 hall c hc)
  have hleaves : ((parseProgram mixedDigits).map fun p => p.outline.leaves).toOption =
      some [⟨.number, mixedDigits, ⟨1, 1, 0, 6⟩⟩] := by
    decide +kernel
  obtain ⟨hvalue, hnumeric⟩ := ((number_literals mixedDigits).1 0 htoken rfl).1 hdecimal
  cases hparse : parseProgram mixedDigits with
  | error e =>
    rw [hparse] at hleaves
    cases hleaves
  | ok p =>
    rw [hparse] at hleaves
    have hone : p.outline.leaves = [⟨.number, mixedDigits, ⟨1, 1, 0, 6⟩⟩] := Option.some.inj hleaves
    obtain ⟨p', hprune⟩ := ((number_literals mixedDigits).2 hparse).2 fun token hleaf _ => by
      rw [hone, List.mem_singleton] at hleaf
      rw [hleaf]
      exact hdecimal
    exact ⟨_, _, p, p', htoken, rfl, hvalue, hnumeric, rfl, hprune⟩

/-- A pattern that ends in a superscript. -/
def superscript : Text := "1²".toList

theorem superscript_unfolded :
    (Cursor.ofText superscript).token = .ok (⟨.number, superscript, ⟨1, 1, 0, 2⟩⟩, ⟨[], 2, 1, 3⟩) ∧
      (Expr.number ⟨.number, superscript, ⟨1, 1, 0, 2⟩⟩).prune = .error (.badNumeral superscript) ∧
      looksNumeric superscript = false ∧ ∃ p, parseProgram superscript = .ok p ∧ ∀ p', p.prune ≠ .ok p' := by
  have hliteral : literalNumber superscript = .error (.badNumeral superscript) := by rfl
  have hnumeric : looksNumeric superscript = false := by decide +kernel
  have hpruned : ((parseProgram superscript).map fun p => p.prune.isOk).toOption = some false := by decide +kernel
  refine ⟨by decide +kernel, ?_, hnumeric, ?_⟩
  · rw [Expr.prune, hliteral]
    rfl
  · cases hparse : parseProgram superscript with
    | error e =>
      rw [hparse] at hpruned
      cases hpruned
    | ok p =>
      rw [hparse] at hpruned
      refine ⟨p, rfl, fun p' hprune => ?_⟩
      have hfailed : p.prune.isOk = false := Option.some.inj hpruned
      rw [hprune] at hfailed
      cases hfailed

end Awk
