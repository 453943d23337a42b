import Awk.Proofs.Syntax.Grammar.Expr
import Awk.Proofs.Syntax.Node
import Awk.Proofs.Syntax.Parser.Program

/-!
# Precedence and associativity

In a tree that the parser gives, an operand without parentheses binds at least as tightly as its operator asks for
(`Expr.Grouped`), at every node (`grouped_of_parseExpr`).  How tightly an expression binds is the level of its topmost
operator (`Expr.level`).  The property is kept by every rule of the grammar (`respects_of_reads`): an operator takes as
its left operand what is of its own level or tighter, and as its right operand only what is tighter, unless it
associates to the right.
-/

namespace Awk

/-- How tightly a level binds: the looser, the smaller. -/
def Level.rank : Level → Nat
  | assignment => 0
  | conditional => 1
  | disjunction => 2
  | conjunction => 3
  | membership => 4
  | matching => 5
  | comparison => 6
  | concatenation => 7
  | sum => 8
  | product => 9
  | sign => 10
  | power => 11
  | step => 12
  | primary => 13

theorem Level.rank_le_tighter (lvl : Level) : lvl.rank ≤ lvl.tighter.rank := by
  cases lvl <;> decide

/-- The level at which an operator makes one expression of two. -/
def ArithOp.level : ArithOp → Level
  | add | sub => .sum
  | mul | div | mod => .product
  | pow => .power

theorem ArithOp.level_of_sum? {k : TokenKind} {op : ArithOp} (h : sum? k = some op) : op ≠ pow ∧ op.level = .sum := by
  unfold sum? at h
  split at h <;> cases h <;> exact ⟨by decide, rfl⟩

theorem ArithOp.level_of_product? {k : TokenKind} {op : ArithOp} (h : product? k = some op) :
    op ≠ pow ∧ op.level = .product := by
  unfold product? at h
  split at h <;> cases h <;> exact ⟨by decide, rfl⟩

namespace Expr

/-- The level of the topmost operator.  What reads as an operand in itself is primary; that includes the search for an
element with several subscripts, whose parentheses belong to it. -/
def level : Expr → Level
  | assign .. => .assignment
  | conditional .. => .conditional
  | logical _ .or _ _ => .disjunction
  | logical _ .and _ _ => .conjunction
  | member _ [_] _ _ => .membership
  | matching .. => .matching
  | compare .. | getlineCommand .. => .comparison
  | concat .. => .concatenation
  | arith _ _ op _ _ => op.level
  | sign .. => .sign
  | power .. => .power
  | preStep .. | postStep .. => .step
  | number _ | string _ | literal _ | regex _ | group .. | lvalue _ | member .. | call .. | builtin .. | getline ..
  | getlineFile .. => .primary

/-- The expression is of a level or of a tighter one. -/
def Fits (e : Expr) (lvl : Level) : Prop := lvl.rank ≤ e.level.rank

/-- An operand of a comparison: a concatenation or tighter, or what is piped out of a command. -/
def Comparable (e : Expr) : Prop :=
  match e with
  | getlineCommand .. => True
  | e => e.Fits .concatenation

/-- Signs, or none, over an expression of a level. -/
def SignsOver (lvl : Level) : Expr → Prop
  | sign _ _ _ operand => operand.SignsOver lvl
  | e => e.Fits lvl

/-- What the number of a field may be without parentheses. -/
def Indexes : Expr → Prop
  | preStep .. => True
  | e => e.SignsOver .primary

/-- The operands of a node that stand without parentheses bind as tightly as the node asks for. -/
def Grouped : Expr → Prop
  | number _ | string _ | literal _ | regex _ | group .. | call .. | builtin .. | getline .. | preStep .. | postStep ..
  | assign .. => True
  | lvalue (.field _ index) => index.Indexes
  | lvalue _ => True
  | conditional _ test _ _ => test.Fits .disjunction
  | logical _ .or left right => left.Fits .disjunction ∧ right.Fits .conjunction
  | logical _ .and left right => left.Fits .conjunction ∧ right.Fits .membership
  | member _ [left] _ _ => left.Fits .membership
  | member _ subscripts subscriptsAt _ => 2 ≤ subscripts.length ∧ subscriptsAt.isSome
  | matching _ left _ _ right => left.Fits .matching ∧ right.Fits .comparison
  | compare _ left _ _ right => left.Comparable ∧ right.Comparable
  | getlineCommand _ command _ => command.Comparable
  | concat _ parts => 2 ≤ parts.length ∧ ∀ part ∈ parts, part.Fits .sum
  | arith _ left op _ right => op ≠ .pow ∧ left.Fits op.level ∧ right.Fits op.level.tighter
  | sign _ _ _ operand => operand.Fits .sign
  | power _ base exponent => base.Fits .step ∧ exponent.SignsOver .power
  | getlineFile _ _ file => file.Fits .step

/-- A node of an expression, at any depth, the expression itself included. -/
inductive Contains : Expr → Expr → Prop
  | self {e} : Contains e e
  | under {e operand node} (hoperand : operand ∈ e.operands) (hnode : Contains operand node) : Contains e node

/-- Every node is grouped as its operator asks for. -/
def Respects (e : Expr) : Prop := ∀ node, e.Contains node → node.Grouped

variable {e : Expr} {lvl : Level}

theorem respects_of_operands (h : e.Grouped) (hoperands : ∀ operand ∈ e.operands, operand.Respects) : e.Respects := by
  intro node hnode
  cases hnode with
  | self => exact h
  | under hoperand hnode => exact hoperands _ hoperand _ hnode

theorem Fits.looser (h : e.Fits lvl.tighter) : e.Fits lvl := Nat.le_trans lvl.rank_le_tighter h

theorem fits_assignment (e : Expr) : e.Fits .assignment := Nat.zero_le _

theorem Comparable.fits (h : e.Comparable) : e.Fits .comparison := by
  cases e with
  | getlineCommand => exact Nat.le_refl _
  | _ => exact Nat.le_of_lt h

theorem comparable_of_fits (h : e.Fits .concatenation) : e.Comparable := by
  cases e with
  | getlineCommand => trivial
  | _ => exact h

theorem signsOver_of_fits (hlvl : Level.sign.rank < lvl.rank) (h : e.Fits lvl) : e.SignsOver lvl := by
  cases e with
  | sign => exact absurd h (Nat.not_le.2 hlvl)
  | _ => exact h

theorem SignsOver.fits (hlvl : Level.sign.rank ≤ lvl.rank) (h : e.SignsOver lvl) : e.Fits .sign := by
  cases e with
  | sign => exact Nat.le_refl _
  | _ => exact Nat.le_trans hlvl h

theorem SignsOver.indexes (h : e.SignsOver .primary) : e.Indexes := by
  cases e with
  | preStep => trivial
  | _ => exact h

/-! ### Nodes by the number of their operands -/

theorem respects_of_leaf (h : e.Grouped) (hoperands : e.operands = []) : e.Respects := by
  refine respects_of_operands h ?_
  simp [hoperands]

theorem respects_of_one {operand : Expr} (h : e.Grouped) (hoperands : e.operands = [operand])
    (hoperand : operand.Respects) : e.Respects := by
  refine respects_of_operands h ?_
  simpa [hoperands] using hoperand

theorem respects_of_two {left right : Expr} (h : e.Grouped) (hoperands : e.operands = [left, right])
    (hleft : left.Respects) (hright : right.Respects) : e.Respects := by
  refine respects_of_operands h ?_
  simp [hoperands, hleft, hright]

theorem respects_of_cons {operand : Expr} {target : Option LValue} (h : e.Grouped)
    (hoperands : e.operands = operand :: (target.map lvalue).toList) (hoperand : operand.Respects)
    (htarget : ∀ t ∈ target, (lvalue t).Respects) : e.Respects := by
  refine respects_of_operands h ?_
  simpa [hoperands, hoperand] using htarget

end Expr

/-! ### Every rule of the grammar -/

namespace Parser

open Awk.Expr

/-- What is read as a nonterminal respects precedence, and is of the level that the nonterminal says. -/
def Nonterminal.Respects : (x : Nonterminal) → x.Result → Prop
  | level lvl _, e => e.Respects ∧ e.Fits lvl
  | operand _ _, e => e.Respects ∧ e.Comparable
  | signed lvl _, e => Level.sign.rank < lvl.rank → e.Respects ∧ e.SignsOver lvl
  | primary, e => e.Respects ∧ e.Fits .primary
  | parts _, es => ∀ e ∈ es, e.Respects ∧ e.Fits .sum
  | moreItems _, es | arguments, es => ∀ e ∈ es, e.Respects
  | lvalue, target => (Expr.lvalue target).Respects
  | subscripts, subs => ∀ e ∈ subs.items, e.Respects
  | getlineTarget, target => ∀ t ∈ target, (Expr.lvalue t).Respects

theorem respects_of_reads {x : Nonterminal} {s s' : ParserState} {v : x.Result} (h : Reads x s v s') :
    x.Respects v := by
  induction h with
  | tighter h ih => exact ⟨ih.1, ih.2.looser⟩
  | assign hleft hop htake hskip hright ihleft ihright =>
    exact ⟨respects_of_two trivial rfl ihleft.1 ihright.1, fits_assignment _⟩
  | conditional htest hmark htake hskip hyes hskip' hcolon htake' hskip'' hno ihtest ihyes ihno =>
    refine ⟨respects_of_operands ihtest.2 ?_, Nat.le_refl _⟩
    simp [operands, ihtest.1, ihyes.1, ihno.1]
  | disjunction hleft hkind htake hskip hright ihleft ihright =>
    exact ⟨respects_of_two ⟨ihleft.2, ihright.2⟩ rfl ihleft.1 ihright.1, Nat.le_refl _⟩
  | conjunction hleft hkind htake hskip hright ihleft ihright =>
    exact ⟨respects_of_two ⟨ihleft.2, ihright.2⟩ rfl ihleft.1 ihright.1, Nat.le_refl _⟩
  | membership hleft hkind htake hname htake' ihleft =>
    exact ⟨respects_of_one ihleft.2 rfl ihleft.1, Nat.le_refl _⟩
  | matching hleft hkind htake hright ihleft ihright =>
    exact ⟨respects_of_two ⟨ihleft.2, ihright.2⟩ rfl ihleft.1 ihright.1, Nat.le_refl _⟩
  | uncompared h ih => exact ⟨ih.1, ih.2.fits⟩
  | compare hleft hop hprint htake hright ihleft ihright =>
    exact ⟨respects_of_two ⟨ihleft.2, ihright.2⟩ rfl ihleft.1 ihright.1, Nat.le_refl _⟩
  | unpiped h ih => exact ⟨ih.1, comparable_of_fits ih.2⟩
  | pipe hcommand hpipe htake hgetline htake' htarget ihcommand ihtarget =>
    exact ⟨respects_of_cons ihcommand.2 rfl ihcommand.1 ihtarget, trivial⟩
  | concat hfirst hmore ihfirst ihmore =>
    have hparts := List.forall_mem_cons.2 ⟨ihfirst, ihmore⟩
    refine ⟨respects_of_operands ⟨by simp, ?_⟩ ?_, Nat.le_refl _⟩
    · intro part hpart
      exact (hparts part hpart).2
    · intro part hpart
      exact (hparts part hpart).1
  | noParts => simp [Nonterminal.Respects]
  | parts hstart hpart hmore ihpart ihmore => exact List.forall_mem_cons.2 ⟨ihpart, ihmore⟩
  | sum hleft hop htake hright ihleft ihright =>
    obtain ⟨hne, hlevel⟩ := ArithOp.level_of_sum? hop
    refine ⟨respects_of_two ⟨hne, ?_, ?_⟩ rfl ihleft.1 ihright.1, ?_⟩
    · rw [hlevel]; exact ihleft.2
    · rw [hlevel]; exact ihright.2
    · exact Nat.le_of_eq (congrArg Level.rank hlevel.symm)
  | product hleft hop htake hright ihleft ihright =>
    obtain ⟨hne, hlevel⟩ := ArithOp.level_of_product? hop
    refine ⟨respects_of_two ⟨hne, ?_, ?_⟩ rfl ihleft.1 ihright.1, ?_⟩
    · rw [hlevel]; exact ihleft.2
    · rw [hlevel]; exact ihright.2
    · exact Nat.le_of_eq (congrArg Level.rank hlevel.symm)
  | sign h ih =>
    obtain ⟨hrespects, hsigns⟩ := ih (by decide)
    exact ⟨hrespects, hsigns.fits (by decide)⟩
  | unsigned h ih => exact fun hlvl => ⟨ih.1, signsOver_of_fits hlvl ih.2⟩
  | signed hop htake hoperand ih =>
    intro hlvl
    obtain ⟨hrespects, hsigns⟩ := ih hlvl
    exact ⟨respects_of_one (hsigns.fits (Nat.le_of_lt hlvl)) rfl hrespects, hsigns⟩
  | power hbase hkind htake hexponent ihbase ihexponent =>
    obtain ⟨hrespects, hsigns⟩ := ihexponent (by decide)
    exact ⟨respects_of_two ⟨ihbase.2, hsigns⟩ rfl ihbase.1 hrespects, Nat.le_refl _⟩
  | preStep hop htake htarget ih => exact ⟨respects_of_one trivial rfl ih, Nat.le_refl _⟩
  | postStep htarget hop htake ih => exact ⟨respects_of_one trivial rfl ih.1, Nat.le_refl _⟩
  | primary h ih => exact ih
  | number hkind htake => exact ⟨respects_of_leaf trivial rfl, Nat.le_refl _⟩
  | string hkind htake => exact ⟨respects_of_leaf trivial rfl, Nat.le_refl _⟩
  | regex hkind htake => exact ⟨respects_of_leaf trivial rfl, Nat.le_refl _⟩
  | lvalue h ih => exact ⟨ih, Nat.le_refl _⟩
  | call hkind htake hopen htake' hargs ih => exact ⟨respects_of_operands trivial ih, Nat.le_refl _⟩
  | builtin hkind htake hopen htake' hargs ih => exact ⟨respects_of_operands trivial ih, Nat.le_refl _⟩
  | bareLength hkind htake => exact ⟨respects_of_leaf trivial rfl, Nat.le_refl _⟩
  | getline hkind htake htarget ih =>
    refine ⟨respects_of_operands trivial ?_, Nat.le_refl _⟩
    simpa [operands, Nonterminal.Respects] using ih
  | getlineFile hkind htake htarget hfrom htake' hfile ihtarget ihfile =>
    exact ⟨respects_of_cons ihfile.2 rfl ihfile.1 ihtarget, Nat.le_refl _⟩
  | group hopen htake hinner hclose htake' ih => exact ⟨respects_of_one trivial rfl ih.1, Nat.le_refl _⟩
  | members hopen htake hfirst hmore hclose htake₁ hin htake₂ hname htake₃ ihfirst ihmore =>
    have hitems := List.forall_mem_cons.2 ⟨ihfirst.1, ihmore⟩
    exact ⟨respects_of_operands ⟨by simp, rfl⟩ hitems, Nat.le_refl _⟩
  | field hkind htake hindex ih =>
    obtain ⟨hrespects, hsigns⟩ := ih (by decide)
    exact respects_of_one hsigns.indexes rfl hrespects
  | fieldStep hkind htake hop htake' htarget ih =>
    exact respects_of_one trivial rfl (respects_of_one trivial rfl ih)
  | name hkind htake => exact respects_of_leaf trivial rfl
  | element hkind htake hopen htake' hsubs ih => exact respects_of_operands trivial ih
  | subscripts hfirst hmore hclose htake ihfirst ihmore => exact List.forall_mem_cons.2 ⟨ihfirst.1, ihmore⟩
  | noItems => simp [Nonterminal.Respects]
  | moreItems hcomma htake hskip he hmore ihe ihmore => exact List.forall_mem_cons.2 ⟨ihe.1, ihmore⟩
  | noArguments hskip hclose htake => simp [Nonterminal.Respects]
  | arguments hskip hfirst hmore hskip' hclose htake ihfirst ihmore =>
    exact List.forall_mem_cons.2 ⟨ihfirst.1, ihmore⟩
  | noTarget => simp [Nonterminal.Respects]
  | someTarget h ih => simpa [Nonterminal.Respects] using ih

end Parser

/-- In every tree that the text of an expression is read as, every node, at any depth, has operands that bind as
tightly as its operator asks for. -/
theorem grouped_of_parseExpr {source : Text} {e node : Expr} (h : parseExpr source = .ok e) (hnode : e.Contains node) :
    node.Grouped := by
  obtain ⟨s, -, h⟩ := Action.bind_eq_ok.1 h
  obtain ⟨⟨e', s'⟩, hsole, h⟩ := Action.bind_eq_ok.1 h
  cases h
  simp only [Parser.soleExpr] at hsole
  obtain ⟨e', s₁, hexpr, hrest⟩ := Parser.bind_ok.1 hsole
  obtain ⟨_, _, -, hrest⟩ := Parser.bind_ok.1 hrest
  obtain ⟨_, _, -, hrest⟩ := Parser.bind_ok.1 hrest
  obtain ⟨-, hrest⟩ := Parser.unless_ok Parser.failExpecting_ok hrest
  obtain ⟨_, _, -, hrest⟩ := Parser.bind_ok.1 hrest
  obtain ⟨rfl, -⟩ := Parser.pure_ok.1 hrest
  exact (Parser.respects_of_reads (Parser.reads_of_expr hexpr)).1 node hnode

/-- Differences, the last of which takes a power with a sign in its exponent away. -/
def signedExponent : Text := "x - y - z ^ -w".toList

/-- A sum or difference with a power on its right. -/
def Expr.endsInPower : Expr → Bool
  | .arith _ _ _ _ (.power ..) => true
  | _ => false

theorem grouped_of_parseExpr_signedExponent :
    ∃ span left op token place base exponent,
      parseExpr signedExponent = .ok (.arith span left op token (.power place base exponent)) ∧
        left.Fits op.level ∧ base.Fits .step ∧ exponent.SignsOver .power := by
  have hshape : (parseExpr signedExponent).toOption.any Expr.endsInPower = true := by
    decide +kernel
  obtain ⟨e, he, hends⟩ := (Option.any_eq_true _ _).1 hshape
  have hparse := Action.toOption_eq_some.1 he
  unfold Expr.endsInPower at hends
  split at hends
  case h_1 span left op token place base exponent =>
    have hsum := grouped_of_parseExpr hparse .self
    have hpower := grouped_of_parseExpr hparse (.under (List.mem_cons_of_mem _ List.mem_cons_self) .self)
    exact ⟨span, left, op, token, place, base, exponent, hparse, hsum.2.1, hpower⟩
  case h_2 => cases hends

end Awk
