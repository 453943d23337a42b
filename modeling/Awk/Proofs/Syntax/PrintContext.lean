import Awk.Proofs.Syntax.Precedence

/-!
# Expressions in print statements

In a print statement `>` and `|` belong to the statement, unless something encloses them.  So no tree that is read
there has one of them in the open (`printable_of_reads`), and that is all that the flag of the grammar does: with it
and without it the same tree is read, and the same tokens are taken, if outside print statements the tree has none of
them in the open, or if in a print statement the next token is none of them (`indifference`).
-/

namespace Awk

mutual

/-- No comparison with `>` and no pipe into `getline` stands in the open.  Parentheses, the brackets of subscripts and
the number of a field enclose what is in them; the key of `in` is enclosed if it has parentheses. -/
def Expr.printable : Expr → Bool
  | .compare _ left op _ right => op ≠ .gt && left.printable && right.printable
  | .getlineCommand .. => false
  | .conditional _ test yes no => test.printable && yes.printable && no.printable
  | .logical _ _ left right | .matching _ left _ _ right | .arith _ left _ _ right | .power _ left right =>
    left.printable && right.printable
  | .assign _ _ _ _ e | .sign _ _ _ e | .getlineFile _ _ e => e.printable
  | .member _ subscripts none _ => allPrintable subscripts
  | .concat _ parts => allPrintable parts
  | .number _ | .string _ | .literal _ | .regex _ | .group .. | .lvalue _ | .member _ _ (some _) _ | .preStep ..
  | .postStep .. | .call .. | .builtin .. | .getline .. => true

def allPrintable : List Expr → Bool
  | [] => true
  | e :: es => e.printable && allPrintable es

end

theorem CompareOp.ofKind?_gt {k : TokenKind} (h : CompareOp.ofKind? k = some .gt) : k = .gt := by
  unfold CompareOp.ofKind? at h
  split at h <;> cases h
  rfl

namespace Parser

/-! ### What is read in a print statement -/

/-- The flag tells, or the level alone, that what is read is printable. -/
def Sheltered (lvl : Level) (inPrint : Bool) : Prop := inPrint = true ∨ Level.step.rank ≤ lvl.rank

/-- What is read as a nonterminal is printable, if it is read in a print statement or binds tightly enough. -/
def Nonterminal.Printable : (x : Nonterminal) → x.Result → Prop
  | level lvl inPrint, e | signed lvl inPrint, e => Sheltered lvl inPrint → e.printable
  | operand inPrint _, e => inPrint = true → e.printable
  | parts inPrint, es | moreItems inPrint, es => inPrint = true → allPrintable es
  | primary, e => e.printable
  | lvalue, _ | subscripts, _ | arguments, _ | getlineTarget, _ => True

theorem Sheltered.inPrint {lvl : Level} {p : Bool} (h : Sheltered lvl p)
    (hlvl : ¬Level.step.rank ≤ lvl.rank := by decide) : p = true := h.resolve_right hlvl

theorem printable_of_reads {x : Nonterminal} {s s' : ParserState} {v : x.Result} (h : Reads x s v s') :
    x.Printable v := by
  induction h with
  | tighter h ih => exact fun hp => ih (hp.imp_right fun hlvl => Nat.le_trans hlvl (Level.rank_le_tighter _))
  | assign hleft hop htake hskip hright ihleft ihright => exact fun hp => ihright (.inl hp.inPrint)
  | conditional htest hmark htake hskip hyes hskip' hcolon htake' hskip'' hno ihtest ihyes ihno =>
    intro hp
    have hin := hp.inPrint
    simp [Expr.printable, ihtest (.inl hin), ihyes (.inl hin), ihno (.inl hin)]
  | disjunction hleft hkind htake hskip hright ihleft ihright
  | conjunction hleft hkind htake hskip hright ihleft ihright =>
    intro hp
    have hin := hp.inPrint
    simp [Expr.printable, ihleft (.inl hin), ihright (.inl hin)]
  | membership hleft hkind htake hname htake' ihleft =>
    intro hp
    simp [Expr.printable, allPrintable, ihleft (.inl hp.inPrint)]
  | matching hleft hkind htake hright ihleft ihright | sum hleft hop htake hright ihleft ihright
  | product hleft hop htake hright ihleft ihright =>
    intro hp
    have hin := hp.inPrint
    simp [Expr.printable, ihleft (.inl hin), ihright (.inl hin)]
  | uncompared h ih => exact fun hp => ih hp.inPrint
  | compare hleft hop hprint htake hright ihleft ihright =>
    intro hp
    have hin := hp.inPrint
    have hop : _ ≠ CompareOp.gt := fun h => hprint ⟨hin, h⟩
    simp [Expr.printable, hop, ihleft hin, ihright hin]
  | unpiped h ih => exact fun hin => ih (.inl hin)
  | pipe => exact fun hin => absurd hin Bool.false_ne_true
  | concat hfirst hmore ihfirst ihmore =>
    intro hp
    have hin := hp.inPrint
    have hparts := ihmore hin
    simp only [allPrintable, Bool.and_eq_true] at hparts
    simp [Expr.printable, allPrintable, ihfirst (.inl hin), hparts]
  | noParts => exact fun _ => rfl
  | parts hstart hpart hmore ihpart ihmore =>
    intro hin
    simp [allPrintable, ihpart (.inl hin), ihmore hin]
  | sign h ih => exact fun hp => ih (.inl hp.inPrint)
  | unsigned h ih => exact ih
  | signed hop htake hoperand ih => exact ih
  | power hbase hkind htake hexponent ihbase ihexponent =>
    intro hp
    have hin := hp.inPrint
    simp [Expr.printable, ihbase (.inl hin), ihexponent (.inl hin)]
  | getlineFile hkind htake htarget hfrom htake' hfile ihtarget ihfile => exact ihfile (.inr (Nat.le_refl _))
  | primary h ih => exact fun _ => ih
  | noItems => exact fun _ => rfl
  | moreItems hcomma htake hskip he hmore ihe ihmore =>
    intro hin
    simp [allPrintable, ihe (.inl hin), ihmore hin]
  | preStep | postStep => exact fun _ => rfl
  | number | string | regex | lvalue | call | builtin | bareLength | getline | group | members => rfl
  | field | fieldStep | name | element | subscripts | noArguments | arguments | noTarget | someTarget => trivial

/-! ### What does not depend on the flag -/

/-- Outside print statements, what has been read is printable. -/
def Unclaimed (inPrint : Bool) (e : Expr) : Prop := inPrint = false → e.printable

/-- In a print statement, the next token is none that the statement keeps for itself. -/
def Clear (inPrint : Bool) (s : ParserState) : Prop :=
  inPrint = true → s.current.kind ≠ .gt ∧ s.current.kind ≠ .pipe

/-- What the functions of the grammar give with the flag they give without it, and the other way round. -/
structure Indifference (n : Nat) : Prop where
  level : ∀ {lvl p s e t}, (level n lvl p).run s = .ok (e, t) → Unclaimed p e → Clear p t →
    (level n lvl !p).run s = .ok (e, t)
  chain : ∀ {lvl p start left s e t}, (chain n lvl p start left).run s = .ok (e, t) → Unclaimed p e → Clear p t →
    Unclaimed p left ∧ Clear p s ∧ (chain n lvl (!p) start left).run s = .ok (e, t)
  signed : ∀ {lvl p s e t}, (signed n lvl p).run s = .ok (e, t) → Unclaimed p e → Clear p t →
    (signed n lvl !p).run s = .ok (e, t)
  parts : ∀ {p s es t}, (parts n p).run s = .ok (es, t) → (∀ e ∈ es, Unclaimed p e) → Clear p t →
    Clear p s ∧ (parts n !p).run s = .ok (es, t)

variable {n : Nat} {p : Bool} {s s' : ParserState} {e : Expr}

theorem clear_of_kind {k : TokenKind} (h : s.current.kind = k) (hk : k ≠ .gt ∧ k ≠ .pipe) : Clear p s := by
  subst h
  exact fun _ => hk

theorem clear_of_some {α : Type} {f : TokenKind → Option α} {a : α} (h : f s.current.kind = some a)
    (hgt : f .gt = none) (hpipe : f .pipe = none) : Clear p s := by
  refine fun _ => ⟨?_, ?_⟩
  · intro hkind
    rw [hkind, hgt] at h
    cases h
  · intro hkind
    rw [hkind, hpipe] at h
    cases h

theorem kind_of_accept {k : TokenKind} (h : (accept k).run s = .ok (true, s')) : s.current.kind = k := by
  rw [accept_iff] at h
  split at h
  · assumption
  · exact absurd h.1.symm Bool.false_ne_true

theorem eq_of_accept {k : TokenKind} (h : (accept k).run s = .ok (false, s')) : s' = s := by
  rw [accept_iff] at h
  split at h
  · exact absurd h.1 Bool.false_ne_true
  · exact h.2

theorem allPrintable_iff {es : List Expr} : allPrintable es ↔ ∀ e ∈ es, e.printable := by
  induction es with
  | nil => simp [allPrintable]
  | cons e es ih => simp [allPrintable, ih]

theorem Skips.clear (h : SkipsNewlines s s') (hs' : Clear p s') : Clear p s := by
  cases h with
  | refl => exact hs'
  | step hkind => exact clear_of_kind (beq_iff_eq.1 hkind) (by decide)

theorem same_assignment (ih : Indifference n) (h : (level (n + 1) .assignment p).run s = .ok (e, s'))
    (he : Unclaimed p e) (hs' : Clear p s') : (level (n + 1) .assignment !p).run s = .ok (e, s') := by
  simp only [level, bind_ok, current_ok, kind_ok] at h ⊢
  obtain ⟨_, s, ⟨rfl, rfl⟩, left, _, hleft, _, s₁, ⟨rfl, rfl⟩, h⟩ := h
  split at h
  · rename_i op target hop htarget
    obtain rfl := eq_of_asLValue? htarget
    simp only [bind_ok, pure_ok] at h
    obtain ⟨token, s₂, htoken, _, s₃, hskip, right, s₄, hright, span, _, hspan, rfl, rfl⟩ := h
    cases spanFrom_ok hspan
    have hleft' := ih.level hleft (fun _ => rfl) (clear_of_some hop rfl rfl)
    have hright' := ih.level hright he hs'
    refine ⟨_, _, ⟨rfl, rfl⟩, _, _, hleft', _, _, ⟨rfl, rfl⟩, ?_⟩
    simp only [hop, Expr.asLValue?, bind_ok, pure_ok]
    exact ⟨token, s₂, htoken, _, s₃, hskip, right, _, hright', span, _, hspan, rfl, rfl⟩
  · rename_i hnone
    obtain ⟨rfl, rfl⟩ := pure_ok.1 h
    refine ⟨_, _, ⟨rfl, rfl⟩, _, _, ih.level hleft he hs', _, _, ⟨rfl, rfl⟩, ?_⟩
    split
    · rename_i op target hop htarget
      exact absurd htarget (hnone op target hop)
    · rfl

theorem same_conditional (ih : Indifference n) (h : (level (n + 1) .conditional p).run s = .ok (e, s'))
    (he : Unclaimed p e) (hs' : Clear p s') : (level (n + 1) .conditional !p).run s = .ok (e, s') := by
  simp only [level, bind_ok, current_ok] at h ⊢
  obtain ⟨_, s, ⟨rfl, rfl⟩, test, s₁, htest, b, s₂, haccept, h⟩ := h
  cases b with
  | true =>
    simp only [if_true, bind_ok, expect_iff, spanFrom_iff, pure_ok] at h
    obtain ⟨_, s₃, hskip, yes, s₄, hyes, _, s₅, hskip', colon, s₆, ⟨rfl, hcolon, htake⟩, _, s₇, hskip'', no, s₈, hno,
      span, _, ⟨rfl, rfl⟩, rfl, rfl⟩ := h
    have hprintable (hp : p = false) : (test.printable ∧ yes.printable) ∧ no.printable := by
      simpa only [Expr.printable, Bool.and_eq_true] using he hp
    have hs₄ : Clear p s₄ := (skips_of_skip hskip').clear (clear_of_kind hcolon (by decide))
    have htest' := ih.level htest (fun hp => (hprintable hp).1.1) (clear_of_kind (kind_of_accept haccept) (by decide))
    have hyes' := ih.level hyes (fun hp => (hprintable hp).1.2) hs₄
    have hno' := ih.level hno (fun hp => (hprintable hp).2) hs'
    refine ⟨_, _, ⟨rfl, rfl⟩, _, _, htest', _, _, haccept, ?_⟩
    simp only [if_true, bind_ok, expect_iff, spanFrom_iff, pure_ok]
    exact ⟨_, _, hskip, _, _, hyes', _, _, hskip', _, _, ⟨rfl, hcolon, htake⟩, _, _, hskip'', _, _, hno', _, _,
      ⟨rfl, rfl⟩, rfl, rfl⟩
  | false =>
    obtain ⟨rfl, rfl⟩ := pure_ok.1 h
    obtain rfl := eq_of_accept haccept
    exact ⟨_, _, ⟨rfl, rfl⟩, _, _, ih.level htest he hs', _, _, haccept, rfl⟩

/-- What is read at a chain's first operand goes on unchanged. -/
theorem same_start (ih : Indifference n) (lvl : Level)
    (h : (do
      let start ← current
      let left ← level n lvl.tighter p
      chain n lvl p start left : Parser Expr).run s = .ok (e, s')) (he : Unclaimed p e) (hs' : Clear p s') :
    (do
      let start ← current
      let left ← level n lvl.tighter !p
      chain n lvl (!p) start left : Parser Expr).run s = .ok (e, s') := by
  simp only [bind_ok, current_ok] at h ⊢
  obtain ⟨_, s, ⟨rfl, rfl⟩, left, s₁, hleft, h⟩ := h
  obtain ⟨he₁, hs₁, hchain⟩ := ih.chain h he hs'
  exact ⟨_, _, ⟨rfl, rfl⟩, _, _, ih.level hleft he₁ hs₁, hchain⟩

theorem same_concatenation (ih : Indifference n) (h : (level (n + 1) .concatenation p).run s = .ok (e, s'))
    (he : Unclaimed p e) (hs' : Clear p s') : (level (n + 1) .concatenation !p).run s = .ok (e, s') := by
  simp only [level, bind_ok, current_ok] at h ⊢
  obtain ⟨_, s, ⟨rfl, rfl⟩, first, s₁, hfirst, more, s₂, hmore, h⟩ := h
  cases more with
  | nil =>
    obtain ⟨rfl, rfl⟩ := pure_ok.1 h
    obtain ⟨hs₁, hmore'⟩ := ih.parts hmore (by simp) hs'
    exact ⟨_, _, ⟨rfl, rfl⟩, _, _, ih.level hfirst he hs₁, _, _, hmore', rfl⟩
  | cons part more =>
    obtain ⟨_, _, hspan, h⟩ := bind_ok.1 h
    obtain ⟨rfl, rfl⟩ := spanFrom_iff.1 hspan
    obtain ⟨rfl, rfl⟩ := pure_ok.1 h
    have hparts (hp : p = false) : ∀ x ∈ first :: part :: more, x.printable := allPrintable_iff.1 (he hp)
    obtain ⟨hs₁, hmore'⟩ := ih.parts hmore (fun x hx hp => hparts hp x (List.mem_cons_of_mem _ hx)) hs'
    have hfirst' := ih.level hfirst (fun hp => hparts hp first List.mem_cons_self) hs₁
    exact ⟨_, _, ⟨rfl, rfl⟩, _, _, hfirst', _, _, hmore', bind_ok.2 ⟨_, _, hspan, rfl⟩⟩

theorem same_power (ih : Indifference n) (h : (level (n + 1) .power p).run s = .ok (e, s'))
    (he : Unclaimed p e) (hs' : Clear p s') : (level (n + 1) .power !p).run s = .ok (e, s') := by
  simp only [level, bind_ok, current_ok] at h ⊢
  obtain ⟨_, s, ⟨rfl, rfl⟩, base, s₁, hbase, b, s₂, haccept, h⟩ := h
  cases b with
  | true =>
    simp only [if_true, bind_ok, spanFrom_iff, pure_ok] at h
    obtain ⟨exponent, s₃, hexponent, span, _, ⟨rfl, rfl⟩, rfl, rfl⟩ := h
    have hprintable (hp : p = false) : base.printable ∧ exponent.printable := by
      simpa only [Expr.printable, Bool.and_eq_true] using he hp
    have hbase' := ih.level hbase (fun hp => (hprintable hp).1) (clear_of_kind (kind_of_accept haccept) (by decide))
    have hexponent' := ih.signed hexponent (fun hp => (hprintable hp).2) hs'
    refine ⟨_, _, ⟨rfl, rfl⟩, _, _, hbase', _, _, haccept, ?_⟩
    simp only [if_true, bind_ok, spanFrom_iff, pure_ok]
    exact ⟨_, _, hexponent', _, _, ⟨rfl, rfl⟩, rfl, rfl⟩
  | false =>
    obtain ⟨rfl, rfl⟩ := pure_ok.1 h
    obtain rfl := eq_of_accept haccept
    exact ⟨_, _, ⟨rfl, rfl⟩, _, _, ih.level hbase he hs', _, _, haccept, rfl⟩

theorem same_step (ih : Indifference n) (h : (level (n + 1) .step p).run s = .ok (e, s'))
    (he : Unclaimed p e) (hs' : Clear p s') : (level (n + 1) .step !p).run s = .ok (e, s') := by
  simp only [level, bind_ok, current_ok] at h ⊢
  obtain ⟨_, s, ⟨rfl, rfl⟩, h⟩ := h
  refine ⟨_, _, ⟨rfl, rfl⟩, ?_⟩
  split at h
  · exact h
  · simp only [bind_ok, kind_ok] at h ⊢
    obtain ⟨operand, s₁, hoperand, _, s₁, ⟨rfl, rfl⟩, h⟩ := h
    split at h
    · rename_i target op htarget hop
      obtain rfl := eq_of_asLValue? htarget
      refine ⟨_, _, ih.level hoperand (fun _ => rfl) (clear_of_some hop rfl rfl), _, _, ⟨rfl, rfl⟩, ?_⟩
      simp only [Expr.asLValue?, hop]
      exact h
    · rename_i hnone
      obtain ⟨rfl, rfl⟩ := pure_ok.1 h
      refine ⟨_, _, ih.level hoperand he hs', _, _, ⟨rfl, rfl⟩, ?_⟩
      split
      · rename_i target op htarget hop
        exact absurd hop (hnone target op htarget)
      · rfl

theorem same_signed (ih : Indifference n) {lvl : Level} (h : (signed (n + 1) lvl p).run s = .ok (e, s'))
    (he : Unclaimed p e) (hs' : Clear p s') : (signed (n + 1) lvl !p).run s = .ok (e, s') := by
  simp only [signed, bind_ok, current_ok] at h ⊢
  obtain ⟨_, s, ⟨rfl, rfl⟩, h⟩ := h
  refine ⟨_, _, ⟨rfl, rfl⟩, ?_⟩
  split at h
  · simp only [bind_ok, spanFrom_iff, pure_ok] at h ⊢
    obtain ⟨token, s₁, htoken, operand, s₂, hoperand, span, _, ⟨rfl, rfl⟩, rfl, rfl⟩ := h
    exact ⟨_, _, htoken, _, _, ih.signed hoperand he hs', _, _, ⟨rfl, rfl⟩, rfl, rfl⟩
  · exact ih.level h he hs'

theorem same_parts (ih : Indifference n) {es : List Expr} (h : (parts (n + 1) p).run s = .ok (es, s'))
    (hes : ∀ e ∈ es, Unclaimed p e) (hs' : Clear p s') :
    Clear p s ∧ (parts (n + 1) !p).run s = .ok (es, s') := by
  simp only [parts, bind_ok, kind_ok] at h ⊢
  obtain ⟨_, s, ⟨rfl, rfl⟩, h⟩ := h
  split at h
  · rename_i hstart
    simp only [bind_ok, pure_ok] at h
    obtain ⟨part, s₁, hpart, more, s₂, hmore, rfl, rfl⟩ := h
    obtain ⟨hpart', hmore'⟩ := List.forall_mem_cons.1 hes
    obtain ⟨hs₁, hrest⟩ := ih.parts hmore hmore' hs'
    have hs : Clear p s := by
      refine fun _ => ⟨?_, ?_⟩ <;> intro hkind <;> rw [hkind] at hstart <;> cases hstart
    refine ⟨hs, _, _, ⟨rfl, rfl⟩, ?_⟩
    simp only [hstart, if_true, bind_ok, pure_ok]
    exact ⟨_, _, ih.level hpart hpart' hs₁, _, _, hrest, rfl, rfl⟩
  · rename_i hstart
    obtain ⟨rfl, rfl⟩ := pure_ok.1 h
    refine ⟨hs', _, _, ⟨rfl, rfl⟩, ?_⟩
    rw [if_neg hstart]
    rfl

/-- The right operand is read, and the chain goes on with what the two operands make. -/
theorem same_operand (ih : Indifference n) (left : Expr) (build : Span → Expr → Expr)
    (hbuild : ∀ {span right}, (build span right).printable → left.printable ∧ right.printable) {lvl tighter : Level}
    {start : Token}
    (h : (do
      let right ← level n tighter p
      chain n lvl p start (build (← spanFrom start) right) : Parser Expr).run s = .ok (e, s'))
    (he : Unclaimed p e) (hs' : Clear p s') :
    Unclaimed p left ∧ (do
      let right ← level n tighter !p
      chain n lvl (!p) start (build (← spanFrom start) right) : Parser Expr).run s = .ok (e, s') := by
  simp only [bind_ok, spanFrom_iff] at h ⊢
  obtain ⟨right, s₁, hright, span, _, ⟨rfl, rfl⟩, h⟩ := h
  obtain ⟨hboth, hs₁, hchain⟩ := ih.chain h he hs'
  have hright' := ih.level hright (fun hp => (hbuild (hboth hp)).2) hs₁
  exact ⟨fun hp => (hbuild (hboth hp)).1, _, _, hright', _, _, ⟨rfl, rfl⟩, hchain⟩

/-- An operator whose token is kept. -/
theorem same_operator (ih : Indifference n) (left : Expr) (build : Token → Span → Expr → Expr)
    (hbuild : ∀ {token span right}, (build token span right).printable → left.printable ∧ right.printable)
    {lvl tighter : Level} {start : Token}
    (h : (do
      let token ← advance
      let right ← level n tighter p
      chain n lvl p start (build token (← spanFrom start) right) : Parser Expr).run s = .ok (e, s'))
    (he : Unclaimed p e) (hs' : Clear p s') :
    Unclaimed p left ∧ (do
      let token ← advance
      let right ← level n tighter !p
      chain n lvl (!p) start (build token (← spanFrom start) right) : Parser Expr).run s = .ok (e, s') := by
  obtain ⟨token, s₁, htoken, h⟩ := bind_ok.1 h
  obtain ⟨hleft, hrest⟩ := same_operand ih left (build token) hbuild h he hs'
  exact ⟨hleft, bind_ok.2 ⟨token, s₁, htoken, hrest⟩⟩

theorem same_logical (ih : Indifference n) {left : Expr} (op : LogicalOp) {lvl tighter : Level} {start : Token}
    (h : (do
      let _ ← advance
      skipNewlines
      let right ← level n tighter p
      chain n lvl p start (.logical (← spanFrom start) op left right) : Parser Expr).run s = .ok (e, s'))
    (he : Unclaimed p e) (hs' : Clear p s') :
    Unclaimed p left ∧ (do
      let _ ← advance
      skipNewlines
      let right ← level n tighter !p
      chain n lvl (!p) start (.logical (← spanFrom start) op left right) : Parser Expr).run s = .ok (e, s') := by
  obtain ⟨token, s₁, htoken, h⟩ := bind_ok.1 h
  obtain ⟨u, s₂, hskip, h⟩ := bind_ok.1 h
  obtain ⟨hleft, hrest⟩ := same_operand ih left (.logical · op left ·) (by simp [Expr.printable]) h he hs'
  exact ⟨hleft, bind_ok.2 ⟨token, s₁, htoken, bind_ok.2 ⟨u, s₂, hskip, hrest⟩⟩⟩

/-- Sums and products. -/
theorem same_arith (ih : Indifference n) {left : Expr} (op? : TokenKind → Option ArithOp) (hgt : op? .gt = none)
    (hpipe : op? .pipe = none) {lvl tighter : Level} {start : Token}
    (h : (match op? s.current.kind with
      | some op => do
        let token ← advance
        let right ← level n tighter p
        chain n lvl p start (.arith (← spanFrom start) left op token right)
      | none => return left : Parser Expr).run s = .ok (e, s'))
    (he : Unclaimed p e) (hs' : Clear p s') :
    Unclaimed p left ∧ Clear p s ∧
    (match op? s.current.kind with
      | some op => do
        let token ← advance
        let right ← level n tighter !p
        chain n lvl (!p) start (.arith (← spanFrom start) left op token right)
      | none => return left : Parser Expr).run s = .ok (e, s') := by
  cases hop : op? s.current.kind with
  | none =>
    rw [hop] at h
    obtain ⟨rfl, rfl⟩ := pure_ok.1 h
    exact ⟨he, hs', rfl⟩
  | some op =>
    rw [hop] at h
    obtain ⟨hleft, hrest⟩ := same_operator ih left
      (fun token span right => .arith span left op token right) (by simp [Expr.printable]) h he hs'
    exact ⟨hleft, clear_of_some hop hgt hpipe, hrest⟩

theorem same_chain (ih : Indifference n) {lvl : Level} {start : Token} {left : Expr}
    (h : (chain (n + 1) lvl p start left).run s = .ok (e, s')) (he : Unclaimed p e) (hs' : Clear p s') :
    Unclaimed p left ∧ Clear p s ∧ (chain (n + 1) lvl (!p) start left).run s = .ok (e, s') := by
  simp only [chain, bind_ok, kind_ok] at h ⊢
  obtain ⟨_, s, ⟨rfl, rfl⟩, h⟩ := h
  split at h
  · rename_i hkind
    obtain ⟨hleft, hrest⟩ := same_logical ih .or h he hs'
    exact ⟨hleft, clear_of_kind hkind (by decide), _, _, ⟨rfl, rfl⟩, by rw [hkind]; exact hrest⟩
  · rename_i hkind
    obtain ⟨hleft, hrest⟩ := same_logical ih .and h he hs'
    exact ⟨hleft, clear_of_kind hkind (by decide), _, _, ⟨rfl, rfl⟩, by rw [hkind]; exact hrest⟩
  · rename_i hkind
    simp only [bind_ok, spanFrom_iff] at h
    obtain ⟨token, s₁, htoken, array, s₂, harray, span, _, ⟨rfl, rfl⟩, h⟩ := h
    obtain ⟨hleft, -, hchain⟩ := ih.chain h he hs'
    refine ⟨fun hp => ?_, clear_of_kind hkind (by decide), _, _, ⟨rfl, rfl⟩, ?_⟩
    · simpa [Expr.printable, allPrintable] using hleft hp
    · simp only [hkind, bind_ok, spanFrom_iff]
      exact ⟨_, _, htoken, _, _, harray, _, _, ⟨rfl, rfl⟩, hchain⟩
  · rename_i hkind
    obtain ⟨hleft, hrest⟩ := same_operator ih left
      (fun token span right => .matching span left false token right) (by simp [Expr.printable]) h he hs'
    exact ⟨hleft, clear_of_kind hkind (by decide), _, _, ⟨rfl, rfl⟩, by rw [hkind]; exact hrest⟩
  · rename_i hkind
    obtain ⟨hleft, hrest⟩ := same_operator ih left
      (fun token span right => .matching span left true token right) (by simp [Expr.printable]) h he hs'
    exact ⟨hleft, clear_of_kind hkind (by decide), _, _, ⟨rfl, rfl⟩, by rw [hkind]; exact hrest⟩
  · obtain ⟨hleft, hs, hrest⟩ := same_arith ih ArithOp.sum? rfl rfl h he hs'
    exact ⟨hleft, hs, _, _, ⟨rfl, rfl⟩, hrest⟩
  · obtain ⟨hleft, hs, hrest⟩ := same_arith ih ArithOp.product? rfl rfl h he hs'
    exact ⟨hleft, hs, _, _, ⟨rfl, rfl⟩, hrest⟩
  · obtain ⟨rfl, rfl⟩ := pure_ok.1 h
    refine ⟨he, hs', _, _, ⟨rfl, rfl⟩, ?_⟩
    split <;> first | rfl | (exfalso; simp_all)

theorem pipes_unpiped (hn : n ≠ 0) {start : Token} {command : Expr} (h : s.current.kind ≠ .pipe) :
    (pipes n start command).run s = .ok (command, s) := by
  obtain ⟨n, rfl⟩ := Nat.exists_eq_add_one_of_ne_zero hn
  simp only [pipes, bind_ok, kind_ok]
  exact ⟨_, _, ⟨rfl, rfl⟩, by rw [if_neg h]; rfl⟩

/-- Pipes that are taken are what is read. -/
theorem pipes_printable {start : Token} {command : Expr} (h : (pipes n start command).run s = .ok (e, s'))
    (he : e.printable) : e = command ∧ s' = s := by
  induction n generalizing s command with
  | zero => exact absurd h tooDeep_ok
  | succ n ih =>
    simp only [pipes, bind_ok, kind_ok] at h
    obtain ⟨_, s, ⟨rfl, rfl⟩, h⟩ := h
    split at h
    · obtain ⟨k, s₁, hnext, h⟩ := bind_ok.1 h
      cases nextKind_ok hnext
      split at h
      · simp only [bind_ok, spanFrom_iff] at h
        obtain ⟨_, s₂, -, _, s₃, -, target, s₄, -, span, _, ⟨rfl, rfl⟩, h⟩ := h
        obtain ⟨rfl, -⟩ := ih h
        cases he
      · exact pure_ok.1 h
    · exact pure_ok.1 h

theorem level_fuel {lvl : Level} (h : (level n lvl p).run s = .ok (e, s')) : n ≠ 0 := by
  rintro rfl
  exact tooDeep_ok h

/-- Outside print statements pipes may follow an operand. -/
theorem same_comparison_outside (ih : Indifference n)
    (h : (level (n + 1) .comparison false).run s = .ok (e, s')) (he : e.printable) :
    (level (n + 1) .comparison true).run s = .ok (e, s') := by
  simp only [level, Bool.false_eq_true, if_false, if_true, bind_ok, current_ok, kind_ok] at h ⊢
  obtain ⟨_, s, ⟨rfl, rfl⟩, first, s₁, hfirst, left, s₂, hpipes, _, s₂, ⟨rfl, rfl⟩, h⟩ := h
  have hfree {s : ParserState} : Clear false s := fun hin => absurd hin Bool.false_ne_true
  split at h
  · rename_i op hop
    simp only [Bool.false_and, Bool.false_eq_true, if_false, bind_ok, spanFrom_iff, pure_ok] at h
    obtain ⟨token, s₃, htoken, second, s₄, hsecond, right, s₅, hpipes', span, _, ⟨rfl, rfl⟩, rfl, rfl⟩ := h
    simp only [Expr.printable, Bool.and_eq_true, decide_eq_true_eq] at he
    obtain ⟨⟨hne, hleft⟩, hright⟩ := he
    obtain ⟨rfl, rfl⟩ := pipes_printable hpipes hleft
    obtain ⟨rfl, rfl⟩ := pipes_printable hpipes' hright
    have hfirst' := ih.level hfirst (fun _ => hleft) hfree
    have hsecond' := ih.level hsecond (fun _ => hright) hfree
    refine ⟨_, _, ⟨rfl, rfl⟩, _, _, hfirst', _, _, pure_ok.2 ⟨rfl, rfl⟩, _, _, ⟨rfl, rfl⟩, ?_⟩
    simp only [hop, hne, decide_false, Bool.and_false, Bool.false_eq_true, if_false, bind_ok, spanFrom_iff, pure_ok]
    exact ⟨_, _, htoken, _, _, hsecond', _, _, ⟨rfl, rfl⟩, _, _, ⟨rfl, rfl⟩, rfl, rfl⟩
  · rename_i hop
    obtain ⟨rfl, rfl⟩ := pure_ok.1 h
    obtain ⟨rfl, rfl⟩ := pipes_printable hpipes he
    refine ⟨_, _, ⟨rfl, rfl⟩, _, _, ih.level hfirst (fun _ => he) hfree, _, _, pure_ok.2 ⟨rfl, rfl⟩, _, _,
      ⟨rfl, rfl⟩, ?_⟩
    rw [hop]
    rfl

theorem same_comparison_inside (ih : Indifference n)
    (h : (level (n + 1) .comparison true).run s = .ok (e, s')) (hs' : Clear true s') :
    (level (n + 1) .comparison false).run s = .ok (e, s') := by
  simp only [level, Bool.false_eq_true, if_false, if_true, bind_ok, current_ok, kind_ok] at h ⊢
  obtain ⟨_, s, ⟨rfl, rfl⟩, left, _, hleft, _, s₁, hpure, _, s₁, ⟨rfl, rfl⟩, h⟩ := h
  obtain ⟨rfl, rfl⟩ := pure_ok.1 hpure
  have hn := level_fuel hleft
  have hbare {e : Expr} : Unclaimed true e := fun hout => absurd hout.symm Bool.false_ne_true
  split at h
  · rename_i op hop
    split at h
    · rename_i hgt
      obtain ⟨rfl, rfl⟩ := pure_ok.1 h
      obtain rfl : op = .gt := by simpa using hgt
      exact absurd (CompareOp.ofKind?_gt hop) (hs' rfl).1
    · rename_i hgt
      simp only [bind_ok, spanFrom_iff, pure_ok] at h
      obtain ⟨token, s₃, htoken, right, _, hright, _, s₄, ⟨rfl, rfl⟩, span, _, ⟨rfl, rfl⟩, rfl, rfl⟩ := h
      have hs₁ : Clear true s₁ := by
        refine fun _ => ⟨?_, ?_⟩
        · intro hkind
          rw [hkind] at hop
          cases hop
          exact hgt rfl
        · intro hkind
          rw [hkind] at hop
          cases hop
      have hleft' := ih.level hleft hbare hs₁
      have hright' := ih.level hright hbare hs'
      refine ⟨_, _, ⟨rfl, rfl⟩, _, _, hleft', _, _, pipes_unpiped hn (hs₁ rfl).2, _, _, ⟨rfl, rfl⟩, ?_⟩
      simp only [hop, Bool.false_and, Bool.false_eq_true, if_false, bind_ok, spanFrom_iff, pure_ok]
      exact ⟨_, _, htoken, _, _, hright', _, _, pipes_unpiped hn (hs' rfl).2, _, _, ⟨rfl, rfl⟩, rfl, rfl⟩
  · rename_i hop
    obtain ⟨rfl, rfl⟩ := pure_ok.1 h
    refine ⟨_, _, ⟨rfl, rfl⟩, _, _, ih.level hleft hbare hs', _, _, pipes_unpiped hn (hs' rfl).2, _, _, ⟨rfl, rfl⟩, ?_⟩
    rw [hop]
    rfl

theorem same_level (ih : Indifference n) {lvl : Level} (h : (level (n + 1) lvl p).run s = .ok (e, s'))
    (he : Unclaimed p e) (hs' : Clear p s') : (level (n + 1) lvl !p).run s = .ok (e, s') := by
  cases lvl with
  | assignment => exact same_assignment ih h he hs'
  | conditional => exact same_conditional ih h he hs'
  | comparison =>
    cases p with
    | false => exact same_comparison_outside ih h (he rfl)
    | true => exact same_comparison_inside ih h hs'
  | concatenation => exact same_concatenation ih h he hs'
  | sign => exact ih.signed h he hs'
  | power => exact same_power ih h he hs'
  | step => exact same_step ih h he hs'
  | primary => exact h
  | disjunction => exact same_start ih .disjunction h he hs'
  | conjunction => exact same_start ih .conjunction h he hs'
  | membership => exact same_start ih .membership h he hs'
  | matching => exact same_start ih .matching h he hs'
  | sum => exact same_start ih .sum h he hs'
  | product => exact same_start ih .product h he hs'

theorem indifference (n : Nat) : Indifference n := by
  induction n with
  | zero => constructor <;> intros <;> rename_i h _ _ <;> exact absurd h tooDeep_ok
  | succ n ih =>
    exact {
      level := same_level ih
      chain := same_chain ih
      signed := same_signed ih
      parts := same_parts ih }

/-- **The print context changes no more than it has to.**  From any state of the parser, whatever is read as an
expression of a print statement is printable; and whatever is read as an expression elsewhere, if it is printable, is
read in a print statement too, as the same tree and with the same tokens taken. -/
theorem expr_inPrint (fuel : Nat) (s : ParserState) :
    (∀ e s', (expr fuel true).run s = .ok (e, s') → e.printable) ∧
      ∀ e s', (expr fuel false).run s = .ok (e, s') → e.printable → (expr fuel true).run s = .ok (e, s') := by
  refine ⟨fun e s' h => ?_, fun e s' h he => ?_⟩
  · exact printable_of_reads (reads_of_expr h) (.inl rfl)
  · exact (indifference fuel).level h (fun _ => he) fun hin => absurd hin Bool.false_ne_true

/-- In the open there is one `<`, and then a pipe into a command; what else compares or pipes is enclosed. -/
def enclosed : Text := "x = y ? (a > b) c[d > e] < $(f | getline) : g(h > i) | \"sort\"".toList

theorem expr_inPrint_enclosed :
    ∃ s e s', start enclosed = .ok s ∧ (expr (fuelFor enclosed) false).run s = .ok (e, s') ∧ s'.current.kind = .pipe ∧
      e.printable ∧ (expr (fuelFor enclosed) true).run s = .ok (e, s') := by
  have hread : ((start enclosed).bind (expr (fuelFor enclosed) false).run).toOption.any
      (fun read => read.1.printable && read.2.current.kind == .pipe) = true := by
    decide +kernel
  obtain ⟨⟨e, s'⟩, hsome, hboth⟩ := (Option.any_eq_true _ _).1 hread
  obtain ⟨s, hstart, hrun⟩ := Action.bind_eq_ok.1 (Action.toOption_eq_some.1 hsome)
  rw [Bool.and_eq_true, beq_iff_eq] at hboth
  have hin := (expr_inPrint (fuelFor enclosed) s).2 e s' hrun hboth.1
  exact ⟨s, e, s', hstart, hrun, hboth.2, (expr_inPrint (fuelFor enclosed) s).1 e s' hin, hin⟩

end Parser

end Awk
