import Awk.Proofs.Syntax.Rendering.Words

/-!
# From tighter to looser levels

An expression of a level is one of every looser level as well, unless the token behind it goes on with it there, or the
token that it begins with has a meaning of its own there (`Costs.loosen`).  What a parser needs of its fuel is counted
along (`Costs`).
-/

namespace Awk

namespace Level

/-- How many levels are looser. -/
def index : Level → Nat
  | assignment => 0
  | conditional => 1
  | disjunction => 2
  | conjunction => 3
  | membership => 4
  | matching => 5
  | comparison => 6
  | concatenation => 7
  | sum => 8
  | product => 9
  | sign => 10
  | power => 11
  | step => 12
  | primary => 13

/-- A token of a kind goes on with an expression of the next tighter level. -/
def continuedBy : Level → TokenKind → Bool
  | assignment, k => (AssignOp.ofKind? k).isSome
  | conditional, k => k == .qmark
  | disjunction, k => k == .or
  | conjunction, k => k == .and
  | membership, k => k == .in
  | matching, k => k == .tilde || k == .noMatch
  | comparison, k => (CompareOp.ofKind? k).isSome || k == .pipe
  | concatenation, k => Parser.startsPart k
  | sum, k => (ArithOp.sum? k).isSome
  | product, k => (ArithOp.product? k).isSome
  | power, k => k == .pow
  | step, k => (StepOp.ofKind? k).isSome
  | sign, _ | primary, _ => false

/-- A token of a kind begins an expression that is of the level and not of a tighter one. -/
def openedBy : Level → TokenKind → Bool
  | sign, k => (SignOp.ofKind? k).isSome
  | step, k => (StepOp.ofKind? k).isSome
  | _, _ => false

theorem index_le (lvl : Level) : lvl.index ≤ 13 := by
  cases lvl <;> decide

theorem index_tighter {lvl : Level} (h : lvl ≠ primary) : lvl.tighter.index = lvl.index + 1 := by
  cases lvl <;> first | rfl | exact absurd rfl h

theorem index_injective {lvl lvl' : Level} (h : lvl.index = lvl'.index) : lvl = lvl' := by
  cases lvl <;> cases lvl' <;> first | rfl | cases h

end Level

namespace Parser

/-- With so much fuel or more, a parser reads a value from a state to a state. -/
def Costs {α : Type} (cost : Nat) (p : Nat → Parser α) (s : ParserState) (a : α) (s' : ParserState) : Prop :=
  ∀ n, cost ≤ n → (p n).run s = .ok (a, s')

variable {α : Type} {c c' : Nat} {p : Nat → Parser α} {a : α} {s s' s₁ : ParserState} {e : Expr}

theorem Costs.mono (h : Costs c p s a s') (hle : c ≤ c') : Costs c' p s a s' := fun n hn => h n (hle.trans hn)

/-- A parser that passes on one unit of fuel less. -/
theorem Costs.succ (h : ∀ n, c ≤ n → (p (n + 1)).run s = .ok (a, s')) : Costs (c + 1) p s a s' := by
  intro n hn
  obtain ⟨n, rfl⟩ := Nat.exists_eq_add_of_le' (Nat.le_trans (Nat.le_add_left 1 c) hn)
  exact h n (Nat.le_of_succ_le_succ hn)

theorem skipNewlines_none (h : s.current.kind ≠ .newline) : skipNewlines.run s = .ok ((), s) := by
  unfold skipNewlines skip
  simp only [bind_ok, get_ok]
  refine ⟨_, _, ⟨rfl, rfl⟩, ?_⟩
  rw [skipFuel]
  simp only [bind_ok, kind_ok]
  refine ⟨_, _, ⟨rfl, rfl⟩, ?_⟩
  rw [if_neg (by simpa using h)]
  rfl

/-! ### One level up -/

theorem pipes_none (h : s.current.kind ≠ .pipe) (start : Token) (e : Expr) : Costs 1 (pipes · start e) s e s := by
  refine .succ fun n _ => ?_
  simp only [pipes, bind_ok, kind_ok]
  refine ⟨_, _, ⟨rfl, rfl⟩, ?_⟩
  rw [if_neg h]
  rfl

theorem parts_none (h : startsPart s.current.kind = false) : Costs 1 (parts · false) s [] s := by
  refine .succ fun n _ => ?_
  simp only [parts, bind_ok, kind_ok]
  refine ⟨_, _, ⟨rfl, rfl⟩, ?_⟩
  rw [h]
  rfl

theorem chain_none {lvl : Level} (h : lvl.continuedBy s.current.kind = false) (start : Token) (e : Expr) :
    Costs 1 (chain · lvl false start e) s e s := by
  refine .succ fun n _ => ?_
  simp only [chain, bind_ok, kind_ok]
  refine ⟨_, _, ⟨rfl, rfl⟩, ?_⟩
  split
  case h_6 =>
    have hnone : ArithOp.sum? s.current.kind = none := by simpa [Level.continuedBy] using h
    rw [hnone]
    rfl
  case h_7 =>
    have hnone : ArithOp.product? s.current.kind = none := by simpa [Level.continuedBy] using h
    rw [hnone]
    rfl
  case h_8 => rfl
  all_goals rename_i hkind
  all_goals simp [Level.continuedBy, hkind] at h

theorem level_assignment (hfollow : AssignOp.ofKind? s'.current.kind = none)
    (h : Costs c (level · .conditional false) s e s') : Costs (c + 1) (level · .assignment false) s e s' := by
  refine .succ fun n hn => ?_
  simp only [level, bind_ok, current_ok, kind_ok]
  refine ⟨_, _, ⟨rfl, rfl⟩, e, s', h n hn, _, _, ⟨rfl, rfl⟩, ?_⟩
  rw [hfollow]
  rfl

theorem level_conditional (hfollow : s'.current.kind ≠ .qmark)
    (h : Costs c (level · .disjunction false) s e s') : Costs (c + 1) (level · .conditional false) s e s' := by
  refine .succ fun n hn => ?_
  simp only [level, bind_ok, current_ok, accept_iff]
  refine ⟨_, _, ⟨rfl, rfl⟩, e, s', h n hn, false, s', ?_, rfl⟩
  rw [if_neg hfollow]
  exact ⟨rfl, rfl⟩

theorem level_comparison (hc : 1 ≤ c) (hpipe : s'.current.kind ≠ .pipe)
    (hfollow : CompareOp.ofKind? s'.current.kind = none) (h : Costs c (level · .concatenation false) s e s') :
    Costs (c + 1) (level · .comparison false) s e s' := by
  refine .succ fun n hn => ?_
  simp only [level, bind_ok, current_ok]
  refine ⟨_, _, ⟨rfl, rfl⟩, e, s', h n hn, ?_⟩
  rw [if_neg Bool.false_ne_true]
  simp only [bind_ok, kind_ok]
  refine ⟨e, s', pipes_none hpipe _ _ n (hc.trans hn), _, _, ⟨rfl, rfl⟩, ?_⟩
  rw [hfollow]
  rfl

theorem level_concatenation (hc : 1 ≤ c) (hfollow : startsPart s'.current.kind = false)
    (h : Costs c (level · .sum false) s e s') : Costs (c + 1) (level · .concatenation false) s e s' := by
  refine .succ fun n hn => ?_
  simp only [level, bind_ok, current_ok]
  exact ⟨_, _, ⟨rfl, rfl⟩, e, s', h n hn, [], s', parts_none hfollow n (hc.trans hn), rfl⟩

theorem signed_of_level {lvl : Level} (hopen : SignOp.ofKind? s.current.kind = none)
    (h : Costs c (level · lvl false) s e s') : Costs (c + 1) (signed · lvl false) s e s' := by
  refine .succ fun n hn => ?_
  simp only [signed, bind_ok, current_ok]
  refine ⟨_, _, ⟨rfl, rfl⟩, ?_⟩
  rw [hopen]
  exact h n hn

theorem level_sign (h : Costs c (signed · .power false) s e s') : Costs (c + 1) (level · .sign false) s e s' :=
  .succ h

theorem level_power (hfollow : s'.current.kind ≠ .pow) (h : Costs c (level · .step false) s e s') :
    Costs (c + 1) (level · .power false) s e s' := by
  refine .succ fun n hn => ?_
  simp only [level, bind_ok, current_ok, accept_iff]
  refine ⟨_, _, ⟨rfl, rfl⟩, e, s', h n hn, false, s', ?_, rfl⟩
  rw [if_neg hfollow]
  exact ⟨rfl, rfl⟩

theorem level_step (hopen : StepOp.ofKind? s.current.kind = none) (hfollow : StepOp.ofKind? s'.current.kind = none)
    (h : Costs c (level · .primary false) s e s') : Costs (c + 1) (level · .step false) s e s' := by
  refine .succ fun n hn => ?_
  simp only [level, bind_ok, current_ok]
  refine ⟨_, _, ⟨rfl, rfl⟩, ?_⟩
  rw [hopen]
  simp only [bind_ok, kind_ok]
  refine ⟨e, s', h n hn, _, _, ⟨rfl, rfl⟩, ?_⟩
  rw [hfollow]
  cases e.asLValue? <;> rfl

/-- The levels whose operators associate to the left. -/
theorem level_chain {lvl : Level}
    (hlvl : lvl ∈ [.disjunction, .conjunction, .membership, .matching, .sum, .product]) {left : Expr}
    (hleft : Costs c (level · lvl.tighter false) s left s₁)
    (hchain : Costs c (chain · lvl false s.current left) s₁ e s') : Costs (c + 1) (level · lvl false) s e s' := by
  refine .succ fun n hn => ?_
  have hrun : (do
      let start ← current
      let left ← level n lvl.tighter false
      chain n lvl false start left : Parser Expr).run s = .ok (e, s') := by
    simp only [bind_ok, current_ok]
    exact ⟨_, _, ⟨rfl, rfl⟩, left, s₁, hleft n hn, hchain n hn⟩
  cases lvl with
  | disjunction | conjunction | membership | matching | sum | product => exact hrun
  | _ => simp at hlvl

theorem Costs.level_of_tighter {lvl : Level} (hlvl : lvl ≠ .primary) (hc : 1 ≤ c)
    (hfollow : lvl.continuedBy s'.current.kind = false) (hopen : lvl.openedBy s.current.kind = false)
    (h : Costs c (level · lvl.tighter false) s e s') : Costs (c + 2) (level · lvl false) s e s' := by
  cases lvl with
  | assignment => exact (level_assignment (by simpa [Level.continuedBy] using hfollow) h).mono (by omega)
  | conditional => exact (level_conditional (by simpa [Level.continuedBy] using hfollow) h).mono (by omega)
  | comparison =>
    simp only [Level.continuedBy, Bool.or_eq_false_iff, beq_eq_false_iff_ne] at hfollow
    obtain ⟨hcompare, hpipe⟩ := hfollow
    exact (level_comparison hc hpipe (by simpa using hcompare) h).mono (by omega)
  | concatenation => exact (level_concatenation hc hfollow h).mono (by omega)
  | sign => exact level_sign (signed_of_level (by simpa [Level.openedBy] using hopen) h)
  | power => exact (level_power (by simpa [Level.continuedBy] using hfollow) h).mono (by omega)
  | step =>
    have hnone : StepOp.ofKind? s'.current.kind = none := by simpa [Level.continuedBy] using hfollow
    exact (level_step (by simpa [Level.openedBy] using hopen) hnone h).mono (by omega)
  | primary => exact absurd rfl hlvl
  | disjunction | conjunction | membership | matching | sum | product =>
    exact (level_chain (by simp) h ((chain_none hfollow _ _).mono hc)).mono (by omega)

/-- An expression of a level is one of a looser level, if neither the token behind it nor the one that it begins with
says otherwise at any level in between. -/
theorem Costs.loosen {lvl lvl' : Level} (hle : lvl'.index ≤ lvl.index) (hc : 1 ≤ c)
    (hbetween : ∀ l : Level, lvl'.index ≤ l.index → l.index < lvl.index →
      l.continuedBy s'.current.kind = false ∧ l.openedBy s.current.kind = false)
    (h : Costs c (level · lvl false) s e s') : Costs (c + 26) (level · lvl' false) s e s' := by
  have hsteps (d : Nat) : ∀ lvl' : Level, lvl'.index + d = lvl.index →
      (∀ l : Level, lvl'.index ≤ l.index → l.index < lvl.index →
        l.continuedBy s'.current.kind = false ∧ l.openedBy s.current.kind = false) →
      Costs (c + 2 * d) (level · lvl' false) s e s' := by
    induction d with
    | zero =>
      intro lvl' hd hbetween
      obtain rfl := Level.index_injective hd
      exact h
    | succ d ih =>
      intro lvl' hd hbetween
      have hlvl : lvl' ≠ .primary := by
        rintro rfl
        have hlast := lvl.index_le
        rw [Level.index] at hd
        omega
      have htighter := Level.index_tighter hlvl
      obtain ⟨hfollow, hopen⟩ := hbetween lvl' le_rfl (by omega)
      have hrest : Costs (c + 2 * d) (level · lvl'.tighter false) s e s' := by
        refine ih lvl'.tighter (by omega) fun l hl hlt => ?_
        exact hbetween l (by omega) hlt
      exact hrest.level_of_tighter hlvl (hc.trans (Nat.le_add_right _ _)) hfollow hopen
  have hlast := lvl.index_le
  exact (hsteps (lvl.index - lvl'.index) lvl' (by omega) hbetween).mono (by omega)

end Parser

end Awk
