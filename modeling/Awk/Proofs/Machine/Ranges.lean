import Awk.Proofs.Machine.Walk

/-!
# Range rules

A range rule applies to the records from one on which its first expression holds to the next one on which its last
expression does, that one included.  Which rules are in a range is kept from record to record; no evaluation looks at it
or changes it (`Composed.indifferent`), and a rule looks at and changes only whether it is in a range itself
(`applies_others`, `SameFor.applies`).  A run is taken apart into the states in which the rules are begun on a record
(`sweeps`), and from these come the states in which a certain rule is tried (`tries`).  What one try leaves is what the
next one finds (`linked_tries`), and so a rule applies on a try exactly if a range has begun on this try or an earlier
one and has not ended since (`range_rules`).
-/

namespace Awk.Eval

variable {α β : Type}

/-! ### Evaluations and ranges -/

/-- What the action gives and does is the same whichever rules are in a range, and it leaves that as it is. -/
def Indifferent (act : Eval α) : Prop :=
  ∀ m ranges, act.run { m with activeRanges := ranges } = ((act.run m).1, { (act.run m).2 with activeRanges := ranges })

namespace Indifferent

variable {act : Eval α}

theorem activeRanges_eq (h : Indifferent act) (m : Machine) : (act.run m).2.activeRanges = m.activeRanges := by
  have hsame := h m m.activeRanges
  exact congrArg (fun outcome => outcome.2.activeRanges) hsame

theorem pure {a : α} : Indifferent (Pure.pure a : Eval α) := fun _ _ => rfl

theorem throw {i : Interruption} : Indifferent (MonadExcept.throw i : Eval α) := fun _ _ => rfl

theorem ofExcept {x : Except Fault α} : Indifferent (Eval.ofExcept x) := by
  cases x with
  | ok a => exact pure
  | error f => exact throw

theorem onRecord {act : Variables → Record.Action α} : Indifferent (Eval.onRecord act) := fun _ _ => rfl

theorem andThen {f : α → Eval β} (hact : Indifferent act) (hf : ∀ a, Indifferent (f a)) : Indifferent (act >>= f) := by
  intro m ranges
  rw [Action.run_bind, Action.run_bind, hact m ranges]
  rcases act.run m with ⟨i | a, m₁⟩
  · rfl
  · exact hf a m₁ ranges

theorem look {f : Machine → Eval α} (hranges : ∀ m ranges, f { m with activeRanges := ranges } = f m)
    (hf : ∀ m, Indifferent (f m)) : Indifferent (MonadState.get >>= f) := by
  intro m ranges
  rw [Action.run_bind, Action.run_bind, Action.run_get, Action.run_get]
  dsimp only
  rw [hranges]
  exact hf m m ranges

theorem modifyStore {f : Store → Store} :
    Indifferent (modify fun m => { m with store := f m.store } : Eval PUnit) :=
  fun _ _ => rfl

theorem catching (h : Indifferent act) : Indifferent (Eval.catching act) := fun m ranges =>
  congrArg (fun outcome : Except Interruption α × Machine => (Except.ok outcome.1, outcome.2)) (h m ranges)

theorem located (span : Option Span) (h : Indifferent act) : Indifferent (Eval.located span act) := by
  intro m ranges
  unfold Eval.located
  rw [ExceptT.run_mk, h m ranges]
  rcases act.run m with ⟨(⟨_, _ | _⟩ | _ | _ | _ | _ | _ | _ | _) | a, m₁⟩ <;> rfl

theorem slotOf (name : Text) : Indifferent (slotOf name) := look (fun _ _ => rfl) fun _ => pure

theorem assignSlot (slot : Slot) (v : Value) : Indifferent (assignSlot slot v) := by
  refine look (fun _ _ => rfl) fun m => ofExcept.andThen fun store => ?_
  split
  · exact ofExcept.andThen fun _ => onRecord.andThen fun _ => pure
  · exact (modifyStore (f := fun _ => store)).andThen fun _ => pure

theorem arrayNamed (name : Text) : Indifferent (arrayNamed name) := by
  refine look (fun _ _ => rfl) fun m => (slotOf name).andThen fun slot => ofExcept.andThen fun (id, store) => ?_
  exact (modifyStore (f := fun _ => store)).andThen fun _ => pure

theorem setRandom {random : Machine → Random} {v : Machine → Value}
    (hrandom : ∀ m ranges, random { m with activeRanges := ranges } = random m)
    (hv : ∀ m ranges, v { m with activeRanges := ranges } = v m) :
    Indifferent (do
      let m ← MonadState.get
      MonadStateOf.set { m with random := random m }
      return v m : Eval Value) := by
  intro m ranges
  change (Except.ok (v { m with activeRanges := ranges }), _) = (Except.ok (v m), _)
  rw [hv, hrandom]
  rfl

theorem callWith {eval : Evaluate} {run : Stmt → Eval Unit} (hrun : ∀ s, Indifferent (run s))
    (hbind : ∀ params args, Indifferent (bindArguments eval params args)) (function : Token) (args : List Expr) :
    Indifferent (callWith eval run function args) := by
  intro m ranges
  rw [run_callWith_eq, run_callWith_eq]
  dsimp only
  cases callee m.functions function args with
  | error i => rfl
  | ok f =>
    dsimp only
    rw [hbind f.params args m ranges]
    rcases (bindArguments eval f.params args).run m with ⟨i | table, m₁⟩
    · rfl
    · have hbody := hrun f.body (m₁.enter table) ranges
      dsimp only
      exact congrArg (fun outcome => (returned outcome.1, outcome.2.leave)) hbody

end Indifferent

theorem Composed.indifferent {act : Eval α} (h : Composed act) : Indifferent act := by
  induction h with
  | pure => exact Indifferent.pure
  | throw => exact Indifferent.throw
  | andThen _ _ hact hf => exact hact.andThen hf
  | catching _ hact => exact Indifferent.catching hact
  | located span _ hact => exact Indifferent.located span hact
  | look hranges _ hf => exact Indifferent.look hranges hf
  | onRecord => exact Indifferent.onRecord
  | onWorld => exact fun _ _ => rfl
  | setGlobal _ v => exact fun _ _ => rfl
  | assignVariable name v => exact (Indifferent.slotOf name).andThen fun slot => Indifferent.assignSlot slot v
  | assignGlobal name v => exact (Indifferent.assignSlot _ v).andThen fun _ => Indifferent.pure
  | arrayNamed name => exact Indifferent.arrayNamed name
  | changeArray id _ => exact fun _ _ => rfl
  | modifyInput f => exact fun _ _ => rfl
  | inputFailed => exact fun _ _ => rfl
  | setRandom hrandom hv => exact Indifferent.setRandom hrandom hv
  | callWith _ _ _ function args _ hrun hbind => exact Indifferent.callWith hrun hbind function args

/-! ### One rule on one record -/

variable {m m' m₁ : Machine} {fuel rule p : Nat} {selector : Option Selector} {span : Span} {first last : Expr}

theorem indifferent_holds (fuel : Nat) (e : Expr) : Indifferent (holds (expr fuel) e) :=
  (composed_holds (composed_eval fuel).expr e).indifferent

theorem mem_setActive (rule : Nat) (active : Bool) (m : Machine) :
    p ∈ ((setActive rule active).run m).2.activeRanges ↔ if p = rule then active = true else p ∈ m.activeRanges := by
  unfold setActive
  rw [Action.run_modify]
  dsimp only
  by_cases hp : p = rule
  · subst hp
    cases active <;> simp
  · cases active <;> simp [hp]

/-- A record in a range, which may end it. -/
def withinRange (fuel rule : Nat) (last : Expr) : Eval Bool := do
  if ← holds (expr fuel) last then setActive rule false
  return true

theorem run_withinRange (fuel rule : Nat) (last : Expr) (m : Machine) :
    (withinRange fuel rule last).run m =
      match (holds (expr fuel) last).run m with
      | (.error i, m₁) => (.error i, m₁)
      | (.ok e, m₁) => (.ok true, if e then ((setActive rule false).run m₁).2 else m₁) := by
  unfold withinRange
  rw [Action.run_bind]
  rcases (holds (expr fuel) last).run m with ⟨i | (_ | _), m₁⟩ <;> rfl

/-- A record outside of a range may begin one, and is then in it. -/
theorem run_applies_range (fuel rule : Nat) (span : Span) (first last : Expr) (m : Machine) :
    (applies fuel rule (some (.range span first last))).run m =
      if rule ∈ m.activeRanges then (withinRange fuel rule last).run m
      else
        match (holds (expr fuel) first).run m with
        | (.error i, m₁) => (.error i, m₁)
        | (.ok false, m₁) => (.ok false, m₁)
        | (.ok true, m₁) => (withinRange fuel rule last).run ((setActive rule true).run m₁).2 := by
  unfold applies
  dsimp only
  rw [Action.run_bind, Action.run_get]
  dsimp only
  by_cases hactive : rule ∈ m.activeRanges
  · rw [if_pos hactive, List.contains_iff_mem.2 hactive]
    rfl
  · have hcontains : m.activeRanges.contains rule = false := by simp [hactive]
    rw [if_neg hactive, hcontains, Bool.not_false, if_pos rfl, Action.run_bind]
    rcases (holds (expr fuel) first).run m with ⟨i | (_ | _), m₁⟩ <;> rfl

theorem withinRange_others {q : Nat} (hq : q ≠ rule) (m : Machine) :
    q ∈ ((withinRange fuel rule last).run m).2.activeRanges ↔ q ∈ m.activeRanges := by
  have hholds := (indifferent_holds fuel last).activeRanges_eq m
  rw [run_withinRange]
  rcases hran : (holds (expr fuel) last).run m with ⟨i | (_ | _), m₁⟩
  all_goals
    rw [hran] at hholds
    dsimp only at hholds ⊢
    rw [← hholds]
  · rfl
  · rw [if_pos rfl, mem_setActive, if_neg hq]

/-- A rule neither begins nor ends the range of another one. -/
theorem applies_others (fuel : Nat) {q : Nat} (hq : q ≠ rule) (selector : Option Selector) (m : Machine) :
    q ∈ ((applies fuel rule selector).run m).2.activeRanges ↔ q ∈ m.activeRanges := by
  cases selector with
  | none => exact Iff.rfl
  | some s =>
    cases s with
    | single span test =>
      change q ∈ ((holds (expr fuel) test).run m).2.activeRanges ↔ _
      rw [(indifferent_holds fuel test).activeRanges_eq]
    | range span first last =>
      have hholds := (indifferent_holds fuel first).activeRanges_eq m
      rw [run_applies_range]
      split
      · exact withinRange_others hq m
      · rcases hran : (holds (expr fuel) first).run m with ⟨i | (_ | _), m₁⟩
        all_goals
          rw [hran] at hholds
          dsimp only at hholds ⊢
          rw [← hholds]
        rw [withinRange_others hq, mem_setActive, if_neg hq]

/-- The states differ in nothing but which other rules are in a range. -/
structure SameFor (p : Nat) (m m' : Machine) : Prop where
  rest : m' = { m with activeRanges := m'.activeRanges }
  active : p ∈ m'.activeRanges ↔ p ∈ m.activeRanges

namespace SameFor

theorem of_indifferent {act : Eval α} (hact : Indifferent act) (h : SameFor p m m') :
    (act.run m').1 = (act.run m).1 ∧ SameFor p (act.run m).2 (act.run m').2 := by
  have hrun := hact m m'.activeRanges
  rw [← h.rest] at hrun
  rw [hrun]
  refine ⟨rfl, rfl, ?_⟩
  rw [hact.activeRanges_eq]
  exact h.active

theorem setActive (h : SameFor p m m') (active : Bool) :
    SameFor p ((setActive p active).run m).2 ((Eval.setActive p active).run m').2 := by
  obtain ⟨ranges, rfl⟩ : ∃ ranges, m' = { m with activeRanges := ranges } := ⟨_, h.rest⟩
  exact ⟨rfl, by rw [mem_setActive, mem_setActive, if_pos rfl, if_pos rfl]⟩

theorem withinRange (h : SameFor p m m') (fuel : Nat) (last : Expr) :
    ((withinRange fuel p last).run m').1 = ((Eval.withinRange fuel p last).run m).1 ∧
      SameFor p ((Eval.withinRange fuel p last).run m).2 ((Eval.withinRange fuel p last).run m').2 := by
  obtain ⟨hresult, hsame⟩ := h.of_indifferent (indifferent_holds fuel last)
  rw [run_withinRange, run_withinRange]
  revert hresult hsame
  rcases (holds (expr fuel) last).run m with ⟨r, m₁⟩
  rcases (holds (expr fuel) last).run m' with ⟨r', m₁'⟩
  rintro rfl hsame
  rcases r' with i | (_ | _)
  · exact ⟨rfl, hsame⟩
  · exact ⟨rfl, hsame⟩
  · exact ⟨rfl, hsame.setActive false⟩

/-- Whether a rule applies, and what comes of trying it, depends on no other rule's being in a range. -/
theorem applies (h : SameFor p m m') (fuel : Nat) (selector : Option Selector) :
    ((applies fuel p selector).run m').1 = ((Eval.applies fuel p selector).run m).1 ∧
      SameFor p ((Eval.applies fuel p selector).run m).2 ((Eval.applies fuel p selector).run m').2 := by
  cases selector with
  | none => exact ⟨rfl, h⟩
  | some s =>
    cases s with
    | single span test => exact h.of_indifferent (indifferent_holds fuel test)
    | range span first last =>
      rw [run_applies_range, run_applies_range]
      by_cases hactive : p ∈ m.activeRanges
      · rw [if_pos hactive, if_pos (h.active.2 hactive)]
        exact h.withinRange fuel last
      · obtain ⟨hresult, hsame⟩ := h.of_indifferent (indifferent_holds fuel first)
        rw [if_neg hactive, if_neg fun hactive' => hactive (h.active.1 hactive')]
        revert hresult hsame
        rcases (holds (expr fuel) first).run m with ⟨r, m₁⟩
        rcases (holds (expr fuel) first).run m' with ⟨r', m₁'⟩
        rintro rfl hsame
        rcases r' with i | (_ | _)
        · exact ⟨rfl, hsame⟩
        · exact ⟨rfl, hsame⟩
        · exact (hsame.setActive true).withinRange fuel last

end SameFor

/-- The truth of two expressions in a state, which the second has also after the first has been evaluated. -/
structure Truths (fuel : Nat) (first last : Expr) (m : Machine) (s e : Bool) : Prop where
  begins : ((holds (expr fuel) first).run m).1 = .ok s
  ends : ((holds (expr fuel) last).run m).1 = .ok e
  endsAfter : ((holds (expr fuel) last).run ((holds (expr fuel) first).run m).2).1 = .ok e

instance (fuel : Nat) (first last : Expr) (m : Machine) (s e : Bool) : Decidable (Truths fuel first last m s e) :=
  decidable_of_iff
    (((holds (expr fuel) first).run m).1.toOption = some s ∧ ((holds (expr fuel) last).run m).1.toOption = some e ∧
      ((holds (expr fuel) last).run ((holds (expr fuel) first).run m).2).1.toOption = some e)
    (by simp only [Action.toOption_eq_some]; exact ⟨fun h => ⟨h.1, h.2.1, h.2.2⟩, fun h => ⟨h.1, h.2, h.3⟩⟩)

theorem withinRange_of_truth {e : Bool} (h : ((holds (expr fuel) last).run m).1 = .ok e) (hactive : rule ∈ m.activeRanges) :
    ∃ m', (withinRange fuel rule last).run m = (.ok true, m') ∧ (rule ∈ m'.activeRanges ↔ e = false) := by
  have hholds := (indifferent_holds fuel last).activeRanges_eq m
  rw [run_withinRange]
  rcases hran : (holds (expr fuel) last).run m with ⟨r, m₁⟩
  rw [hran] at h hholds
  obtain rfl : r = .ok e := h
  refine ⟨_, rfl, ?_⟩
  dsimp only at hholds ⊢
  cases e with
  | true => simp [mem_setActive]
  | false => simpa [hholds] using hactive

/-- A rule applies if it is in a range or begins one, and is then in a range unless the last expression holds. -/
theorem applies_of_truths {s e : Bool} (rule : Nat) (span : Span) (h : Truths fuel first last m s e) :
    ∃ b m', (applies fuel rule (some (.range span first last))).run m = (.ok b, m') ∧
      (b = true ↔ rule ∈ m.activeRanges ∨ s = true) ∧ (rule ∈ m'.activeRanges ↔ b = true ∧ e = false) := by
  rw [run_applies_range]
  by_cases hactive : rule ∈ m.activeRanges
  · obtain ⟨m', hrun, hafter⟩ := withinRange_of_truth h.ends hactive
    exact ⟨true, m', (if_pos hactive).trans hrun, by simp [hactive], by simp [hafter]⟩
  · have hholds := (indifferent_holds fuel first).activeRanges_eq m
    have hbegins := h.begins
    have hends := h.endsAfter
    rw [if_neg hactive]
    rcases hran : (holds (expr fuel) first).run m with ⟨r, m₁⟩
    rw [hran] at hbegins hends hholds
    obtain rfl : r = .ok s := hbegins
    cases s with
    | false =>
      have hinactive : rule ∉ m₁.activeRanges := hholds ▸ hactive
      exact ⟨false, m₁, rfl, by simp [hactive], by simp [hinactive]⟩
    | true =>
      have hbegun : rule ∈ ((setActive rule true).run m₁).2.activeRanges := by simp [mem_setActive]
      -- The last expression does not see that the range has begun.
      have hends' : ((holds (expr fuel) last).run ((setActive rule true).run m₁).2).1 = .ok e :=
        (congrArg Prod.fst (indifferent_holds fuel last m₁ _)).trans hends
      obtain ⟨m', hrun, hafter⟩ := withinRange_of_truth hends' hbegun
      exact ⟨true, m', hrun, by simp, by simp [hafter]⟩

/-! ### All rules on one record -/

/-- The rules are run in order until one of them is interrupted. -/
theorem run_runRules_append (fuel rule : Nat) (before after : List Rule) (m : Machine) :
    (runRules fuel rule (before ++ after)).run m =
      match (runRules fuel rule before).run m with
      | (.ok (), m₁) => (runRules fuel (rule + before.length) after).run m₁
      | (.error i, m₁) => (.error i, m₁) := by
  induction before generalizing rule m with
  | nil => rfl
  | cons r before ih =>
    have hnumber : rule + (r :: before).length = rule + 1 + before.length := by
      rw [List.length_cons, Nat.add_right_comm, Nat.add_assoc]
    rw [hnumber, List.cons_append, runRules, runRules, Action.run_bind, Action.run_bind]
    rcases (applies fuel rule r.selector).run m with ⟨i | (_ | _), m₁⟩
    · rfl
    · exact ih (rule + 1) m₁
    · dsimp only
      rw [if_pos rfl, if_pos rfl, Action.run_bind, Action.run_bind]
      rcases (runAction fuel r.action).run m₁ with ⟨i | ⟨⟩, m₂⟩
      · rfl
      · exact ih (rule + 1) m₂

theorem activeRanges_runAction (fuel : Nat) (action : Option Stmt) (m : Machine) :
    ((runAction fuel action).run m).2.activeRanges = m.activeRanges :=
  (composed_runAction fuel action).indifferent.activeRanges_eq m

/-- Rules leave all those alone whose numbers they do not have. -/
theorem runRules_others (fuel : Nat) {rules : List Rule} (hp : p < rule ∨ rule + rules.length ≤ p) (m : Machine) :
    p ∈ ((runRules fuel rule rules).run m).2.activeRanges ↔ p ∈ m.activeRanges := by
  induction rules generalizing rule m with
  | nil => exact Iff.rfl
  | cons r rules ih =>
    rw [List.length_cons] at hp
    have hne : p ≠ rule := by omega
    have hrest : p < rule + 1 ∨ rule + 1 + rules.length ≤ p := by omega
    have hfirst := applies_others fuel hne r.selector m
    rw [runRules, Action.run_bind]
    rcases hran : (applies fuel rule r.selector).run m with ⟨i | (_ | _), m₁⟩
    all_goals
      rw [hran] at hfirst
      dsimp only at hfirst ⊢
      rw [← hfirst]
    · exact ih hrest m₁
    · have haction := activeRanges_runAction fuel r.action m₁
      rw [if_pos rfl, Action.run_bind]
      rcases hran' : (runAction fuel r.action).run m₁ with ⟨i | ⟨⟩, m₂⟩
      all_goals
        rw [hran'] at haction
        dsimp only at haction ⊢
        rw [← haction]
      exact ih hrest m₂

/-- When a rule has been tried on a record, nothing that follows on this record matters to it. -/
theorem mem_runRules_of_tried {before : List Rule} {found : Machine} (r : Rule) (after : List Rule)
    (hreached : (runRules fuel 0 before).run m = (.ok (), found)) :
    before.length ∈ ((runRules fuel 0 (before ++ r :: after)).run m).2.activeRanges ↔
      before.length ∈ ((applies fuel before.length r.selector).run found).2.activeRanges := by
  rw [run_runRules_append, hreached]
  dsimp only
  rw [Nat.zero_add, runRules, Action.run_bind]
  rcases (applies fuel before.length r.selector).run found with ⟨i | (_ | _), m₁⟩
  · exact Iff.rfl
  · exact runRules_others fuel (.inl (Nat.lt_succ_self _)) m₁
  · have haction := activeRanges_runAction fuel r.action m₁
    dsimp only
    rw [if_pos rfl, Action.run_bind]
    rcases hran : (runAction fuel r.action).run m₁ with ⟨i | ⟨⟩, m₂⟩
    all_goals
      rw [hran] at haction
      dsimp only at haction ⊢
      rw [← haction]
    exact runRules_others fuel (.inl (Nat.lt_succ_self _)) m₂

/-! ### All records -/

/-- The states in which the rules are begun on a record, each with the fuel that is left, and how the records end. -/
def sweeps (rules : List Rule) : Nat → Machine → List (Nat × Machine) × Except Interruption Unit × Machine
  | 0, m => ([], .error .exhausted, m)
  | fuel + 1, m =>
    match (nextRecord fuel).run m with
    | (.error i, m) => ([], .error i, m)
    | (.ok none, m) => ([], .ok (), m)
    | (.ok (some t), m) =>
      match (onRecord fun vars => Record.setText vars t).run m with
      | (.error i, m) => ([], .error i, m)
      | (.ok (), m) =>
        match (runRules fuel 0 rules).run m with
        | (.ok (), m') | (.error .next, m') => ((fuel, m) :: (sweeps rules fuel m').1, (sweeps rules fuel m').2)
        | (.error .nextFile, m') =>
          ((fuel, m) :: (sweeps rules fuel (skipFile.run m').2).1, (sweeps rules fuel (skipFile.run m').2).2)
        | (.error i, m') => ([(fuel, m)], .error i, m')

/-- The records end as the run of all of them does. -/
theorem sweeps_snd (rules : List Rule) (fuel : Nat) (m : Machine) :
    (sweeps rules fuel m).2 = (runRecords rules fuel).run m := by
  induction fuel generalizing m with
  | zero => rfl
  | succ fuel ih =>
    rw [sweeps, runRecords, Action.run_bind]
    rcases (nextRecord fuel).run m with ⟨i | (_ | t), m₁⟩
    · rfl
    · rfl
    · dsimp only
      rw [Action.run_bind]
      rcases (onRecord fun vars => Record.setText vars t).run m₁ with ⟨i | ⟨⟩, m₂⟩
      · rfl
      · dsimp only
        rw [Action.run_bind, run_catching]
        rcases (runRules fuel 0 rules).run m₂ with ⟨i | ⟨⟩, m₃⟩
        · cases i with
          | next => exact ih m₃
          | nextFile => exact ih _
          | _ => rfl
        · exact ih m₃

/-- The states in which a rule is tried: those before it have come to their ends. -/
def tries (rules : List Rule) (p : Nat) (begun : List (Nat × Machine)) : List (Nat × Machine) :=
  begun.filterMap fun (fuel, m) =>
    match (runRules fuel 0 (rules.take p)).run m with
    | (.ok (), found) => some (fuel, found)
    | (.error _, _) => none

/-- A rule is in a range on its first try if it was in one before, and on each other try if the one before has left it
in one. -/
structure Linked (p : Nat) (selector : Option Selector) (active : Prop) (tried : List (Nat × Machine)) : Prop where
  first : ∀ {fuel found}, tried[0]? = some (fuel, found) → (p ∈ found.activeRanges ↔ active)
  next : ∀ {k fuel found fuel' found'}, tried[k]? = some (fuel, found) → tried[k + 1]? = some (fuel', found') →
    (p ∈ found'.activeRanges ↔ p ∈ ((applies fuel p selector).run found).2.activeRanges)

namespace Linked

variable {active : Prop} {tried : List (Nat × Machine)} {found : Machine}

theorem nil : Linked p selector active [] := ⟨nofun, nofun⟩

theorem cons (hfound : p ∈ found.activeRanges ↔ active)
    (h : Linked p selector (p ∈ ((applies fuel p selector).run found).2.activeRanges) tried) :
    Linked p selector active ((fuel, found) :: tried) where
  first hfirst := by
    cases hfirst
    exact hfound
  next {k _ _ _ _} htry hnext := by
    cases k with
    | zero =>
      cases htry
      exact h.first hnext
    | succ k => exact h.next htry hnext

theorem of_iff {active' : Prop} (h : Linked p selector active tried) (hiff : active ↔ active') :
    Linked p selector active' tried :=
  propext hiff ▸ h

end Linked

theorem activeRanges_nextRecord (fuel : Nat) (m : Machine) :
    ((nextRecord fuel).run m).2.activeRanges = m.activeRanges :=
  (composed_nextRecord fuel).indifferent.activeRanges_eq m

/-- On one record a rule is tried at most once, and what has become of it is what the next record finds. -/
theorem linked_record {rules : List Rule} {r : Rule} (hr : rules[p]? = some r) {begun : List (Nat × Machine)}
    (h : Linked p r.selector (p ∈ ((runRules fuel 0 rules).run m).2.activeRanges) (tries rules p begun)) :
    Linked p r.selector (p ∈ m.activeRanges) (tries rules p ((fuel, m) :: begun)) := by
  obtain ⟨hlt, rfl⟩ := List.getElem?_eq_some_iff.1 hr
  have hrules : rules.take p ++ rules[p] :: rules.drop (p + 1) = rules := by
    rw [List.getElem_cons_drop, List.take_append_drop]
  have hlength : (rules.take p).length = p := List.length_take_of_le (Nat.le_of_lt hlt)
  have hbefore := runRules_others fuel (.inr (Nat.le_of_eq (by rw [hlength, Nat.zero_add]))) m
  have hcons : tries rules p ((fuel, m) :: begun) =
      match (runRules fuel 0 (rules.take p)).run m with
      | (.ok (), found) => (fuel, found) :: tries rules p begun
      | (.error _, _) => tries rules p begun := by
    rw [tries, List.filterMap_cons]
    dsimp only
    rcases (runRules fuel 0 (rules.take p)).run m with ⟨i | ⟨⟩, found⟩ <;> rfl
  rw [hcons]
  rcases hran : (runRules fuel 0 (rules.take p)).run m with ⟨i | ⟨⟩, found⟩
  all_goals
    rw [hran] at hbefore
    dsimp only at hbefore ⊢
  · refine h.of_iff ?_
    rw [← hrules, run_runRules_append, hran]
    exact hbefore
  · -- The rules behind it leave its range as the try has left it.
    refine .cons hbefore (h.of_iff ?_)
    have htried := mem_runRules_of_tried rules[p] (rules.drop (p + 1)) hran
    rwa [hrules, hlength] at htried

/-- What one try of a rule leaves, the next one finds. -/
theorem linked_tries {rules : List Rule} {r : Rule} (hr : rules[p]? = some r) (fuel : Nat) (m : Machine) :
    Linked p r.selector (p ∈ m.activeRanges) (tries rules p (sweeps rules fuel m).1) := by
  induction fuel generalizing m with
  | zero => exact .nil
  | succ fuel ih =>
    have hnext := activeRanges_nextRecord fuel m
    rw [sweeps]
    rcases hread : (nextRecord fuel).run m with ⟨i | (_ | t), m₁⟩
    · exact .nil
    · exact .nil
    · have hset : ((onRecord fun vars => Record.setText vars t).run m₁).2.activeRanges = m₁.activeRanges := rfl
      dsimp only
      rcases hput : (onRecord fun vars => Record.setText vars t).run m₁ with ⟨i | ⟨⟩, m₂⟩
      · exact .nil
      · rw [hread] at hnext
        rw [hput] at hset
        dsimp only at hnext hset ⊢
        rw [← hnext, ← hset]
        rcases hran : (runRules fuel 0 rules).run m₂ with ⟨i | ⟨⟩, m₃⟩
        · have hskip : (skipFile.run m₃).2.activeRanges = m₃.activeRanges := rfl
          have hlast : Linked p r.selector (p ∈ m₂.activeRanges) (tries rules p [(fuel, m₂)]) := linked_record hr .nil
          cases i with
          | next =>
            refine linked_record hr ?_
            rw [hran]
            exact ih m₃
          | nextFile =>
            refine linked_record hr ?_
            rw [hran]
            exact hskip ▸ ih _
          | _ => exact hlast
        · refine linked_record hr ?_
          rw [hran]
          exact ih m₃

/-! ### The law of ranges -/

/-- A range has begun on a try up to this one, and has not ended before this one. -/
def InRange (s e : Nat → Bool) (k : Nat) : Prop := ∃ j ≤ k, s j = true ∧ ∀ i, j ≤ i → i < k → e i = false

theorem inRange_zero {s e : Nat → Bool} : InRange s e 0 ↔ s 0 = true := by
  constructor
  · rintro ⟨j, hj, hs, -⟩
    rwa [Nat.le_zero.1 hj] at hs
  · exact fun hs => ⟨0, Nat.le_refl 0, hs, fun i _ hi => absurd hi (Nat.not_lt_zero i)⟩

theorem inRange_succ {s e : Nat → Bool} {k : Nat} :
    InRange s e (k + 1) ↔ InRange s e k ∧ e k = false ∨ s (k + 1) = true := by
  constructor
  · rintro ⟨j, hj, hs, he⟩
    rcases Nat.le_succ_iff.1 hj with hle | rfl
    · exact .inl ⟨⟨j, hle, hs, fun i hji hik => he i hji (Nat.lt_succ_of_lt hik)⟩, he k hle (Nat.lt_succ_self k)⟩
    · exact .inr hs
  · rintro (⟨⟨j, hj, hs, he⟩, hk⟩ | hs)
    · refine ⟨j, Nat.le_succ_of_le hj, hs, fun i hji hik => ?_⟩
      rcases Nat.lt_succ_iff_lt_or_eq.1 hik with hlt | rfl
      · exact he i hji hlt
      · exact hk
    · exact ⟨k + 1, Nat.le_refl _, hs, fun i hji hik => absurd hik (Nat.not_lt.2 hji)⟩

/-- The step is `applies_of_truths`; whether the rule is in a range is carried from one try to the next. -/
theorem Linked.applies_iff {tried : List (Nat × Machine)} (h : Linked p (some (.range span first last)) False tried)
    {s e : Nat → Bool} {k : Nat}
    (htruths : ∀ i ≤ k, ∀ fuel found, tried[i]? = some (fuel, found) → Truths fuel first last found (s i) (e i))
    {fuel : Nat} {found : Machine} (htry : tried[k]? = some (fuel, found)) :
    ∃ b m', (applies fuel p (some (.range span first last))).run found = (.ok b, m') ∧ (b = true ↔ InRange s e k) ∧
      (p ∈ m'.activeRanges ↔ InRange s e k ∧ e k = false) := by
  induction k generalizing fuel found with
  | zero =>
    obtain ⟨b, m', hrun, hb, hafter⟩ := applies_of_truths p span (htruths 0 (Nat.le_refl 0) _ _ htry)
    have hin : b = true ↔ InRange s e 0 := by rw [hb, h.first htry, false_or, inRange_zero]
    exact ⟨b, m', hrun, hin, by rw [hafter, hin]⟩
  | succ k ih =>
    have hlt : k < tried.length := Nat.lt_of_succ_lt (List.getElem?_eq_some_iff.1 htry).1
    have hbefore : tried[k]? = some (tried[k].1, tried[k].2) := List.getElem?_eq_getElem hlt
    obtain ⟨_, m₁, hrun₁, -, hafter₁⟩ := ih (fun i hi => htruths i (Nat.le_succ_of_le hi)) hbefore
    obtain ⟨b, m', hrun, hb, hafter⟩ := applies_of_truths p span (htruths (k + 1) (Nat.le_refl _) _ _ htry)
    have hactive := h.next hbefore htry
    rw [hrun₁] at hactive
    have hin : b = true ↔ InRange s e (k + 1) := by rw [hb, hactive, hafter₁, inRange_succ]
    exact ⟨b, m', hrun, hin, by rw [hafter, hin]⟩

/-- On any try up to which both expressions are true or false, whatever is evaluated first, a range rule applies exactly
if a range has begun on a try up to this one and has not ended before this one.  The tries are those in a run of the
program, and no other rule has a part in this: none of them begins or ends the range of this rule, and this rule does the
same whichever of them are in a range. -/
theorem range_rules {world : World} {environment : List (Text × Text)} {words assignments : List Text}
    {fieldSep : Option Text} {parts : Parts} {fuel p : Nat} {m m₀ : Machine} {action : Option Stmt} {span : Span}
    {first last : Expr}
    (hoptions : (applyOptions fieldSep assignments).run (Machine.start world parts.functions environment words) =
      (.ok (.ok ()), m))
    (hbegin : (runOutsideRecords fuel "BEGIN" parts.begins).run m = (.ok (), m₀))
    (hrule : parts.rules[p]? = some ⟨some (.range span first last), action⟩) :
    (sweeps parts.rules fuel m₀).2 = (runRecords parts.rules fuel).run m₀ ∧
    (∀ (s e : Nat → Bool) (k : Nat),
      (∀ i ≤ k, ∀ fuel' found, (tries parts.rules p (sweeps parts.rules fuel m₀).1)[i]? = some (fuel', found) →
        Truths fuel' first last found (s i) (e i)) →
      ∀ fuel' found, (tries parts.rules p (sweeps parts.rules fuel m₀).1)[k]? = some (fuel', found) →
        ∃ b m', (applies fuel' p (some (.range span first last))).run found = (.ok b, m') ∧
          (b = true ↔ ∃ j ≤ k, s j = true ∧ ∀ i, j ≤ i → i < k → e i = false)) ∧
    (∀ q ≠ p, ∀ fuel' selector m,
      p ∈ ((applies fuel' q selector).run m).2.activeRanges ↔ p ∈ m.activeRanges) ∧
    ∀ fuel' m m', SameFor p m m' →
      ((applies fuel' p (some (.range span first last))).run m').1 =
        ((applies fuel' p (some (.range span first last))).run m).1 ∧
      SameFor p ((applies fuel' p (some (.range span first last))).run m).2
        ((applies fuel' p (some (.range span first last))).run m').2 := by
  have hstart : m.activeRanges = [] := by
    have hkept := (composed_applyOptions fieldSep assignments).indifferent.activeRanges_eq
      (Machine.start world parts.functions environment words)
    rw [hoptions] at hkept
    exact hkept
  have hnone : m₀.activeRanges = [] := by
    have hkept := (composed_runOutsideRecords fuel "BEGIN" parts.begins).indifferent.activeRanges_eq m
    rw [hbegin] at hkept
    exact hkept.trans hstart
  -- No rule is in a range before the first record, so the first try finds this one outside of a range.
  have hlinked := (linked_tries hrule fuel m₀).of_iff (iff_false_intro (by simp [hnone]))
  refine ⟨sweeps_snd _ _ _, fun s e k htruths fuel' found htry => ?_, fun q hq fuel' selector m => ?_, ?_⟩
  · obtain ⟨b, m', hrun, hb, -⟩ := hlinked.applies_iff htruths htry
    exact ⟨b, m', hrun, hb⟩
  · exact applies_others fuel' (Ne.symm hq) selector m
  · exact fun fuel' m m' h => h.applies fuel' _

/-- A range that ends on the record on which the other begins, and a rule that keeps some records from both. -/
def overlappingSource : Text := "/q/ \x7b next \x7d
/a/, /b/
/b/, /c/".toList

/-- Six records.  The second rule is not tried on the third of them, and begins a range and ends it on the fifth. -/
def overlappingWorld : World := .start .empty [] "x\na\nbq\nb\nab\nc\n".toList 0

/-- The state after the options and the one in which the records begin. -/
def overlappingStates (parts : Parts) : Machine × Machine :=
  let m := ((applyOptions none []).run (Machine.start overlappingWorld parts.functions [] [])).2
  (m, ((runOutsideRecords 60 "BEGIN" parts.begins).run m).2)

/-- The tries of the second rule. -/
def overlappingTries (parts : Parts) : List (Nat × Machine) :=
  tries parts.rules 1 (sweeps parts.rules 60 (overlappingStates parts).2).1

def beginsOnTry (i : Nat) : Bool := [false, true, false, true, false].getD i false

def endsOnTry (i : Nat) : Bool := [false, false, true, true, false].getD i false

/-- The truths of its expressions on the tries are those above. -/
def overlappingChecked (parts : Parts) : Bool :=
  match (parts.rules[1]? : Option Rule) with
  | some ⟨some (.range _ first last), _⟩ =>
    parts.begins.isEmpty && (overlappingTries parts).length == 5 &&
      (overlappingTries parts).zipIdx.all fun ((fuel, found), i) =>
        decide (Truths fuel first last found (beginsOnTry i) (endsOnTry i))
  | _ => false

theorem range_rules_overlapping : ∃ parts fuel found m fuel' found' m' selector,
    loadProgram overlappingSource = .ok parts ∧ (parts.rules[1]?).map Rule.selector = some selector ∧
      (overlappingTries parts)[3]? = some (fuel, found) ∧ (applies fuel 1 selector).run found = (.ok true, m) ∧
      (overlappingTries parts)[4]? = some (fuel', found') ∧ (applies fuel' 1 selector).run found' = (.ok false, m') := by
  have hchecked : (loadProgram overlappingSource).toOption.any overlappingChecked = true := by decide +kernel
  obtain ⟨parts, hload, hchecked⟩ := (Option.any_eq_true _ _).1 hchecked
  unfold overlappingChecked at hchecked
  split at hchecked
  · rename_i span first last action hrule
    rw [Bool.and_eq_true_iff, Bool.and_eq_true_iff, List.all_eq_true, List.isEmpty_iff, beq_iff_eq] at hchecked
    obtain ⟨⟨hbegins, hlength⟩, htruths⟩ := hchecked
    have hoptions : (applyOptions none []).run (Machine.start overlappingWorld parts.functions [] []) =
        (.ok (.ok ()), (overlappingStates parts).1) := rfl
    have hbegin : (runOutsideRecords 60 "BEGIN" parts.begins).run (overlappingStates parts).1 =
        (.ok (), (overlappingStates parts).2) := by
      unfold overlappingStates
      rw [hbegins]
      rfl
    have hlaw := (range_rules hoptions hbegin hrule).2.1 beginsOnTry endsOnTry
    have htruth (k : Nat) : ∀ i ≤ k, ∀ fuel found, (overlappingTries parts)[i]? = some (fuel, found) →
        Truths fuel first last found (beginsOnTry i) (endsOnTry i) := fun i _ fuel found htry =>
      of_decide_eq_true (htruths ((fuel, found), i) (List.mem_zipIdx_iff_getElem?.2 htry))
    have htry {i : Nat} (hi : i < 5) : (overlappingTries parts)[i]? = some ((overlappingTries parts)[i]) :=
      List.getElem?_eq_getElem (hlength ▸ hi)
    obtain ⟨b, m, hrun, hb⟩ := hlaw 3 (htruth 3) _ _ (htry (i := 3) (by decide))
    obtain ⟨b', m', hrun', hb'⟩ := hlaw 4 (htruth 4) _ _ (htry (i := 4) (by decide))
    obtain rfl : b = true := hb.2 ⟨3, Nat.le_refl 3, rfl, fun i hji hik => absurd hik (Nat.not_lt.2 hji)⟩
    obtain rfl : b' = false := by
      refine Bool.eq_false_iff.2 fun htrue => ?_
      obtain ⟨j, hj, hs, he⟩ := hb'.1 htrue
      rcases Nat.le_succ_iff.1 hj with hle | rfl
      · exact nomatch he 3 hle (by decide)
      · exact nomatch hs
    exact ⟨parts, _, _, m, _, _, m', _, Action.toOption_eq_some.1 hload, congrArg _ hrule, htry (by decide), hrun,
      htry (by decide), hrun'⟩
  · cases hchecked

end Awk.Eval
