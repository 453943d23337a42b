import Awk.Text

/-!
# Actions that keep what they have done

Actions on the record, on the world and on the machine are of one form: they give a result or an error, and a state
in either case.  Here is what running such an action comes to, step by step; the proofs about actions go by these
equations.
-/

namespace Awk.Action

variable {ε σ α β : Type}

/-- What must have happened for a computation in two steps to give a result. -/
theorem bind_eq_ok {x : Except ε α} {f : α → Except ε β} {b : β} :
    (x >>= f) = .ok b ↔ ∃ a, x = .ok a ∧ f a = .ok b := by
  cases x with
  | error e =>
    constructor
    · intro h; cases h
    · rintro ⟨a, h, -⟩; cases h
  | ok a =>
    constructor
    · intro h; exact ⟨a, rfl, h⟩
    · rintro ⟨a', h, hf⟩; cases h; exact hf

theorem toOption_eq_some {x : Except ε α} {a : α} : x.toOption = some a ↔ x = .ok a := by
  cases x with
  | error e =>
    constructor
    · intro h; cases h
    · intro h; cases h
  | ok b => rw [Except.toOption, Option.some.injEq, Except.ok.injEq]

/-- Whatever is in the result of a list of computations is the result of one of them. -/
theorem exists_of_mem_mapM {f : α → Except ε β} {l : List α} {l' : List β} (h : l.mapM f = .ok l') {b : β}
    (hb : b ∈ l') : ∃ a ∈ l, f a = .ok b := by
  induction l generalizing l' with
  | nil =>
    cases h
    cases hb
  | cons a l ih =>
    rw [List.mapM_cons] at h
    obtain ⟨first, hfirst, h⟩ := bind_eq_ok.1 h
    obtain ⟨rest, hrest, h⟩ := bind_eq_ok.1 h
    cases h
    rcases List.mem_cons.1 hb with rfl | hb
    · exact ⟨a, List.mem_cons_self, hfirst⟩
    · obtain ⟨a', ha', hf⟩ := ih hrest hb
      exact ⟨a', List.mem_cons_of_mem _ ha', hf⟩

@[simp]
theorem run_bind (x : ExceptT ε (StateM σ) α) (f : α → ExceptT ε (StateM σ) β) (s : σ) :
    (x >>= f).run s =
      match x.run s with
      | (.ok a, s') => (f a).run s'
      | (.error e, s') => (.error e, s') := by
  rw [ExceptT.run_bind]
  change StateT.bind x.run _ s = _
  unfold StateT.bind
  change (match x.run s with | (r, s') => _) = _
  rcases x.run s with ⟨e | a, s'⟩ <;> rfl

/-- What must have happened for an action in two steps to give a result. -/
theorem run_bind_eq_ok {x : ExceptT ε (StateM σ) α} {f : α → ExceptT ε (StateM σ) β} {b : β} {s s' : σ} :
    (x >>= f).run s = (.ok b, s') ↔ ∃ a s₁, x.run s = (.ok a, s₁) ∧ (f a).run s₁ = (.ok b, s') := by
  rw [run_bind]
  generalize x.run s = ran
  obtain ⟨e | a, s₁⟩ := ran
  · constructor
    · intro h
      cases h
    · rintro ⟨a, s₂, h, -⟩
      cases h
  · constructor
    · intro h
      exact ⟨a, s₁, rfl, h⟩
    · rintro ⟨a', s₂, h, hf⟩
      cases h
      exact hf

@[simp]
theorem run_pure (a : α) (s : σ) : (pure a : ExceptT ε (StateM σ) α).run s = (.ok a, s) := rfl

@[simp]
theorem run_get (s : σ) : (get : ExceptT ε (StateM σ) σ).run s = (.ok s, s) := rfl

@[simp]
theorem run_modify (f : σ → σ) (s : σ) :
    (modify f : ExceptT ε (StateM σ) PUnit).run s = (.ok ⟨⟩, f s) := rfl

@[simp]
theorem run_liftM (x : Except ε α) (s : σ) : (liftM x : ExceptT ε (StateM σ) α).run s = (x, s) := by
  cases x <;> rfl

theorem run_liftM_eq_ok {x : Except ε α} {a : α} {s s' : σ} :
    (liftM x : ExceptT ε (StateM σ) α).run s = (.ok a, s') ↔ x = .ok a ∧ s = s' := by
  rw [run_liftM, Prod.mk.injEq]

/-- A result that is there is that of the run. -/
theorem run_eq_of_toOption {x : ExceptT ε (StateM σ) α} {a : α} {s : σ} (h : (x.run s).1.toOption = some a) :
    x.run s = (.ok a, (x.run s).2) :=
  Prod.ext (toOption_eq_some.1 h) rfl

@[simp]
theorem run_observing (x : ExceptT ε (StateM σ) α) (s : σ) :
    (observing x).run s = (.ok (x.run s).1, (x.run s).2) := by
  unfold observing
  rw [ExceptT.run_tryCatch]
  change StateT.bind _ _ s = _
  unfold StateT.bind
  change (match (x >>= fun a => pure (Except.ok a) : ExceptT ε (StateM σ) (Except ε α)).run s with | (r, s') => _) = _
  rw [run_bind]
  rcases x.run s with ⟨e | a, s'⟩ <;> rfl

@[simp]
theorem run_mapM_liftM (f : α → Except ε β) (l : List α) (s : σ) :
    (l.mapM fun a => (liftM (f a) : ExceptT ε (StateM σ) β)).run s = (l.mapM f, s) := by
  induction l with
  | nil => rfl
  | cons a l ih =>
    simp only [List.mapM_cons, run_bind, run_liftM]
    cases f a with
    | error e => rfl
    | ok b =>
      simp only [ih]
      cases l.mapM f <;> rfl

end Awk.Action
