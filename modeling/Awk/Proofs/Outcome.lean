import Awk.Proofs.Action

/-!
# What actions come to

A claim about all ways in which an action can end: which errors are allowed, what holds of the result, and which
property of the state is kept in either case (`Yields`).  It is proved of an action from its steps, the same way as
the action is put together from them.
-/

namespace Awk

variable {ε σ α β : Type}

/-- A result with a property, or an error that is allowed. -/
def Outcome (allowed : ε → Prop) (post : α → Prop) : Except ε α → Prop
  | .ok a => post a
  | .error e => allowed e

variable {allowed allowed' : ε → Prop} {post post' : α → Prop} {next : β → Prop}

theorem Outcome.mono (hallowed : ∀ {e}, allowed e → allowed' e) (hpost : ∀ {a}, post a → post' a) {x : Except ε α}
    (h : Outcome allowed post x) : Outcome allowed' post' x := by
  cases x with
  | error e => exact hallowed h
  | ok a => exact hpost h

theorem Outcome.bind {x : Except ε α} {f : α → Except ε β} (hx : Outcome allowed post x)
    (hf : ∀ a, post a → Outcome allowed next (f a)) : Outcome allowed next (x >>= f) := by
  cases x with
  | error e => exact hx
  | ok a => exact hf a hx

theorem Outcome.mapM {f : α → Except ε β} {l : List α} (hf : ∀ a ∈ l, Outcome allowed (fun _ => True) (f a)) :
    Outcome allowed (fun _ => True) (l.mapM f) := by
  induction l with
  | nil => trivial
  | cons a l ih =>
    rw [List.mapM_cons]
    refine .bind (hf a List.mem_cons_self) fun b _ => ?_
    refine .bind (ih fun a' ha' => hf a' (List.mem_cons_of_mem _ ha')) fun bs _ => ?_
    trivial

/-- From every state of the invariant an action gets to such a state again, with an outcome of the given kind. -/
def Yields (inv : σ → Prop) (allowed : ε → Prop) (post : α → Prop) (act : ExceptT ε (StateM σ) α) : Prop :=
  ∀ s, inv s → inv (act.run s).2 ∧ Outcome allowed post (act.run s).1

namespace Yields

variable {inv : σ → Prop} {act : ExceptT ε (StateM σ) α}

theorem mono (hallowed : ∀ {e}, allowed e → allowed' e) (hpost : ∀ {a}, post a → post' a)
    (h : Yields inv allowed post act) : Yields inv allowed' post' act :=
  fun s hs => ⟨(h s hs).1, (h s hs).2.mono hallowed hpost⟩

/-- The result may be forgotten. -/
theorem weaken (h : Yields inv allowed post act) : Yields inv allowed (fun _ => True) act :=
  h.mono id fun _ => trivial

theorem pure {a : α} (h : post a) : Yields inv allowed post (Pure.pure a : ExceptT ε (StateM σ) α) :=
  fun _ hs => ⟨hs, h⟩

theorem throw {e : ε} (h : allowed e) : Yields inv allowed post (MonadExcept.throw e : ExceptT ε (StateM σ) α) :=
  fun _ hs => ⟨hs, h⟩

theorem get : Yields inv allowed inv (MonadState.get : ExceptT ε (StateM σ) σ) :=
  fun _ hs => ⟨hs, hs⟩

theorem set {s : σ} (h : inv s) : Yields inv allowed (fun _ => True) (MonadStateOf.set s : ExceptT ε (StateM σ) PUnit) :=
  fun _ _ => ⟨h, trivial⟩

theorem modify {f : σ → σ} (h : ∀ s, inv s → inv (f s)) :
    Yields inv allowed (fun _ => True) (modify f : ExceptT ε (StateM σ) PUnit) :=
  fun s hs => ⟨h s hs, trivial⟩

theorem lift {x : Except ε α} (h : Outcome allowed post x) :
    Yields inv allowed post (liftM x : ExceptT ε (StateM σ) α) := by
  intro s hs
  rw [Action.run_liftM]
  exact ⟨hs, h⟩

theorem bind {f : α → ExceptT ε (StateM σ) β} (hact : Yields inv allowed post act)
    (hf : ∀ a, post a → Yields inv allowed next (f a)) : Yields inv allowed next (act >>= f) := by
  intro s hs
  obtain ⟨hs', hout⟩ := hact s hs
  rw [Action.run_bind]
  revert hs' hout
  rcases act.run s with ⟨e | a, s'⟩
  · exact fun hs' hout => ⟨hs', hout⟩
  · exact fun hs' hout => hf a hout s' hs'

/-- Nothing follows an error. -/
theorem stop {e : ε} {f : α → ExceptT ε (StateM σ) β} (h : allowed e) :
    Yields inv allowed next ((MonadExcept.throw e : ExceptT ε (StateM σ) α) >>= f) :=
  fun _ hs => ⟨hs, h⟩

/-- A step whose result is of no interest. -/
theorem andThen {f : α → ExceptT ε (StateM σ) β} (hact : Yields inv allowed post act)
    (hf : ∀ a, Yields inv allowed next (f a)) : Yields inv allowed next (act >>= f) :=
  hact.bind fun a _ => hf a

/-- An error may be taken as a result. -/
theorem observed (h : Yields inv allowed post act) : Yields inv allowed' (Outcome allowed post) (observing act) := by
  intro s hs
  obtain ⟨hs', hout⟩ := h s hs
  rw [Action.run_observing]
  exact ⟨hs', hout⟩

/-- A search through a list, test by test. -/
theorem findM? {p : α → ExceptT ε (StateM σ) Bool} (hp : ∀ a, Yields inv allowed (fun _ => True) (p a)) (l : List α) :
    Yields inv allowed (fun _ => True) (l.findM? p) := by
  induction l with
  | nil => exact pure trivial
  | cons a l ih =>
    refine (hp a).andThen fun b => ?_
    split
    · exact pure trivial
    · exact ih

end Yields

end Awk
