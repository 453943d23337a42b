import Awk.Proofs.Machine.Visits

/-!
# Numbers of arrays

Arrays are bound by number, and none is ever given up.  So in every state that arises in a run each number that a name
is bound to is that of an array (`Machine.Arises.allocated`).
-/

namespace Awk

namespace Store

/-- What is bound to a name as an array is one. -/
def Allocated (s : Store) : Prop := ∀ (slot : Slot) (id : Nat), s.lookup slot = some (.array id) → id < s.arrays.size

variable {s s' : Store} {slot slot' : Slot} {b b' : Binding} {id : Nat}

/-! ### The number of arrays -/

theorem size_setArray (s : Store) (id : Nat) (a : Assoc) : (s.setArray id a).arrays.size = s.arrays.size :=
  Array.size_modify

theorem size_newArray (s : Store) : s.newArray.2.arrays.size = s.arrays.size + 1 := Array.size_push _

theorem size_le_arrayAt (h : s.arrayAt slot = .ok (id, s')) : s.arrays.size ≤ s'.arrays.size := by
  rcases arrays_arrayAtFrom h with harrays | harrays
  · rw [harrays]
  · rw [harrays, Array.size_push]
    exact Nat.le_succ _

/-- What is in the arrays does not change when one is found or made for a name. -/
theorem array_arrayAt (h : s.arrayAt slot = .ok (id, s')) (other : Nat) : s'.array other = s.array other := by
  have hnew := s.array_newArray other
  unfold array at hnew ⊢
  rcases arrays_arrayAtFrom h with harrays | harrays
  · rw [harrays]
  · rw [harrays]
    exact hnew

/-! ### Bindings -/

theorem Allocated.of_lookup (h : s.Allocated) (hsize : s.arrays.size ≤ s'.arrays.size)
    (hlookup : ∀ slot id, s'.lookup slot = some (.array id) → s.lookup slot = some (.array id)) : s'.Allocated :=
  fun slot id hbound => Nat.lt_of_lt_of_le (h slot id (hlookup slot id hbound)) hsize

/-- What a slot is bound to has been there, or has been bound just now. -/
theorem eq_or_lookup_of_bind (h : (s.bind slot b).lookup slot' = some b') : b' = b ∨ s.lookup slot' = some b' := by
  have htable (table : Table) {name name' : Text} (h : (table.bind name b).lookup name' = some b') :
      b' = b ∨ table.lookup name' = some b' := by
    rw [Table.lookup_bind] at h
    split at h
    · exact .inl (Option.some.inj h).symm
    · exact .inr h
  obtain ⟨scope, name⟩ := slot
  obtain ⟨scope', name'⟩ := slot'
  cases scope with
  | globals =>
    cases scope' with
    | globals => exact htable s.globals h
    | call level => exact .inr h
  | call level =>
    cases scope' with
    | globals => exact .inr h
    | call level' =>
      simp only [bind, lookup, table, Array.getElem?_modify] at h ⊢
      split at h
      · cases hcall : s.calls[level']? with
        | none =>
          rw [hcall] at h
          cases h
        | some table =>
          rw [hcall] at h
          exact htable table h
      · exact .inr h

theorem Allocated.bind (h : s.Allocated) (hb : ∀ id, b = .array id → id < s.arrays.size) (slot : Slot) :
    (s.bind slot b).Allocated := by
  intro slot' id hbound
  rw [arrays_bind]
  rcases eq_or_lookup_of_bind hbound with rfl | hbound
  · exact hb id rfl
  · exact h slot' id hbound

theorem Allocated.newArray (h : s.Allocated) : s.newArray.2.Allocated :=
  h.of_lookup (s.size_newArray ▸ Nat.le_succ _) fun _ _ hbound => hbound

/-- An array that is found or made for a name is there. -/
theorem Allocated.arrayAtFrom (h : s.Allocated) {fuel : Nat} {passed : Option Slot}
    (hat : s.arrayAtFrom fuel passed = .ok (id, s')) : s'.Allocated ∧ id < s'.arrays.size := by
  have hnew : s.newArray.1 < s.newArray.2.arrays.size := s.size_newArray ▸ Nat.lt_succ_self _
  have hbind {s₁ : Store} {id₁ : Nat} (slot : Slot) (hs₁ : s₁.Allocated) (hid₁ : id₁ < s₁.arrays.size) :
      (s₁.bind slot (.array id₁)).Allocated ∧ id₁ < (s₁.bind slot (.array id₁)).arrays.size := by
    refine ⟨hs₁.bind (fun id' hid' => ?_) slot, (arrays_bind ..).symm ▸ hid₁⟩
    cases hid'
    exact hid₁
  induction fuel generalizing passed id s' with
  | zero =>
    cases hat
    exact ⟨h.newArray, hnew⟩
  | succ fuel ih =>
    cases passed with
    | none =>
      cases hat
      exact ⟨h.newArray, hnew⟩
    | some slot =>
      unfold Store.arrayAtFrom at hat
      split at hat
      · rename_i hbound
        cases hat
        exact ⟨h, h _ _ hbound⟩
      · cases hat
      · obtain ⟨⟨id', s₁⟩, hrest, hat⟩ := Action.bind_eq_ok.1 hat
        cases hat
        obtain ⟨hs₁, hid⟩ := ih hrest
        exact hbind slot hs₁ hid
      · cases hat
        exact hbind slot h.newArray hnew

theorem Allocated.pop (h : s.Allocated) : s.pop.Allocated := by
  refine h.of_lookup (Nat.le_refl _) fun slot id hbound => ?_
  obtain ⟨scope, name⟩ := slot
  cases scope with
  | globals => exact hbound
  | call level =>
    have hlevel := lt_of_lookup hbound
    rw [show s.pop.calls.size = s.calls.size - 1 from Array.size_pop] at hlevel
    have hrank : Scope.rank (.call level) < s.calls.size := Nat.add_lt_of_lt_sub hlevel
    rwa [lookup, table_pop s (.inl hrank)] at hbound

theorem Allocated.push (h : s.Allocated) {table : Table}
    (htable : ∀ {name id}, table.lookup name = some (.array id) → id < s.arrays.size) : (s.push table).Allocated := by
  intro slot id hbound
  rw [lookup_push] at hbound
  split at hbound
  · exact htable hbound
  · exact h slot id hbound

theorem Allocated.setArray (h : s.Allocated) (id : Nat) (a : Assoc) : (s.setArray id a).Allocated :=
  h.of_lookup (Nat.le_of_eq (size_setArray ..).symm) fun _ _ hbound => hbound

theorem Allocated.addGlobalArray (h : s.Allocated) (name : Text) (a : Assoc) : (s.addGlobalArray name a).Allocated := by
  refine (h.newArray.setArray s.newArray.1 a).bind (fun id hid => ?_) _
  cases hid
  rw [size_setArray, size_newArray]
  exact Nat.lt_succ_self _

theorem lasting_allocated : Lasting Allocated where
  scalar slot _ hs := hs.bind (fun _ => Binding.noConfusion) slot
  arrayAt hs hat := (hs.arrayAtFrom hat).1
  setArray id a hs _ := hs.setArray id a
  pop hs := hs.pop

theorem lasting_size (n : Nat) : Lasting fun s => n ≤ s.arrays.size :=
  .of_arrays (fun harrays hs => harrays.symm ▸ hs) (fun hs hat => Nat.le_trans hs (size_le_arrayAt hat))
    fun _ _ hs _ => (size_setArray ..).symm ▸ hs

end Store

namespace Eval

variable {α : Type} {eval : Evaluate} {act : Eval α}

/-- No array is ever given up. -/
theorem Composed.size_le (h : Composed act) (m : Machine) :
    m.store.arrays.size ≤ (act.run m).2.store.arrays.size :=
  (h.preserves (Store.lasting_size m.store.arrays.size) (fun _ _ _ _ hs => hs) m (Nat.le_refl _)).1

/-- An argument is bound to an array only where its name is. -/
theorem lookup_of_bindArgument {arg : Expr} {m m' : Machine} {id : Nat}
    (h : (bindArgument eval arg).run m = (.ok (.array id), m')) :
    m' = m ∧ ∃ slot, m.store.lookup slot = some (.array id) := by
  have hvalue : ∀ {m'}, (do return Binding.scalar (← eval arg) : Eval Binding).run m ≠ (.ok (.array id), m') := by
    intro m' hrun
    obtain ⟨v, m₁, -, hscalar⟩ := Action.run_bind_eq_ok.1 hrun
    cases hscalar
  unfold bindArgument at h
  dsimp only at h
  split at h
  · simp only [slotOf, Action.run_bind, Action.run_get, Action.run_pure] at h
    split at h
    · rename_i hbound
      cases h
      exact ⟨rfl, _, hbound⟩
    · cases h
    · exact absurd h hvalue
    · split at h
      · exact absurd h hvalue
      · cases h
  · exact absurd h hvalue

theorem Preserves.bindArgument {inv : Store → Prop} (heval : ∀ e, Preserves inv (eval e)) (arg : Expr) :
    Preserves inv (bindArgument eval arg) := by
  have hvalue : Preserves inv (do return Binding.scalar (← eval arg)) := (heval arg).andThen fun _ => Yields.pure trivial
  have hslot (name : Text) : Preserves inv (slotOf name) := Yields.get.andThen fun _ => Yields.pure trivial
  unfold Eval.bindArgument
  dsimp only
  split
  · refine (hslot _).andThen fun slot => Yields.get.andThen fun m => ?_
    split
    · exact Yields.pure trivial
    · exact Yields.pure trivial
    · exact hvalue
    · split
      · exact hvalue
      · exact Yields.pure trivial
  · exact hvalue

/-- Parameters are bound to arrays that are there, and stay there while the other arguments are evaluated. -/
theorem lt_of_bindArguments (heval : ∀ e, Composed (eval e)) (hkeeps : ∀ e, Preserves Store.Allocated (eval e))
    {params : List Text} {args : List Expr} {m m' : Machine} {table : Table} (hm : m.store.Allocated)
    (h : (bindArguments eval params args).run m = (.ok table, m')) {name : Text} {id : Nat}
    (hbound : table.lookup name = some (.array id)) : id < m'.store.arrays.size := by
  induction params generalizing args m m' table with
  | nil =>
    cases h
    cases hbound
  | cons param params ih =>
    cases args with
    | nil =>
      obtain ⟨rest, m₁, hrest, htable⟩ := Action.run_bind_eq_ok.1 h
      cases htable
      rw [Table.lookup_cons] at hbound
      split at hbound
      · cases hbound
      · exact ih hm hrest hbound
    | cons arg args =>
      obtain ⟨b, m₁, hfirst, h⟩ := Action.run_bind_eq_ok.1 h
      obtain ⟨rest, m₂, hrest, htable⟩ := Action.run_bind_eq_ok.1 h
      cases htable
      rw [Table.lookup_cons] at hbound
      split at hbound
      · cases hbound
        obtain ⟨rfl, slot, hslot⟩ := lookup_of_bindArgument hfirst
        have hgrows := (composed_bindArguments heval params args).size_le m₁
        rw [hrest] at hgrows
        exact Nat.lt_of_lt_of_le (hm slot id hslot) hgrows
      · have hm₁ := (Preserves.bindArgument hkeeps arg m hm).1
        rw [hfirst] at hm₁
        exact ih hm₁ hrest hbound

theorem enters_allocated : Enters Store.Allocated :=
  fun heval hkeeps hm hbound hm' => hm'.push fun hlookup => lt_of_bindArguments heval hkeeps hm hbound hlookup

theorem Composed.allocated (h : Composed act) {m : Machine} (hm : m.store.Allocated) :
    (act.run m).2.store.Allocated :=
  (h.preserves Store.lasting_allocated enters_allocated m hm).1

end Eval

namespace Machine

theorem allocated_start (world : World) (functions : List Function) (environment : List (Text × Text))
    (words : List Text) : (start world functions environment words).store.Allocated := by
  have hpredefined : (⟨predefined, #[], #[]⟩ : Store).Allocated := by
    intro slot id hbound
    obtain ⟨scope, name⟩ := slot
    cases scope with
    | globals =>
      have hlookup : predefined.lookup name = some (.array id) := hbound
      obtain ⟨before, after, hsplit, -⟩ := List.lookup_eq_some_iff.1 hlookup
      have hmem : (name, .array id) ∈ predefined := by simp [hsplit]
      obtain ⟨v, hv⟩ := scalar_of_mem_predefined hmem
      cases hv
    | call level => cases hbound
  have henvironment := hpredefined.addGlobalArray "ENVIRON".toList (inputArray environment)
  exact (henvironment.addGlobalArray "ARGV".toList (inputArray _)).bind (fun _ => Binding.noConfusion) _

open Eval in
theorem Arises.allocated {functions : List Function} {m : Machine} (h : m.Arises functions) : m.store.Allocated := by
  induction h with
  | start world environment words => exact allocated_start world functions environment words
  | run _ hact ih => exact hact.allocated ih
  | @enter m m' f fuel args table _ _ hbound ih =>
    have heval := (composed_eval fuel).expr
    have hm' := (composed_bindArguments heval f.params args).allocated ih
    rw [hbound] at hm'
    exact enters_allocated heval (fun e => (heval e).preserves Store.lasting_allocated enters_allocated) ih hbound hm'
  | aside _ hstore _ _ _ ih => exact hstore ▸ ih

end Machine

end Awk
