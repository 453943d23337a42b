import Awk.Machine.Store
import Awk.Proofs.Action
import Mathlib.Logic.Basic

/-!
# What becomes of bindings

A name keeps its kind for as long as its scope is there: an array stays the same array and a scalar stays a scalar, and
while a call is running the scalars of its callers keep their values (`Store.Keeps`).  A store is scoped (`Store.Scoped`)
if an untyped parameter refers to a parameter of a call further down, or to a global; then no name is ever added to the
parameters of a call.  Each operation on a store that changes bindings alters them in this way (`Store.Alters`).
-/

namespace Awk

/-! ### Tables -/

namespace Table

variable {table : Table} {name : Text}

theorem lookup_cons (name n : Text) (b : Binding) (table : Table) :
    List.lookup name ((n, b) :: table) = if name = n then some b else table.lookup name := by
  rw [List.lookup_cons]
  split
  · rw [if_pos (eq_of_beq ‹_›)]
  · rw [if_neg (ne_of_beq_false ‹_›)]

theorem lookup_map_rebind (table : Table) (name name' : Text) (b : Binding) :
    (table.map fun (n, old) => if n = name then (n, b) else (n, old)).lookup name' =
      if name' = name then (table.lookup name).map fun _ => b else table.lookup name' := by
  induction table with
  | nil => simp
  | cons entry table ih =>
    obtain ⟨n, old⟩ := entry
    rw [List.map_cons, lookup_cons, lookup_cons]
    rcases eq_or_ne n name with rfl | hn
    · rcases eq_or_ne name' n with rfl | hname' <;> simp_all [lookup_cons]
    · rcases eq_or_ne name' n with rfl | hname' <;> simp_all [lookup_cons, hn.symm]

theorem lookup_bind (table : Table) (name name' : Text) (b : Binding) :
    (table.bind name b).lookup name' = if name' = name then some b else table.lookup name' := by
  unfold bind
  split
  · rename_i hbound
    obtain ⟨old, hold⟩ := Option.isSome_iff_exists.1 hbound
    rw [lookup_map_rebind, hold, Option.map_some]
  · exact lookup_cons name' name b table

theorem map_fst_bind {b : Binding} (hbound : (table.lookup name).isSome) :
    (table.bind name b).map Prod.fst = table.map Prod.fst := by
  unfold bind
  rw [if_pos hbound, List.map_map]
  refine List.map_congr_left fun (n, old) _ => ?_
  rcases eq_or_ne n name with rfl | hn <;> simp_all

end Table

/-! ### Kinds -/

/-- What a name may be bound to later on, as long as its scope is there. -/
inductive Binding.Kept : Binding → Binding → Prop
  | array (id) : Kept (.array id) (.array id)
  | scalar (v v') : Kept (.scalar v) (.scalar v')
  | untyped (passed) (b) : Kept (.untyped passed) b

/-- What a name may be bound to later on, as long as a call from its scope is running. -/
inductive Binding.Held : Binding → Binding → Prop
  | same (b) : Held b b
  | made (passed id) : Held (.untyped passed) (.array id)

namespace Binding

variable {a b c : Binding}

theorem Kept.refl (b : Binding) : b.Kept b := by cases b <;> constructor

theorem Kept.trans (h : a.Kept b) (h' : b.Kept c) : a.Kept c := by
  cases h with
  | array id => exact h'
  | scalar v v' =>
    cases h'
    exact .scalar _ _
  | untyped passed b => exact .untyped _ _

theorem Held.trans (h : a.Held b) (h' : b.Held c) : a.Held c := by
  cases h with
  | same b => exact h'
  | made passed id =>
    cases h'
    exact .made _ _

theorem Held.kept (h : a.Held b) : a.Kept b := by
  cases h with
  | same => exact .refl _
  | made passed id => exact .untyped _ _

end Binding

/-- How far up a scope is: the globals, then the calls from the outermost on. -/
def Scope.rank : Scope → Nat
  | .globals => 0
  | .call level => level + 1

namespace Store

variable {s s₁ s' : Store} {slot slot' : Slot} {b : Binding} {floor : Nat}

/-- The parameters of a call. -/
def names (s : Store) (level : Nat) : List Text := (s.table (.call level)).map Prod.fst

/-- A slot that can be bound: any global, or a parameter of a running call. -/
def Has (s : Store) (slot : Slot) : Prop := slot.scope = .globals ∨ (s.lookup slot).isSome

theorem isSome_lookup_iff {level : Nat} {name : Text} :
    (s.lookup ⟨.call level, name⟩).isSome ↔ name ∈ s.names level := by
  unfold lookup names
  generalize s.table (.call level) = table
  induction table with
  | nil => simp
  | cons entry table ih =>
    obtain ⟨n, old⟩ := entry
    rw [Table.lookup_cons, List.map_cons, List.mem_cons, ← ih]
    split <;> simp_all

theorem table_of_le {level : Nat} (h : s.calls.size ≤ level) : s.table (.call level) = [] := by
  simp [table, Array.getElem?_eq_none h]

theorem names_of_le {level : Nat} (h : s.calls.size ≤ level) : s.names level = [] := by
  rw [names, table_of_le h, List.map_nil]

theorem lt_of_lookup {level : Nat} {name : Text} (h : s.lookup ⟨.call level, name⟩ = some b) :
    level < s.calls.size := by
  refine Nat.lt_of_not_le fun hle => ?_
  rw [lookup, table_of_le hle] at h
  cases h

theorem Has.rank_le (h : s.Has slot) : slot.scope.rank ≤ s.calls.size := by
  obtain ⟨scope, name⟩ := slot
  cases scope with
  | globals => exact Nat.zero_le _
  | call level =>
    obtain ⟨b, hb⟩ := Option.isSome_iff_exists.1 (h.resolve_left Scope.noConfusion)
    exact lt_of_lookup hb

/-! ### Binding a slot -/

@[simp]
theorem calls_size_bind (s : Store) (slot : Slot) (b : Binding) : (s.bind slot b).calls.size = s.calls.size := by
  unfold bind
  split <;> simp

theorem table_bind (h : s.Has slot) (scope : Scope) (b : Binding) :
    (s.bind slot b).table scope =
      if scope = slot.scope then (s.table scope).bind slot.name b else s.table scope := by
  obtain ⟨scope', name⟩ := slot
  cases scope' with
  | globals => cases scope <;> simp [bind, table]
  | call level =>
    cases scope with
    | globals => simp [bind, table]
    | call level' =>
      have hlevel : level < s.calls.size := h.rank_le
      rcases eq_or_ne level' level with rfl | hne
      · simp [bind, table, Array.getElem?_modify, Array.getElem?_eq_getElem hlevel]
      · simp [bind, table, Array.getElem?_modify, hne, hne.symm]

theorem lookup_bind (h : s.Has slot) (slot' : Slot) (b : Binding) :
    (s.bind slot b).lookup slot' = if slot' = slot then some b else s.lookup slot' := by
  obtain ⟨scope, name⟩ := slot
  obtain ⟨scope', name'⟩ := slot'
  unfold lookup
  rw [table_bind h]
  rcases eq_or_ne scope' scope with rfl | hscope
  · simp [Table.lookup_bind]
  · simp [hscope]

theorem names_bind (h : s.Has slot) (level : Nat) (b : Binding) : (s.bind slot b).names level = s.names level := by
  unfold names
  rw [table_bind h]
  split
  · rename_i hscope
    rw [hscope]
    exact Table.map_fst_bind (h.resolve_left (hscope ▸ Scope.noConfusion))
  · rfl

/-! ### Stores that are scoped -/

/-- The globals that are set without a look at what they are bound to. -/
def maintained : List String := ["NR", "FNR", "FILENAME", "RSTART", "RLENGTH"]

/-- A global has a kind, an untyped parameter refers to a scope further down, and what is maintained is scalar. -/
structure Scoped (s : Store) : Prop where
  globals : ∀ {name passed}, s.lookup ⟨.globals, name⟩ ≠ some (.untyped passed)
  passed : ∀ {level name slot}, s.lookup ⟨.call level, name⟩ = some (.untyped (some slot)) →
    slot.scope.rank ≤ level ∧ s.Has slot
  maintained : ∀ name ∈ maintained, ∃ v, s.lookup ⟨.globals, name.toList⟩ = some (.scalar v)

theorem Scoped.refers (hs : s.Scoped) (h : s.lookup slot = some (.untyped (some slot'))) :
    slot'.scope.rank < slot.scope.rank ∧ s.Has slot' := by
  obtain ⟨scope, name⟩ := slot
  cases scope with
  | globals => exact absurd h hs.globals
  | call level =>
    obtain ⟨hrank, hhas⟩ := hs.passed h
    exact ⟨Nat.lt_succ_of_le hrank, hhas⟩

/-- What an operation that changes bindings does: kinds stay, and the parameters of suspended calls are held. -/
structure Alters (s s' : Store) : Prop where
  depth : s'.calls.size = s.calls.size
  names : ∀ level, s'.names level = s.names level
  kept : ∀ {slot b}, s.lookup slot = some b → ∃ b', s'.lookup slot = some b' ∧ b.Kept b'
  held : ∀ {level name b}, level + 1 < s.calls.size → s.lookup ⟨.call level, name⟩ = some b →
    ∃ b', s'.lookup ⟨.call level, name⟩ = some b' ∧ b.Held b'
  untyped : ∀ {slot passed}, s'.lookup slot = some (.untyped passed) → s.lookup slot = some (.untyped passed)

/-- Only the arrays differ. -/
theorem Alters.of_eq (hglobals : s'.globals = s.globals) (hcalls : s'.calls = s.calls) : s.Alters s' := by
  have htable (scope : Scope) : s'.table scope = s.table scope := by cases scope <;> simp [table, hglobals, hcalls]
  have hlookup (slot : Slot) : s'.lookup slot = s.lookup slot := by rw [lookup, lookup, htable]
  exact {
    depth := by rw [hcalls]
    names := fun level => by rw [Store.names, Store.names, htable]
    kept := fun h => ⟨_, (hlookup _).trans h, .refl _⟩
    held := fun _ h => ⟨_, (hlookup _).trans h, .same _⟩
    untyped := fun h => (hlookup _).symm.trans h }

theorem Alters.trans (h : s.Alters s₁) (h' : s₁.Alters s') : s.Alters s' where
  depth := h'.depth.trans h.depth
  names level := (h'.names level).trans (h.names level)
  kept hb := by
    obtain ⟨b₁, hb₁, hkept⟩ := h.kept hb
    obtain ⟨b', hb', hkept'⟩ := h'.kept hb₁
    exact ⟨b', hb', hkept.trans hkept'⟩
  held hlevel hb := by
    obtain ⟨b₁, hb₁, hheld⟩ := h.held hlevel hb
    obtain ⟨b', hb', hheld'⟩ := h'.held (h.depth.symm ▸ hlevel) hb₁
    exact ⟨b', hb', hheld.trans hheld'⟩
  untyped hb := h.untyped (h'.untyped hb)

theorem Alters.has (h : s.Alters s') (hslot : s.Has slot) : s'.Has slot := by
  refine hslot.imp_right fun hsome => ?_
  obtain ⟨b, hb⟩ := Option.isSome_iff_exists.1 hsome
  obtain ⟨b', hb', -⟩ := h.kept hb
  rw [hb']
  rfl

theorem Scoped.alters (hs : s.Scoped) (h : s.Alters s') : s'.Scoped where
  globals hb := hs.globals (h.untyped hb)
  passed hb := by
    obtain ⟨hrank, hslot⟩ := hs.passed (h.untyped hb)
    exact ⟨hrank, h.has hslot⟩
  maintained name hname := by
    obtain ⟨v, hv⟩ := hs.maintained name hname
    obtain ⟨b', hb', hkept⟩ := h.kept hv
    cases hkept
    exact ⟨_, hb'⟩

/-- A slot is bound to a scalar or to an array. -/
theorem alters_bind (h : s.Has slot) (htyped : ∀ passed, b ≠ .untyped passed)
    (hkept : ∀ old, s.lookup slot = some old → old.Kept b)
    (hheld : slot.scope.rank < s.calls.size → slot.scope = .globals ∨ ∀ old, s.lookup slot = some old → old.Held b) :
    s.Alters (s.bind slot b) where
  depth := calls_size_bind s slot b
  names level := names_bind h level b
  kept {slot' old} hold := by
    rw [lookup_bind h]
    split
    · rename_i hslot
      exact ⟨b, rfl, hkept old (hslot ▸ hold)⟩
    · exact ⟨old, hold, .refl old⟩
  held {level name old} hlevel hold := by
    rw [lookup_bind h]
    split
    · rename_i hslot
      subst hslot
      exact ⟨b, rfl, (hheld hlevel).resolve_left Scope.noConfusion old hold⟩
    · exact ⟨old, hold, .same old⟩
  untyped {slot' passed} hb := by
    rw [lookup_bind h] at hb
    split at hb
    · exact absurd (Option.some.inj hb) (htyped passed)
    · exact hb

/-! ### The operations -/

theorem has_slotOf (s : Store) (name : Text) : s.Has (s.slotOf name) := by
  unfold slotOf scopeOf
  split
  · rename_i table htable
    split
    · rename_i hbound
      refine .inr ?_
      rw [Array.back?] at htable
      rw [lookup, Store.table, htable]
      exact hbound
    · exact .inl rfl
  · exact .inl rfl

theorem rank_slotOf (s : Store) (name : Text) :
    (s.slotOf name).scope = .globals ∨ (s.slotOf name).scope.rank = s.calls.size := by
  unfold slotOf scopeOf
  split
  · rename_i table htable
    split
    · refine .inr ?_
      have hpos : s.calls.size ≠ 0 := by
        intro hempty
        rw [Array.back?, Array.getElem?_eq_none (by omega)] at htable
        cases htable
      exact Nat.sub_add_cancel (Nat.pos_of_ne_zero hpos)
    · exact .inl rfl
  · exact .inl rfl

/-- A scalar is assigned to a global or to a parameter of the innermost call. -/
theorem alters_setScalar {v : Value} (hslot : slot.scope = .globals ∨ slot = s.slotOf slot.name)
    (h : s.setScalar slot v = .ok s') : s.Alters s' := by
  have hhas : s.Has slot := hslot.elim .inl fun heq => heq ▸ s.has_slotOf slot.name
  have hscope : slot.scope = .globals ∨ slot.scope.rank = s.calls.size :=
    hslot.elim .inl fun heq => heq ▸ s.rank_slotOf slot.name
  unfold setScalar at h
  split at h
  · cases h
  · rename_i hnoarray
    cases h
    refine alters_bind hhas (fun _ => Binding.noConfusion) (fun old hold => ?_) fun hlt => ?_
    · cases old with
      | scalar v' => exact .scalar _ _
      | array id => exact absurd hold (hnoarray id)
      | untyped passed => exact .untyped _ _
    · exact .inl (hscope.resolve_right (Nat.ne_of_lt hlt))

theorem alters_setGlobal (hs : s.Scoped) {name : String} (hname : name ∈ maintained) (v : Value) :
    s.Alters (s.setGlobal name.toList v) := by
  obtain ⟨v', hv'⟩ := hs.maintained name hname
  refine alters_bind (.inl rfl) (fun _ => Binding.noConfusion) (fun old hold => ?_) fun _ => .inl rfl
  cases hv'.symm.trans hold
  exact .scalar _ _

theorem alters_setArray (s : Store) (id : Nat) (a : Assoc) : s.Alters (s.setArray id a) := .of_eq rfl rfl

/-- The slots on the way to an array are bound to it.  Each refers to one further down, so no other is touched. -/
theorem alters_arrayAtFrom (hs : s.Scoped) {passed : Option Slot} (hpassed : ∀ slot ∈ passed, s.Has slot) {fuel id : Nat}
    (h : s.arrayAtFrom fuel passed = .ok (id, s')) :
    s.Alters s' ∧ ∀ slot', (∀ slot ∈ passed, slot.scope.rank < slot'.scope.rank) → s'.lookup slot' = s.lookup slot' := by
  induction fuel generalizing passed id s' with
  | zero =>
    cases h
    exact ⟨.of_eq rfl rfl, fun _ _ => rfl⟩
  | succ fuel ih =>
    cases passed with
    | none =>
      cases h
      exact ⟨.of_eq rfl rfl, fun _ _ => rfl⟩
    | some slot =>
      have hhas := hpassed slot rfl
      unfold arrayAtFrom at h
      split at h
      · cases h
        exact ⟨.of_eq rfl rfl, fun _ _ => rfl⟩
      · cases h
      · rename_i passed hbound
        obtain ⟨⟨id', s₁⟩, hrest, h⟩ := Action.bind_eq_ok.1 h
        cases h
        have hbelow : ∀ slot' ∈ passed, slot'.scope.rank < slot.scope.rank ∧ s.Has slot' := by
          rintro slot' rfl
          exact hs.refers hbound
        obtain ⟨halters, hothers⟩ := ih (fun slot' hslot' => (hbelow slot' hslot').2) hrest
        -- The slot itself has been left alone on the way down, so it has no kind yet.
        have huntyped : s₁.lookup slot = some (.untyped passed) := by
          rw [hothers slot fun slot' hslot' => (hbelow slot' hslot').1, hbound]
        have hbind : s₁.Alters (s₁.bind slot (.array id)) := by
          refine alters_bind (halters.has hhas) (fun _ => Binding.noConfusion) ?_ fun _ => .inr ?_
          · rintro old hold
            cases huntyped.symm.trans hold
            exact .untyped _ _
          · rintro old hold
            cases huntyped.symm.trans hold
            exact .made _ _
        refine ⟨halters.trans hbind, fun slot' hslot' => ?_⟩
        have hrank := hslot' slot rfl
        have hne : slot' ≠ slot := by
          rintro rfl
          exact Nat.lt_irrefl _ hrank
        rw [lookup_bind (halters.has hhas), if_neg hne]
        exact hothers slot' fun below hbelow' => Nat.lt_trans (hbelow below hbelow').1 hrank
      · rename_i hunbound
        cases h
        have hglobal : slot.scope = .globals := hhas.resolve_right (by simp [hunbound])
        have hnew : s.Alters s.newArray.2 := .of_eq rfl rfl
        have hbind : s.newArray.2.Alters (s.newArray.2.bind slot (.array s.newArray.1)) := by
          refine alters_bind (.inl hglobal) (fun _ => Binding.noConfusion) (fun old hold => ?_) fun _ => .inl hglobal
          have hold' : s.lookup slot = some old := hold
          rw [hunbound] at hold'
          cases hold'
        refine ⟨hnew.trans hbind, fun slot' hslot' => ?_⟩
        have hne : slot' ≠ slot := by
          rintro rfl
          exact Nat.lt_irrefl _ (hslot' _ rfl)
        rw [lookup_bind (.inl hglobal), if_neg hne]
        rfl

theorem alters_arrayAt (hs : s.Scoped) (hslot : s.Has slot) {id : Nat} (h : s.arrayAt slot = .ok (id, s')) :
    s.Alters s' :=
  (alters_arrayAtFrom hs (fun _ hslot' => Option.some.inj hslot' ▸ hslot) h).1

/-- What is found to be an array is bound to it. -/
theorem lookup_arrayAt (hs : s.Scoped) (hslot : s.Has slot) {id : Nat} (h : s.arrayAt slot = .ok (id, s')) :
    s'.lookup slot = some (.array id) := by
  unfold arrayAt arrayAtFrom at h
  split at h
  · rename_i id' hbound
    cases h
    exact hbound
  · cases h
  · rename_i passed hbound
    obtain ⟨⟨id', s₁⟩, hrest, h⟩ := Action.bind_eq_ok.1 h
    cases h
    have hpassed : ∀ slot' ∈ passed, s.Has slot' := by
      rintro slot' rfl
      exact (hs.refers hbound).2
    rw [lookup_bind ((alters_arrayAtFrom hs hpassed hrest).1.has hslot), if_pos rfl]
  · rename_i hunbound
    cases h
    have hglobal : slot.scope = .globals := hslot.resolve_right (by simp [hunbound])
    rw [lookup_bind (.inl hglobal), if_pos rfl]

/-- What a scalar is assigned to is bound to it. -/
theorem lookup_setScalar (hslot : s.Has slot) {v : Value} (h : s.setScalar slot v = .ok s') :
    s'.lookup slot = some (.scalar v) := by
  unfold setScalar at h
  split at h
  · cases h
  · cases h
    rw [lookup_bind hslot, if_pos rfl]

/-! ### Calls -/

theorem lookup_push (s : Store) (table : Table) (slot : Slot) :
    (s.push table).lookup slot =
      if slot.scope = .call s.calls.size then table.lookup slot.name else s.lookup slot := by
  obtain ⟨scope, name⟩ := slot
  cases scope with
  | globals => simp [push, lookup, Store.table]
  | call level =>
    rcases eq_or_ne level s.calls.size with rfl | hne
    · simp [push, lookup, Store.table]
    · simp [push, lookup, Store.table, Array.getElem?_push, hne]

theorem table_push (s : Store) (table : Table) {scope : Scope} (h : scope.rank ≤ s.calls.size) :
    (s.push table).table scope = s.table scope := by
  cases scope with
  | globals => rfl
  | call level =>
    have hlevel : level < s.calls.size := h
    simp [push, Store.table, Array.getElem?_push, Nat.ne_of_lt hlevel]

theorem names_push (s : Store) (table : Table) : (s.push table).names s.calls.size = table.map Prod.fst := by
  simp [push, names, Store.table]

theorem names_push_of_lt (s : Store) (table : Table) {level : Nat} (h : level < s.calls.size) :
    (s.push table).names level = s.names level :=
  congrArg (List.map Prod.fst) (table_push s table (show Scope.rank (.call level) ≤ _ from h))

theorem table_pop (s : Store) {scope : Scope} (h : scope.rank < s.calls.size ∨ scope = .globals) :
    s.pop.table scope = s.table scope := by
  cases scope with
  | globals => rfl
  | call level =>
    have hlevel : level < s.calls.size - 1 := Nat.lt_sub_of_add_lt (h.resolve_right Scope.noConfusion)
    simp [pop, Store.table, Array.getElem?_eq_getElem (Nat.lt_of_lt_pred hlevel), hlevel]

theorem names_pop (s : Store) {level : Nat} (h : level + 1 < s.calls.size) : s.pop.names level = s.names level :=
  congrArg (List.map Prod.fst) (table_pop s (.inl (show Scope.rank (.call level) < _ from h)))

theorem Has.push (h : s.Has slot) (table : Table) : (s.push table).Has slot := by
  refine h.imp_right fun hsome => ?_
  rw [lookup, table_push s table h.rank_le]
  exact hsome

/-- A call begins with parameters that refer to nothing but what can be bound. -/
theorem Scoped.push (hs : s.Scoped) {table : Table}
    (htable : ∀ {name slot}, table.lookup name = some (.untyped (some slot)) → s.Has slot) :
    (s.push table).Scoped where
  globals := hs.globals
  passed {level name slot} hb := by
    rw [lookup_push] at hb
    split at hb
    · rename_i hlevel
      cases hlevel
      exact ⟨(htable hb).rank_le, (htable hb).push table⟩
    · exact ⟨(hs.passed hb).1, (hs.passed hb).2.push table⟩
  maintained := hs.maintained

/-- Nothing refers to the call that is left. -/
theorem Scoped.pop (hs : s.Scoped) : s.pop.Scoped where
  globals := hs.globals
  passed {level name slot} hb := by
    have hlevel : level + 1 < s.calls.size := by
      have hlt := lt_of_lookup hb
      rw [show s.pop.calls.size = s.calls.size - 1 from Array.size_pop] at hlt
      exact Nat.add_lt_of_lt_sub hlt
    rw [lookup, show s.pop.table (.call level) = s.table (.call level) from table_pop s (.inl hlevel)] at hb
    obtain ⟨hrank, hhas⟩ := hs.passed hb
    refine ⟨hrank, hhas.imp_right fun hsome => ?_⟩
    rw [lookup, table_pop s (.inl (Nat.lt_of_le_of_lt hrank (Nat.lt_of_succ_lt hlevel)))]
    exact hsome
  maintained := hs.maintained

/-! ### As long as the calls up to a floor are running -/

/-- What is kept while the outermost calls, as many as the floor says, are running: the parameters of each, the kinds of
what is bound, and of all but the last of these calls the scalars. -/
structure Keeps (floor : Nat) (s s' : Store) : Prop where
  names : ∀ {level}, level < floor → s'.names level = s.names level
  kept : ∀ {slot b}, slot.scope.rank ≤ floor → s.lookup slot = some b → ∃ b', s'.lookup slot = some b' ∧ b.Kept b'
  held : ∀ {level name b}, level + 1 < floor → s.lookup ⟨.call level, name⟩ = some b →
    ∃ b', s'.lookup ⟨.call level, name⟩ = some b' ∧ b.Held b'

theorem Keeps.of_table (h : ∀ {scope : Scope}, scope.rank ≤ floor → s'.table scope = s.table scope) :
    s.Keeps floor s' where
  names {level} hlevel := congrArg (List.map Prod.fst) (@h (.call level) hlevel)
  kept {slot b} hslot hb := ⟨b, by rw [lookup, h hslot]; exact hb, .refl b⟩
  held {level name b} hlevel hb :=
    ⟨b, by rw [lookup, h (Nat.le_of_lt hlevel : Scope.rank (.call level) ≤ floor)]; exact hb, .same b⟩

theorem Keeps.refl (floor : Nat) (s : Store) : s.Keeps floor s := .of_table fun _ => rfl

theorem Keeps.trans (h : s.Keeps floor s₁) (h' : s₁.Keeps floor s') : s.Keeps floor s' where
  names hlevel := (h'.names hlevel).trans (h.names hlevel)
  kept hslot hb := by
    obtain ⟨b₁, hb₁, hkept⟩ := h.kept hslot hb
    obtain ⟨b', hb', hkept'⟩ := h'.kept hslot hb₁
    exact ⟨b', hb', hkept.trans hkept'⟩
  held hlevel hb := by
    obtain ⟨b₁, hb₁, hheld⟩ := h.held hlevel hb
    obtain ⟨b', hb', hheld'⟩ := h'.held hlevel hb₁
    exact ⟨b', hb', hheld.trans hheld'⟩

theorem Alters.keeps (h : s.Alters s') (hfloor : floor ≤ s.calls.size) : s.Keeps floor s' where
  names _ := h.names _
  kept _ := h.kept
  held hlevel := h.held (Nat.lt_of_lt_of_le hlevel hfloor)

theorem keeps_push (table : Table) (hfloor : floor ≤ s.calls.size) : s.Keeps floor (s.push table) :=
  .of_table fun hscope => s.table_push table (Nat.le_trans hscope hfloor)

theorem keeps_pop (hfloor : floor < s.calls.size) : s.Keeps floor s.pop :=
  .of_table fun hscope => s.table_pop (.inl (Nat.lt_of_le_of_lt hscope hfloor))

end Store

end Awk
