import Awk.Proofs.Machine.Kinds

/-!
# Names passed from call to call

A name without a kind is passed as such, so the parameters of running calls refer to one another, down to a name that
refers to no other (`Store.Leads`).  The first use as an array binds all names on the way to one array, or none of them
if a scalar stands at its end (`Store.arrayAt_of_leads`).  A parameter becomes an array only together with the name that
was passed for it (`Machine.EnteredWith.follows`).  So the names of a chain of calls come to one array, whatever has
been done between the calls and the use (`Eval.chain_resolves`).
-/

namespace Awk

namespace Store

variable {s s' : Store} {slot slot' last : Slot} {way slots : List Slot}

/-- From a slot, the way along slots that have no kind and refer each to the next, and the slot at its end, which refers
to no other. -/
inductive Leads (s : Store) : Slot → List Slot → Slot → Prop
  | here {slot : Slot} (h : ∀ next, s.lookup slot ≠ some (.untyped (some next))) : Leads s slot [] slot
  | passed {slot next last : Slot} {way : List Slot} (h : s.lookup slot = some (.untyped (some next)))
    (hnext : Leads s next way last) : Leads s slot (slot :: way) last

namespace Leads

theorem mem (h : s.Leads slot way last) : slot ∈ way ++ [last] := by
  cases h with
  | here => exact List.mem_singleton_self slot
  | passed => exact List.mem_cons_self

theorem last_refers (h : s.Leads slot way last) : ∀ next, s.lookup last ≠ some (.untyped (some next)) := by
  induction h with
  | here h => exact h
  | passed _ _ ih => exact ih

theorem refers (h : s.Leads slot way last) :
    ∀ t ∈ way, ∃ next ∈ way ++ [last], s.lookup t = some (.untyped (some next)) := by
  induction h with
  | here => exact List.forall_mem_nil _
  | passed h hnext ih =>
    refine List.forall_mem_cons.2 ⟨⟨_, List.mem_cons_of_mem _ hnext.mem, h⟩, fun t ht => ?_⟩
    obtain ⟨next, hmem, hbound⟩ := ih t ht
    exact ⟨next, List.mem_cons_of_mem _ hmem, hbound⟩

theorem has (h : s.Leads slot way last) (hs : s.Scoped) (hslot : s.Has slot) : ∀ t ∈ way ++ [last], s.Has t := by
  induction h with
  | here => simpa using hslot
  | passed h _ ih => exact List.forall_mem_cons.2 ⟨hslot, ih (hs.refers h).2⟩

end Leads

/-- Each name refers to one further up, so the way comes to an end. -/
theorem Scoped.exists_leads (hs : s.Scoped) (slot : Slot) : ∃ way last, s.Leads slot way last := by
  induction hrank : slot.scope.rank using Nat.strongRecOn generalizing slot with
  | ind rank ih =>
    by_cases h : ∃ next, s.lookup slot = some (.untyped (some next))
    · obtain ⟨next, hnext⟩ := h
      obtain ⟨way, last, hleads⟩ := ih next.scope.rank (hrank ▸ (hs.refers hnext).1) next rfl
      exact ⟨slot :: way, last, .passed hnext hleads⟩
    · exact ⟨[], slot, .here (not_exists.1 h)⟩

/-! ### Binding all names on the way -/

/-- The slots, all bound to the same. -/
def bindAll (s : Store) (slots : List Slot) (b : Binding) : Store := slots.foldr (fun slot s => s.bind slot b) s

theorem Has.bind (h : s.Has slot) (hslot' : s.Has slot') (b : Binding) : (s.bind slot' b).Has slot := by
  refine h.imp_right fun hsome => ?_
  rw [lookup_bind hslot']
  split
  · rfl
  · exact hsome

theorem Has.bindAll (h : s.Has slot) (hslots : ∀ t ∈ slots, s.Has t) (b : Binding) :
    (s.bindAll slots b).Has slot := by
  induction slots generalizing slot with
  | nil => exact h
  | cons first slots ih =>
    rw [List.forall_mem_cons] at hslots
    exact (ih h hslots.2).bind (ih hslots.1 hslots.2) b

theorem lookup_bindAll (hslots : ∀ t ∈ slots, s.Has t) (slot : Slot) (b : Binding) :
    (s.bindAll slots b).lookup slot = if slot ∈ slots then some b else s.lookup slot := by
  induction slots with
  | nil => rfl
  | cons first slots ih =>
    rw [List.forall_mem_cons] at hslots
    change ((s.bindAll slots b).bind first b).lookup slot = _
    rw [lookup_bind (hslots.1.bindAll hslots.2 b), ih hslots.2]
    by_cases hfirst : slot = first
    · simp [hfirst]
    · simp [hfirst]

theorem arrays_bindAll (s : Store) (slots : List Slot) (b : Binding) : (s.bindAll slots b).arrays = s.arrays := by
  induction slots with
  | nil => rfl
  | cons first slots ih => exact (arrays_bind _ first b).trans ih

/-- What is found at the end of a way. -/
theorem arrayAtFrom_of_leads (hs : s.Scoped) (h : s.Leads slot way last) {fuel : Nat}
    (hfuel : slot.scope.rank < fuel) :
    s.arrayAtFrom fuel (some slot) =
      match s.lookup last with
      | some (.array id) => .ok (id, s.bindAll way (.array id))
      | some (.scalar _) => .error (.scalarAsArray last.name)
      | _ => .ok (s.arrays.size, s.newArray.2.bindAll (way ++ [last]) (.array s.arrays.size)) := by
  induction h generalizing fuel with
  | @here slot h =>
    obtain ⟨fuel, rfl⟩ := Nat.exists_eq_succ_of_ne_zero (Nat.ne_of_gt (Nat.lt_of_le_of_lt (Nat.zero_le _) hfuel))
    unfold arrayAtFrom
    cases hbound : s.lookup slot with
    | none => rfl
    | some b =>
      cases b with
      | scalar v => rfl
      | array id => rfl
      | untyped passed =>
        cases passed with
        | none => cases fuel <;> rfl
        | some next => exact absurd hbound (h next)
  | @passed slot next last way h hnext ih =>
    obtain ⟨fuel, rfl⟩ := Nat.exists_eq_succ_of_ne_zero (Nat.ne_of_gt (Nat.lt_of_le_of_lt (Nat.zero_le _) hfuel))
    have hrank := (hs.refers h).1
    rw [arrayAtFrom, h]
    dsimp only
    rw [ih (by omega)]
    split <;> rfl

/-- The slots, and no others, have been bound to one array: to that which some of them was bound to before, or else to a
new one, which is empty. -/
structure Joined (s : Store) (slots : List Slot) (id : Nat) (s' : Store) : Prop where
  lookup : ∀ t, s'.lookup t = if t ∈ slots then some (.array id) else s.lookup t
  same : ∀ t ∈ slots, ∀ id', s.lookup t = some (.array id') → id' = id
  arrays : (∃ t ∈ slots, s.lookup t = some (.array id)) ∧ s'.arrays = s.arrays ∨
    (∀ t ∈ slots, ∀ id', s.lookup t ≠ some (.array id')) ∧ id = s.arrays.size ∧ s'.arrays = s.arrays.push .empty

/-- Further slots that are bound to the array already. -/
theorem Joined.append {id : Nat} (h : s.Joined slots id s') {after : List Slot} (hlast : last ∈ slots)
    (hbound : s.lookup last = some (.array id)) (hafter : ∀ t ∈ after, s.lookup t = some (.array id)) :
    s.Joined (slots ++ after) id s' where
  lookup t := by
    rw [h.lookup]
    by_cases hslots : t ∈ slots
    · simp [hslots]
    · by_cases hmem : t ∈ after
      · simp [hslots, hmem, hafter t hmem]
      · simp [hslots, hmem]
  same t ht id' hid' := by
    rcases List.mem_append.1 ht with ht | ht
    · exact h.same t ht id' hid'
    · rw [hafter t ht] at hid'
      exact (Binding.array.inj (Option.some.inj hid')).symm
  arrays := by
    rcases h.arrays with ⟨-, harrays⟩ | ⟨hnone, -⟩
    · exact .inl ⟨⟨last, List.mem_append_left _ hlast, hbound⟩, harrays⟩
    · exact absurd hbound (hnone last hlast id)

theorem Leads.notMem_arrays (h : s.Leads slot way last) : ∀ t ∈ way, ∀ id, s.lookup t ≠ some (.array id) := by
  intro t ht id hid
  obtain ⟨next, -, hnext⟩ := h.refers t ht
  rw [hnext] at hid
  cases hid

/-- All names on a way are joined by an array at its end. -/
theorem Leads.joined_old (h : s.Leads slot way last) (hway : ∀ t ∈ way, s.Has t) {id : Nat}
    (hlast : s.lookup last = some (.array id)) : s.Joined (way ++ [last]) id (s.bindAll way (.array id)) where
  lookup t := by
    rw [lookup_bindAll hway]
    by_cases ht : t = last
    · simp [ht, hlast]
    · simp [ht]
  same t ht id' hid' := by
    rcases List.mem_append.1 ht with ht | ht
    · exact absurd hid' (h.notMem_arrays t ht id')
    · rw [List.mem_singleton.1 ht, hlast] at hid'
      exact (Binding.array.inj (Option.some.inj hid')).symm
  arrays := .inl ⟨⟨last, by simp, hlast⟩, arrays_bindAll _ _ _⟩

/-- Without an array at its end they are joined by a new one. -/
theorem Leads.joined_new (h : s.Leads slot way last) (hall : ∀ t ∈ way ++ [last], s.Has t)
    (hlast : ∀ id, s.lookup last ≠ some (.array id)) :
    s.Joined (way ++ [last]) s.arrays.size (s.newArray.2.bindAll (way ++ [last]) (.array s.arrays.size)) := by
  have hnone : ∀ t ∈ way ++ [last], ∀ id, s.lookup t ≠ some (.array id) := by
    intro t ht
    rcases List.mem_append.1 ht with ht | ht
    · exact h.notMem_arrays t ht
    · exact List.mem_singleton.1 ht ▸ hlast
  have hhas : ∀ t ∈ way ++ [last], s.newArray.2.Has t := hall
  exact {
    lookup := fun t => lookup_bindAll hhas t _
    same := fun t ht id' hid' => absurd hid' (hnone t ht id')
    arrays := .inr ⟨hnone, rfl, arrays_bindAll _ _ _⟩ }

/-- The first use of a name as an array: it fails if there is a scalar at the end of the way, and else joins all names
on the way. -/
theorem arrayAt_of_leads (hs : s.Scoped) (hslot : s.Has slot) (h : s.Leads slot way last) :
    (∃ v, s.lookup last = some (.scalar v)) ∧ s.arrayAt slot = .error (.scalarAsArray last.name) ∨
      (∀ v, s.lookup last ≠ some (.scalar v)) ∧
        ∃ id s', s.arrayAt slot = .ok (id, s') ∧ s.Joined (way ++ [last]) id s' := by
  have hall := h.has hs hslot
  have hrun := arrayAtFrom_of_leads hs h (Nat.lt_succ_of_le (Nat.le_succ_of_le hslot.rank_le))
  rw [← arrayAt] at hrun
  cases hlast : s.lookup last with
  | none =>
    rw [hlast] at hrun
    exact .inr ⟨by simp, _, _, hrun, h.joined_new hall (by simp [hlast])⟩
  | some b =>
    rw [hlast] at hrun
    cases b with
    | scalar v => exact .inl ⟨⟨v, rfl⟩, hrun⟩
    | array id =>
      have hway : ∀ t ∈ way, s.Has t := fun t ht => hall t (List.mem_append_left _ ht)
      exact .inr ⟨by simp, _, _, hrun, h.joined_old hway hlast⟩
    | untyped passed => exact .inr ⟨by simp, _, _, hrun, h.joined_new hall (by simp [hlast])⟩

/-- What a slot that was passed a name may be bound to later on: to that name, to a scalar, or to an array, and then the
name is bound to the same array. -/
def Follows (s : Store) (slot : Slot) (passed : Option Slot) : Prop :=
  s.lookup slot = some (.untyped passed) ∨ (∃ v, s.lookup slot = some (.scalar v)) ∨
    ∃ id, s.lookup slot = some (.array id) ∧ ∀ next ∈ passed, s.lookup next = some (.array id)

/-- How far the search may go makes no difference, for it comes to an end before. -/
theorem arrayAtFrom_eq_arrayAt (hs : s.Scoped) (hslot : s.Has slot) {fuel : Nat} (hfuel : s.calls.size < fuel) :
    s.arrayAtFrom fuel (some slot) = s.arrayAt slot := by
  obtain ⟨way, last, hleads⟩ := hs.exists_leads slot
  rw [arrayAt, arrayAtFrom_of_leads hs hleads (Nat.lt_of_le_of_lt hslot.rank_le hfuel),
    arrayAtFrom_of_leads hs hleads (Nat.lt_succ_of_le (Nat.le_succ_of_le hslot.rank_le))]

/-- What follows an array, and is no scalar, stands for this array. -/
theorem arrayAt_of_follows (hs : s.Scoped) (hslot : s.Has slot) {next : Slot} {id : Nat}
    (h : s.Follows slot (some next)) (hnext : s.lookup next = some (.array id))
    (hscalar : ∀ v, s.lookup slot ≠ some (.scalar v)) :
    ∃ s', s.arrayAt slot = .ok (id, s') := by
  rcases h with huntyped | ⟨v, hv⟩ | ⟨id', hid', hfollowed⟩
  · have hleads : s.Leads slot [slot] next := .passed huntyped (.here (by simp [hnext]))
    rcases arrayAt_of_leads hs hslot hleads with ⟨⟨v, hv⟩, -⟩ | ⟨-, id', s', hrun, hjoined⟩
    · rw [hnext] at hv
      cases hv
    · have hid := hjoined.same next (by simp) id hnext
      exact ⟨s', hid ▸ hrun⟩
  · exact absurd hv (hscalar v)
  · have hid := (hfollowed next rfl).symm.trans hnext
    cases hid
    exact ⟨s, by rw [arrayAt, arrayAtFrom, hid']⟩

/-- A name becomes an array together with the name that it refers to. -/
theorem follows_arrayAt (hs : s.Scoped) (hslot : s.Has slot) {id : Nat} (h : s.arrayAt slot = .ok (id, s'))
    {passed : Option Slot} (hbound : s.lookup slot' = some (.untyped passed)) : s'.Follows slot' passed := by
  obtain ⟨way, last, hleads⟩ := hs.exists_leads slot
  rcases arrayAt_of_leads hs hslot hleads with ⟨-, hfails⟩ | ⟨-, id', s'', hrun, hjoined⟩
  · rw [hfails] at h
    cases h
  · rw [hrun] at h
    cases h
    by_cases hmem : slot' ∈ way ++ [last]
    · refine .inr (.inr ⟨id, by rw [hjoined.lookup, if_pos hmem], ?_⟩)
      rintro next rfl
      rcases List.mem_append.1 hmem with hway | hlast
      · obtain ⟨next', hnext', hrefers⟩ := hleads.refers slot' hway
        rw [hbound] at hrefers
        cases hrefers
        rw [hjoined.lookup, if_pos hnext']
      · exact absurd (List.mem_singleton.1 hlast ▸ hbound) (hleads.last_refers next)
    · exact .inl (by rw [hjoined.lookup, if_neg hmem, hbound])

/-- What a slot follows it goes on to follow where kinds are kept. -/
theorem Follows.step {passed : Option Slot} (h : s.Follows slot passed) (halters : s.Alters s')
    (huntyped : s.lookup slot = some (.untyped passed) → s'.Follows slot passed) : s'.Follows slot passed := by
  rcases h with h | ⟨v, hv⟩ | ⟨id, hid, hnext⟩
  · exact huntyped h
  · obtain ⟨b', hb', hkept⟩ := halters.kept hv
    cases hkept
    exact .inr (.inl ⟨_, hb'⟩)
  · have harray {t : Slot} (ht : s.lookup t = some (.array id)) : s'.lookup t = some (.array id) := by
      obtain ⟨b', hb', hkept⟩ := halters.kept ht
      cases hkept
      exact hb'
    exact .inr (.inr ⟨id, harray hid, fun next hmem => harray (hnext next hmem)⟩)

theorem follows_congr {passed : Option Slot} (hslot : s'.lookup slot = s.lookup slot)
    (hpassed : ∀ next ∈ passed, s'.lookup next = s.lookup next) (h : s.Follows slot passed) :
    s'.Follows slot passed := by
  unfold Follows at h ⊢
  rw [hslot]
  refine h.imp_right (Or.imp_right ?_)
  rintro ⟨id, hid, hnext⟩
  exact ⟨id, hid, fun next hmem => (hpassed next hmem).trans (hnext next hmem)⟩

end Store

namespace Machine

variable {functions : List Function} {floor : Nat} {start m m' : Machine} {slot : Slot} {passed : Option Slot}

theorem Change.follows (h : m.Change m') (hs : m.store.Scoped) (hbound : m.store.lookup slot = some (.untyped passed)) :
    m'.store.Follows slot passed := by
  have hassigned {s : Store} {slot' : Slot} {v : Value}
      (hlookup : s.lookup slot = if slot = slot' then some (.scalar v) else m.store.lookup slot) :
      s.Follows slot passed := by
    split at hlookup
    · exact .inr (.inl ⟨v, hlookup⟩)
    · exact .inl (hlookup.trans hbound)
  cases h with
  | record _ act => exact .inl hbound
  | world _ act => exact .inl hbound
  | @assign _ slot' v store hslot hcount hset =>
    have hhas : m.store.Has slot' := hslot.elim .inl fun heq => heq ▸ m.store.has_slotOf slot'.name
    unfold Store.setScalar at hset
    split at hset
    · cases hset
    · cases hset
      exact hassigned (Store.lookup_bind hhas slot (.scalar v))
  | maintain _ hname v => exact hassigned (Store.lookup_bind (.inl rfl) slot (.scalar v))
  | array h => exact Store.follows_arrayAt hs (m.store.has_slotOf _) h hbound
  | element _ id a => exact .inl hbound
  | aside hstore => exact .inl (hstore ▸ hbound)

/-- A parameter follows the name that was passed for it for as long as its call is running. -/
theorem Path.follows (h : start.Path floor m) (hs : start.store.Scoped) (hfloor : floor ≤ start.store.calls.size)
    (hslot : slot.scope.rank ≤ floor) (hbound : start.store.lookup slot = some (.untyped passed)) :
    m.store.Follows slot passed := by
  have hpassed : ∀ next ∈ passed, next.scope.rank < slot.scope.rank := by
    rintro next rfl
    exact (hs.refers hbound).1
  induction h with
  | refl => exact .inl hbound
  | change h hchange ih =>
    have hscoped := h.scoped hs hfloor
    exact ih.step (hchange.alters hscoped) (hchange.follows hscoped)
  | @enter m f table h hf hparams htable ih =>
    have hsize := (h.keeps hs hfloor).2.2
    have hsame {t : Slot} (ht : t.scope.rank ≤ floor) : (m.enter table).store.lookup t = m.store.lookup t := by
      rw [Store.lookup, Machine.enter, Store.table_push _ _ (Nat.le_trans ht hsize)]
      rfl
    exact Store.follows_congr (hsame hslot)
      (fun next hmem => hsame (Nat.le_trans (Nat.le_of_lt (hpassed next hmem)) hslot)) ih
  | @leave m h hlt ih =>
    have hsame {t : Slot} (ht : t.scope.rank ≤ floor) : m.leave.store.lookup t = m.store.lookup t := by
      rw [Store.lookup, Machine.leave, Store.table_pop _ (.inl (Nat.lt_of_le_of_lt ht hlt))]
      rfl
    exact Store.follows_congr (hsame hslot)
      (fun next hmem => hsame (Nat.le_trans (Nat.le_of_lt (hpassed next hmem)) hslot)) ih

/-! ### Chains of calls -/

/-- The call that has the slot for a parameter was entered with it bound so, and is still running. -/
def EnteredWith (functions : List Function) (m : Machine) (slot : Slot) (b : Binding) : Prop :=
  ∃ (m₀ : Machine) (table : Table), (m₀.enter table).Reached functions ∧ slot.scope = .call m₀.store.calls.size ∧
    table.lookup slot.name = some b ∧ (m₀.enter table).Path slot.scope.rank m

namespace EnteredWith

variable {b : Binding}

theorem size_le (h : m.EnteredWith functions slot b) : slot.scope.rank ≤ m.store.calls.size := by
  obtain ⟨m₀, table, hreached, hscope, -, hpath⟩ := h
  have hentered : slot.scope.rank ≤ (m₀.enter table).store.calls.size := by
    rw [hscope]
    simp [Machine.enter, Store.push, Scope.rank]
  exact (hpath.keeps hreached.scoped hentered).2.2

/-- What was passed is followed as long as the call is running. -/
theorem follows (h : m.EnteredWith functions slot (.untyped passed)) : m.store.Follows slot passed := by
  obtain ⟨m₀, table, hreached, hscope, hlookup, hpath⟩ := h
  have hfloor : slot.scope.rank ≤ (m₀.enter table).store.calls.size := by
    rw [hscope]
    simp [Machine.enter, Store.push, Scope.rank]
  have hbound : (m₀.enter table).store.lookup slot = some (.untyped passed) := by
    rw [Machine.enter, Store.lookup_push, if_pos hscope, hlookup]
  exact hpath.follows hreached.scoped hfloor (Nat.le_refl _) hbound

theorem path (h : m.EnteredWith functions slot b) (hpath : m.Path m.store.calls.size m') :
    m'.EnteredWith functions slot b := by
  have hsize := h.size_le
  obtain ⟨m₀, table, hreached, hscope, hlookup, hentered⟩ := h
  exact ⟨m₀, table, hreached, hscope, hlookup, hentered.trans (hpath.mono hsize)⟩

/-- A parameter has become an array together with the name that was passed for it. -/
theorem lookup_passed {next : Slot} (h : m.EnteredWith functions slot (.untyped (some next))) {id : Nat}
    (hid : m.store.lookup slot = some (.array id)) : m.store.lookup next = some (.array id) := by
  rcases h.follows with huntyped | ⟨v, hv⟩ | ⟨id', hid', hfollowed⟩
  · rw [hid] at huntyped
    cases huntyped
  · rw [hid] at hv
    cases hv
  · rw [hid] at hid'
    cases hid'
    exact hfollowed next rfl

end EnteredWith

/-- A chain of calls: the parameter of one was passed the parameter of another, and so on down to a global, or to a
parameter for which nothing was passed.  The list has the names behind the first. -/
inductive Chain (functions : List Function) (m : Machine) : Slot → List Slot → Prop
  | global (name : Text) : Chain functions m ⟨.globals, name⟩ []
  | omitted {slot : Slot} (h : m.EnteredWith functions slot (.untyped none)) : Chain functions m slot []
  | passed {slot next : Slot} {rest : List Slot} (h : m.EnteredWith functions slot (.untyped (some next)))
    (hnext : Chain functions m next rest) : Chain functions m slot (next :: rest)

variable {rest : List Slot}

/-- The names of a chain up to the first that has a kind lead to it.  If it is an array then so are those behind it, for
each has become an array together with the next. -/
theorem Chain.leads (h : m.Chain functions slot rest) (hs : m.store.Scoped) :
    ∃ way last after, m.store.Leads slot way last ∧ slot :: rest = way ++ last :: after ∧
      ((∃ v, m.store.lookup last = some (.scalar v)) ∨
        (∃ id, m.store.lookup last = some (.array id) ∧ ∀ t ∈ after, m.store.lookup t = some (.array id)) ∨
        after = [] ∧ m.store.lookup last ∈ [none, some (.untyped none)]) := by
  induction h with
  | global name =>
    refine ⟨[], ⟨.globals, name⟩, [], .here fun next hnext => absurd hnext hs.globals, rfl, ?_⟩
    cases hbound : m.store.lookup ⟨.globals, name⟩ with
    | none => exact .inr (.inr ⟨rfl, by simp⟩)
    | some b =>
      cases b with
      | scalar v => exact .inl ⟨v, rfl⟩
      | array id => exact .inr (.inl ⟨id, rfl, List.forall_mem_nil _⟩)
      | untyped passed => exact absurd hbound hs.globals
  | @omitted slot h =>
    refine ⟨[], slot, [], ?_⟩
    rcases h.follows with huntyped | ⟨v, hv⟩ | ⟨id, hid, -⟩
    · exact ⟨.here (by simp [huntyped]), rfl, .inr (.inr ⟨rfl, by simp [huntyped]⟩)⟩
    · exact ⟨.here (by simp [hv]), rfl, .inl ⟨v, hv⟩⟩
    · exact ⟨.here (by simp [hid]), rfl, .inr (.inl ⟨id, hid, List.forall_mem_nil _⟩)⟩
  | @passed slot next rest h hnext ih =>
    obtain ⟨way, last, after, hleads, hsplit, hlast⟩ := ih
    rcases h.follows with huntyped | ⟨v, hv⟩ | ⟨id, hid, hfollowed⟩
    · exact ⟨slot :: way, last, after, .passed huntyped hleads, by rw [hsplit, List.cons_append], hlast⟩
    · exact ⟨[], slot, next :: rest, .here (by simp [hv]), rfl, .inl ⟨v, hv⟩⟩
    · have hnextid := hfollowed next rfl
      refine ⟨[], slot, next :: rest, .here (by simp [hid]), rfl, .inr (.inl ⟨id, hid, ?_⟩)⟩
      -- The next name is an array already, so nothing leads on from it.
      cases hleads with
      | passed hrefers =>
        rw [hnextid] at hrefers
        cases hrefers
      | here =>
        obtain ⟨-, rfl⟩ := List.cons.inj hsplit
        refine List.forall_mem_cons.2 ⟨hnextid, ?_⟩
        rcases hlast with ⟨v, hv⟩ | ⟨id', hid', hafter⟩ | ⟨rfl, -⟩
        · rw [hnextid] at hv
          cases hv
        · rw [hnextid] at hid'
          cases hid'
          exact hafter
        · exact List.forall_mem_nil _

theorem Chain.path (h : m.Chain functions slot rest) (hpath : m.Path m.store.calls.size m') :
    m'.Chain functions slot rest := by
  induction h with
  | global name => exact .global name
  | omitted h => exact .omitted (h.path hpath)
  | passed h _ ih => exact .passed (h.path hpath) ih

/-- A chain is one longer within a call to which its first name is passed. -/
theorem Chain.enter (h : m.Chain functions slot rest) {table : Table}
    (hpath : m.Path m.store.calls.size (m.enter table)) (hreached : (m.enter table).Reached functions) {name : Text}
    (hlookup : table.lookup name = some (.untyped (some slot))) :
    (m.enter table).Chain functions ⟨.call m.store.calls.size, name⟩ (slot :: rest) :=
  .passed ⟨m, table, hreached, rfl, hlookup, .refl⟩ (h.path hpath)

/-- The first use of a chain as an array: it fails at a scalar, and without one joins the whole chain. -/
theorem Chain.arrayAt (h : m.Chain functions slot rest) (hs : m.store.Scoped) (hslot : m.store.Has slot) :
    (∃ t ∈ slot :: rest, (∃ v, m.store.lookup t = some (.scalar v)) ∧
        m.store.arrayAt slot = .error (.scalarAsArray t.name)) ∨
      (∀ t ∈ slot :: rest, ∀ v, m.store.lookup t ≠ some (.scalar v)) ∧
        ∃ id store, m.store.arrayAt slot = .ok (id, store) ∧ m.store.Joined (slot :: rest) id store := by
  obtain ⟨way, last, after, hleads, hsplit, hlast⟩ := h.leads hs
  have hchain : slot :: rest = (way ++ [last]) ++ after := by rw [hsplit, List.append_assoc, List.singleton_append]
  have hmem : last ∈ way ++ [last] := by simp
  rw [hchain]
  rcases Store.arrayAt_of_leads hs hslot hleads with ⟨hscalar, hrun⟩ | ⟨hscalar, id, store, hrun, hjoined⟩
  · exact .inl ⟨last, List.mem_append_left _ hmem, hscalar, hrun⟩
  · have hnoscalar : ∀ t ∈ way ++ [last], ∀ v, m.store.lookup t ≠ some (.scalar v) := by
      intro t ht v hv
      rcases List.mem_append.1 ht with ht | ht
      · obtain ⟨next, -, hnext⟩ := hleads.refers t ht
        rw [hnext] at hv
        cases hv
      · exact hscalar v (List.mem_singleton.1 ht ▸ hv)
    rcases hlast with ⟨v, hv⟩ | ⟨id', hid', hafter⟩ | ⟨rfl, -⟩
    · exact absurd hv (hscalar v)
    · have hid : id' = id := hjoined.same last hmem id' hid'
      subst hid
      refine .inr ⟨fun t ht v hv => ?_, id', store, hrun, hjoined.append hmem hid' hafter⟩
      rcases List.mem_append.1 ht with ht | ht
      · exact hnoscalar t ht v hv
      · rw [hafter t ht] at hv
        cases hv
    · rw [List.append_nil]
      exact .inr ⟨hnoscalar, id, store, hrun, hjoined⟩

end Machine

namespace Eval

variable {functions : List Function} {m : Machine} {name : Text} {slot : Slot} {rest : List Slot}

theorem run_arrayNamed_eq (m : Machine) (name : Text) :
    (arrayNamed name).run m = match m.store.arrayAt (m.store.slotOf name) with
      | .ok (id, store) => (.ok id, { m with store := store })
      | .error f => (.error (.failure ⟨f, none⟩), m) := by
  unfold arrayNamed slotOf
  simp only [Action.run_bind, Action.run_get, Action.run_pure]
  cases m.store.arrayAt (m.store.slotOf name) <;> rfl

/-- A name is passed as such, and not by value, where it has no kind. -/
theorem run_bindArgument_eq_untyped (eval : Evaluate) (token : Token) (m : Machine) :
    (bindArgument eval (.lvalue (.var token))).run m = (.ok (.untyped (some (m.store.slotOf token.text))), m) ↔
      m.store.lookup (m.store.slotOf token.text) = none ∧ isFieldCount (m.store.slotOf token.text) = false ∨
        ∃ passed, m.store.lookup (m.store.slotOf token.text) = some (.untyped passed) := by
  have hvalue (e : Expr) (passed : Option Slot) :
      (do return .scalar (← eval e) : Eval Binding).run m ≠ (.ok (.untyped passed), m) := by
    rw [Action.run_bind]
    rcases (eval e).run m with ⟨i | v, m'⟩ <;> nofun
  unfold bindArgument slotOf
  simp only [Action.run_bind, Action.run_get, Action.run_pure]
  cases hbound : m.store.lookup (m.store.slotOf token.text) with
  | none =>
    cases hcount : isFieldCount (m.store.slotOf token.text) with
    | true => simpa using hvalue _ _
    | false => simp
  | some b =>
    cases b with
    | scalar v => simpa using hvalue _ _
    | array id =>
      refine ⟨fun h => ?_, by simp⟩
      cases h
    | untyped passed => simp

/-- In every state that a run comes by, the first use of a name as an array comes to an end, however far the name has
been passed down a chain of calls, and whatever has been done since.  If no name of the chain is bound to a scalar then
it binds them all to one array, to that which one of them was bound to before, or else to a new and empty one, and no
other name; if one of them is then it is a type error and changes nothing.  Names that are passed the same name get the
same array.  A chain grows by a call to which its first name is passed as such, which is done if it has no kind. -/
theorem chain_resolves (hm : m.Reached functions) (hslot : m.store.slotOf name = slot)
    (hchain : m.Chain functions slot rest) :
    (∀ fuel > m.store.calls.size, m.store.arrayAtFrom fuel (some slot) = m.store.arrayAt slot) ∧
      ((∀ t ∈ slot :: rest, ∀ v, m.store.lookup t ≠ some (.scalar v)) →
        ∃ id store, (arrayNamed name).run m = (.ok id, { m with store := store }) ∧
          m.store.Joined (slot :: rest) id store) ∧
      ((∃ t ∈ slot :: rest, ∃ v, m.store.lookup t = some (.scalar v)) →
        ∃ t ∈ slot :: rest, (∃ v, m.store.lookup t = some (.scalar v)) ∧
          (arrayNamed name).run m = (.error (.failure ⟨.scalarAsArray t.name, none⟩), m)) ∧
      (∀ {name' next id m₁ m₂}, m.EnteredWith functions slot (.untyped (some next)) →
        m.EnteredWith functions (m.store.slotOf name') (.untyped (some next)) →
        (arrayNamed name).run m = (.ok id, m₁) → m₁.WalksTo m₂ →
        (∀ v, m₂.store.lookup (m.store.slotOf name') ≠ some (.scalar v)) →
        ∃ m₃, (arrayNamed name').run m₂ = (.ok id, m₃)) ∧
      (∀ fuel token, token.text = name →
        ((bindArgument (expr fuel) (.lvalue (.var token))).run m = (.ok (.untyped (some slot)), m) ↔
          m.store.lookup slot = none ∧ isFieldCount slot = false ∨
            ∃ passed, m.store.lookup slot = some (.untyped passed))) ∧
      ∀ {fuel args table m₁ param f}, f ∈ functions →
        (bindArguments (expr fuel) f.params args).run m = (.ok table, m₁) →
        (m₁.enter table).Reached functions ∧
          (table.lookup param = some (.untyped none) →
            (m₁.enter table).Chain functions ⟨.call m.store.calls.size, param⟩ []) ∧
          (table.lookup param = some (.untyped (some slot)) →
            (m₁.enter table).Chain functions ⟨.call m.store.calls.size, param⟩ (slot :: rest)) := by
  have hs := hm.scoped
  have hhas : m.store.Has slot := hslot ▸ m.store.has_slotOf name
  have huse := hchain.arrayAt hs hhas
  have hrun := run_arrayNamed_eq m name
  rw [hslot] at hrun
  refine ⟨fun fuel hfuel => Store.arrayAtFrom_eq_arrayAt hs hhas hfuel, fun hnone => ?_, fun hscalar => ?_, ?_, ?_, ?_⟩
  · rcases huse with ⟨t, ht, ⟨v, hv⟩, -⟩ | ⟨-, id, store, harray, hjoined⟩
    · exact absurd hv (hnone t ht v)
    · exact ⟨id, store, by rw [hrun, harray], hjoined⟩
  · obtain ⟨t, ht, v, hv⟩ := hscalar
    rcases huse with ⟨t', ht', hscalar, harray⟩ | ⟨hnone, -⟩
    · exact ⟨t', ht', hscalar, by rw [hrun, harray]⟩
    · exact absurd hv (hnone t ht v)
  · intro name' next id m₁ m₂ hentered hentered' hfirst hwalk hscalar
    have hwalk₁ : m.WalksTo m₁ := by simpa [hfirst] using walks_arrayNamed name m hs
    have hwalk₂ := hwalk₁.trans hwalk
    obtain ⟨b, hb, hkept⟩ := (hwalk.path.keeps (hwalk₁.scoped hs) (Nat.le_refl _)).1.kept
      (Nat.le_trans hhas.rank_le (Nat.le_of_eq hwalk₁.depth.symm)) (hslot ▸ lookup_of_arrayNamed hs hfirst)
    cases hkept
    have hnext := (hentered.path hwalk₂.path).lookup_passed hb
    have hslot' := hwalk₂.slotOf_eq hs name'
    have hhas' : m₂.store.Has (m.store.slotOf name') := hslot' ▸ m₂.store.has_slotOf name'
    obtain ⟨store, harray⟩ :=
      Store.arrayAt_of_follows (hwalk₂.scoped hs) hhas' (hentered'.path hwalk₂.path).follows hnext hscalar
    exact ⟨_, by rw [run_arrayNamed_eq, hslot', harray]⟩
  · intro fuel token htoken
    rw [← hslot, ← htoken]
    exact run_bindArgument_eq_untyped (expr fuel) token m
  · intro fuel args table m₁ param f hf hbound
    obtain ⟨hwalk, hparams, htable⟩ := enters_of_bindArguments (walks_eval fuel).expr hs hbound
    have hreached₁ := hm.path hwalk.path
    have hentered (floor : Nat) : m₁.Path floor (m₁.enter table) :=
      .enter .refl (hreached₁.functions_eq.symm ▸ hf) hparams htable
    have hreached := hreached₁.path (hentered 0)
    rw [← hwalk.depth]
    exact ⟨hreached, fun hlookup => .omitted ⟨m₁, table, hreached, rfl, hlookup, .refl⟩,
      fun hlookup => (hchain.path hwalk.path).enter (hentered _) hreached hlookup⟩

/-- A function of one parameter, and one of two. -/
def passers : List Function :=
  [⟨['f'], [['a']], .empty ⟨1, 1, 0, 0⟩⟩, ⟨['g'], [['b'], ['c']], .empty ⟨1, 1, 0, 0⟩⟩]

/-- A name as an argument. -/
def nameArgument (name : Text) : Expr := .lvalue (.var ⟨.name, name, ⟨1, 1, 0, 1⟩⟩)

def passerStart : Machine := .start (.start .empty [] [] 0) passers [] []

/-- A name that is bound to nothing passed to the first. -/
def onceTable : Table := [(['a'], .untyped (some ⟨.globals, ['x']⟩))]

def passedOnce : Machine := passerStart.enter onceTable

/-- The parameter of the first passed to the second twice. -/
def twiceTable : Table := [(['b'], .untyped (some ⟨.call 0, ['a']⟩)), (['c'], .untyped (some ⟨.call 0, ['a']⟩))]

def passedTwice : Machine := passedOnce.enter twiceTable

theorem chain_resolves_nested : ∃ m, (arrayNamed ['b']).run passedTwice = (.ok 2, m) ∧
    passedTwice.store.Joined [⟨.call 1, ['b']⟩, ⟨.call 0, ['a']⟩, ⟨.globals, ['x']⟩] 2 m.store ∧
    ∃ m', (arrayNamed ['c']).run m = (.ok 2, m') := by
  have hstart : passerStart.Reached passers := ⟨_, [], [], .refl⟩
  have hx : passerStart.store.slotOf ['x'] = ⟨.globals, ['x']⟩ := rfl
  have hf : (bindArguments (expr 0) [['a']] [nameArgument ['x']]).run passerStart = (.ok onceTable, passerStart) := rfl
  obtain ⟨-, -, -, -, -, hcalls⟩ := chain_resolves hstart hx (.global _)
  obtain ⟨honce, -, hchain⟩ := hcalls List.mem_cons_self hf
  have ha : passedOnce.store.slotOf ['a'] = ⟨.call 0, ['a']⟩ := rfl
  have hg : (bindArguments (expr 0) [['b'], ['c']] [nameArgument ['a'], nameArgument ['a']]).run passedOnce =
      (.ok twiceTable, passedOnce) := rfl
  obtain ⟨-, -, -, -, -, hcalls⟩ := chain_resolves honce ha (hchain rfl)
  obtain ⟨htwice, -, hchain⟩ := hcalls (List.mem_cons_of_mem _ List.mem_cons_self) hg
  have hb : passedTwice.store.slotOf ['b'] = ⟨.call 1, ['b']⟩ := rfl
  obtain ⟨-, hjoins, -, htogether, -, -⟩ := chain_resolves htwice hb (hchain rfl)
  have hunused : ∀ t ∈ [⟨.call 1, ['b']⟩, ⟨.call 0, ['a']⟩, ⟨.globals, ['x']⟩], ∀ v,
      passedTwice.store.lookup t ≠ some (.scalar v) := by
    simp only [List.forall_mem_cons]
    exact ⟨nofun, nofun, nofun, List.forall_mem_nil _⟩
  obtain ⟨id, store, hrun, hjoined⟩ := hjoins hunused
  have hid : id = 2 := by
    cases hrun
    rfl
  subst hid
  have hpassed (name : Text) (h : twiceTable.lookup name = some (.untyped (some ⟨.call 0, ['a']⟩))) :
      passedTwice.EnteredWith passers ⟨.call 1, name⟩ (.untyped (some ⟨.call 0, ['a']⟩)) :=
    ⟨passedOnce, twiceTable, htwice, rfl, h, .refl⟩
  have hc : ∀ v, store.lookup ⟨.call 1, ['c']⟩ ≠ some (.scalar v) := by
    rw [hjoined.lookup, if_neg (by decide)]
    exact nofun
  exact ⟨_, hrun, hjoined, htogether (hpassed ['b'] rfl) (hpassed ['c'] rfl) hrun (.refl _) hc⟩

end Eval

end Awk
