import Awk.Proofs.Counting
import Awk.Proofs.Machine.Passing

/-!
# The length of what a parameter stands for

A parameter for which a name was passed stands for an array as soon as that name does, whichever way it has become one
(`Store.StandsFor`).  A loop over its keys finds this array, but its length is that of the array only if the parameter
has been bound to it itself, be it at the call or by a use of its own; otherwise it is zero (`Eval.length_eq_keys_iff`).
-/

namespace Awk

/-- The name is bound to the array, or refers to one that stands for it. -/
def Store.StandsFor (s : Store) (slot : Slot) (id : Nat) : Prop :=
  ∃ way last, s.Leads slot way last ∧ s.lookup last = some (.array id)

namespace Store

variable {s : Store} {slot next : Slot} {id : Nat}

theorem standsFor_of_lookup (h : s.lookup slot = some (.array id)) : s.StandsFor slot id :=
  ⟨[], slot, .here (by simp [h]), h⟩

theorem StandsFor.of_passed (h : s.StandsFor next id) (hslot : s.lookup slot = some (.untyped (some next))) :
    s.StandsFor slot id := by
  obtain ⟨way, last, hleads, hlast⟩ := h
  exact ⟨slot :: way, last, .passed hslot hleads, hlast⟩

/-- What is bound to an array stands for no other. -/
theorem StandsFor.eq_of_lookup (h : s.StandsFor slot id) {id' : Nat} (hslot : s.lookup slot = some (.array id')) :
    id' = id := by
  obtain ⟨way, last, hleads, hlast⟩ := h
  cases hleads with
  | here =>
    rw [hslot] at hlast
    exact Binding.array.inj (Option.some.inj hlast)
  | passed hrefers =>
    rw [hslot] at hrefers
    cases hrefers

/-- What a name stands for is found, and no array is made. -/
theorem StandsFor.arrayAt (h : s.StandsFor slot id) (hs : s.Scoped) (hslot : s.Has slot) :
    ∃ s', s.arrayAt slot = .ok (id, s') ∧ s'.arrays = s.arrays := by
  obtain ⟨way, last, hleads, hlast⟩ := h
  have hmem : last ∈ way ++ [last] := by simp
  rcases arrayAt_of_leads hs hslot hleads with ⟨⟨v, hv⟩, -⟩ | ⟨-, id', s', hrun, hjoined⟩
  · rw [hlast] at hv
    cases hv
  · have hid := hjoined.same last hmem id hlast
    rcases hjoined.arrays with ⟨-, harrays⟩ | ⟨hnone, -⟩
    · exact ⟨s', hid ▸ hrun, harrays⟩
    · exact absurd hlast (hnone last hmem id)

end Store

namespace Machine.EnteredWith

variable {functions : List Function} {m : Machine} {slot next : Slot} {id : Nat}

/-- A parameter for which an array was passed is bound to it. -/
theorem lookup_array (h : m.EnteredWith functions slot (.array id)) : m.store.lookup slot = some (.array id) := by
  obtain ⟨m₀, table, hreached, hscope, hlookup, hpath⟩ := h
  have hfloor : slot.scope.rank ≤ (m₀.enter table).store.calls.size := by
    rw [hscope]
    simp [Machine.enter, Store.push, Scope.rank]
  have hbound : (m₀.enter table).store.lookup slot = some (.array id) := by
    rw [Machine.enter, Store.lookup_push, if_pos hscope, hlookup]
  obtain ⟨b, hb, hkept⟩ := (hreached.keeps hfloor hpath).kept (Nat.le_refl _) hbound
  cases hkept
  exact hb

/-- A parameter for which a name was passed that stands for an array is bound to this array, or refers to the name as
before; or it has become a scalar for itself. -/
theorem standsFor (h : m.EnteredWith functions slot (.untyped (some next))) (hnext : m.store.StandsFor next id) :
    (∃ v, m.store.lookup slot = some (.scalar v)) ∨ m.store.lookup slot = some (.array id) ∨
      m.store.lookup slot = some (.untyped (some next)) ∧ m.store.StandsFor slot id := by
  rcases h.follows with huntyped | hscalar | ⟨id', hid', hfollowed⟩
  · exact .inr (.inr ⟨huntyped, hnext.of_passed huntyped⟩)
  · exact .inl hscalar
  · exact .inr (.inl (hnext.eq_of_lookup (hfollowed next rfl) ▸ hid'))

end Machine.EnteredWith

namespace Eval

variable {functions : List Function} {m : Machine} {name : Text} {slot : Slot} {id : Nat}

theorem run_located_ok {α : Type} {act : Eval α} {a : α} {m' : Machine} (span : Option Span)
    (h : act.run m = (.ok a, m')) : (located span act).run m = (.ok a, m') := by
  unfold located
  rw [ExceptT.run_mk, h]

/-- The length of a name is looked up where the name is found, without regard to what has been passed for it. -/
theorem run_length (fuel : Nat) (span : Span) (mark token : Token) :
    (∀ id, m.store.lookup (m.store.slotOf token.text) = some (.array id) →
        (expr (fuel + 1) (.builtin span .length mark [.lvalue (.var token)])).run m =
          (.ok (.ofNat (m.store.array id).keys.length), m)) ∧
      ∀ passed, m.store.lookup (m.store.slotOf token.text) = some (.untyped passed) →
        (expr (fuel + 1) (.builtin span .length mark [.lvalue (.var token)])).run m = (.ok (.num .zero), m) := by
  have hlength (v : Value) (h : (length (expr fuel) [.lvalue (.var token)]).run m = (.ok v, m)) :
      (expr (fuel + 1) (.builtin span .length mark [.lvalue (.var token)])).run m = (.ok v, m) := by
    unfold expr
    exact run_located_ok _ h
  refine ⟨fun id h => hlength _ ?_, fun passed h => hlength _ ?_⟩
  · unfold length slotOf
    simp only [Action.run_bind, Action.run_get, Action.run_pure, h]
    rw [Assoc.keys, List.length_map]
    rfl
  · unfold length slotOf
    simp only [Action.run_bind, Action.run_get, Action.run_pure, h]

/-- A loop over the keys visits those of the array that the name stands for. -/
theorem run_forIn {store : Store} (fuel : Nat) (span : Span) (element : Token) {array : Token} (body : Stmt)
    (h : m.store.arrayAt (m.store.slotOf array.text) = .ok (id, store)) :
    (stmt (fuel + 1) (.forIn span element array body)).run m =
      (located (some span) (visit (stmt fuel body) element.text id (store.array id).keys)).run
        { m with store := store } := by
  have harray : (arrayNamed array.text).run m = (.ok id, { m with store := store }) := by rw [run_arrayNamed_eq, h]
  have hvisit : (do
      let id ← arrayNamed array.text
      visit (stmt fuel body) element.text id (← Eval.array id).keys : Eval Unit).run m =
        (visit (stmt fuel body) element.text id (store.array id).keys).run { m with store := store } := by
    rw [Action.run_bind, harray]
    rfl
  rw [stmt, located, located, ExceptT.run_mk, ExceptT.run_mk, hvisit]
  rfl

/-- In every state that a run comes by, a parameter for which an array was passed, or a name that stands for one by now,
either has been assigned a scalar, and then no loop can be over its keys, or a loop over its keys begins with those of
this array.  Its length is their number exactly if it is bound to the array itself or there are none: it is zero for a
parameter that refers to the array only by the name that was passed for it. -/
theorem length_eq_keys_iff (hm : m.Reached functions) (hslot : m.store.slotOf name = slot) {b : Binding}
    (hentered : m.EnteredWith functions slot b)
    (hpassed : b = .array id ∨ ∃ next, b = .untyped (some next) ∧ m.store.StandsFor next id) :
    IsScalar m name ∧ RefusesArray m name ∨
      (∃ store, store.arrays = m.store.arrays ∧ ∀ fuel span element array body, array.text = name →
        (stmt (fuel + 1) (.forIn span element array body)).run m =
          (located (some span) (visit (stmt fuel body) element.text id (m.store.array id).keys)).run
            { m with store := store }) ∧
      ∀ fuel span mark token, token.text = name →
        ∃ v, (expr (fuel + 1) (.builtin span .length mark [.lvalue (.var token)])).run m = (.ok v, m) ∧
          (v = .ofNat (m.store.array id).keys.length ↔
            m.store.lookup slot = some (.array id) ∨ (m.store.array id).keys = []) := by
  have hs := hm.scoped
  have hhas : m.store.Has slot := hslot ▸ m.store.has_slotOf name
  have hkinds : (∃ v, m.store.lookup slot = some (.scalar v)) ∨ m.store.lookup slot = some (.array id) ∨
      ∃ passed, m.store.lookup slot = some (.untyped passed) ∧ m.store.StandsFor slot id := by
    rcases hpassed with rfl | ⟨next, rfl, hnext⟩
    · exact .inr (.inl hentered.lookup_array)
    · exact (hentered.standsFor hnext).imp_right (Or.imp_right fun h => ⟨some next, h⟩)
  have hloop (hstands : m.store.StandsFor slot id) : ∃ store, store.arrays = m.store.arrays ∧
      ∀ fuel span element array body, array.text = name →
        (stmt (fuel + 1) (.forIn span element array body)).run m =
          (located (some span) (visit (stmt fuel body) element.text id (m.store.array id).keys)).run
            { m with store := store } := by
    obtain ⟨store, hrun, harrays⟩ := hstands.arrayAt hs hhas
    refine ⟨store, harrays, fun fuel span element array body harray => ?_⟩
    subst harray
    have hvisited := run_forIn fuel span element body (hslot.symm ▸ hrun)
    rwa [Store.array, harrays] at hvisited
  rcases hkinds with hscalar | harray | ⟨passed, huntyped, hstands⟩
  · have hname : IsScalar m name := by
      unfold IsScalar
      rwa [hslot]
    exact .inl ⟨hname, refusesArray hs hname⟩
  · refine .inr ⟨hloop (Store.standsFor_of_lookup harray), fun fuel span mark token htoken => ?_⟩
    subst htoken
    exact ⟨_, (run_length fuel span mark token).1 id (hslot.symm ▸ harray), by simp [harray]⟩
  · refine .inr ⟨hloop hstands, fun fuel span mark token htoken => ?_⟩
    subst htoken
    refine ⟨_, (run_length fuel span mark token).2 passed (hslot.symm ▸ huntyped), ?_⟩
    have hzero : Value.num .zero = .ofNat (m.store.array id).keys.length ↔ (m.store.array id).keys = [] := by
      rw [Value.ofNat, Value.num.injEq, eq_comm, Number.ofNat_eq_zero_iff, List.length_eq_zero_iff]
    simp [hzero, huntyped]

/-- An element of the global array whose name was passed for the parameter. -/
def passedElement : Expr :=
  .lvalue (.index ⟨1, 1, 0, 4⟩ ⟨.name, ['x'], ⟨1, 1, 0, 1⟩⟩ [.string ⟨.string, ['k'], ⟨1, 3, 2, 3⟩⟩] ⟨1, 3, 2, 3⟩)

/-- The state in which the name has become an array with this element. -/
def elementMade : Machine := ((expr 3 passedElement).run passedOnce).2

theorem reached_passedOnce : passedOnce.Reached passers := by
  have hstart : passerStart.Reached passers := ⟨_, [], [], .refl⟩
  have hentered : passerStart.Path 0 passedOnce := by
    refine .enter .refl List.mem_cons_self rfl fun {name slot} hlookup => ?_
    rw [onceTable, Table.lookup_cons] at hlookup
    split at hlookup
    · cases hlookup
      exact .inl rfl
    · cases hlookup
  exact hstart.path hentered

/-- The parameter is not yet bound to the array, so its length is not the number of its keys. -/
theorem length_eq_keys_iff_element : (elementMade.store.array 2).keys = [['k']] ∧
    ∃ v, (expr 1 (.builtin ⟨1, 1, 0, 1⟩ .length ⟨.builtin .length, [], ⟨1, 1, 0, 1⟩⟩ [nameArgument ['a']])).run
      elementMade = (.ok v, elementMade) ∧ v ≠ .ofNat (elementMade.store.array 2).keys.length := by
  have hreached := reached_passedOnce
  have hentered : passedOnce.EnteredWith passers ⟨.call 0, ['a']⟩ (.untyped (some ⟨.globals, ['x']⟩)) :=
    ⟨passerStart, onceTable, hreached, rfl, rfl, .refl⟩
  have hwalk : passedOnce.WalksTo elementMade := (walks_eval 3).expr passedElement passedOnce hreached.scoped
  have hx : elementMade.store.StandsFor ⟨.globals, ['x']⟩ 2 := Store.standsFor_of_lookup (by decide +kernel)
  have ha : elementMade.store.lookup ⟨.call 0, ['a']⟩ = some (.untyped (some ⟨.globals, ['x']⟩)) := by decide +kernel
  have hslot : elementMade.store.slotOf ['a'] = ⟨.call 0, ['a']⟩ := hwalk.slotOf_eq hreached.scoped ['a']
  have hkeys : (elementMade.store.array 2).keys = [['k']] := by decide +kernel
  rcases length_eq_keys_iff (hreached.path hwalk.path) hslot (hentered.path hwalk.path) (.inr ⟨_, rfl, hx⟩) with
    ⟨⟨v, hv⟩, -⟩ | ⟨-, hlength⟩
  · rw [hslot, ha] at hv
    cases hv
  · obtain ⟨v, hrun, hiff⟩ :=
      hlength 0 ⟨1, 1, 0, 1⟩ ⟨.builtin .length, [], ⟨1, 1, 0, 1⟩⟩ ⟨.name, ['a'], ⟨1, 1, 0, 1⟩⟩ rfl
    refine ⟨hkeys, v, hrun, fun hv => ?_⟩
    rcases hiff.1 hv with harray | hnone
    · rw [ha] at harray
      cases harray
    · rw [hkeys] at hnone
      cases hnone

/-- A program that makes an element by the global name, notes the length of the parameter for which this name was
passed, and counts the rounds of a loop over its keys. -/
def lengthSource : Text :=
  "function f(p) \x7b x[1]; n = length(p); for (k in p) c++ \x7d BEGIN \x7b f(x) \x7d".toList

/-- It notes no elements, and counts one round. -/
theorem length_of_passed_name : ∃ parts m, loadProgram lengthSource = .ok parts ∧
    (sequence (stmt 20) parts.begins).run (.start (.start .empty [] [] 0) parts.functions [] []) = (.ok (), m) ∧
    m.store.lookup ⟨.globals, ['n']⟩ = some (.scalar (.num .zero)) ∧
    m.store.lookup ⟨.globals, ['c']⟩ = some (.scalar (.num .one)) := by
  have htests : ((loadProgram lengthSource).toOption.map fun parts =>
      (sequence (stmt 20) parts.begins).run (.start (.start .empty [] [] 0) parts.functions [] [])).any (fun r =>
        r.1.isOk && decide (r.2.store.lookup ⟨.globals, ['n']⟩ = some (.scalar (.num .zero))) &&
          decide (r.2.store.lookup ⟨.globals, ['c']⟩ = some (.scalar (.num .one)))) = true := by
    decide +kernel
  obtain ⟨⟨ending, m⟩, hload, htests⟩ := (Option.any_eq_true _ _).1 htests
  obtain ⟨parts, hparts, hrun⟩ := Option.map_eq_some_iff.1 hload
  simp only [Bool.and_eq_true, decide_eq_true_eq] at htests
  obtain ⟨⟨hending, hlength⟩, hcount⟩ := htests
  cases ending with
  | error stop => cases hending
  | ok done => exact ⟨parts, m, Action.toOption_eq_some.1 hparts, hrun, hlength, hcount⟩

end Eval

end Awk
