import Awk.Machine.Run
import Awk.Proofs.Machine.Bindings

/-!
# The course of evaluations, change by change

Whatever is evaluated, the state of the run changes in a few ways only (`Machine.Change`), and calls are entered and
left.  A path is a sequence of such steps along which a number of the outermost calls, the floor, keep running
(`Machine.Path`).  Along a path the bindings of these calls are kept (`Path.keeps`).  An action walks if it comes by
some path to a state with as many running calls (`Eval.Walks`); here are the actions that evaluate no expressions.
-/

namespace Awk

namespace Machine

/-- Enter a call with its parameters bound. -/
def enter (m : Machine) (table : Table) : Machine := { m with store := m.store.push table }

/-- Leave the innermost call. -/
def leave (m : Machine) : Machine := { m with store := m.store.pop }

/-- What a run changes at a time. -/
inductive Change : Machine → Machine → Prop
  | record {α : Type} (m : Machine) (act : Variables → Record.Action α) :
    Change m { m with record := ((act m.scalars).run m.record).2 }
  | world {α : Type} (m : Machine) (act : World.Action α) : Change m { m with world := (act.run m.world).2 }
  /-- A scalar is assigned to a name as it is found from within the innermost call, or to a global. -/
  | assign {m : Machine} {slot : Slot} {v : Value} {store : Store}
    (hslot : slot.scope = .globals ∨ slot = m.store.slotOf slot.name) (hcount : Eval.isFieldCount slot = false)
    (h : m.store.setScalar slot v = .ok store) : Change m { m with store := store }
  | maintain (m : Machine) {name : String} (hname : name ∈ Store.maintained) (v : Value) :
    Change m { m with store := m.store.setGlobal name.toList v }
  /-- A name is used as an array, as it is found from within the innermost call. -/
  | array {m : Machine} {name : Text} {id : Nat} {store : Store}
    (h : m.store.arrayAt (m.store.slotOf name) = .ok (id, store)) : Change m { m with store := store }
  | element (m : Machine) (id : Nat) (a : Assoc) : Change m { m with store := m.store.setArray id a }
  | aside {m m' : Machine} (hstore : m'.store = m.store) (hrecord : m'.record = m.record) (hworld : m'.world = m.world)
    (hfunctions : m'.functions = m.functions) : Change m m'

/-- A way from one state to another along which the outermost calls, as many as the floor says, keep running. -/
inductive Path (floor : Nat) (start : Machine) : Machine → Prop
  | refl : Path floor start start
  | change {m m' : Machine} (h : Path floor start m) (hchange : m.Change m') : Path floor start m'
  | enter {m : Machine} {f : Function} {table : Table} (h : Path floor start m) (hf : f ∈ m.functions)
    (hparams : table.map Prod.fst = f.params)
    (htable : ∀ {name slot}, table.lookup name = some (.untyped (some slot)) → m.store.Has slot) :
    Path floor start (m.enter table)
  | leave {m : Machine} (h : Path floor start m) (hfloor : floor < m.store.calls.size) : Path floor start m.leave

variable {floor floor' : Nat} {start m m' : Machine}

theorem Path.of_change (h : m.Change m') : m.Path floor m' := .change .refl h

theorem Path.mono (hfloor : floor' ≤ floor) (h : start.Path floor m) : start.Path floor' m := by
  induction h with
  | refl => exact .refl
  | change h hchange ih => exact ih.change hchange
  | enter h hf hparams htable ih => exact ih.enter hf hparams htable
  | leave h hlt ih => exact ih.leave (Nat.lt_of_le_of_lt hfloor hlt)

theorem Path.trans (h : start.Path floor m) (h' : m.Path floor m') : start.Path floor m' := by
  induction h' with
  | refl => exact h
  | change h' hchange ih => exact ih.change hchange
  | enter h' hf hparams htable ih => exact ih.enter hf hparams htable
  | leave h' hlt ih => exact ih.leave hlt

theorem Change.functions (h : m.Change m') : m'.functions = m.functions := by
  cases h with
  | aside hstore hrecord hworld hfunctions => exact hfunctions
  | _ => rfl

/-- What a single change does to the bindings. -/
theorem Change.alters (h : m.Change m') (hs : m.store.Scoped) : m.store.Alters m'.store := by
  cases h with
  | record _ act => exact .of_eq rfl rfl
  | world _ act => exact .of_eq rfl rfl
  | assign hslot hcount h => exact Store.alters_setScalar hslot h
  | maintain _ hname v => exact Store.alters_setGlobal hs hname v
  | array h => exact Store.alters_arrayAt hs (m.store.has_slotOf _) h
  | element _ id a => exact m.store.alters_setArray id a
  | aside hstore => exact .of_eq (by rw [hstore]) (by rw [hstore])

theorem Path.functions (h : start.Path floor m) : m.functions = start.functions := by
  induction h with
  | refl => rfl
  | change h hchange ih => exact hchange.functions.trans ih
  | enter h hf hparams htable ih => exact ih
  | leave h hlt ih => exact ih

/-- Along a path the calls up to the floor keep running, with the names they had and what these are bound to. -/
theorem Path.keeps (h : start.Path floor m) (hs : start.store.Scoped) (hfloor : floor ≤ start.store.calls.size) :
    start.store.Keeps floor m.store ∧ m.store.Scoped ∧ floor ≤ m.store.calls.size := by
  induction h with
  | refl => exact ⟨.refl _ _, hs, hfloor⟩
  | change h hchange ih =>
    obtain ⟨hkeeps, hscoped, hsize⟩ := ih
    have halters := hchange.alters hscoped
    exact ⟨hkeeps.trans (halters.keeps hsize), hscoped.alters halters, halters.depth.symm ▸ hsize⟩
  | @enter m f table h hf hparams htable ih =>
    obtain ⟨hkeeps, hscoped, hsize⟩ := ih
    refine ⟨hkeeps.trans (Store.keeps_push table hsize), hscoped.push htable, ?_⟩
    exact Nat.le_trans hsize (by simp [Machine.enter, Store.push])
  | @leave m h hlt ih =>
    obtain ⟨hkeeps, hscoped, hsize⟩ := ih
    refine ⟨hkeeps.trans (Store.keeps_pop hlt), hscoped.pop, ?_⟩
    exact Nat.le_trans (Nat.le_sub_one_of_lt hlt) (by simp [Machine.leave, Store.pop])

theorem Path.scoped (h : start.Path floor m) (hs : start.store.Scoped) (hfloor : floor ≤ start.store.calls.size) :
    m.store.Scoped :=
  (h.keeps hs hfloor).2.1

/-- A path that ends with as many running calls as it has begun with, and comes by no state with fewer. -/
structure WalksTo (start m : Machine) : Prop where
  path : start.Path start.store.calls.size m
  depth : m.store.calls.size = start.store.calls.size

theorem WalksTo.refl (m : Machine) : m.WalksTo m := ⟨.refl, rfl⟩

theorem WalksTo.trans (h : start.WalksTo m) (h' : m.WalksTo m') : start.WalksTo m' :=
  ⟨h.path.trans (h.depth ▸ h'.path), h'.depth.trans h.depth⟩

theorem WalksTo.scoped (h : start.WalksTo m) (hs : start.store.Scoped) : m.store.Scoped := h.path.scoped hs (Nat.le_refl _)

theorem WalksTo.of_change (h : m.Change m') (hs : m.store.Scoped) : m.WalksTo m' := ⟨.of_change h, (h.alters hs).depth⟩

/-- A slot that can be bound stays one. -/
theorem WalksTo.has (h : start.WalksTo m) (hs : start.store.Scoped) {slot : Slot} (hslot : start.store.Has slot) :
    m.store.Has slot := by
  refine hslot.imp_right fun hsome => ?_
  obtain ⟨b, hb⟩ := Option.isSome_iff_exists.1 hsome
  obtain ⟨b', hb', -⟩ := (h.path.keeps hs (Nat.le_refl _)).1.kept hslot.rank_le hb
  rw [hb']
  rfl

/-- A call is entered, runs and is left. -/
theorem WalksTo.call {f : Function} {table : Table} (hf : f ∈ m.functions) (hparams : table.map Prod.fst = f.params)
    (htable : ∀ {name slot}, table.lookup name = some (.untyped (some slot)) → m.store.Has slot)
    (h : (m.enter table).WalksTo m') : m.WalksTo m'.leave := by
  have hentered : (m.enter table).store.calls.size = m.store.calls.size + 1 := by simp [Machine.enter, Store.push]
  have hsize : m'.store.calls.size = m.store.calls.size + 1 := h.depth.trans hentered
  have hpath : (m.enter table).Path m.store.calls.size m' := h.path.mono (hentered ▸ Nat.le_succ _)
  refine ⟨((Path.refl.enter hf hparams htable).trans hpath).leave (by omega), ?_⟩
  simp [Machine.leave, Store.pop, hsize]

end Machine

namespace Eval

variable {α β : Type}

/-- From a scoped state, an action comes by some path to one with as many running calls, however it ends. -/
def Walks (act : Eval α) : Prop := ∀ m : Machine, m.store.Scoped → m.WalksTo (act.run m).2

namespace Walks

theorem pure {a : α} : Walks (Pure.pure a : Eval α) := fun _ _ => .refl _

theorem throw {i : Interruption} : Walks (MonadExcept.throw i : Eval α) := fun _ _ => .refl _

theorem get : Walks (MonadState.get : Eval Machine) := fun _ _ => .refl _

theorem andThen {act : Eval α} {f : α → Eval β} (hact : Walks act) (hf : ∀ a, Walks (f a)) : Walks (act >>= f) := by
  intro m hm
  have hwalk := hact m hm
  rw [Action.run_bind]
  revert hwalk
  rcases act.run m with ⟨i | a, m₁⟩
  · exact id
  · exact fun hwalk => hwalk.trans (hf a m₁ (hwalk.scoped hm))

/-- What neither the store, nor the record, the world or the functions are touched by. -/
theorem aside {f : Machine → Machine} (hstore : ∀ m, (f m).store = m.store) (hrecord : ∀ m, (f m).record = m.record)
    (hworld : ∀ m, (f m).world = m.world) (hfunctions : ∀ m, (f m).functions = m.functions) :
    Walks (modify f : Eval PUnit) :=
  fun m hm => .of_change (.aside (hstore m) (hrecord m) (hworld m) (hfunctions m)) hm

theorem modify {f : Machine → Machine} (h : ∀ m : Machine, m.Change (f m)) : Walks (modify f : Eval PUnit) :=
  fun m hm => .of_change (h m) hm

theorem fail {f : Fault} : Walks (Eval.fail f : Eval α) := throw

theorem ofExcept {x : Except Fault α} : Walks (Eval.ofExcept x) := by
  cases x with
  | ok a => exact pure
  | error f => exact fail

theorem onRecord {act : Variables → Record.Action α} : Walks (Eval.onRecord act) :=
  fun m hm => .of_change (.record m act) hm

theorem onWorld {act : World.Action α} : Walks (Eval.onWorld act) := fun m hm => .of_change (.world m act) hm

theorem located {act : Eval α} (span : Option Span) (h : Walks act) : Walks (Eval.located span act) := by
  intro m hm
  have hwalk := h m hm
  unfold Eval.located
  rw [ExceptT.run_mk]
  split
  · rename_i fault m' hrun
    rw [hrun] at hwalk
    exact hwalk
  · exact hwalk

theorem catching {act : Eval α} (h : Walks act) : Walks (Eval.catching act) := fun m hm => h m hm

end Walks

end Eval

end Awk
