import Awk.Proofs.Arrays.Allocated
import Awk.Proofs.Getline.MainInput
import Awk.Proofs.Machine.Lengths

/-!
# What `getline` changes

The three forms of `getline` fetch a record in different ways (`GetlineForm.fetch`), by which no more than the counters
and the name of the file are changed (`GetlineForm.Changes`), and keep it in the same way.  The target, with its
subscripts or its index, has its turn only when there is a record (`Keeps`).
-/

namespace Awk

/-! ### Keeping a record -/

/-- A record is kept in a target, or else becomes the current one: how the state changes. -/
inductive Keeps (eval : Evaluate) (t : Text) : Option LValue → Machine → Machine → Prop
  /-- It is cut by the separators of now. -/
  | record {m separator recordEnd} (hseparator : m.scalars.setting "FS" [' '] = .ok separator)
    (hend : m.scalars.setting "RS" ['\n'] = .ok recordEnd)
    (hfields : (Record.fields.run ⟨t, .strnum t, none, separator, recordEnd.isEmpty⟩).1 =
      (splitFields t separator recordEnd.isEmpty).map (·.map .strnum)) :
    Keeps eval t none m { m with record := ⟨t, .strnum t, none, separator, recordEnd.isEmpty⟩ }
  | variable {m name} (hname : Eval.isFieldCount (m.store.slotOf name.text) = false)
    (hscalar : ∀ id, m.store.lookup (m.store.slotOf name.text) ≠ some (.array id))
    (hnames : ∀ slot, (m.store.bind (m.store.slotOf name.text) (.scalar (.strnum t))).lookup slot =
      if slot = m.store.slotOf name.text then some (.scalar (.strnum t)) else m.store.lookup slot) :
    Keeps eval t (some (.var name)) m
      { m with store := m.store.bind (m.store.slotOf name.text) (.scalar (.strnum t)) }
  /-- The text says how many fields there are to be. -/
  | count {m name count record} (hname : Eval.isFieldCount (m.store.slotOf name.text) = true)
    (hcount : (Value.strnum t).toNumber.toInt = .ok count)
    (hrecord : (Record.setCount m.scalars count).run m.record = (.ok (), record)) :
    Keeps eval t (some (.var name)) m { m with record := record }
  /-- The array is there, if all are that names are bound to, as in each state that arises. -/
  | element {m span array subscripts place key m₁ id m₂}
    (hkey : (Eval.subscriptKey eval subscripts).run m = (.ok key, m₁))
    (harray : (Eval.arrayNamed array.text).run m₁ = (.ok id, m₂))
    (hallocated : m.store.Allocated → id < m₂.store.arrays.size)
    (hvalue : id < m₂.store.arrays.size →
      ((m₂.store.setArray id ((m₂.store.array id).insert key (.strnum t))).array id).get? key = some (.strnum t)) :
    Keeps eval t (some (.index span array subscripts place)) m
      { m₂ with store := m₂.store.setArray id ((m₂.store.array id).insert key (.strnum t)) }
  /-- The record is made anew, and has this field. -/
  | field {m span index v m₁ record} (hindex : (eval index).run m = (.ok v, m₁))
    (hrecord : (Record.setField m₁.scalars v.toInt (.strnum t)).run m₁.record = (.ok (), record))
    (hvalue : (Record.getField v.toInt).run record = (.ok (.strnum t), record)) :
    Keeps eval t (some (.field span index)) m { m₁ with record := record }

namespace Record

open Awk.Action

variable {vars : Variables} {r r' : Record}

theorem run_setText_ok {t : Text} (h : (setText vars t).run r = (.ok (), r')) :
    ∃ separator recordEnd, vars.setting "FS" [' '] = .ok separator ∧ vars.setting "RS" ['\n'] = .ok recordEnd ∧
      r' = ⟨t, .strnum t, none, separator, recordEnd.isEmpty⟩ := by
  unfold setText at h
  obtain ⟨_, r₁, hset, h⟩ := run_bind_eq_ok.1 h
  obtain ⟨separator, r₂, hfs, h⟩ := run_bind_eq_ok.1 h
  obtain ⟨hseparator, rfl⟩ := run_liftM_eq_ok.1 hfs
  obtain ⟨_, r₃, hnote, h⟩ := run_bind_eq_ok.1 h
  obtain ⟨recordEnd, r₄, hrs, h⟩ := run_bind_eq_ok.1 h
  obtain ⟨hend, rfl⟩ := run_liftM_eq_ok.1 hrs
  cases hset
  cases hnote
  cases h
  exact ⟨separator, recordEnd, hseparator, hend, rfl⟩

theorem le_length_of_padTo {values padded : List Value} {count : Nat} (h : padTo values count = .ok padded) :
    count ≤ padded.length := by
  obtain ⟨_, -, h⟩ := bind_eq_ok.1 h
  cases h
  rw [List.length_append, List.length_replicate]
  omega

theorem run_fields_of_split {values : List Value} (h : r.split = some values) : fields.run r = (.ok values, r) := by
  simp only [fields, run_bind, run_get, h, run_pure]

/-- Fields that have not been cut yet are those of the text. -/
theorem fields_of_uncut (h : r.split = none) :
    (fields.run r).1 = (splitFields r.text r.separator r.paragraph).map (·.map .strnum) := by
  simp only [fields, run_bind, run_get, h, run_liftM]
  cases splitFields r.text r.separator r.paragraph <;> rfl

/-- The text is made anew, and the fields stay. -/
theorem split_of_rebuild {values : List Value} (hsplit : r.split = some values)
    (h : (rebuild vars).run r = (.ok (), r')) : r'.split = some values := by
  obtain ⟨values', r₁, hfields, h⟩ := run_bind_eq_ok.1 h
  rw [run_fields_of_split hsplit] at hfields
  cases hfields
  obtain ⟨format, r₁, hformat, h⟩ := run_bind_eq_ok.1 h
  obtain ⟨-, rfl⟩ := run_liftM_eq_ok.1 hformat
  obtain ⟨separator, r₂, hseparator, h⟩ := run_bind_eq_ok.1 h
  obtain ⟨-, rfl⟩ := run_liftM_eq_ok.1 hseparator
  obtain ⟨texts, r₃, htexts, h⟩ := run_bind_eq_ok.1 h
  rw [run_mapM_liftM] at htexts
  obtain ⟨-, rfl⟩ := Prod.mk.inj htexts
  cases h
  exact hsplit

/-- A text that has been stored in a field is its value. -/
theorem getField_of_setField {index : Int} {t : Text} (h : (setField vars index (.strnum t)).run r = (.ok (), r')) :
    (getField index).run r' = (.ok (.strnum t), r') := by
  unfold setField at h
  unfold getField
  by_cases hzero : index = 0
  · rw [if_pos hzero] at h ⊢
    obtain ⟨format, r₁, -, h⟩ := run_bind_eq_ok.1 h
    obtain ⟨t', r₂, htext, h⟩ := run_bind_eq_ok.1 h
    cases htext
    obtain ⟨separator, recordEnd, -, -, rfl⟩ := run_setText_ok h
    rfl
  · rw [if_neg hzero] at h ⊢
    by_cases hneg : index < 0
    · rw [if_pos hneg] at h
      cases h
    · rw [if_neg hneg] at h
      dsimp only
      rw [if_neg hneg]
      obtain ⟨values, r₁, -, h⟩ := run_bind_eq_ok.1 h
      obtain ⟨padded, r₂, hpad, h⟩ := run_bind_eq_ok.1 h
      obtain ⟨_, r₃, hset, h⟩ := run_bind_eq_ok.1 h
      obtain ⟨hpadded, rfl⟩ := run_liftM_eq_ok.1 hpad
      cases hset
      -- There is room for the field now, and it is looked for where it was put.
      have hlength := le_length_of_padTo hpadded
      have hposition : index.toNat - 1 < padded.length := by omega
      have hsplit := split_of_rebuild rfl h
      rw [run_bind, run_fields_of_split hsplit]
      dsimp only
      rw [List.getElem?_set_self hposition]
      rfl

end Record

namespace Eval

open Awk.Action (run_bind_eq_ok)

variable {eval : Evaluate} {m m' : Machine} {t : Text}

theorem run_ofExcept_eq_ok {α : Type} {x : Except Fault α} {a : α} :
    (ofExcept x).run m = (.ok a, m') ↔ x = .ok a ∧ m = m' := by
  cases x with
  | error f =>
    constructor
    · intro h
      cases h
    · rintro ⟨h, -⟩
      cases h
  | ok b =>
    constructor
    · intro h
      cases h
      exact ⟨rfl, rfl⟩
    · rintro ⟨h, rfl⟩
      cases h
      rfl

theorem run_onRecord_ok {α : Type} {act : Variables → Record.Action α} {a : α}
    (h : (onRecord act).run m = (.ok a, m')) :
    ∃ record, (act m.scalars).run m.record = (.ok a, record) ∧ m' = { m with record := record } := by
  unfold onRecord at h
  rw [ExceptT.run_mk] at h
  generalize (act m.scalars).run m.record = ran at h
  obtain ⟨f | a', record⟩ := ran
  · cases h
  · cases h
    exact ⟨record, rfl, rfl⟩

/-- A slot is bound, or the number of fields set. -/
theorem assignSlot_cases {slot : Slot} {v u : Value} (h : (assignSlot slot v).run m = (.ok u, m')) :
    (isFieldCount slot = false ∧ (∀ id, m.store.lookup slot ≠ some (.array id)) ∧
        m' = { m with store := m.store.bind slot (.scalar v) }) ∨
      isFieldCount slot = true ∧ ∃ count record, v.toNumber.toInt = .ok count ∧
        (Record.setCount m.scalars count).run m.record = (.ok (), record) ∧ m' = { m with record := record } := by
  unfold assignSlot at h
  obtain ⟨m₀, m₁, hget, h⟩ := run_bind_eq_ok.1 h
  cases hget
  obtain ⟨store, m₁, hset, h⟩ := run_bind_eq_ok.1 h
  obtain ⟨hstore, rfl⟩ := run_ofExcept_eq_ok.1 hset
  split at h
  · rename_i hcounts
    obtain ⟨count, m₂, hwhole, h⟩ := run_bind_eq_ok.1 h
    obtain ⟨hcount, rfl⟩ := run_ofExcept_eq_ok.1 hwhole
    obtain ⟨_, m₃, hset, h⟩ := run_bind_eq_ok.1 h
    obtain ⟨record, hrecord, rfl⟩ := run_onRecord_ok hset
    cases h
    exact .inr ⟨hcounts, count, record, hcount, hrecord, rfl⟩
  · rename_i hcounts
    refine .inl ⟨Bool.eq_false_iff.2 hcounts, ?_⟩
    unfold Store.setScalar at hstore
    split at hstore
    · cases hstore
    · rename_i hscalar
      cases hstore
      cases h
      exact ⟨hscalar, rfl⟩

/-- An array that is found or made for a name is there. -/
theorem lt_of_arrayNamed {name : Text} {id : Nat} (hm : m.store.Allocated)
    (h : (arrayNamed name).run m = (.ok id, m')) : id < m'.store.arrays.size := by
  rw [run_arrayNamed_eq] at h
  cases hat : m.store.arrayAt (m.store.slotOf name) with
  | error f =>
    rw [hat] at h
    cases h
  | ok found =>
    rw [hat] at h
    cases h
    exact (hm.arrayAtFrom hat).2

/-- What a record is kept in, and how. -/
theorem keeps_of_keepRecord {target : Option LValue} (heval : ∀ e, Composed (eval e))
    (h : (keepRecord eval target t).run m = (.ok (), m')) : Keeps eval t target m m' := by
  unfold keepRecord at h
  cases target with
  | none =>
    obtain ⟨record, hset, rfl⟩ := run_onRecord_ok h
    obtain ⟨separator, recordEnd, hseparator, hend, rfl⟩ := Record.run_setText_ok hset
    exact .record hseparator hend (Record.fields_of_uncut rfl)
  | some target =>
    dsimp only at h
    obtain ⟨place, m₁, hplace, h⟩ := run_bind_eq_ok.1 h
    obtain ⟨v, m₂, hassign, h⟩ := run_bind_eq_ok.1 h
    cases h
    cases target with
    | var name =>
      cases hplace
      change (assignSlot (m.store.slotOf name.text) (.strnum t)).run m = _ at hassign
      rcases assignSlot_cases hassign with ⟨hname, hscalar, rfl⟩ | ⟨hname, count, record, hcount, hrecord, rfl⟩
      · exact .variable hname hscalar fun slot => Store.lookup_bind (m.store.has_slotOf _) slot _
      · exact .count hname hcount hrecord
    | index span array subscripts place' =>
      obtain ⟨key, m₃, hkey, hplace⟩ := run_bind_eq_ok.1 hplace
      obtain ⟨id, m₄, harray, hplace⟩ := run_bind_eq_ok.1 hplace
      cases hplace
      cases hassign
      refine .element hkey harray (fun hm => ?_) fun hid => ?_
      · have hm₃ := (composed_subscriptKey heval subscripts).allocated hm
        rw [hkey] at hm₃
        exact lt_of_arrayNamed hm₃ harray
      · rw [Store.array_setArray_self hid]
        exact (Assoc.get?_insert ..).trans (if_pos rfl)
    | field span index =>
      obtain ⟨i, m₃, hindex, hplace⟩ := run_bind_eq_ok.1 hplace
      cases hplace
      obtain ⟨_, m₄, hset, hassign⟩ := run_bind_eq_ok.1 hassign
      cases hassign
      obtain ⟨record, hrecord, rfl⟩ := run_onRecord_ok hset
      exact .field hindex hrecord (Record.getField_of_setField hrecord)

/-- Reading from a stream, or failing to open it, concerns the world only. -/
theorem world_of_readStream {kind : World.InputKind} {name : Text} {record : Option (Option Text)}
    (h : (readStream kind name).run m = (.ok record, m')) : ∃ w, m' = { m with world := w } := by
  unfold readStream at h
  obtain ⟨separator, m₁, hsetting, h⟩ := run_bind_eq_ok.1 h
  rw [run_setting_separator] at hsetting
  obtain ⟨-, rfl⟩ := Prod.mk.inj hsetting
  obtain ⟨outcome, m₂, hread, h⟩ := run_bind_eq_ok.1 h
  rw [run_onWorld, Action.run_observing] at hread
  obtain ⟨-, rfl⟩ := Prod.mk.inj hread
  split at h
  · cases h
    exact ⟨_, rfl⟩
  · obtain ⟨_, m₃, hwarn, h⟩ := run_bind_eq_ok.1 h
    obtain ⟨-, rfl⟩ := Prod.mk.inj hwarn
    cases h
    exact ⟨_, rfl⟩
  · cases h

/-- The next record of the stream that an expression names. -/
def readOperand (eval : Evaluate) (kind : World.InputKind) (e : Expr) : Eval (Option (Option Text)) := do
  readStream kind (← textOf (← eval e))

theorem alike_of_readOperand {kind : World.InputKind} {e : Expr} {record : Option (Option Text)}
    (hquiet : ∀ v m₁, (eval e).run m = (.ok v, m₁) → m.Alike m₁)
    (h : (readOperand eval kind e).run m = (.ok record, m')) : m.Alike m' := by
  obtain ⟨v, m₁, heval, h⟩ := run_bind_eq_ok.1 h
  obtain ⟨name, m₂, htext, h⟩ := run_bind_eq_ok.1 h
  rw [run_textOf] at htext
  obtain ⟨-, rfl⟩ := Prod.mk.inj htext
  obtain ⟨w, rfl⟩ := world_of_readStream h
  exact (hquiet v m₁ heval).trans (.of_eq rfl rfl)

end Eval

/-! ### The three forms -/

/-- A form of `getline`, by where it reads a record from: the main input, a file, or what a command prints. -/
inductive GetlineForm where
  | plain
  | file (name : Expr)
  | command (text : Expr)

namespace GetlineForm

open Awk.Action (run_bind_eq_ok)
open Eval (gotRecord gotNothing gotFailure nextRecord readOperand textOf countUp keepRecord evalWith expr)

/-- An expression of the form. -/
def toExpr (span : Span) (target : Option LValue) : GetlineForm → Expr
  | plain => .getline span target
  | file name => .getlineFile span target name
  | command text => .getlineCommand span text target

/-- The command is not one that the same expression has read from before. -/
def Unchained : GetlineForm → Prop
  | command (.getlineCommand ..) => False
  | _ => True

/-- Nobody sees that the name of the file, or the command, has been evaluated. -/
def Quiet (eval : Evaluate) (m : Machine) : GetlineForm → Prop
  | plain => True
  | file e | command e => ∀ v m₁, (eval e).run m = (.ok v, m₁) → m.Alike m₁

/-- What there is to read: a record, no more of them, or nothing that could be opened. -/
def fetch (eval : Evaluate) (fuel : Nat) : GetlineForm → Eval (Option (Option Text))
  | plain => do return some (← nextRecord fuel)
  | file name => readOperand eval .file name
  | command text => do
    let record ← readOperand eval .command text
    if record.join.isSome then countUp "NR"
    return record

/-- What is done with it, and the value of the expression. -/
def settle (eval : Evaluate) (target : Option LValue) : Option (Option Text) → Eval Value
  | none => return gotFailure
  | some none => return gotNothing
  | some (some t) => do
    keepRecord eval target t
    return gotRecord

variable {form : GetlineForm} {eval : Evaluate} {call : Call} {fuel : Nat} {span : Span} {target : Option LValue}

theorem getlineCommand_of_unchained {text : Expr} (h : (command text).Unchained) :
    Eval.getlineCommand eval text target = (do
      let name ← textOf (← eval text)
      return (name, ← Eval.readCommand eval name target)) := by
  unfold Eval.getlineCommand
  split
  · exact absurd h not_false
  · rfl

/-- Fetching comes first, and does not depend on the target. -/
theorem evalWith_toExpr (h : form.Unchained) :
    evalWith eval call fuel (form.toExpr span target) = (do settle eval target (← form.fetch eval fuel)) := by
  -- The two sides take the same steps, bracketed in another way, up to the record; then each kind of it is compared.
  cases form with
  | plain =>
    unfold toExpr evalWith Eval.getline fetch
    rw [bind_assoc]
    refine bind_congr fun record => ?_
    rw [pure_bind]
    cases record <;> rfl
  | file name =>
    unfold toExpr evalWith Eval.getlineFile fetch readOperand
    simp only [bind_assoc]
    refine bind_congr fun v => bind_congr fun t => bind_congr fun record => ?_
    rcases record with - | - | t <;> rfl
  | command text =>
    change (do return (← Eval.getlineCommand eval text target).2) = _
    rw [getlineCommand_of_unchained h]
    unfold Eval.readCommand fetch readOperand
    simp only [bind_assoc, pure_bind]
    refine bind_congr fun v => bind_congr fun t => bind_congr fun record => ?_
    rcases record with - | - | t
    · rfl
    · rfl
    · simp [settle]

/-! ### What has changed when a record has been fetched -/

/-- Names and the record are as they were, but for the counters, and the name of the file in the main input. -/
def Changes (got : Bool) (m m₁ : Machine) : GetlineForm → Prop
  | plain => m.Advances got m₁
  | file _ => m.Alike m₁
  | command _ => (if got then m.count "NR" else m).Alike m₁

/-- The counters when there is a record. -/
def Counts (m m₁ : Machine) : GetlineForm → Prop
  | plain => m₁.number "NR" = (m.number "NR").add .one ∧ (m.HasMore → m₁.number "FNR" = (m.number "FNR").add .one) ∧
      (¬m.HasMore → m₁.number "FNR" = .one)
  | file _ => m₁.number "NR" = m.number "NR" ∧ m₁.number "FNR" = m.number "FNR"
  | command _ => m₁.number "NR" = (m.number "NR").add .one ∧ m₁.number "FNR" = m.number "FNR"

variable {m m₁ m' : Machine} {got : Option (Option Text)}

theorem Changes.counts (h : form.Changes true m m₁) : form.Counts m m₁ := by
  cases form with
  | plain =>
    rcases h with ⟨hmore, halike⟩ | ⟨hmore, name, i, halike⟩
    · refine ⟨?_, fun _ => ?_, fun hnone => absurd hmore hnone⟩
      · rw [halike.number, Machine.number_count, if_neg (by decide), Machine.number_count, if_pos rfl]
      · rw [halike.number, Machine.number_count, if_pos rfl, Machine.number_count, if_neg (by decide)]
    · obtain ⟨htotal, hfile⟩ := m.number_begin name i
      refine ⟨?_, fun hsome => absurd hsome hmore, fun _ => ?_⟩
      · rw [halike.number, Machine.number_count, if_neg (by decide), Machine.number_count, if_pos rfl, htotal]
      · rw [halike.number, Machine.number_count, if_pos rfl, Machine.number_count, if_neg (by decide), hfile]
        decide +kernel
  | file name => exact ⟨Machine.Alike.number h _, Machine.Alike.number h _⟩
  | command text =>
    have halike : (m.count "NR").Alike m₁ := h
    refine ⟨?_, ?_⟩
    · rw [halike.number, Machine.number_count, if_pos rfl]
    · rw [halike.number, Machine.number_count, if_neg (by decide)]

theorem changes_of_fetch (hquiet : form.Quiet eval m) (h : (form.fetch eval fuel).run m = (.ok got, m₁))
    (hno : form = plain → m.NoAssignment m₁.mainInput.nextOperand) : form.Changes got.join.isSome m m₁ := by
  cases form with
  | plain =>
    obtain ⟨record, m₂, hnext, h⟩ := run_bind_eq_ok.1 h
    cases h
    exact Eval.advances_of_nextRecord hnext (hno rfl)
  | file name => exact Eval.alike_of_readOperand hquiet h
  | command text =>
    -- Counting comes after the reading, which has left the counter as it was.
    obtain ⟨record, m₂, hread, h⟩ := run_bind_eq_ok.1 h
    have halike := Eval.alike_of_readOperand hquiet hread
    split at h
    · rename_i hrecord
      cases h
      change (if got.join.isSome then m.count "NR" else m).Alike (m₂.count "NR")
      rw [if_pos hrecord]
      exact halike.count _
    · rename_i hrecord
      cases h
      change (if got.join.isSome then m.count "NR" else m).Alike m₁
      rw [if_neg hrecord]
      exact halike

open Eval in
/-- Names are bound to arrays that are there, still. -/
theorem allocated_fetch (heval : ∀ e, Composed (eval e)) (hm : m.store.Allocated)
    (h : (form.fetch eval fuel).run m = (.ok got, m₁)) : m₁.store.Allocated := by
  have hread (kind : World.InputKind) (e : Expr) : Composed (readOperand eval kind e) :=
    (heval e).andThen fun v => (composed_textOf v).andThen (composed_readStream kind)
  have hfetch : Composed (form.fetch eval fuel) := by
    cases form with
    | plain => exact (composed_nextRecord fuel).andThen fun _ => .pure
    | file name => exact hread .file name
    | command text =>
      refine (hread .command text).andThen fun record => ?_
      dsimp only
      split
      · exact (composed_countUp (by decide)).andThen fun _ => .pure
      · exact .pure
  have hallocated := hfetch.allocated hm
  rwa [h] at hallocated

/-- What becomes of it: a record is kept, and without one the target has no turn. -/
inductive Settles (eval : Evaluate) (target : Option LValue) : Option (Option Text) → Value → Machine → Machine → Prop
  | record {t : Text} {m m' : Machine} (h : Keeps eval t target m m') :
    Settles eval target (some (some t)) gotRecord m m'
  | nothing {m : Machine} : Settles eval target (some none) gotNothing m m
  | failure {m : Machine} : Settles eval target none gotFailure m m

theorem Settles.keeps {t : Text} {v : Value} (h : Settles eval target (some (some t)) v m m') :
    Keeps eval t target m m' := by
  cases h with
  | record hkeeps => exact hkeeps

theorem settles_of_settle {v : Value} (heval : ∀ e, Eval.Composed (eval e)) (h : (settle eval target got).run m = (.ok v, m')) :
    Settles eval target got v m m' := by
  rcases got with - | - | t
  · cases h
    exact .failure
  · cases h
    exact .nothing
  · obtain ⟨_, m₁, hkeep, h⟩ := run_bind_eq_ok.1 h
    cases h
    exact .record (Eval.keeps_of_keepRecord heval hkeep)

end GetlineForm

namespace Eval

open Awk.Action (run_bind_eq_ok)

variable {m m' : Machine} {form : GetlineForm} {fuel : Nat} {span : Span} {target : Option LValue} {v : Value}

theorem run_of_located_ok {α : Type} {act : Eval α} {a : α} {span : Option Span}
    (h : (located span act).run m = (.ok a, m')) : act.run m = (.ok a, m') := by
  unfold located at h
  rw [ExceptT.run_mk] at h
  generalize act.run m = ran at h ⊢
  split at h
  · cases h
  · exact h

/-- An expression of each form first tries to fetch a record, whatever its target.  In the main input no assignment may
have its turn on the way, and elsewhere the operand must be quiet; then no more than the counters and the name of the
file has changed so far, and the counters as documented.  Without a record this was all; with one, its text is kept.
Where names are bound to arrays that are there, as in every state that arises, they are so after the fetching too. -/
theorem getline_changes (hunchained : form.Unchained) (hquiet : form.Quiet (expr fuel) m)
    (h : (expr (fuel + 1) (form.toExpr span target)).run m = (.ok v, m')) :
    ∃ got m₁, (form.fetch (expr fuel) fuel).run m = (.ok got, m₁) ∧
      ((form = .plain → m.NoAssignment m₁.mainInput.nextOperand) →
        form.Changes got.join.isSome m m₁ ∧ (got.join.isSome → form.Counts m m₁)) ∧
      (m.store.Allocated → m₁.store.Allocated) ∧
      GetlineForm.Settles (expr fuel) target got v m₁ m' ∧
      (got.join = none → ∀ span' other, (expr (fuel + 1) (form.toExpr span' other)).run m = (.ok v, m')) := by
  unfold expr at h
  have hrun := run_of_located_ok h
  rw [GetlineForm.evalWith_toExpr hunchained] at hrun
  obtain ⟨got, m₁, hfetch, hsettle⟩ := run_bind_eq_ok.1 hrun
  have heval := (composed_eval fuel).expr
  refine ⟨got, m₁, hfetch, fun hno => ?_, fun hm => GetlineForm.allocated_fetch heval hm hfetch,
    GetlineForm.settles_of_settle heval hsettle, fun hgot span' other => ?_⟩
  · have hchanges := GetlineForm.changes_of_fetch hquiet hfetch hno
    refine ⟨hchanges, fun hsome => ?_⟩
    rw [hsome] at hchanges
    exact hchanges.counts
  · -- Another target makes another expression, but the same record is fetched for it, which is none.
    unfold expr
    refine run_located_ok _ ?_
    rw [GetlineForm.evalWith_toExpr hunchained]
    refine run_bind_eq_ok.2 ⟨got, m₁, hfetch, ?_⟩
    rcases got with - | - | t
    · exact hsettle
    · exact hsettle
    · cases hgot

/-- A record with two fields, a file without records and one with a record. -/
def reading (words : List String) : Machine :=
  { Machine.start (.start (.ofList [("e".toList, []), ("f".toList, "x y\n".toList)]) [] [] 0) [] []
      (words.map String.toList) with
    record := ⟨"a b".toList, .strnum "a b".toList, none, [' '], false⟩ }

def firstField : LValue := .field ⟨1, 1, 0, 1⟩ (.number ⟨.number, ['1'], ⟨1, 1, 0, 1⟩⟩)

/-- An element with an assignment to a counter for its subscript. -/
def numberedElement : LValue :=
  .index ⟨1, 1, 0, 1⟩ ⟨.name, ['a'], ⟨1, 1, 0, 1⟩⟩
    [.assign ⟨1, 1, 0, 1⟩ (.var ⟨.name, "NR".toList, ⟨1, 1, 0, 1⟩⟩) .set ⟨.assign, [], ⟨1, 1, 0, 1⟩⟩
      (.number ⟨.number, ['7'], ⟨1, 1, 0, 1⟩⟩)] ⟨1, 1, 0, 1⟩

/-- The file with the record. -/
def filled : GetlineForm := .file (.string ⟨.string, ['f'], ⟨1, 1, 0, 1⟩⟩)

/-- The record is the first of the second word's file, and becomes the first field; read from the file itself, it
becomes an element. -/
theorem getline_changes_twice :
    (∃ m₁ m', (expr 9 (GetlineForm.plain.toExpr ⟨1, 1, 0, 1⟩ (some firstField))).run (reading ["awk", "e", "f"]) =
        (.ok gotRecord, m') ∧
      GetlineForm.plain.Changes true (reading ["awk", "e", "f"]) m₁ ∧
      GetlineForm.plain.Counts (reading ["awk", "e", "f"]) m₁ ∧
      Keeps (expr 8) "x y".toList (some firstField) m₁ m') ∧
    ∃ m₁ m', (expr 9 (filled.toExpr ⟨1, 1, 0, 1⟩ (some numberedElement))).run (reading []) = (.ok gotRecord, m') ∧
      (reading []).Alike m₁ ∧ Keeps (expr 8) "x y".toList (some numberedElement) m₁ m' := by
  refine ⟨?_, ?_⟩
  · have hvalue : ((expr 9 (GetlineForm.plain.toExpr ⟨1, 1, 0, 1⟩ (some firstField))).run
        (reading ["awk", "e", "f"])).1.toOption = some gotRecord := by decide +kernel
    have hfetched : ((GetlineForm.plain.fetch (expr 8) 8).run (reading ["awk", "e", "f"])).1.toOption =
        some (some (some "x y".toList)) := by decide +kernel
    have hpassed : ((GetlineForm.plain.fetch (expr 8) 8).run (reading ["awk", "e", "f"])).2.mainInput.nextOperand =
        3 := by decide +kernel
    have hwords : ∀ k < 3, ((reading ["awk", "e", "f"]).wordText k).toOption.join.bind assignment? = none := by
      decide +kernel
    have hno : (reading ["awk", "e", "f"]).NoAssignment 3 := by
      intro k t _ hk ht
      have hword := hwords k hk
      rwa [ht] at hword
    have hunchained : GetlineForm.plain.Unchained := trivial
    have hquiet : GetlineForm.plain.Quiet (expr 8) (reading ["awk", "e", "f"]) := trivial
    have hrun := Action.run_eq_of_toOption hvalue
    obtain ⟨got, m₁, hfetch, hchanges, -, hsettles, -⟩ := getline_changes hunchained hquiet hrun
    rw [hfetch] at hfetched hpassed
    cases hfetched
    obtain ⟨hchanged, hcounted⟩ := hchanges fun _ => hpassed ▸ hno
    exact ⟨m₁, _, hrun, hchanged, hcounted rfl, hsettles.keeps⟩
  · have hvalue : ((expr 9 (filled.toExpr ⟨1, 1, 0, 1⟩ (some numberedElement))).run (reading [])).1.toOption =
        some gotRecord := by decide +kernel
    have hfetched : ((filled.fetch (expr 8) 8).run (reading [])).1.toOption = some (some (some "x y".toList)) := by
      decide +kernel
    have hunchained : filled.Unchained := trivial
    have hquiet : filled.Quiet (expr 8) (reading []) := by
      intro v m₁ h
      cases h
      exact .refl _
    have hrun := Action.run_eq_of_toOption hvalue
    obtain ⟨got, m₁, hfetch, hchanges, -, hsettles, -⟩ := getline_changes hunchained hquiet hrun
    rw [hfetch] at hfetched
    cases hfetched
    exact ⟨m₁, _, hrun, (hchanges nofun).1, hsettles.keeps⟩

def fileName : LValue := .var ⟨.name, "FILENAME".toList, ⟨1, 1, 0, 1⟩⟩

/-- A field brings the record with it, a file without records shows in a target that is the name of the file, and what
is done by a subscript is done. -/
theorem getline_changes_more :
    (∃ m', (expr 9 (filled.toExpr ⟨1, 1, 0, 1⟩ (some firstField))).run (reading []) = (.ok gotRecord, m') ∧
        m'.record.text = "x y b".toList ∧ (reading []).record.text = "a b".toList) ∧
      (∃ m', (expr 9 (GetlineForm.plain.toExpr ⟨1, 1, 0, 1⟩ (some fileName))).run (reading ["awk", "e"]) =
          (.ok gotNothing, m') ∧
        m'.store.global? "FILENAME".toList = some (.str "e".toList) ∧
        (reading ["awk", "e"]).store.global? "FILENAME".toList = some (.str [])) ∧
      ∃ m', (expr 9 (filled.toExpr ⟨1, 1, 0, 1⟩ (some numberedElement))).run (reading []) = (.ok gotRecord, m') ∧
        m'.number "NR" = .ofNat 7 ∧ (reading []).number "NR" = .zero := by
  have hfield : ((expr 9 (filled.toExpr ⟨1, 1, 0, 1⟩ (some firstField))).run (reading [])).1.toOption =
      some gotRecord := by decide +kernel
  have hname : ((expr 9 (GetlineForm.plain.toExpr ⟨1, 1, 0, 1⟩ (some fileName))).run
      (reading ["awk", "e"])).1.toOption = some gotNothing := by decide +kernel
  have helement : ((expr 9 (filled.toExpr ⟨1, 1, 0, 1⟩ (some numberedElement))).run (reading [])).1.toOption =
      some gotRecord := by decide +kernel
  refine ⟨⟨_, Action.run_eq_of_toOption hfield, ?_, rfl⟩,
    ⟨_, Action.run_eq_of_toOption hname, ?_, ?_⟩,
    ⟨_, Action.run_eq_of_toOption helement, ?_, ?_⟩⟩
  all_goals decide +kernel

end Eval

end Awk
