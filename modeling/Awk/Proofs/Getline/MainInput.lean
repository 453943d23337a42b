import Awk.Proofs.MainInput.Order

/-!
# What asking for a record changes

A record of the main input is asked for by the main loop and by `getline`.  If no operand that has its turn meanwhile
is an assignment, the program finds its variables and its record as they were, except for the counters and the name of
the file (`Machine.Advances`, `Eval.advances_of_nextRecord`).
-/

namespace Awk

/-- The record shows the same text, the same value and the same fields, which may have been cut meanwhile. -/
structure Record.Same (r r' : Record) : Prop where
  text : r'.text = r.text
  value : r'.value = r.value
  fields : (Record.fields.run r').1 = (Record.fields.run r).1

namespace Machine

/-- Names stand for what they stood for, and the record shows what it showed. -/
structure Alike (m m' : Machine) : Prop where
  globals : ∀ name, m'.store.globals.lookup name = m.store.globals.lookup name
  calls : m'.store.calls = m.store.calls
  arrays : m'.store.arrays = m.store.arrays
  record : m.record.Same m'.record

variable {m m' m₁ : Machine}

theorem Alike.of_eq (hstore : m'.store = m.store) (hrecord : m'.record = m.record) : m.Alike m' := by
  refine ⟨fun name => by rw [hstore], by rw [hstore], by rw [hstore], ?_⟩
  rw [hrecord]
  exact ⟨rfl, rfl, rfl⟩

theorem Alike.refl (m : Machine) : m.Alike m := .of_eq rfl rfl

theorem Alike.trans (h : m.Alike m₁) (h' : m₁.Alike m') : m.Alike m' where
  globals name := (h'.globals name).trans (h.globals name)
  calls := h'.calls.trans h.calls
  arrays := h'.arrays.trans h.arrays
  record := ⟨h'.record.text.trans h.record.text, h'.record.value.trans h.record.value,
    h'.record.fields.trans h.record.fields⟩

theorem Alike.global? (h : m.Alike m') (name : Text) : m'.store.global? name = m.store.global? name := by
  unfold Store.global?
  rw [h.globals name]

theorem Alike.number (h : m.Alike m') (name : String) : m'.number name = m.number name := by
  unfold Machine.number
  rw [h.global?]

theorem Alike.setGlobal (h : m.Alike m') (name : Text) (v : Value) :
    Alike { m with store := m.store.setGlobal name v } { m' with store := m'.store.setGlobal name v } where
  globals other := by rw [Store.globals_setGlobal, Store.globals_setGlobal, h.globals]
  calls := h.calls
  arrays := h.arrays
  record := h.record

theorem Alike.count (h : m.Alike m') (name : String) : (m.count name).Alike (m'.count name) := by
  have hnumber := h.number name
  unfold Machine.count
  rw [hnumber]
  exact h.setGlobal _ _

theorem Alike.begin (h : m.Alike m') (name : Text) (i i' : Input) : (m.begin name i).Alike (m'.begin name i') := by
  have hstore := (h.setGlobal "FILENAME".toList (.str name)).setGlobal "FNR".toList (.num .zero)
  exact ⟨hstore.globals, hstore.calls, hstore.arrays, hstore.record⟩

/-- Of files that are begun one after the other the last one shows. -/
theorem alike_begin_begin (m : Machine) (name name' : Text) (i i' : Input) :
    (m.begin name' i').Alike ((m.begin name i).begin name' i') := by
  refine ⟨fun other => ?_, rfl, rfl, ⟨rfl, rfl, rfl⟩⟩
  simp only [Machine.begin, Store.globals_setGlobal]
  by_cases hcount : other = "FNR".toList
  · rw [if_pos hcount, if_pos hcount]
  · by_cases hname : other = "FILENAME".toList
    · simp only [if_neg hcount, if_pos hname]
    · simp only [if_neg hcount, if_neg hname]

/-! ### The words -/

/-- What stands at a place of the array of words, as text under the present format. -/
def wordText (m : Machine) (k : Nat) : Except Fault (Option Text) :=
  match m.word k with
  | some v => do return some (← v.toText (← m.scalars.convfmt))
  | none => .ok none

/-- No word from the next one up to a place is an assignment. -/
def NoAssignment (m : Machine) (stop : Nat) : Prop :=
  ∀ k t, m.mainInput.nextOperand ≤ k → k < stop → m.wordText k = .ok (some t) → assignment? t = none

theorem Alike.wordText (h : m.Alike m') (k : Nat) : m'.wordText k = m.wordText k := by
  have hword : m'.word k = m.word k := by
    unfold word Store.array
    rw [h.globals, h.arrays]
  have hformat : m'.scalars.convfmt = m.scalars.convfmt := by
    unfold Variables.convfmt scalars
    rw [h.global?]
  unfold Machine.wordText
  rw [hword, hformat]

/-- The names stand for the same words when a file has been begun. -/
theorem wordText_begin (m : Machine) (name : Text) (i : Input) (k : Nat) :
    (m.begin name i).wordText k = m.wordText k := by
  have hlookup (other : String) (hother : other.toList ≠ "FNR".toList ∧ other.toList ≠ "FILENAME".toList) :
      (m.begin name i).store.globals.lookup other.toList = m.store.globals.lookup other.toList := by
    unfold Machine.begin
    rw [Store.globals_setGlobal, if_neg hother.1, Store.globals_setGlobal, if_neg hother.2]
  have hword : (m.begin name i).word k = m.word k := by
    unfold word
    rw [hlookup "ARGV" (by decide)]
    rfl
  have hformat : (m.begin name i).scalars.convfmt = m.scalars.convfmt := by
    unfold Variables.convfmt scalars Store.global?
    rw [hlookup "CONVFMT" (by decide)]
  unfold wordText
  rw [hword, hformat]

theorem NoAssignment.of_le {stop : Nat} (h : m.NoAssignment stop)
    (hle : m.mainInput.nextOperand ≤ m'.mainInput.nextOperand) (hword : ∀ k, m'.wordText k = m.wordText k) :
    m'.NoAssignment stop := by
  intro k t hk hstop ht
  rw [hword] at ht
  exact h k t (Nat.le_trans hle hk) hstop ht

/-! ### From one record to the next -/

/-- The current file has another record. -/
def HasMore (m : Machine) : Prop :=
  ∃ i separator t i' w, m.mainInput.current = some i ∧ m.separator = .ok separator ∧
    (World.readInput i separator).run m.world = (.ok (.ok (some t), i'), w)

/-- What shows when the main input has been asked for a record: another record of the current file is counted, and so
is the first one of a file that has been begun; without a record a file may have been begun that has none. -/
def Advances (m : Machine) (got : Bool) (m' : Machine) : Prop :=
  match got with
  | true => m.HasMore ∧ ((m.count "NR").count "FNR").Alike m' ∨
      ¬m.HasMore ∧ ∃ name i, (((m.begin name i).count "NR").count "FNR").Alike m'
  | false => m.Alike m' ∨ ∃ name i, (m.begin name i).Alike m'

variable {got : Bool}

theorem Advances.of_alike (h : m.Alike m₁) (hmore : ¬m.HasMore) (hmore₁ : ¬m₁.HasMore) (h' : m₁.Advances got m') :
    m.Advances got m' := by
  cases got with
  | true =>
    obtain ⟨name, i, hcounted⟩ := (h'.resolve_left fun hread => hmore₁ hread.1).2
    exact .inr ⟨hmore, name, i, (((h.begin name i i).count _).count _).trans hcounted⟩
  | false =>
    rcases h' with hsame | ⟨name, i, hbegun⟩
    · exact .inl (h.trans hsame)
    · exact .inr ⟨name, i, (h.begin name i i).trans hbegun⟩

theorem Advances.of_begin {name : Text} {i : Input} (h : (m.begin name i).Alike m₁) (hmore : ¬m.HasMore)
    (h' : m₁.Advances got m') : m.Advances got m' := by
  have hagain (name' : Text) (i' : Input) : (m.begin name' i').Alike (m₁.begin name' i') :=
    (m.alike_begin_begin name name' i i').trans (h.begin name' i' i')
  cases got with
  | true =>
    rcases h' with ⟨-, hcounted⟩ | ⟨-, name', i', hcounted⟩
    · exact .inr ⟨hmore, name, i, ((h.count _).count _).trans hcounted⟩
    · exact .inr ⟨hmore, name', i', (((hagain name' i').count _).count _).trans hcounted⟩
  | false =>
    rcases h' with hsame | ⟨name', i', hbegun⟩
    · exact .inr ⟨name, i, h.trans hsame⟩
    · exact .inr ⟨name', i', (hagain name' i').trans hbegun⟩

end Machine

namespace Eval

open Machine (Alike)

variable {m m' : Machine} {fuel : Nat}

/-! ### The places that are passed -/

theorem nextOperand_of_openOperand {t : Text} {opened : Bool} (h : (openOperand t).run m = (.ok opened, m')) :
    m'.mainInput.nextOperand = m.mainInput.nextOperand := by
  rcases openOperand_cases h with ⟨-, -, rfl⟩ | ⟨-, name, value, -, -, hassign⟩ | ⟨-, -, hopen⟩
  · rfl
  · rw [(sameFeed_assignGlobal hassign).mainInput]
  · rcases hopen with ⟨i, w, -, -, rfl⟩ | ⟨reason, w, -, -, rfl⟩ <;> rfl

theorem nextOperand_le_of_openNext {opened : Bool} (h : (openNext fuel).run m = (.ok opened, m')) :
    m.mainInput.nextOperand ≤ m'.mainInput.nextOperand := by
  induction fuel generalizing m with
  | zero => cases h
  | succ fuel ih =>
    rcases openNext_cases h with ⟨-, t, -, hoperand⟩ | ⟨-, hlast⟩
    · rcases hoperand with ⟨hoperand, -⟩ | ⟨m₁, hoperand, hrest⟩
      · rw [nextOperand_of_openOperand hoperand]
        exact Nat.le_succ _
      · have hle := ih hrest
        rw [nextOperand_of_openOperand hoperand] at hle
        exact Nat.le_of_succ_le hle
    · rcases hlast with ⟨-, -, rfl⟩ | ⟨-, -, rfl⟩ <;> exact Nat.le_refl _

theorem run_nextRecord_exhausted (h : m.mainInput.exhausted = true) :
    (nextRecord (fuel + 1)).run m = (.ok none, m) := by
  unfold nextRecord
  rw [Action.run_bind, Action.run_get]
  dsimp only
  rw [h]
  rfl

theorem nextOperand_le_of_nextRecord {record : Option Text} (h : (nextRecord fuel).run m = (.ok record, m')) :
    m.mainInput.nextOperand ≤ m'.mainInput.nextOperand := by
  induction fuel generalizing m with
  | zero => cases h
  | succ fuel ih =>
    cases hexhausted : m.mainInput.exhausted with
    | true =>
      rw [run_nextRecord_exhausted hexhausted] at h
      cases h
      exact Nat.le_refl _
    | false =>
      rcases nextRecord_cases hexhausted h with ⟨-, opened, m₁, hopen, hrest⟩ |
          ⟨i, separator, result, i', w, -, -, -, hrest⟩
      · have hle := nextOperand_le_of_openNext hopen
        cases opened with
        | true => exact Nat.le_trans hle (ih hrest)
        | false =>
          obtain ⟨-, rfl⟩ := hrest
          exact hle
      · cases result with
        | some t =>
          obtain ⟨-, rfl⟩ := hrest
          exact Nat.le_refl _
        | none => exact ih (m := (m.fetched i' w).leaveFile) hrest

/-! ### What is changed on the way -/

/-- A word that is no assignment is passed over, or a file is begun. -/
theorem alike_of_openOperand {t : Text} {opened : Bool} (hfile : assignment? t = none)
    (h : (openOperand t).run m = (.ok opened, m')) :
    (opened = true → ∃ name i, (m.begin name i).Alike m' ∧ ∀ k, m'.wordText k = m.wordText k) ∧
      (opened = false → m.Alike m') := by
  rcases openOperand_cases h with ⟨-, rfl, rfl⟩ | ⟨-, name, value, hassignment, -⟩ | ⟨-, -, hopen⟩
  · exact ⟨nofun, fun _ => .refl m'⟩
  · rw [hfile] at hassignment
    cases hassignment
  · rcases hopen with ⟨i, w, -, rfl, rfl⟩ | ⟨reason, w, -, rfl, rfl⟩
    · exact ⟨fun _ => ⟨t, i, .of_eq rfl rfl, fun k => m.wordText_begin t i k⟩, nofun⟩
    · exact ⟨nofun, fun _ => .of_eq rfl rfl⟩

theorem alike_of_openNext {opened : Bool} (h : (openNext fuel).run m = (.ok opened, m'))
    (hno : m.NoAssignment m'.mainInput.nextOperand) :
    (opened = true → ∃ name i, (m.begin name i).Alike m' ∧ ∀ k, m'.wordText k = m.wordText k) ∧
      (opened = false → m.Alike m') := by
  induction fuel generalizing m with
  | zero => cases h
  | succ fuel ih =>
    rcases openNext_cases h with ⟨-, t, hword, hoperand⟩ | ⟨-, hlast⟩
    · -- The word that has its turn is one of those that are passed.
      have hfile (hpassed : m.mainInput.nextOperand < m'.mainInput.nextOperand) : assignment? (t.getD []) = none := by
        cases t with
        | none => rfl
        | some t => exact hno _ t (Nat.le_refl _) hpassed hword
      have hturn : m.Alike m.turn := .of_eq rfl rfl
      rcases hoperand with ⟨hoperand, rfl⟩ | ⟨m₁, hoperand, hrest⟩
      · have hnext := nextOperand_of_openOperand hoperand
        have hpassed : m.mainInput.nextOperand < m'.mainInput.nextOperand := by
          rw [hnext]
          exact Nat.lt_succ_self _
        obtain ⟨name, i, hbegun, hwords⟩ := (alike_of_openOperand (hfile hpassed) hoperand).1 rfl
        refine ⟨fun _ => ⟨name, i, (hturn.begin name i i).trans hbegun, fun k => ?_⟩, nofun⟩
        exact (hwords k).trans (hturn.wordText k)
      · have hnext := nextOperand_of_openOperand hoperand
        have hle := nextOperand_le_of_openNext hrest
        have hpassed : m.mainInput.nextOperand < m'.mainInput.nextOperand := by
          rw [hnext] at hle
          exact hle
        have halike : m.Alike m₁ := hturn.trans ((alike_of_openOperand (hfile hpassed) hoperand).2 rfl)
        have hno₁ : m₁.NoAssignment m'.mainInput.nextOperand := by
          refine hno.of_le ?_ halike.wordText
          rw [hnext]
          exact Nat.le_succ _
        obtain ⟨hopened, hpast⟩ := ih hrest hno₁
        refine ⟨fun ho => ?_, fun ho => halike.trans (hpast ho)⟩
        obtain ⟨name, i, hbegun, hwords⟩ := hopened ho
        exact ⟨name, i, (halike.begin name i i).trans hbegun, fun k => (hwords k).trans (halike.wordText k)⟩
    · rcases hlast with ⟨-, rfl, rfl⟩ | ⟨-, rfl, rfl⟩
      · exact ⟨nofun, fun _ => .refl m'⟩
      · exact ⟨fun _ => ⟨[], .ofOrigin .standard, .refl _, m.wordText_begin _ _⟩, nofun⟩

/-- Nothing but the counters and the name of the file is changed until there is a record, or no more. -/
theorem advances_of_nextRecord {record : Option Text} (h : (nextRecord fuel).run m = (.ok record, m'))
    (hno : m.NoAssignment m'.mainInput.nextOperand) : m.Advances record.isSome m' := by
  induction fuel generalizing m with
  | zero => cases h
  | succ fuel ih =>
    cases hexhausted : m.mainInput.exhausted with
    | true =>
      rw [run_nextRecord_exhausted hexhausted] at h
      cases h
      exact .inl (.refl m')
    | false =>
      rcases nextRecord_cases hexhausted h with ⟨hidle, opened, m₁, hopen, hrest⟩ |
          ⟨i, separator, result, i', w, hcurrent, hseparator, hread, hrest⟩
      · have hmore : ¬m.HasMore := by
          rintro ⟨i, separator, t, i', w, hcurrent, -⟩
          cases hidle.symm.trans hcurrent
        cases opened with
        | true =>
          -- The words that are passed in the two halves are among those that are passed in all.
          have hle := nextOperand_le_of_nextRecord hrest
          obtain ⟨name, i, hbegun, hwords⟩ := (alike_of_openNext hopen fun k t hk hstop =>
            hno k t hk (Nat.lt_of_lt_of_le hstop hle)).1 rfl
          have hno₁ := hno.of_le (nextOperand_le_of_openNext hopen) hwords
          exact .of_begin hbegun hmore (ih hrest hno₁)
        | false =>
          obtain ⟨rfl, rfl⟩ := hrest
          exact .inl (((alike_of_openNext hopen hno).2 rfl).trans (.of_eq rfl rfl))
      · cases result with
        | some t =>
          obtain ⟨rfl, rfl⟩ := hrest
          exact .inl ⟨⟨i, separator, t, i', w, hcurrent, hseparator, hread⟩, .of_eq rfl rfl⟩
        | none =>
          -- The current file has ended, so that whatever comes is of a file that is still to be begun.
          have hmore : ¬m.HasMore := by
            rintro ⟨j, separator', t, j', w', hcurrent', hseparator', hread'⟩
            cases hcurrent.symm.trans hcurrent'
            cases hseparator.symm.trans hseparator'
            cases hread.symm.trans hread'
          have hmore₁ : ¬(m.fetched i' w).leaveFile.HasMore := by
            rintro ⟨j, -, -, -, -, hcurrent', -⟩
            cases hcurrent'
          have halike : m.Alike (m.fetched i' w).leaveFile := .of_eq rfl rfl
          have hno₁ : (m.fetched i' w).leaveFile.NoAssignment m'.mainInput.nextOperand :=
            hno.of_le (Nat.le_refl _) halike.wordText
          exact .of_alike halike hmore hmore₁ (ih hrest hno₁)

end Eval

end Awk
