import Awk.Proofs.Action
import Awk.Record

/-!
# Cutting late and cutting at once

A record is cut into fields when one is first asked for.  The reference (`EagerRecord`) cuts a text when it is
installed, with the separators of that moment, and a read of it changes nothing.  `run_eq_run_eager`: whatever is done
with a record and with the settings around it, the answers and the texts are those of the reference.

The two go together by `Refines`: they have the same text, and the record holds the fields of the reference, or the
separators that cut its text into them.
-/

namespace Awk

/-- The variables after an assignment. -/
def Variables.assign (vars : Variables) (name : Text) (v : Value) : Variables :=
  fun other => if other = name then some v else vars other

/-- What is done with a record or with the settings around it. -/
inductive RecordOp where
  | assign (name : Text) (v : Value)
  | setText (t : Text)
  | getField (index : Int)
  | setField (index : Int) (v : Value)
  | count
  | setCount (count : Int)
  | readText

inductive RecordAnswer where
  | done
  | value (v : Value)
  | number (n : Nat)
  | text (t : Text)
  deriving DecidableEq

/-- What comes of an operation: its answer, or why there is none, and the text of the record afterwards. -/
abbrev RecordOutcome := Except Fault RecordAnswer × Text

/-! ### The reference -/

/-- A record whose fields are always there. -/
structure EagerRecord where
  text : Text
  fields : List Value
  deriving DecidableEq

namespace EagerRecord

variable (vars : Variables) (e : EagerRecord)

def empty : EagerRecord := ⟨[], []⟩

/-- A text, cut at once with the separators in force. -/
def install (vars : Variables) (t : Text) : Except Fault EagerRecord := do
  let separator ← vars.setting "FS" [' ']
  let recordEnd ← vars.setting "RS" ['\n']
  let pieces ← splitFields t separator recordEnd.isEmpty
  .ok ⟨t, pieces.map .strnum⟩

/-- Fields, and the text that they make under the formats in force. -/
def ofFields (vars : Variables) (values : List Value) : Except Fault EagerRecord := do
  let format ← vars.convfmt
  let separator ← vars.setting "OFS" [' ']
  let texts ← values.mapM (·.toText format)
  .ok ⟨Text.join separator texts, values⟩

def getField (e : EagerRecord) (index : Int) : Except Fault Value :=
  if index = 0 then .ok (.strnum e.text)
  else if index < 0 then .error (.fieldOutOfRange index)
  else .ok ((e.fields[index.toNat - 1]?).getD .unset)

/-- Fields up to a number: what is there stays, and what is missing is unset. -/
def filled (values : List Value) (count : Nat) : List Value :=
  (List.range (max values.length count)).map fun position => (values[position]?).getD .unset

/-- The fields are filled up, unless more are missing than a list can have. -/
def fill (values : List Value) (count : Nat) : Except Fault (List Value) :=
  if sizeLimit ≤ count - values.length then .error .countTooLarge
  else if placeLimit ≤ count - values.length then .error .noRoom
  else .ok (filled values count)

def setField (vars : Variables) (e : EagerRecord) (index : Int) (v : Value) : Except Fault EagerRecord := do
  if index = 0 then install vars (← v.toText (← vars.convfmt))
  else if index < 0 then .error (.fieldOutOfRange index)
  else
    let padded ← fill e.fields index.toNat
    ofFields vars (padded.set (index.toNat - 1) v)

def setCount (vars : Variables) (e : EagerRecord) (count : Int) : Except Fault EagerRecord := do
  if count < 0 then .error (.negativeFieldCount count)
  else ofFields vars (← fill (e.fields.take count.toNat) count.toNat)

/-- The record after a change, which leaves it as it was if it fails. -/
def changed (e : EagerRecord) : Except Fault EagerRecord → Except Fault RecordAnswer × EagerRecord
  | .ok e' => (.ok .done, e')
  | .error f => (.error f, e)

/-- The answer to an operation, and the variables and the record after it. -/
def perform (vars : Variables) (e : EagerRecord) :
    RecordOp → Except Fault RecordAnswer × Variables × EagerRecord
  | .assign name v => (.ok .done, vars.assign name v, e)
  | .setText t => let (a, e) := e.changed (install vars t); (a, vars, e)
  | .getField index => ((e.getField index).map .value, vars, e)
  | .setField index v => let (a, e) := e.changed (setField vars e index v); (a, vars, e)
  | .count => (.ok (.number e.fields.length), vars, e)
  | .setCount count => let (a, e) := e.changed (setCount vars e count); (a, vars, e)
  | .readText => (.ok (.text e.text), vars, e)

def run (vars : Variables) (e : EagerRecord) : List RecordOp → List RecordOutcome
  | [] => []
  | op :: ops =>
    let (answer, vars, e) := perform vars e op
    (answer, e.text) :: run vars e ops

/-- A text that the operation installs is cut by the separators in force, and what it writes as text can be written
under the formats in force. -/
def Admits (vars : Variables) (e : EagerRecord) : RecordOp → Prop
  | .setText t => ∃ e', install vars t = .ok e'
  | .setField index v =>
    (index = 0 → ∃ e', setField vars e index v = .ok e') ∧
    (0 < index → ∀ padded, fill e.fields index.toNat = .ok padded →
      ∃ e', ofFields vars (padded.set (index.toNat - 1) v) = .ok e')
  | .setCount count =>
    0 ≤ count → ∀ padded, fill (e.fields.take count.toNat) count.toNat = .ok padded →
      ∃ e', ofFields vars padded = .ok e'
  | _ => True

/-- Every operation is admitted when its turn comes. -/
def AdmitsAll (vars : Variables) (e : EagerRecord) : List RecordOp → Prop
  | [] => True
  | op :: ops => Admits vars e op ∧ AdmitsAll (perform vars e op).2.1 (perform vars e op).2.2 ops

end EagerRecord

/-! ### The record -/

namespace Record

/-- The answer to an operation, and the variables and the record after it. -/
def perform (vars : Variables) (r : Record) : RecordOp → Except Fault RecordAnswer × Variables × Record
  | .assign name v => (.ok .done, vars.assign name v, r)
  | .setText t => let (a, r) := (setText vars t).run r; (a.map fun _ => .done, vars, r)
  | .getField index => let (a, r) := (Record.getField index).run r; (a.map .value, vars, r)
  | .setField index v => let (a, r) := (Record.setField vars index v).run r; (a.map fun _ => .done, vars, r)
  | .count => let (a, r) := Record.count.run r; (a.map .number, vars, r)
  | .setCount count => let (a, r) := (Record.setCount vars count).run r; (a.map fun _ => .done, vars, r)
  | .readText => (.ok (.text r.text), vars, r)

def run (vars : Variables) (r : Record) : List RecordOp → List RecordOutcome
  | [] => []
  | op :: ops =>
    let (answer, vars, r) := perform vars r op
    (answer, r.text) :: run vars r ops

/-- The record has these fields, or its separators cut its text into them. -/
def Holds (r : Record) (values : List Value) : Prop :=
  match r.split with
  | some present => present = values
  | none => ∃ pieces, splitFields r.text r.separator r.paragraph = .ok pieces ∧ values = pieces.map .strnum

/-- The record behaves as one cut in advance. -/
structure Refines (r : Record) (e : EagerRecord) : Prop where
  text : r.text = e.text
  value : r.value = .strnum e.text
  holds : r.Holds e.fields

open Awk.Action

variable {vars : Variables} {r : Record} {e : EagerRecord}

theorem append_replicate_eq_filled (values : List Value) (count : Nat) :
    values ++ List.replicate (count - values.length) .unset = EagerRecord.filled values count := by
  refine List.ext_getElem? fun k => ?_
  unfold EagerRecord.filled
  rw [List.getElem?_map]
  rcases Nat.lt_or_ge k values.length with hk | hk
  · rw [List.getElem?_append_left hk, List.getElem?_range (by omega), Option.map_some, List.getElem?_eq_getElem hk]
    rfl
  · rw [List.getElem?_append_right hk, List.getElem?_replicate]
    rcases Nat.lt_or_ge k count with hcount | hcount
    · rw [if_pos (by omega), List.getElem?_range (by omega), Option.map_some, List.getElem?_eq_none hk]
      rfl
    · rw [if_neg (by omega), List.getElem?_eq_none (by rw [List.length_range]; omega)]
      rfl

/-- Padding is filling up. -/
theorem padTo_eq_fill (values : List Value) (count : Nat) : padTo values count = EagerRecord.fill values count := by
  unfold padTo checkPlaces checkSize EagerRecord.fill
  dsimp only
  rw [append_replicate_eq_filled]
  by_cases hsize : sizeLimit ≤ count - values.length
  · rw [if_pos hsize, if_pos hsize]
    rfl
  · rw [if_neg hsize, if_neg hsize]
    by_cases hplaces : placeLimit ≤ count - values.length
    · rw [if_pos hplaces, if_pos hplaces]
      rfl
    · rw [if_neg hplaces, if_neg hplaces]
      rfl

theorem refines_empty : Refines .empty .empty := ⟨rfl, rfl, rfl⟩

/-- Cutting a record now does not show. -/
theorem run_fields (h : Refines r e) :
    fields.run r = (.ok e.fields, { r with split := some e.fields }) ∧
      Refines { r with split := some e.fields } e := by
  obtain ⟨htext, hvalue, hholds⟩ := h
  refine ⟨?_, htext, hvalue, rfl⟩
  unfold Holds at hholds
  rcases hsplit : r.split with _ | present
  · rw [hsplit] at hholds
    obtain ⟨pieces, hpieces, hfields⟩ := hholds
    simp only [fields, run_bind, run_get, hsplit, run_liftM, hpieces, run_modify, run_pure, hfields]
  · rw [hsplit] at hholds
    simp only [fields, run_bind, run_get, hsplit, run_pure, ← hholds]
    rw [← hsplit]

/-- Installing a text notes the separators with which the reference cuts it. -/
theorem run_setText {t : Text} (h : EagerRecord.install vars t = .ok e) (r : Record) :
    ∃ r', (setText vars t).run r = (.ok (), r') ∧ Refines r' e := by
  obtain ⟨separator, hfs, h⟩ := bind_eq_ok.1 h
  obtain ⟨recordEnd, hrs, h⟩ := bind_eq_ok.1 h
  obtain ⟨pieces, hpieces, h⟩ := bind_eq_ok.1 h
  cases h
  refine ⟨⟨t, .strnum t, none, separator, recordEnd.isEmpty⟩, ?_, rfl, rfl, pieces, hpieces, rfl⟩
  simp only [setText, run_bind, run_modify, hfs, hrs, run_liftM]

/-- Fields that are there make the text that the reference makes of them. -/
theorem run_rebuild {values : List Value} (hsplit : r.split = some values)
    (h : EagerRecord.ofFields vars values = .ok e) :
    ∃ r', (rebuild vars).run r = (.ok (), r') ∧ Refines r' e := by
  obtain ⟨format, hformat, h⟩ := bind_eq_ok.1 h
  obtain ⟨separator, hofs, h⟩ := bind_eq_ok.1 h
  obtain ⟨texts, htexts, h⟩ := bind_eq_ok.1 h
  cases h
  let text := Text.join separator texts
  refine ⟨{ r with text := text, value := .strnum text }, ?_, rfl, rfl, hsplit ▸ rfl⟩
  simp only [rebuild, fields, run_bind, run_get, hsplit, run_pure, hformat, hofs, run_liftM, run_mapM_liftM, htexts,
    run_modify, text]

theorem run_getField (h : Refines r e) (index : Int) :
    ∃ r', (Record.getField index).run r = (e.getField index, r') ∧ Refines r' e := by
  unfold Record.getField EagerRecord.getField
  by_cases hzero : index = 0
  · exact ⟨r, by simp only [hzero, if_true, run_bind, run_get, run_pure, h.value], h⟩
  by_cases hneg : index < 0
  · refine ⟨r, ?_, h⟩
    rw [if_neg hzero, if_pos hneg, if_neg hzero, if_pos hneg]
    rfl
  obtain ⟨hrun, hrefines⟩ := run_fields h
  exact ⟨_, by simp only [hzero, hneg, if_false, run_bind, run_pure, hrun], hrefines⟩

theorem run_count (h : Refines r e) :
    ∃ r', Record.count.run r = (.ok e.fields.length, r') ∧ Refines r' e := by
  obtain ⟨hrun, hrefines⟩ := run_fields h
  exact ⟨_, by simp only [Record.count, run_bind, run_pure, hrun], hrefines⟩

theorem run_setField {index : Int} {v : Value} (h : Refines r e) (hadmits : e.Admits vars (.setField index v)) :
    ∃ r', (Record.setField vars index v).run r = ((e.setField vars index v).map fun _ => (), r') ∧
      Refines r' (e.changed (e.setField vars index v)).2 := by
  -- The fields are cut first, which does not show, except where the text is to be replaced anyway.
  obtain ⟨hrun, hrefines⟩ := run_fields h
  unfold Record.setField
  by_cases hzero : index = 0
  · subst hzero
    obtain ⟨e', he'⟩ := hadmits.1 rfl
    have hinstall := he'
    unfold EagerRecord.setField at hinstall
    obtain ⟨format, hformat, hinstall⟩ := bind_eq_ok.1 hinstall
    obtain ⟨t, ht, hinstall⟩ := bind_eq_ok.1 hinstall
    obtain ⟨r', hr', hrefines'⟩ := run_setText hinstall r
    refine ⟨r', ?_, by rw [he']; exact hrefines'⟩
    simp only [if_true, run_bind, run_liftM, hformat, ht, hr', he']
    rfl
  by_cases hneg : index < 0
  · refine ⟨r, ?_, ?_⟩
    · simp only [hzero, hneg, if_false, if_true, EagerRecord.setField]
      rfl
    · simpa only [EagerRecord.setField, hzero, hneg, if_false, if_true, EagerRecord.changed] using h
  have hpos : 0 < index := by omega
  rcases hpad : EagerRecord.fill e.fields index.toNat with f | padded
  · have hfails : e.setField vars index v = .error f := by
      simp only [EagerRecord.setField, hzero, hneg, if_false, hpad]
      rfl
    refine ⟨_, ?_, by rw [hfails]; exact hrefines⟩
    simp only [hzero, hneg, if_false, run_bind, hrun, padTo_eq_fill, hpad, run_liftM, hfails]
    rfl
  · obtain ⟨e', he'⟩ := hadmits.2 hpos padded hpad
    have hreturns : e.setField vars index v = .ok e' := by
      simp only [EagerRecord.setField, hzero, hneg, if_false, hpad]
      exact he'
    obtain ⟨r', hr', hrefines'⟩ :=
      run_rebuild (r := { r with split := some (padded.set (index.toNat - 1) v) }) rfl he'
    refine ⟨r', ?_, by rw [hreturns]; exact hrefines'⟩
    simp only [hzero, hneg, if_false, run_bind, hrun, padTo_eq_fill, hpad, run_liftM, run_modify, hr', hreturns]
    rfl

theorem run_setCount {count : Int} (h : Refines r e) (hadmits : e.Admits vars (.setCount count)) :
    ∃ r', (Record.setCount vars count).run r = ((e.setCount vars count).map fun _ => (), r') ∧
      Refines r' (e.changed (e.setCount vars count)).2 := by
  obtain ⟨hrun, hrefines⟩ := run_fields h
  unfold Record.setCount
  by_cases hneg : count < 0
  · refine ⟨r, ?_, ?_⟩
    · simp only [hneg, if_true, EagerRecord.setCount]
      rfl
    · simpa only [EagerRecord.setCount, hneg, if_true, EagerRecord.changed] using h
  have hnonneg : 0 ≤ count := by omega
  rcases hpad : EagerRecord.fill (e.fields.take count.toNat) count.toNat with f | padded
  · have hfails : e.setCount vars count = .error f := by
      simp only [EagerRecord.setCount, hneg, if_false, hpad]
      rfl
    refine ⟨_, ?_, by rw [hfails]; exact hrefines⟩
    simp only [hneg, if_false, run_bind, hrun, padTo_eq_fill, hpad, run_liftM, hfails]
    rfl
  · obtain ⟨e', he'⟩ := hadmits hnonneg padded hpad
    have hreturns : e.setCount vars count = .ok e' := by
      simp only [EagerRecord.setCount, hneg, if_false, hpad]
      exact he'
    obtain ⟨r', hr', hrefines'⟩ := run_rebuild (r := { r with split := some padded }) rfl he'
    refine ⟨r', ?_, by rw [hreturns]; exact hrefines'⟩
    simp only [hneg, if_false, run_bind, hrun, padTo_eq_fill, hpad, run_liftM, run_modify, hr', hreturns]
    rfl

/-- One operation has the same answer on both, and leaves both alike. -/
theorem perform_refines {op : RecordOp} (h : Refines r e) (hadmits : e.Admits vars op) :
    (perform vars r op).1 = (e.perform vars op).1 ∧
    (perform vars r op).2.1 = (e.perform vars op).2.1 ∧
    Refines (perform vars r op).2.2 (e.perform vars op).2.2 := by
  cases op with
  | assign name v => exact ⟨rfl, rfl, h⟩
  | setText t =>
    obtain ⟨e', he'⟩ := hadmits
    obtain ⟨r', hr', hrefines⟩ := run_setText he' r
    rw [perform, hr', EagerRecord.perform, he']
    exact ⟨rfl, rfl, hrefines⟩
  | getField index =>
    obtain ⟨r', hr', hrefines⟩ := run_getField h index
    rw [perform, hr']
    exact ⟨rfl, rfl, hrefines⟩
  | setField index v =>
    obtain ⟨r', hr', hrefines⟩ := run_setField h hadmits
    rw [perform, hr', EagerRecord.perform]
    refine ⟨?_, rfl, hrefines⟩
    rcases e.setField vars index v with f | e' <;> rfl
  | count =>
    obtain ⟨r', hr', hrefines⟩ := run_count h
    rw [perform, hr']
    exact ⟨rfl, rfl, hrefines⟩
  | setCount count =>
    obtain ⟨r', hr', hrefines⟩ := run_setCount h hadmits
    rw [perform, hr', EagerRecord.perform]
    refine ⟨?_, rfl, hrefines⟩
    rcases e.setCount vars count with f | e' <;> rfl
  | readText =>
    rw [perform, h.text]
    exact ⟨rfl, rfl, h⟩

theorem run_refines (h : Refines r e) (ops : List RecordOp) (hadmits : e.AdmitsAll vars ops) :
    run vars r ops = e.run vars ops := by
  induction ops generalizing vars r e with
  | nil => rfl
  | cons op ops ih =>
    obtain ⟨hanswer, hvars, hrefines⟩ := perform_refines h hadmits.1
    simp only [run, EagerRecord.run, hanswer, hvars, hrefines.text, ih hrefines hadmits.2]

/-- Nobody can tell when a record is cut: all answers and all texts are those of a record that is cut when its text is
installed. -/
theorem run_eq_run_eager (vars : Variables) (ops : List RecordOp) (hadmits : EagerRecord.empty.AdmitsAll vars ops) :
    run vars .empty ops = EagerRecord.empty.run vars ops :=
  run_refines refines_empty ops hadmits

/-- Separators and formats change between installing, reading and writing; a field beyond the last one, a number of
fields and a negative index are asked for before and after the text is cut. -/
theorem run_eq_run_eager_mixed :
    let ops : List RecordOp :=
      [.assign "FS".toList (.str ",".toList), .setText "a,b;c".toList, .assign "FS".toList (.str ";".toList),
        .assign "RS".toList (.str []), .getField (-1), .getField 2, .assign "OFS".toList (.str "-".toList),
        .setField 4 (.str "x".toList), .count, .setCount 2, .setCount (-3), .setField 0 (.strnum "p;q\nr".toList),
        .getField 3, .readText]
    EagerRecord.empty.AdmitsAll (fun _ => none) ops ∧
      run (fun _ => none) .empty ops = EagerRecord.empty.run (fun _ => none) ops := by
  intro ops
  have hadmits : EagerRecord.empty.AdmitsAll (fun _ => none) ops := by
    refine ⟨trivial, ⟨_, rfl⟩, trivial, trivial, trivial, trivial, trivial, ⟨?_, ?_⟩, trivial, ?_, ?_, ⟨?_, ?_⟩,
      trivial, trivial, trivial⟩
    · intro h; exact absurd h (by decide)
    · intro _ padded h; cases h; exact ⟨_, rfl⟩
    · intro _ padded h; cases h; exact ⟨_, rfl⟩
    · intro h; exact absurd h (by decide)
    · intro _; exact ⟨_, rfl⟩
    · intro h; exact absurd h (by decide)
  exact ⟨hadmits, run_eq_run_eager _ _ hadmits⟩

end Record

end Awk
