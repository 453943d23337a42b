import Awk.Fields
import Awk.Limits
import Awk.Printf.Basic

/-!
# The current record

A record is a text and its fields.  Installing a text (`setText`) notes the separator then in force and leaves the
cutting until a field is asked for (`fields`); changing a field or the number of fields rebuilds the text from the
fields.  The settings (separators and number format) are looked up in the variables, passed as a function.

An operation can fail after it has begun to change the record, so it returns the record in either case.
-/

namespace Awk

structure Record where
  text : Text
  /-- The text as a value, as it was installed. -/
  value : Value
  /-- The fields, once the text has been cut. -/
  split : Option (List Value)
  /-- Separator and paragraph mode at the time the text was installed. -/
  separator : Text
  paragraph : Bool
  deriving DecidableEq, Repr

/-- The scalar variables, by name. -/
abbrev Variables := Text → Option Value

namespace Variables

/-- The format for numbers: the text of `CONVFMT`. -/
def convfmt (vars : Variables) : Except Fault Text :=
  match vars "CONVFMT".toList with
  | some v => v.toText defaultFormat
  | none => .ok defaultFormat

/-- The text of a variable, or what it is when the variable is not a scalar. -/
def setting (vars : Variables) (name : String) (default : Text) : Except Fault Text :=
  match vars name.toList with
  | some v => do v.toText (← vars.convfmt)
  | none => .ok default

end Variables

namespace Record

def empty : Record := ⟨[], .strnum [], some [], [' '], false⟩

/-- Operations on the current record, which keeps its changes when they fail. -/
abbrev Action := ExceptT Fault (StateM Record)

/-- Install a text: it will be cut with the separator of this moment. -/
def setText (vars : Variables) (t : Text) : Action Unit := do
  modify fun r => { r with text := t, value := .strnum t, split := none }
  let separator ← vars.setting "FS" [' ']
  modify fun r => { r with separator := separator }
  let recordEnd ← vars.setting "RS" ['\n']
  modify fun r => { r with paragraph := recordEnd.isEmpty }

/-- The fields, cut now if that has not been done. -/
def fields : Action (List Value) := do
  let r ← get
  match r.split with
  | some values => pure values
  | none =>
    let pieces ← splitFields r.text r.separator r.paragraph
    let values := pieces.map Value.strnum
    modify fun r => { r with split := some values }
    pure values

/-- Make the text anew from the fields. -/
def rebuild (vars : Variables) : Action Unit := do
  let values ← fields
  let format ← vars.convfmt
  let separator ← vars.setting "OFS" [' ']
  let texts ← values.mapM (·.toText format)
  let text := Text.join separator texts
  modify fun r => { r with text := text, value := .strnum text }

def count : Action Nat := do
  pure (← fields).length

/-- Unset fields up to a number of fields, if a list has so many places. -/
def padTo (values : List Value) (count : Nat) : Except Fault (List Value) := do
  let missing := count - values.length
  checkPlaces missing
  .ok (values ++ List.replicate missing .unset)

/-- Keep exactly `count` fields, new ones being unset. -/
def setCount (vars : Variables) (count : Int) : Action Unit := do
  if count < 0 then throw (.negativeFieldCount count)
  let values ← fields
  let padded ← padTo (values.take count.toNat) count.toNat
  modify fun r => { r with split := some padded }
  rebuild vars

/-- A field by its number; the record itself is number zero, and a field that is not there is unset. -/
def getField (index : Int) : Action Value := do
  if index = 0 then return (← get).value
  if index < 0 then throw (.fieldOutOfRange index)
  let values ← fields
  pure ((values[index.toNat - 1]?).getD .unset)

/-- Store a field, with unset fields before it as needed, and rebuild the text. -/
def setField (vars : Variables) (index : Int) (v : Value) : Action Unit := do
  if index = 0 then
    setText vars (← v.toText (← vars.convfmt))
  else if index < 0 then
    throw (.fieldOutOfRange index)
  else
    let values ← fields
    let position := index.toNat - 1
    let padded ← padTo values index.toNat
    modify fun r => { r with split := some (padded.set position v) }
    rebuild vars

end Record

end Awk
