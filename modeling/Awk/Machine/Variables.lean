import Awk.Machine.Basic

/-!
# Variables and targets

Reading and assigning by name, and the targets that an lvalue stands for.  `NF` among the globals is the number of
fields of the record, not a binding.
-/

namespace Awk

/-- What can be assigned to, once its subscripts or its index have been evaluated. -/
inductive Target where
  | var (name : Text)
  | element (array : Nat) (key : Text)
  | field (index : Int)
  deriving DecidableEq, Repr

namespace Eval

/-- The name that stands for the number of fields. -/
def fieldCountName : Text := "NF".toList

def isFieldCount (slot : Slot) : Bool := slot.scope == .globals && slot.name == fieldCountName

def slotOf (name : Text) : Eval Slot := do return (← get).store.slotOf name

def readSlot (slot : Slot) : Eval Value := do
  if isFieldCount slot then return .ofNat (← onRecord fun _ => Record.count)
  ofExcept ((← get).store.scalarAt slot)

/-- Assign to a slot; the result is the value as it was stored. -/
def assignSlot (slot : Slot) (v : Value) : Eval Value := do
  let store ← ofExcept ((← get).store.setScalar slot v)
  if isFieldCount slot then
    let count ← ofExcept v.toNumber.toInt
    onRecord fun vars => Record.setCount vars count
    return .ofInt count
  modify fun m => { m with store := store }
  return v

def readVariable (name : Text) : Eval Value := do readSlot (← slotOf name)

def assignVariable (name : Text) (v : Value) : Eval Value := do assignSlot (← slotOf name) v

/-- Assign to a global, whatever call is running. -/
def assignGlobal (name : Text) (v : Value) : Eval Unit := do
  let _ ← assignSlot ⟨.globals, name⟩ v

/-- The array that a name stands for, made on first use. -/
def arrayNamed (name : Text) : Eval Nat := do
  let (id, store) ← ofExcept ((← get).store.arrayAt (← slotOf name))
  modify fun m => { m with store := store }
  return id

def array (id : Nat) : Eval Assoc := do return (← get).store.array id

def setArray (id : Nat) (a : Assoc) : Eval Unit :=
  modify fun m => { m with store := m.store.setArray id a }

/-- The element of an array, which is there afterwards. -/
def element (id : Nat) (key : Text) : Eval Value := do
  let (v, a) := (← array id).fetch key
  setArray id a
  return v

def readTarget : Target → Eval Value
  | .var name => readVariable name
  | .element id key => element id key
  | .field index => onRecord fun _ => Record.getField index

/-- Assign to a target; the result is the value of the assignment. -/
def assignTarget (target : Target) (v : Value) : Eval Value := do
  match target with
  | .var name => assignVariable name v
  | .element id key =>
    setArray id ((← array id).insert key v)
    return v
  | .field index =>
    onRecord fun vars => Record.setField vars index v
    return v

end Eval

end Awk
