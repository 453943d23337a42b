import Awk.CommandLine
import Awk.Machine.Variables

/-!
# The main input

The operands are taken from the array of program words as they are when their turn comes: an empty or missing one is
passed over, `name=value` is an assignment, and anything else names a file, which is passed over with a warning if it
cannot be opened.  Without any file the standard input is read.  `nextRecord` gives the records of all files one after
the other and counts them.
-/

namespace Awk.Eval

def modifyInput (f : MainInput → MainInput) : Eval Unit :=
  modify fun m => { m with mainInput := f m.mainInput }

/-- Assign as an operand `name=value` says; false if it is not one. -/
def applyAssignment (t : Text) : Eval Bool := do
  match assignment? t with
  | none => return false
  | some (name, value) =>
    assignGlobal name (.strnum (decodeEscapes value))
    return true

/-- The operand of a number, if there is one. -/
def operand (index : Nat) : Eval (Option Text) := do
  let m ← get
  match m.store.globals.lookup "ARGV".toList with
  | some (.array id) =>
    match (m.store.array id).get? (Text.ofNat index) with
    | some v => return some (← textOf v)
    | none => return none
  | _ => return none

/-- Begin with a file. -/
def startFile (name : Text) (i : Input) : Eval Unit := do
  modifyInput fun input => { input with current := some i }
  setGlobal "FILENAME" (.str name)
  setGlobal "FNR" (.num .zero)

/-- What is read next when an operand has been taken; false if it names no readable file. -/
def openOperand (t : Text) : Eval Bool := do
  if t.isEmpty then return false
  if ← applyAssignment t then return false
  modifyInput fun input => { input with usedFile := true }
  match ← onWorld (observing (World.openFile t)) with
  | .ok i =>
    startFile t i
    return true
  | .error (.cannotOpen _ reason) =>
    onWorld (World.warnAlways ("cannot open file '".toList ++ t ++ "' for reading: ".toList ++ reason.message))
    modify fun m => { m with inputFailed := true }
    return false
  | .error f => fail f

/-- Go on to the next readable operand; false when none is left. -/
def openNext : Nat → Eval Bool
  | 0 => throw .exhausted
  | fuel + 1 => do
    let index := (← get).mainInput.nextOperand
    let count ← ofExcept (← counter "ARGC").toInt
    if (index : Int) < count then
      let t ← operand index
      modifyInput fun input => { input with nextOperand := index + 1 }
      if ← openOperand (t.getD []) then return true
      openNext fuel
    else if (← get).mainInput.usedFile then return false
    else
      modifyInput fun input => { input with usedFile := true }
      startFile [] (.ofOrigin .standard)
      return true

/-- Count one more record. -/
def countUp (name : String) : Eval Unit := do setGlobal name (.num ((← counter name).add .one))

/-- Leave the current file. -/
def skipFile : Eval Unit := modifyInput fun input => { input with current := none }

/-- The next record of the main input, none at its end. -/
def nextRecord : Nat → Eval (Option Text)
  | 0 => throw .exhausted
  | fuel + 1 => do
    let input := (← get).mainInput
    if input.exhausted then return none
    match input.current with
    | none =>
      if ← openNext fuel then nextRecord fuel
      else
        modifyInput fun input => { input with exhausted := true }
        return none
    | some i =>
      let separator ← setting "RS"
      let (record, i) ← onWorld (World.readInput i separator)
      modifyInput fun input => { input with current := some i }
      match ← ofExcept record with
      | some t =>
        countUp "NR"
        countUp "FNR"
        return some t
      | none =>
        skipFile
        nextRecord fuel

end Awk.Eval
