import Awk.World.Input

/-!
# Closing streams and running commands

`close` closes whatever is open under a name, output first; `closeAll` closes everything at the end of a run.  The
answers are those that a program sees: a status, or minus one.
-/

namespace Awk.World

/-- Close the output stream under a name. -/
def closeOutputNamed (name : Text) : Action (Option Int) := do
  match (← get).outputs.lookup name with
  | none => return none
  | some o =>
    modify fun w => { w with outputs := dropStream name w.outputs }
    match ← observing (closeOutput o) with
    | .ok status => return some (Int.ofNat status)
    | .error _ =>
      warn ("close of '".toList ++ name ++ ['\''] ++ noSpaceNote)
      return some (-1)

/-- Close the input stream under a name. -/
def closeInputNamed (name : Text) : Action (Option Int) := do
  match (← get).inputs.lookup name with
  | none => return none
  | some i =>
    modify fun w => { w with inputs := dropStream name w.inputs }
    return some (Int.ofNat (closeInput i))

/-- What follows the name in a warning about a name without a stream. -/
def notOpenNote : Text := "' is not an open file, pipe or co-process".toList

/-- Close every stream under a name; the status is that of the last one closed. -/
def close (name : Text) : Action Int := do
  let output ← closeOutputNamed name
  let input ← closeInputNamed name
  match input <|> output with
  | some status => return status
  | none =>
    warn ("close: '".toList ++ name ++ notOpenNote)
    return -1

def closeEach : List Text → Action Unit
  | [] => return ()
  | name :: rest => do
    let _ ← close name
    closeEach rest

/-- Close all streams, outputs first, and flush standard output last. -/
def closeAll : Action Unit := do
  closeEach ((← get).outputs.map Prod.fst)
  closeEach ((← get).inputs.map Prod.fst)
  flushStandard

/-- Flush the stream under a name. -/
def flush (name : Text) : Action Int := do
  match (← get).outputs.lookup name with
  | none =>
    warn ("fflush: '".toList ++ name ++ notOpenNote)
    return -1
  | some o =>
    putOutput name (← flushOutput o)
    return 0

/-- Run a command after flushing everything; its status. -/
def system (command : Text) : Action Nat := do
  flushAll
  return statusOf (← runShown none command)

end Awk.World
