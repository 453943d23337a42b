import Awk.Machine.Run

/-!
# Running a program text

`runProgram` reads a program text and runs it with its operands, assignments and field separator.  What can keep it
from running comes in this order: the text itself, then the assignments one by one.
-/

namespace Awk

/-- Why a program did not run to its end. -/
inductive RunError where
  | load (e : LoadError)
  | usage (e : UsageError)
  | failed (f : Failure)
  | exhausted
  deriving DecidableEq, Repr

/-- Assign before the program starts. -/
def Eval.applyOptions (fieldSep : Option Text) (assignments : List Text) : Eval (Except UsageError Unit) := do
  if let some t := fieldSep then
    assignGlobal "FS".toList (.str (fieldSeparator t))
  match ← assignments.findM? fun t => do return !(← applyAssignment t) with
  | some word => return .error (.badAssignment word)
  | none => return .ok ()

/-- Fuel for runs that end in any reasonable time. -/
def runFuel : Nat := Nat.pow 10 12

/-- The name that a program has for itself. -/
def programName : Text := "awk".toList

/-- Run a program text in a world: its status, or why there is none, and the world afterwards. -/
def runProgram (fuel : Nat) (i : Invocation) (world : World) : Except RunError Nat × World :=
  match loadProgram i.source with
  | .error e => (.error (.load e), world)
  | .ok parts =>
    let machine := Machine.start world parts.functions world.environment (programName :: i.operands)
    match (Eval.applyOptions i.fieldSep i.assignments).run machine with
    | (.ok (.error e), m) => (.error (.usage e), m.world)
    | (.error (.failure f), m) => (.error (.failed f), m.world)
    | (.error _, m) => (.error .exhausted, m.world)
    | (.ok (.ok ()), m) =>
      match m.runParts fuel parts with
      | (.status n, m) => (.ok n, m.world)
      | (.failed f, m) => (.error (.failed f), m.world)
      | (.exhausted, m) => (.error .exhausted, m.world)

end Awk
