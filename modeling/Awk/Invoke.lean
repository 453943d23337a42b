import Awk.Run

/-!
# Invoking the program

`invoke` does what a command line says and gives the status of the process: that of the program, 2 when the command
line, the program text or the program is at fault, and 1 when a number or a name cannot be handled at all.  Faults are
reported on the error stream.
-/

namespace Awk

/-- A name without idle parts. -/
def Files.tidy (name : Text) : Text :=
  let path := Text.join ['/'] ((Files.parts name).filter (!Files.isIdle ·))
  if name.head? = some '/' then '/' :: path else if path.isEmpty then ['.'] else path

namespace World

/-- All of the standard input that is left. -/
def takeInput (w : World) : Text × World := (w.input.unread, { w with input := .ofText [] })

/-- The program text in a file, the standard input standing for `-`. -/
def programText (name : Text) (w : World) : Except OpenReason Text × World :=
  if name = ['-'] then
    let (t, w) := w.takeInput
    (.ok t, w)
  else
    let (found, files) := w.files.toRead (Files.tidy name)
    let w := { w with files := files }
    match found with
    | .error reason => (.error reason, w)
    | .ok (.inl path) => (.ok (unifyNewlines (w.files.text path)), w)
    | .ok (.inr .input) =>
      let (t, w) := w.takeInput
      (.ok (unifyNewlines t), w)
    | .ok (.inr _) => (.ok [], w)

/-- The world after a line on the error stream. -/
def reported (w : World) (message : Text) : World := ((report message).run w).2

/-- The world after text on the error stream. -/
def withErrors (w : World) (t : Text) : World := { w with errors := w.errors ++ t }

end World

/-- The fault is one of the program, to be reported as such. -/
def FaultKind.isReported : FaultKind → Bool
  | .runtime | .type | .division | .argument | .regex | .file => true
  | .value | .overflow | .memory | .folding | .device => false

/-- The status of a process that a fault ends. -/
def faultStatus : Nat := 2

/-- The status of a process that cannot handle a value. -/
def breakdownStatus : Nat := 1

/-- The process ends with a failure. -/
def endWith (f : Failure) (w : World) : Nat × World :=
  if f.fault.kind.isReported then (faultStatus, w.reported f.message) else (breakdownStatus, w)

/-- Do what a command line says: the status, and the world afterwards. -/
def invoke (fuel : Nat) (words : List Text) (w : World) : Nat × World :=
  match readCommandLine words World.programText w with
  | (.error e, w) => (faultStatus, (w.reported e.message).withErrors (usage ++ ['\n']))
  | (.ok i, w) =>
    match runProgram fuel i w with
    | (.ok status, w) => (status, w)
    | (.error (.usage e), w) => (faultStatus, w.reported e.message)
    | (.error (.load (.grammar e)), w) => (faultStatus, w.reported e.message)
    | (.error (.load (.folding f)), w) => endWith ⟨f, none⟩ w
    | (.error (.failed f), w) => endWith f w
    | (.error .exhausted, w) => (breakdownStatus, w)

end Awk
