import Awk.Syntax.Operator
import Awk.World.Basic

/-!
# Output streams

A stream is opened by the first output to its name and stays open, whatever operator later outputs use, until it is
closed.  Text for it waits until a flush hands it on (`flushOutput`); a command starts when its stream is closed, with
all the text as its input.

Only a full device fails to take text, when it is flushed or closed.
-/

namespace Awk.World

/-- Names of the standard output. -/
def isStandardOutput (name : Text) : Bool := name == "/dev/stdout".toList || name == ['-']

def standardErrorName : Text := "/dev/stderr".toList

/-- Entries with a stream replaced, or put last. -/
def putStream {α : Type} (name : Text) (stream : α) : List (Text × α) → List (Text × α)
  | [] => [(name, stream)]
  | (n, s) :: rest => if n = name then (n, stream) :: rest else (n, s) :: putStream name stream rest

def dropStream {α : Type} (name : Text) (streams : List (Text × α)) : List (Text × α) :=
  streams.filter fun entry => entry.1 != name

def putOutput (name : Text) (o : Output) : Action Unit :=
  modify fun w => { w with outputs := putStream name o w.outputs }

/-- Hand on what standard output holds back. -/
def flushStandard : Action Unit :=
  modify fun w => { w with shown := w.shown ++ w.held, held := [] }

/-- Hand on what waits in a stream.  A command gets nothing before its stream is closed. -/
def flushOutput (o : Output) : Action Output := do
  match o.sink with
  | .standard =>
    flushStandard
    return o
  | .file path offset =>
    modify fun w => { w with files := w.files.put path (overwrite (w.files.text path) offset o.pending) }
    return ⟨.file path (offset + o.pending.length), []⟩
  | .fileEnd path =>
    modify fun w => { w with files := w.files.append path o.pending }
    return ⟨.fileEnd path, []⟩
  | .null => return ⟨.null, []⟩
  | .full => if o.pending.isEmpty then return o else throw .noSpace
  | .errors | .command _ => return o

/-- What follows the name in a warning about a device that takes no more. -/
def noSpaceNote : Text := " failed: [Errno 28] No space left on device".toList

/-- Flush one stream under its name, warning if that fails. -/
def flushNamed (name : Text) (o : Output) : Action Unit := do
  match ← observing (flushOutput o) with
  | .ok o => putOutput name o
  | .error _ => warn ("flush of '".toList ++ name ++ ['\''] ++ noSpaceNote)

def flushEach : List (Text × Output) → Action Unit
  | [] => return ()
  | (name, o) :: rest => do
    flushNamed name o
    flushEach rest

/-- Flush standard output, then all other streams. -/
def flushAll : Action Unit := do
  flushStandard
  flushEach (← get).outputs

/-- The sink of a file or device by name. -/
def openSink (anew : Bool) (name : Text) : Action Sink := do
  checkName name
  let w ← get
  let (found, files) := w.files.toWrite anew name
  set { w with files := files }
  match found with
  | .error reason => throw (.cannotOpen name reason)
  | .ok (.inl path) => return if anew then .file path 0 else .fileEnd path
  | .ok (.inr .full) => return .full
  | .ok (.inr .output) => return .standard
  | .ok (.inr .errors) => return .errors
  | .ok (.inr .null) | .ok (.inr .input) => return .null

/-- Open a stream under a name unless there is one. -/
def openOutput (op : RedirectOp) (name : Text) : Action Unit := do
  if ((← get).outputs.lookup name).isSome then return ()
  let sink ← match op with
    | .pipe => do
      flushAll
      checkName name
      pure (.command name)
    | .write | .append =>
      if isStandardOutput name then pure .standard
      else if name = standardErrorName then pure .errors
      else openSink (op = .write) name
  putOutput name ⟨sink, []⟩

/-- Write to the standard output. -/
def print (t : Text) : Action Unit := modify fun w => { w with held := w.held ++ t }

/-- Write to an open stream. -/
def printTo (name t : Text) : Action Unit := do
  match (← get).outputs.lookup name with
  | none => return ()
  | some o =>
    match o.sink with
    | .standard => print t
    | .errors => modify fun w => { w with errors := w.errors ++ t }
    | _ => putOutput name { o with pending := o.pending ++ t }

/-- Write to a stream, which is opened if there is none. -/
def redirect (op : RedirectOp) (name t : Text) : Action Unit := do
  openOutput op name
  printTo name t

/-- Close a stream that has left the table: hand on its text, and wait for its command. -/
def closeOutput (o : Output) : Action Nat := do
  match o.sink with
  | .command command => return statusOf (← runShown (some o.pending) command)
  | _ =>
    let _ ← flushOutput o
    return 0

end Awk.World
