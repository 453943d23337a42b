import Awk.World.Output

/-!
# Input streams

A stream is opened by the first read from its name and stays open until it is closed.  Records come through its
reader, which fetches from the file as it stands at that time (`readInput`).  All streams on the standard input share
what has not been read, and the commands whose output is read share what has not been fetched.
-/

namespace Awk.World

/-- Names of the standard input. -/
def isStandardInput (name : Text) : Bool := name == "/dev/stdin".toList || name == ['-']

/-- A stream on a file or device. -/
def openFile (name : Text) : Action Input := do
  if isStandardInput name then return .ofOrigin .standard
  checkName name
  let w ← get
  let (found, files) := w.files.toRead name
  set { w with files := files }
  match found with
  | .error reason => throw (.cannotOpen name reason)
  | .ok (.inl path) => return .ofOrigin (.file path 0)
  | .ok (.inr .input) => return .ofOrigin .standard
  | .ok (.inr _) => return .ofOrigin .null

/-- A text with every kind of line end turned into a newline. -/
def unifyNewlines : Text → Text
  | '\r' :: '\n' :: t | '\r' :: t => '\n' :: unifyNewlines t
  | c :: t => c :: unifyNewlines t
  | [] => []

/-- A stream on what a command prints. -/
def openCommand (command : Text) : Action Input := do
  flushAll
  let outcome ← runCommand none command
  return ⟨.ofText (unifyNewlines outcome.shown), .command outcome.ending⟩

/-- The reader's source as it stands now. -/
def sourceOf (i : Input) (w : World) : Source :=
  match i.origin with
  | .standard => w.input
  | .file path fetched => ⟨i.reader.source.pending, (w.files.text path).drop fetched⟩
  | .command _ | .null => i.reader.source

/-- Put back what the reader has left of its source. -/
def keepSource (i : Input) (before : Source) (reader : Reader) (w : World) : Input × World :=
  match i.origin with
  | .standard => ({ i with reader := reader }, { w with input := reader.source })
  | .file path fetched =>
    let taken := before.beyond.length - reader.source.beyond.length
    (⟨{ reader with source := ⟨reader.source.pending, []⟩ }, .file path (fetched + taken)⟩, w)
  | .command _ | .null => ({ i with reader := reader }, w)

/-- The next record of a stream, none at its end, and the stream afterwards. -/
def readInput (i : Input) (separator : Text) : Action (Except Fault (Option Text) × Input) := do
  let w ← get
  let source := sourceOf i w
  let (record, reader) := { i.reader with source := source }.readRecord separator
  let (i, w) := keepSource i source reader w
  set w
  return (record, i)

/-- What an input stream is opened on. -/
inductive InputKind where
  | file
  | command
  deriving DecidableEq, Repr

/-- The stream under a name, opened if there is none. -/
def inputNamed (kind : InputKind) (name : Text) : Action Input := do
  match (← get).inputs.lookup name with
  | some i => return i
  | none =>
    let i ← match kind with
      | .file => openFile name
      | .command => openCommand name
    modify fun w => { w with inputs := putStream name i w.inputs }
    return i

/-- The next record of the stream under a name. -/
def readNamed (kind : InputKind) (name separator : Text) : Action (Option Text) := do
  let (record, i) ← readInput (← inputNamed kind name) separator
  modify fun w => { w with inputs := putStream name i w.inputs }
  match record with
  | .ok record => return record
  | .error fault => throw fault

/-- The status of a stream that is closed. -/
def closeInput (i : Input) : Nat :=
  match i.origin with
  | .command ending => statusOf ending
  | _ => 0

end Awk.World
