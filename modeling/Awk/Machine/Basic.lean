import Awk.Machine.Random
import Awk.Machine.Store
import Awk.Record
import Awk.Syntax.Parts
import Awk.World.Close

/-!
# The state of a run

Everything that a running program owns, and the actions on it.  An action gives a result or is interrupted
(`Interruption`): by a fault, by a jump out of a statement, or because its fuel has run out.  Whichever it is, what it
has done to the state stays.
-/

namespace Awk

/-- How far the main input has come. -/
structure MainInput where
  /-- The next operand to look at. -/
  nextOperand : Nat
  current : Option Input
  /-- A file operand has been met, or the standard input taken in place of one. -/
  usedFile : Bool
  exhausted : Bool

structure Machine where
  store : Store
  record : Record
  world : World
  functions : List Function
  random : Random
  /-- The range rules, by their number among the rules, that are in a range. -/
  activeRanges : List Nat
  exitCode : Option Nat
  /-- Some operand could not be opened. -/
  inputFailed : Bool
  mainInput : MainInput

/-- Why an action ends early. -/
inductive Interruption where
  | failure (f : Failure)
  | next
  | nextFile
  | exit (code : Option Nat)
  | return (v : Value)
  | break
  | continue
  | exhausted

abbrev Eval := ExceptT Interruption (StateM Machine)

namespace Machine

/-- The settings, by name, as they are before anything is assigned. -/
def settingDefaults : List (String × String) :=
  [("FS", " "), ("OFS", " "), ("ORS", "\n"), ("RS", "\n"), ("SUBSEP", "\x1c"), ("CONVFMT", "%.6g"), ("OFMT", "%.6g"),
   ("FILENAME", "")]

/-- The counters and their first values. -/
def counterDefaults : List (String × Int) := [("NR", 0), ("FNR", 0), ("RSTART", 0), ("RLENGTH", -1)]

/-- The scalars that are there from the beginning. -/
def predefined : Table :=
  settingDefaults.map (fun (name, text) => (name.toList, .scalar (.str text.toList))) ++
    counterDefaults.map fun (name, n) => (name.toList, .scalar (.ofInt n))

/-- An array of input texts. -/
def inputArray (entries : List (Text × Text)) : Assoc :=
  entries.foldl (fun a (key, t) => a.insert key (.strnum t)) .empty

/-- The state before a run, with the environment that the program sees and its words. -/
def start (world : World) (functions : List Function) (environment : List (Text × Text)) (words : List Text) :
    Machine :=
  let store : Store := ⟨predefined, #[], #[]⟩
  let numbered := words.mapIdx fun i word => (Text.ofNat i, word)
  let store := (store.addGlobalArray "ENVIRON".toList (inputArray environment)).addGlobalArray "ARGV".toList
    (inputArray numbered)
  { store := store.setGlobal "ARGC".toList (.ofNat words.length)
    record := .empty
    world := world
    functions := functions
    random := .ofSeed .zero
    activeRanges := []
    exitCode := none
    inputFailed := false
    mainInput := ⟨1, none, false, false⟩ }

/-- The global scalars. -/
def scalars (m : Machine) : Variables := m.store.global?

end Machine

namespace Eval

def fail {α : Type} (f : Fault) : Eval α := throw (.failure ⟨f, none⟩)

/-- The result of a computation that can fail. -/
def ofExcept {α : Type} : Except Fault α → Eval α
  | .ok a => pure a
  | .error f => fail f

/-- An action on the record, under the present settings. -/
def onRecord {α : Type} (act : Variables → Record.Action α) : Eval α := ExceptT.mk fun m =>
  let (result, record) := (act m.scalars).run m.record
  (result.mapError fun f => .failure ⟨f, none⟩, { m with record := record })

/-- An action on the world. -/
def onWorld {α : Type} (act : World.Action α) : Eval α := ExceptT.mk fun m =>
  let (result, world) := act.run m.world
  (result.mapError fun f => .failure ⟨f, none⟩, { m with world := world })

/-- Name the place of a node as that of a failure that has none yet. -/
def located {α : Type} (span : Option Span) (act : Eval α) : Eval α := ExceptT.mk fun m =>
  match act.run m with
  | (.error (.failure ⟨fault, none⟩), m) =>
    (.error (.failure ⟨fault, span.map fun s => (s.line, s.column)⟩), m)
  | outcome => outcome

/-- Take an interruption as a result. -/
def catching {α : Type} (act : Eval α) : Eval (Except Interruption α) := ExceptT.mk do
  return .ok (← act.run)

def convfmt : Eval Text := do ofExcept (← get).scalars.convfmt

/-- The text of a setting. -/
def setting (name : String) : Eval Text := do
  let default := (Machine.settingDefaults.lookup name).getD ""
  ofExcept ((← get).scalars.setting name default.toList)

/-- The value of a global counter. -/
def counter (name : String) : Eval Number := do
  return ((← get).store.global? name.toList).elim .zero Value.toNumber

def setGlobal (name : String) (v : Value) : Eval Unit :=
  modify fun m => { m with store := m.store.setGlobal name.toList v }

/-- A value as text, under the present format. -/
def textOf (v : Value) : Eval Text := do ofExcept (v.toText (← convfmt))

end Eval

end Awk
