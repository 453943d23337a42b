import Awk.Reader
import Awk.Shell.Session
import Awk.Unicode.Basic
import Awk.Unicode.Case

/-!
# The world of a run

What a program reads from and writes to: files, the environment, one standard input that all its readers share, and
the standard output and error texts so far.  Standard output is held back (`held`) until it is flushed; commands that
run in between print directly to what has been shown.  They are run by the shell of the world, and share the standard
input as far as nobody has fetched it.

Streams are kept under the name they were opened with, in the order in which they were opened, output and input
apart.
-/

namespace Awk

/-- Where an output stream leads. -/
inductive Sink where
  /-- The program's own standard output. -/
  | standard
  | errors
  /-- A file, from an offset on. -/
  | file (path : Path) (offset : Nat)
  /-- The end of a file. -/
  | fileEnd (path : Path)
  | command (text : Text)
  | null
  /-- Refuses everything, but only when it is flushed. -/
  | full
  deriving DecidableEq, Repr

/-- An output stream, with the text not yet handed on. -/
structure Output where
  sink : Sink
  pending : Text
  deriving DecidableEq, Repr

/-- Where an input stream comes from. -/
inductive Origin where
  /-- The standard input, which other readers share. -/
  | standard
  /-- A file, of which some characters have been fetched. -/
  | file (path : Path) (fetched : Nat)
  /-- What a command printed, and how it ended. -/
  | command (ending : Shell.Ending)
  | null
  deriving DecidableEq, Repr

structure Input where
  reader : Reader
  origin : Origin
  deriving DecidableEq, Repr

/-- A stream from which nothing has been read. -/
def Input.ofOrigin (origin : Origin) : Input := ⟨.ofSource ⟨[], []⟩, origin⟩

structure World where
  files : Files
  environment : List (Text × Text)
  shell : Shell
  /-- The standard input that nobody has read yet: what a reader has fetched, and what stands behind it. -/
  input : Source
  /-- What standard output has received. -/
  shown : Text
  /-- What standard output will receive next. -/
  held : Text
  /-- What the program itself has reported. -/
  errors : Text
  outputs : List (Text × Output)
  inputs : List (Text × Input)
  /-- Seconds on the clock. -/
  clock : Nat

namespace World

/-- A world before a run, with the small shell, and with all of the standard input fetched. -/
def start (files : Files) (environment : List (Text × Text)) (input : Text) (clock : Nat) : World :=
  ⟨files, environment, Shell.run, .ofText input, [], [], [], [], [], clock⟩

/-- Operations on the world, which keeps their effects when they fail. -/
abbrev Action := ExceptT Fault (StateM World)

/-- A line on the error stream. -/
def report (message : Text) : Action Unit :=
  modify fun w => { w with errors := w.errors ++ "awk: ".toList ++ message ++ ['\n'] }

/-- Suspicious operations are reported. -/
def lint (w : World) : Bool :=
  let value := (w.environment.lookup "AWKREF_LINT".toList).getD []
  ["1", "true", "yes", "on"].any fun s => s.toList == Unicode.toLower (Text.trim Unicode.isSpace value)

/-- A warning that is given in any case. -/
def warnAlways (message : Text) : Action Unit := report ("warning: ".toList ++ message)

def warn (message : Text) : Action Unit := do
  if (← get).lint then warnAlways message

/-- Fail for a name that no file or command can have. -/
def checkName (name : Text) : Action Unit := do
  if name.contains '\x00' then throw .nulInName

/-- What comes of a command, and the world after it.  Its input is piped to it, or else it is the standard input, where
the command finds what nobody has fetched.  It may change the files, but not the working directory. -/
def commandRun (w : World) (piped : Option Text) (command : Text) : Shell.Outcome × World :=
  let outcome := w.shell w.environment w.files (piped.getD w.input.beyond) command
  let beyond := if piped.isSome then w.input.beyond else outcome.left
  (outcome, { w with
    files := { outcome.files with home := w.files.home }
    input := ⟨w.input.pending, beyond⟩ })

/-- Run a command. -/
def runCommand (piped : Option Text) (command : Text) : Action Shell.Outcome := do
  checkName command
  let (outcome, w) := (← get).commandRun piped command
  set w
  return outcome

/-- Run a command that prints to standard output. -/
def runShown (piped : Option Text) (command : Text) : Action Shell.Ending := do
  let outcome ← runCommand piped command
  modify fun w => { w with shown := w.shown ++ outcome.shown }
  return outcome.ending

/-- The status by which a program sees how a command ended. -/
def statusOf : Shell.Ending → Nat
  | .exited status => status
  | .signalled signal => 256 + signal

end World

end Awk
