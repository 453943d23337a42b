import Awk.Shell.Basic
import Awk.Shell.Command
import Awk.Shell.Utilities

/-!
# A small shell

`run` is a shell with lists, pipelines, subshells, redirections, variables and arithmetic, and the utilities `echo`,
`printf`, `cat`, `sort`, `sh`, `true`, `false`, `exit` and `kill`.  A command has an input text, changes files, and
prints; what it prints on its error stream is dropped unless a redirection sends it elsewhere.

A shell has a number, `$$`, which is one more than that of the shell that started it; a signal to a number ends that
shell and all that run below it.
-/

namespace Awk.Shell

/-- Where a stream leads. -/
inductive Sink where
  /-- Text that is being gathered; the outermost is what the whole command prints. -/
  | gathered (level : Nat)
  | file (path : Path)
  | nowhere
  | full
  deriving DecidableEq, Repr

/-- The streams that a command writes to. -/
structure Streams where
  out : Sink
  err : Sink
  deriving DecidableEq, Repr

structure Variable where
  value : Text
  exported : Bool
  deriving DecidableEq, Repr

structure Session where
  files : Files
  input : Text
  /-- Texts being gathered, the outermost first. -/
  gathered : List Text
  table : List (Text × Variable)
  /-- The parameters `$0`, `$1`, … -/
  arguments : List Text
  status : Nat
  /-- The status of the last command substitution of the command that is run. -/
  substituted : Option Nat
  process : Nat
  /-- The line of the commands that are run. -/
  line : Nat
  deriving DecidableEq, Repr

/-- Why a shell ends before the end of its commands. -/
inductive Stop where
  | exit (status : Nat)
  | killed (process signal : Nat)
  deriving DecidableEq, Repr

abbrev Action := ExceptT Stop (StateM Session)

/-- The status a shell reports for a command that a signal ended. -/
def signalStatus (signal : Nat) : Nat := 128 + signal

def syntaxStatus : Nat := 2

def unknownStatus : Nat := 127

/-! ### Streams -/

/-- Write to a sink; the flag tells whether it took the text. -/
def emit (sink : Sink) (t : Text) : Action Bool :=
  match sink with
  | .gathered level => do
    modify fun s => { s with gathered := s.gathered.modify level (· ++ t) }
    return true
  | .file path => do
    modify fun s => { s with files := s.files.append path t }
    return true
  | .nowhere => return true
  | .full => return t.isEmpty

/-- Run an action with its output gathered, and give that. -/
def gather {α : Type} (streams : Streams) (act : Streams → Action α) : Action (α × Text) := ExceptT.mk do
  let level := (← get).gathered.length
  modify fun s => { s with gathered := s.gathered ++ [[]] }
  let result ← (act { streams with out := .gathered level }).run
  let text := ((← get).gathered[level]?).getD []
  modify fun s => { s with gathered := s.gathered.take level }
  return result.map (·, text)

/-- Run an action with another input, and restore the input afterwards. -/
def withInput {α : Type} (input : Text) (act : Action α) : Action α := ExceptT.mk do
  let saved := (← get).input
  modify fun s => { s with input := input }
  let result ← act.run
  modify fun s => { s with input := saved }
  return result

/-- Run an action in a shell of its own: variables, parameters and `exit` stay inside. -/
def isolated (act : Action Nat) : Action Nat := ExceptT.mk do
  let saved ← get
  let result ← act.run
  modify fun s => { saved with files := s.files, input := s.input, gathered := s.gathered }
  return match result with
    | .error (.exit status) => .ok status
    | result => result

/-- All that is left of the input. -/
def takeInput : Action Text := do
  let t := (← get).input
  modify fun s => { s with input := [] }
  return t

/-- The text of a file or device, by name. -/
def readFile (name : Text) : Action (Except OpenReason Text) := do
  let s ← get
  let (found, files) := s.files.toRead name
  modify fun s => { s with files := files }
  match found with
  | .error reason => return .error reason
  | .ok (.inl path) => return .ok (files.text path)
  | .ok (.inr .input) => return .ok (← takeInput)
  | .ok (.inr _) => return .ok []

/-! ### Parameters -/

/-- Entries with a variable set; one that is exported stays so. -/
def setVariable (name value : Text) (exported : Bool) : List (Text × Variable) → List (Text × Variable)
  | [] => [(name, ⟨value, exported⟩)]
  | (n, v) :: rest =>
    if n = name then (n, ⟨value, v.exported || exported⟩) :: rest
    else (n, v) :: setVariable name value exported rest

def parameter (name : Text) : Action Text := do
  let s ← get
  match name with
  | ['?'] => return Text.ofNat s.status
  | ['$'] => return Text.ofNat s.process
  | ['#'] => return Text.ofNat (s.arguments.length - 1)
  | ['@'] | ['*'] => return Text.join [' '] s.arguments.tail
  | _ =>
    match number? name with
    | some n => return (s.arguments[n]?).getD []
    | none => return (s.table.lookup name).elim [] (·.value)

/-! ### Expansion -/

/-- The command substitution of a text, without the newlines at its end. -/
abbrev Substitution := Text → Action Text

/-- The text that an expansion stands for; a wrong expression ends the shell. -/
def expansionText (substitute : Substitution) : Expansion → Action Text
  | .parameter name => parameter name
  | .fallback name other => do
    let value ← parameter name
    return if value.isEmpty then other else value
  | .command t => substitute t
  | .arithmetic t => do
    let pieces := (Word.readQuoted? t).getD []
    let parts ← pieces.mapM fun
      | .text _ t => pure t
      | .expansion _ (.parameter name) => parameter name
      | .expansion _ (.command t) => substitute t
      | .expansion _ _ => pure []
    let s ← get
    let value (name : Text) : Option Int :=
      match s.table.lookup name with
      | none => some 0
      | some v => if v.value.isEmpty then some 0 else Arithmetic.signed? v.value
    match Arithmetic.evaluate? value parts.flatten with
    | some n => return Text.ofInt n
    | none => throw (.exit syntaxStatus)

/-- A word as one text. -/
def wordText (substitute : Substitution) (word : Word) : Action Text := do
  let parts ← word.mapM fun
    | .text _ t => pure t
    | .expansion _ e => expansionText substitute e
  return parts.flatten

def isSeparator (c : Char) : Bool := c == ' ' || c == '\t' || c == '\n'

/-- Add the value of an unquoted expansion to the fields before it and the one that is being made: blanks separate
fields. -/
def addSplit (done : List Text) (current : Option Text) : Text → List Text × Option Text
  | [] => (done, current)
  | c :: t =>
    if isSeparator c then addSplit (done ++ current.toList) none t
    else addSplit done (some (current.getD [] ++ [c])) t

/-- The fields of a word. -/
def wordFields (substitute : Substitution) (done : List Text) (current : Option Text) : Word → Action (List Text)
  | [] => return done ++ current.toList
  | .text _ t :: word => wordFields substitute done (some (current.getD [] ++ t)) word
  | .expansion quoted e :: word => do
    let value ← expansionText substitute e
    if quoted then wordFields substitute done (some (current.getD [] ++ value)) word
    else
      let (done, current) := addSplit done current value
      wordFields substitute done current word

/-! ### Redirections -/

/-- The shell's name for itself and the line it is at, before what it has to say. -/
def place : Action Text := do
  let s ← get
  return s.arguments.headD [] ++ ": ".toList ++ Text.ofNat s.line ++ ": ".toList

/-- Text about a failure, on the error stream. -/
def complain (streams : Streams) (t : Text) : Action Unit := do
  let _ ← emit streams.err (t ++ ['\n'])

/-- Open a file to write. -/
def openSink (streams : Streams) (anew : Bool) (name : Text) : Action (Option Sink) := do
  let s ← get
  let (found, files) := s.files.toWrite anew name
  modify fun s => { s with files := files }
  match found with
  | .error _ => return none
  | .ok (.inl path) => return some (.file path)
  | .ok (.inr .full) => return some .full
  | .ok (.inr .output) => return some streams.out
  | .ok (.inr .errors) => return some streams.err
  | .ok (.inr _) => return some .nowhere

/-- Lead a stream somewhere else. -/
def Streams.lead (streams : Streams) (stream : Nat) (sink : Sink) : Streams :=
  match stream with
  | 1 => { streams with out := sink }
  | 2 => { streams with err := sink }
  | _ => streams

/-- The sink of a stream. -/
def Streams.sink (streams : Streams) : Nat → Sink
  | 1 => streams.out
  | 2 => streams.err
  | _ => .nowhere

/-- The streams and the input after redirections, from the left; none if one fails. -/
def redirected (substitute : Substitution) (streams : Streams) (input : Option Text) :
    List Redirect → Action (Option (Streams × Option Text))
  | [] => return some (streams, input)
  | r :: rest => do
    let target ← wordText substitute r.target
    match r.kind with
    | .input =>
      match ← readFile target with
      | .ok t => redirected substitute streams (some t) rest
      | .error reason =>
        complain streams ((← place) ++ "cannot open ".toList ++ target ++ ": ".toList ++
          (if reason = .missing then "No such file".toList else reason.message))
        return none
    | .copy =>
      match number? target with
      | some n => redirected substitute (streams.lead r.stream (streams.sink n)) input rest
      | none => redirected substitute (streams.lead r.stream .nowhere) input rest
    | kind =>
      match ← openSink streams (kind = .output) target with
      | some sink => redirected substitute (streams.lead r.stream sink) input rest
      | none =>
        complain streams ((← place) ++ "cannot create ".toList ++ target ++
          ": Directory nonexistent".toList)
        return none

/-! ### Utilities -/

/-- Hand the texts of files to an action one after the other, the input standing for `-`; the flag tells whether all
could be read. -/
def eachText (streams : Streams) (before : Text) (act : Text → Action Unit) : List Text → Action Bool
  | [] => return true
  | name :: names => do
    let found ← if name = ['-'] then (do return .ok (← takeInput)) else readFile name
    match found with
    | .ok t =>
      act t
      eachText streams before act names
    | .error reason =>
      complain streams (before ++ name ++ ": ".toList ++ reason.message)
      let _ ← eachText streams before act names
      return false

/-- The texts of files joined; the flag tells whether all could be read. -/
def readAll (streams : Streams) (before : Text) : List Text → Action (Text × Bool)
  | [] => return ([], true)
  | name :: names => do
    let found ← if name = ['-'] then (do return .ok (← takeInput)) else readFile name
    match found with
    | .ok t =>
      let (rest, fine) ← readAll streams before names
      return (t ++ rest, fine)
    | .error reason =>
      complain streams (before ++ name ++ ": ".toList ++ reason.message)
      return ([], false)

/-- The names that a utility is given, or its input. -/
def namesOrInput (names : List Text) : List Text := if names.isEmpty then [['-']] else names

/-- The argument is an option word. -/
def isOption (arg : Text) : Bool :=
  match arg with
  | '-' :: _ :: _ => true
  | _ => false

/-- Write to a sink; the status tells whether it took the text. -/
def writeStatus (sink : Sink) (t : Text) (failed : Nat) : Action Nat := do
  let taken ← emit sink t
  return if taken then 0 else failed

def cat (streams : Streams) (args : List Text) : Action Nat := do
  let names := namesOrInput (args.filter (!isOption ·))
  let fine ← eachText streams "cat: ".toList (fun t => do let _ ← emit streams.out t) names
  return if fine && streams.out != .full then 0 else 1

def sort (streams : Streams) (args : List Text) : Action Nat := do
  let names := namesOrInput (args.filter (!isOption ·))
  let options := (args.filter isOption).foldl (fun (o : Option SortOptions) arg => o.bind (·.add? arg.tail))
    (some ⟨false, false, false⟩)
  match options with
  | none => return 2
  | some o =>
    let (t, fine) ← readAll streams "sort: cannot read: ".toList names
    if !fine then return 2
    writeStatus streams.out ((o.sort (linesOf t)).flatMap (· ++ ['\n'])) 2

/-- Send a signal; only shells can be reached. -/
def kill (args : List Text) : Action Nat := do
  match killArguments? args with
  | none => return 2
  | some (signal, targets) =>
    for target in targets do
      match number? target with
      | some n =>
        if !(0 < n && n ≤ (← get).process) then return 1
        if isFatal signal then throw (.killed n signal)
      | none => return 1
    return 0

/-- The status that `exit` names; none if it is not one. -/
def exitStatus? (status : Nat) : List Text → Option Nat
  | [] => some status
  | arg :: _ => (number? arg).map (· % 256)

/-- Commands from a text in a shell of its own, started with parameters. -/
abbrev Start := Streams → (parameters : List Text) → (script : Text) → Action Nat

/-- Start a shell: on a text given, on a file, or on the input. -/
def sh (start : Start) (streams : Streams) : List Text → Action Nat
  | ['-', 'c'] :: script :: rest => start streams (if rest.isEmpty then ["sh".toList] else rest) script
  | [] => do start streams ["sh".toList] (← takeInput)
  | name :: rest => do
    match ← readFile name with
    | .ok script => start streams (name :: rest) script
    | .error _ => return unknownStatus

/-- Run a utility by name. -/
def utility (start : Start) (streams : Streams) (name : Text) (args : List Text) : Action Nat := do
  if name = "true".toList then return 0
  else if name = "false".toList then return 1
  else if name = "echo".toList then writeStatus streams.out (echo args) 1
  else if name = "printf".toList then
    match args with
    | [] => return 2
    | format :: args => writeStatus streams.out (printf format args) 1
  else if name = "cat".toList then cat streams args
  else if name = "sort".toList then sort streams args
  else if name = "kill".toList then kill args
  else if name = "sh".toList then sh start streams args
  else if name = "exit".toList then
    throw (.exit ((exitStatus? (← get).status args).getD syntaxStatus))
  else
    complain streams ((← place) ++ name ++ ": not found".toList)
    return unknownStatus

/-! ### Commands -/

/-- A signal that ends a shell started by this one gives a status; any other goes on. -/
def waitFor (act : Action Nat) : Action Nat := do
  let process := (← get).process
  tryCatch act fun
    | .killed n signal => if process < n then return signalStatus signal else throw (.killed n signal)
    | stop => throw stop

/-- Assign variables, for a command or for good. -/
def assignAll (substitute : Substitution) (exported : Bool) : List (Text × Word) → Action Unit
  | [] => return ()
  | (name, word) :: rest => do
    let value ← wordText substitute word
    modify fun s => { s with table := setVariable name value exported s.table }
    assignAll substitute exported rest

/-- Run a simple command: expand its words, then redirect, then assign. -/
def simple (substitute : Substitution) (start : Start) (streams : Streams) (assignments : List (Text × Word))
    (words : List Word) (redirects : List Redirect) : Action Nat := do
  modify fun s => { s with substituted := none }
  let fields ← words.mapM (wordFields substitute [] none)
  match ← redirected substitute streams none redirects with
  | none => return syntaxStatus
  | some (streams, input) =>
    match fields.flatten with
    | [] =>
      assignAll substitute false assignments
      return (← get).substituted.getD 0
    | name :: args =>
      let saved := (← get).table
      assignAll substitute true assignments
      let act := utility start streams name args
      let status ← match input with
        | some t => withInput t act
        | none => act
      modify fun s => { s with table := if assignments.isEmpty then s.table else saved }
      return status

/-- The same action under redirections. -/
def underRedirects (substitute : Substitution) (streams : Streams) (redirects : List Redirect)
    (act : Streams → Action Nat) : Action Nat := do
  match ← redirected substitute streams none redirects with
  | none => return syntaxStatus
  | some (streams, some t) => withInput t (act streams)
  | some (streams, none) => act streams

mutual

/-- Run a command.  The fuel bounds the depth of commands and of shells in shells. -/
def exec : Nat → Streams → Command → Action Nat
  | 0, _, _ => throw (.exit syntaxStatus)
  | fuel + 1, streams, c => do
    let substitute : Substitution := fun t => do
      let (status, shown) ← gather streams fun streams => isolated (lines fuel streams (scan t))
      modify fun s => { s with substituted := some status }
      return Text.trimRight (· == '\n') shown
    let start : Start := fun streams parameters script => isolated do
      modify fun s =>
        { s with
          arguments := parameters
          table := s.table.filter fun entry => entry.2.exported
          status := 0
          process := s.process + 1
          line := 1 }
      lines fuel streams (scan script)
    let status ← match c with
      | .simple assignments words redirects =>
        waitFor (simple substitute start streams assignments words redirects)
      | .group body redirects =>
        underRedirects substitute streams redirects fun streams => exec fuel streams body
      | .subshell body redirects =>
        underRedirects substitute streams redirects fun streams => isolated (exec fuel streams body)
      | .pipe left right =>
        let (_, shown) ← gather streams fun streams => isolated (exec fuel streams left)
        withInput shown (isolated (exec fuel streams right))
      | .negation c =>
        let status ← exec fuel streams c
        pure (if status = 0 then 1 else 0)
      | .and left right =>
        let status ← exec fuel streams left
        if status = 0 then exec fuel streams right else pure status
      | .or left right =>
        let status ← exec fuel streams left
        if status = 0 then pure status else exec fuel streams right
      | .sequence left right =>
        let _ ← exec fuel streams left
        exec fuel streams right
    modify fun s => { s with status := status }
    return status

/-- Run the commands of a text line by line; a line that cannot be read ends the shell. -/
def lines : Nat → Streams → List Token → Action Nat
  | 0, _, _ => throw (.exit syntaxStatus)
  | fuel + 1, streams, ts =>
    match ts with
    | [] => do return (← get).status
    | .newline :: ts => do
      modify fun s => { s with line := s.line + 1 }
      lines fuel streams ts
    | ts =>
      match Command.read? ts with
      | none => throw (.exit syntaxStatus)
      | some (c, rest) => do
        let _ ← exec fuel streams c
        modify fun s => { s with line := s.line + (ts.count .newline - rest.count .newline) }
        lines fuel streams rest

end

/-- The depth of commands that a run may have. -/
def depthLimit : Nat := 100000

/-- Run a command text. -/
def run : Shell := fun environment files input command =>
  let session : Session := {
    files := files
    input := input
    gathered := [[]]
    table := environment.map fun (name, value) => (name, ⟨value, true⟩)
    arguments := ["/bin/sh".toList]
    status := 0
    substituted := none
    process := 1
    line := 1 }
  let (result, session) := (lines depthLimit ⟨.gathered 0, .nowhere⟩ (scan command)).run session
  let ending : Ending := match result with
    | .ok status | .error (.exit status) => .exited status
    | .error (.killed _ signal) => .signalled signal
  ⟨session.files, session.gathered.headD [], session.input, ending⟩

end Awk.Shell
