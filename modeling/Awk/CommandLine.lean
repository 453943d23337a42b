import Awk.Escape
import Awk.Fault

/-!
# Command line

The options `-F`, `-v` and `-f`, each with its value in the same word or the next, up to the first word that is not
an option (`readOptions`).  The program text comes from the files named by `-f`, joined by newlines, or else it is
the first operand (`Options.program`).
-/

namespace Awk

inductive UsageError where
  | missingValue (flag : Char)
  | unknownOption (word : Text)
  | cannotRead (file : Text) (reason : OpenReason)
  | noProgram
  | badAssignment (word : Text)
  deriving DecidableEq, Repr

def UsageError.message : UsageError → Text
  | missingValue flag => "option requires an argument -- ".toList ++ [flag]
  | unknownOption word => "unknown option ".toList ++ word
  | cannotRead file reason => "can't open file ".toList ++ file ++ ": ".toList ++ reason.message
  | noProgram => "no program text".toList
  | badAssignment word => "invalid -v argument '".toList ++ word ++ ['\'']

def usage : Text := "usage: awk [-F fs][-v var=value][prog | -f progfile ...][file ...]".toList

/-- What the options say, and the operands after them. -/
structure Options where
  programFiles : List Text
  assignments : List Text
  fieldSep : Option Text
  operands : List Text
  deriving DecidableEq, Repr

namespace Options

def none : Options := ⟨[], [], Option.none, []⟩

/-- Note the value of an option; of several separators the last counts. -/
def add (o : Options) (flag : Char) (value : Text) : Option Options :=
  match flag with
  | 'F' => some { o with fieldSep := some value }
  | 'v' => some { o with assignments := o.assignments ++ [value] }
  | 'f' => some { o with programFiles := o.programFiles ++ [value] }
  | _ => Option.none

end Options

/-- Read options, after those already read. -/
def readOptionsFrom (o : Options) : List Text → Except UsageError Options
  | [] => .ok o
  | word :: words =>
    match word with
    | ['-', '-'] => .ok { o with operands := words }
    | '-' :: flag :: value =>
      match o.add flag value with
      | none => .error (.unknownOption word)
      | some given =>
        if value.isEmpty then
          match words with
          | [] => .error (.missingValue flag)
          | next :: words =>
            match o.add flag next with
            | none => .error (.unknownOption word)
            | some given => readOptionsFrom given words
        else readOptionsFrom given words
    | _ => .ok { o with operands := word :: words }

def readOptions (words : List Text) : Except UsageError Options := readOptionsFrom .none words

/-- The texts of program files, in order.  Reading may use up its source, so the state is passed on. -/
def readProgramFiles {σ : Type} (read : Text → σ → Except OpenReason Text × σ) :
    List Text → σ → Except UsageError (List Text) × σ
  | [], s => (.ok [], s)
  | file :: files, s =>
    match read file s with
    | (.error reason, s) => (.error (.cannotRead file reason), s)
    | (.ok text, s) =>
      let (texts, s) := readProgramFiles read files s
      (texts.map (text :: ·), s)

/-- A command line taken apart. -/
structure Invocation where
  source : Text
  operands : List Text
  assignments : List Text
  fieldSep : Option Text
  deriving DecidableEq, Repr

/-- Find the program text. -/
def Options.invocation {σ : Type} (o : Options) (read : Text → σ → Except OpenReason Text × σ) (s : σ) :
    Except UsageError Invocation × σ :=
  if o.programFiles.isEmpty then
    match o.operands with
    | [] => (.error .noProgram, s)
    | source :: operands => (.ok ⟨source, operands, o.assignments, o.fieldSep⟩, s)
  else
    let (texts, s) := readProgramFiles read o.programFiles s
    (texts.map fun texts => ⟨Text.join ['\n'] texts, o.operands, o.assignments, o.fieldSep⟩, s)

/-- Take a command line apart. -/
def readCommandLine {σ : Type} (words : List Text) (read : Text → σ → Except OpenReason Text × σ) (s : σ) :
    Except UsageError Invocation × σ :=
  match readOptions words with
  | .error e => (.error e, s)
  | .ok o => o.invocation read s

/-- The field separator that `-F` gives: a lone `t` is a tab, and escapes are decoded. -/
def fieldSeparator (t : Text) : Text := if t = ['t'] then ['\t'] else decodeEscapes t

/-- Name and value of an operand `name=value`. -/
def assignment? : Text → Option (Text × Text)
  | [] => none
  | c :: t =>
    if isNameStart c then
      match t.dropWhile isNameChar with
      | '=' :: value => some (c :: t.takeWhile isNameChar, value)
      | _ => none
    else none

def isAssignment (t : Text) : Bool := (assignment? t).isSome

end Awk
