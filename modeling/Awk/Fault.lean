import Awk.Text

/-!
# Faults

Everything that can stop an evaluation, by cause; the wording is in `Fault.message` alone.  The kind of a fault
(`Fault.kind`) is what a caller may branch on.  A fault that arises while a node is evaluated is reported with the
line and column of the innermost such node (`Failure`).
-/

namespace Awk

/-- Why a regular expression is refused. -/
inductive RegexReason where
  | openClass
  | openCollating
  | openBracket
  | unknownClass (name : Text)
  /-- The pattern text is not well formed. -/
  | malformed
  deriving DecidableEq, Repr

/-- A pattern that is not well formed is reported without a reason of its own, under the mark `*`. -/
def RegexReason.message : RegexReason → Text
  | openClass => "unterminated character class".toList
  | openCollating => "unterminated collating element".toList
  | openBracket => "unterminated [] expression".toList
  | unknownClass name => "invalid character class '".toList ++ name ++ "'".toList
  | malformed => "*".toList

/-- Why a file cannot be opened. -/
inductive OpenReason where
  | missing
  | isDirectory
  | notDirectory
  | nameTooLong
  deriving DecidableEq, Repr

def OpenReason.message : OpenReason → Text
  | missing => "No such file or directory".toList
  | isDirectory => "Is a directory".toList
  | notDirectory => "Not a directory".toList
  | nameTooLong => "File name too long".toList

inductive Fault where
  | divisionByZero (operator : Text)
  | unknownOperator (operator : Text)
  /-- `next` or `nextfile` reached, through a function, from a rule that reads no records. -/
  | nextOutsideRecords (rule : String)
  | arrayAsScalar (name : Text)
  | scalarAsArray (name : Text)
  | splitIntoNonArray
  | negativeFieldCount (count : Int)
  | fieldOutOfRange (index : Int)
  | argumentCount (function : Text) (count : Nat) (expected : Text)
  | undefinedFunction (name : Text)
  | tooManyArguments (function : Text) (count accepted : Nat)
  | negativeArgument (function : String) (shown : Text)
  | badRegex (ere : Text) (reason : RegexReason)
  | cannotOpen (target : Text) (reason : OpenReason)
  /-- A whole number is needed where an infinity stands. -/
  | wholeOfInfinity
  /-- A whole number is needed where a NaN stands. -/
  | wholeOfNan
  /-- A repetition count, or a width, beyond every limit. -/
  | countTooLarge
  /-- A width or precision that a directive cannot hold. -/
  | badDirective
  /-- More fields than a list has places. -/
  | noRoom
  /-- A file name or a command with a NUL in it. -/
  | nulInName
  /-- A number literal with a digit that has no decimal value. -/
  | badNumeral (literal : Text)
  /-- A device that takes no more data. -/
  | noSpace
  deriving DecidableEq, Repr

inductive FaultKind where
  | runtime
  | type
  | division
  | argument
  | regex
  | file
  | value
  | overflow
  | memory
  | folding
  | device
  deriving DecidableEq, Repr

namespace Fault

def kind : Fault → FaultKind
  | divisionByZero _ => .division
  | unknownOperator _ | nextOutsideRecords _ | undefinedFunction _ => .runtime
  | arrayAsScalar _ | scalarAsArray _ | splitIntoNonArray => .type
  | negativeFieldCount _ | fieldOutOfRange _ | argumentCount .. | tooManyArguments .. | negativeArgument .. => .argument
  | badRegex .. => .regex
  | cannotOpen .. => .file
  | wholeOfInfinity | countTooLarge => .overflow
  | wholeOfNan | badDirective | nulInName => .value
  | noRoom => .memory
  | badNumeral _ => .folding
  | noSpace => .device

def message : Fault → Text
  | divisionByZero op => "division by zero in ".toList ++ op
  | unknownOperator op => "unknown arithmetic operator '".toList ++ op ++ "'".toList
  | nextOutsideRecords rule => "'next' or 'nextfile' called from ".toList ++ rule.toList
  | arrayAsScalar name => "attempt to use array '".toList ++ name ++ "' in a scalar context".toList
  | scalarAsArray name => "attempt to use scalar '".toList ++ name ++ "' as an array".toList
  | splitIntoNonArray => "split: second argument is not an array".toList
  | negativeFieldCount count => "NF set to negative value ".toList ++ Text.ofInt count
  | fieldOutOfRange index => "trying to access out of range field ".toList ++ Text.ofInt index
  | argumentCount function count expected =>
    function ++ ": called with ".toList ++ Text.ofNat count ++ " arguments, expects ".toList ++ expected
  | undefinedFunction name => "function '".toList ++ name ++ "' not defined".toList
  | tooManyArguments function count accepted =>
    "function '".toList ++ function ++ "' called with ".toList ++ Text.ofNat count ++ " args, accepts only ".toList ++
      Text.ofNat accepted
  | negativeArgument function shown => function.toList ++ ": received negative argument ".toList ++ shown
  | badRegex ere reason => "bad regular expression /".toList ++ ere ++ "/: ".toList ++ reason.message
  | cannotOpen target reason => "can't open '".toList ++ target ++ "': ".toList ++ reason.message
  | wholeOfInfinity => "an infinite number has no whole part".toList
  | wholeOfNan => "a number that is not one has no whole part".toList
  | countTooLarge => "a count is too large".toList
  | badDirective => "a format directive has an impossible width or precision".toList
  | noRoom => "there is no room for so much".toList
  | nulInName => "a name holds a NUL".toList
  | badNumeral literal => "bad number '".toList ++ literal ++ "'".toList
  | noSpace => "No space left on device".toList

end Fault

/-- A fault and, where there is one, the line and column of the node in whose evaluation it arose. -/
structure Failure where
  fault : Fault
  place : Option (Nat × Nat)
  deriving DecidableEq, Repr

/-- The fault's message, followed by its place. -/
def Failure.message (f : Failure) : Text :=
  match f.place with
  | none => f.fault.message
  | some (line, column) =>
    f.fault.message ++ " (line ".toList ++ Text.ofNat line ++ ", col ".toList ++ Text.ofNat column ++ ")".toList

end Awk
