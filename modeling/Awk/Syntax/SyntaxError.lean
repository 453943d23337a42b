import Awk.Text

/-!
# Syntax errors

Why a program text is refused, and where.  An error of the grammar also tells which token was found and, when one
construct would have fitted, what was expected.
-/

namespace Awk

inductive SyntaxFault where
  | openString
  | openRegex
  | strangeCharacter (c : Char)
  /-- Something else should stand here. -/
  | expected (construct : Text)
  | functionRedefined (name : Text)
  | parameterIsFunction (name : Text)
  | parameterRepeated (function name : Text)
  | undefinedFunction (name : Text)
  | tooManyArguments (name : Text) (given accepted : Nat)
  | outsideLoop (keyword : Text)
  | outsideRecordRule (keyword : Text)
  | returnOutsideFunction
  /-- The program is nested beyond what the reader's bound allows. -/
  | tooDeep
  deriving DecidableEq, Repr

namespace SyntaxFault

/-- The fault lies in the text of a token, not in the grammar. -/
def isLexical : SyntaxFault → Bool
  | openString | openRegex | strangeCharacter _ => true
  | _ => false

def message : SyntaxFault → Text
  | openString => "non-terminated string".toList
  | openRegex => "non-terminated regular expression".toList
  | strangeCharacter c => "unexpected character '".toList ++ c :: ['\'']
  | expected _ => "syntax error".toList
  | functionRedefined name => "function '".toList ++ name ++ "' previously defined".toList
  | parameterIsFunction name =>
    "function '".toList ++ name ++ "': cannot use function name as parameter name".toList
  | parameterRepeated function name =>
    "function '".toList ++ function ++ "': duplicate parameter '".toList ++ name ++ ['\'']
  | undefinedFunction name => "calling undefined function '".toList ++ name ++ ['\'']
  | tooManyArguments name given accepted =>
    "function '".toList ++ name ++ "' called with ".toList ++ Text.ofNat given ++ " args, accepts only ".toList
      ++ Text.ofNat accepted
  | outsideLoop keyword => '\'' :: keyword ++ "' is not allowed outside a loop".toList
  | outsideRecordRule keyword => '\'' :: keyword ++ "' used in BEGIN or END action".toList
  | returnOutsideFunction => "'return' used outside function context".toList
  | tooDeep => "program too deeply nested".toList

end SyntaxFault

structure SyntaxError where
  fault : SyntaxFault
  line : Nat
  column : Nat
  /-- The token at the place, for errors of the grammar. -/
  near : Option Text
  deriving DecidableEq, Repr

namespace SyntaxError

/-- What should stand at the place. -/
def expected (e : SyntaxError) : Option Text :=
  match e.fault with
  | .expected construct => some construct
  | _ => none

/-- The fault, the token found unless its text is empty, what was expected, and the place. -/
def message (e : SyntaxError) : Text :=
  let near := match e.near with
    | none | some [] => []
    | some t => " near '".toList ++ t ++ ['\'']
  let expected := match e.expected with
    | none => []
    | some t => " (expected ".toList ++ t ++ [')']
  e.fault.message ++ near ++ expected ++ " at line ".toList ++ Text.ofNat e.line ++ ", col ".toList
    ++ Text.ofNat e.column

end SyntaxError

end Awk
