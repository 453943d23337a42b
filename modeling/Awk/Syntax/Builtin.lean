import Awk.Text

/-!
# Built-in functions

The names of the built-in functions and how many arguments each takes.
-/

namespace Awk

inductive Builtin where
  | length
  | substr
  | index
  | split
  | sub
  | gsub
  | «match»
  | sprintf
  | tolower
  | toupper
  | sin
  | cos
  | atan2
  | exp
  | log
  | sqrt
  | int
  | rand
  | srand
  | close
  | fflush
  | system
  deriving DecidableEq, Repr

namespace Builtin

def all : List Builtin :=
  [length, substr, index, split, sub, gsub, «match», sprintf, tolower, toupper, sin, cos, atan2, exp, log, sqrt, int,
   rand, srand, close, fflush, system]

def name : Builtin → String
  | length => "length"
  | substr => "substr"
  | index => "index"
  | split => "split"
  | sub => "sub"
  | gsub => "gsub"
  | «match» => "match"
  | sprintf => "sprintf"
  | tolower => "tolower"
  | toupper => "toupper"
  | sin => "sin"
  | cos => "cos"
  | atan2 => "atan2"
  | exp => "exp"
  | log => "log"
  | sqrt => "sqrt"
  | int => "int"
  | rand => "rand"
  | srand => "srand"
  | close => "close"
  | fflush => "fflush"
  | system => "system"

def ofName? (name : Text) : Option Builtin := all.find? fun b => b.name.toList == name

/-- The least and the largest number of arguments, if there is a largest. -/
def arity : Builtin → Nat × Option Nat
  | length | fflush | srand => (0, some 1)
  | substr | split | sub | gsub => (2, some 3)
  | index | «match» | atan2 => (2, some 2)
  | sprintf => (1, none)
  | tolower | toupper | sin | cos | exp | log | sqrt | int | close | system => (1, some 1)
  | rand => (0, some 0)

/-- The arity in words. -/
def arityText (b : Builtin) : Text :=
  match b.arity with
  | (least, none) => "at least ".toList ++ Text.ofNat least
  | (least, some most) =>
    if least = most then Text.ofNat least else Text.ofNat least ++ " to ".toList ++ Text.ofNat most

def accepts (b : Builtin) (count : Nat) : Bool := b.arity.1 ≤ count && b.arity.2.all (count ≤ ·)

end Builtin

end Awk
