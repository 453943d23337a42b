import Awk.Syntax.SyntaxError
import Awk.Syntax.Token
import Awk.Unicode.Basic

/-!
# Lexemes

What stands at the start of a program text: `lexeme` finds the kind, the value and the length of the token there, and
`blankLength` the length of the blanks, comments and continued line ends before it.  The slash that opens a regular
expression is not told apart from a division here; `regexLexeme` reads a regular expression where the grammar wants
one.
-/

namespace Awk

structure Lexeme where
  kind : TokenKind
  value : Text
  length : Nat
  deriving DecidableEq, Repr

namespace Lexeme

def isBlank (c : Char) : Bool := c == ' ' || c == '\t' || c == '\r' || c == '\x0c' || c == '\x0b'

/-- Number of characters before the first token: blanks, backslashes before line ends, and comments, which run up to
the end of their line.  The flag tells that a comment has begun. -/
def blankLength (comment : Bool) : Text → Nat
  | [] => 0
  | c :: t =>
    if comment then (if c = '\n' then 0 else blankLength true t + 1)
    else if isBlank c then blankLength false t + 1
    else if c = '#' then blankLength true t + 1
    else if c = '\\' then
      match t with
      | '\n' :: t => blankLength false t + 2
      | '\r' :: '\n' :: t => blankLength false t + 3
      | _ => 0
    else 0

/-- The text of a string literal up to its closing quote, escapes as written.  A line end is allowed only after a
backslash. -/
def stringBody : Text → Option Text
  | [] => none
  | '"' :: _ => some []
  | '\n' :: _ => none
  | '\\' :: c :: t => (stringBody t).map fun body => '\\' :: c :: body
  | c :: t => (stringBody t).map (c :: ·)

/-- The members that may stand first in a bracket expression without ending it: a caret and then a closing bracket. -/
def bracketStart : Text → Text
  | '^' :: ']' :: _ => ['^', ']']
  | '^' :: _ => ['^']
  | ']' :: _ => [']']
  | _ => []

/-- Value and length of a regular expression up to its closing slash.  A slash after a backslash loses it and does not
close; nor does one inside a bracket expression, where a named class is passed over whole. -/
def regexBody (inBracket : Bool) (t : Text) : Option (Text × Nat) :=
  match t with
  | [] => none
  | '\n' :: _ => none
  | '\\' :: c :: t =>
    (regexBody inBracket t).map fun (value, length) =>
      (if c = '/' then '/' :: value else '\\' :: c :: value, length + 2)
  | c :: t =>
    if c = '[' && !inBracket then
      let start := bracketStart t
      (regexBody true (t.drop start.length)).map fun (value, length) =>
        ('[' :: start ++ value, start.length + length + 1)
    else
      let passed := if inBracket && c = '[' then
          match t with
          | mark :: rest => if mark = ':' || mark = '.' || mark = '=' then
              (Text.find? [mark, ']'] rest).map fun offset => offset + 3
            else none
          | [] => none
        else none
      match passed with
      | some count =>
        (regexBody inBracket (t.drop count)).map fun (value, length) =>
          (c :: t.take count ++ value, length + count + 1)
      | none =>
        if c = '/' && !inBracket then some ([], 0)
        else
          (regexBody (inBracket && c != ']') t).map fun (value, length) => (c :: value, length + 1)
termination_by t.length
decreasing_by all_goals (simp_all; try omega)

/-- The digits at the start of a text. -/
def digits (t : Text) : Text := t.takeWhile Unicode.isDigit

/-- The fraction at the start of a text: a point and the digits after it. -/
def fraction : Text → Text
  | '.' :: t => '.' :: digits t
  | _ => []

/-- The exponent at the start of a text; without digits there is none. -/
def exponent : Text → Text
  | e :: t =>
    if e = 'e' || e = 'E' then
      let sign := match t with
        | '+' :: _ => ['+']
        | '-' :: _ => ['-']
        | _ => []
      match digits (t.drop sign.length) with
      | [] => []
      | ds => e :: sign ++ ds
    else []
  | [] => []

/-- The number literal at the start of a text. -/
def numberText (t : Text) : Text :=
  let whole := digits t
  let point := fraction (t.drop whole.length)
  whole ++ point ++ exponent (t.drop (whole.length + point.length))

def startsNumber : Text → Bool
  | '.' :: c :: _ => Unicode.isDigit c
  | c :: _ => Unicode.isDigit c
  | [] => false

def startsName (c : Char) : Bool := Unicode.isLetter c || c == '_'

def continuesName (c : Char) : Bool := Unicode.isAlphanumeric c || c == '_'

/-- The kind of a name that is followed by `rest`. -/
def nameKind (name rest : Text) : TokenKind :=
  match keyword? name with
  | some kind => kind
  | none =>
    match Builtin.ofName? name with
    | some b => .builtin b
    | none => if rest.head? == some '(' then .funcName else .name

/-- The operator at the start of a text. -/
def operator? (t : Text) : Option (String × TokenKind) :=
  operators.find? fun entry => Text.startsWith t entry.1.toList

/-- A lexeme whose value is the text that it covers. -/
def plain (kind : TokenKind) (value : Text) : Lexeme := ⟨kind, value, value.length⟩

/-- The lexeme at the start of a text, which no blanks precede. -/
def scan : Text → Except SyntaxFault Lexeme
  | [] => .ok ⟨.eof, [], 0⟩
  | c :: t =>
    if c = '\n' then .ok (plain .newline ['\n'])
    else if c = '"' then
      match stringBody t with
      | some body => .ok ⟨.string, body, body.length + 2⟩
      | none => .error .openString
    else if startsNumber (c :: t) then .ok (plain .number (numberText (c :: t)))
    else if startsName c then
      let name := (c :: t).takeWhile continuesName
      .ok (plain (nameKind name ((c :: t).drop name.length)) name)
    else
      match operator? (c :: t) with
      | some (op, kind) => .ok (plain kind op.toList)
      | none => .error (.strangeCharacter c)

/-- The regular expression at the start of a text, whose first character is taken for the opening slash. -/
def scanRegex (t : Text) : Except SyntaxFault Lexeme :=
  match regexBody false t.tail with
  | some (value, length) => .ok ⟨.ere, value, length + 2⟩
  | none => .error .openRegex

end Lexeme

end Awk
