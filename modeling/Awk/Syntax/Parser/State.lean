import Awk.Syntax.Cursor
import Awk.Syntax.Tree

/-!
# State of the parser

The parser looks at one token at a time, the current one.  Taking it (`advance`) reads the next one at once, so that
a token that cannot be read is an error as soon as it becomes current.
-/

namespace Awk

structure ParserState where
  /-- Behind the last token taken. -/
  position : Cursor
  current : Token
  /-- Behind the current token. -/
  behind : Cursor
  /-- Offset behind the last token taken, if there is one. -/
  lastStop : Option Nat
  /-- The functions defined so far and their numbers of parameters. -/
  functions : List (Text × Nat)
  /-- The calls met so far and their numbers of arguments, latest first. -/
  calls : List (Token × Nat)

/-- A parser takes tokens and gives what it has read, or a syntax error. -/
abbrev Parser := StateT ParserState (Except SyntaxError)

namespace Parser

/-- The token as an error message names it. -/
def describe (token : Token) : Text :=
  match token.kind with
  | .newline => "newline".toList
  | .eof => "end of file".toList
  | _ => token.text

def errorAt (fault : SyntaxFault) (token : Token) : SyntaxError :=
  ⟨fault, token.span.line, token.span.column, some (describe token)⟩

def failAt {α : Type} (fault : SyntaxFault) (token : Token) : Parser α := throw (errorAt fault token)

def current : Parser Token := do
  return (← get).current

def kind : Parser TokenKind := do
  return (← get).current.kind

/-- Fail at the current token, where something else should stand. -/
def failExpecting {α : Type} (construct : String) : Parser α := do
  failAt (.expected construct.toList) (← current)

/-- Put the token that follows a cursor in current place. -/
def moveTo (position : Cursor) (lastStop : Option Nat) : Parser Unit := do
  let (token, behind) ← position.token
  modify fun s => { s with position := position, current := token, behind := behind, lastStop := lastStop }

/-- Take the current token. -/
def advance : Parser Token := do
  let s ← get
  moveTo s.behind (some s.current.span.stop)
  return s.current

/-- Take the current token if it is of a kind. -/
def accept (k : TokenKind) : Parser Bool := do
  if (← kind) = k then
    let _ ← advance
    return true
  else
    return false

/-- Take the current token, which has to be of a kind. -/
def expect (k : TokenKind) (construct : String) : Parser Token := do
  if (← kind) = k then advance else failExpecting construct

/-- The kind of the token after the current one. -/
def nextKind : Parser TokenKind := do
  let (token, _) ← (← get).behind.token
  return token.kind

/-- Take tokens as long as they are of certain kinds. -/
def skipFuel (skipped : TokenKind → Bool) : Nat → Parser Unit
  | 0 => return ()
  | fuel + 1 => do
    if skipped (← kind) then
      let _ ← advance
      skipFuel skipped fuel

/-- Each token skipped takes at least one character. -/
def skip (skipped : TokenKind → Bool) : Parser Unit := do
  skipFuel skipped ((← get).behind.rest.length + 1)

def skipNewlines : Parser Unit := skip (· == .newline)

def skipTerminators : Parser Unit := skip fun k => k == .newline || k == .semi

/-- Kinds of tokens that end a simple statement. -/
def isTerminator (k : TokenKind) : Bool := k == .newline || k == .semi || k == .rbrace || k == .eof

def atTerminator : Parser Bool := do
  return isTerminator (← kind)

/-- The place from a token to the last token taken. -/
def spanFrom (token : Token) : Parser Span := do
  let stop := (← get).lastStop.getD token.span.stop
  return { token.span with stop := max stop token.span.stop }

/-- Take a regular expression where the current token begins. -/
def takeRegex : Parser Token := do
  let (token, behind) ← (← get).position.regex
  moveTo behind (some token.span.stop)
  return token

/-- The parser at the start of a text. -/
def start (source : Text) : Except SyntaxError ParserState := do
  let cursor := Cursor.ofText source
  let (token, behind) ← cursor.token
  return ⟨cursor, token, behind, none, [], []⟩

/-- Enough for the nesting of any program of a length: no token adds more than this many levels. -/
def fuelFor (source : Text) : Nat := 32 * (source.length + 2)

end Parser

end Awk
