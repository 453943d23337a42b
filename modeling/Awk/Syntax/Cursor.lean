import Awk.Syntax.Lexeme

/-!
# Cursors

A cursor is a place in a program text: the text from there on, its offset, and its line and column.  `Cursor.token`
reads the token at or after a cursor and gives the cursor behind it; `tokens` reads a whole text that way.
-/

namespace Awk

structure Cursor where
  rest : Text
  offset : Nat
  line : Nat
  column : Nat
  deriving DecidableEq, Repr

namespace Cursor

def ofText (t : Text) : Cursor := ⟨t, 0, 1, 1⟩

/-- The cursor `n` characters further on. -/
def advance : Nat → Cursor → Cursor
  | 0, cursor => cursor
  | n + 1, cursor =>
    match cursor.rest with
    | [] => cursor
    | c :: t =>
      advance n (if c = '\n' then ⟨t, cursor.offset + 1, cursor.line + 1, 1⟩
        else ⟨t, cursor.offset + 1, cursor.line, cursor.column + 1⟩)

/-- The cursor at an offset of a text; behind the end of the text the columns are counted on. -/
def atOffset (t : Text) (offset : Nat) : Cursor :=
  let cursor := (ofText t).advance offset
  ⟨cursor.rest, offset, cursor.line, cursor.column + (offset - cursor.offset)⟩

/-- The cursor at the first character that is not passed over between tokens. -/
def skipBlanks (cursor : Cursor) : Cursor := cursor.advance (Lexeme.blankLength false cursor.rest)

/-- Read a lexeme at a cursor: its token and the cursor behind it. -/
def take (scan : Text → Except SyntaxFault Lexeme) (cursor : Cursor) : Except SyntaxError (Token × Cursor) :=
  match scan cursor.rest with
  | .error fault => .error ⟨fault, cursor.line, cursor.column, none⟩
  | .ok lexeme =>
    let stop := cursor.advance lexeme.length
    .ok (⟨lexeme.kind, lexeme.value, ⟨cursor.line, cursor.column, cursor.offset, cursor.offset + lexeme.length⟩⟩, stop)

/-- The next token and the cursor behind it. -/
def token (cursor : Cursor) : Except SyntaxError (Token × Cursor) := cursor.skipBlanks.take Lexeme.scan

/-- The next token, read as a regular expression, and the cursor behind it. -/
def regex (cursor : Cursor) : Except SyntaxError (Token × Cursor) := cursor.skipBlanks.take Lexeme.scanRegex

/-- Tokens up to the end of the text.  Every other token takes some text, so that a fuel of the text's length and one
suffices. -/
def tokensFuel : Nat → Cursor → Except SyntaxError (List Token)
  | 0, _ => .ok []
  | fuel + 1, cursor => do
    let (token, cursor) ← cursor.token
    if token.kind = .eof then .ok [token] else .ok (token :: (← tokensFuel fuel cursor))

end Cursor

/-- All tokens of a program text, the end included.  Regular expressions are not recognised. -/
def tokens (source : Text) : Except SyntaxError (List Token) :=
  Cursor.tokensFuel (source.length + 1) (.ofText source)

end Awk
