import Awk.Syntax.Builtin

/-!
# Tokens

The kinds of tokens with their names, the keywords, and the operators, longest first.  A token carries its text and
the place where it stands (`Span`).
-/

namespace Awk

/-- Line and column of the first character, counted from one, and the offsets of the first character and of the one
after the last. -/
structure Span where
  line : Nat
  column : Nat
  start : Nat
  stop : Nat
  deriving DecidableEq, Repr

inductive TokenKind where
  | number
  | string
  | ere
  | name
  /-- A name directly before an opening parenthesis. -/
  | funcName
  | builtin (b : Builtin)
  | «begin»
  | «end»
  | function
  | «if»
  | «else»
  | «while»
  | «for»
  | «do»
  | «break»
  | «continue»
  | next
  | nextFile
  | exit
  | «return»
  | delete
  | getline
  | print
  | printf
  | «in»
  | plus
  | minus
  | star
  | slash
  | mod
  | pow
  | eq
  | neq
  | lt
  | lte
  | gt
  | gte
  | append
  | tilde
  | noMatch
  | and
  | or
  | not
  | assign
  | addAssign
  | subAssign
  | mulAssign
  | divAssign
  | modAssign
  | powAssign
  | incr
  | decr
  | lpar
  | rpar
  | lsqb
  | rsqb
  | lbrace
  | rbrace
  | comma
  | semi
  | qmark
  | colon
  | dollar
  | pipe
  | newline
  | eof
  deriving DecidableEq, Repr

namespace TokenKind

/-- The kind's name, as token listings show it. -/
def label : TokenKind → String
  | number => "NUMBER"
  | string => "STRING"
  | ere => "ERE"
  | name => "NAME"
  | funcName => "FUNC_NAME"
  | builtin _ => "BUILTIN_FUNC"
  | «begin» => "BEGIN"
  | «end» => "END"
  | function => "FUNCTION"
  | «if» => "IF"
  | «else» => "ELSE"
  | «while» => "WHILE"
  | «for» => "FOR"
  | «do» => "DO"
  | «break» => "BREAK"
  | «continue» => "CONTINUE"
  | next => "NEXT"
  | nextFile => "NEXTFILE"
  | exit => "EXIT"
  | «return» => "RETURN"
  | delete => "DELETE"
  | getline => "GETLINE"
  | print => "PRINT"
  | printf => "PRINTF"
  | «in» => "IN"
  | plus => "PLUS"
  | minus => "MINUS"
  | star => "STAR"
  | slash => "SLASH"
  | mod => "MOD"
  | pow => "POW"
  | eq => "EQ"
  | neq => "NEQ"
  | lt => "LT"
  | lte => "LTE"
  | gt => "GT"
  | gte => "GTE"
  | append => "APPEND"
  | tilde => "TILDE"
  | noMatch => "NOMATCH"
  | and => "AND"
  | or => "OR"
  | not => "NOT"
  | assign => "ASSIGN"
  | addAssign => "ADD_ASSIGN"
  | subAssign => "SUB_ASSIGN"
  | mulAssign => "MUL_ASSIGN"
  | divAssign => "DIV_ASSIGN"
  | modAssign => "MOD_ASSIGN"
  | powAssign => "POW_ASSIGN"
  | incr => "INCR"
  | decr => "DECR"
  | lpar => "LPAR"
  | rpar => "RPAR"
  | lsqb => "LSQB"
  | rsqb => "RSQB"
  | lbrace => "LBRACE"
  | rbrace => "RBRACE"
  | comma => "COMMA"
  | semi => "SEMI"
  | qmark => "QMARK"
  | colon => "COLON"
  | dollar => "DOLLAR"
  | pipe => "PIPE"
  | newline => "NEWLINE"
  | eof => "EOF"

end TokenKind

structure Token where
  kind : TokenKind
  text : Text
  span : Span
  deriving DecidableEq, Repr

def keywords : List (String × TokenKind) :=
  [("BEGIN", .begin), ("END", .end), ("function", .function), ("func", .function), ("if", .if), ("else", .else),
   ("while", .while), ("for", .for), ("do", .do), ("break", .break), ("continue", .continue), ("next", .next),
   ("nextfile", .nextFile), ("exit", .exit), ("return", .return), ("delete", .delete), ("getline", .getline),
   ("print", .print), ("printf", .printf), ("in", .in)]

/-- Operators and punctuation; of two that begin alike the longer comes first. -/
def operators : List (String × TokenKind) :=
  [("**=", .powAssign),
   ("&&", .and), ("||", .or), ("==", .eq), ("!=", .neq), ("<=", .lte), (">=", .gte), (">>", .append), ("!~", .noMatch),
   ("+=", .addAssign), ("-=", .subAssign), ("*=", .mulAssign), ("/=", .divAssign), ("%=", .modAssign),
   ("^=", .powAssign), ("++", .incr), ("--", .decr), ("**", .pow),
   ("+", .plus), ("-", .minus), ("*", .star), ("/", .slash), ("%", .mod), ("^", .pow), ("<", .lt), (">", .gt),
   ("~", .tilde), ("!", .not), ("=", .assign), ("(", .lpar), (")", .rpar), ("[", .lsqb), ("]", .rsqb),
   ("\x7b", .lbrace), ("\x7d", .rbrace), (",", .comma), (";", .semi), ("?", .qmark), (":", .colon), ("$", .dollar),
   ("|", .pipe)]

def keyword? (name : Text) : Option TokenKind :=
  (keywords.find? fun entry => entry.1.toList == name).map Prod.snd

end Awk
