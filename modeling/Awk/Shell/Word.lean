import Awk.Text

/-!
# Words of the shell

A word is a sequence of pieces: plain or quoted text, and expansions, which are replaced when the word is used.
`Word.read?` takes a word from the beginning of a text.  Inside double quotes only expansions are special, and the
backslash before the characters that would be.
-/

namespace Awk.Shell

/-- What stands after a dollar sign. -/
inductive Expansion where
  | parameter (name : Text)
  /-- A parameter, or another text where it is unset or empty. -/
  | fallback (name other : Text)
  | arithmetic (t : Text)
  /-- What a command prints. -/
  | command (t : Text)
  deriving DecidableEq, Repr

inductive Piece where
  | text (quoted : Bool) (t : Text)
  | expansion (quoted : Bool) (e : Expansion)
  deriving DecidableEq, Repr

abbrev Word := List Piece

/-- The quotes around a character. -/
inductive Quotes where
  | none
  | single
  | double
  deriving DecidableEq, Repr

/-- Cut at the closing parenthesis that belongs to one opened before the text. -/
def cutParenthesis : Nat → Quotes → Text → Option (Text × Text)
  | _, _, [] => Option.none
  | depth, quotes, c :: t =>
    let keep (depth : Nat) (quotes : Quotes) : Option (Text × Text) :=
      (cutParenthesis depth quotes t).map fun (inside, rest) => (c :: inside, rest)
    match quotes with
    | .single => keep depth (if c = '\'' then .none else .single)
    | _ =>
      if c = '\\' then
        match t with
        | [] => Option.none
        | d :: t => (cutParenthesis depth quotes t).map fun (inside, rest) => (c :: d :: inside, rest)
      else if c = '"' then keep depth (if quotes = .double then .none else .double)
      else if quotes = .double then keep depth quotes
      else if c = '\'' then keep depth .single
      else if c = '(' then keep (depth + 1) quotes
      else if c = ')' then
        match depth with
        | 0 => some ([], t)
        | depth + 1 => keep depth quotes
      else keep depth quotes

/-- Cut at a backquote; a backslash takes the meaning from a dollar sign, a backquote or a backslash. -/
def cutBackquote : Text → Option (Text × Text)
  | [] => none
  | '\\' :: c :: t =>
    (cutBackquote t).map fun (inside, rest) =>
      (if c = '\x60' || c = '\\' || c = '$' then c :: inside else '\\' :: c :: inside, rest)
  | c :: t => if c = '\x60' then some ([], t) else (cutBackquote t).map fun (inside, rest) => (c :: inside, rest)

/-- Parameters with a one-character name that is not a letter. -/
def isSpecial (c : Char) : Bool := c.isDigit || "?$#@*".toList.contains c

/-- A parameter in braces. -/
def braced (inside : Text) : Option Expansion :=
  let name := match inside with
    | c :: _ => if isNameStart c then inside.takeWhile isNameChar else if isSpecial c then [c] else []
    | [] => []
  match name, inside.drop name.length with
  | [], _ => none
  | _, [] => some (.parameter name)
  | _, ':' :: '-' :: other => some (.fallback name other)
  | _, _ => none

/-- The expansion after a dollar sign, with the text behind it.  A dollar sign before anything else is plain
(`some none`); `none` is an unfinished expansion. -/
def Expansion.read? : Text → Option (Option (Expansion × Text))
  | '(' :: t => do
    let (inside, rest) ← cutParenthesis 0 .none t
    match inside with
    | '(' :: body =>
      if body.getLast? = some ')' then return some (.arithmetic body.dropLast, rest)
      else return some (.command inside, rest)
    | _ => return some (.command inside, rest)
  | '\x7b' :: t => do
    let (inside, rest) ← Text.cutAt? ['\x7d'] t
    return some (← braced inside, rest)
  | c :: t =>
    if isNameStart c then some (some (.parameter (c :: t.takeWhile isNameChar), t.dropWhile isNameChar))
    else if isSpecial c then some (some (.parameter [c], t))
    else some none
  | [] => some none

/-- Characters that end a word unless they are quoted. -/
def isMeta (c : Char) : Bool := " \t\n;&|()<>".toList.contains c

/-- Characters that a backslash protects between double quotes. -/
def isProtected (c : Char) : Bool := c == '$' || c == '"' || c == '\\' || c == '\x60'

/-- The pieces of a word and the text behind it; every piece takes some text, which bounds the fuel. -/
def Word.readFrom? : Nat → Bool → Text → Option (Word × Text)
  | 0, _, _ => none
  | fuel + 1, double, t =>
    let more (piece : Piece) (double : Bool) (rest : Text) : Option (Word × Text) :=
      (readFrom? fuel double rest).map fun (word, rest) => (piece :: word, rest)
    match t with
    | [] => if double then none else some ([], [])
    | '"' :: t => more (.text true []) (!double) t
    | '\\' :: '\n' :: t => readFrom? fuel double t
    | '\\' :: c :: t =>
      if double && !isProtected c then more (.text true ['\\', c]) double t else more (.text true [c]) double t
    | '$' :: t =>
      match Expansion.read? t with
      | none => none
      | some none => more (.text double ['$']) double t
      | some (some (e, rest)) => more (.expansion double e) double rest
    | c :: t =>
      if c = '\x60' then
        match cutBackquote t with
        | none => none
        | some (inside, rest) => more (.expansion double (.command inside)) double rest
      else if double then more (.text true [c]) double t
      else if c = '\'' then
        match Text.cutAt? ['\''] t with
        | none => none
        | some (inside, rest) => more (.text true inside) double rest
      else if isMeta c then some ([], c :: t)
      else more (.text false [c]) double t

def Word.read? (t : Text) : Option (Word × Text) := Word.readFrom? (t.length + 1) false t

/-- The pieces of a text as if between double quotes. -/
def Word.readQuoted? (t : Text) : Option Word :=
  (Word.readFrom? (t.length + 2) true (t ++ ['"'])).map (·.1)

/-- The word's text, if it is all plain. -/
def Word.plain? : Word → Option Text
  | [] => some []
  | .text false t :: word => (Word.plain? word).map (t ++ ·)
  | _ => none

/-- The word as an assignment: a plain name, an equals sign and the rest. -/
def Word.assignment? (word : Word) : Option (Text × Word) :=
  let name := (word.takeWhile fun
    | .text false [c] => isNameChar c
    | _ => false).flatMap fun
    | .text _ t => t
    | _ => []
  match name, word.drop name.length with
  | c :: _, .text false ['='] :: rest => if isNameStart c then some (name, rest) else none
  | _, _ => none

end Awk.Shell
