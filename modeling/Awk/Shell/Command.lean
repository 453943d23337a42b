import Awk.Shell.Word

/-!
# Commands of the shell

Commands as trees, and how they are read: a text is cut into words and operators (`scan`), and from these one line of
commands is taken after the other (`Command.read?`).  What cannot be read is found only when its line is reached.
-/

namespace Awk.Shell

inductive RedirectKind where
  | input
  | output
  | append
  /-- Another name for a stream that is open already. -/
  | copy
  deriving DecidableEq, Repr

structure Redirect where
  stream : Nat
  kind : RedirectKind
  target : Word
  deriving DecidableEq, Repr

inductive Token where
  | word (w : Word)
  | redirect (stream : Nat) (kind : RedirectKind)
  | newline
  | semicolon
  | and
  | or
  | pipe
  | opening
  | closing
  /-- An unfinished word, up to the end of the text. -/
  | unfinished
  deriving DecidableEq, Repr

inductive Command where
  | simple (assignments : List (Text × Word)) (words : List Word) (redirects : List Redirect)
  | group (body : Command) (redirects : List Redirect)
  | subshell (body : Command) (redirects : List Redirect)
  | pipe (left right : Command)
  | negation (c : Command)
  | and (left right : Command)
  | or (left right : Command)
  | sequence (left right : Command)
  deriving DecidableEq, Repr

/-- The operators, longest first.  A command sent to the background runs like any other. -/
def operators : List (String × Token) :=
  [("&&", .and), ("||", .or), (">>", .redirect 1 .append), (">&", .redirect 1 .copy), ("<&", .redirect 0 .copy),
   (">|", .redirect 1 .output), (">", .redirect 1 .output), ("<", .redirect 0 .input), (";", .semicolon),
   ("&", .semicolon), ("|", .pipe), ("(", .opening), (")", .closing), ("\n", .newline)]

/-- A number directly before a redirection names its stream. -/
def streamNumber? (w : Word) (rest : Text) : Option Nat :=
  match w.plain?, rest with
  | some digits, c :: _ =>
    if (c = '<' || c = '>') && !digits.isEmpty && digits.all Char.isDigit then
      some (digits.foldl (fun n d => 10 * n + (d.toNat - '0'.toNat)) 0)
    else none
  | _, _ => none

/-- The operator at the beginning of a text. -/
def operator? (t : Text) : Option (Token × Text) :=
  operators.findSome? fun (s, token) => (Text.dropPrefix? t s.toList).map (token, ·)

/-- Cut a text into words and operators; each takes some text, which bounds the fuel. -/
def scanFrom : Nat → Text → List Token
  | 0, _ => [.unfinished]
  | fuel + 1, t =>
    match t with
    | [] => []
    | '\\' :: '\n' :: t => scanFrom fuel t
    | '#' :: t => scanFrom fuel (t.dropWhile (· != '\n'))
    | c :: rest =>
      if c = ' ' || c = '\t' then scanFrom fuel rest
      else
        match operator? t with
        | some (token, rest) => token :: scanFrom fuel rest
        | none =>
          match Word.read? t with
          | none => [.unfinished]
          | some (w, rest) =>
            match streamNumber? w rest, operator? rest with
            | some n, some (.redirect _ kind, rest) => .redirect n kind :: scanFrom fuel rest
            | _, _ => .word w :: scanFrom fuel rest

def scan (t : Text) : List Token := scanFrom (t.length + 1) t

def skipNewlines (ts : List Token) : List Token := ts.dropWhile (· == .newline)

/-- The next token is a certain plain word. -/
def startsWithWord (s : String) : List Token → Bool
  | .word w :: _ => w.plain? == some s.toList
  | _ => false

/-- Redirections that stand next. -/
def readRedirects : List Token → List Redirect × List Token
  | .redirect stream kind :: .word target :: ts =>
    let (redirects, ts) := readRedirects ts
    (⟨stream, kind, target⟩ :: redirects, ts)
  | ts => ([], ts)

/-- A simple command: assignments, words, and redirections anywhere among them. -/
def readSimple (assignments : List (Text × Word)) (words : List Word) (redirects : List Redirect) :
    List Token → Option (Command × List Token)
  | .redirect stream kind :: .word target :: ts =>
    readSimple assignments words (redirects ++ [⟨stream, kind, target⟩]) ts
  | .redirect _ _ :: _ => none
  | .word w :: ts =>
    match if words.isEmpty then w.assignment? else none with
    | some a => readSimple (assignments ++ [a]) words redirects ts
    | none => readSimple assignments (words ++ [w]) redirects ts
  | ts =>
    if assignments.isEmpty && words.isEmpty && redirects.isEmpty then none
    else some (.simple assignments words redirects, ts)

mutual

/-- Commands up to a closing parenthesis or brace, or up to the end of the line where `whole` is not set.  The
fuel bounds the depth; every round takes a token. -/
def readList : Nat → Bool → List Token → Option (Command × List Token)
  | 0, _, _ => none
  | fuel + 1, whole, ts => do
    let (left, ts) ← readChain fuel (if whole then skipNewlines ts else ts)
    let (ended, ts) := match ts with
      | .semicolon :: ts => (true, ts)
      | .newline :: rest => (whole, if whole then rest else ts)
      | ts => (false, ts)
    let ts := if whole then skipNewlines ts else ts
    let closes := match ts with
      | [] | .closing :: _ | .newline :: _ => true
      | ts => startsWithWord "\x7d" ts
    if !ended || closes then return (left, ts)
    let (right, ts) ← readList fuel whole ts
    return (.sequence left right, ts)

/-- Pipelines joined by `&&` and `||`, from the left. -/
def readChain : Nat → List Token → Option (Command × List Token)
  | 0, _ => none
  | fuel + 1, ts => do
    let (left, ts) ← readPipeline fuel ts
    readChainFrom fuel left ts

def readChainFrom : Nat → Command → List Token → Option (Command × List Token)
  | 0, _, _ => none
  | fuel + 1, left, ts =>
    match ts with
    | .and :: ts => do
      let (right, ts) ← readPipeline fuel (skipNewlines ts)
      readChainFrom fuel (.and left right) ts
    | .or :: ts => do
      let (right, ts) ← readPipeline fuel (skipNewlines ts)
      readChainFrom fuel (.or left right) ts
    | ts => some (left, ts)

def readPipeline : Nat → List Token → Option (Command × List Token)
  | 0, _ => none
  | fuel + 1, ts =>
    if startsWithWord "!" ts then do
      let (c, ts) ← readPipes fuel ts.tail
      return (.negation c, ts)
    else readPipes fuel ts

def readPipes : Nat → List Token → Option (Command × List Token)
  | 0, _ => none
  | fuel + 1, ts => do
    let (left, ts) ← readCommand fuel ts
    match ts with
    | .pipe :: ts =>
      let (right, ts) ← readPipes fuel (skipNewlines ts)
      return (.pipe left right, ts)
    | ts => return (left, ts)

def readCommand : Nat → List Token → Option (Command × List Token)
  | 0, _ => none
  | fuel + 1, ts =>
    match ts with
    | .opening :: ts => do
      let (body, ts) ← readList fuel true ts
      match ts with
      | .closing :: ts =>
        let (redirects, ts) := readRedirects ts
        return (.subshell body redirects, ts)
      | _ => none
    | ts =>
      if startsWithWord "\x7b" ts then do
        let (body, ts) ← readList fuel true ts.tail
        if startsWithWord "\x7d" ts then
          let (redirects, ts) := readRedirects ts.tail
          return (.group body redirects, ts)
        else none
      else if startsWithWord "\x7d" ts then none
      else readSimple [] [] [] ts

end

/-- The commands of the next line and the lines behind it; none where the line cannot be read. -/
def Command.read? (ts : List Token) : Option (Command × List Token) := do
  let (c, ts) ← readList (6 * ts.length + 6) false ts
  match ts with
  | [] => return (c, [])
  | .newline :: ts => return (c, ts)
  | _ => none

end Awk.Shell
