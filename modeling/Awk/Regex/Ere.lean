import Awk.Fault
import Awk.Escape
import Awk.Unicode.Basic

/-!
# Extended regular expressions

An extended regular expression (ERE) becomes, piece by piece, the text of a backtracking pattern: bracket
expressions lose their named classes, `$` becomes the end mark `\Z`, groups do not capture, escapes become literal
characters, and a quantifier that has nothing to repeat is a literal.  Whether it has is carried along as one bit
(`canRepeat`).  This fails only inside a bracket expression.
-/

namespace Awk.Ere

/-- Characters that a backslash must precede to stand for themselves in a pattern. -/
def isSpecial (c : Char) : Bool := "()[]\x7b\x7d?*+-|^$\\.&~# \t\n\r\x0b\x0c".toList.contains c

/-- A character that stands for itself. -/
def quote (c : Char) : Text := if isSpecial c then ['\\', c] else [c]

def quoteAll (t : Text) : Text := t.flatMap quote

/-- Members of the named classes of bracket expressions, as pattern text. -/
def classes : List (String × String) :=
  [("alpha", "a-zA-Z"), ("digit", "0-9"), ("alnum", "a-zA-Z0-9"), ("upper", "A-Z"), ("lower", "a-z"),
   ("space", " \\t\\n\\r\\f\\v"), ("blank", " \\t"), ("punct", "!-/:-@\\[-`\x7b-~"), ("print", " -~"), ("graph", "!-~"),
   ("cntrl", "\\x00-\\x1f\\x7f"), ("xdigit", "0-9A-Fa-f"), ("word", "a-zA-Z0-9_")]

def classMembers? (name : Text) : Option Text :=
  (classes.lookup (String.ofList name)).map String.toList

/-- What a letter or mark means after a backslash. -/
def escapes : List (Char × Char) :=
  [('n', '\n'), ('t', '\t'), ('r', '\r'), ('f', '\x0c'), ('v', '\x0b'), ('a', '\x07'), ('b', '\x08'), ('/', '/'), ('"', '"')]

/-- A character and the text after it: what an escape stands for, the backslash having been read.  An unknown escape is
the character itself. -/
def takeEscape (c : Char) (t : Text) : Char × Text :=
  match escapes.lookup c with
  | some d => (d, t)
  | none =>
    if isOctal c then
      let (digits, rest) := takeOctal (c :: t)
      (ofOctal digits, rest)
    else (c, t)

theorem length_takeEscape (c : Char) (t : Text) : (takeEscape c t).2.length ≤ t.length := by
  unfold takeEscape
  split
  · simp
  · split
    · rename_i h
      exact length_takeOctal t h
    · simp

/-! ### Bracket expressions -/

theorem length_cutAt? {p : Text} {t before rest : Text} (h : Text.cutAt? p t = some (before, rest)) :
    rest.length ≤ t.length := by
  induction t generalizing before with
  | nil =>
    unfold Text.cutAt? at h
    split at h <;> simp_all
  | cons c t ih =>
    unfold Text.cutAt? at h
    split at h
    · rename_i r hr
      simp only [Option.some.injEq, Prod.mk.injEq] at h
      obtain ⟨-, rfl⟩ := h
      have key : ∀ (p t r : Text), Text.dropPrefix? t p = some r → r.length ≤ t.length := by
        intro p
        induction p with
        | nil => intro t r h; simp [Text.dropPrefix?] at h; simp [h]
        | cons d p ihp =>
          intro t r h
          cases t with
          | nil => simp [Text.dropPrefix?] at h
          | cons c t =>
            simp only [Text.dropPrefix?] at h
            split at h
            · have := ihp t r h
              simp only [List.length_cons]
              omega
            · simp at h
      exact key p _ _ hr
    · simp only [Option.map_eq_some_iff, Prod.exists, Prod.mk.injEq] at h
      obtain ⟨b, r, hcut, -, rfl⟩ := h
      have := ih hcut
      simp only [List.length_cons]
      omega

/-- The members of a bracket expression up to its closing bracket, as pattern text, and what follows it. -/
def takeMembers : Text → Except RegexReason (Text × Text)
  | [] => .error .openBracket
  | ']' :: t => .ok ([], t)
  | '[' :: ':' :: t =>
    match h : Text.cutAt? [':', ']'] t with
    | none => .error .openClass
    | some (name, rest) =>
      match classMembers? name with
      | none => .error (.unknownClass name)
      | some members => do
        have := length_cutAt? h
        let (more, rest) ← takeMembers rest
        .ok (members ++ more, rest)
  | '[' :: mark :: t =>
    if mark = '.' || mark = '=' then
      match h : Text.cutAt? [mark, ']'] t with
      | none => .error .openCollating
      | some (element, rest) => do
        have := length_cutAt? h
        let (more, rest) ← takeMembers rest
        .ok (quoteAll element ++ more, rest)
    else do
      let (more, rest) ← takeMembers (mark :: t)
      .ok ('\\' :: '[' :: more, rest)
  | '\\' :: c :: t => do
    have := length_takeEscape c t
    let (more, rest) ← takeMembers (takeEscape c t).2
    .ok (quote (takeEscape c t).1 ++ more, rest)
  | c :: t => do
    let (more, rest) ← takeMembers t
    .ok ((if c = '[' || c = '\\' then ['\\', c] else [c]) ++ more, rest)
termination_by t => t.length

/-- A bracket expression whose opening bracket has been read, as pattern text, and what follows it.  A closing
bracket in first place is a member. -/
def takeBracket (t : Text) : Except RegexReason (Text × Text) := do
  let (negation, t) := match t with
    | '^' :: t => (['^'], t)
    | t => ([], t)
  let (first, t) := match t with
    | ']' :: t => (['\\', ']'], t)
    | t => ([], t)
  let (members, rest) ← takeMembers t
  .ok ('[' :: negation ++ first ++ members ++ [']'], rest)

/-! ### Pieces -/

/-- What an ERE is made of. -/
inductive Piece where
  | literal (c : Char)
  /-- A class named by a letter: white space, word characters, or their complements. -/
  | named (letter : Char)
  | bracket (text : Text)
  | any
  | quantifier (text : Text)
  | openGroup
  | closeGroup
  | bar
  | atStart
  | atEnd
  deriving DecidableEq, Repr

/-- The piece as pattern text. -/
def Piece.render : Piece → Text
  | literal c => quote c
  | named letter => ['\\', letter]
  | bracket t => t
  | any => ['.']
  | quantifier t => t
  | openGroup => "(?:".toList
  | closeGroup => [')']
  | bar => ['|']
  | atStart => ['^']
  | atEnd => "\\Z".toList

/-- A repetition count in braces at the start of a text, with at least one bound, and the rest. -/
def takeInterval : Text → Option (Text × Text)
  | '\x7b' :: t =>
    let low := t.takeWhile Unicode.isDecimal
    let afterLow := t.dropWhile Unicode.isDecimal
    let (comma, afterComma) := match afterLow with
      | ',' :: t => ([','], t)
      | t => ([], t)
    let high := afterComma.takeWhile Unicode.isDecimal
    match afterComma.dropWhile Unicode.isDecimal with
    | '\x7d' :: rest =>
      if low.isEmpty && high.isEmpty then none
      else some ('\x7b' :: low ++ comma ++ high ++ ['\x7d'], rest)
    | _ => none
  | _ => none

/-- The first piece of the ERE `c :: t`, whether a quantifier may follow it, and the rest. -/
def nextPiece (canRepeat : Bool) (c : Char) (t : Text) : Except RegexReason (Piece × Bool × Text) :=
  match c with
  | '\\' =>
    match t with
    | [] => .ok (.literal '\\', true, [])
    | d :: t =>
      if "sSwW".toList.contains d then .ok (.named d, true, t)
      else
        let (e, rest) := takeEscape d t
        .ok (.literal e, true, rest)
  | '[' => do
    let (text, rest) ← takeBracket t
    .ok (.bracket text, true, rest)
  | '*' | '+' | '?' => .ok (if canRepeat then .quantifier [c] else .literal c, canRepeat, t)
  | '\x7b' =>
    match if canRepeat then takeInterval (c :: t) else none with
    | some (text, rest) => .ok (.quantifier text, true, rest)
    | none => .ok (.literal c, true, t)
  | '(' => .ok (.openGroup, false, t)
  | ')' => .ok (.closeGroup, true, t)
  | '|' => .ok (.bar, false, t)
  | '^' => .ok (.atStart, false, t)
  | '$' => .ok (.atEnd, false, t)
  | '.' => .ok (.any, true, t)
  | _ => .ok (.literal c, true, t)

/-- The pieces of an ERE.  Each takes at least one character, so a fuel of the ERE's length suffices. -/
def piecesFuel : Nat → Bool → Text → Except RegexReason (List Piece)
  | _, _, [] => .ok []
  | 0, _, _ :: _ => .ok []
  | fuel + 1, canRepeat, c :: t => do
    let (piece, canRepeat, rest) ← nextPiece canRepeat c t
    .ok (piece :: (← piecesFuel fuel canRepeat rest))

def pieces (ere : Text) : Except RegexReason (List Piece) := piecesFuel ere.length false ere

/-- The text of the backtracking pattern for an ERE. -/
def patternText (ere : Text) : Except RegexReason Text := do
  .ok ((← pieces ere).flatMap Piece.render)

end Awk.Ere
