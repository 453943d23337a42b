import Awk.Limits
import Awk.Regex.Pattern

/-!
# Reading pattern text

The text of a pattern is read in two steps: into marks (`marks`), which is where sets, escapes and repetition counts
are recognised, and from marks into a pattern (`ofMarks`), with a stack of open groups.  A mark that is not well
formed is kept as such, so that of several mistakes the leftmost is reported.

The texts to be read are those that EREs are translated to (`Ere.patternText`).  They have no digit after a backslash,
and no letter but those that are named here.
-/

namespace Awk.Pattern

/-- Why a pattern text is refused. -/
inductive ReadingFault where
  | malformed
  | countTooLarge
  deriving DecidableEq, Repr

inductive Mark where
  | test (t : CharTest)
  | atStart
  | atEnd
  | openGroup
  | closeGroup
  | bar
  | count (least : Nat) (most : Option Nat) (greed : Greed)
  /-- What is not well formed, in a set, after a backslash, or in braces. -/
  | bad
  deriving DecidableEq, Repr

/-! ### Sets -/

def hexValue? (c : Char) : Option Nat :=
  if c.isDigit then some (c.toNat - '0'.toNat)
  else if 'a' ≤ c && c ≤ 'f' then some (c.toNat - 'a'.toNat + 10)
  else if 'A' ≤ c && c ≤ 'F' then some (c.toNat - 'A'.toNat + 10)
  else none

/-- What a letter means after a backslash, in a set; other letters mean nothing there. -/
def namedParts : List (Char × SetPart) :=
  [('a', '\x07'), ('b', '\x08'), ('t', '\t'), ('n', '\n'), ('r', '\r'), ('f', '\x0c'), ('v', '\x0b')].map
      (fun (letter, c) => (letter, .range c c)) ++
    [('s', .space false), ('S', .space true), ('w', .word false), ('W', .word true)]

/-- What a character means after a backslash, in a set. -/
def escapedPart? (c : Char) : Option SetPart :=
  match namedParts.lookup c with
  | some part => some part
  | none => if c.isAlphanum then none else some (.range c c)

/-- One member of a set, escaped or not, and the rest. -/
def takeMember : Text → Option (SetPart × Text)
  | [] => none
  | ['\\'] => none
  | '\\' :: 'x' :: a :: b :: t =>
    match hexValue? a, hexValue? b with
    | some m, some n => let c := Char.ofNat (16 * m + n); some (.range c c, t)
    | _, _ => none
  | '\\' :: c :: t => (escapedPart? c).map (·, t)
  | c :: t => some (.range c c, t)

theorem length_takeMember {t rest : Text} {part : SetPart} (h : takeMember t = some (part, rest)) :
    rest.length < t.length := by
  unfold takeMember at h
  split at h
  · simp at h
  · simp at h
  · split at h
    · simp only [Option.some.injEq, Prod.mk.injEq] at h
      rw [← h.2]
      simp only [List.length_cons]
      omega
    · simp at h
  · obtain ⟨part', -, h⟩ := Option.map_eq_some_iff.1 h
    rw [← (Prod.mk.inj h).2]
    simp only [List.length_cons]
    omega
  · simp only [Option.some.injEq, Prod.mk.injEq] at h
    rw [← h.2]
    simp only [List.length_cons]
    omega

/-- The range from one member to another, if they are characters in this order. -/
def rangeTo? : SetPart → SetPart → Option SetPart
  | .range lo _, .range hi _ => if hi < lo then none else some (.range lo hi)
  | _, _ => none

/-- Parts of a set up to its closing bracket, and what follows it.  A bracket in first place is a member. -/
def takeParts (first : Bool) (t : Text) : Option (List SetPart × Text) :=
  if t.head? = some ']' && !first then some ([], t.tail)
  else
    match h : takeMember t with
    | none => none
    | some (part, '-' :: ']' :: rest) => some ([part, .range '-' '-'], rest)
    | some (lo, '-' :: rest) =>
      have := length_takeMember h
      match h' : takeMember rest with
      | none => none
      | some (hi, rest) =>
        have := length_takeMember h'
        match rangeTo? lo hi with
        | none => none
        | some part => (takeParts false rest).map fun (parts, rest) => (part :: parts, rest)
    | some (part, rest) =>
      have := length_takeMember h
      (takeParts false rest).map fun (parts, rest) => (part :: parts, rest)
termination_by t.length
decreasing_by
  · simp only [List.length_cons] at *
    omega
  · omega

/-- A set whose opening bracket has been read, and the rest. -/
def takeSet : Text → Option (CharTest × Text)
  | '^' :: t => (takeParts true t).map fun (parts, rest) => (.set true parts, rest)
  | t => (takeParts true t).map fun (parts, rest) => (.set false parts, rest)

/-! ### Marks -/

/-- A mark after a count: `?` makes it lazy, `+` possessive. -/
def takeGreed : Text → Greed × Text
  | '?' :: t => (.lazy, t)
  | '+' :: t => (.possessive, t)
  | t => (.greedy, t)

/-- The number written by ASCII digits, if there are any. -/
def number? (digits : Text) : Option Nat :=
  if digits.isEmpty then none else some (digits.foldl (fun n d => 10 * n + (d.toNat - '0'.toNat)) 0)

/-- Digits of the bounds of a repetition in braces, the opening brace having been read, and the rest.  A single bound
is both. -/
def takeBounds (t : Text) : Option (Text × Text × Text) :=
  let low := t.takeWhile Char.isDigit
  match t.dropWhile Char.isDigit with
  | '\x7d' :: rest => if low.isEmpty then none else some (low, low, rest)
  | ',' :: t =>
    let high := t.takeWhile Char.isDigit
    match t.dropWhile Char.isDigit with
    | '\x7d' :: rest => some (low, high, rest)
    | _ => none
  | _ => none

/-- Counts stay below this number. -/
def countLimit : Nat := Nat.pow 2 32 - 1

/-- A count, its greed taken from the text after it. -/
def countMark (least : Nat) (most : Option Nat) (t : Text) : Mark × Text :=
  let (greed, rest) := takeGreed t
  (.count least most greed, rest)

/-- A count between bounds written by digits.  Bounds are read from left to right, so that a lower bound beyond the
limit is found before an upper one with too many digits. -/
def boundsMark (low high t : Text) : Mark × Text :=
  if numeralLimit < low.length then (.bad, t)
  else
    let least := (number? low).getD 0
    if least < countLimit && numeralLimit < high.length then (.bad, t) else countMark least (number? high) t

/-- The first mark of the pattern text `c :: t`, and the rest. -/
def nextMark (c : Char) (t : Text) : Mark × Text :=
  match c with
  | '\\' =>
    match t with
    | 'Z' :: t => (.atEnd, t)
    | 's' :: t => (.test (.space false), t)
    | 'S' :: t => (.test (.space true), t)
    | 'w' :: t => (.test (.word false), t)
    | 'W' :: t => (.test (.word true), t)
    | d :: t => (.test (.one d), t)
    | [] => (.bad, [])
  | '[' =>
    match takeSet t with
    | some (set, rest) => (.test set, rest)
    | none => (.bad, [])
  | '(' =>
    match t with
    | '?' :: ':' :: t => (.openGroup, t)
    | t => (.bad, t)
  | ')' => (.closeGroup, t)
  | '|' => (.bar, t)
  | '^' => (.atStart, t)
  | '.' => (.test .any, t)
  | '*' => countMark 0 none t
  | '+' => countMark 1 none t
  | '?' => countMark 0 (some 1) t
  | '\x7b' =>
    match takeBounds t with
    | some (low, high, rest) => boundsMark low high rest
    | none => (.test (.one c), t)
  | _ => (.test (.one c), t)

/-- The marks of a pattern text.  Each takes at least one character. -/
def marksFuel : Nat → Text → List Mark
  | _, [] => []
  | 0, _ :: _ => []
  | fuel + 1, c :: t =>
    let (mark, rest) := nextMark c t
    mark :: marksFuel fuel rest

def marks (t : Text) : List Mark := marksFuel t.length t

/-! ### Patterns from marks -/

/-- Part of a sequence.  An anchor or a bare repetition cannot be repeated; a group can. -/
structure Item where
  pattern : Pattern
  repeatable : Bool

/-- A group being read: its finished branches and the items of the current one, both latest first. -/
structure Group where
  branches : List Pattern
  items : List Item

def Group.empty : Group := ⟨[], []⟩

/-- The items, latest first, as one pattern. -/
def ofItems (items : List Item) : Pattern := items.foldl (fun p item => seq item.pattern p) empty

/-- The group as one pattern, branches in order. -/
def Group.close (g : Group) : Pattern := g.branches.foldl (fun p branch => alt branch p) (ofItems g.items)

def Group.push (g : Group) (pattern : Pattern) (repeatable : Bool) : Group :=
  ⟨g.branches, ⟨pattern, repeatable⟩ :: g.items⟩

/-- Repeat the latest item. -/
def Group.repeatLast (g : Group) (least : Nat) (most : Option Nat) (greed : Greed) : Except ReadingFault Group :=
  if countLimit ≤ least || most.any (countLimit ≤ ·) then .error .countTooLarge
  else if most.any (· < least) then .error .malformed
  else
    match g.items with
    | ⟨p, true⟩ :: items => .ok ⟨g.branches, ⟨«repeat» p least most greed, false⟩ :: items⟩
    | _ => .error .malformed

/-- Read marks into the innermost open group `g`, `outer` holding the groups around it. -/
def ofMarks (g : Group) (outer : List Group) : List Mark → Except ReadingFault Pattern
  | [] => if outer.isEmpty then .ok g.close else .error .malformed
  | mark :: rest =>
    match mark with
    | .test t => ofMarks (g.push (char t) true) outer rest
    | .atStart => ofMarks (g.push atStart false) outer rest
    | .atEnd => ofMarks (g.push atEnd false) outer rest
    | .openGroup => ofMarks .empty (g :: outer) rest
    | .closeGroup =>
      match outer with
      | [] => .error .malformed
      | parent :: outer => ofMarks (parent.push g.close true) outer rest
    | .bar => ofMarks ⟨ofItems g.items :: g.branches, []⟩ outer rest
    | .count least most greed => do ofMarks (← g.repeatLast least most greed) outer rest
    | .bad => .error .malformed

/-- The pattern that a text writes. -/
def read (t : Text) : Except ReadingFault Pattern := ofMarks .empty [] (marks t)

end Awk.Pattern
