import Awk.Text
import Awk.Unicode.Basic

/-!
# Patterns

A pattern is matched by trying its ways in a fixed order and keeping the first that lets the rest of the pattern
match: of two branches the left one first, and in a repetition one more round first (greedy) or last (lazy); a
possessive repetition never gives back what it took.  `Pattern.run` puts this order into a continuation: it is given
what must match afterwards and answers with the place where that ends.

A round of a repetition that takes no text is the last one, which is why a number of rounds bounded by the length of
the remaining text suffices.
-/

namespace Awk

/-- A place in a text: its offset, and the text from there on. -/
structure Place where
  offset : Nat
  rest : Text
  deriving DecidableEq, Repr

/-- What a set has: all characters between two, or those of a class. -/
inductive SetPart where
  | range (lo hi : Char)
  | space (negated : Bool)
  | word (negated : Bool)
  deriving DecidableEq, Repr

def SetPart.holds : SetPart → Char → Bool
  | range lo hi, c => lo ≤ c && c ≤ hi
  | space negated, c => Unicode.isSpace c != negated
  | word negated, c => Unicode.isWord c != negated

/-- What one character must be. -/
inductive CharTest where
  | one (c : Char)
  | any
  /-- In one of the parts, or in none of them. -/
  | set (negated : Bool) (parts : List SetPart)
  | space (negated : Bool)
  | word (negated : Bool)
  deriving DecidableEq, Repr

def CharTest.holds : CharTest → Char → Bool
  | one d, c => c == d
  | any, _ => true
  | set negated parts, c => (parts.any (·.holds c)) != negated
  | space negated, c => Unicode.isSpace c != negated
  | word negated, c => Unicode.isWord c != negated

inductive Greed where
  | greedy
  | lazy
  | possessive
  deriving DecidableEq, Repr

inductive Pattern where
  | empty
  | char (test : CharTest)
  | atStart
  | atEnd
  | seq (first second : Pattern)
  | alt (left right : Pattern)
  | repeat (body : Pattern) (least : Nat) (most : Option Nat) (greed : Greed)
  deriving DecidableEq, Repr

namespace Pattern

/-- What is to be matched afterwards: where it ends, if it matches. -/
abbrev Continuation := Place → Option Place

/-- One fewer round allowed. -/
def fewer : Option Nat → Option Nat := Option.map (· - 1)

/-- Rounds of `body`, at least `least` and at most `most`, one more round being tried first.  `last` is the offset
where the last optional round began. -/
def runGreedy (body : Continuation → Continuation) (k : Continuation) :
    Nat → Nat → Option Nat → Option Nat → Continuation
  | 0, _, _, _, _ => none
  | fuel + 1, least + 1, most, last, place => body (runGreedy body k fuel least (fewer most) last) place
  | fuel + 1, 0, most, last, place =>
    if most == some 0 || last == some place.offset then k place
    else
      match body (runGreedy body k fuel 0 (fewer most) (some place.offset)) place with
      | some stop => some stop
      | none => k place

/-- As `runGreedy`, but what follows is tried first. -/
def runLazy (body : Continuation → Continuation) (k : Continuation) :
    Nat → Nat → Option Nat → Option Nat → Continuation
  | 0, _, _, _, _ => none
  | fuel + 1, least + 1, most, last, place => body (runLazy body k fuel least (fewer most) last) place
  | fuel + 1, 0, most, last, place =>
    match k place with
    | some stop => some stop
    | none =>
      if most == some 0 || last == some place.offset then none
      else body (runLazy body k fuel 0 (fewer most) (some place.offset)) place

/-- As many rounds as `body` allows, each in its first way and none of them taken back. -/
def runPossessive (body : Continuation → Continuation) :
    Nat → Nat → Option Nat → Option Nat → Continuation
  | 0, _, _, _, _ => none
  | fuel + 1, least + 1, most, last, place =>
    (body some place).bind (runPossessive body fuel least (fewer most) last)
  | fuel + 1, 0, most, last, place =>
    if most == some 0 || last == some place.offset then some place
    else
      match body some place with
      | some next => runPossessive body fuel 0 (fewer most) (some place.offset) next
      | none => some place

/-- Where the pattern followed by `k` ends, from a place. -/
def run : Pattern → Continuation → Continuation
  | empty, k, place => k place
  | char test, k, place =>
    match place.rest with
    | c :: rest => if test.holds c then k ⟨place.offset + 1, rest⟩ else none
    | [] => none
  | atStart, k, place => if place.offset = 0 then k place else none
  | atEnd, k, place => if place.rest.isEmpty then k place else none
  | seq p q, k, place => run p (run q k) place
  | alt p q, k, place =>
    match run p k place with
    | some stop => some stop
    | none => run q k place
  | «repeat» p least most greed, k, place =>
    let fuel := least + place.rest.length + 3
    match greed with
    | .greedy => runGreedy (run p) k fuel least most none place
    | .lazy => runLazy (run p) k fuel least most none place
    | .possessive => (runPossessive (run p) fuel least most none place).bind k

/-- End of the match at a place; with `advance` a match without text does not count. -/
def matchAt (p : Pattern) (advance : Bool) (place : Place) : Option Nat :=
  (p.run (fun stop => if advance && stop.offset == place.offset then none else some stop) place).map Place.offset

/-- The first match at or after an offset, the text from there on being given.  `advance` applies to that offset
alone. -/
def findFrom (p : Pattern) (advance : Bool) (offset : Nat) (text : Text) : Option (Nat × Nat) :=
  match p.matchAt advance ⟨offset, text⟩ with
  | some stop => some (offset, stop)
  | none =>
    match text with
    | [] => none
    | _ :: rest => findFrom p false (offset + 1) rest

/-- Start and end of the first match that begins at or after `start`. -/
def search (p : Pattern) (text : Text) (start : Nat) : Option (Nat × Nat) :=
  let start := min start text.length
  p.findFrom false start (text.drop start)

/-- The successive matches from an offset on.  A match may begin where another ended, but two matches without text do
not stand at the same place; so there are at most two for each place. -/
def findAllFrom (p : Pattern) : Nat → Bool → Nat → Text → List (Nat × Nat)
  | 0, _, _, _ => []
  | fuel + 1, advance, offset, text =>
    match p.findFrom advance offset text with
    | none => []
    | some (start, stop) => (start, stop) :: findAllFrom p fuel (start == stop) stop (text.drop (stop - offset))

/-- Start and end of the successive matches in a text. -/
def findAll (p : Pattern) (text : Text) : List (Nat × Nat) :=
  findAllFrom p (2 * text.length + 2) false 0 text

/-- The successive matches that take some text. -/
def findAllNonempty (p : Pattern) (text : Text) : List (Nat × Nat) :=
  (p.findAll text).filter fun (start, stop) => start < stop

end Pattern

end Awk
