import Awk.Regex.Compile

/-!
# Record readers

A reader takes records from a source of lines and keeps the text it has fetched but not yet given out in a buffer.
A record ends at a character, at blank lines, or at a match of a regular expression (`readRecord`); whichever it is,
the reader fetches line after line until the end of the record is certain.

What is still to come, `unread`, is the buffer followed by the rest of the source; every fetch moves a line from one
to the other and leaves it as it is (`Source.line_unread`), which also bounds the number of fetches.
-/

namespace Awk

/-- Where lines come from: text at hand, and what stands behind it when that is used up. -/
structure Source where
  pending : Text
  beyond : Text
  deriving DecidableEq, Repr

namespace Source

def ofText (t : Text) : Source := ⟨t, []⟩

def unread (s : Source) : Text := s.pending ++ s.beyond

/-- Up to and including the first newline, and the rest. -/
def cutLine : Text → Text × Text
  | [] => ([], [])
  | c :: t => if c = '\n' then ([c], t) else let (line, rest) := cutLine t; (c :: line, rest)

theorem cutLine_append (t : Text) : (cutLine t).1 ++ (cutLine t).2 = t := by
  induction t with
  | nil => rfl
  | cons c t ih =>
    unfold cutLine
    split
    · rfl
    · simp [ih]

/-- The next line with its newline, empty at the end of the source.  What stands behind is fetched, all of it at once,
only when the text at hand holds no whole line. -/
def line (s : Source) : Text × Source :=
  if s.pending.contains '\n' then
    let (line, rest) := cutLine s.pending
    (line, ⟨rest, s.beyond⟩)
  else
    let (line, rest) := cutLine s.unread
    (line, ⟨rest, []⟩)

theorem line_unread (s : Source) : s.line.1 ++ s.line.2.unread = s.unread := by
  unfold line
  split
  · simp only [unread]
    rw [← List.append_assoc, cutLine_append]
  · simp only [unread, List.append_nil]
    exact cutLine_append _

end Source

structure Reader where
  buffer : Text
  /-- The end of the source has been seen. -/
  ended : Bool
  source : Source
  deriving DecidableEq, Repr

namespace Reader

def ofSource (s : Source) : Reader := ⟨[], false, s⟩

def ofText (t : Text) : Reader := ofSource (.ofText t)

def unread (r : Reader) : Text := r.buffer ++ r.source.unread

/-- Fetch a line into the buffer; the flag tells whether there was one. -/
def fill (r : Reader) : Bool × Reader :=
  if r.ended then (false, r)
  else
    let (line, source) := r.source.line
    if line.isEmpty then (false, ⟨r.buffer, true, source⟩)
    else (true, ⟨r.buffer ++ line, false, source⟩)

/-- Enough rounds for a loop that fetches once in each. -/
def rounds (r : Reader) : Nat := r.source.unread.length + 2

/-- What is left in the buffer as the last record. -/
def takeRest (r : Reader) : Option Text × Reader :=
  if r.buffer.isEmpty then (none, r) else (some r.buffer, ⟨[], r.ended, r.source⟩)

/-! ### Records that end at a character -/

def readUntilCharLoop (separator : Char) : Nat → Reader → Option Text × Reader
  | 0, r => (none, r)
  | fuel + 1, r =>
    match Text.cutAt? [separator] r.buffer with
    | some (record, rest) => (some record, ⟨rest, r.ended, r.source⟩)
    | none =>
      match r.fill with
      | (true, r) => readUntilCharLoop separator fuel r
      | (false, r) => r.takeRest

/-- One line without its newline, when the buffer is empty: the end of the source is noticed only when a line is
wanted and none comes. -/
def readLine (r : Reader) : Option Text × Reader :=
  let (line, source) := r.source.line
  if line.isEmpty then (none, ⟨[], true, source⟩)
  else (some (if line.getLast? == some '\n' then line.dropLast else line), ⟨[], false, source⟩)

def readUntilChar (r : Reader) (separator : Char) : Option Text × Reader :=
  if separator = '\n' && r.buffer.isEmpty && !r.ended then r.readLine
  else readUntilCharLoop separator r.rounds r

/-! ### Records that end at a match -/

/-- The first match that takes some text. -/
def firstNonempty (p : Pattern) (text : Text) : Option (Nat × Nat) := (p.findAllNonempty text).head?

/-- A match that touches the end of the buffer might still grow, unless the source has ended. -/
def readUntilMatchLoop (p : Pattern) : Nat → Reader → Option Text × Reader
  | 0, r => (none, r)
  | fuel + 1, r =>
    let found := firstNonempty p r.buffer
    match found.filter fun (_, stop) => stop < r.buffer.length || r.ended with
    | some (start, stop) => (some (r.buffer.take start), ⟨r.buffer.drop stop, r.ended, r.source⟩)
    | none =>
      match r.fill with
      | (true, r) => readUntilMatchLoop p fuel r
      | (false, r) => if found.isSome then readUntilMatchLoop p fuel r else r.takeRest

def readUntilMatch (r : Reader) (p : Pattern) : Option Text × Reader :=
  readUntilMatchLoop p (r.rounds + 1) r

/-! ### Paragraphs -/

/-- Drop leading newlines, fetching until something else stands in the buffer. -/
def skipNewlines : Nat → Reader → Reader
  | 0, r => r
  | fuel + 1, r =>
    let r : Reader := ⟨r.buffer.dropWhile (· == '\n'), r.ended, r.source⟩
    if !r.buffer.isEmpty then r
    else
      match r.fill with
      | (true, r) => skipNewlines fuel r
      | (false, r) => r

/-- Cut at the first run of at least two newlines: the text before it and the text after it. -/
def cutBlankLines : Text → Option (Text × Text)
  | [] => none
  | '\n' :: '\n' :: t => some ([], t.dropWhile (· == '\n'))
  | c :: t => (cutBlankLines t).map fun (before, rest) => (c :: before, rest)

def readParagraphLoop : Nat → Reader → Option Text × Reader
  | 0, r => (none, r)
  | fuel + 1, r =>
    match (cutBlankLines r.buffer).filter fun (_, rest) => !rest.isEmpty || r.ended with
    | some (record, rest) => (some record, ⟨rest, r.ended, r.source⟩)
    | none =>
      match r.fill with
      | (true, r) => readParagraphLoop fuel r
      | (false, r) => (some (Text.trimRight (· == '\n') r.buffer), ⟨[], r.ended, r.source⟩)

def readParagraph (r : Reader) : Option Text × Reader :=
  let r := skipNewlines r.rounds r
  if r.buffer.isEmpty then (none, r) else readParagraphLoop r.rounds r

/-! ### Any record -/

/-- The next record, none at the end.  The separator is one character, empty for paragraphs, or a regular expression;
one that does not compile is a fault, and the reader stays as it is. -/
def readRecord (r : Reader) (separator : Text) : Except Fault (Option Text) × Reader :=
  match separator with
  | [] => let (record, r) := r.readParagraph; (.ok record, r)
  | [c] => let (record, r) := r.readUntilChar c; (.ok record, r)
  | _ =>
    match compileEre separator with
    | .error fault => (.error fault, r)
    | .ok p => let (record, r) := r.readUntilMatch p; (.ok record, r)

end Reader

end Awk
