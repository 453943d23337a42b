/-!
# Texts

A text is a list of code points, so that every length, column, offset and index of the library counts code
points.  Here are the few operations the rest needs: cutting at a character (`splitOn`), finding a text in another
(`find?`), trimming, padding to a width, and the order of code points (`compare`).
-/

namespace Awk

/-- A sequence of code points. -/
abbrev Text := List Char

namespace Text

/-- Order by code points, a beginning of a text coming before the text. -/
def compare : Text → Text → Ordering
  | [], [] => .eq
  | [], _ :: _ => .lt
  | _ :: _, [] => .gt
  | a :: s, b :: t => if a < b then .lt else if b < a then .gt else compare s t

/-- The pieces between the occurrences of a separator that satisfies `sep`; there is always at least one. -/
def splitOn (sep : Char → Bool) : Text → List Text
  | [] => [[]]
  | c :: t =>
    match splitOn sep t with
    | [] => [[c]]
    | piece :: pieces => if sep c then [] :: piece :: pieces else (c :: piece) :: pieces

/-- `t` begins with `p`; the rest is what follows it. -/
def dropPrefix? : Text → Text → Option Text
  | t, [] => some t
  | [], _ :: _ => none
  | c :: t, d :: p => if c = d then dropPrefix? t p else none

def startsWith (t p : Text) : Bool := (dropPrefix? t p).isSome

/-- Offset of the first occurrence of `p` in the text. -/
def find? (p : Text) : Text → Option Nat
  | [] => if p.isEmpty then some 0 else none
  | c :: t => if startsWith (c :: t) p then some 0 else (find? p t).map (· + 1)

/-- Cut before the first occurrence of `p`: what stands before it and what follows it. -/
def cutAt? (p : Text) : Text → Option (Text × Text)
  | [] => if p.isEmpty then some ([], []) else none
  | c :: t =>
    match dropPrefix? (c :: t) p with
    | some rest => some ([], rest)
    | none => (cutAt? p t).map fun (before, rest) => (c :: before, rest)

def trimLeft (p : Char → Bool) (t : Text) : Text := t.dropWhile p

def trimRight (p : Char → Bool) (t : Text) : Text := (t.reverse.dropWhile p).reverse

def trim (p : Char → Bool) (t : Text) : Text := trimRight p (trimLeft p t)

/-- Fill on the left up to `width` characters. -/
def padLeft (width : Nat) (fill : Char) (t : Text) : Text :=
  List.replicate (width - t.length) fill ++ t

/-- Fill on the right up to `width` characters. -/
def padRight (width : Nat) (fill : Char) (t : Text) : Text :=
  t ++ List.replicate (width - t.length) fill

/-- The texts with `sep` between neighbours. -/
def join (sep : Text) (parts : List Text) : Text := List.intercalate sep parts

/-- The slice from offset `start` up to offset `stop`. -/
def slice (t : Text) (start stop : Nat) : Text := (t.drop start).take (stop - start)

/-- Decimal digits of a natural number. -/
def ofNat (n : Nat) : Text := Nat.toDigits 10 n

/-- Decimal digits of an integer, after a minus sign if it is negative. -/
def ofInt (i : Int) : Text := if i < 0 then '-' :: ofNat i.natAbs else ofNat i.natAbs

end Text

/-- ASCII characters that begin a name. -/
def isNameStart (c : Char) : Bool := c.isAlpha || c == '_'

/-- ASCII characters of a name. -/
def isNameChar (c : Char) : Bool := c.isAlphanum || c == '_'

end Awk
