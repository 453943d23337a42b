import Awk.Text

/-!
# Escape sequences

Backslash escapes of string literals and command line values (`decodeEscapes`), and the octal codes that they share
with regular expressions.
-/

namespace Awk

/-! ### Octal codes -/

def isOctal (c : Char) : Bool := '0' ≤ c && c ≤ '7'

/-- The character whose code is written by octal digits. -/
def ofOctal (digits : Text) : Char :=
  Char.ofNat (digits.foldl (fun n d => 8 * n + (d.toNat - '0'.toNat)) 0)

/-- Up to three octal digits at the start of a text, and the rest. -/
def takeOctal (t : Text) : Text × Text :=
  let digits := (t.take 3).takeWhile isOctal
  (digits, t.drop digits.length)

theorem length_takeOctal {c : Char} (t : Text) (h : isOctal c) : (takeOctal (c :: t)).2.length ≤ t.length := by
  simp [takeOctal, List.take_succ_cons, h]

/-! ### Escapes -/

/-- What a letter or mark stands for after a backslash. -/
def stringEscapes : List (Char × Char) :=
  [('"', '"'), ('\\', '\\'), ('/', '/'), ('a', '\x07'), ('b', '\x08'), ('f', '\x0c'), ('n', '\n'), ('r', '\r'),
   ('t', '\t'), ('v', '\x0b')]

/-- The text with its escapes decoded; an unknown escape keeps its backslash, and so does one at the end. -/
def decodeEscapes : Text → Text
  | '\\' :: c :: t =>
    match stringEscapes.lookup c with
    | some d => d :: decodeEscapes t
    | none =>
      if h : isOctal c then
        have := length_takeOctal t h
        ofOctal (takeOctal (c :: t)).1 :: decodeEscapes (takeOctal (c :: t)).2
      else '\\' :: c :: decodeEscapes t
  | c :: t => c :: decodeEscapes t
  | [] => []
termination_by t => t.length
decreasing_by all_goals (simp only [List.length_cons]; omega)

end Awk
