import Awk.Text
import Awk.Unicode.Basic

/-!
# Format directives

A format is text with directives in it.  A directive is a percent sign, flags, a width, a precision after a point, a
length modifier, which means nothing, and a conversion letter; each part may be missing, and a width or precision
may be a star, which takes its value from the arguments.  `segments` reads a format into text and directives, each
directive with its own text, for a directive without a usable conversion is printed as it stands.
-/

namespace Awk.Printf

/-- A width or precision as written. -/
inductive Extent where
  | absent
  | star
  | digits (text : Text)
  deriving DecidableEq, Repr

structure Directive where
  /-- The text of the directive, percent sign included. -/
  text : Text
  flags : Text
  width : Extent
  precision : Extent
  conversion : Option Char
  deriving DecidableEq, Repr

inductive Segment where
  | text (t : Text)
  | directive (d : Directive)
  deriving DecidableEq, Repr

def isFlag (c : Char) : Bool := c == '-' || c == '+' || c == ' ' || c == '#' || c == '0'

/-- A conversion is an ASCII letter, or a percent sign. -/
def isConversion (c : Char) : Bool := c.isAlpha || c == '%'

/-- A star or digits at the start of a text, and the rest. -/
def takeExtent : Text → Extent × Text
  | [] => (.absent, [])
  | c :: t =>
    if c = '*' then (.star, t)
    else if Unicode.isDecimal c then
      (.digits ((c :: t).takeWhile Unicode.isDecimal), (c :: t).dropWhile Unicode.isDecimal)
    else (.absent, c :: t)

/-- A precision at the start of a text: after a point no digits are the digits of zero. -/
def takePrecision : Text → Extent × Text
  | '.' :: t =>
    match takeExtent t with
    | (.absent, rest) => (.digits [], rest)
    | found => found
  | t => (.absent, t)

/-- The text without a length modifier at its start. -/
def dropModifier : Text → Text
  | 'h' :: 'h' :: t | 'l' :: 'l' :: t => t
  | c :: t => if "hlLqjzt".toList.contains c then t else c :: t
  | [] => []

def takeConversion : Text → Option Char × Text
  | [] => (none, [])
  | c :: t => if isConversion c then (some c, t) else (none, c :: t)

theorem length_takeExtent (t : Text) : (takeExtent t).2.length ≤ t.length := by
  cases t with
  | nil => simp [takeExtent]
  | cons c t =>
    by_cases hstar : c = '*'
    · simp [takeExtent, hstar]
    · by_cases hdigit : Unicode.isDecimal c
      · have := (List.dropWhile_suffix (l := t) Unicode.isDecimal).length_le
        simp [takeExtent, hstar, hdigit]
        omega
      · simp [takeExtent, hstar, hdigit]

theorem length_takePrecision (t : Text) : (takePrecision t).2.length ≤ t.length := by
  unfold takePrecision
  split
  · rename_i t
    have h := length_takeExtent t
    split
    · rename_i heq
      rw [heq] at h
      simp at h ⊢
      omega
    · simp
      omega
  · simp

theorem length_dropModifier (t : Text) : (dropModifier t).length ≤ t.length := by
  unfold dropModifier
  split
  · simp; omega
  · simp; omega
  · split <;> simp
  · simp

theorem length_takeConversion (t : Text) : (takeConversion t).2.length ≤ t.length := by
  unfold takeConversion
  split
  · simp
  · split <;> simp

/-- The directive at the start of a text, whose percent sign has been read, and the rest. -/
def readDirective (t : Text) : Directive × Text :=
  let afterFlags := t.dropWhile isFlag
  let (width, afterWidth) := takeExtent afterFlags
  let (precision, afterPrecision) := takePrecision afterWidth
  let (conversion, rest) := takeConversion (dropModifier afterPrecision)
  (⟨'%' :: t.take (t.length - rest.length), t.takeWhile isFlag, width, precision, conversion⟩, rest)

theorem length_readDirective (t : Text) : (readDirective t).2.length ≤ t.length := by
  have h1 : (t.dropWhile isFlag).length ≤ t.length := (List.dropWhile_suffix _).length_le
  have h2 := length_takeExtent (t.dropWhile isFlag)
  have h3 := length_takePrecision (takeExtent (t.dropWhile isFlag)).2
  have h4 := length_dropModifier (takePrecision (takeExtent (t.dropWhile isFlag)).2).2
  have h5 := length_takeConversion (dropModifier (takePrecision (takeExtent (t.dropWhile isFlag)).2).2)
  simp only [readDirective]
  omega

/-- The format as a list of texts and directives, in order. -/
def segments : Text → List Segment
  | [] => []
  | c :: t =>
    if c = '%' then
      .directive (readDirective t).1 :: segments (readDirective t).2
    else
      match segments t with
      | .text s :: rest => .text (c :: s) :: rest
      | rest => .text [c] :: rest
termination_by t => t.length
decreasing_by
  · have := length_readDirective t
    simp; omega
  · simp

end Awk.Printf
