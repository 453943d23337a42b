import Awk.Text
import Awk.Unicode.Digits
import Awk.Unicode.Letters

/-!
# Character classes

Which characters are digits, letters and white space, over all of Unicode 14.  A decimal digit has a value
(`decimalValue?`); `isDigit` also takes superscripts and circled digits, which have none.
-/

namespace Awk.Unicode

/-- `n` lies in one of the ranges, which ascend. -/
def inRanges : List (Nat × Nat) → Nat → Bool
  | [], _ => false
  | (lo, hi) :: ranges, n => if n < lo then false else n ≤ hi || inRanges ranges n

/-- Value of `n` in the run of ten that begins at one of the zeros, which ascend. -/
def valueFromZeros : List Nat → Nat → Option Nat
  | [], _ => none
  | z :: zeros, n => if n < z then none else if n < z + 10 then some (n - z) else valueFromZeros zeros n

/-- Value of a decimal digit of any script. -/
def decimalValue? (c : Char) : Option Nat := valueFromZeros decimalZeros c.toNat

def isDecimal (c : Char) : Bool := (decimalValue? c).isSome

def isDigit (c : Char) : Bool := isDecimal c || inRanges looseDigits c.toNat

def isLetter (c : Char) : Bool := inRanges letters c.toNat

/-- Letters, digits and whatever else has a numeric value. -/
def isAlphanumeric (c : Char) : Bool := isLetter c || isDigit c || inRanges numericOnly c.toNat

def isSpace (c : Char) : Bool := inRanges spaces c.toNat

/-- Word characters: alphanumeric ones and the underscore. -/
def isWord (c : Char) : Bool := c == '_' || isAlphanumeric c

end Awk.Unicode
