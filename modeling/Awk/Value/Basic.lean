import Awk.NumericText
import Awk.Fault

/-!
# Values

A scalar is a number, a string, text from input that counts as a number when it looks like one (`strnum`), or
unset.  The other form of a value is computed when it is asked for.
-/

namespace Awk

inductive Value where
  | num (n : Number)
  | str (t : Text)
  | strnum (t : Text)
  | unset
  deriving DecidableEq, Repr

namespace Value

instance : Inhabited Value := ⟨unset⟩

def ofBool (b : Bool) : Value := if b then num .one else num .zero

def ofNat (n : Nat) : Value := num (.ofNat n)

def ofInt (i : Int) : Value := num (.ofInt i)

/-- The numeric value: that of the leading numeral for any text, zero when unset. -/
def toNumber : Value → Number
  | num n => n
  | str t | strnum t => numericValue t
  | unset => .zero

/-- Compared with another such value, this one compares as a number. -/
def isNumeric : Value → Bool
  | num _ | unset => true
  | str _ => false
  | strnum t => looksNumeric t

/-- A number is true unless it is zero, a string unless it is empty. -/
def truthy : Value → Bool
  | num n => !n.isZero
  | str t => !t.isEmpty
  | strnum t => if looksNumeric t then !(numericValue t).isZero else !t.isEmpty
  | unset => false

/-- The whole part, zero for a NaN or an infinity. -/
def toInt (v : Value) : Int := v.toNumber.truncate

end Value

/-- The whole part of a number that must have one. -/
def Number.toInt (n : Number) : Except Fault Int :=
  match n.truncate? with
  | some i => .ok i
  | none => .error (if n.isNan then .wholeOfNan else .wholeOfInfinity)

end Awk
