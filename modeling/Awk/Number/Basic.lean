/-!
# Numbers

A number is a double: a NaN or an infinity with its sign, or a whole number of units of `2 ^ -1074`, the distance
that separates the smallest doubles.  In these units every finite double is an integer, so each operation computes
its exact result and then rounds once (`ofQuotient`), to the nearest number with 53 significant bits, a tie going
to the even neighbour (`roundDiv`).

An operation that has no result (`∞ - ∞`, `0 · ∞`, `∞ / ∞`) gives the NaN whose sign is negative; a NaN operand is
passed on with its sign, the left one first.
-/

namespace Awk

inductive Number where
  | nan (negative : Bool)
  | infinite (negative : Bool)
  /-- `units` times `2 ^ -1074`, or its negative. -/
  | finite (negative : Bool) (units : Nat)
  deriving DecidableEq, Repr

/-- The whole number nearest to `num / den`; of two equally near the even one. -/
def roundDiv (num den : Nat) : Nat :=
  let quotient := num / den
  let twice := 2 * (num % den)
  if twice < den then quotient
  else if den < twice then quotient + 1
  else quotient + quotient % 2

namespace Number

/-- How many units make one. -/
def unitsPerOne : Nat := Nat.pow 2 1074

/-- The first number of units that is too large for a finite number. -/
def unitsLimit : Nat := Nat.pow 2 2098

/-- Units of the double nearest to `num / den` units: the quotient is rounded to a multiple of the power of two
that leaves 53 significant bits. -/
def roundUnits (num den : Nat) : Nat :=
  let step := Nat.pow 2 ((num / den).log2 - 52)
  roundDiv num (den * step) * step

/-- The double nearest to `num / den` units, infinite when that is too large. -/
def ofQuotient (negative : Bool) (num den : Nat) : Number :=
  let units := roundUnits num den
  if units < unitsLimit then finite negative units else infinite negative

def ofNat (n : Nat) : Number := ofQuotient false (n * unitsPerOne) 1

def ofInt (i : Int) : Number := ofQuotient (decide (i < 0)) (i.natAbs * unitsPerOne) 1

def zero : Number := finite false 0

def one : Number := finite false unitsPerOne

def half : Number := finite false (Nat.pow 2 1073)

instance : Inhabited Number := ⟨zero⟩

/-! ### Sign and kind -/

def isNan : Number → Bool
  | nan _ => true
  | _ => false

def isInfinite : Number → Bool
  | infinite _ => true
  | _ => false

/-- Both zeros are zero. -/
def isZero : Number → Bool
  | finite _ units => units == 0
  | _ => false

/-- The sign, which a NaN and a zero have too. -/
def isNegative : Number → Bool
  | nan s | infinite s | finite s _ => s

def neg : Number → Number
  | nan s => nan !s
  | infinite s => infinite !s
  | finite s units => finite (!s) units

/-! ### Arithmetic -/

/-- The units of a finite number with their sign. -/
def signedUnits (negative : Bool) (units : Nat) : Int := if negative then -units else units

def add : Number → Number → Number
  | nan s, _ => nan s
  | _, nan s => nan s
  | infinite s, infinite t => if s = t then infinite s else nan true
  | infinite s, finite _ _ => infinite s
  | finite _ _, infinite t => infinite t
  | finite s a, finite t b =>
    let sum := signedUnits s a + signedUnits t b
    if sum = 0 then finite (s && t) 0 else ofQuotient (decide (sum < 0)) sum.natAbs 1

def sub : Number → Number → Number
  | nan s, _ => nan s
  | _, nan s => nan s
  | x, y => add x (neg y)

def mul : Number → Number → Number
  | nan s, _ => nan s
  | _, nan s => nan s
  | infinite s, infinite t => infinite (s != t)
  | infinite s, finite t b => if b = 0 then nan true else infinite (s != t)
  | finite s a, infinite t => if a = 0 then nan true else infinite (s != t)
  | finite s a, finite t b => ofQuotient (s != t) (a * b) unitsPerOne

def div : Number → Number → Number
  | nan s, _ => nan s
  | _, nan s => nan s
  | infinite _, infinite _ => nan true
  | infinite s, finite t _ => infinite (s != t)
  | finite s _, infinite t => finite (s != t) 0
  | finite s a, finite t b =>
    if b = 0 then (if a = 0 then nan true else infinite (s != t))
    else ofQuotient (s != t) (a * unitsPerOne) b

/-- Remainder of the division that rounds toward zero; it has the sign of the dividend and is exact.  Without a
result (an infinite dividend, a zero divisor) it is the positive NaN. -/
def remainder : Number → Number → Number
  | nan s, _ => nan s
  | _, nan s => nan s
  | infinite _, _ => nan false
  | finite s a, infinite _ => finite s a
  | finite s a, finite _ b => if b = 0 then nan false else finite s (a % b)

/-! ### Order -/

/-- Order of two numbers; a NaN is not ordered, and the two zeros are equal. -/
def compare? : Number → Number → Option Ordering
  | nan _, _ => none
  | _, nan _ => none
  | infinite s, infinite t => some (if s = t then .eq else if s then .lt else .gt)
  | infinite s, finite _ _ => some (if s then .lt else .gt)
  | finite _ _, infinite t => some (if t then .gt else .lt)
  | finite s a, finite t b => some (compare (signedUnits s a) (signedUnits t b))

def lt (x y : Number) : Bool := compare? x y == some .lt

def le (x y : Number) : Bool := lt x y || compare? x y == some .eq

/-! ### Whole numbers -/

/-- The whole part, toward zero; there is none for a NaN or an infinity. -/
def truncate? : Number → Option Int
  | finite s units =>
    let whole : Int := units / unitsPerOne
    some (if s then -whole else whole)
  | _ => none

/-- The greatest whole number that is not larger; there is none for a NaN or an infinity. -/
def floor? : Number → Option Int
  | finite s units => some (signedUnits s units / (unitsPerOne : Int))
  | _ => none

/-- The value of a number that has no fraction. -/
def whole? : Number → Option Int
  | finite s units =>
    if units % unitsPerOne = 0 then truncate? (finite s units) else none
  | _ => none

/-- The whole part, taken as zero for a NaN or an infinity. -/
def truncate (x : Number) : Int := (truncate? x).getD 0

end Number

end Awk
