import Awk.Number.Bits

/-!
# Elementary functions

Sine, cosine, arc tangent, exponential, logarithm, square root and power.  Finite arguments go to the machine's
functions; what is decided here are the results for NaN, infinities and arguments outside the domain.  A NaN
argument keeps its sign in the functions of one argument.
-/

namespace Awk.Number

/-- Apply a machine function to a number, passing a NaN on. -/
def viaFloat (f : Float → Float) : Number → Number
  | nan s => nan s
  | x => ofFloat (f x.toFloat)

/-- The sine; an infinity has none. -/
def sin (x : Number) : Number := if x.isInfinite then nan false else viaFloat Float.sin x

/-- The cosine; an infinity has none. -/
def cos (x : Number) : Number := if x.isInfinite then nan false else viaFloat Float.cos x

/-- Angle of the point `(x, y)`, its ordinate first. -/
def atan2 (y x : Number) : Number :=
  if y.isNan || x.isNan then nan false else ofFloat (Float.atan2 y.toFloat x.toFloat)

/-- The exponential, infinite where it is too large. -/
def exp (x : Number) : Number := viaFloat Float.exp x

/-- The natural logarithm of a number that is not negative; that of zero is minus infinity. -/
def log (x : Number) : Number := viaFloat Float.log x

/-- The square root of a number that is not negative. -/
def sqrt (x : Number) : Number := viaFloat Float.sqrt x

/-- A whole number that two does not divide. -/
def isOdd : Number → Bool
  | finite s units => (whole? (finite s units)).any fun i => i % 2 != 0
  | _ => false

/-- `1 < |x|`, `|x| < 1` or neither, for an `x` that is not a NaN. -/
def compareMagnitudeToOne : Number → Ordering
  | finite _ units => compare units unitsPerOne
  | _ => .gt

/-- `x` to the power `y`.  Whatever is raised to zero is one, and so is one raised to anything; a result too large
is infinite, negative only for a negative base and an odd exponent; zero to a negative power is plus infinity; a
negative base with a fractional exponent has no result. -/
def pow (x y : Number) : Number :=
  if y.isZero then one
  else if x == one then one
  else match x, y with
    | nan _, _ => x
    | _, nan _ => y
    | infinite s, _ =>
      if y.isNegative then finite (s && y.isOdd) 0 else infinite (s && y.isOdd)
    | finite _ _, infinite t =>
      match compareMagnitudeToOne x with
      | .eq => one
      | .lt => if t then infinite false else zero
      | .gt => if t then zero else infinite false
    | finite s a, finite t _ =>
      if a = 0 && t then infinite false
      else if s && a != 0 && (whole? y).isNone then nan false
      else
        match ofFloat (Float.pow x.toFloat y.toFloat) with
        | infinite _ => infinite (s && y.isOdd)
        | result => result

end Awk.Number
