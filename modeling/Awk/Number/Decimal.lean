import Awk.Text
import Awk.Number.Basic

/-!
# Decimal notation

Reading: `ofDecimal` rounds `mantissa · 10 ^ exponent` to the nearest number.  Writing: `fixed` and `scientific`
round the exact value of a number to a given number of decimal places or digits, a tie going to the even digit;
`general` chooses between the two and drops trailing zeros.
-/

namespace Awk.Number

/-! ### Reading -/

/-- The number nearest to `mantissa · 10 ^ exponent`.  The two tests keep the powers of ten small: outside them the
result is infinite or zero whatever the digits. -/
def ofDecimal (negative : Bool) (mantissa : Nat) (exponent : Int) : Number :=
  let magnitude := exponent + (Text.ofNat mantissa).length
  if mantissa = 0 || magnitude < -400 then finite negative 0
  else if 400 < magnitude then infinite negative
  else if 0 ≤ exponent then ofQuotient negative (mantissa * Nat.pow 10 exponent.toNat * unitsPerOne) 1
  else ofQuotient negative (mantissa * unitsPerOne) (Nat.pow 10 (-exponent).toNat)

/-! ### Digits of the exact value -/

/-- `units / unitsPerOne · 10 ^ places`, rounded to a whole number. -/
def scaledDigits (units : Nat) (places : Int) : Nat :=
  if 0 ≤ places then roundDiv (units * Nat.pow 10 places.toNat) unitsPerOne
  else roundDiv units (unitsPerOne * Nat.pow 10 (-places).toNat)

/-- The power of ten of the first digit: `10 ^ e ≤ units / unitsPerOne < 10 ^ (e + 1)`. -/
def decimalExponent (units : Nat) : Int :=
  if units = 0 then 0
  else if unitsPerOne ≤ units then (Text.ofNat (units / unitsPerOne)).length - 1
  else
    let length := (Text.ofNat (unitsPerOne / units)).length
    if unitsPerOne ≤ units * Nat.pow 10 (length - 1) then 1 - length else -length

/-- Digits and exponent of a value rounded to `count` significant digits, `count` being positive. -/
def significant (count : Nat) (units : Nat) : Nat × Int :=
  let e := decimalExponent units
  let digits := scaledDigits units (count - 1 - e)
  if digits = Nat.pow 10 count then (Nat.pow 10 (count - 1), e + 1) else (digits, e)

/-! ### Layout -/

/-- Digits with a point before the last `places` of them; `point` keeps it even when nothing follows. -/
def layFixed (places : Nat) (point : Bool) (digits : Nat) : Text :=
  let text := Text.padLeft (places + 1) '0' (Text.ofNat digits)
  let cut := text.length - places
  if places = 0 then (if point then text ++ ['.'] else text)
  else text.take cut ++ '.' :: text.drop cut

/-- The mark `e`, the sign of the exponent, and at least two digits. -/
def exponentMark (e : Int) : Text :=
  'e' :: (if e < 0 then '-' else '+') :: Text.padLeft 2 '0' (Text.ofNat e.natAbs)

/-- Without the zeros at the end of the fraction, and without a point that nothing follows. -/
def dropTrailingZeros (t : Text) : Text :=
  if t.contains '.' then Text.trimRight (· == '.') (Text.trimRight (· == '0') t) else t

/-- No number has more decimal places or significant digits than this: the digits beyond are zeros. -/
def digitLimit : Nat := 1100

/-- The zeros of a count beyond the digits that a number can have. -/
def zerosBeyond (count : Nat) : Text := List.replicate (count - digitLimit) '0'

/-- `places` decimal places. -/
def fixed (places : Nat) (point : Bool) (units : Nat) : Text :=
  let shown := min places digitLimit
  layFixed shown point (scaledDigits units shown) ++ zerosBeyond places

/-- One digit before the point, `places` after it, and an exponent. -/
def scientific (places : Nat) (point : Bool) (units : Nat) : Text :=
  let shown := min places digitLimit
  let (digits, e) := if units = 0 then (0, 0) else significant (shown + 1) units
  layFixed shown point digits ++ zerosBeyond places ++ exponentMark e

/-- At most `count` significant digits: positional when the exponent is at least -4 and less than `count`, else with
an exponent.  Trailing zeros of the fraction are dropped unless `keep`. -/
def general (count : Nat) (keep : Bool) (units : Nat) : Text :=
  let shown := max (min count digitLimit) 1
  let (digits, e) := if units = 0 then (0, 0) else significant shown units
  let tidy (t : Text) : Text := if keep then t ++ zerosBeyond count else dropTrailingZeros t
  if -4 ≤ e && e < shown then
    tidy (layFixed (shown - 1 - e).toNat keep (if units = 0 then 0 else digits))
  else tidy (layFixed (shown - 1) keep digits) ++ exponentMark e

end Awk.Number
