import Awk.Number.Basic

/-!
# Binary layout of numbers

The 64 bits of a double: sign, biased exponent, fraction.  A finite number of `units` units has the biased exponent
`e = log2 units - 52` (zero below `2 ^ 52`) and its leading bit, when it is not stored, is what carries into the
exponent field; so exponent and fraction together are `e * 2 ^ 52 + units / 2 ^ e`.
-/

namespace Awk.Number

def signBit (negative : Bool) : Nat := if negative then Nat.pow 2 63 else 0

def toBits : Number → Nat
  | nan s => signBit s + 2047 * Nat.pow 2 52 + Nat.pow 2 51
  | infinite s => signBit s + 2047 * Nat.pow 2 52
  | finite s units =>
    let e := units.log2 - 52
    signBit s + e * Nat.pow 2 52 + units / Nat.pow 2 e

def ofBits (bits : Nat) : Number :=
  let negative := bits / Nat.pow 2 63 % 2 == 1
  let e := bits / Nat.pow 2 52 % 2048
  let fraction := bits % Nat.pow 2 52
  if e = 2047 then (if fraction = 0 then infinite negative else nan negative)
  else if e = 0 then finite negative fraction
  else finite negative ((Nat.pow 2 52 + fraction) * Nat.pow 2 (e - 1))

def toFloat (x : Number) : Float := Float.ofBits x.toBits.toUInt64

/-- A NaN comes out positive, whatever its bits. -/
def ofFloat (x : Float) : Number := if x.isNaN then nan false else ofBits x.toBits.toNat

end Awk.Number
