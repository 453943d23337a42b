import Awk.Limits
import Awk.Number.Decimal
import Awk.Printf.Directive

/-!
# Layout of converted arguments

How a converted argument is laid out in its field.  A number is a sign, a base mark and digits; zero filling goes
between the mark and the digits, blank filling outside (`layNumber`).  A piece of text is filled with blanks on
either side (`pad`).
-/

namespace Awk.Printf

/-- Flags, width and precision of a directive, its stars replaced by their values. -/
structure Spec where
  left : Bool
  plus : Bool
  space : Bool
  alternate : Bool
  zero : Bool
  width : Option Nat
  /-- The width is written with digits of another script, which a numeric directive refuses. -/
  foreignWidth : Bool
  /-- The width is written with more digits than a numeral may have. -/
  longWidth : Bool
  precision : Option Nat
  deriving DecidableEq, Repr

/-- Every precision of a numeric directive is less than this. -/
def precisionLimit : Nat := Nat.pow 2 31

/-- The precision of a whole number is less than this: the digits, a sign and a base mark are counted together. -/
def wholePrecisionLimit : Nat := precisionLimit - 3

/-- The width, zero when there is none, if it is a size. -/
def Spec.claimWidth (spec : Spec) : Except Fault Nat := do
  if spec.longWidth then throw .badDirective
  let width := spec.width.getD 0
  checkSize width
  return width

/-- Refuses a width or a precision that no numeric directive can hold. -/
def Spec.checkNumeric (spec : Spec) : Except Fault Unit :=
  if spec.foreignWidth || sizeLimit ≤ spec.width.getD 0 || precisionLimit ≤ spec.precision.getD 0 then
    .error .badDirective
  else .ok ()

/-- Blanks on the left, or on the right with the `-` flag, up to the width. -/
def pad (spec : Spec) (t : Text) : Except Fault Text := do
  let width ← spec.claimWidth
  return if spec.left then Text.padRight width ' ' t else Text.padLeft width ' ' t

/-- The sign that a number shows. -/
def signMark (spec : Spec) (negative : Bool) : Text :=
  if negative then ['-'] else if spec.plus then ['+'] else if spec.space then [' '] else []

/-- Sign, base mark and digits in a field of the width. -/
def layNumber (spec : Spec) (negative : Bool) (mark digits : Text) : Except Fault Text := do
  let width ← spec.claimWidth
  let front := signMark spec negative ++ mark
  return if spec.left then Text.padRight width ' ' (front ++ digits)
    else if spec.zero then front ++ Text.padLeft (width - front.length) '0' digits
    else Text.padLeft width ' ' (front ++ digits)

/-- Digits of a natural number in a base, at least as many as the precision asks for. -/
def digitsInBase (spec : Spec) (base n : Nat) : Except Fault Text := do
  spec.checkNumeric
  let least := spec.precision.getD 0
  if wholePrecisionLimit ≤ least then throw .countTooLarge
  return Text.padLeft least '0' (Nat.toDigits base n)

/-- Letters of an infinity or a NaN. -/
def specialLetters : Number → Text
  | .nan _ => "nan".toList
  | _ => "inf".toList

/-- A NaN shows no sign. -/
def showsNegative : Number → Bool
  | .nan _ => false
  | n => n.isNegative

/-- Places of the conversion `e`.  The first digit counts too, and the largest precision leaves no count for it:
only that digit is shown. -/
def scientificPlaces (precision : Nat) : Nat := if precision + 1 = precisionLimit then 0 else precision

/-- A finite number under one of the conversions `e`, `f` and `g`. -/
def finiteDigits (spec : Spec) (conversion : Char) (units : Nat) : Text :=
  let precision := spec.precision.getD 6
  match conversion with
  | 'e' => Number.scientific (scientificPlaces precision) spec.alternate units
  | 'f' => Number.fixed precision spec.alternate units
  | _ => Number.general precision spec.alternate units

/-- The conversions `e`, `f` and `g`, and the same in capitals. -/
def layFloat (spec : Spec) (conversion : Char) (n : Number) : Except Fault Text := do
  spec.checkNumeric
  let digits := match n with
    | .finite _ units => finiteDigits spec conversion.toLower units
    | special => specialLetters special
  layNumber spec (showsNegative n) [] (if conversion.isUpper then digits.map Char.toUpper else digits)

/-- Octal digits with a leading zero, for the `#` flag: sign flags do not apply. -/
def layOctal (spec : Spec) (n : Nat) : Except Fault Text := do
  let digits ← digitsInBase { spec with width := none, foreignWidth := false } 8 n
  let digits := if digits.head? == some '0' then digits else '0' :: digits
  if spec.zero && !spec.left then return Text.padLeft (← spec.claimWidth) '0' digits
  pad spec digits

/-- The conversions of whole numbers.  All but `d` and `i` show a negative number as its remainder modulo `2 ^ 64`. -/
def layInteger (spec : Spec) (conversion : Char) (n : Number) : Except Fault Text :=
  match n.truncate? with
  | none => pad spec (signMark spec (showsNegative n) ++ specialLetters n)
  | some i => do
    let signed := conversion == 'd' || conversion == 'i'
    let negative := signed && i < 0
    let magnitude := if !signed && i < 0 then (i % Nat.pow 2 64).toNat else i.natAbs
    match conversion with
    | 'o' =>
      if spec.alternate then layOctal spec magnitude
      else layNumber spec negative [] (← digitsInBase spec 8 magnitude)
    | 'x' =>
      layNumber spec negative (if spec.alternate then ['0', 'x'] else []) (← digitsInBase spec 16 magnitude)
    | 'X' =>
      layNumber spec negative (if spec.alternate then ['0', 'X'] else [])
        ((← digitsInBase spec 16 magnitude).map Char.toUpper)
    | _ => layNumber spec negative [] (← digitsInBase spec 10 magnitude)

end Awk.Printf
