import Awk.Number.Decimal
import Awk.Unicode.Basic

/-!
# Numeric text

A numeral is an optional sign, digits with an optional point (or a point with digits), and an optional exponent; its
digits may be those of any script.  `Numeral.read?` takes the longest numeral at the start of a text and gives the
rest.  From it come the value of a text (`numericValue`: the numeral after leading blanks, zero without one) and the
test whether a text is a numeral and nothing else between blanks (`looksNumeric`).
-/

namespace Awk

open Unicode (decimalValue?)

/-- A numeral as read: its value is `mantissa · 10 ^ exponent`, or the negative of that. -/
structure Numeral where
  negative : Bool
  mantissa : Nat
  exponent : Int
  deriving DecidableEq, Repr

namespace Numeral

/-- The number nearest to the numeral. -/
def toNumber (n : Numeral) : Number := Number.ofDecimal n.negative n.mantissa n.exponent

/-- Values of the digits at the start of a text, and the rest. -/
def takeDigits : Text → List Nat × Text
  | [] => ([], [])
  | c :: t =>
    match decimalValue? c with
    | some d => let (ds, rest) := takeDigits t; (d :: ds, rest)
    | none => ([], c :: t)

/-- The number that a list of digit values writes in base ten. -/
def ofDigits (digits : List Nat) : Nat := digits.foldl (fun n d => 10 * n + d) 0

/-- A sign at the start of a text, `true` for minus, and the rest. -/
def takeSign : Text → Bool × Text
  | '-' :: t => (true, t)
  | '+' :: t => (false, t)
  | t => (false, t)

/-- An exponent at the start of a text; without digits it is none and takes nothing. -/
def takeExponent (t : Text) : Int × Text :=
  match t with
  | c :: t' =>
    if c = 'e' || c = 'E' then
      let (negative, t'') := takeSign t'
      match takeDigits t'' with
      | ([], _) => (0, t)
      | (digits, rest) =>
        let e : Int := ofDigits digits
        (if negative then -e else e, rest)
    else (0, t)
  | [] => (0, [])

/-- A point at the start of a text with the digits after it. -/
def takeFraction : Text → Option (List Nat × Text)
  | '.' :: t => some (takeDigits t)
  | _ => none

/-- The longest numeral at the start of a text, and the rest. -/
def read? (t : Text) : Option (Numeral × Text) :=
  let (negative, t) := takeSign t
  let (whole, afterWhole) := takeDigits t
  let (fraction, rest) := (takeFraction afterWhole).getD ([], afterWhole)
  if whole.isEmpty && fraction.isEmpty then none
  else
    let (e, rest) := takeExponent rest
    some (⟨negative, ofDigits (whole ++ fraction), e - fraction.length⟩, rest)

end Numeral

/-- Blanks around numeric text: space, tab, newline, return, form feed and vertical tab. -/
def isNumericBlank (c : Char) : Bool := " \t\n\r\x0c\x0b".toList.contains c

/-- Value of the longest numeral after leading blanks, zero without one. -/
def numericValue (t : Text) : Number :=
  match Numeral.read? (t.dropWhile isNumericBlank) with
  | some (n, _) => n.toNumber
  | none => .zero

/-- The text is a numeral with nothing but blanks around it. -/
def looksNumeric (t : Text) : Bool :=
  match Numeral.read? (t.dropWhile isNumericBlank) with
  | some (_, rest) => rest.all isNumericBlank
  | none => false

end Awk
