import Awk.Value.Basic
import Awk.Printf.Layout

/-!
# Formatting values

`formatWith` writes a list of values under a format, directive by directive; the values are handed out from left to
right, a missing one is unset and a surplus one is ignored.  How `%s` and `%c` turn a number into text is a
parameter, because that conversion may itself be a format (`numberText`); `sprintf` ties the two together.
-/

namespace Awk

namespace Printf

/-- The next argument, unset when there is none, and the others. -/
def nextArg : List Value → Value × List Value
  | [] => (.unset, [])
  | v :: rest => (v, rest)

/-- A width or precision as an integer, taking an argument for a star. -/
def Extent.value (e : Extent) (args : List Value) : Except Fault (Option Int × List Value) :=
  match e with
  | .absent => .ok (none, args)
  | .digits ds => .ok (some (Numeral.ofDigits (ds.filterMap Unicode.decimalValue?)), args)
  | .star => do
    let (v, rest) := nextArg args
    .ok (some (← v.toNumber.toInt), rest)

/-- Digits outside ASCII. -/
def Extent.isForeign : Extent → Bool
  | .digits ds => ds.any (!·.isDigit)
  | _ => false

/-- A numeral with more digits than may be read. -/
def Extent.isLong : Extent → Bool
  | .digits ds => numeralLimit < ds.length
  | _ => false

/-- The directive's layout: a negative width means its absolute value and the `-` flag, a negative precision none. -/
def Directive.spec (d : Directive) (args : List Value) : Except Fault (Spec × List Value) := do
  let (width, args) ← d.width.value args
  if d.precision.isLong then throw .badDirective
  let (precision, args) ← d.precision.value args
  let has (c : Char) : Bool := d.flags.contains c
  let spec : Spec := {
    left := has '-' || width.any (· < 0)
    plus := has '+'
    space := has ' '
    alternate := has '#'
    zero := has '0'
    width := width.map Int.natAbs
    foreignWidth := d.width.isForeign
    longWidth := d.width.isLong
    precision := precision.bind fun p => if p < 0 then none else some p.toNat }
  .ok (spec, args)

/-- The character with the code of a number, or the first character of a text.  A code beyond the last code point
is cut down to 21 bits, a negative one to 8. -/
def charOf (textOf : Value → Except Fault Text) (v : Value) : Except Fault Text :=
  let byCode := match v with
    | .num _ => true
    | .strnum t => looksNumeric t
    | _ => false
  if byCode then do
    let code ← v.toNumber.toInt
    let point := if code < 0 then (code % 256).toNat else code.toNat &&& 0x10FFFF
    .ok [Char.ofNat point]
  else do
    .ok ((← textOf v).take 1)

/-- One argument under a conversion. -/
def convert (textOf : Value → Except Fault Text) (spec : Spec) (conversion : Char) (v : Value) :
    Except Fault Text :=
  match conversion with
  | 's' => do
    let t ← textOf v
    pad spec (match spec.precision with
      | some p => t.take p
      | none => t)
  | 'c' => do pad spec (← charOf textOf v)
  | 'd' | 'i' | 'o' | 'u' | 'x' | 'X' => layInteger spec conversion v.toNumber
  | _ => layFloat spec conversion v.toNumber

/-- The conversions that take an argument. -/
def converts (c : Char) : Bool := "cdiouxXeEfFgGs".toList.contains c

/-- Text of one directive, and the arguments it leaves. -/
def formatDirective (textOf : Value → Except Fault Text) (d : Directive) (args : List Value) :
    Except Fault (Text × List Value) :=
  match d.conversion with
  | none => .ok (d.text, args)
  | some c =>
    if c = '%' then .ok (['%'], args)
    else do
      let (spec, args) ← d.spec args
      if converts c then
        let (v, args) := nextArg args
        .ok (← convert textOf spec c v, args)
      else
        .ok (d.text, args)

/-- Text of a list of segments under the arguments. -/
def formatSegments (textOf : Value → Except Fault Text) : List Segment → List Value → Except Fault Text
  | [], _ => .ok []
  | .text t :: rest, args => do .ok (t ++ (← formatSegments textOf rest args))
  | .directive d :: rest, args => do
    let (t, args) ← formatDirective textOf d args
    .ok (t ++ (← formatSegments textOf rest args))

/-- Write values under a format, numbers becoming text by `textOf`. -/
def formatWith (textOf : Value → Except Fault Text) (format : Text) (args : List Value) : Except Fault Text :=
  formatSegments textOf (segments format) args

end Printf

/-- The format of numbers unless another is set. -/
def defaultFormat : Text := "%.6g".toList

namespace Number

/-- A number as text: whole numbers in full, NaN and infinities by name, anything else by `other`. -/
def toTextBy (other : Number → Except Fault Text) (n : Number) : Except Fault Text :=
  match n with
  | nan s => .ok (if s then "-nan".toList else "nan".toList)
  | infinite s => .ok (if s then "-inf".toList else "inf".toList)
  | finite _ _ =>
    match n.whole? with
    | some i => .ok (Text.ofInt i)
    | none => other n

/-- Six significant digits for a number with a fraction. -/
def defaultText (n : Number) : Text :=
  let fraction : Number → Except Fault Text
    | finite s units => .ok ((if s then ['-'] else []) ++ general 6 false units)
    | _ => .ok []
  (toTextBy fraction n).toOption.getD []

/-- A number as text under a format for those with a fraction. -/
def toText (format : Text) (n : Number) : Except Fault Text :=
  let textOf : Value → Except Fault Text
    | .num m => .ok m.defaultText
    | .str t | .strnum t => .ok t
    | .unset => .ok []
  toTextBy (fun m => Printf.formatWith textOf format [.num m]) n

end Number

namespace Value

/-- The value as text, numbers with a fraction by the given format. -/
def toText (format : Text) : Value → Except Fault Text
  | num n => n.toText format
  | str t | strnum t => .ok t
  | unset => .ok []

/-- Order of two values: as numbers when both count as numbers, where a NaN is equal to anything; else as texts. -/
def compare (format : Text) (a b : Value) : Except Fault Ordering :=
  if a.isNumeric && b.isNumeric then
    .ok ((Number.compare? a.toNumber b.toNumber).getD .eq)
  else do
    .ok (Text.compare (← a.toText format) (← b.toText format))

end Value

/-- Write values under a format; `convfmt` is how numbers with a fraction become text in `%s` and `%c`. -/
def sprintf (convfmt format : Text) (args : List Value) : Except Fault Text :=
  Printf.formatWith (Value.toText convfmt) format args

end Awk
