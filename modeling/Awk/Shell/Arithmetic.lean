import Awk.Text

/-!
# Arithmetic of the shell

Whole numbers of 64 bits with the usual operators, evaluated while they are read (`evaluate?`).  The operands are
numerals, decimal, octal or hexadecimal, and variables, whose values must be numerals.
-/

namespace Awk.Shell.Arithmetic

/-- The number modulo the word size, between the least and the largest signed word. -/
def wrap (n : Int) : Int := Int.bmod n (Nat.pow 2 64)

def digitValue (c : Char) : Nat :=
  if c.isDigit then c.toNat - '0'.toNat
  else if 'a' ≤ c && c ≤ 'f' then c.toNat - 'a'.toNat + 10
  else if 'A' ≤ c && c ≤ 'F' then c.toNat - 'A'.toNat + 10
  else 16

def ofDigits? (base : Nat) (digits : Text) : Option Int :=
  if digits.isEmpty || digits.any (base ≤ digitValue ·) then none
  else some (digits.foldl (fun n d => base * n + digitValue d) 0)

/-- A numeral without a sign. -/
def numeral? : Text → Option Int
  | '0' :: 'x' :: t | '0' :: 'X' :: t => ofDigits? 16 t
  | '0' :: t => if t.isEmpty then some 0 else ofDigits? 8 t
  | t => ofDigits? 10 t

/-- A numeral, perhaps with a sign. -/
def signed? : Text → Option Int
  | '-' :: t => (numeral? t).map (-·)
  | '+' :: t => numeral? t
  | t => numeral? t

/-- The binary operators, longest first, each with its strength. -/
def operators : List (String × Nat) :=
  [("||", 1), ("&&", 2), ("==", 6), ("!=", 6), ("<=", 7), (">=", 7), ("<<", 8), (">>", 8), ("|", 3), ("^", 4),
   ("&", 5), ("<", 7), (">", 7), ("+", 9), ("-", 9), ("*", 10), ("/", 10), ("%", 10)]

def ofFlag (b : Bool) : Int := if b then 1 else 0

def combine? (op : String) (a b : Int) : Option Int :=
  match op with
  | "||" => some (ofFlag (a != 0 || b != 0))
  | "&&" => some (ofFlag (a != 0 && b != 0))
  | "==" => some (ofFlag (a == b))
  | "!=" => some (ofFlag (a != b))
  | "<=" => some (ofFlag (a ≤ b))
  | ">=" => some (ofFlag (b ≤ a))
  | "<" => some (ofFlag (a < b))
  | ">" => some (ofFlag (b < a))
  | "<<" => some (wrap (a * Nat.pow 2 (b % 64).toNat))
  | ">>" => some (a / Nat.pow 2 (b % 64).toNat)
  | "|" => some (BitVec.ofInt 64 a ||| BitVec.ofInt 64 b).toInt
  | "^" => some (BitVec.ofInt 64 a ^^^ BitVec.ofInt 64 b).toInt
  | "&" => some (BitVec.ofInt 64 a &&& BitVec.ofInt 64 b).toInt
  | "+" => some (wrap (a + b))
  | "-" => some (wrap (a - b))
  | "*" => some (wrap (a * b))
  | "/" => if b = 0 then none else some (wrap (a.tdiv b))
  | _ => if b = 0 then none else some (a.tmod b)

def skipBlanks (t : Text) : Text := t.dropWhile fun c => c == ' ' || c == '\t' || c == '\n'

def operator? (t : Text) : Option (String × Nat × Text) :=
  operators.findSome? fun (s, level) => (Text.dropPrefix? t s.toList).map (s, level, ·)

mutual

/-- A chain of operands with operators at least as strong as `level`, and the text behind it.  Every round takes a
character, which bounds the fuel. -/
def chain (value : Text → Option Int) : Nat → Nat → Text → Option (Int × Text)
  | 0, _, _ => none
  | fuel + 1, level, t => do
    let (a, t) ← operand value fuel (skipBlanks t)
    chainFrom value fuel level a (skipBlanks t)

def chainFrom (value : Text → Option Int) : Nat → Nat → Int → Text → Option (Int × Text)
  | 0, _, _, _ => none
  | fuel + 1, level, a, t =>
    match operator? t with
    | some (op, strength, rest) =>
      if strength < level then some (a, t)
      else do
        let (b, rest) ← chain value fuel (strength + 1) rest
        chainFrom value fuel level (← combine? op a b) (skipBlanks rest)
    | none => some (a, t)

def operand (value : Text → Option Int) : Nat → Text → Option (Int × Text)
  | 0, _ => none
  | fuel + 1, t =>
    match t with
    | '-' :: t => do
      let (a, t) ← operand value fuel (skipBlanks t)
      return (wrap (-a), t)
    | '+' :: t => operand value fuel (skipBlanks t)
    | '!' :: t => do
      let (a, t) ← operand value fuel (skipBlanks t)
      return (ofFlag (a == 0), t)
    | '~' :: t => do
      let (a, t) ← operand value fuel (skipBlanks t)
      return (-a - 1, t)
    | '(' :: t => do
      let (a, t) ← choice value fuel t
      match t with
      | ')' :: t => return (a, t)
      | _ => none
    | c :: _ =>
      let word := t.takeWhile isNameChar
      let rest := t.drop word.length
      if c.isDigit then (numeral? word).map fun n => (wrap n, rest)
      else if isNameStart c then (value word).map fun n => (wrap n, rest)
      else none
    | [] => none

/-- A chain, perhaps as the condition of a choice between two others. -/
def choice (value : Text → Option Int) : Nat → Text → Option (Int × Text)
  | 0, _ => none
  | fuel + 1, t => do
    let (a, t) ← chain value fuel 1 t
    match skipBlanks t with
    | '?' :: t =>
      let (b, t) ← choice value fuel t
      match skipBlanks t with
      | ':' :: t =>
        let (c, t) ← choice value fuel t
        return (if a = 0 then c else b, skipBlanks t)
      | _ => none
    | t => return (a, t)

end

/-- The value of an expression; an empty one is zero. -/
def evaluate? (value : Text → Option Int) (t : Text) : Option Int :=
  if (skipBlanks t).isEmpty then some 0
  else
    match choice value (4 * t.length + 4) t with
    | some (a, []) => some a
    | _ => none

end Awk.Shell.Arithmetic
