import Awk.Number.Basic

/-!
# Random numbers

A sequence of numbers from zero up to one, determined by its seed: the Mersenne twister of 32-bit words with a period of
`2 ^ 19937 - 1`, sown with the words of the seed, two words for each number.  The words are computed when the first
number is drawn.
-/

namespace Awk

/-- A block of words and the place of the next one to give out. -/
structure Twister where
  words : Array UInt32
  next : Nat

namespace Twister

/-- The number of words in a block. -/
def size : Nat := 624

def word (words : Array UInt32) (i : Nat) : UInt32 := words.getD (i % size) 0

/-- The words `w, f 1 w, f 2 (f 1 w), …` -/
def unfoldFrom (f : Nat → UInt32 → UInt32) : Nat → Nat → UInt32 → Array UInt32 → Array UInt32
  | 0, _, _, words => words
  | fuel + 1, i, w, words => unfoldFrom f fuel (i + 1) (f i w) (words.push w)

/-- A block made from one word. -/
def ofWord (w : UInt32) : Array UInt32 :=
  unfoldFrom (fun i w => (1812433253 : UInt32) * (w ^^^ (w >>> 30)) + UInt32.ofNat i) size 1 w #[]

/-- Change the words from the second on, and around to the second again, each by its number and the word before. -/
def stir (f : Nat → Nat → UInt32 → UInt32 → UInt32) : (rounds step i : Nat) → Array UInt32 → Array UInt32
  | 0, _, _, words => words
  | rounds + 1, step, i, words =>
    let before := word words (i - 1)
    let words := words.modify i (f step i before)
    if i + 1 < size then stir f rounds (step + 1) (i + 1) words
    else stir f rounds (step + 1) 1 (words.modify 0 fun _ => word words i)

/-- Both terms of a stirring step. -/
def blend (factor before w : UInt32) : UInt32 := w ^^^ ((before ^^^ (before >>> 30)) * factor)

/-- The twister sown with some words. -/
def ofKey (key : List UInt32) : Twister :=
  let rounds := max size key.length
  let add (step _i : Nat) (before w : UInt32) : UInt32 :=
    let j := step % key.length
    blend 1664525 before w + key.getD j 0 + UInt32.ofNat j
  let subtract (_step i : Nat) (before w : UInt32) : UInt32 := blend 1566083941 before w - UInt32.ofNat i
  let words := stir add rounds 0 1 (ofWord 19650218)
  let words := stir subtract (size - 1) 0 (rounds % (size - 1) + 1) words
  ⟨words.modify 0 fun _ => 0x80000000, size⟩

/-- The next block, word by word in place of the old one. -/
def renewFrom : (rounds i : Nat) → Array UInt32 → Array UInt32
  | 0, _, words => words
  | rounds + 1, i, words =>
    let y := (word words i &&& 0x80000000) ||| (word words (i + 1) &&& 0x7fffffff)
    let new := word words (i + 397) ^^^ (y >>> 1) ^^^ (if y &&& 1 = 0 then 0 else 0x9908b0df)
    renewFrom rounds (i + 1) (words.modify i fun _ => new)

/-- Spread the bits of a word. -/
def temper (y : UInt32) : UInt32 :=
  let y := y ^^^ (y >>> 11)
  let y := y ^^^ ((y <<< 7) &&& 0x9d2c5680)
  let y := y ^^^ ((y <<< 15) &&& 0xefc60000)
  y ^^^ (y >>> 18)

def draw (t : Twister) : UInt32 × Twister :=
  let t := if t.next < size then t else ⟨renewFrom size 0 t.words, 0⟩
  (temper (word t.words t.next), { t with next := t.next + 1 })

end Twister

structure Random where
  /-- The seed that was set last. -/
  seed : Number
  twister : Option Twister

namespace Random

def ofSeed (seed : Number) : Random := ⟨seed, none⟩

/-- The prime by which seeds are reduced. -/
def modulus : Nat := Nat.pow 2 61 - 1

/-- The word that a seed stands for: the residue of its magnitude, negated for a negative seed, with `-2` in place of
`-1`.  A unit is the inverse of a power of two, and `2 ^ 61` is congruent to one. -/
def residue : Number → Int
  | .nan _ => 0
  | .infinite s => if s then -314159 else 314159
  | .finite s units =>
    let r : Int := units * Nat.pow 2 (61 - 1074 % 61) % modulus
    let r := if s then -r else r
    if r = -1 then -2 else r

/-- The words of a number below `2 ^ 64`, the low one first, without a high word that is zero. -/
def wordsOf (n : Nat) : List UInt32 :=
  if n < Nat.pow 2 32 then [UInt32.ofNat n]
  else [UInt32.ofNat (n % Nat.pow 2 32), UInt32.ofNat (n / Nat.pow 2 32)]

def sown (seed : Number) : Twister := .ofKey (wordsOf (residue seed % Nat.pow 2 64).toNat)

/-- The next number: 53 bits of two words, as a fraction of one. -/
def next (r : Random) : Number × Random :=
  let (high, t) := (r.twister.getD (sown r.seed)).draw
  let (low, t) := t.draw
  let bits := (high >>> 5).toNat * Nat.pow 2 26 + (low >>> 6).toNat
  (.finite false (bits * (Number.unitsPerOne / Nat.pow 2 53)), { r with twister := some t })

end Random

end Awk
