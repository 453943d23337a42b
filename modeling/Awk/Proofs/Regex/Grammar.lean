import Awk.Proofs.Regex.Language
import Awk.Regex.Compile

/-!
# The grammar of extended regular expressions

EREs as trees: what a tree is written as (`Regex.text`), which trees are well formed, so that they are read as they
are meant (`Regex.WellFormed`), and the words that they stand for (`Regex.language`).  The named classes are those of
the ASCII characters.
-/

namespace Awk.Ere

/-- A character, written as it is or behind a backslash. -/
structure Glyph where
  char : Char
  escaped : Bool

namespace Glyph

def text (g : Glyph) : Text := if g.escaped then ['\\', g.char] else [g.char]

/-- Outside bracket expressions special characters stand behind a backslash.  A letter or digit behind a backslash is
another escape. -/
def IsLiteral (g : Glyph) : Prop :=
  if g.escaped then g.char.isAlphanum = false else g.char ∉ "\\[*+?\x7b()|^$.".toList

/-- Inside a bracket expression a bare closing bracket is a member in first place only, and a bare opening bracket not
before a mark that begins a class. -/
def Fits (first : Bool) (g : Glyph) (t : Text) : Prop :=
  if g.escaped then g.char.isAlphanum = false
  else g.char ≠ '\\' ∧ (g.char = ']' → first = true) ∧ (g.char = '[' → ∀ mark ∈ t.head?, mark ∉ [':', '.', '='])

end Glyph

/-! ### Bracket expressions -/

inductive CharClass where
  | alpha
  | digit
  | alnum
  | upper
  | lower
  | space
  | blank
  | punct
  | print
  | graph
  | cntrl
  | xdigit

namespace CharClass

def name : CharClass → String
  | alpha => "alpha"
  | digit => "digit"
  | alnum => "alnum"
  | upper => "upper"
  | lower => "lower"
  | space => "space"
  | blank => "blank"
  | punct => "punct"
  | print => "print"
  | graph => "graph"
  | cntrl => "cntrl"
  | xdigit => "xdigit"

/-- Printed with ink. -/
def isGraph (c : Char) : Bool := '!' ≤ c && c ≤ '~'

def has : CharClass → Char → Bool
  | alpha, c => c.isAlpha
  | digit, c => c.isDigit
  | alnum, c => c.isAlphanum
  | upper, c => c.isUpper
  | lower, c => c.isLower
  | space, c => [' ', '\t', '\n', '\r', '\x0b', '\x0c'].contains c
  | blank, c => c == ' ' || c == '\t'
  | punct, c => isGraph c && !c.isAlphanum
  | print, c => c == ' ' || isGraph c
  | graph, c => isGraph c
  | cntrl, c => c < ' ' || c == '\x7f'
  | xdigit, c => c.isDigit || ('A' ≤ c && c ≤ 'F') || ('a' ≤ c && c ≤ 'f')

end CharClass

inductive Member where
  | char (g : Glyph)
  | range (lo hi : Glyph)
  | named (k : CharClass)

namespace Member

def text : Member → Text
  | char g => g.text
  | range lo hi => lo.text ++ '-' :: hi.text
  | named k => "[:".toList ++ k.name.toList ++ ":]".toList

def has : Member → Char → Bool
  | char g, c => c == g.char
  | range lo hi, c => lo.char ≤ c && c ≤ hi.char
  | named k, c => k.has c

def GlyphsFit (first : Bool) (m : Member) (t : Text) : Prop :=
  match m with
  | char g => g.Fits first t
  | range lo hi => lo.Fits first ['-'] ∧ hi.Fits false t
  | named _ => True

/-- The member can be followed by `t`, where the bracket expression goes on.  A bare hyphen is a member in first or in
last place only, and otherwise the end of a range. -/
def Fits (first : Bool) (m : Member) (t : Text) : Prop :=
  m.GlyphsFit first t ∧
    match m with
    | char g => g = ⟨'-', false⟩ → first = true ∨ t = [']']
    | range lo hi => (lo = ⟨'-', false⟩ → first = true) ∧ lo.char ≤ hi.char
    | named _ => True

end Member

structure Bracket where
  negated : Bool
  members : List Member

/-- The members and the closing bracket. -/
def membersText (members : List Member) : Text := members.flatMap Member.text ++ [']']

/-- There are members, and each fits before the others. -/
def MembersFit (first : Bool) : List Member → Prop
  | [] => first = false
  | m :: members => m.Fits first (membersText members) ∧ MembersFit false members

namespace Bracket

/-- The text behind the opening bracket. -/
def text (b : Bracket) : Text := (if b.negated then ['^'] else []) ++ membersText b.members

def has (b : Bracket) (c : Char) : Bool := b.members.any (·.has c) != b.negated

def WellFormed (b : Bracket) : Prop :=
  MembersFit true b.members ∧ (b.negated = false → (membersText b.members).head? ≠ some '^')

end Bracket

/-! ### Quantifiers -/

inductive Quantifier where
  | star
  | plus
  | optional
  | exactly (n : Nat)
  | atLeast (n : Nat)
  | between (least most : Nat)

namespace Quantifier

def text : Quantifier → Text
  | star => ['*']
  | plus => ['+']
  | optional => ['?']
  | exactly n => '\x7b' :: Text.ofNat n ++ ['\x7d']
  | atLeast n => '\x7b' :: Text.ofNat n ++ [',', '\x7d']
  | between least most => '\x7b' :: Text.ofNat least ++ ',' :: Text.ofNat most ++ ['\x7d']

def least : Quantifier → Nat
  | star => 0
  | plus => 1
  | optional => 0
  | exactly n => n
  | atLeast n => n
  | between least _ => least

def most : Quantifier → Option Nat
  | star => none
  | plus => none
  | optional => some 1
  | exactly n => some n
  | atLeast _ => none
  | between _ most => some most

/-- The bounds are in order, and less than `2 ^ 31`. -/
def WellFormed (q : Quantifier) : Prop :=
  q.least < Nat.pow 2 31 ∧ ∀ n ∈ q.most, q.least ≤ n ∧ n < Nat.pow 2 31

end Quantifier

/-! ### Whole expressions -/

inductive Regex where
  | empty
  | char (g : Glyph)
  | any
  | bracket (b : Bracket)
  | group (r : Regex)
  | atStart
  | atEnd
  | quantified (r : Regex) (q : Quantifier)
  | concat (r s : Regex)
  | alt (r s : Regex)

namespace Regex

def text : Regex → Text
  | empty => []
  | char g => g.text
  | any => ['.']
  | bracket b => '[' :: b.text
  | group r => '(' :: r.text ++ [')']
  | atStart => ['^']
  | atEnd => ['$']
  | quantified r q => r.text ++ q.text
  | concat r s => r.text ++ s.text
  | alt r s => r.text ++ '|' :: s.text

/-- What a quantifier may follow. -/
def IsAtom : Regex → Prop
  | char _ => True
  | any => True
  | bracket _ => True
  | group _ => True
  | _ => False

/-- No bar stands outside groups. -/
def IsBranch : Regex → Prop
  | alt _ _ => False
  | _ => True

def WellFormed : Regex → Prop
  | char g => g.IsLiteral
  | bracket b => b.WellFormed
  | group r => r.WellFormed
  | quantified r q => r.IsAtom ∧ r.WellFormed ∧ q.WellFormed
  | concat r s => (r.IsBranch ∧ r.WellFormed) ∧ s.IsBranch ∧ s.WellFormed
  | alt r s => r.WellFormed ∧ s.WellFormed
  | _ => True

/-- The words of an ERE.  The anchors take no text and say where it stands. -/
def language : Regex → Language
  | empty => .empty
  | char g => .one (· = g.char)
  | any => .one fun _ => True
  | bracket b => .one fun c => b.has c
  | group r => r.language
  | atStart => .atStart
  | atEnd => .atEnd
  | quantified r q => r.language.rounds q.least q.most
  | concat r s => r.language.concat s.language
  | alt r s => r.language.union s.language

end Regex

end Awk.Ere
