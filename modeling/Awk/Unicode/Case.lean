import Awk.Text
import Awk.Unicode.Basic
import Awk.Unicode.CaseTables

/-!
# Upper and lower case

Full case mapping of texts: one letter may become several (`ß` becomes `SS`), and a capital sigma that ends a word
becomes the final small sigma (`finalSigma`).
-/

namespace Awk.Unicode

namespace CaseRun

/-- The letter that the run gives for code point `n`, if the run holds `n`. -/
def image? (run : CaseRun) (n : Nat) : Option Char :=
  if run.first ≤ n && (n - run.first) % run.stride == 0 && (n - run.first) / run.stride < run.count then
    some (Char.ofNat (n + run.delta).toNat)
  else
    none

end CaseRun

/-- Letters that `c` becomes under the given runs and expansions. -/
def mapCase (runs : List CaseRun) (expansions : List (Nat × List Nat)) (c : Char) : Text :=
  match runs.findSome? (·.image? c.toNat) with
  | some d => [d]
  | none =>
    match expansions.lookup c.toNat with
    | some points => points.map Char.ofNat
    | none => [c]

def toUpper (t : Text) : Text := t.flatMap (mapCase upperRuns upperExpansions)

/-- The nearest character that is not passed over is a cased letter. -/
def besideCased : Text → Bool
  | [] => false
  | c :: t => if inRanges caseIgnorable c.toNat then besideCased t else inRanges cased c.toNat

/-- A sigma ends a word when a cased letter stands before it and none after it.  The first argument is what
stands before, read backwards. -/
def finalSigma (before after : Text) : Bool := besideCased before && !besideCased after

/-- Lower case of the second text, which follows the first, read backwards. -/
def toLowerAfter : Text → Text → Text
  | _, [] => []
  | before, c :: t =>
    let image :=
      if c == 'Σ' then (if finalSigma before t then ['ς'] else ['σ'])
      else mapCase lowerRuns lowerExpansions c
    image ++ toLowerAfter (c :: before) t

def toLower (t : Text) : Text := toLowerAfter [] t

end Awk.Unicode
