import Awk.Text

/-!
# Substitution

Replacing the matches in a text.  In a replacement `&` stands for the matched text, and a backslash takes the
special meaning from an `&` or a backslash (`expand`).  The matches are those that a search function finds one
after the other (`substitute`); one without text is passed over when it stands where the previous match ended, so
that each place of the text is replaced at most once.
-/

namespace Awk

/-- The replacement for one match. -/
def expand : Text → Text → Text
  | '\\' :: '&' :: t, matched => '&' :: expand t matched
  | '\\' :: '\\' :: t, matched => '\\' :: expand t matched
  | '&' :: t, matched => matched ++ expand t matched
  | c :: t, matched => c :: expand t matched
  | [], _ => []

/-- What a search finds from an offset on: start and end of a match. -/
abbrev Search := Nat → Option (Nat × Nat)

/-- The text from `offset` on with its matches replaced, and their number.  `last` is where the previous match ended.
Each round moves the offset forward, so that a fuel of the length of the text and two suffices. -/
def substituteFrom (search : Search) (replacement text : Text) (all : Bool) :
    Nat → Nat → Option Nat → Text × Nat
  | 0, offset, _ => (text.drop offset, 0)
  | fuel + 1, offset, last =>
    if text.length < offset then ([], 0)
    else
      match search offset with
      | none => (text.drop offset, 0)
      | some (start, stop) =>
        if start = stop && last = some start then
          if text.length ≤ start then (text.drop offset, 0)
          else
            let (rest, count) := substituteFrom search replacement text all fuel (start + 1) last
            (text.slice offset (start + 1) ++ rest, count)
        else
          let replaced := text.slice offset start ++ expand replacement (text.slice start stop)
          if !all then (replaced ++ text.drop stop, 1)
          else if start = stop then
            let (rest, count) := substituteFrom search replacement text all fuel (start + 1) (some stop)
            (replaced ++ text.slice start (start + 1) ++ rest, count + 1)
          else
            let (rest, count) := substituteFrom search replacement text all fuel stop (some stop)
            (replaced ++ rest, count + 1)

/-- Replace the first match, or all of them: the new text and the number of replacements. -/
def substitute (search : Search) (replacement text : Text) (all : Bool) : Text × Nat :=
  substituteFrom search replacement text all (text.length + 2) 0 none

end Awk
