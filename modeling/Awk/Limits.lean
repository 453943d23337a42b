import Awk.Fault

/-!
# Limits

Sizes that nothing may exceed.  `checkSize` is asked before a text is filled up to a width, and `checkPlaces` before
fields are added up to a number, so that neither is begun when it cannot be finished.
-/

namespace Awk

/-- Every size is less than this. -/
def sizeLimit : Nat := Nat.pow 2 63

/-- A list has fewer places than this: each takes eight units of a size. -/
def placeLimit : Nat := Nat.pow 2 60

/-- A numeral that is read as a count has at most this many digits, leading zeros included. -/
def numeralLimit : Nat := 4300

/-- Refuses what is no size. -/
def checkSize (size : Nat) : Except Fault Unit := if sizeLimit ≤ size then .error .countTooLarge else .ok ()

/-- Refuses a number of places that no list has. -/
def checkPlaces (count : Nat) : Except Fault Unit := do
  checkSize count
  if placeLimit ≤ count then .error .noRoom else .ok ()

end Awk
