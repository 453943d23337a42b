import Awk.Regex.Ere
import Awk.Regex.Reading

/-!
# Compiling regular expressions

An ERE is compiled by writing it as pattern text and reading that.  `splitPattern` cuts a text at the matches that
take some text.
-/

namespace Awk

/-- The pattern of an ERE, or why there is none. -/
def compileEre (ere : Text) : Except Fault Pattern :=
  match Ere.patternText ere with
  | .error reason => .error (.badRegex ere reason)
  | .ok text =>
    match Pattern.read text with
    | .ok p => .ok p
    | .error .malformed => .error (.badRegex ere .malformed)
    | .error .countTooLarge => .error .countTooLarge

/-- The pieces of a text between the spans, which are in order and do not overlap.  `offset` is that of the text. -/
def cutSpans (offset : Nat) (text : Text) : List (Nat × Nat) → List Text
  | [] => [text]
  | (start, stop) :: spans =>
    text.take (start - offset) :: cutSpans stop (text.drop (stop - offset)) spans

/-- Cut a text at the matches that take some text; an empty text has no pieces. -/
def splitPattern (text : Text) (p : Pattern) : List Text :=
  if text.isEmpty then [] else cutSpans 0 text (p.findAllNonempty text)

end Awk
