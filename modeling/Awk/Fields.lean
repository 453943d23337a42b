import Awk.Regex.Compile

/-!
# Fields

How a record is cut into fields by a separator (`splitFields`): a blank cuts at runs of blanks and newlines
(`blankRuns`), any other single character at that character, the empty separator between all characters, and
anything longer is a regular expression.  In paragraph mode a newline separates fields too, except that a blank
separates at newlines anyway.
-/

namespace Awk

/-- Blanks that separate fields by default. -/
def isFieldBlank (c : Char) : Bool := c == ' ' || c == '\t' || c == '\n'

/-- The pattern of a run of blanks, `[ \t\n]+`. -/
def Pattern.blanks : Pattern :=
  .seq (.repeat (.char (.set false [.range ' ' ' ', .range '\t' '\t', .range '\n' '\n'])) 1 none .greedy) .empty

/-- The text without the blanks around it, cut at runs of blanks. -/
def blankRuns (text : Text) : List Text := splitPattern (text.trim isFieldBlank) .blanks

/-- The regular expression that a separator stands for. -/
def separatorEre (separator : Text) (paragraph : Bool) : Text :=
  if paragraph then '(' :: separator ++ ")|\n".toList else separator

/-- The fields of a text under a separator. -/
def splitFields (text separator : Text) (paragraph : Bool) : Except Fault (List Text) :=
  if separator = [' '] then .ok (blankRuns text)
  else if text.isEmpty then .ok []
  else
    let byPattern := do .ok (splitPattern text (← compileEre (separatorEre separator paragraph)))
    match separator with
    | [] => .ok (text.map fun c => [c])
    | [c] =>
      if c = '\\' then byPattern
      else .ok (Text.splitOn (fun d => d == c || paragraph && d == '\n') text)
    | _ => byPattern

end Awk
