import Awk.Syntax.Parser.Stmt

/-!
# Whole programs

A program is a list of items: `BEGIN` and `END` actions, rules and function definitions.  The calls met on the way
are checked against the definitions when the whole text has been read (`checkCalls`).  `parseProgram` reads a program
text, `parseExpr` a single expression.
-/

namespace Awk

namespace Parser

/-- The action of a rule. -/
def action (fuel : Nat) (inSpecial : Bool) : Parser Stmt := block fuel ⟨false, false, inSpecial⟩

/-- Further parameters of a function, the names before them being given. -/
def moreParams (function : Text) : Nat → List Token → Parser (List Token)
  | 0, _ => do failAt .tooDeep (← current)
  | n + 1, seen => do
    skipNewlines
    let token ← expect .name "parameter name"
    if token.text = function then failAt (.parameterIsFunction function) token
    if seen.any fun other => other.text == token.text then failAt (.parameterRepeated function token.text) token
    let params := seen ++ [token]
    if ← accept .comma then moreParams function n params else return params

def functionItem (fuel : Nat) : Parser Item := do
  let start ← advance
  let nameToken ← current
  let _ ← if nameToken.kind = .name || nameToken.kind = .funcName then advance else failExpecting "function name"
  let name := nameToken.text
  if (← get).functions.any fun entry => entry.1 == name then failAt (.functionRedefined name) nameToken
  let _ ← expect .lpar "'('"
  let params ← if (← kind) = .rpar then pure [] else moreParams name fuel []
  let _ ← expect .rpar "')'"
  modify fun s => { s with functions := s.functions ++ [(name, params.length)] }
  skipNewlines
  let body ← block fuel ⟨false, true, false⟩
  return .function (← spanFrom start) nameToken params body

/-- An expression, or two with a comma between them. -/
def selector (fuel : Nat) : Parser Selector := do
  let start ← current
  let first ← expr fuel false
  if ← accept .comma then
    skipNewlines
    let last ← expr fuel false
    return .range (← spanFrom start) first last
  else
    return .single (← spanFrom start) first

def item (fuel : Nat) : Parser Item := do
  let start ← current
  match start.kind with
  | .begin =>
    let _ ← advance
    let body ← action fuel true
    return .begin (← spanFrom start) body
  | .end =>
    let _ ← advance
    let body ← action fuel true
    return .end (← spanFrom start) body
  | .function => functionItem fuel
  | .lbrace =>
    let body ← action fuel false
    return .rule (← spanFrom start) none (some body)
  | _ =>
    let chosen ← selector fuel
    if (← kind) = .lbrace then
      let body ← action fuel false
      return .rule (← spanFrom start) (some chosen) (some body)
    else
      if !(← atTerminator) then failExpecting "'\x7b' or newline"
      return .rule (← spanFrom start) (some chosen) none

/-- Items up to the end of the text. -/
def items : Nat → Parser (List Item)
  | 0 => do failAt .tooDeep (← current)
  | n + 1 => do
    skipTerminators
    if (← kind) = .eof then
      return []
    else
      let first ← item n
      return first :: (← items n)

/-- Every function called is defined and takes the number of arguments given. -/
def checkCalls : Parser Unit := do
  let s ← get
  for (call, given) in s.calls.reverse do
    match s.functions.lookup call.text with
    | none => failAt (.undefinedFunction call.text) call
    | some accepted => if accepted < given then failAt (.tooManyArguments call.text given accepted) call

def program (fuel : Nat) : Parser Program := do
  let start ← current
  let list ← items fuel
  checkCalls
  return ⟨← spanFrom start, list⟩

/-- An expression and nothing after it but newlines. -/
def soleExpr (fuel : Nat) : Parser Expr := do
  let e ← expr fuel false
  skipNewlines
  if (← kind) ≠ .eof then failExpecting "end of expression"
  checkCalls
  return e

end Parser

/-- Read a program text. -/
def parseProgram (source : Text) : Except SyntaxError Program := do
  let s ← Parser.start source
  let (program, _) ← (Parser.program (Parser.fuelFor source)).run s
  return program

/-- Read the text of an expression. -/
def parseExpr (source : Text) : Except SyntaxError Expr := do
  let s ← Parser.start source
  let (e, _) ← (Parser.soleExpr (Parser.fuelFor source)).run s
  return e

end Awk
