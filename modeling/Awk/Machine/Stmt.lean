import Awk.Machine.Expr

/-!
# Running statements

Expressions, calls, statements and loops refer to each other without end, so they are evaluated with a fuel that
bounds how deep they may nest; every round of a loop counts as one level.  Out of fuel is an interruption of its own
(`Interruption.exhausted`).
-/

namespace Awk.Eval

/-! ### Output -/

/-- What a print statement writes. -/
def printed (eval : Evaluate) (formatted : Bool) (items : List Expr) : Eval Text := do
  if formatted then
    let values ← valuesOf eval items
    let format ← convfmt
    ofExcept do sprintf format (← (values.headD .unset).toText format) values.tail
  else if items.isEmpty then return (← recordText) ++ (← setting "ORS")
  else
    let texts ← textsOf eval (← setting "OFMT") items
    let separator ← setting "OFS"
    return Text.join separator texts ++ (← setting "ORS")

def print (eval : Evaluate) (formatted : Bool) (items : List Expr) (redirect : Option Redirect) : Eval Unit := do
  let t ← printed eval formatted items
  match redirect with
  | none => onWorld (World.print t)
  | some r =>
    let name ← textOf (← eval r.target)
    onWorld (World.redirect r.op name t)

/-! ### Parts of statements -/

/-- Remove an element, or all elements. -/
def delete (eval : Evaluate) (name : Text) (subscripts : Option Subscripts) : Eval Unit := do
  let id ← arrayNamed name
  match subscripts with
  | none => setArray id .empty
  | some s =>
    let key ← subscriptKey eval s.items
    setArray id ((← array id).erase key)

/-- A status as the system keeps it. -/
def exitStatus (v : Value) : Nat := (v.toInt % 256).toNat

/-- One round of a loop; false if the loop ends with it. -/
def round (body : Eval Unit) : Eval Bool := do
  match ← catching body with
  | .ok () | .error .continue => return true
  | .error .break => return false
  | .error other => throw other

/-- Visit the keys that are still there when their turn comes. -/
def visit (body : Eval Unit) (element : Text) (id : Nat) : List Text → Eval Unit
  | [] => return ()
  | key :: keys => do
    if (← array id).contains key then
      let _ ← assignVariable element (.strnum key)
      if ← round body then visit body element id keys
    else visit body element id keys

/-- Run statements in order. -/
def sequence (run : Stmt → Eval Unit) : List Stmt → Eval Unit
  | [] => return ()
  | s :: rest => do
    run s
    sequence run rest

/-- A test that is not there holds. -/
def holdsOrAbsent (eval : Evaluate) : Option Expr → Eval Bool
  | none => return true
  | some e => holds eval e

mutual

/-- The value of an expression.  A failure gets the place of the innermost expression in which it arose. -/
def expr : Nat → Expr → Eval Value
  | 0, _ => throw .exhausted
  | fuel + 1, e => located e.span? (evalWith (expr fuel) (call fuel) fuel e)

/-- Call a function of the program. -/
def call : Nat → Token → List Expr → Eval Value
  | 0, _, _ => throw .exhausted
  | fuel + 1, function, args => callWith (expr fuel) (stmt fuel) function args

/-- Run a statement. -/
def stmt : Nat → Stmt → Eval Unit
  | 0, _ => throw .exhausted
  | fuel + 1, s => located (some s.span) do
    match s with
    | .block _ body => sequence (stmt fuel) body
    | .ifElse _ test yes no =>
      if ← holds (expr fuel) test then stmt fuel yes
      else
        match no with
        | none => return ()
        | some no => stmt fuel no
    | .while _ test body => loop fuel (some test) none body
    | .doWhile _ body test =>
      if ← round (stmt fuel body) then loop fuel (some test) none body
    | .for _ start test update body =>
      match start with
      | none => loop fuel test update body
      | some start =>
        stmt fuel start
        loop fuel test update body
    | .forIn _ element array body =>
      let id ← arrayNamed array.text
      visit (stmt fuel body) element.text id (← Eval.array id).keys
    | .empty _ => return ()
    | .print _ _ formatted items redirect => print (expr fuel) formatted items redirect
    | .delete _ array subscripts => delete (expr fuel) array.text subscripts
    | .break _ => throw .break
    | .continue _ => throw .continue
    | .next _ => throw .next
    | .nextFile _ => throw .nextFile
    | .exit _ none => throw (.exit none)
    | .exit _ (some code) => throw (.exit (some (exitStatus (← expr fuel code))))
    | .return _ none => throw (.return .unset)
    | .return _ (some value) => throw (.return (← expr fuel value))
    | .expr _ e =>
      let _ ← expr fuel e

/-- Rounds of a loop: while the test holds, the body and then the update. -/
def loop : Nat → Option Expr → Option Stmt → Stmt → Eval Unit
  | 0, _, _, _ => throw .exhausted
  | fuel + 1, test, update, body => do
    if ← holdsOrAbsent (expr fuel) test then
      if ← round (stmt fuel body) then
        match update with
        | none => loop fuel test update body
        | some step =>
          stmt fuel step
          loop fuel test update body

end

end Awk.Eval
