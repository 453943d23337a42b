import Awk.Machine.Stmt

/-!
# Running a program

First the `BEGIN` actions, then the rules on every record of the main input if there are any rules or `END` actions,
then the `END` actions; all streams are closed at the end, however it comes.  `exit` leads from anywhere before the
`END` actions to these, and from these to the end.
-/

namespace Awk

/-- How a program ends. -/
inductive Finish where
  | status (n : Nat)
  | failed (f : Failure)
  /-- The fuel did not suffice. -/
  | exhausted
  deriving DecidableEq, Repr

namespace Eval

/-- Run actions that belong to no record. -/
def runOutsideRecords (fuel : Nat) (rule : String) (actions : List Stmt) : Eval Unit := do
  match ← catching (sequence (stmt fuel) actions) with
  | .error .next | .error .nextFile => fail (.nextOutsideRecords rule)
  | .error other => throw other
  | .ok () => return ()

/-- The range rule of a number is, or is not, in a range. -/
def setActive (rule : Nat) (active : Bool) : Eval Unit :=
  modify fun m =>
    let others := m.activeRanges.filter (· != rule)
    { m with activeRanges := if active then rule :: others else others }

/-- A rule applies to the current record.  A record that begins a range may end it as well. -/
def applies (fuel : Nat) (rule : Nat) : Option Selector → Eval Bool
  | none => return true
  | some (.single _ test) => holds (expr fuel) test
  | some (.range _ first last) => do
    if !(← get).activeRanges.contains rule then
      if !(← holds (expr fuel) first) then return false
      setActive rule true
    if ← holds (expr fuel) last then setActive rule false
    return true

/-- Run the action of a rule, which without one prints the record. -/
def runAction (fuel : Nat) : Option Stmt → Eval Unit
  | some action => stmt fuel action
  | none => do
    let t := (← recordText) ++ (← setting "ORS")
    onWorld (World.print t)

/-- Run the rules that apply to the current record; `rule` is the number of the first of them. -/
def runRules (fuel rule : Nat) : List Rule → Eval Unit
  | [] => return ()
  | r :: rest => do
    if ← applies fuel rule r.selector then runAction fuel r.action
    runRules fuel (rule + 1) rest

/-- Run the rules on one record after the other. -/
def runRecords (rules : List Rule) : Nat → Eval Unit
  | 0 => throw .exhausted
  | fuel + 1 => do
    match ← nextRecord fuel with
    | none => return ()
    | some t =>
      onRecord fun vars => Record.setText vars t
      match ← catching (runRules fuel 0 rules) with
      | .ok () | .error .next => runRecords rules fuel
      | .error .nextFile =>
        skipFile
        runRecords rules fuel
      | .error other => throw other

/-- Note the code of an `exit`. -/
def catchingExit (act : Eval Unit) : Eval Unit := do
  match ← catching act with
  | .error (.exit code) => modify fun m => { m with exitCode := code <|> m.exitCode }
  | .error other => throw other
  | .ok () => return ()

/-- All actions of a program. -/
def runParts (fuel : Nat) (parts : Parts) : Eval Unit := do
  catchingExit do
    runOutsideRecords fuel "BEGIN" parts.begins
    if parts.needsInput then runRecords parts.rules fuel
  catchingExit (runOutsideRecords fuel "END" parts.ends)

end Eval

namespace Machine

/-- The status at the end: the code of the last `exit` with one, or else 2 if some operand could not be opened. -/
def status (m : Machine) : Nat := m.exitCode.getD (if m.inputFailed then 2 else 0)

/-- Close all streams. -/
def closeAll (m : Machine) : Machine := { m with world := (World.closeAll.run m.world).2 }

/-- Run a program to its end. -/
def runParts (m : Machine) (fuel : Nat) (parts : Parts) : Finish × Machine :=
  let (result, m) := (Eval.runParts fuel parts).run m
  let m := m.closeAll
  match result with
  | .error (.failure f) => (.failed f, m)
  | .error .exhausted => (.exhausted, m)
  | _ => (.status m.status, m)

end Machine

end Awk
