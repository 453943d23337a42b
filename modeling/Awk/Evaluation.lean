import Awk.Run

/-!
# Evaluating single expressions

A calculator for expressions: each is read, its literals are folded, and it is evaluated among the globals, one after
the other on the same state.
-/

namespace Awk

/-- Why an expression has no value. -/
inductive EvaluationError where
  | grammar (e : SyntaxError)
  | failed (f : Failure)
  /-- A jump or the end of the fuel. -/
  | interrupted
  deriving DecidableEq, Repr

/-- Evaluate the expression that a text holds. -/
def evaluateText (fuel : Nat) (source : Text) (m : Machine) : Except EvaluationError Value × Machine :=
  match parseExpr source with
  | .error e => (.error (.grammar e), m)
  | .ok e =>
    match e.prune with
    | .error f => (.error (.failed ⟨f, none⟩), m)
    | .ok e =>
      match (Eval.expr fuel e).run m with
      | (.ok v, m) => (.ok v, m)
      | (.error (.failure f), m) => (.error (.failed f), m)
      | (.error _, m) => (.error .interrupted, m)

/-- The state before a sequence of evaluations: no environment, operands, and perhaps a record. -/
def Machine.forEvaluation (input : Text) (operands : List Text) (record : Option Text) : Machine :=
  let m := Machine.start (.start .empty [] input 0) [] [] (programName :: operands)
  match record with
  | none => m
  | some t => { m with record := ((Record.setText m.scalars t).run m.record).2 }

end Awk
