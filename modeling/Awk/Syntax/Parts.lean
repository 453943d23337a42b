import Awk.Syntax.Parser.Program
import Awk.Syntax.Prune

/-!
# Parts of a program

The items of a program sorted by what they are, each kind in the order of the text: what runs before the first
record, the rules, what runs after the last one, and the functions.  `loadProgram` takes a text all the way there.
-/

namespace Awk

/-- A rule that applies to records. -/
structure Rule where
  selector : Option Selector
  action : Option Stmt

structure Function where
  name : Text
  params : List Text
  body : Stmt

structure Parts where
  begins : List Stmt
  rules : List Rule
  ends : List Stmt
  functions : List Function

namespace Parts

/-- Some rule or `END` action asks for the main input. -/
def needsInput (p : Parts) : Bool := !p.rules.isEmpty || !p.ends.isEmpty

/-- Sort the items of a program. -/
def ofItems : List Item → Parts
  | [] => ⟨[], [], [], []⟩
  | item :: items =>
    let parts := ofItems items
    match item with
    | .begin _ body => { parts with begins := body :: parts.begins }
    | .end _ body => { parts with ends := body :: parts.ends }
    | .rule _ selector action => { parts with rules := ⟨selector, action⟩ :: parts.rules }
    | .function _ name params body =>
      { parts with functions := ⟨name.text, params.map Token.text, body⟩ :: parts.functions }

end Parts

/-- Why a program text cannot be run. -/
inductive LoadError where
  | grammar (e : SyntaxError)
  | folding (fault : Fault)
  deriving DecidableEq, Repr

/-- Read a program text, fold its literals and sort its items. -/
def loadProgram (source : Text) : Except LoadError Parts :=
  match parseProgram source with
  | .error e => .error (.grammar e)
  | .ok program =>
    match program.prune with
    | .error fault => .error (.folding fault)
    | .ok pruned => .ok (.ofItems pruned.items)

end Awk
