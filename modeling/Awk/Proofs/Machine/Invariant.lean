import Awk.Proofs.Machine.Expr
import Awk.Proofs.Output.Events
import Awk.Proofs.Outcome
import Awk.Proofs.Syntax.Node
import Awk.Run

/-!
# Invariants of evaluations

A property of the state that outlasts each single change is kept by all evaluations, and these are interrupted in ways
that single steps allow (`Eval.Invariant.eval`).  Which statements and expressions a program has may restrict the
changes and the jumps: an invariant is for programs with only nodes of some kind.  If it outlasts what is done to read
the main input (`Eval.Feeding`), it is kept while the rules are run on all records (`Eval.Invariant.runRecords`).
-/

namespace Awk

namespace Node

/-- A node below another one, at any depth, or the same. -/
inductive Below (root : Node) : Node → Prop
  | refl : Below root root
  | child {node child : Node} (h : Below root node) (hchild : child ∈ node.children) : Below root child

/-- A node and all nodes below it. -/
def All (fine : Node → Prop) (root : Node) : Prop := ∀ node, root.Below node → fine node

variable {fine : Node → Prop} {root : Node}

theorem All.self (h : root.All fine) : fine root := h root .refl

theorem All.child (h : root.All fine) {n : Node} (hchild : n ∈ root.children) : n.All fine := by
  intro node hnode
  refine h node ?_
  induction hnode with
  | refl => exact .child .refl hchild
  | child _ hchild' ih => exact ih.child hchild'

theorem All.operand {e operand : Expr} (h : (Node.expr e).All fine) (hoperand : operand ∈ e.operands) :
    (Node.expr operand).All fine :=
  h.child (List.mem_map_of_mem hoperand)

theorem All.stmtOperand {s : Stmt} {e : Expr} (h : (Node.stmt s).All fine) (he : e ∈ s.operands) :
    (Node.expr e).All fine :=
  h.child (List.mem_append_left _ (List.mem_map_of_mem he))

theorem All.inner {s inner : Stmt} (h : (Node.stmt s).All fine) (hinner : inner ∈ s.inner) :
    (Node.stmt inner).All fine :=
  h.child (List.mem_append_right _ (List.mem_map_of_mem hinner))

/-- What is true of all nodes of a program is true of all nodes below one of them. -/
theorem all_of_contains {p : Parts} (h : ∀ node, p.Contains node → fine node) {node : Node} (hnode : p.Contains node) :
    node.All fine := by
  intro below hbelow
  refine h below ?_
  induction hbelow with
  | refl => exact hnode
  | child _ hchild ih => exact ih.child hchild

end Node

namespace Eval

variable {α : Type}

/-- The action keeps the invariant, and it gives a result or is interrupted as is allowed. -/
abbrev Stays (inv : Machine → Prop) (allowed : Interruption → Prop) (act : Eval α) : Prop :=
  Yields inv allowed (fun _ => True) act

namespace Stays

variable {inv : Machine → Prop} {allowed : Interruption → Prop}

theorem get : Stays inv allowed (MonadState.get : Eval Machine) := Yields.get.weaken

theorem slotOf (name : Text) : Stays inv allowed (slotOf name) := get.andThen fun _ => Yields.pure trivial

theorem array (id : Nat) : Stays inv allowed (array id) := get.andThen fun _ => Yields.pure trivial

theorem recordText : Stays inv allowed recordText := get.andThen fun _ => Yields.pure trivial

theorem counter (name : String) : Stays inv allowed (counter name) := get.andThen fun _ => Yields.pure trivial

theorem catching {act : Eval α} (hact : Stays inv allowed act) :
    Yields inv allowed (Outcome allowed fun _ => True) (Eval.catching act) :=
  fun m hm => hact m hm

theorem setActive (hranges : ∀ {m} ranges, inv m → inv { m with activeRanges := ranges }) (rule : Nat)
    (active : Bool) : Stays inv allowed (setActive rule active) :=
  Yields.modify fun _ hm => hranges _ hm

end Stays

/-- A property that outlasts assignments, and interruptions that include all failures. -/
structure Storing (allowed : Interruption → Prop) (inv : Machine → Prop) : Prop where
  store : ∀ {m} (s : Store), inv m → inv { m with store := s }
  record : ∀ {m} (r : Record), inv m → inv { m with record := r }
  failure : ∀ f, allowed (.failure f)

namespace Storing

variable {allowed : Interruption → Prop} {inv : Machine → Prop} (h : Storing allowed inv)

/-! ### Single steps -/

include h

theorem fail {f : Fault} : Stays inv allowed (Eval.fail f : Eval α) := Yields.throw (h.failure _)

theorem ofExcept {x : Except Fault α} : Stays inv allowed (Eval.ofExcept x) := by
  cases x with
  | ok a => exact Yields.pure trivial
  | error f => exact h.fail

theorem outcome {x : Except Fault α} :
    Outcome allowed (fun _ => True) (x.mapError fun f => Interruption.failure ⟨f, none⟩) := by
  cases x with
  | ok a => exact trivial
  | error f => exact h.failure _

theorem onRecord {act : Variables → Record.Action α} : Stays inv allowed (Eval.onRecord act) :=
  fun _ hm => ⟨h.record _ hm, h.outcome⟩

theorem located {act : Eval α} (span : Option Span) (hact : Stays inv allowed act) :
    Stays inv allowed (Eval.located span act) := by
  intro m hm
  obtain ⟨hm', hout⟩ := hact m hm
  unfold Eval.located
  rw [ExceptT.run_mk]
  split
  · rename_i fault m' hrun
    rw [hrun] at hm'
    exact ⟨hm', h.failure _⟩
  · exact ⟨hm', hout⟩

/-! ### Settings, variables and targets -/

theorem modifyStore (f : Machine → Store) :
    Stays inv allowed (modify fun m => { m with store := f m } : Eval PUnit) :=
  Yields.modify fun m hm => h.store (f m) hm

theorem convfmt : Stays inv allowed convfmt := Stays.get.andThen fun _ => h.ofExcept

theorem setting (name : String) : Stays inv allowed (setting name) := Stays.get.andThen fun _ => h.ofExcept

theorem setGlobal (name : String) (v : Value) : Stays inv allowed (setGlobal name v) := h.modifyStore _

theorem textOf (v : Value) : Stays inv allowed (textOf v) := h.convfmt.andThen fun _ => h.ofExcept

theorem readSlot (slot : Slot) : Stays inv allowed (readSlot slot) := by
  unfold Eval.readSlot
  split
  · exact h.onRecord.andThen fun _ => Yields.pure trivial
  · exact Stays.get.andThen fun _ => h.ofExcept

theorem assignSlot (slot : Slot) (v : Value) : Stays inv allowed (assignSlot slot v) := by
  refine Stays.get.andThen fun m => ?_
  refine h.ofExcept.andThen fun store => ?_
  split
  · exact h.ofExcept.andThen fun _ => h.onRecord.andThen fun _ => Yields.pure trivial
  · exact (h.modifyStore _).andThen fun _ => Yields.pure trivial

theorem readVariable (name : Text) : Stays inv allowed (readVariable name) := (Stays.slotOf name).andThen h.readSlot

theorem assignVariable (name : Text) (v : Value) : Stays inv allowed (assignVariable name v) :=
  (Stays.slotOf name).andThen fun slot => h.assignSlot slot v

theorem arrayNamed (name : Text) : Stays inv allowed (arrayNamed name) := by
  refine Stays.get.andThen fun m => ?_
  refine (Stays.slotOf name).andThen fun slot => ?_
  refine h.ofExcept.andThen fun (id, store) => ?_
  exact (h.modifyStore _).andThen fun _ => Yields.pure trivial

theorem setArray (id : Nat) (a : Assoc) : Stays inv allowed (setArray id a) := h.modifyStore _

theorem element (id : Nat) (key : Text) : Stays inv allowed (element id key) :=
  (Stays.array id).andThen fun _ => (h.setArray id _).andThen fun _ => Yields.pure trivial

theorem readTarget (target : Target) : Stays inv allowed (readTarget target) := by
  cases target with
  | var name => exact h.readVariable name
  | element id key => exact h.element id key
  | field index => exact h.onRecord

theorem assignTarget (target : Target) (v : Value) : Stays inv allowed (assignTarget target v) := by
  cases target with
  | var name => exact h.assignVariable name v
  | element id key => exact (Stays.array id).andThen fun _ => (h.setArray id _).andThen fun _ => Yields.pure trivial
  | field index => exact h.onRecord.andThen fun _ => Yields.pure trivial

theorem assignGlobal (name : Text) (v : Value) : Stays inv allowed (assignGlobal name v) :=
  (h.assignSlot _ v).andThen fun _ => Yields.pure trivial

theorem applyAssignment (t : Text) : Stays inv allowed (applyAssignment t) := by
  unfold Eval.applyAssignment
  split
  · exact Yields.pure trivial
  · exact (h.assignGlobal _ _).andThen fun _ => Yields.pure trivial

theorem applyOptions (fieldSep : Option Text) (assignments : List Text) :
    Stays inv allowed (applyOptions fieldSep assignments) := by
  have hrefused (t : Text) : Stays inv allowed (do return !(← Eval.applyAssignment t)) :=
    (h.applyAssignment t).andThen fun _ => Yields.pure trivial
  unfold Eval.applyOptions
  cases fieldSep with
  | none =>
    refine (Yields.findM? hrefused _).andThen fun found => ?_
    cases found <;> exact Yields.pure trivial
  | some t =>
    refine (h.assignGlobal _ _).andThen fun _ => (Yields.findM? hrefused _).andThen fun found => ?_
    cases found <;> exact Yields.pure trivial

theorem compiled (ere : Text) : Stays inv allowed (compiled ere) := h.ofExcept

end Storing

/-- Neither assignments nor the record have to do with the world. -/
theorem storing_world (w : World) : Storing (fun _ => True) (fun m => m.world = w) where
  store _ h := h
  record _ h := h
  failure _ := trivial

/-- A property that outlasts each single change of a run. -/
structure Outlasting (allowed : Interruption → Prop) (inv : Machine → Prop) : Prop extends Storing allowed inv where
  random : ∀ {m} (r : Random), inv m → inv { m with random := r }
  world : ∀ {m} (e : World.Event), ¬e.TakesInput → inv m → inv { m with world := e.perform m.world }
  exhausted : allowed .exhausted

/-- The property outlasts commands that share the standard input. -/
abbrev Sharing (inv : Machine → Prop) : Prop :=
  ∀ {m : Machine} (command : Text), inv m → inv { m with world := (World.Event.system command).perform m.world }

namespace Outlasting

variable {allowed : Interruption → Prop} {inv : Machine → Prop} (h : Outlasting allowed inv)

include h

theorem onWorld {act : World.Action α} (hact : ∀ m, inv m → inv { m with world := (act.run m.world).2 }) :
    Stays inv allowed (Eval.onWorld act) :=
  fun m hm => ⟨hact m hm, h.outcome⟩

theorem event {act : World.Action α} (e : World.Event) (he : ¬e.TakesInput)
    (hact : ∀ w, (act.run w).2 = e.perform w) : Stays inv allowed (Eval.onWorld act) := by
  refine h.onWorld fun m hm => ?_
  rw [hact]
  exact h.world e he hm

/-! ### Built-in functions and streams -/

theorem ofNonnegative (function : String) (f : Number → Number) (args : List Value) :
    Stays inv allowed (ofNonnegative function f args) := by
  unfold Eval.ofNonnegative
  dsimp only
  split
  · refine h.ofExcept.andThen fun _ => ?_
    exact h.fail.andThen fun _ => Yields.pure trivial
  · exact Yields.pure trivial

theorem sow (args : List Value) : Stays inv allowed (sow args) := by
  refine Yields.get.bind fun m hm => ?_
  exact (Yields.set (h.random _ hm)).andThen fun _ => Yields.pure trivial

theorem drawRandom : Stays inv allowed drawRandom := by
  refine Yields.get.bind fun m hm => ?_
  exact (Yields.set (h.random _ hm)).andThen fun _ => Yields.pure trivial

theorem applyBuiltin (b : Builtin) (args : List Value) (hsystem : b = .system → Sharing inv) :
    Stays inv allowed (applyBuiltin b args) := by
  have htext (i : Nat) : Stays inv allowed (argumentText args i) := h.textOf _
  cases b with
  | substr => exact (htext 0).andThen fun t => h.ofExcept.andThen fun _ => Yields.pure trivial
  | index => exact (htext 0).andThen fun _ => (htext 1).andThen fun _ => Yields.pure trivial
  | sprintf =>
    refine (htext 0).andThen fun format => ?_
    exact h.convfmt.andThen fun convfmt => h.ofExcept.andThen fun _ => Yields.pure trivial
  | tolower => exact (htext 0).andThen fun _ => Yields.pure trivial
  | toupper => exact (htext 0).andThen fun _ => Yields.pure trivial
  | sin => exact Yields.pure trivial
  | cos => exact Yields.pure trivial
  | exp => exact Yields.pure trivial
  | atan2 => exact Yields.pure trivial
  | log => exact h.ofNonnegative _ _ args
  | sqrt => exact h.ofNonnegative _ _ args
  | int => exact Yields.pure trivial
  | rand => exact h.drawRandom
  | srand => exact h.sow args
  | close =>
    refine (htext 0).andThen fun name => ?_
    exact (h.event (.close name) id fun _ => rfl).andThen fun _ => Yields.pure trivial
  | fflush =>
    cases args with
    | nil => exact (h.event .flushAll id fun _ => rfl).andThen fun _ => Yields.pure trivial
    | cons v args =>
      refine (h.textOf v).andThen fun name => ?_
      exact (h.event (.flush name) id fun _ => rfl).andThen fun _ => Yields.pure trivial
  | system =>
    refine (htext 0).andThen fun command => ?_
    exact (h.onWorld fun _ => hsystem rfl command).andThen fun _ => Yields.pure trivial
  | length => exact Yields.pure trivial
  | split => exact Yields.pure trivial
  | sub => exact Yields.pure trivial
  | gsub => exact Yields.pure trivial
  | «match» => exact Yields.pure trivial

theorem replaceIn (all : Bool) (format : Text) (p : Pattern) (new : Text) (target : Target) :
    Stays inv allowed (do
      let old ← Eval.ofExcept ((← Eval.readTarget target).toText format)
      let (result, count) := substitute (p.search old) new old all
      if count != 0 then
        let _ ← Eval.assignTarget target (.str result)
      return Value.ofNat count) := by
  refine (h.readTarget target).andThen fun v => ?_
  refine h.ofExcept.andThen fun old => ?_
  dsimp only
  split
  · exact (h.assignTarget _ _).andThen fun _ => Yields.pure trivial
  · exact Yields.pure trivial

theorem readStream {kind : World.InputKind} {name : Text} (hread : ∀ {m} separator, inv m →
      inv { m with world := (World.Event.readNamed kind name separator).perform m.world }) :
    Stays inv allowed (readStream kind name) := by
  refine (h.setting _).andThen fun separator => ?_
  have hobserved : Stays inv allowed (Eval.onWorld (observing (World.readNamed kind name separator))) := by
    refine h.onWorld fun m hm => ?_
    rw [Action.run_observing]
    exact hread separator hm
  refine hobserved.andThen fun outcome => ?_
  split
  · exact Yields.pure trivial
  · exact (h.event (.warn _) id fun _ => rfl).andThen fun _ => Yields.pure trivial
  · exact h.fail

end Outlasting

/-- A property that outlasts the reading of the main input as well. -/
structure Feeding (allowed : Interruption → Prop) (inv : Machine → Prop) : Prop extends Outlasting allowed inv where
  input : ∀ {m} (i : MainInput), inv m → inv { m with mainInput := i }
  missed : ∀ {m}, inv m → inv { m with inputFailed := true }
  fetched : ∀ {m} i separator, inv m → inv { m with world := (World.Event.readInput i separator).perform m.world }

namespace Feeding

variable {allowed : Interruption → Prop} {inv : Machine → Prop} (h : Feeding allowed inv)

include h

theorem modifyInput (f : MainInput → MainInput) : Stays inv allowed (modifyInput f) :=
  Yields.modify fun m hm => h.input (f m.mainInput) hm

theorem operand (index : Nat) : Stays inv allowed (operand index) := by
  refine Stays.get.andThen fun m => ?_
  split
  · split
    · exact (h.textOf _).andThen fun _ => Yields.pure trivial
    · exact Yields.pure trivial
  · exact Yields.pure trivial

theorem startFile (name : Text) (i : Input) : Stays inv allowed (startFile name i) := by
  refine (h.modifyInput _).andThen fun _ => ?_
  exact (h.setGlobal _ _).andThen fun _ => h.setGlobal _ _

theorem openOperand (t : Text) : Stays inv allowed (openOperand t) := by
  have hopen : Stays inv allowed (Eval.onWorld (observing (World.openFile t))) := by
    refine h.event (.openFile t) id fun w => ?_
    rw [Action.run_observing]
    rfl
  unfold Eval.openOperand
  split
  · exact Yields.pure trivial
  · refine (h.applyAssignment t).andThen fun applied => ?_
    split
    · exact Yields.pure trivial
    · refine (h.modifyInput _).andThen fun _ => ?_
      refine hopen.andThen fun opened => ?_
      split
      · exact (h.startFile t _).andThen fun _ => Yields.pure trivial
      · refine (h.event (.warnAlways _) id fun _ => rfl).andThen fun _ => ?_
        exact Yields.andThen (Yields.modify fun _ hm => h.missed hm) fun _ => Yields.pure trivial
      · exact h.fail

theorem openNext (fuel : Nat) : Stays inv allowed (openNext fuel) := by
  induction fuel with
  | zero => exact Yields.throw h.exhausted
  | succ fuel ih =>
    refine Stays.get.andThen fun m => ?_
    refine (Stays.counter _).andThen fun _ => ?_
    refine h.ofExcept.andThen fun count => ?_
    split
    · refine (h.operand _).andThen fun t => ?_
      refine (h.modifyInput _).andThen fun _ => ?_
      refine (h.openOperand _).andThen fun opened => ?_
      split
      · exact Yields.pure trivial
      · exact ih
    · refine Stays.get.andThen fun m => ?_
      split
      · exact Yields.pure trivial
      · refine (h.modifyInput _).andThen fun _ => ?_
        exact (h.startFile _ _).andThen fun _ => Yields.pure trivial

theorem nextRecord (fuel : Nat) : Stays inv allowed (nextRecord fuel) := by
  have hcount (name : String) : Stays inv allowed (countUp name) :=
    (Stays.counter name).andThen fun _ => h.setGlobal name _
  induction fuel with
  | zero => exact Yields.throw h.exhausted
  | succ fuel ih =>
    refine Stays.get.andThen fun m => ?_
    dsimp only
    split
    · exact Yields.pure trivial
    · split
      · refine (h.openNext fuel).andThen fun opened => ?_
        split
        · exact ih
        · exact (h.modifyInput _).andThen fun _ => Yields.pure trivial
      · rename_i i _
        refine (h.setting _).andThen fun separator => ?_
        have hread : Stays inv allowed (Eval.onWorld (World.readInput i separator)) :=
          h.onWorld fun m hm => h.fetched i separator hm
        refine hread.andThen fun (record, i) => ?_
        refine (h.modifyInput _).andThen fun _ => ?_
        refine h.ofExcept.andThen fun t => ?_
        cases t with
        | some t => exact (hcount _).andThen fun _ => (hcount _).andThen fun _ => Yields.pure trivial
        | none => exact (h.modifyInput _).andThen fun _ => ih

end Feeding

/-- A property that outlasts whatever a program with fine nodes only may do, and the interruptions that may come of such
nodes. -/
structure Invariant (functions : List Function) (fine : Node → Prop) (allowed : Interruption → Prop)
    (inv : Machine → Prop) : Prop extends Outlasting allowed inv where
  runs : ∀ {m}, inv m → m.functions = functions
  bodies : ∀ f ∈ functions, (Node.stmt f.body).All fine
  system : ∀ {span token args}, fine (.expr (.builtin span .system token args)) → Sharing inv
  main : ∀ {span target}, fine (.expr (.getline span target)) → ∀ fuel, Stays inv allowed (nextRecord fuel)
  file : ∀ {span target file}, fine (.expr (.getlineFile span target file)) → ∀ {m} name separator, inv m →
    inv { m with world := (World.Event.readNamed .file name separator).perform m.world }
  command : ∀ {span command target}, fine (.expr (.getlineCommand span command target)) → ∀ {m} name separator,
    inv m → inv { m with world := (World.Event.readNamed .command name separator).perform m.world }
  exit : ∀ {span code}, fine (.stmt (.exit span code)) → ∀ status, allowed (.exit status)
  nextFile : ∀ {span}, fine (.stmt (.nextFile span)) → allowed .nextFile
  next : allowed .next
  «break» : allowed .break
  «continue» : allowed .continue
  «return» : ∀ v, allowed (.return v)

namespace Invariant

variable {functions : List Function} {fine : Node → Prop} {allowed : Interruption → Prop} {inv : Machine → Prop}
variable (h : Invariant functions fine allowed inv)

include h

/-! ### Operands -/

omit h in
/-- Expressions with fine nodes only are evaluated within the invariant. -/
def Evaluates (fine : Node → Prop) (allowed : Interruption → Prop) (inv : Machine → Prop) (eval : Evaluate) : Prop :=
  ∀ {e : Expr}, (Node.expr e).All fine → Stays inv allowed (eval e)

omit h in
abbrev AllFine (fine : Node → Prop) (es : List Expr) : Prop := ∀ e ∈ es, (Node.expr e).All fine

variable {eval : Evaluate} (heval : Evaluates fine allowed inv eval)

include heval

omit h in
theorem valuesOf {es : List Expr} (hes : AllFine fine es) : Stays inv allowed (valuesOf eval es) := by
  induction es with
  | nil => exact Yields.pure trivial
  | cons e es ih =>
    obtain ⟨he, hes⟩ := List.forall_mem_cons.1 hes
    exact (heval he).andThen fun _ => (ih hes).andThen fun _ => Yields.pure trivial

theorem textsOf (format : Text) {es : List Expr} (hes : AllFine fine es) :
    Stays inv allowed (textsOf eval format es) := by
  induction es with
  | nil => exact Yields.pure trivial
  | cons e es ih =>
    obtain ⟨he, hes⟩ := List.forall_mem_cons.1 hes
    refine (heval he).andThen fun v => ?_
    exact h.ofExcept.andThen fun _ => (ih hes).andThen fun _ => Yields.pure trivial

theorem subscriptKey {subscripts : List Expr} (hes : AllFine fine subscripts) :
    Stays inv allowed (subscriptKey eval subscripts) := by
  refine h.convfmt.andThen fun format => ?_
  refine (h.textsOf heval format hes).andThen fun texts => ?_
  split
  · exact Yields.pure trivial
  · exact (h.setting _).andThen fun _ => Yields.pure trivial

theorem targetOf {target : LValue} (htarget : AllFine fine target.operands) :
    Stays inv allowed (targetOf eval target) := by
  cases target with
  | var name => exact Yields.pure trivial
  | index span array subscripts subscriptsAt =>
    refine (h.subscriptKey heval htarget).andThen fun _ => ?_
    exact (h.arrayNamed _).andThen fun _ => Yields.pure trivial
  | field span index => exact (heval (htarget index (List.mem_singleton_self _))).andThen fun _ => Yields.pure trivial

omit h in
theorem holds {e : Expr} (he : (Node.expr e).All fine) : Stays inv allowed (holds eval e) :=
  (heval he).andThen fun _ => Yields.pure trivial

theorem ereOf {e : Expr} (he : (Node.expr e).All fine) : Stays inv allowed (ereOf eval e) := by
  unfold Eval.ereOf
  split
  · exact Yields.pure trivial
  · exact (heval he).andThen h.textOf

theorem patternOf {e : Expr} (he : (Node.expr e).All fine) : Stays inv allowed (patternOf eval e) :=
  (h.ereOf heval he).andThen h.compiled

/-! ### Built-in functions -/

theorem length {args : List Expr} (hargs : AllFine fine args) : Stays inv allowed (length eval args) := by
  cases args with
  | nil => exact Stays.recordText.andThen fun _ => Yields.pure trivial
  | cons e es =>
    have htext : Stays inv allowed (do return Value.ofNat (← Eval.textOf (← eval e)).length) :=
      (heval (hargs e List.mem_cons_self)).andThen fun _ => (h.textOf _).andThen fun _ => Yields.pure trivial
    unfold Eval.length
    dsimp only
    split
    · refine (Stays.slotOf _).andThen fun slot => ?_
      refine Stays.get.andThen fun m => ?_
      split
      · exact (Stays.array _).andThen fun _ => Yields.pure trivial
      · exact Yields.pure trivial
      · exact htext
    · exact htext

theorem piecesOf (t : Text) {separator : Option Expr} (hseparator : ∀ e ∈ separator, (Node.expr e).All fine) :
    Stays inv allowed (piecesOf eval t separator) := by
  unfold Eval.piecesOf
  split
  · exact (h.compiled _).andThen fun _ => Yields.pure trivial
  · exact (heval (hseparator _ rfl)).andThen fun v => (h.textOf v).andThen fun _ => h.ofExcept
  · exact (h.setting _).andThen fun _ => h.ofExcept

theorem split {text array : Expr} {separator : Option Expr} (htext : (Node.expr text).All fine)
    (hseparator : ∀ e ∈ separator, (Node.expr e).All fine) :
    Stays inv allowed (split eval text array separator) := by
  refine (heval htext).andThen fun v => ?_
  refine (h.textOf v).andThen fun t => ?_
  split
  · refine (h.arrayNamed _).andThen fun id => ?_
    refine (h.piecesOf heval t hseparator).andThen fun pieces => ?_
    exact (h.setArray _ _).andThen fun _ => Yields.pure trivial
  · exact h.fail

theorem replace (all : Bool) {pattern replacement : Expr} {target : Option Expr}
    (hpattern : (Node.expr pattern).All fine) (hreplacement : (Node.expr replacement).All fine)
    (htarget : ∀ e ∈ target, (Node.expr e).All fine) :
    Stays inv allowed (replace eval all pattern replacement target) := by
  refine h.convfmt.andThen fun format => ?_
  refine (h.patternOf heval hpattern).andThen fun p => ?_
  refine (heval hreplacement).andThen fun v => ?_
  refine h.ofExcept.andThen fun new => ?_
  dsimp only
  split
  · exact h.replaceIn all format p new _
  · have hlvalue := htarget _ rfl
    exact (h.targetOf heval fun _ => hlvalue.operand).andThen fun target => h.replaceIn all format p new target
  · refine (heval (htarget _ rfl)).andThen fun v => ?_
    exact h.ofExcept.andThen fun _ => Yields.pure trivial

theorem findMatch {text pattern : Expr} (htext : (Node.expr text).All fine) (hpattern : (Node.expr pattern).All fine) :
    Stays inv allowed (findMatch eval text pattern) := by
  refine (heval htext).andThen fun v => ?_
  refine (h.textOf v).andThen fun t => ?_
  refine (h.patternOf heval hpattern).andThen fun p => ?_
  dsimp only
  refine (h.setGlobal _ _).andThen fun _ => ?_
  exact (h.setGlobal _ _).andThen fun _ => Yields.pure trivial

theorem callBuiltin (b : Builtin) {args : List Expr} (hargs : AllFine fine args) (hsystem : b = .system → Sharing inv) :
    Stays inv allowed (callBuiltin eval b args) := by
  have hhead {es : List Expr} (hes : AllFine fine es) : ∀ e ∈ es.head?, (Node.expr e).All fine :=
    fun e he => hes e (List.mem_of_head? he)
  unfold Eval.callBuiltin
  dsimp only
  split
  · exact Yields.stop (h.failure _)
  · split
    · exact h.length heval hargs
    · exact h.split heval (hargs _ (by simp)) (hhead fun e he => hargs e (by simp [he]))
    · exact h.replace heval false (hargs _ (by simp)) (hargs _ (by simp)) (hhead fun e he => hargs e (by simp [he]))
    · exact h.replace heval true (hargs _ (by simp)) (hargs _ (by simp)) (hhead fun e he => hargs e (by simp [he]))
    · exact h.findMatch heval (hargs _ (by simp)) (hargs _ (by simp))
    · exact (valuesOf heval hargs).andThen fun values => h.applyBuiltin _ values hsystem

/-! ### Reading records -/

theorem keepRecord {target : Option LValue} (htarget : ∀ l ∈ target, AllFine fine l.operands) (t : Text) :
    Stays inv allowed (keepRecord eval target t) := by
  cases target with
  | none => exact h.onRecord
  | some target =>
    refine (h.targetOf heval (htarget target rfl)).andThen fun target => ?_
    exact (h.assignTarget target _).andThen fun _ => Yields.pure trivial

omit h heval in
/-- The nodes of which a target is made are below the node. -/
theorem fine_target {e : Expr} (he : (Node.expr e).All fine) {target : Option LValue}
    (htarget : ∀ l ∈ target, Expr.lvalue l ∈ e.operands) : ∀ l ∈ target, AllFine fine l.operands :=
  fun l hl _ ho => (he.operand (htarget l hl)).operand ho

theorem getline {span : Span} {target : Option LValue} (he : (Node.expr (.getline span target)).All fine) (fuel : Nat) :
    Stays inv allowed (getline eval fuel target) := by
  refine (h.main he.self fuel).andThen fun record => ?_
  cases record with
  | none => exact Yields.pure trivial
  | some t =>
    have htarget : ∀ l ∈ target, AllFine fine l.operands :=
      fine_target he fun l hl => by simp [Expr.operands, Option.mem_def.1 hl]
    exact (h.keepRecord heval htarget t).andThen fun _ => Yields.pure trivial

theorem getlineFile {span : Span} {target : Option LValue} {file : Expr}
    (he : (Node.expr (.getlineFile span target file)).All fine) : Stays inv allowed (getlineFile eval target file) := by
  refine (heval (he.operand List.mem_cons_self)).andThen fun v => ?_
  refine (h.textOf v).andThen fun name => ?_
  refine (h.readStream fun separator hm => h.file he.self name separator hm).andThen fun record => ?_
  split
  · exact Yields.pure trivial
  · exact Yields.pure trivial
  · have htarget : ∀ l ∈ target, AllFine fine l.operands :=
      fine_target he fun l hl => by simp [Expr.operands, Option.mem_def.1 hl]
    exact (h.keepRecord heval htarget _).andThen fun _ => Yields.pure trivial

theorem readCommand {span : Span} {command : Expr} {target : Option LValue}
    (he : (Node.expr (.getlineCommand span command target)).All fine) (name : Text) :
    Stays inv allowed (readCommand eval name target) := by
  have hcount : Stays inv allowed (countUp "NR") := Stays.get.andThen fun _ => h.setGlobal _ _
  refine (h.readStream fun separator hm => h.command he.self name separator hm).andThen fun record => ?_
  split
  · exact Yields.pure trivial
  · exact Yields.pure trivial
  · have htarget : ∀ l ∈ target, AllFine fine l.operands :=
      fine_target he fun l hl => by simp [Expr.operands, Option.mem_def.1 hl]
    exact hcount.andThen fun _ => (h.keepRecord heval htarget _).andThen fun _ => Yields.pure trivial

theorem getlineCommand (span : Span) {command : Expr} {target : Option LValue}
    (he : (Node.expr (.getlineCommand span command target)).All fine) :
    Stays inv allowed (getlineCommand eval command target) := by
  fun_induction Eval.getlineCommand eval command target generalizing span with
  | case1 inner command first target ih =>
    have hinner : (Node.expr (.getlineCommand inner command first)).All fine := he.operand List.mem_cons_self
    refine (ih inner hinner).andThen fun named => ?_
    exact (h.readCommand heval he named.1).andThen fun _ => Yields.pure trivial
  | case2 command target =>
    refine (heval (he.operand List.mem_cons_self)).andThen fun v => ?_
    refine (h.textOf v).andThen fun name => ?_
    exact (h.readCommand heval he name).andThen fun _ => Yields.pure trivial

/-! ### Operators -/

theorem assign {target : LValue} (op : AssignOp) {right : Expr} (htarget : AllFine fine target.operands)
    (hright : (Node.expr right).All fine) : Stays inv allowed (assign eval target op right) := by
  refine (h.targetOf heval htarget).andThen fun target => ?_
  refine (heval hright).andThen fun v => ?_
  cases op with
  | set => exact h.assignTarget target v
  | update op =>
    refine (h.readTarget target).andThen fun old => ?_
    exact h.ofExcept.andThen fun new => h.assignTarget target new

theorem stepTarget (op : StepOp) {target : LValue} (htarget : AllFine fine target.operands) :
    Stays inv allowed (stepTarget eval op target) := by
  refine (h.targetOf heval htarget).andThen fun target => ?_
  refine (h.readTarget target).andThen fun old => ?_
  exact (h.assignTarget target _).andThen fun _ => Yields.pure trivial

omit h in
theorem logical (op : LogicalOp) {left right : Expr} (hleft : (Node.expr left).All fine)
    (hright : (Node.expr right).All fine) : Stays inv allowed (logical eval op left right) := by
  refine (holds heval hleft).andThen fun l => ?_
  split
  · exact Yields.pure trivial
  · exact Yields.pure trivial
  · exact (holds heval hright).andThen fun _ => Yields.pure trivial

theorem evalWith {call : Call} (hcall : ∀ {function args}, AllFine fine args → Stays inv allowed (call function args))
    (fuel : Nat) {e : Expr} (he : (Node.expr e).All fine) : Stays inv allowed (evalWith eval call fuel e) := by
  cases e with
  | literal v => exact Yields.pure trivial
  | number token => exact h.ofExcept
  | string token => exact Yields.pure trivial
  | group span inner => exact heval (he.operand (List.mem_singleton_self _))
  | regex token => exact (h.compiled _).andThen fun _ => Stays.recordText.andThen fun _ => Yields.pure trivial
  | lvalue target => exact (h.targetOf heval fun _ => he.operand).andThen h.readTarget
  | assign span target op token right =>
    have htarget : (Node.expr (.lvalue target)).All fine := he.operand List.mem_cons_self
    exact h.assign heval op (fun _ => htarget.operand) (he.operand (by simp [Expr.operands]))
  | conditional span test yes no =>
    refine (holds heval (he.operand List.mem_cons_self)).andThen fun b => ?_
    split
    · exact heval (he.operand (by simp [Expr.operands]))
    · exact heval (he.operand (by simp [Expr.operands]))
  | logical span op left right =>
    exact logical heval op (he.operand List.mem_cons_self) (he.operand (by simp [Expr.operands]))
  | member span subscripts subscriptsAt array =>
    refine (h.subscriptKey heval fun _ => he.operand).andThen fun key => ?_
    exact (h.arrayNamed _).andThen fun id => (Stays.array id).andThen fun _ => Yields.pure trivial
  | matching span left negated token right =>
    refine (heval (he.operand List.mem_cons_self)).andThen fun v => ?_
    refine (h.textOf v).andThen fun t => ?_
    exact (h.patternOf heval (he.operand (by simp [Expr.operands]))).andThen fun _ => Yields.pure trivial
  | compare span left op token right =>
    refine (heval (he.operand List.mem_cons_self)).andThen fun l => ?_
    refine (heval (he.operand (by simp [Expr.operands]))).andThen fun r => ?_
    exact h.convfmt.andThen fun format => h.ofExcept.andThen fun _ => Yields.pure trivial
  | concat span parts =>
    exact h.convfmt.andThen fun format =>
      (h.textsOf heval format fun _ => he.operand).andThen fun _ => Yields.pure trivial
  | arith span left op token right =>
    refine (heval (he.operand List.mem_cons_self)).andThen fun l => ?_
    exact (heval (he.operand (by simp [Expr.operands]))).andThen fun r => h.ofExcept
  | sign span op token operand => exact (heval (he.operand List.mem_cons_self)).andThen fun _ => Yields.pure trivial
  | power span base exponent =>
    refine (heval (he.operand List.mem_cons_self)).andThen fun _ => ?_
    exact (heval (he.operand (by simp [Expr.operands]))).andThen fun _ => Yields.pure trivial
  | preStep span op token target =>
    have htarget : (Node.expr (.lvalue target)).All fine := he.operand List.mem_cons_self
    exact (h.stepTarget heval op fun _ => htarget.operand).andThen fun _ => Yields.pure trivial
  | postStep span target op token =>
    have htarget : (Node.expr (.lvalue target)).All fine := he.operand List.mem_cons_self
    exact (h.stepTarget heval op fun _ => htarget.operand).andThen fun _ => Yields.pure trivial
  | call span function args => exact hcall fun _ => he.operand
  | builtin span b token args =>
    refine h.callBuiltin heval b (fun _ => he.operand) fun hb => ?_
    subst hb
    exact h.system he.self
  | getline span target => exact h.getline heval he fuel
  | getlineFile span target file => exact h.getlineFile heval he
  | getlineCommand span command target =>
    exact (h.getlineCommand heval span he).andThen fun _ => Yields.pure trivial

/-! ### Calls -/

omit h in
theorem bindArgument {arg : Expr} (harg : (Node.expr arg).All fine) : Stays inv allowed (bindArgument eval arg) := by
  have hvalue : Stays inv allowed (do return Binding.scalar (← eval arg)) :=
    (heval harg).andThen fun _ => Yields.pure trivial
  unfold Eval.bindArgument
  dsimp only
  split
  · refine (Stays.slotOf _).andThen fun slot => ?_
    refine Stays.get.andThen fun m => ?_
    split
    · exact Yields.pure trivial
    · exact Yields.pure trivial
    · exact hvalue
    · split
      · exact hvalue
      · exact Yields.pure trivial
  · exact hvalue

omit h in
theorem bindArguments (params : List Text) {args : List Expr} (hargs : AllFine fine args) :
    Stays inv allowed (bindArguments eval params args) := by
  induction params generalizing args with
  | nil => exact Yields.pure trivial
  | cons param params ih =>
    cases args with
    | nil => exact (ih hargs).andThen fun _ => Yields.pure trivial
    | cons arg args =>
      obtain ⟨harg, hargs⟩ := List.forall_mem_cons.1 hargs
      exact (bindArgument heval harg).andThen fun _ => (ih hargs).andThen fun _ => Yields.pure trivial

theorem callWith {run : Stmt → Eval Unit} (hrun : ∀ {s}, (Node.stmt s).All fine → Stays inv allowed (run s))
    (function : Token) {args : List Expr} (hargs : AllFine fine args) :
    Stays inv allowed (callWith eval run function args) := by
  refine Yields.get.bind fun m hm => ?_
  split
  · exact h.fail
  · rename_i f hfound
    -- The function that is called is one of those of the program, whose nodes are fine.
    have hbody : (Node.stmt f.body).All fine := h.bodies f (h.runs hm ▸ List.mem_of_find?_eq_some hfound)
    dsimp only
    split
    · exact Yields.stop (h.failure _)
    · refine (bindArguments heval f.params hargs).andThen fun table => ?_
      refine (h.modifyStore fun m => m.store.push table).andThen fun _ => ?_
      refine (Stays.catching (hrun hbody)).bind fun result hresult => ?_
      refine (h.modifyStore fun m => m.store.pop).andThen fun _ => ?_
      split
      · exact Yields.pure trivial
      · exact Yields.pure trivial
      · exact Yields.throw hresult

/-! ### Statements -/

theorem printed (formatted : Bool) {items : List Expr} (hitems : AllFine fine items) :
    Stays inv allowed (printed eval formatted items) := by
  unfold Eval.printed
  split
  · exact (valuesOf heval hitems).andThen fun values => h.convfmt.andThen fun format => h.ofExcept
  · split
    · exact Stays.recordText.andThen fun _ => (h.setting _).andThen fun _ => Yields.pure trivial
    · refine (h.setting _).andThen fun format => ?_
      refine (h.textsOf heval format hitems).andThen fun texts => ?_
      exact (h.setting _).andThen fun _ => (h.setting _).andThen fun _ => Yields.pure trivial

theorem print (formatted : Bool) {items : List Expr} {redirect : Option Redirect} (hitems : AllFine fine items)
    (hredirect : ∀ r ∈ redirect, (Node.expr r.target).All fine) :
    Stays inv allowed (print eval formatted items redirect) := by
  refine (h.printed heval formatted hitems).andThen fun t => ?_
  cases redirect with
  | none => exact h.event (.print t) id fun _ => rfl
  | some r =>
    refine (heval (hredirect r rfl)).andThen fun v => ?_
    exact (h.textOf v).andThen fun name => h.event (.redirect r.op name t) id fun _ => rfl

theorem delete (name : Text) {subscripts : Option Subscripts} (hsubscripts : ∀ s ∈ subscripts, AllFine fine s.items) :
    Stays inv allowed (delete eval name subscripts) := by
  refine (h.arrayNamed name).andThen fun id => ?_
  cases subscripts with
  | none => exact h.setArray id _
  | some s =>
    refine (h.subscriptKey heval (hsubscripts s rfl)).andThen fun key => ?_
    exact (Stays.array id).andThen fun _ => h.setArray id _

omit h heval in
theorem round {body : Eval Unit} (hbody : Stays inv allowed body) : Stays inv allowed (round body) := by
  refine (Stays.catching hbody).bind fun outcome houtcome => ?_
  split
  · exact Yields.pure trivial
  · exact Yields.pure trivial
  · exact Yields.pure trivial
  · exact Yields.throw houtcome

omit heval in
theorem visit {body : Eval Unit} (hbody : Stays inv allowed body) (element : Text) (id : Nat) (keys : List Text) :
    Stays inv allowed (visit body element id keys) := by
  induction keys with
  | nil => exact Yields.pure trivial
  | cons key keys ih =>
    refine (Stays.array id).andThen fun a => ?_
    split
    · refine (h.assignVariable element _).andThen fun _ => ?_
      refine (round hbody).andThen fun again => ?_
      split
      · exact ih
      · exact Yields.pure trivial
    · exact ih

omit h heval in
theorem sequence {run : Stmt → Eval Unit} {body : List Stmt} (hrun : ∀ s ∈ body, Stays inv allowed (run s)) :
    Stays inv allowed (sequence run body) := by
  induction body with
  | nil => exact Yields.pure trivial
  | cons s body ih =>
    obtain ⟨hs, hbody⟩ := List.forall_mem_cons.1 hrun
    exact hs.andThen fun _ => ih hbody

omit h in
theorem holdsOrAbsent {test : Option Expr} (htest : ∀ e ∈ test, (Node.expr e).All fine) :
    Stays inv allowed (holdsOrAbsent eval test) := by
  cases test with
  | none => exact Yields.pure trivial
  | some e => exact holds heval (htest e rfl)

end Invariant

/-! ### Everything at once -/

/-- What stays within an invariant with a fuel. -/
structure StaysEval (fine : Node → Prop) (allowed : Interruption → Prop) (inv : Machine → Prop) (fuel : Nat) : Prop where
  expr : ∀ {e}, (Node.expr e).All fine → Stays inv allowed (expr fuel e)
  call : ∀ {function args}, Invariant.AllFine fine args → Stays inv allowed (call fuel function args)
  stmt : ∀ {s}, (Node.stmt s).All fine → Stays inv allowed (stmt fuel s)
  loop : ∀ {test update body}, (∀ e ∈ test, (Node.expr e).All fine) → (∀ s ∈ update, (Node.stmt s).All fine) →
    (Node.stmt body).All fine → Stays inv allowed (loop fuel test update body)

namespace Invariant

variable {functions : List Function} {fine : Node → Prop} {allowed : Interruption → Prop} {inv : Machine → Prop}
variable {fuel : Nat}

theorem stmt (h : Invariant functions fine allowed inv) (ih : StaysEval fine allowed inv fuel) {s : Stmt}
    (hs : (Node.stmt s).All fine) : Stays inv allowed (stmt (fuel + 1) s) := by
  refine h.located _ ?_
  cases s with
  | block span body => exact sequence fun s hmem => ih.stmt (hs.inner hmem)
  | ifElse span test yes no =>
    refine (holds ih.expr (hs.stmtOperand List.mem_cons_self)).andThen fun b => ?_
    split
    · exact ih.stmt (hs.inner List.mem_cons_self)
    · cases no with
      | none => exact Yields.pure trivial
      | some no => exact ih.stmt (hs.inner (by simp [Stmt.inner]))
  | «while» span test body =>
    exact ih.loop (fun e he => hs.stmtOperand (by simp [Stmt.operands, Option.mem_some.1 he])) nofun
      (hs.inner List.mem_cons_self)
  | doWhile span body test =>
    refine (round (ih.stmt (hs.inner List.mem_cons_self))).andThen fun again => ?_
    split
    · exact ih.loop (fun e he => hs.stmtOperand (by simp [Stmt.operands, Option.mem_some.1 he])) nofun
        (hs.inner List.mem_cons_self)
    · exact Yields.pure trivial
  | «for» span first test update body =>
    have hloop : Stays inv allowed (loop fuel test update body) :=
      ih.loop (fun e he => hs.stmtOperand (by simpa [Stmt.operands] using he))
        (fun s hmem => hs.inner (by simp [Stmt.inner, Option.mem_def.1 hmem])) (hs.inner List.mem_cons_self)
    cases first with
    | none => exact hloop
    | some first => exact (ih.stmt (hs.inner (by simp [Stmt.inner]))).andThen fun _ => hloop
  | forIn span element array body =>
    refine (h.arrayNamed _).andThen fun id => ?_
    exact (Stays.array id).andThen fun _ => h.visit (ih.stmt (hs.inner List.mem_cons_self)) _ _ _
  | empty span => exact Yields.pure trivial
  | print span token formatted items redirect =>
    refine h.print ih.expr formatted (fun e he => hs.stmtOperand (List.mem_append_left _ he)) fun r hr => ?_
    exact hs.stmtOperand (by simp [Stmt.operands, Option.mem_def.1 hr])
  | delete span array subscripts =>
    exact h.delete ih.expr _ fun s hs' e he => hs.stmtOperand (by simpa [Stmt.operands, Option.mem_def.1 hs'] using he)
  | «break» span => exact Yields.throw h.break
  | «continue» span => exact Yields.throw h.continue
  | next span => exact Yields.throw h.next
  | nextFile span => exact Yields.throw (h.nextFile hs.self)
  | exit span code =>
    cases code with
    | none => exact Yields.throw (h.exit hs.self _)
    | some code =>
      exact (ih.expr (hs.stmtOperand List.mem_cons_self)).andThen fun _ => Yields.throw (h.exit hs.self _)
  | «return» span value =>
    cases value with
    | none => exact Yields.throw (h.return _)
    | some value => exact (ih.expr (hs.stmtOperand List.mem_cons_self)).andThen fun v => Yields.throw (h.return v)
  | expr span e => exact (ih.expr (hs.stmtOperand List.mem_cons_self)).andThen fun _ => Yields.pure trivial

theorem loop (ih : StaysEval fine allowed inv fuel) {test : Option Expr} {update : Option Stmt} {body : Stmt}
    (htest : ∀ e ∈ test, (Node.expr e).All fine) (hupdate : ∀ s ∈ update, (Node.stmt s).All fine)
    (hbody : (Node.stmt body).All fine) : Stays inv allowed (loop (fuel + 1) test update body) := by
  refine (holdsOrAbsent ih.expr htest).andThen fun b => ?_
  split
  · refine (round (ih.stmt hbody)).andThen fun again => ?_
    split
    · cases update with
      | none => exact ih.loop htest hupdate hbody
      | some step => exact (ih.stmt (hupdate step rfl)).andThen fun _ => ih.loop htest hupdate hbody
    · exact Yields.pure trivial
  · exact Yields.pure trivial

/-- Evaluations keep an invariant. -/
theorem eval (h : Invariant functions fine allowed inv) (fuel : Nat) : StaysEval fine allowed inv fuel := by
  -- All four together, for each hands less fuel to the others.
  induction fuel with
  | zero =>
    exact {
      expr := fun _ => Yields.throw h.exhausted
      call := fun _ => Yields.throw h.exhausted
      stmt := fun _ => Yields.throw h.exhausted
      loop := fun _ _ _ => Yields.throw h.exhausted }
  | succ fuel ih =>
    exact {
      expr := fun he => h.located _ (h.evalWith ih.expr ih.call fuel he)
      call := fun {function _} hargs => h.callWith ih.expr ih.stmt function hargs
      stmt := h.stmt ih
      loop := loop ih }

/-! ### Rules -/

section Rules

variable (h : Invariant functions fine allowed inv)
variable (hranges : ∀ {m} ranges, inv m → inv { m with activeRanges := ranges })

include h hranges

theorem applies (fuel rule : Nat) {selector : Option Selector}
    (hselector : ∀ s ∈ selector, AllFine fine s.operands) : Stays inv allowed (applies fuel rule selector) := by
  have hholds {e : Expr} (he : (Node.expr e).All fine) : Stays inv allowed (Eval.holds (Eval.expr fuel) e) :=
    holds (h.eval fuel).expr he
  cases selector with
  | none => exact Yields.pure trivial
  | some s =>
    have hoperands := hselector s rfl
    cases s with
    | single span test => exact hholds (hoperands test List.mem_cons_self)
    | range span first last =>
      have hend : Stays inv allowed (do
          if ← Eval.holds (Eval.expr fuel) last then Eval.setActive rule false
          return true) := by
        refine (hholds (hoperands last (by simp [Selector.operands]))).andThen fun b => ?_
        split
        · exact (Stays.setActive hranges rule false).andThen fun _ => Yields.pure trivial
        · exact Yields.pure trivial
      refine Stays.get.andThen fun m => ?_
      dsimp only
      split
      · refine (hholds (hoperands first List.mem_cons_self)).andThen fun b => ?_
        split
        · exact Yields.pure trivial
        · exact (Stays.setActive hranges rule true).andThen fun _ => hend
      · exact hend

omit hranges in
theorem runAction (fuel : Nat) {action : Option Stmt} (haction : ∀ s ∈ action, (Node.stmt s).All fine) :
    Stays inv allowed (runAction fuel action) := by
  cases action with
  | none =>
    refine Stays.recordText.andThen fun _ => (h.setting _).andThen fun _ => ?_
    exact h.event (.print _) id fun _ => rfl
  | some s => exact (h.eval fuel).stmt (haction s rfl)

theorem runRules (fuel rule : Nat) {rules : List Rule}
    (hselectors : ∀ r ∈ rules, ∀ s ∈ r.selector, AllFine fine s.operands)
    (hactions : ∀ r ∈ rules, ∀ s ∈ r.action, (Node.stmt s).All fine) :
    Stays inv allowed (runRules fuel rule rules) := by
  induction rules generalizing rule with
  | nil => exact Yields.pure trivial
  | cons r rules ih =>
    obtain ⟨hselector, hselectors⟩ := List.forall_mem_cons.1 hselectors
    obtain ⟨haction, hactions⟩ := List.forall_mem_cons.1 hactions
    refine (h.applies hranges fuel rule hselector).andThen fun b => ?_
    split
    · exact (h.runAction fuel haction).andThen fun _ => ih _ hselectors hactions
    · exact ih _ hselectors hactions

/-- The rules are run on records of the main input, which the invariant must outlast as well. -/
theorem runRecords (hfeeding : Feeding allowed inv) {rules : List Rule}
    (hselectors : ∀ r ∈ rules, ∀ s ∈ r.selector, AllFine fine s.operands)
    (hactions : ∀ r ∈ rules, ∀ s ∈ r.action, (Node.stmt s).All fine) (fuel : Nat) :
    Stays inv allowed (runRecords rules fuel) := by
  induction fuel with
  | zero => exact Yields.throw h.exhausted
  | succ fuel ih =>
    refine (hfeeding.nextRecord fuel).andThen fun record => ?_
    cases record with
    | none => exact Yields.pure trivial
    | some t =>
      refine h.onRecord.andThen fun _ => ?_
      refine (Stays.catching (h.runRules hranges fuel 0 hselectors hactions)).bind fun outcome houtcome => ?_
      split
      · exact ih
      · exact ih
      · exact (hfeeding.modifyInput _).andThen fun _ => ih
      · exact Yields.throw houtcome

end Rules

end Invariant

end Eval

end Awk
