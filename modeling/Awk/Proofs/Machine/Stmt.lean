import Awk.Proofs.Machine.Expr
import Awk.Proofs.Syntax.Confined

/-!
# Statements run soundly

Expressions, calls, statements and loops are evaluated with fuel, each by the others with less, so their soundness is
one induction on the fuel (`steady_eval`).  It asks of the program that its function bodies are well formed, where the
calls accepted are those that the functions take.
-/

namespace Awk.Eval

variable {start : Machine} {jumps : Interruption → Prop} {accepts : Accepts} {eval : Evaluate}

/-! ### Output -/

theorem steady_printed (heval : Evaluates start jumps accepts eval) (formatted : Bool) {items : List Expr}
    (h : AllWellFormed accepts true items) : Steady start jumps (printed eval formatted items) := by
  unfold printed
  split
  · refine (steady_valuesOf heval h).andThen fun values => ?_
    refine steady_convfmt.andThen fun format => ?_
    refine Steady.ofExcept ((Value.calm_toText _ _).andThen fun t => ?_)
    exact calm_sprintf ..
  · split
    · exact steady_recordText.andThen fun _ => (steady_setting _).andThen fun _ => Steady.pure
    · refine (steady_setting _).andThen fun format => ?_
      refine (steady_textsOf heval format h).andThen fun texts => ?_
      exact (steady_setting _).andThen fun _ => (steady_setting _).andThen fun _ => Steady.pure

theorem steady_print (heval : Evaluates start jumps accepts eval) (formatted : Bool) {items : List Expr}
    {redirect : Option Redirect} (hitems : AllWellFormed accepts true items)
    (hredirect : ∀ r ∈ redirect, r.WellFormed accepts true) :
    Steady start jumps (print eval formatted items redirect) := by
  refine (steady_printed heval formatted hitems).andThen fun t => ?_
  cases redirect with
  | none => exact Steady.onWorld fun w => (World.robust_follows w).print t
  | some r =>
    refine (heval (hredirect r rfl).2).andThen fun v => ?_
    refine (steady_textOf v).andThen fun name => ?_
    exact Steady.onWorld fun w => (World.robust_follows w).redirect r.op name t

/-! ### Parts of statements -/

theorem steady_delete (heval : Evaluates start jumps accepts eval) (name : Text) {subscripts : Option Subscripts}
    (h : ∀ s ∈ subscripts, s.WellFormed accepts true) : Steady start jumps (delete eval name subscripts) := by
  refine (steady_arrayNamed name).andThen fun id => ?_
  cases subscripts with
  | none => exact steady_setArray id _
  | some s =>
    refine (steady_subscriptKey heval (h s rfl)).andThen fun key => ?_
    exact (steady_array id).andThen fun _ => steady_setArray id _

/-- `break` and `continue` go no further than the loop. -/
theorem steady_round {body : Eval Unit}
    (h : Steady start (fun i => (i = .break ∨ i = .continue) ∨ jumps i) body) :
    Steady start jumps (round body) := by
  refine (Steady.catching h).bind fun outcome houtcome => ?_
  split
  · exact Steady.pure
  · exact Steady.pure
  · exact Steady.pure
  · rename_i hcontinue hbreak
    exact Yields.throw (houtcome.unhandled fun hi => hi.elim hbreak hcontinue)

theorem steady_visit {body : Eval Unit}
    (h : Steady start (fun i => (i = .break ∨ i = .continue) ∨ jumps i) body) (element : Text) (id : Nat)
    (keys : List Text) : Steady start jumps (visit body element id keys) := by
  induction keys with
  | nil => exact Steady.pure
  | cons key keys ih =>
    refine (steady_array id).andThen fun a => ?_
    split
    · refine (steady_assignVariable element _).andThen fun _ => ?_
      refine (steady_round h).andThen fun again => ?_
      split
      · exact ih
      · exact Steady.pure
    · exact ih

theorem steady_sequence {run : Stmt → Eval Unit} {body : List Stmt} (h : ∀ s ∈ body, Steady start jumps (run s)) :
    Steady start jumps (sequence run body) := by
  induction body with
  | nil => exact Steady.pure
  | cons s body ih =>
    obtain ⟨hs, hbody⟩ := List.forall_mem_cons.1 h
    exact hs.andThen fun _ => ih hbody

theorem steady_holdsOrAbsent (heval : Evaluates start jumps accepts eval) {test : Option Expr}
    (h : ∀ e ∈ test, e.WellFormed accepts true) : Steady start jumps (holdsOrAbsent eval test) := by
  cases test with
  | none => exact Steady.pure
  | some e => exact steady_holds heval (h e rfl)

/-! ### Everything at once -/

/-- Any jump may interrupt an evaluation. -/
abbrev anyJump : Interruption → Prop := fun _ => True

/-- The jumps that may interrupt a statement that is confined to a context, others apart. -/
def Leaves (context : Context) (jumps : Interruption → Prop) (i : Interruption) : Prop :=
  (context.inLoop = true ∧ (i = .break ∨ i = .continue)) ∨ (context.inFunction = true ∧ ∃ v, i = .return v) ∨ jumps i

/-- What is evaluated steadily with a fuel.  The jumps are those that may interrupt an expression; a statement may be
interrupted by the jumps that its context takes care of, too. -/
structure SteadyEval (start : Machine) (functions : List Function) (jumps : Interruption → Prop) (fuel : Nat) :
    Prop where
  expr : Evaluates start jumps (Accepted functions) (expr fuel)
  call : ∀ {function args}, Accepted functions function args.length → AllWellFormed (Accepted functions) true args →
    Steady start jumps (call fuel function args)
  stmt : ∀ {context} {s : Stmt}, s.WellFormed (Accepted functions) true → s.Confined context →
    Steady start (Leaves context jumps) (stmt fuel s)
  loop : ∀ {context test update} {body : Stmt}, (∀ e ∈ test, e.WellFormed (Accepted functions) true) →
    StmtWellFormed? (Accepted functions) true update → StmtConfined? context update →
    body.WellFormed (Accepted functions) true → body.Confined context.looping →
    Steady start (Leaves context jumps) (loop fuel test update body)

/-- The jumps that no program text can keep from going beyond functions and rules. -/
def IsOuter : Interruption → Prop
  | .next | .nextFile | .exit _ => True
  | _ => False

variable {functions : List Function} {context : Context} {fuel : Nat}

theorem leaves_of_jumps {i : Interruption} (h : jumps i) : Leaves context jumps i := .inr (.inr h)

theorem SteadyEval.expr_leaves (ih : SteadyEval start functions jumps fuel) :
    Evaluates start (Leaves context jumps) (Accepted functions) (Eval.expr fuel) :=
  fun h => (ih.expr h).jumping fun _ => leaves_of_jumps

/-- What goes beyond a round of a loop goes beyond the loop. -/
theorem SteadyEval.body (ih : SteadyEval start functions jumps fuel) {s : Stmt}
    (h : s.WellFormed (Accepted functions) true) (hconfined : s.Confined context.looping) :
    Steady start (fun i => (i = .break ∨ i = .continue) ∨ Leaves context jumps i) (Eval.stmt fuel s) := by
  refine (ih.stmt h hconfined).jumping fun i hi => ?_
  rcases hi with ⟨-, hloop⟩ | hbeyond
  · exact .inl hloop
  · exact .inr (.inr hbeyond)

theorem SteadyEval.sequence (ih : SteadyEval start functions jumps fuel) {body : List Stmt}
    (h : StmtsWellFormed (Accepted functions) true body) (hconfined : StmtsConfined context body) :
    Steady start (Leaves context jumps) (sequence (Eval.stmt fuel) body) :=
  steady_sequence fun _ hs => ih.stmt (wellFormed_of_mem_stmts h hs) (confined_of_mem_stmts hconfined hs)

theorem steady_stmt (houter : ∀ {i}, IsOuter i → jumps i) (ih : SteadyEval start functions jumps fuel) {s : Stmt}
    (h : s.WellFormed (Accepted functions) true) (hconfined : s.Confined context) :
    Steady start (Leaves context jumps) (stmt (fuel + 1) s) := by
  refine Steady.located _ ?_
  cases s with
  | block span body => exact ih.sequence h hconfined
  | ifElse span test yes no =>
    refine (steady_holds ih.expr_leaves h.1).andThen fun b => ?_
    split
    · exact ih.stmt h.2.1 hconfined.1
    · cases no with
      | none => exact Steady.pure
      | some no => exact ih.stmt h.2.2 hconfined.2
  | «while» span test body =>
    exact ih.loop (forall_mem_some h.1) trivial trivial h.2 hconfined
  | doWhile span body test =>
    refine (steady_round (ih.body h.1 hconfined)).andThen fun again => ?_
    split
    · exact ih.loop (forall_mem_some h.2) trivial trivial h.1 hconfined
    · exact Steady.pure
  | «for» span first test update body =>
    obtain ⟨hfirst, hupdate, hbody⟩ := hconfined
    cases first with
    | none => exact ih.loop h.2.1 h.2.2.1 hupdate h.2.2.2 hbody
    | some first =>
      exact (ih.stmt h.1 hfirst).andThen fun _ => ih.loop h.2.1 h.2.2.1 hupdate h.2.2.2 hbody
  | forIn span element array body =>
    have hbody : body.WellFormed (Accepted functions) true := h
    refine (steady_arrayNamed _).andThen fun id => ?_
    exact (steady_array id).andThen fun _ => steady_visit (ih.body hbody hconfined) _ _ _
  | empty span => exact Steady.pure
  | print span token formatted items redirect => exact steady_print ih.expr_leaves formatted h.2.1 h.2.2
  | delete span array subscripts => exact steady_delete ih.expr_leaves _ h
  | «break» span => exact Yields.throw (.inl ⟨hconfined, .inl rfl⟩)
  | «continue» span => exact Yields.throw (.inl ⟨hconfined, .inr rfl⟩)
  | next span => exact Yields.throw (leaves_of_jumps (houter trivial))
  | nextFile span => exact Yields.throw (leaves_of_jumps (houter trivial))
  | exit span code =>
    cases code with
    | none => exact Yields.throw (leaves_of_jumps (houter trivial))
    | some code =>
      exact (ih.expr_leaves (h code rfl)).andThen fun _ => Yields.throw (leaves_of_jumps (houter trivial))
  | «return» span value =>
    cases value with
    | none => exact Yields.throw (.inr (.inl ⟨hconfined, _, rfl⟩))
    | some value =>
      exact (ih.expr_leaves (h value rfl)).andThen fun v => Yields.throw (.inr (.inl ⟨hconfined, v, rfl⟩))
  | expr span e =>
    have he : e.WellFormed (Accepted functions) true := h
    exact (ih.expr_leaves he).andThen fun _ => Steady.pure

theorem steady_loop (ih : SteadyEval start functions jumps fuel) {test : Option Expr} {update : Option Stmt}
    {body : Stmt} (htest : ∀ e ∈ test, e.WellFormed (Accepted functions) true)
    (hupdate : StmtWellFormed? (Accepted functions) true update) (hconfined : StmtConfined? context update)
    (hbody : body.WellFormed (Accepted functions) true) (hinner : body.Confined context.looping) :
    Steady start (Leaves context jumps) (loop (fuel + 1) test update body) := by
  refine (steady_holdsOrAbsent ih.expr_leaves htest).andThen fun b => ?_
  split
  · refine (steady_round (ih.body hbody hinner)).andThen fun again => ?_
    split
    · cases update with
      | none => exact ih.loop htest hupdate hconfined hbody hinner
      | some step =>
        have hstep : step.WellFormed (Accepted functions) true := hupdate
        exact (ih.stmt hstep hconfined).andThen fun _ => ih.loop htest hupdate hconfined hbody hinner
    · exact Steady.pure
  · exact Steady.pure

/-- Evaluations are steady if the bodies of functions are well formed and nothing goes beyond these but what may
interrupt an expression. -/
theorem steady_eval (hstart : start.Runs functions) (houter : ∀ {i}, IsOuter i → jumps i) {inner : Context}
    (hinner : ∀ {i}, inner.inLoop = true → i = .break ∨ i = .continue → jumps i)
    (hwell : ∀ f ∈ functions, f.body.WellFormed (Accepted functions) true)
    (hconfined : ∀ f ∈ functions, f.body.Confined inner) (fuel : Nat) : SteadyEval start functions jumps fuel := by
  -- All four together, for each hands less fuel to the others.
  induction fuel with
  | zero =>
    exact {
      expr := fun _ => Yields.throw trivial
      call := fun _ _ => Yields.throw trivial
      stmt := fun _ _ => Yields.throw trivial
      loop := fun _ _ _ _ _ => Yields.throw trivial }
  | succ fuel ih =>
    have hbodies : ∀ f ∈ functions, Steady start (fun i => (∃ v, i = .return v) ∨ jumps i) (stmt fuel f.body) := by
      intro f hf
      refine (ih.stmt (hwell f hf) (hconfined f hf)).jumping fun i hi => ?_
      rcases hi with ⟨hloop, hi⟩ | ⟨-, hreturn⟩ | hi
      · exact .inr (hinner hloop hi)
      · exact .inl hreturn
      · exact .inr hi
    exact {
      expr := fun h => Steady.located _ (steady_evalWith ih.expr ih.call fuel h)
      call := fun hcall hargs => steady_callWith hstart ih.expr hbodies hcall hargs
      stmt := fun h hs => steady_stmt houter ih h hs
      loop := fun htest hupdate hs hbody hinner => steady_loop ih htest hupdate hs hbody hinner }

/-! ### Soundness -/

/-- What is evaluated soundly with a fuel. -/
structure SoundEval (functions : List Function) (fuel : Nat) : Prop where
  expr : ∀ {e : Expr}, e.WellFormed (Accepted functions) true → Sound functions anyJump (expr fuel e)
  stmt : ∀ {s : Stmt}, s.WellFormed (Accepted functions) true → Sound functions anyJump (stmt fuel s)

/-- Whatever jumps there are, evaluations are sound: every statement is confined to some context. -/
theorem sound_eval (hfunctions : ∀ f ∈ functions, f.body.WellFormed (Accepted functions) true) (fuel : Nat) :
    SoundEval functions fuel := by
  have heval {start : Machine} (hstart : start.Runs functions) : SteadyEval start functions anyJump fuel :=
    steady_eval hstart (fun _ => trivial) (fun _ _ => trivial) hfunctions (fun f _ => f.body.confined_anywhere) fuel
  exact {
    expr := fun h => .of_steady fun hstart => (heval hstart).expr h
    stmt := fun {s} h => .of_steady fun hstart =>
      ((heval hstart).stmt h s.confined_anywhere).jumping fun _ _ => trivial }

end Awk.Eval
