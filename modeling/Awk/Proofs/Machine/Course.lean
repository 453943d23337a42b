import Awk.Proofs.Machine.Run

/-!
# The course of a run

A run goes through the `BEGIN` actions, the records and the `END` actions, and how far it comes in each is decided by
the jumps of the program (`Course`).  Every jump is caught where it belongs: nothing but `next`, `nextfile` and `exit`
leads out of a function or a rule, and none of them out of the run (`jumps_of_loadProgram`).
-/

namespace Awk

/-- What becomes of an interruption in an action that belongs to no record. -/
def Interruption.outsideRecords (rule : String) : Interruption → Interruption
  | .next | .nextFile => .failure ⟨.nextOutsideRecords rule, none⟩
  | i => i

/-- How an interruption that is no jump ends the run. -/
def Interruption.finish? : Interruption → Option Finish
  | .failure f => some (.failed f)
  | .exhausted => some .exhausted
  | _ => none

namespace Eval

/-- Statements are run one after the other until one is interrupted: which of them have been started, and how it has
ended. -/
inductive InOrder (run : Stmt → Eval Unit) :
    List Stmt → Machine → List Stmt → Except Interruption Unit → Machine → Prop
  | done {m} : InOrder run [] m [] (.ok ()) m
  | next {s rest m m₁ started r m'} (hrun : (run s).run m = (.ok (), m₁))
    (hrest : InOrder run rest m₁ started r m') : InOrder run (s :: rest) m (s :: started) r m'
  | last {s rest m i m'} (hrun : (run s).run m = (.error i, m')) : InOrder run (s :: rest) m [s] (.error i) m'

/-- The code that an exit has given, if one has; nothing for what has ended in another way than by its end or an
exit. -/
def exitCode? : Except Interruption Unit → Option (Option Nat)
  | .ok () => some none
  | .error (.exit code) => some code
  | .error _ => none

/-- The course of a run before the `END` actions: the `BEGIN` actions, and if they come to their end, the records, if
there is a rule or an `END` action to read them for. -/
inductive BeforeEnds (fuel : Nat) (parts : Parts) (m : Machine) : Except Interruption Unit → Machine → Prop
  | interrupted {started i m'} (hbegin : InOrder (stmt fuel) parts.begins m started (.error i) m') :
    BeforeEnds fuel parts m (.error (i.outsideRecords "BEGIN")) m'
  | noInput {m'} (hbegin : InOrder (stmt fuel) parts.begins m parts.begins (.ok ()) m')
    (hinput : parts.rules = [] ∧ parts.ends = []) : BeforeEnds fuel parts m (.ok ()) m'
  | records {m₁ r m'} (hbegin : InOrder (stmt fuel) parts.begins m parts.begins (.ok ()) m₁)
    (hinput : parts.rules ≠ [] ∨ parts.ends ≠ []) (hrecords : (runRecords parts.rules fuel).run m₁ = (r, m')) :
    BeforeEnds fuel parts m r m'

/-- The course of a run and its end.  If nothing has failed, the `END` actions are started, whether an exit has led to
them or not, and the status is the code of the exit in them, or else of the one before. -/
inductive Course (fuel : Nat) (parts : Parts) (m : Machine) : Finish → Machine → Prop
  | stopped {i m' finish} (hbefore : BeforeEnds fuel parts m (.error i) m') (hstop : i.finish? = some finish) :
    Course fuel parts m finish m'
  | stoppedInEnd {r code m₁ started i m' finish} (hbefore : BeforeEnds fuel parts m r m₁)
    (hcode : exitCode? r = some code)
    (hend : InOrder (stmt fuel) parts.ends { m₁ with exitCode := code } started (.error i) m')
    (hstop : (i.outsideRecords "END").finish? = some finish) : Course fuel parts m finish m'
  | ended {r code m₁ started r' code' m₂} (hbefore : BeforeEnds fuel parts m r m₁) (hcode : exitCode? r = some code)
    (hend : InOrder (stmt fuel) parts.ends { m₁ with exitCode := code } started r' m₂)
    (hcode' : exitCode? r' = some code') :
    Course fuel parts m (.status ((code' <|> code).getD (if m₂.inputFailed then 2 else 0)))
      { m₂ with exitCode := code' <|> code }

/-! ### Statements in order -/

theorem inOrder_of_sequence {run : Stmt → Eval Unit} {body : List Stmt} {m m' : Machine}
    {r : Except Interruption Unit} (h : (sequence run body).run m = (r, m')) :
    ∃ started, InOrder run body m started r m' := by
  induction body generalizing m with
  | nil =>
    cases h
    exact ⟨[], .done⟩
  | cons s rest ih =>
    rw [sequence, Action.run_bind] at h
    generalize hrun : (run s).run m = first at h
    obtain ⟨i | ⟨⟩, m₁⟩ := first
    · cases h
      exact ⟨[s], .last hrun⟩
    · obtain ⟨started, hrest⟩ := ih h
      exact ⟨s :: started, .next hrun hrest⟩

/-- Those that have been started are the first ones; all of them, if none has been interrupted. -/
theorem InOrder.started_prefix {run : Stmt → Eval Unit} {body started : List Stmt} {m m' : Machine}
    {r : Except Interruption Unit} (h : InOrder run body m started r m') :
    started <+: body ∧ (r = .ok () → started = body) := by
  induction h with
  | done => exact ⟨List.prefix_rfl, fun _ => rfl⟩
  | next hrun hrest ih =>
    refine ⟨List.cons_prefix_cons.2 ⟨rfl, ih.1⟩, fun hr => ?_⟩
    rw [ih.2 hr]
  | last hrun =>
    refine ⟨List.cons_prefix_cons.2 ⟨rfl, List.nil_prefix⟩, fun hr => ?_⟩
    cases hr

theorem inOrder_of_runOutsideRecords {fuel : Nat} {rule : String} {actions : List Stmt} {m m' : Machine}
    {r : Except Interruption Unit} (h : (runOutsideRecords fuel rule actions).run m = (r, m')) :
    (r = .ok () ∧ InOrder (stmt fuel) actions m actions (.ok ()) m') ∨
      ∃ started i, r = .error (Interruption.outsideRecords rule i) ∧
        InOrder (stmt fuel) actions m started (.error i) m' := by
  unfold runOutsideRecords at h
  rw [Action.run_bind, run_catching] at h
  generalize hsequence : (sequence (stmt fuel) actions).run m = first at h
  obtain ⟨r₁, m₁⟩ := first
  obtain ⟨started, horder⟩ := inOrder_of_sequence hsequence
  cases r₁ with
  | ok u =>
    cases h
    have hall := horder.started_prefix.2 rfl
    subst hall
    exact .inl ⟨rfl, horder⟩
  | error i =>
    refine .inr ⟨started, i, ?_⟩
    cases i <;> cases h <;> exact ⟨rfl, horder⟩

/-- The code of an exit is noted, and then the run goes on. -/
theorem run_catchingExit {act : Eval Unit} {m m' : Machine} {r : Except Interruption Unit}
    (h : act.run m = (r, m')) :
    (catchingExit act).run m =
      match exitCode? r with
      | some code => (.ok (), { m' with exitCode := code <|> m'.exitCode })
      | none => (r, m') := by
  unfold catchingExit
  rw [Action.run_bind, run_catching, h]
  cases r with
  | ok u => rfl
  | error i => cases i <;> rfl

/-! ### The course -/

variable {fuel : Nat} {parts : Parts} {m m' : Machine} {r : Except Interruption Unit}

theorem beforeEnds_of_run (h : (do
      runOutsideRecords fuel "BEGIN" parts.begins
      if parts.needsInput then runRecords parts.rules fuel : Eval Unit).run m = (r, m')) :
    BeforeEnds fuel parts m r m' := by
  rw [Action.run_bind] at h
  generalize hbegin : (runOutsideRecords fuel "BEGIN" parts.begins).run m = first at h
  obtain ⟨r₁, m₁⟩ := first
  rcases inOrder_of_runOutsideRecords hbegin with ⟨rfl, horder⟩ | ⟨started, i, rfl, horder⟩
  · dsimp only at h
    split at h
    · rename_i hinput
      refine .records horder ?_ h
      simpa [Parts.needsInput] using hinput
    · rename_i hinput
      cases h
      refine .noInput horder ?_
      simpa [Parts.needsInput] using hinput
  · cases h
    exact .interrupted horder

/-- What is interrupted by an exit at most ends, exits, or ends the run. -/
theorem exitCode?_or_finish? (h : Outcome (Interruption.Allowed IsExit) (fun _ => True) r) :
    (∃ code, exitCode? r = some code) ∨ exitCode? r = none ∧ ∃ i finish, r = .error i ∧ i.finish? = some finish := by
  cases r with
  | ok u => exact .inl ⟨none, rfl⟩
  | error i =>
    cases i with
    | failure f => exact .inr ⟨rfl, _, .failed f, rfl, rfl⟩
    | exhausted => exact .inr ⟨rfl, _, .exhausted, rfl, rfl⟩
    | exit code => exact .inl ⟨code, rfl⟩
    | _ =>
      obtain ⟨code, hcode⟩ := h
      cases hcode

theorem exitCode?_outsideRecords (rule : String) (i : Interruption) :
    exitCode? (.error (i.outsideRecords rule)) = exitCode? (.error i) := by
  cases i <;> rfl

/-- The end of a run whose `END` actions have been started with the code of an exit before them. -/
theorem course_of_ends (hwell : parts.WellFormed (Accepted parts.functions)) (hconfined : parts.Confined)
    {m₁ : Machine} {code : Option Nat} (hbefore : BeforeEnds fuel parts m r m₁) (hexit : exitCode? r = some code)
    (hm₁ : m₁.Runs parts.functions) {result : Except Interruption Unit}
    (hrun : (catchingExit (runOutsideRecords fuel "END" parts.ends)).run { m₁ with exitCode := code } = (result, m')) :
    ∃ finish, Course fuel parts m finish m' ∧
      (result = .ok () ∧ finish = .status m'.status ∨ ∃ i, result = .error i ∧ i.finish? = some finish) := by
  generalize hnoted : ({ m₁ with exitCode := code } : Machine) = noted at hrun
  have hruns : noted.Runs parts.functions := by
    rw [← hnoted]
    exact hm₁
  generalize hends : (runOutsideRecords fuel "END" parts.ends).run noted = ends
  obtain ⟨r', m₂⟩ := ends
  obtain ⟨hkeeps, hout⟩ := steady_ends hwell hconfined hruns fuel noted (.refl noted)
  rw [hends] at hkeeps hout
  rw [run_catchingExit hends] at hrun
  have horder := inOrder_of_runOutsideRecords hends
  rcases exitCode?_or_finish? hout with ⟨code', hexit'⟩ | ⟨hexit', i, finish, rfl, hfinish⟩
  · rw [hexit'] at hrun
    cases hrun
    have hcode : m₂.exitCode = code := by rw [hkeeps.exitCode, ← hnoted]
    rw [hcode]
    refine ⟨.status ((code' <|> code).getD (if m₂.inputFailed then 2 else 0)), ?_, .inl ⟨rfl, rfl⟩⟩
    · subst hnoted
      rcases horder with ⟨rfl, horder⟩ | ⟨started, i, rfl, horder⟩
      · exact .ended hbefore hexit horder hexit'
      · rw [exitCode?_outsideRecords] at hexit'
        exact .ended hbefore hexit horder hexit'
  · rw [hexit'] at hrun
    cases hrun
    subst hnoted
    rcases horder with ⟨hok, -⟩ | ⟨started, i', heq, horder⟩
    · cases hok
    · cases heq
      exact ⟨finish, .stoppedInEnd hbefore hexit horder hfinish, .inr ⟨_, rfl, hfinish⟩⟩

theorem course_of_runParts (hwell : parts.WellFormed (Accepted parts.functions)) (hconfined : parts.Confined)
    (hm : m.Runs parts.functions) (hcode : m.exitCode = none) (fuel : Nat) :
    Course fuel parts m (m.runParts fuel parts).1 ((Eval.runParts fuel parts).run m).2 := by
  generalize hmain : (do
      runOutsideRecords fuel "BEGIN" parts.begins
      if parts.needsInput then runRecords parts.rules fuel : Eval Unit).run m = main
  obtain ⟨r, m₁⟩ := main
  have hbefore := beforeEnds_of_run hmain
  obtain ⟨hkeeps, hout⟩ := steady_beforeEnds hwell hconfined hm fuel m (.refl m)
  rw [hmain] at hkeeps hout
  unfold Machine.runParts Eval.runParts
  rw [Action.run_bind, run_catchingExit hmain]
  rcases exitCode?_or_finish? hout with ⟨code, hexit⟩ | ⟨hexit, i, finish, rfl, hfinish⟩
  · have hnoted : (code <|> m₁.exitCode) = code := by
      rw [hkeeps.exitCode, hcode]
      cases code <;> rfl
    rw [hexit]
    dsimp only
    rw [hnoted]
    generalize hends : (catchingExit (runOutsideRecords fuel "END" parts.ends)).run _ = ends
    obtain ⟨result, m'⟩ := ends
    obtain ⟨finish, hcourse, hresult⟩ :=
      course_of_ends hwell hconfined hbefore hexit (hkeeps.functions.trans hm) hends
    rcases hresult with ⟨rfl, rfl⟩ | ⟨i, rfl, hfinish⟩
    · exact hcourse
    · cases i <;> cases hfinish <;> exact hcourse
  · rw [hexit]
    have hcourse := Course.stopped hbefore hfinish
    cases i <;> cases hfinish <;> exact hcourse

/-- That an operand could not be opened is noted if and only if it could not. -/
theorem inputFailed_of_openOperand {t : Text} {opened : Bool} (hnonempty : t ≠ []) (hfile : assignment? t = none)
    (h : (openOperand t).run m = (.ok opened, m')) :
    m'.inputFailed = (m.inputFailed || !opened) ∧
      (opened = false ↔ ∃ reason w, (World.openFile t).run m.world = (.error (.cannotOpen t reason), w)) := by
  rw [run_openOperand hnonempty hfile] at h
  generalize hopen : (World.openFile t).run m.world = result at h
  split at h
  · rename_i i w
    cases h
    have hopened : ¬∃ reason w', ((.ok i, w) : Except Fault Input × World) = (.error (.cannotOpen t reason), w') := by
      rintro ⟨reason, w', h⟩
      cases h
    exact ⟨(Bool.or_false _).symm, iff_of_false Bool.noConfusion hopened⟩
  · rename_i name reason w
    cases h
    obtain rfl := openFile_cannotOpen hopen
    exact ⟨(Bool.or_true _).symm, iff_of_true rfl ⟨reason, w, rfl⟩⟩
  · cases h

end Eval

theorem Machine.runParts_snd (m : Machine) (fuel : Nat) (parts : Parts) :
    (m.runParts fuel parts).2 = ((Eval.runParts fuel parts).run m).2.closeAll := by
  unfold Machine.runParts
  generalize (Eval.runParts fuel parts).run m = final
  obtain ⟨result, m'⟩ := final
  cases result with
  | ok u => rfl
  | error i => cases i <;> rfl

theorem exists_load_of_runProgram {fuel n : Nat} {i : Invocation} {world world' : World}
    (hrun : runProgram fuel i world = (.ok n, world')) : ∃ parts, loadProgram i.source = .ok parts := by
  unfold runProgram at hrun
  split at hrun
  · cases hrun
  · rename_i parts hload
    exact ⟨parts, hload⟩

/-- A run that gives a status begins like every run, and its course is that of the program's parts. -/
theorem course_of_runProgram {source : Text} {parts : Parts} (hload : loadProgram source = .ok parts) {fuel n : Nat}
    {i : Invocation} (hi : i.source = source) {world world' : World}
    (hrun : runProgram fuel i world = (.ok n, world')) :
    ∃ m m', m.Runs parts.functions ∧ Eval.Course fuel parts m (.status n) m' ∧ world' = m'.closeAll.world ∧
      (m'.inputFailed = true → OperandMissed world m'.world) := by
  subst hi
  have hwell := wellFormed_of_loadProgram hload
  have hconfined := confined_of_loadProgram hload
  unfold runProgram at hrun
  rw [hload] at hrun
  dsimp only at hrun
  generalize hstart : Machine.start world parts.functions _ _ = start at hrun
  have hruns : start.Runs parts.functions ∧ start.exitCode = none ∧ start.inputFailed = false ∧
      start.world = world := by
    rw [← hstart]
    exact ⟨rfl, rfl, rfl, rfl⟩
  obtain ⟨hfunctions, hcode, hfailed, rfl⟩ := hruns
  have hoptions : Steady start Eval.anyJump (Eval.applyOptions i.fieldSep i.assignments) :=
    Eval.steady_applyOptions _ _
  obtain ⟨hkeeps, -⟩ := hoptions start (.refl start)
  split at hrun
  · cases hrun
  · cases hrun
  · cases hrun
  · rename_i m happlied
    rw [happlied] at hkeeps
    have hm : m.Runs parts.functions := hkeeps.functions.trans hfunctions
    have hcourse := Eval.course_of_runParts hwell hconfined hm (hkeeps.exitCode.trans hcode) fuel
    obtain ⟨hfollows, -⟩ := Eval.follows_runParts hwell hconfined hfunctions fuel m hkeeps.toFollows
    have hworld := m.runParts_snd fuel parts
    generalize hfinal : m.runParts fuel parts = final at hrun hcourse hworld
    obtain ⟨finish, m'⟩ := final
    dsimp only at hworld
    subst hworld
    cases finish <;> cases hrun
    refine ⟨m, _, hm, hcourse, rfl, fun hmissed => ?_⟩
    exact (hfollows.missed hmissed).resolve_left (by simp [hfailed])

/-- Every jump of a program that can be loaded is caught where it belongs.  `break` and `continue` leave neither the
body of a function nor the action of a rule, and `return` leaves no call; what a selector evaluates is left by `next`,
`nextfile` and `exit` at most, and the whole run by none of them, nor does it forget that an operand could not be
opened.  Which parts of a program are run, and the status at the end, is told by `Eval.Course`. -/
theorem jumps_of_loadProgram {source : Text} {parts : Parts} (hload : loadProgram source = .ok parts) (fuel : Nat) :
    (∀ m : Machine, m.Runs parts.functions →
      (∀ f ∈ parts.functions, Steady m (fun i => (∃ v, i = .return v) ∨ Eval.IsOuter i) (Eval.stmt fuel f.body)) ∧
      (∀ span function args, parts.Contains (.expr (.call span function args)) →
        Steady m Eval.IsOuter (Eval.call fuel function args)) ∧
      (∀ r ∈ parts.rules, ∀ rule, Steady m Eval.IsOuter (Eval.applies fuel rule r.selector) ∧
        Steady m Eval.IsOuter (Eval.runAction fuel r.action)) ∧
      (∀ s, s ∈ parts.begins ∨ s ∈ parts.ends → Steady m Eval.IsOuter (Eval.stmt fuel s)) ∧
      Yields m.Follows (Interruption.Allowed fun _ => False) (fun _ => True) (Eval.runParts fuel parts) ∧
      (m.exitCode = none →
        Eval.Course fuel parts m (m.runParts fuel parts).1 ((Eval.runParts fuel parts).run m).2)) ∧
      (∀ i : Invocation, i.source = source → ∀ n world world', runProgram fuel i world = (.ok n, world') →
        ∃ m m', m.Runs parts.functions ∧ Eval.Course fuel parts m (.status n) m' ∧ world' = m'.closeAll.world ∧
          (m'.inputFailed = true → OperandMissed world m'.world)) ∧
      ∀ t m opened m', t ≠ [] → assignment? t = none → (Eval.openOperand t).run m = (.ok opened, m') →
        m'.inputFailed = (m.inputFailed || !opened) ∧
          (opened = false ↔ ∃ reason w, (World.openFile t).run m.world = (.error (.cannotOpen t reason), w)) := by
  have hwell := wellFormed_of_loadProgram hload
  have hconfined := confined_of_loadProgram hload
  refine ⟨fun m hm => ?_, fun i hi n world world' hrun => course_of_runProgram hload hi hrun,
    fun t m opened m' hnonempty hfile hrun => Eval.inputFailed_of_openOperand hnonempty hfile hrun⟩
  have heval := Eval.steady_parts hwell hconfined hm fuel
  refine ⟨fun f hf => ?_, fun span function args hcall => ?_, fun r hr rule => ⟨?_, ?_⟩, fun s hs => ?_,
    Eval.follows_runParts hwell hconfined hm fuel, fun hcode => Eval.course_of_runParts hwell hconfined hm hcode fuel⟩
  · refine (heval.stmt (hwell.functions f hf) (hconfined.functions f hf)).jumping fun i hi => ?_
    rcases hi with ⟨hloop, -⟩ | ⟨-, hreturn⟩ | houter
    · cases hloop
    · exact .inl hreturn
    · exact .inr houter
  · obtain ⟨haccepted, hargs⟩ : (Expr.call span function args).WellFormed _ true := Parts.wellFormed_node hwell hcall
    exact heval.call haccepted hargs
  · exact heval.applies rule (hwell.selectors r hr)
  · exact heval.runAction (hwell.actions r hr) (hconfined.actions r hr)
  · rcases hs with hs | hs
    · exact heval.action rfl rfl (hwell.begins s hs) (hconfined.begins s hs)
    · exact heval.action rfl rfl (hwell.ends s hs) (hconfined.ends s hs)

/-- A program with a `break` in the update of an inner loop, a `next` in a function that a selector calls, and an exit
both on a record and at the end. -/
def jumpingSource : Text :=
  "function f(n) \x7b while (n) \x7b for (; n; break) n--; return 1 \x7d if (n) next; return 1 \x7d
BEGIN \x7b for (;;) \x7b if (i++) break; else continue \x7d \x7d
f($1) \x7b exit \x7d
END \x7b exit \x7d".toList

/-- Two operands, of which the first cannot be opened and the other is the standard input. -/
def jumpingInvocation : Invocation := ⟨jumpingSource, ["missing".toList, "-".toList], [], none⟩

def lineWorld : World := .start .empty [] "1\n".toList 0

theorem jumps_of_loadProgram_missingOperand :
    ∃ parts m m', loadProgram jumpingInvocation.source = .ok parts ∧ m.Runs parts.functions ∧
      (∀ f ∈ parts.functions, Steady m (fun i => (∃ v, i = .return v) ∨ Eval.IsOuter i) (Eval.stmt 100 f.body)) ∧
      Eval.Course 100 parts m (.status 2) m' := by
  have hstatus : (runProgram 100 jumpingInvocation lineWorld).1.toOption = some 2 := by decide +kernel
  generalize hrun : runProgram 100 jumpingInvocation lineWorld = ended at hstatus
  obtain ⟨result, world'⟩ := ended
  cases result with
  | error e => cases hstatus
  | ok n =>
    cases hstatus
    obtain ⟨parts, hload⟩ := exists_load_of_runProgram hrun
    obtain ⟨hjumps, hcourse, -⟩ := jumps_of_loadProgram hload 100
    obtain ⟨m, m', hm, hcourse, -, -⟩ := hcourse jumpingInvocation rfl 2 lineWorld world' hrun
    exact ⟨parts, m, m', hload, hm, (hjumps m hm).1, hcourse⟩

end Awk
