import Awk.Proofs.Machine.Stmt
import Awk.Proofs.Syntax.Node
import Awk.Proofs.Syntax.ReadBack
import Awk.Run

/-!
# Programs that the parser accepts run soundly

No jump leads out of a run of a well-formed program's parts, and what may interrupt it is ordinary
(`follows_runParts`), from the rules on one record to the whole (`runProgram_ordinary`).
-/

namespace Awk

namespace Eval

variable {start : Machine} {functions : List Function} {fuel : Nat}

def IsExit (i : Interruption) : Prop := ∃ code, i = .exit code

theorem allowed_exit {i : Interruption} (h : i.Allowed IsOuter) (hnext : ¬i = .next) (hnextFile : ¬i = .nextFile) :
    i.Allowed IsExit := by
  cases i with
  | failure f => exact h
  | exhausted => trivial
  | exit code => exact ⟨code, rfl⟩
  | next => exact absurd rfl hnext
  | nextFile => exact absurd rfl hnextFile
  | _ => exact absurd h not_false

theorem allowed_nothing {i : Interruption} (h : i.Allowed IsExit) (hexit : ∀ code, ¬i = .exit code) :
    i.Allowed fun _ => False := by
  cases i with
  | failure f => exact h
  | exhausted => trivial
  | _ =>
    obtain ⟨code, hcode⟩ := h
    exact hexit code hcode

/-! ### Outside records -/

/-- Where there is neither a loop nor a function around it, a statement is left by jumps that go beyond both only. -/
theorem SteadyEval.action (ih : SteadyEval start functions IsOuter fuel) {context : Context}
    (hloop : context.inLoop = false) (hfunction : context.inFunction = false) {s : Stmt}
    (h : s.WellFormed (Accepted functions) true) (hconfined : s.Confined context) :
    Steady start IsOuter (Eval.stmt fuel s) := by
  refine (ih.stmt h hconfined).jumping fun i hi => ?_
  rcases hi with ⟨hin, -⟩ | ⟨hin, -⟩ | hi
  · exact absurd hin (by simp [hloop])
  · exact absurd hin (by simp [hfunction])
  · exact hi

theorem SteadyEval.actions (ih : SteadyEval start functions IsOuter fuel) {actions : List Stmt}
    (h : ∀ s ∈ actions, s.WellFormed (Accepted functions) true) (hconfined : ∀ s ∈ actions, s.Confined .special)
    (rule : String) : Steady start IsExit (runOutsideRecords fuel rule actions) := by
  have hactions : Steady start IsOuter (Eval.sequence (Eval.stmt fuel) actions) :=
    steady_sequence fun s hs => ih.action rfl rfl (h s hs) (hconfined s hs)
  refine (Steady.catching hactions).bind fun outcome houtcome => ?_
  split
  · exact Steady.fail not_false
  · exact Steady.fail not_false
  · rename_i hnext hnextFile
    exact Yields.throw (allowed_exit houtcome hnext hnextFile)
  · exact Steady.pure

/-! ### Rules -/

theorem steady_setActive {jumps : Interruption → Prop} (rule : Nat) (active : Bool) :
    Steady start jumps (setActive rule active) :=
  Steady.modify fun _ => .of_eq rfl rfl rfl rfl

theorem SteadyEval.applies {jumps : Interruption → Prop} (ih : SteadyEval start functions jumps fuel) (rule : Nat)
    {selector : Option Selector} (h : ∀ s ∈ selector, s.WellFormed (Accepted functions) true) :
    Steady start jumps (applies fuel rule selector) := by
  cases selector with
  | none => exact Steady.pure
  | some s =>
    cases s with
    | single span test =>
      have htest : test.WellFormed (Accepted functions) true := h _ rfl
      exact steady_holds ih.expr htest
    | range span first last =>
      obtain ⟨hfirst, hlast⟩ : first.WellFormed _ true ∧ last.WellFormed _ true := h _ rfl
      have hend : Steady start jumps (do
          if ← holds (Eval.expr fuel) last then setActive rule false
          return true) := by
        refine (steady_holds ih.expr hlast).andThen fun b => ?_
        split
        · exact (steady_setActive rule false).andThen fun _ => Steady.pure
        · exact Steady.pure
      refine Steady.get.andThen fun m => ?_
      dsimp only
      split
      · refine (steady_holds ih.expr hfirst).andThen fun b => ?_
        split
        · exact Steady.pure
        · exact (steady_setActive rule true).andThen fun _ => hend
      · exact hend

theorem SteadyEval.runAction (ih : SteadyEval start functions IsOuter fuel) {action : Option Stmt}
    (h : ∀ s ∈ action, s.WellFormed (Accepted functions) true) (hconfined : ∀ s ∈ action, s.Confined .rule) :
    Steady start IsOuter (runAction fuel action) := by
  cases action with
  | none =>
    refine steady_recordText.andThen fun t => ?_
    exact (steady_setting _).andThen fun _ => Steady.onWorld fun w => (World.robust_follows w).print _
  | some s => exact ih.action rfl rfl (h s rfl) (hconfined s rfl)

theorem SteadyEval.runRules (ih : SteadyEval start functions IsOuter fuel) (rule : Nat) {rules : List Rule}
    (hselectors : ∀ r ∈ rules, ∀ s ∈ r.selector, s.WellFormed (Accepted functions) true)
    (hactions : ∀ r ∈ rules, ∀ s ∈ r.action, s.WellFormed (Accepted functions) true)
    (hconfined : ∀ r ∈ rules, ∀ s ∈ r.action, s.Confined .rule) : Steady start IsOuter (runRules fuel rule rules) := by
  induction rules generalizing rule with
  | nil => exact Steady.pure
  | cons r rules hrest =>
    obtain ⟨hselector, hselectors⟩ := List.forall_mem_cons.1 hselectors
    obtain ⟨haction, hactions⟩ := List.forall_mem_cons.1 hactions
    obtain ⟨hstays, hconfined⟩ := List.forall_mem_cons.1 hconfined
    refine (ih.applies rule hselector).andThen fun b => ?_
    split
    · exact (ih.runAction haction hstays).andThen fun _ => hrest _ hselectors hactions hconfined
    · exact hrest _ hselectors hactions hconfined

theorem steady_runRecords (heval : ∀ fuel, SteadyEval start functions IsOuter fuel) {rules : List Rule}
    (hselectors : ∀ r ∈ rules, ∀ s ∈ r.selector, s.WellFormed (Accepted functions) true)
    (hactions : ∀ r ∈ rules, ∀ s ∈ r.action, s.WellFormed (Accepted functions) true)
    (hconfined : ∀ r ∈ rules, ∀ s ∈ r.action, s.Confined .rule) (fuel : Nat) :
    Steady start IsExit (runRecords rules fuel) := by
  induction fuel with
  | zero => exact Yields.throw trivial
  | succ fuel ih =>
    refine (steady_nextRecord fuel).andThen fun record => ?_
    cases record with
    | none => exact Steady.pure
    | some t =>
      refine (Steady.onRecord fun vars => Record.calm_setText vars t).andThen fun _ => ?_
      have hrules := (heval fuel).runRules 0 hselectors hactions hconfined
      refine (Steady.catching hrules).bind fun outcome houtcome => ?_
      split
      · exact ih
      · exact ih
      · exact steady_skipFile.andThen fun _ => ih
      · rename_i hnext hnextFile
        exact Yields.throw (allowed_exit houtcome hnext hnextFile)

/-! ### Whole programs -/

section Parts

variable {parts : Parts} (hwell : parts.WellFormed (Accepted parts.functions)) (hconfined : parts.Confined)

include hwell hconfined

theorem steady_parts (hstart : start.Runs parts.functions) (fuel : Nat) :
    SteadyEval start parts.functions IsOuter fuel :=
  steady_eval hstart id (fun hloop => absurd hloop Bool.false_ne_true) hwell.functions hconfined.functions fuel

/-- Nothing but an exit leads out of the part of a run before the `END` actions. -/
theorem steady_beforeEnds (hstart : start.Runs parts.functions) (fuel : Nat) :
    Steady start IsExit (do
      runOutsideRecords fuel "BEGIN" parts.begins
      if parts.needsInput then runRecords parts.rules fuel) := by
  have heval := steady_parts hwell hconfined hstart
  refine ((heval fuel).actions hwell.begins hconfined.begins _).andThen fun _ => ?_
  split
  · exact steady_runRecords heval hwell.selectors hwell.actions hconfined.actions fuel
  · exact Steady.pure

theorem steady_ends (hstart : start.Runs parts.functions) (fuel : Nat) :
    Steady start IsExit (runOutsideRecords fuel "END" parts.ends) :=
  (steady_parts hwell hconfined hstart fuel).actions hwell.ends hconfined.ends _

end Parts

theorem follows_catchingExit {act : Eval Unit}
    (h : ∀ {m : Machine}, m.Runs functions → Steady m IsExit act) (hstart : start.Runs functions) :
    Yields start.Follows (Interruption.Allowed fun _ => False) (fun _ => True) (catchingExit act) := by
  have hcaught : Yields start.Follows (Interruption.Allowed fun _ => False)
      (Outcome (Interruption.Allowed IsExit) fun _ => True) (catching act) := by
    intro m hm
    obtain ⟨hkeeps, hout⟩ := h (hm.functions.trans hstart) m (.refl m)
    exact ⟨hm.trans hkeeps.toFollows, hout⟩
  refine hcaught.bind fun outcome houtcome => ?_
  split
  · exact Yields.modify fun m hm => hm.trans (.of_world rfl rfl (.of_eq rfl))
  · rename_i hexit
    exact Yields.throw (allowed_nothing houtcome hexit)
  · exact Yields.pure trivial

/-- No jump leads out of a run. -/
theorem follows_runParts {parts : Parts} (hwell : parts.WellFormed (Accepted parts.functions))
    (hconfined : parts.Confined) (hstart : start.Runs parts.functions) (fuel : Nat) :
    Yields start.Follows (Interruption.Allowed fun _ => False) (fun _ => True) (runParts fuel parts) :=
  (follows_catchingExit (fun hm => steady_beforeEnds hwell hconfined hm fuel) hstart).andThen fun _ =>
    follows_catchingExit (fun hm => steady_ends hwell hconfined hm fuel) hstart

/-! ### Options -/

theorem steady_applyOptions {jumps : Interruption → Prop} (fieldSep : Option Text) (assignments : List Text) :
    Steady start jumps (applyOptions fieldSep assignments) := by
  have hrefused (t : Text) : Steady start jumps (do return !(← applyAssignment t)) :=
    (steady_applyAssignment t).andThen fun _ => Steady.pure
  unfold applyOptions
  cases fieldSep with
  | none =>
    refine (Yields.findM? hrefused _).andThen fun found => ?_
    cases found <;> exact Steady.pure
  | some t =>
    refine (steady_assignGlobal _ _).andThen fun _ => (Yields.findM? hrefused _).andThen fun found => ?_
    cases found <;> exact Steady.pure

end Eval

/-- A run of well-formed parts does not fail for their form. -/
theorem Machine.runParts_ordinary {parts : Parts} (hwell : parts.WellFormed (Accepted parts.functions))
    (hconfined : parts.Confined) {m m' : Machine} (hm : m.Runs parts.functions) (fuel : Nat) {f : Failure}
    (hrun : m.runParts fuel parts = (.failed f, m')) : f.fault.IsOrdinary := by
  obtain ⟨-, hout⟩ := Eval.follows_runParts hwell hconfined hm fuel m (.refl m)
  unfold Machine.runParts at hrun
  generalize (Eval.runParts fuel parts).run m = final at hrun hout
  obtain ⟨result, m₁⟩ := final
  dsimp only at hrun hout
  split at hrun
  · cases hrun
    exact hout
  · cases hrun
  · cases hrun

/-- No run of a program text that can be loaded fails for the program's form. -/
theorem runProgram_ordinary {fuel : Nat} {i : Invocation} {world world' : World} {f : Failure}
    (hrun : runProgram fuel i world = (.error (.failed f), world')) : f.fault.IsOrdinary := by
  unfold runProgram at hrun
  split at hrun
  · cases hrun
  · rename_i parts hload
    have hwell := wellFormed_of_loadProgram hload
    have hconfined := confined_of_loadProgram hload
    dsimp only at hrun
    generalize hstart : Machine.start world parts.functions _ _ = machine at hrun
    have hm : machine.Runs parts.functions := by
      rw [← hstart]
      rfl
    have hoptions : Sound parts.functions Eval.anyJump (Eval.applyOptions i.fieldSep i.assignments) :=
      .of_steady fun _ => Eval.steady_applyOptions _ _
    obtain ⟨hm', hout⟩ := hoptions machine hm
    split at hrun
    · cases hrun
    · rename_i f' m hoptions
      cases hrun
      rw [hoptions] at hout
      exact hout
    · cases hrun
    · rename_i m hoptions
      rw [hoptions] at hm'
      split at hrun
      · cases hrun
      · rename_i f' m' hparts
        cases hrun
        exact Machine.runParts_ordinary hwell hconfined hm' fuel hparts
      · cases hrun

/-- A program that the parser accepts, folded and sorted, has no node that an evaluator could not deal with: each can
be read back from its outline, each call finds a function that takes as many arguments, and however far an evaluation
of a node gets, from whatever state with these functions, no fault of the program's form stops it; nor does one stop a
whole run. -/
theorem accepted_program_sound {source : Text} {p p' : Program} (hparse : parseProgram source = .ok p)
    (hprune : p.prune = .ok p') :
    Outline.readProgram p'.outline = .ok p' ∧
      (∀ e, (Parts.ofItems p'.items).Contains (.expr e) →
        Outline.readExpr e.outline = .ok e ∧
        (∀ span function args, e = .call span function args →
          Accepted (Parts.ofItems p'.items).functions function args.length) ∧
        ∀ fuel, Sound (Parts.ofItems p'.items).functions Eval.anyJump (Eval.expr fuel e)) ∧
      (∀ s, (Parts.ofItems p'.items).Contains (.stmt s) →
        Outline.readStmt s.outline = .ok s ∧
        ∀ fuel, Sound (Parts.ofItems p'.items).functions Eval.anyJump (Eval.stmt fuel s)) ∧
      ∀ fuel i world world' f, i.source = source →
        runProgram fuel i world = (.error (.failed f), world') → f.fault.IsOrdinary := by
  have hprogram := wellFormed_of_prune hparse hprune
  have hparts := Parts.wellFormed_ofItems hprogram
  refine ⟨readProgram_outline hprogram, ?_, ?_, ?_⟩
  · intro e he
    have hwell : e.WellFormed _ true := Parts.wellFormed_node hparts he
    refine ⟨readExpr_outline hwell, ?_, fun fuel => (Eval.sound_eval hparts.functions fuel).expr hwell⟩
    rintro span function args rfl
    exact hwell.1
  · intro s hs
    have hwell : s.WellFormed _ true := Parts.wellFormed_node hparts hs
    exact ⟨readStmt_outline hwell, fun fuel => (Eval.sound_eval hparts.functions fuel).stmt hwell⟩
  · exact fun fuel i world world' f _ hrun => runProgram_ordinary hrun

/-- A program with a call that leaves a parameter out, an update of an element and a redirection. -/
def callSource : Text := "function f(a, b) \x7b return a + b \x7d\nBEGIN \x7b x[1] ^= f(2); print x[1] > \"out\" \x7d".toList

theorem accepted_program_sound_call :
    ∃ p p' s, parseProgram callSource = .ok p ∧ p.prune = .ok p' ∧ (Parts.ofItems p'.items).functions.length = 1 ∧
      (Parts.ofItems p'.items).begins = [s] ∧ Outline.readProgram p'.outline = .ok p' ∧
      ∀ fuel, Sound (Parts.ofItems p'.items).functions Eval.anyJump (Eval.stmt fuel s) := by
  have hcounts : ((loadProgram callSource).map fun parts => (parts.functions.length, parts.begins.length)).toOption =
      some (1, 1) := by
    decide +kernel
  obtain ⟨parts, hload⟩ : ∃ parts, loadProgram callSource = .ok parts := by
    revert hcounts
    cases loadProgram callSource with
    | error e =>
      intro hnone
      cases hnone
    | ok parts => exact fun _ => ⟨parts, rfl⟩
  rw [hload] at hcounts
  obtain ⟨hfunctions, hbegins⟩ := Prod.mk.inj (Option.some.inj hcounts)
  obtain ⟨p, p', hparse, hprune, rfl⟩ := exists_of_loadProgram hload
  obtain ⟨s, hs⟩ := List.length_eq_one_iff.1 hbegins
  obtain ⟨hread, -, hstmts, -⟩ := accepted_program_sound hparse hprune
  have hnode : (Parts.ofItems p'.items).Contains (.stmt s) := .begin (by rw [hs]; exact List.mem_singleton_self s)
  exact ⟨p, p', s, hparse, hprune, hfunctions, hs, hread, (hstmts s hnode).2⟩

end Awk
