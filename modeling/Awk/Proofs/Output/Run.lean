import Awk.Proofs.Closing
import Awk.Proofs.Output.Content
import Awk.Proofs.Output.Trace

/-!
# Output of whole runs

A run of a program text does the events of its parts, and closes all streams at the end (`RunPerforms`).  Each run has
such a trace (`exists_runPerforms`), the world afterwards is that after the trace (`RunPerforms.world`), and no output
stream is left.  So what a run prints to a file is there in the end, however the run has ended (`output_kept`).
-/

namespace Awk

/-! ### Closing everything -/

namespace World

/-- Closing names one after the other gives no failure, and takes them off the streams. -/
theorem run_closeEach (names : List Text) (w : World) : ∃ w', (closeEach names).run w = (.ok (), w') ∧
    w' = w.performAll (names.map .close) ∧
    ∀ n o, w'.outputs.lookup n = some o → n ∉ names ∧ w.outputs.lookup n = some o := by
  induction names generalizing w with
  | nil => exact ⟨w, rfl, rfl, fun n o h => ⟨List.not_mem_nil, h⟩⟩
  | cons name names ih =>
    obtain ⟨status, w₁, hclose, houtputs, -⟩ := run_close name w
    obtain ⟨w', hrest, hw', hopen⟩ := ih w₁
    refine ⟨w', ?_, ?_, fun n o h => ?_⟩
    · rw [closeEach, Action.run_bind, hclose]
      exact hrest
    · rw [List.map_cons, performAll, List.foldl_cons, Event.perform, hclose]
      exact hw'
    · obtain ⟨hn, hlookup⟩ := hopen n o h
      -- The first name has no stream any more, and the others keep theirs.
      rw [houtputs, lookup_dropStream] at hlookup
      split at hlookup
      · cases hlookup
      · rename_i hne
        exact ⟨fun hmem => (List.mem_cons.1 hmem).elim hne hn, hlookup⟩

/-- Closing all streams is one event after the other, and leaves no output stream. -/
theorem run_closeAll (w : World) : (closeAll.run w).2 = w.performAll w.closing ∧
    ∀ n, (w.performAll w.closing).outputs.lookup n = none := by
  -- Which inputs there are is asked only when the outputs have been closed.
  obtain ⟨w₁, houtputs, hw₁, hopen₁⟩ := run_closeEach (w.outputs.map Prod.fst) w
  obtain ⟨w₂, hinputs, hw₂, hopen₂⟩ := run_closeEach (w₁.inputs.map Prod.fst) w₁
  have hclosing : w.closing =
      (w.outputs.map Prod.fst).map .close ++ (w₁.inputs.map Prod.fst).map .close ++ [.flushStandard] := by
    rw [closing, List.map_map, List.map_map, hw₁, List.map_map]
    rfl
  have hperform : w.performAll w.closing = (flushStandard.run w₂).2 := by
    rw [hclosing, performAll_append, performAll_append, ← hw₁, ← hw₂]
    rfl
  refine ⟨?_, fun n => ?_⟩
  · rw [hperform]
    unfold closeAll
    rw [Action.run_bind, Action.run_get]
    dsimp only
    rw [Action.run_bind, houtputs]
    dsimp only
    rw [Action.run_bind, Action.run_get]
    dsimp only
    rw [Action.run_bind, hinputs]
  · rw [hperform]
    change w₂.outputs.lookup n = none
    cases hlookup : w₂.outputs.lookup n with
    | none => rfl
    | some o =>
      obtain ⟨-, hlookup₁⟩ := hopen₂ n o hlookup
      obtain ⟨hn, hlookup₀⟩ := hopen₁ n o hlookup₁
      exact absurd (mem_names_of_lookup hlookup₀) hn

end World

/-! ### Whole runs -/

/-- The events that a run of a program text does in the world, in their order: nothing if the program is not accepted or
its options are not, otherwise what its parts do, however they end, and then the closing of all streams. -/
inductive RunPerforms (fuel : Nat) (i : Invocation) (world : World) : List World.Event → Prop
  | refused {e : LoadError} (hload : loadProgram i.source = .error e) : RunPerforms fuel i world []
  | misused {parts : Parts} {r : Except Interruption (Except UsageError Unit)} {m : Machine}
    (hload : loadProgram i.source = .ok parts)
    (hoptions : (Eval.applyOptions i.fieldSep i.assignments).run
      (.start world parts.functions world.environment (programName :: i.operands)) = (r, m))
    (hr : r ≠ .ok (.ok ())) : RunPerforms fuel i world []
  | ran {parts : Parts} {m : Machine} {events : List World.Event} (hload : loadProgram i.source = .ok parts)
    (hoptions : (Eval.applyOptions i.fieldSep i.assignments).run
      (.start world parts.functions world.environment (programName :: i.operands)) = (.ok (.ok ()), m))
    (hparts : Eval.Performs (Eval.runParts fuel parts) m events) :
    RunPerforms fuel i world (events ++ ((Eval.runParts fuel parts).run m).2.world.closing)

variable {fuel : Nat} {i : Invocation} {world : World} {events : List World.Event}

/-- Every run has a trace. -/
theorem exists_runPerforms (fuel : Nat) (i : Invocation) (world : World) : ∃ events, RunPerforms fuel i world events := by
  cases hload : loadProgram i.source with
  | error e => exact ⟨[], .refused hload⟩
  | ok parts =>
    generalize hoptions : (Eval.applyOptions i.fieldSep i.assignments).run
      (.start world parts.functions world.environment (programName :: i.operands)) = options
    obtain ⟨r, m⟩ := options
    by_cases hr : r = .ok (.ok ())
    · subst hr
      obtain ⟨events, hevents⟩ := Eval.traced_runParts fuel parts m
      exact ⟨_, .ran hload hoptions hevents⟩
    · exact ⟨[], .misused hload hoptions hr⟩

/-- Options are assignments, which leave the world alone. -/
theorem world_applyOptions {r : Except Interruption (Except UsageError Unit)} {m m' : Machine}
    (h : (Eval.applyOptions i.fieldSep i.assignments).run m = (r, m')) : m'.world = m.world := by
  have hkept := ((Eval.storing_world m.world).applyOptions i.fieldSep i.assignments m rfl).1
  rwa [h] at hkept

theorem Machine.world_runParts (m : Machine) (fuel : Nat) (parts : Parts) :
    (m.runParts fuel parts).2.world = (World.closeAll.run ((Eval.runParts fuel parts).run m).2.world).2 := by
  unfold runParts
  generalize (Eval.runParts fuel parts).run m = ran
  obtain ⟨result, m'⟩ := ran
  dsimp only
  split <;> rfl

/-- The world after a run is that after its trace, and no output stream is left in it. -/
theorem RunPerforms.performAll (h : RunPerforms fuel i world events) : (runProgram fuel i world).2 = world.performAll events ∧
    (world.outputs = [] → ∀ n, (world.performAll events).outputs.lookup n = none) := by
  have hnothing : world.outputs = [] → ∀ n, (world.performAll []).outputs.lookup n = none := by
    intro hstart n
    change world.outputs.lookup n = none
    rw [hstart]
    rfl
  unfold runProgram
  cases h with
  | refused hload =>
    rw [hload]
    exact ⟨rfl, hnothing⟩
  | @misused parts r m hload hoptions hr =>
    refine ⟨?_, hnothing⟩
    rw [hload]
    dsimp only
    rw [hoptions]
    have hworld : m.world = world := world_applyOptions hoptions
    refine Eq.trans ?_ hworld
    rcases r with i | e | ⟨⟩
    · cases i <;> rfl
    · rfl
    · exact absurd rfl hr
  | @ran parts m events hload hoptions hparts =>
    -- The closing begins where the trace of the parts ends, however they have ended.
    have hworld : m.world = world := world_applyOptions hoptions
    obtain ⟨hclosing, hclosed⟩ := World.run_closeAll ((Eval.runParts fuel parts).run m).2.world
    have hperform : world.performAll (events ++ ((Eval.runParts fuel parts).run m).2.world.closing) =
        ((Eval.runParts fuel parts).run m).2.world.performAll ((Eval.runParts fuel parts).run m).2.world.closing := by
      rw [World.performAll_append, ← hworld, ← hparts.world]
    rw [hperform]
    refine ⟨?_, fun _ => hclosed⟩
    rw [hload]
    dsimp only
    rw [hoptions]
    dsimp only
    rw [← hclosing, ← m.world_runParts fuel parts]
    split <;> (rename_i hrun; rw [hrun])

/-- What a run prints to a file is there at the end, in order, however the run ends.  In the trace of a run a print
statement with a redirection follows its operands, as an output to the name that they give, and so does a call of `close`
as a closing of this name; if they fail, there is no output and no closing.  Each run has a trace, and the world is
afterwards what the trace makes of it.  For each name of an ordinary file that no other event writes to, the file has in
the end what the trace says: the first output to the name since the start, or since it was last closed, empties the file
or leaves it or is for a command, and all further output under the name goes the same way. -/
theorem output_kept :
    (∀ fuel m formatted items (r : Redirect) events,
        Eval.Performs (Eval.written fuel formatted items r.target) m events → ∀ span token,
          Eval.Performs (Eval.stmt (fuel + 1) (.print span token formatted items (some r))) m
            (events ++ ((Eval.written fuel formatted items r.target).run m).1.toOption.elim [] fun (t, name) =>
              [.redirect r.op name t])) ∧
      (∀ fuel m arg events, Eval.Performs (Eval.closed fuel arg) m events → ∀ span token,
          Eval.Performs (Eval.expr (fuel + 1) (.builtin span .close token [arg])) m
            (events ++ ((Eval.closed fuel arg).run m).1.toOption.elim [] fun name => [.close name])) ∧
      ∀ fuel i world, world.outputs = [] →
        (∃ events, RunPerforms fuel i world events) ∧
          ∀ events, RunPerforms fuel i world events → (runProgram fuel i world).2 = world.performAll events ∧
            ∀ name path, World.OutputName name → World.AllSpare name path world events →
              (runProgram fuel i world).2.files.text path = (World.tally name (world.files.text path) events).text := by
  refine ⟨fun fuel m formatted items r events => Eval.performs_print, fun fuel m arg events => Eval.performs_close,
    fun fuel i world hstart => ⟨exists_runPerforms fuel i world, fun events h => ?_⟩⟩
  obtain ⟨hworld, hclosed⟩ := h.performAll
  refine ⟨hworld, fun name path hname hspares => ?_⟩
  rw [hworld]
  exact World.content_of_events hname hstart hspares (hclosed hstart name)

/-! ### Programs of a few outputs -/

namespace Eval

variable {m : Machine}

/-- Printing a literal under the name of another has nothing to do with the world, up to the output itself. -/
theorem performs_written_literals (fuel : Nat) (v u : Value) (m : Machine) :
    Performs (written (fuel + 1) false [.literal v] (.literal u)) m [] := by
  refine .quiet (fun m => ?_) m
  have h := storing_world m.world
  have hliteral (v : Value) : Stays (fun m' => m'.world = m.world) (fun _ => True) (expr (fuel + 1) (.literal v)) :=
    fun _ hm => ⟨hm, trivial⟩
  have htexts (format : Text) : Stays (fun m' => m'.world = m.world) (fun _ => True)
      (textsOf (expr (fuel + 1)) format [.literal v]) :=
    (hliteral v).andThen fun _ => h.ofExcept.andThen fun _ => Yields.pure trivial
  have hprinted : Stays (fun m' => m'.world = m.world) (fun _ => True)
      (printed (expr (fuel + 1)) false [.literal v]) := by
    refine (h.setting _).andThen fun format => (htexts format).andThen fun _ => ?_
    exact (h.setting _).andThen fun _ => (h.setting _).andThen fun _ => Yields.pure trivial
  have hwritten : Stays (fun m' => m'.world = m.world) (fun _ => True) (written (fuel + 1) false [.literal v] (.literal u)) :=
    hprinted.andThen fun t => (hliteral u).andThen fun u => (h.textOf u).andThen fun name => Yields.pure trivial
  exact (hwritten m rfl).1

theorem performs_closed_literal (fuel : Nat) (v : Value) (m : Machine) :
    Performs (closed (fuel + 1) (.literal v)) m [] := by
  refine .quiet (fun m => ?_) m
  have h := storing_world m.world
  have hliteral : Stays (fun m' => m'.world = m.world) (fun _ => True) (expr (fuel + 1) (.literal v)) :=
    fun _ hm => ⟨hm, trivial⟩
  exact (hliteral.andThen h.textOf) m rfl |>.1

/-- The events of a statement that prints a literal under the name of another, or closes such a name. -/
def literalEvents (fuel : Nat) (m : Machine) : Stmt → Option (List World.Event)
  | .print _ _ false [.literal v] (some ⟨_, op, _, .literal u⟩) =>
    some (((written (fuel + 2) false [.literal v] (.literal u)).run m).1.toOption.elim [] fun (t, name) =>
      [.redirect op name t])
  | .expr _ (.builtin _ .close _ [.literal u]) =>
    some (((closed (fuel + 1) (.literal u)).run m).1.toOption.elim [] fun name => [.close name])
  | _ => none

theorem performs_of_literalEvents {fuel : Nat} {s : Stmt} {events : List World.Event}
    (h : literalEvents fuel m s = some events) : Performs (stmt (fuel + 3) s) m events := by
  unfold literalEvents at h
  split at h
  · rename_i span token v span' op token' u
    cases h
    have hwritten : Performs (written (fuel + 2) false [.literal v] (Redirect.target ⟨span', op, token', .literal u⟩)) m
        [] := performs_written_literals (fuel + 1) v u m
    exact performs_print hwritten span token
  · cases h
    exact ((performs_close (performs_closed_literal fuel _ m) _ _).andQuiet fun _ _ => rfl).located _
  · cases h

/-- The events of such statements, one after the other, up to the first one that is interrupted. -/
def sequenceEvents (fuel : Nat) : Machine → List Stmt → Option (List World.Event)
  | _, [] => some []
  | m, s :: body => do
    let events ← literalEvents fuel m s
    match (stmt (fuel + 3) s).run m with
    | (.ok (), m) => return events ++ (← sequenceEvents fuel m body)
    | (.error _, _) => return events

theorem performs_of_sequenceEvents {fuel : Nat} {body : List Stmt} {events : List World.Event}
    (h : sequenceEvents fuel m body = some events) : Performs (sequence (stmt (fuel + 3)) body) m events := by
  induction body generalizing m events with
  | nil =>
    cases h
    exact .quiet (fun _ => rfl) m
  | cons s body ih =>
    obtain ⟨first, hfirst, h⟩ := Option.bind_eq_some_iff.1 h
    have hperforms := performs_of_literalEvents hfirst
    generalize hrun : (stmt (fuel + 3) s).run m = ran at h
    obtain ⟨i | ⟨⟩, m'⟩ := ran
    · cases h
      exact .stopped hperforms hrun
    · obtain ⟨rest, hrest, h⟩ := Option.bind_eq_some_iff.1 h
      cases h
      exact .andThen hperforms hrun (ih hrest)

/-- A program with nothing but a `BEGIN` action does what this does. -/
theorem performs_runParts {fuel : Nat} {parts : Parts} {span : Span} {body : List Stmt} {events : List World.Event}
    (hbegins : parts.begins = [.block span body]) (hneeds : parts.needsInput = false) (hends : parts.ends = [])
    (h : Performs (sequence (stmt fuel) body) m events) : Performs (runParts (fuel + 1) parts) m events := by
  have hbegin : Performs (runOutsideRecords (fuel + 1) "BEGIN" parts.begins) m events := by
    rw [hbegins]
    refine ((h.located _).andQuiet fun _ _ => rfl).catching.andQuiet fun outcome m => ?_
    split <;> rfl
  have hbefore : Performs (do
      runOutsideRecords (fuel + 1) "BEGIN" parts.begins
      if parts.needsInput then runRecords parts.rules (fuel + 1)) m events := by
    refine hbegin.andQuiet fun _ _ => ?_
    rw [hneeds]
    rfl
  refine Performs.andQuiet (hbefore.catching.andQuiet fun outcome m => ?_) fun _ m => ?_
  · split <;> rfl
  · rw [hends]
    rfl

end Eval

/-- The trace of a program with nothing but a `BEGIN` action of such statements. -/
def literalTrace (fuel : Nat) (i : Invocation) (world : World) : Option (List World.Event) :=
  match loadProgram i.source with
  | .ok ⟨[.block _ body], [], [], functions⟩ =>
    match (Eval.applyOptions i.fieldSep i.assignments).run
      (.start world functions world.environment (programName :: i.operands)) with
    | (.ok (.ok ()), m) => do
      let events ← Eval.sequenceEvents fuel m body
      return events ++ ((Eval.sequence (Eval.stmt (fuel + 3)) body).run m).2.world.closing
    | _ => none
  | _ => none

theorem runPerforms_of_literalTrace (h : literalTrace fuel i world = some events) :
    RunPerforms (fuel + 4) i world events := by
  unfold literalTrace at h
  split at h
  · rename_i span body functions hload
    split at h
    · rename_i m hoptions
      obtain ⟨first, hfirst, h⟩ := Option.bind_eq_some_iff.1 h
      cases h
      have hbody := Eval.performs_of_sequenceEvents hfirst
      have hparts : Eval.Performs (Eval.runParts (fuel + 4) ⟨[.block span body], [], [], functions⟩) m first :=
        Eval.performs_runParts rfl rfl rfl hbody
      have hworld : ((Eval.runParts (fuel + 4) ⟨[.block span body], [], [], functions⟩).run m).2.world =
          ((Eval.sequence (Eval.stmt (fuel + 3)) body).run m).2.world := hparts.world.trans hbody.world.symm
      rw [← hworld]
      exact .ran hload hoptions hparts
    · cases h
  · cases h

/-! ### One file, opened twice -/

/-- Writes to one file with different operators, closes it once, and fails then. -/
def reopeningInvocation : Invocation :=
  ⟨("BEGIN \x7b print \"a\" > \"f\"; print \"b\" >> \"f\"; close(\"f\"); " ++
    "print \"c\" >> \"f\"; print \"d\" > \"f\"; print \"e\" > \"\" \x7d").toList, [], [], none⟩

def reopeningEvents : List World.Event :=
  [.redirect .write "f".toList "a\n".toList, .redirect .append "f".toList "b\n".toList, .close "f".toList,
    .redirect .append "f".toList "c\n".toList, .redirect .write "f".toList "d\n".toList,
    .redirect .write "".toList "e\n".toList, .close "f".toList, .flushStandard]

def oldFileWorld : World := .start (.ofList [("f".toList, "old".toList)]) [] [] 0

/-- What the file had is gone, and all that was printed to it is there, although the run has failed. -/
theorem output_kept_reopening :
    let start := Machine.start oldFileWorld [] [] []
    let target : Expr := .literal (.str ['f'])
    let place : Span := ⟨1, 1, 0, 1⟩
    let redirect : Redirect := ⟨place, .write, ⟨.gt, [], place⟩, target⟩
    let printing : Stmt := .print place ⟨.print, [], place⟩ false [.literal (.str ['a'])] (some redirect)
    let path := Files.pathOf oldFileWorld.files.home ['f']
    Eval.Performs (Eval.stmt 2 printing) start [.redirect .write ['f'] ['a', '\n']] ∧
      Eval.Performs (Eval.expr 2 (.builtin place .close ⟨.builtin .close, [], place⟩ [target])) start [.close ['f']] ∧
      oldFileWorld.outputs = [] ∧ RunPerforms 100 reopeningInvocation oldFileWorld reopeningEvents ∧
      World.OutputName ['f'] ∧ World.AllSpare ['f'] path oldFileWorld reopeningEvents ∧
      (runProgram 100 reopeningInvocation oldFileWorld).1.toOption = none ∧
      (runProgram 100 reopeningInvocation oldFileWorld).2.files.text path = "a\nb\nc\nd\n".toList := by
  intro start target place redirect printing path
  obtain ⟨hprint, hclose, hrun⟩ := output_kept
  have htrace : literalTrace 96 reopeningInvocation oldFileWorld = some reopeningEvents := by decide +kernel
  have hperforms := runPerforms_of_literalTrace htrace
  have hname : World.OutputName ['f'] := ⟨by decide, by decide, by decide⟩
  have hspares : World.AllSpare ['f'] path oldFileWorld reopeningEvents := by decide +kernel
  have htally : (World.tally ['f'] (oldFileWorld.files.text path) reopeningEvents).text = "a\nb\nc\nd\n".toList := by
    decide +kernel
  refine ⟨?_, ?_, rfl, hperforms, hname, hspares, by decide +kernel, ?_⟩
  · exact hprint 1 start false _ redirect [] (Eval.performs_written_literals 0 (.str ['a']) (.str ['f']) start) _ _
  · exact hclose 1 start target [] (Eval.performs_closed_literal 0 (.str ['f']) start) _ _
  · exact (((hrun 100 reopeningInvocation oldFileWorld rfl).2 _ hperforms).2 _ _ hname hspares).trans htally

/-! ### One name for a file and for a command -/

/-- The event is no output to a command. -/
def World.Event.leavesCommands : Event → Bool
  | .redirect .pipe _ _ => false
  | _ => true

def pipedFirstInvocation : Invocation :=
  ⟨"BEGIN \x7b print \"x\" | \"cat\"; print \"y\" > \"cat\" \x7d".toList, [], [], none⟩

def pipedFirstEvents : List World.Event :=
  [.redirect .pipe "cat".toList "x\n".toList, .redirect .write "cat".toList "y\n".toList, .close "cat".toList,
    .flushStandard]

/-- Output to a command cannot be left out of account: under the name of a running command there is no file. -/
theorem command_takes_output : ¬∀ fuel i world events name path, world.outputs = [] →
    RunPerforms fuel i world events → World.OutputName name →
    World.AllSpare name path world events → (runProgram fuel i world).2.files.text path =
      (World.tally name (world.files.text path) (events.filter World.Event.leavesCommands)).text := by
  intro h
  have htrace : literalTrace 96 pipedFirstInvocation (.start .empty [] [] 0) = some pipedFirstEvents := by decide +kernel
  have htext := h 100 pipedFirstInvocation (.start .empty [] [] 0) pipedFirstEvents "cat".toList
    (Files.pathOf Files.empty.home "cat".toList) rfl (runPerforms_of_literalTrace htrace)
    ⟨by decide, by decide, by decide⟩ (by decide +kernel)
  exact absurd htext (by decide +kernel)

end Awk
