import Awk.Proofs.Machine.Course
import Awk.Proofs.Machine.Kinds
import Awk.Proofs.MainInput.Records

/-!
# The main input of whole runs

A program that only takes what it is given (`Parts.Plain`) gets the records of the main input in the order of its words.
A run that gives a status does the `BEGIN` actions, then the turns of the words, then the `END` actions
(`Course.plain`), and the turns deliver what the words name (`main_input_in_order`).
-/

namespace Awk

namespace Eval

variable {fuel n : Nat} {parts : Parts} {m m' : Machine}

/-! ### The course of a plain program -/

/-- The functions are those of the program, and no exit has given a code. -/
structure Remains (functions : List Function) (m : Machine) : Prop where
  functions : m.functions = functions
  exitCode : m.exitCode = none

theorem Remains.same {functions : List Function} (h : Remains functions m) : { m with exitCode := none } = m := by
  rw [← h.exitCode]

theorem feeding_remains {functions : List Function} : Feeding LeavesNothing (Remains functions) where
  store _ h := ⟨h.functions, h.exitCode⟩
  record _ h := ⟨h.functions, h.exitCode⟩
  random _ h := ⟨h.functions, h.exitCode⟩
  world _ _ h := ⟨h.functions, h.exitCode⟩
  failure _ := ⟨nofun, nofun⟩
  exhausted := ⟨nofun, nofun⟩
  input _ h := ⟨h.functions, h.exitCode⟩
  missed h := ⟨h.functions, h.exitCode⟩
  fetched _ _ h := ⟨h.functions, h.exitCode⟩

/-- A plain program does not leave the run. -/
theorem invariant_remains (hplain : parts.Plain) :
    Invariant parts.functions Node.Plain LeavesNothing (Remains parts.functions) :=
  feeding_remains.toOutlasting.invariant id hplain (fun _ _ _ h => ⟨h.functions, h.exitCode⟩) fun h => h.functions

theorem remains_runRecords (hplain : parts.Plain) (fuel : Nat) :
    Stays (Remains parts.functions) LeavesNothing (runRecords parts.rules fuel) :=
  (invariant_remains hplain).runRecords (fun _ h => ⟨h.functions, h.exitCode⟩) feeding_remains
    (fun _ hr _ hs _ he => Node.all_of_contains hplain (.selector hr hs he))
    (fun _ hr _ hs => Node.all_of_contains hplain (.action hr hs)) fuel

theorem InOrder.stays {inv : Machine → Prop} {allowed : Interruption → Prop} {run : Stmt → Eval Unit}
    {body started : List Stmt} {r : Except Interruption Unit} (h : InOrder run body m started r m')
    (hbody : ∀ s ∈ body, Stays inv allowed (run s)) (hm : inv m) : inv m' ∧ Outcome allowed (fun _ => True) r := by
  induction h with
  | done => exact ⟨hm, trivial⟩
  | next hrun hrest ih =>
    obtain ⟨hfirst, hbody⟩ := List.forall_mem_cons.1 hbody
    have hkept := (hfirst _ hm).1
    rw [hrun] at hkept
    exact ih hbody hkept
  | last hrun =>
    have hkept := (List.forall_mem_cons.1 hbody).1 _ hm
    rw [hrun] at hkept
    exact hkept

/-- A part of the run that nothing leaves has come to its end, if it has not failed. -/
theorem ok_of_exitCode? {r : Except Interruption Unit} {code : Option Nat}
    (hout : Outcome LeavesNothing (fun _ => True) r) (hcode : exitCode? r = some code) : r = .ok () ∧ code = none := by
  cases r with
  | ok u =>
    cases hcode
    exact ⟨rfl, rfl⟩
  | error i =>
    cases i with
    | exit code => exact absurd rfl (hout.2 code)
    | _ => cases hcode

/-- A plain program that gives a status has gone through its `BEGIN` actions, the records and its `END` actions to their
ends. -/
theorem Course.plain (h : Course fuel parts m (.status n) m') (hplain : parts.Plain) (hneeds : parts.needsInput = true)
    (hm : Remains parts.functions m) : ∃ m₀ m₁, InOrder (stmt fuel) parts.begins m parts.begins (.ok ()) m₀ ∧
      (runRecords parts.rules fuel).run m₀ = (.ok (), m₁) ∧
      InOrder (stmt fuel) parts.ends m₁ parts.ends (.ok ()) m' ∧ n = if m'.inputFailed then 2 else 0 := by
  have hactions {actions : List Stmt} (hcontains : ∀ s ∈ actions, parts.Contains (.stmt s)) :
      ∀ s ∈ actions, Stays (Remains parts.functions) LeavesNothing (stmt fuel s) := fun s hs =>
    ((invariant_remains hplain).eval fuel).stmt (Node.all_of_contains hplain (hcontains s hs))
  have hbegins := hactions fun s hs => .begin hs
  have hends := hactions fun s hs => .end hs
  cases h with
  | @stopped i _ _ _ hstop => cases i <;> cases hstop
  | @stoppedInEnd _ _ _ _ i _ _ _ _ _ hstop => cases i <;> cases hstop
  | @ended r code m₁ started r' code' m₂ hbefore hcode hend hcode' =>
    obtain ⟨m₀, hbegin, hrecords, rfl, rfl, hm₁⟩ : ∃ m₀,
        InOrder (stmt fuel) parts.begins m parts.begins (.ok ()) m₀ ∧
        (runRecords parts.rules fuel).run m₀ = (.ok (), m₁) ∧ r = .ok () ∧ code = none ∧
        Remains parts.functions m₁ := by
      cases hbefore with
      | interrupted hbegin =>
        obtain ⟨hm₁, hout⟩ := hbegin.stays hbegins hm
        rw [exitCode?_outsideRecords] at hcode
        cases (ok_of_exitCode? hout hcode).1
      | noInput hbegin hinput =>
        obtain ⟨hrules, hends⟩ := hinput
        simp [Parts.needsInput, hrules, hends] at hneeds
      | @records m₀ _ _ hbegin hinput hrecords =>
        obtain ⟨hm₁, hout⟩ := remains_runRecords hplain fuel m₀ (hbegin.stays hbegins hm).1
        rw [hrecords] at hm₁ hout
        obtain ⟨rfl, rfl⟩ := ok_of_exitCode? hout hcode
        exact ⟨m₀, hbegin, hrecords, rfl, rfl, hm₁⟩
    rw [hm₁.same] at hend
    obtain ⟨hm₂, hout⟩ := hend.stays hends hm₁
    obtain ⟨rfl, rfl⟩ := ok_of_exitCode? hout hcode'
    obtain rfl := hend.started_prefix.2 rfl
    have hlast : { m₂ with exitCode := none <|> none } = m₂ := hm₂.same
    refine ⟨m₀, m₁, hbegin, hrecords, ?_, rfl⟩
    rw [hlast]
    exact hend

/-! ### What is delivered -/

/-- What the turns of the words in a state deliver, and in which state they end. -/
structure Delivers (rules : List Rule) (m : Machine) (turns : List Turn) (m' : Machine) : Prop where
  /-- Each word has one turn, in their order, and the turn is what the word says; the standard input has one if no word
  names a file. -/
  order : Turn.Matches false (m.wordsFrom 1) turns
  /-- The rules are run on each record that has been read, with the separator in force when it was asked for. -/
  found : ∀ round ∈ roundsOf none turns, round.asked.separator = .ok round.separator ∧
    round.found.record.text = round.record ∧ RulesRun rules round.found round.left
  /-- The records of all files are counted. -/
  overall : ∀ j round, (roundsOf none turns)[j]? = some round →
    round.found.number "NR" = (fun n : Number => n.add .one)^[j + 1] (m.number "NR")
  /-- A file that is opened can be read.  Its records are counted anew, under its name; they are what a stream on this
  file alone answers, and, unless the file is changed while it is read, those of its text. -/
  read : ∀ name opened s, .read name opened s ∈ turns → s.Counted name ∧
    ∃ origin t, opened.world.originOf? name = some origin ∧ opened.world.textUnder? name = some t ∧
      (Input.ofOrigin origin).answers s.asks = s.results ∧ (s.Spares opened.world name → s.Gives t)
  /-- A file that is passed over cannot be read. -/
  missed : ∀ name asked, .missed name asked ∈ turns → asked.world.textUnder? name = none
  /-- An assignment is in force when the next word has its turn, or the `END` actions have it. -/
  assigned : ∀ before name value made after, turns = before ++ .assigned name value made :: after →
    (name ≠ fieldCountName → made.store.global? name = some (.strnum (decodeEscapes value))) ∧
      Turns rules made none after m'
  /-- If no word names a file, the standard input has a turn, once and after all words, and is still what it was then.
  Its records are what a stream on it alone answers, and, unless the rules take from it, those of its text. -/
  standard : turns.any Turn.isFile = false → ∃ before opened s, turns = before ++ [.standard opened s] ∧
    (∀ opened s, .standard opened s ∉ before) ∧ opened.world.input = m.world.input ∧ s.Counted [] ∧
    (Input.ofOrigin .standard).answers s.asks = s.results ∧ (LeavesInput s.rounds → s.Gives m.world.input.unread)
  /-- If a word does, it has none, and only the rules take from it, unless a file that is opened is the standard
  input. -/
  unread : turns.any Turn.isFile = true → (∀ opened s, .standard opened s ∉ turns) ∧
    ((∀ name opened s, .read name opened s ∈ turns → opened.world.originOf? name ≠ some .standard) →
      Passes m.world.input (roundsOf none turns) m'.world.input)

/-- While the main loop goes from one word to the next, it delivers the words' records. -/
theorem Turns.delivers {rules : List Rule} {turns : List Turn} (h : Turns rules m none turns m')
    (hbegun : m.mainInput = ⟨1, none, false, false⟩) (hwords : ∀ v ∈ m.wordsFrom 1, Harmless v)
    (huntouched : Untouched (roundsOf none turns)) : Delivers rules m turns m' := by
  have hidle : m.mainInput.current = none := by rw [hbegun]
  obtain ⟨hmatches, hnames⟩ : Ordered m m turns := by
    refine h.ordered ⟨rfl, fun _ => rfl⟩ (fun v hv => ?_) huntouched
    rw [hbegun] at hv
    exact hwords v hv
  rw [hbegun] at hmatches
  have hrounds {s : Stay} (hs : ∀ round ∈ s.rounds, round ∈ turns.flatMap Turn.rounds) : Untouched s.rounds :=
    fun round hround => huntouched round (hs round hround)
  have hstandard := hmatches.standard
  rw [Bool.false_or] at hstandard
  refine ⟨hmatches, fun round => h.found, h.overall huntouched hnames, fun name opened s hmem => ?_,
    fun name asked => h.missed_of_mem, ?_, fun hfile => ?_, fun hfile => ?_⟩
  · exact h.read_of_mem hmem (hrounds fun round hround => List.mem_flatMap.2 ⟨_, hmem, hround⟩)
  · rintro before name value made after rfl
    exact h.assigned_of_mem
  · rw [if_neg (by rw [hfile]; exact Bool.false_ne_true)] at hstandard
    obtain ⟨before, opened, s, rfl, hbefore⟩ := hstandard
    have hmem : Turn.standard opened s ∈ before ++ [.standard opened s] := List.mem_concat_self
    refine ⟨before, opened, s, rfl, hbefore, h.standard_of_mem hidle (fun turn hturn => ?_) ?_⟩
    · -- No file has been named, so before the standard input there are only assignments.
      have hword := List.any_eq_false.1 hfile turn (List.mem_append_left _ hturn)
      cases turn with
      | standard opened s => exact absurd hturn (hbefore opened s)
      | missed => exact absurd rfl hword
      | read => exact absurd rfl hword
      | _ => exact ⟨id, rfl⟩
    · exact hrounds fun round hround => List.mem_flatMap.2 ⟨_, hmem, hround⟩
  · rw [if_pos hfile] at hstandard
    refine ⟨hstandard, fun hread => h.passes hidle fun turn hturn htakes => ?_⟩
    cases turn with
    | read name opened s => exact hread name opened s hturn htakes
    | standard opened s => exact hstandard opened s hturn
    | _ => exact htakes

end Eval

/-- At the start nothing has been counted. -/
theorem Machine.number_start (world : World) (functions : List Function) (environment : List (Text × Text))
    (words : List Text) : (start world functions environment words).number "NR" = .zero := by
  have hzero : (Value.ofInt 0).toNumber = .zero := by decide +kernel
  have hpredefined : predefined.lookup "NR".toList = some (.scalar (.ofInt 0)) := rfl
  have hlookup : (start world functions environment words).store.globals.lookup "NR".toList =
      some (.scalar (.ofInt 0)) := by
    refine (lookup_start world functions environment words ⟨.globals, "NR".toList⟩).trans ?_
    rw [if_neg (by decide), if_neg (by decide), if_neg (by decide)]
    exact hpredefined
  unfold number Store.global?
  rw [hlookup]
  dsimp only [Option.elim]
  rw [hzero]

/-- A plain program that gives a status goes through its `BEGIN` actions, the turns of the words, and its `END`
actions. -/
theorem Machine.turns_of_runParts {parts : Parts} (hwell : parts.WellFormed (Accepted parts.functions))
    (hconfined : parts.Confined) (hplain : parts.Plain) (hneeds : parts.needsInput = true) {m last : Machine}
    (hm : Eval.Remains parts.functions m) (hbegun : m.mainInput = ⟨1, none, false, false⟩)
    (hfailed : m.inputFailed = false) {fuel n : Nat} (h : m.runParts fuel parts = (.status n, last)) :
    ∃ m₀ m₁ m₂ turns, Eval.InOrder (Eval.stmt fuel) parts.begins m parts.begins (.ok ()) m₀ ∧ m.SameFeed m₀ ∧
      Eval.Turns parts.rules m₀ none turns m₁ ∧
      Eval.InOrder (Eval.stmt fuel) parts.ends m₁ parts.ends (.ok ()) m₂ ∧ last = m₂.closeAll ∧
      n = if turns.any Turn.isMissed then 2 else 0 := by
  have hcourse := Eval.course_of_runParts hwell hconfined hm.functions hm.exitCode fuel
  have hlast := m.runParts_snd fuel parts
  rw [h] at hcourse hlast
  obtain ⟨m₀, m₁, hbegins, hrecords, hends, hstatus⟩ := hcourse.plain hplain hneeds hm
  have hactions {before : Machine} (hbefore : before.functions = parts.functions) {actions : List Stmt}
      (hcontains : ∀ s ∈ actions, parts.Contains (.stmt s)) :
      ∀ s ∈ actions, Eval.Stays before.SameFeed Eval.LeavesNothing (Eval.stmt fuel s) := fun s hs =>
    ((Eval.invariant_sameFeed hplain hbefore).eval fuel).stmt (Node.all_of_contains hplain (hcontains s hs))
  have hfeed := (hbegins.stays (hactions hm.functions fun s hs => .begin hs) (.refl m)).1
  have hinput : m₀.mainInput = ⟨1, none, false, false⟩ := hfeed.mainInput.trans hbegun
  have hready : Eval.Ready parts.functions m₀ := ⟨hfeed.functions.trans hm.functions, by rw [hinput]⟩
  have hrules (fuel : Nat) (found : Machine) (hfound : found.functions = parts.functions) :=
    Eval.sameFeed_runRules hplain hfound fuel
  obtain ⟨stay, turns, hturns⟩ := Eval.turns_of_runRecords hrules hready hrecords
  obtain rfl := hturns.idle (by rw [hinput])
  have hm₁ : m₁.functions = parts.functions := by
    have hkept := (Eval.remains_runRecords hplain fuel m₀ ⟨hready.functions, hfeed.exitCode.trans hm.exitCode⟩).1
    rw [hrecords] at hkept
    exact hkept.functions
  have hmissed := (hends.stays (hactions hm₁ fun s hs => .end hs) (.refl m₁)).1.inputFailed
  rw [hturns.inputFailed, hfeed.inputFailed, hfailed, Bool.false_or] at hmissed
  refine ⟨m₀, m₁, _, turns, hbegins, hfeed, hturns, hends, hlast, ?_⟩
  rw [hstatus, hmissed]

/-- If no command takes from the standard input, neither the `BEGIN` actions nor the rules do. -/
theorem Machine.leavesInput {parts : Parts} (hplain : parts.Plain) {m m₀ m₁ : Machine} {turns : List Turn} {fuel : Nat}
    (hm : m.functions = parts.functions) (hshell : parts.SharesInput → m.world.shell.SparesInput)
    (hbegins : Eval.InOrder (Eval.stmt fuel) parts.begins m parts.begins (.ok ()) m₀) (hfeed : m.SameFeed m₀)
    (hturns : Eval.Turns parts.rules m₀ none turns m₁) :
    m₀.world.input = m.world.input ∧ LeavesInput (Eval.roundsOf none turns) := by
  have hnodes := hplain.takesNothing hshell
  have hactions : ∀ s ∈ parts.begins, Eval.Stays m.SameInput Eval.LeavesNothing (Eval.stmt fuel s) := fun s hs =>
    ((Eval.invariant_sameInput hplain hshell hm).eval fuel).stmt (Node.all_of_contains hnodes (.begin hs))
  refine ⟨(hbegins.stays hactions (.refl m)).1.world.input, fun round hround => ?_⟩
  · obtain ⟨-, -, fuel, hrun⟩ := hturns.found hround
    have hplace := hfeed.toSamePlace.trans (hturns.samePlace hround)
    -- The rules are run under the shell that the run has begun with.
    rw [← hplace.world.shell] at hshell
    have hrules := (Eval.invariant_sameInput hplain hshell (hplace.functions.trans hm)).runAllRules
      (hplain.takesNothing hshell) (fun _ h => ⟨h.functions, h.world⟩) fuel
    have hkept := (hrules round.found (.refl _)).1.world.input
    rcases hrun with hrun | hrun <;> (rw [hrun] at hkept; exact hkept)

/-- The main input delivers the records of the words in their order.  A run of a plain program, with a rule or an `END`
action, that gives a status goes through the options, the `BEGIN` actions, the turns of the words and the `END` actions.
The status tells whether some file could not be opened.  If neither the words nor the rules touch what the main loop
relies on, then the turns are those of the words in their order, and they deliver what the words name
(`Eval.Delivers`).  The program takes nothing from the standard input, unless it runs commands that do. -/
theorem main_input_in_order {i : Invocation} {parts : Parts} (hload : loadProgram i.source = .ok parts)
    (hplain : parts.Plain) (hneeds : parts.needsInput = true) {fuel n : Nat} {world world' : World}
    (hrun : runProgram fuel i world = (.ok n, world')) :
    ∃ start m m₀ m₁ m₂ turns,
      start = Machine.start world parts.functions world.environment (programName :: i.operands) ∧
      (Eval.applyOptions i.fieldSep i.assignments).run start = (.ok (.ok ()), m) ∧
      Eval.InOrder (Eval.stmt fuel) parts.begins m parts.begins (.ok ()) m₀ ∧
      Eval.Turns parts.rules m₀ none turns m₁ ∧
      Eval.InOrder (Eval.stmt fuel) parts.ends m₁ parts.ends (.ok ()) m₂ ∧ world' = m₂.closeAll.world ∧
      n = (if turns.any Turn.isMissed then 2 else 0) ∧
      ((∀ v ∈ m₀.wordsFrom 1, Eval.Harmless v) → Eval.Untouched (Eval.roundsOf none turns) →
        Eval.Delivers parts.rules m₀ turns m₁) ∧
      ((parts.SharesInput → world.shell.SparesInput) →
        m₀.world.input = world.input ∧ LeavesInput (Eval.roundsOf none turns)) ∧
      start.number "NR" = .zero ∧
      ∀ k ≤ 2 ^ 53, (fun x : Number => x.add .one)^[k] .zero = .ofNat k := by
  generalize hstart : Machine.start world parts.functions world.environment (programName :: i.operands) = start
  unfold runProgram at hrun
  rw [hload] at hrun
  dsimp only at hrun
  rw [hstart] at hrun
  split at hrun
  · cases hrun
  · cases hrun
  · cases hrun
  · rename_i m happlied
    have hoptions := (Eval.storing_sameFeed.applyOptions i.fieldSep i.assignments start (.refl start)).1
    rw [happlied] at hoptions
    have hbegun : start.mainInput = ⟨1, none, false, false⟩ ∧ start.inputFailed = false ∧ start.exitCode = none ∧
        start.functions = parts.functions ∧ start.world = world := by
      rw [← hstart]
      exact ⟨rfl, rfl, rfl, rfl, rfl⟩
    obtain ⟨hmain, hfailed, hcode, hfunctions, hworld⟩ := hbegun
    have hsame := ((Eval.storing_world start.world).applyOptions i.fieldSep i.assignments start rfl).1
    rw [happlied, hworld] at hsame
    generalize hfinal : m.runParts fuel parts = final at hrun
    obtain ⟨finish, last⟩ := final
    cases finish <;> cases hrun
    obtain ⟨m₀, m₁, m₂, turns, hbegins, hfeed, hturns, hends, hlast, hstatus⟩ :=
      Machine.turns_of_runParts (wellFormed_of_loadProgram hload) (confined_of_loadProgram hload) hplain hneeds
        ⟨hoptions.functions.trans hfunctions, hoptions.exitCode.trans hcode⟩ (hoptions.mainInput.trans hmain)
        (hoptions.inputFailed.trans hfailed) hfinal
    have hinput := hfeed.mainInput.trans (hoptions.mainInput.trans hmain)
    refine ⟨start, m, m₀, m₁, m₂, turns, rfl, happlied, hbegins, hturns, hends, by rw [hlast], hstatus,
      hturns.delivers hinput, fun hshell => ?_, ?_, fun k => Number.iterate_add_one⟩
    · rw [← hsame] at hshell ⊢
      exact Machine.leavesInput hplain (hoptions.functions.trans hfunctions) hshell hbegins hfeed hturns
    · rw [← hstart]
      exact Machine.number_start ..

/-! ### Printing two files -/

namespace Eval

/-- The text is that of a file, or of an assignment to a name that the main loop does not look at. -/
def isHarmless (t : Text) : Bool := (assignment? t).all fun (name, _) => Machine.watched.all (·.toList != name)

theorem harmless_of_texts {texts : List Text} (h : texts.all isHarmless = true) :
    ∀ v ∈ texts.map .strnum, Harmless v := by
  intro v hv format t' name value htext hassigned other hother
  obtain ⟨t, ht, rfl⟩ := List.mem_map.1 hv
  have hassignment := List.all_eq_true.1 h t ht
  cases htext
  rw [isHarmless, hassigned] at hassignment
  simpa using List.all_eq_true.1 hassignment other hother

/-- A rule that prints each record. -/
def printsAll : Rule → Bool
  | ⟨some (.single _ (.literal _)), none⟩ => true
  | _ => false

/-- The action leaves all variables alone. -/
abbrev KeepsStore {α : Type} (s : Store) (act : Eval α) : Prop := Stays (fun m => m.store = s) (fun _ => True) act

theorem keepsStore_runRules {rules : List Rule} (hrules : rules.all printsAll = true) (s : Store) (fuel rule : Nat) :
    KeepsStore s (runRules fuel rule rules) := by
  have happlies (v : Value) : KeepsStore s (holds (expr fuel) (.literal v)) := by
    have hliteral : KeepsStore s (expr fuel (.literal v)) := by
      cases fuel with
      | zero => exact Yields.throw trivial
      | succ fuel => exact fun m hm => ⟨hm, trivial⟩
    exact hliteral.andThen fun _ => Yields.pure trivial
  have hprint : KeepsStore s (runAction fuel none) := by
    have hsetting : KeepsStore s (setting "ORS") := fun m hm => by
      rw [show (setting "ORS").run m = (raised (m.scalars.setting "ORS" ['\n']), m) from run_ofExcept _ m]
      exact ⟨hm, by cases m.scalars.setting "ORS" ['\n'] <;> trivial⟩
    exact Stays.recordText.andThen fun _ => hsetting.andThen fun _ => fun m hm => ⟨hm, trivial⟩
  induction rules generalizing rule with
  | nil => exact Yields.pure trivial
  | cons r rules ih =>
    obtain ⟨hr, hrules⟩ := Bool.and_eq_true_iff.1 hrules
    obtain ⟨span, v, rfl⟩ : ∃ span v, r = ⟨some (.single span (.literal v)), none⟩ := by
      unfold printsAll at hr
      split at hr
      · exact ⟨_, _, rfl⟩
      · cases hr
    refine (happlies v).andThen fun b => ?_
    split
    · exact hprint.andThen fun _ => ih hrules _
    · exact ih hrules _

theorem sameWatch_of_printsAll {rules : List Rule} (hrules : rules.all printsAll = true) {found left : Machine}
    (h : RulesRun rules found left) : found.SameWatch left := by
  obtain ⟨fuel, hrun⟩ := h
  have hkept := (keepsStore_runRules hrules found.store fuel 0 found rfl).1
  rcases hrun with hrun | hrun <;> (rw [hrun] at hkept; exact .of_store hkept)

end Eval

/-- Prints all records and their number.  Of four operands two are files, one of them named from the root, one is missing
and one is an assignment. -/
def printingInvocation : Invocation :=
  ⟨"1; END \x7b print NR, v \x7d".toList, ["a", "v=1", "", "missing", "/tmp/b"].map String.toList, [], none⟩

def twoFilesWorld : World :=
  .start (.ofList [("a".toList, "x\ny\n".toList), ("/tmp/b".toList, "z".toList)]) [] "unread".toList 0

theorem main_input_in_order_printing : ∃ parts world' m₀ m₁ turns,
    loadProgram printingInvocation.source = .ok parts ∧ parts.Plain ∧ parts.needsInput = true ∧
      runProgram 100 printingInvocation twoFilesWorld = (.ok 2, world') ∧ world'.shown = "x\ny\nz\n3 1\n".toList ∧
      turns.any Turn.isMissed = true ∧ Eval.Delivers parts.rules m₀ turns m₁ := by
  have hparts : ((loadProgram printingInvocation.source).toOption.map fun p =>
      (p.roots.all (Node.plainWithin 4), p.rules.all Eval.printsAll, p.needsInput, p.begins.isEmpty,
        p.functions.isEmpty)) = some (true, true, true, true, true) := by
    decide +kernel
  have hstatus : (runProgram 100 printingInvocation twoFilesWorld).1.toOption = some 2 := by decide +kernel
  have hshown : (runProgram 100 printingInvocation twoFilesWorld).2.shown = "x\ny\nz\n3 1\n".toList := by decide +kernel
  generalize hrun : runProgram 100 printingInvocation twoFilesWorld = ended at hstatus hshown
  obtain ⟨result, world'⟩ := ended
  cases result with
  | error e => cases hstatus
  | ok n =>
    cases hstatus
    obtain ⟨parts, hload⟩ := exists_load_of_runProgram hrun
    rw [hload] at hparts
    simp only [Except.toOption, Option.map_some, Option.some.injEq, Prod.mk.injEq, List.isEmpty_iff] at hparts
    obtain ⟨hroots, hprints, hneeds, hbegins, hfunctions⟩ := hparts
    have hplain := Parts.plain_of_roots hroots
    obtain ⟨start, m, m₀, m₁, m₂, turns, rfl, happlied, hbegun, hturns, -, -, hmissed, hdelivers, -⟩ :=
      main_input_in_order hload hplain hneeds hrun
    cases happlied
    rw [hbegins] at hbegun
    cases hbegun
    have hwords : (Machine.start twoFilesWorld parts.functions twoFilesWorld.environment
        (programName :: printingInvocation.operands)).wordsFrom 1 = printingInvocation.operands.map .strnum := by
      rw [hfunctions]
      decide +kernel
    rw [hwords] at hdelivers
    refine ⟨parts, world', _, m₁, turns, hload, hplain, hneeds, rfl, hshown, ?_, hdelivers ?_ fun round hround => ?_⟩
    · by_contra hnone
      rw [if_neg hnone] at hmissed
      cases hmissed
    · exact Eval.harmless_of_texts (by decide +kernel)
    · exact Eval.sameWatch_of_printsAll hprints (hturns.found hround).2.2

end Awk
