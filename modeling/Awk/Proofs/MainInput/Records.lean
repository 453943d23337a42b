import Awk.Proofs.Closing
import Awk.Proofs.Input.Streams
import Awk.Proofs.MainInput.Order

/-!
# The records of the main input

A word that names a file gives the records of its text, as a reader of this text alone would give them under the same
separators (`Turns.results`).  What is done on the way to a turn does not change what a turn is (`Turns.divides`): a file
that is opened can be read (`Turns.read_of_mem`), and one that is missed cannot (`Turns.missed_of_mem`).  Nobody reads
the standard input but in its turn (`Turns.sameInput`).
-/

namespace Awk

namespace World

variable {w w' : World} {name t : Text} {i : Input}

/-! ### What a name leads to -/

/-- Where a stream under a name begins to read, if there is something to read. -/
def originOf? (w : World) (name : Text) : Option Origin :=
  if isStandardInput name then some .standard
  else
    match w.files.locate false name with
    | .ok (.file path) => some (.file path 0)
    | .ok (.device .input) => some .standard
    | .ok (.device _) => some .null
    | _ => none

/-- The text that can be read under a name. -/
def textUnder? (w : World) (name : Text) : Option Text :=
  (w.originOf? name).map fun origin => (sourceOf (.ofOrigin origin) w).unread

/-- A file that is opened is there to be read, and one that cannot be opened is not. -/
theorem openFile_cases {outcome : Except Fault Input} (h : (openFile name).run w = (outcome, w')) :
    match outcome with
    | .ok i => w' = w ∧ ∃ origin, w.originOf? name = some origin ∧ i = .ofOrigin origin
    | .error (.cannotOpen _ _) => w'.input = w.input ∧ w.originOf? name = none
    | .error _ => True := by
  unfold openFile at h
  unfold originOf?
  by_cases hstandard : isStandardInput name = true
  · rw [if_pos hstandard] at h ⊢
    cases h
    exact ⟨rfl, _, rfl, rfl⟩
  · rw [if_neg hstandard] at h ⊢
    by_cases hnul : name.contains '\x00' = true
    · have hcheck : (checkName name).run w = (.error .nulInName, w) := by
        unfold checkName
        rw [if_pos hnul]
        rfl
      rw [Action.run_bind, hcheck] at h
      cases h
      trivial
    · rw [Action.run_bind, run_checkName (Bool.eq_false_iff.2 hnul)] at h
      dsimp only at h
      rw [Action.run_bind, Action.run_get] at h
      dsimp only at h
      unfold Files.toRead at h
      cases hfound : w.files.locate false name with
      | error reason =>
        rw [hfound] at h
        cases h
        exact ⟨rfl, rfl⟩
      | ok entry =>
        rw [hfound] at h
        cases entry with
        | file path =>
          cases h
          exact ⟨rfl, _, rfl, rfl⟩
        | directory =>
          cases h
          exact ⟨rfl, rfl⟩
        | device d =>
          cases d <;> cases h <;> exact ⟨rfl, _, rfl, rfl⟩
        | absent path =>
          cases h
          exact ⟨rfl, rfl⟩

/-! ### Where it is read -/

theorem samePlace_openFile {r : Except Fault Input} (h : (openFile name).run w = (r, w')) : w.SamePlace w' := by
  have hplace := ((robust_samePlace w).openFile name w ⟨rfl, rfl⟩).1
  rwa [h] at hplace

theorem samePlace_readInput {r : Except Fault (Except Fault (Option Text) × Input)}
    (h : (readInput i t).run w = (r, w')) : w.SamePlace w' := by
  have hplace := ((robust_samePlace w).readInput i t w ⟨rfl, rfl⟩).1
  rwa [h] at hplace

end World

namespace Input

/-! ### Streams and readers -/

variable {i i' : Input} {w w' : World} {r : Reader}

/-- The origin of the stream as it was opened. -/
def beginning (i : Input) : Origin :=
  match i.origin with
  | .file path _ => .file path 0
  | origin => origin

theorem beginning_ofOrigin {name : Text} {origin : Origin} (h : w.originOf? name = some origin) :
    (ofOrigin origin).beginning = origin := by
  unfold World.originOf? at h
  split at h
  · cases h
    rfl
  · split at h <;> cases h <;> rfl

/-- What a stream answers when it is asked for a record in each of the worlds, with a separator. -/
def answers (i : Input) : List (World × Text) → List (Except Fault (Option Text))
  | [] => []
  | (w, separator) :: rest =>
    match (World.readInput i separator).run w with
    | (.ok (outcome, i'), _) => outcome :: i'.answers rest
    | (.error f, _) => [.error f]

theorem answers_cons {outcome : Except Fault (Option Text)} {separator : Text}
    (h : (World.readInput i separator).run w = (.ok (outcome, i'), w')) (rest : List (World × Text)) :
    i.answers ((w, separator) :: rest) = outcome :: i'.answers rest := by
  rw [answers, h]

/-- The next records of a stream are those of a reader. -/
def Reads (i : Input) (w : World) (r : Reader) : Prop := (World.readerOf i w).gathered = r.gathered

theorem reads_ofOrigin (origin : Origin) (w : World) :
    (ofOrigin origin).Reads w (.ofText (World.sourceOf (ofOrigin origin) w).unread) := by
  unfold Reads
  rw [Reader.gathered_ofText]
  rfl

/-- Nothing but what the stream leads to matters. -/
theorem Reads.of_input (h : i.Reads w r) (hinput : i.beginning = .standard → w'.input = w.input)
    (htext : ∀ path, i.beginning = .file path 0 → w'.files.text path = w.files.text path) : i.Reads w' r := by
  have hsource : World.sourceOf i w' = World.sourceOf i w := by
    unfold World.sourceOf
    split
    · rename_i horigin
      exact hinput (by rw [beginning, horigin])
    · rename_i path fetched horigin
      have hbeginning : i.beginning = .file path 0 := by rw [beginning, horigin]
      rw [htext path hbeginning]
    · rfl
    · rfl
  unfold Reads World.readerOf
  rw [hsource]
  exact h

/-- A record that is read from a stream is that of the reader, and only the standard input is used up. -/
theorem Reads.readInput (h : i.Reads w r) {separator : Text} {outcome : Except Fault (Option Text)}
    (hread : (World.readInput i separator).run w = (.ok (outcome, i'), w')) :
    outcome = (r.readRecord separator).1 ∧ i'.Reads w' (r.readRecord separator).2 ∧ i'.beginning = i.beginning ∧
      w'.files = w.files ∧ (i.beginning ≠ .standard → w' = w) := by
  have hrecord := (World.readerOf i w).readRecord_gathered separator
  rw [h, Reader.readRecord_gathered] at hrecord
  obtain ⟨hresult, hreader⟩ := Prod.mk.inj hrecord
  rw [World.run_readInput] at hread
  obtain ⟨hok, hworld⟩ := Prod.mk.inj hread
  obtain ⟨houtcome, hstream⟩ := Prod.mk.inj (Except.ok.inj hok)
  refine ⟨houtcome.symm.trans hresult.symm, ?_⟩
  have hrest : (World.readerOf i' w') = ((World.readerOf i w).readRecord separator).2 ∧ i'.beginning = i.beginning ∧
      w'.files = w.files ∧ (i.beginning ≠ .standard → w' = w) := by
    subst hstream hworld
    cases horigin : i.origin with
    | standard =>
      simp [World.readerOf, World.keepSource, World.sourceOf, beginning, horigin]
    | file path fetched =>
      have hkeep := readerOf_keepSource horigin ((World.readerOf i w).beyond_readRecord separator)
      have hsame (r' : Reader) : (World.keepSource i (World.sourceOf i w) r' w).2 = w := by
        simp only [World.keepSource, horigin]
      rw [hsame]
      refine ⟨hkeep, ?_, rfl, fun _ => rfl⟩
      simp [World.keepSource, beginning, horigin]
    | command ending => simp [World.readerOf, World.keepSource, World.sourceOf, beginning, horigin]
    | null => simp [World.readerOf, World.keepSource, World.sourceOf, beginning, horigin]
  obtain ⟨hreads, hkept⟩ := hrest
  refine ⟨?_, hkept⟩
  unfold Reads
  rw [hreads, hreader]

theorem beginning_readInput {separator : Text} {outcome : Except Fault (Option Text)}
    (hread : (World.readInput i separator).run w = (.ok (outcome, i'), w')) :
    i'.beginning = i.beginning ∧ (i.beginning ≠ .standard → w' = w) := by
  have hreads : i.Reads w (World.readerOf i w) := rfl
  obtain ⟨-, -, hbeginning, -, hworld⟩ := hreads.readInput hread
  exact ⟨hbeginning, hworld⟩

end Input

namespace Record

variable {vars : Variables} {t : Text}

/-- A text that is installed is the text of the record, even if the separators are at fault. -/
theorem text_setText (vars : Variables) (t : Text) (r : Record) : ((setText vars t).run r).2.text = t := by
  have hlooked (x : Except Fault Text) : Outcome (fun _ => True) (fun _ => True) x := by cases x <;> trivial
  have hkept {f : Record → Record} (hf : ∀ r, (f r).text = r.text) :
      Yields (fun r => r.text = t) (fun _ => True) (fun _ => True) (modify f : Record.Action PUnit) :=
    Yields.modify fun r hr => (hf r).trans hr
  unfold setText
  rw [Action.run_bind, Action.run_modify]
  refine And.left ((?_ : Yields (fun r : Record => r.text = t) (fun _ => True) (fun _ => True) _) _ rfl)
  refine (Yields.lift (hlooked _)).andThen fun _ => Yields.andThen (hkept fun _ => rfl) fun _ => ?_
  exact (Yields.lift (hlooked _)).andThen fun _ => hkept fun _ => rfl

end Record

/-! ### Stays -/

/-- The rules have taken nothing from the standard input. -/
def LeavesInput (rounds : List Round) : Prop := ∀ round ∈ rounds, round.left.world.input = round.found.world.input

/-- The standard input changes only while the rules are run: in each round they find what has been left in the one
before. -/
def Passes : Source → List Round → Source → Prop
  | input, [], last => last = input
  | input, round :: rounds, last => round.found.world.input = input ∧ Passes round.left.world.input rounds last

namespace Stay

/-- The states in which a record was asked for, and in the end there was none. -/
def asked (s : Stay) : List Machine := s.rounds.map Round.asked ++ [s.ended]

/-- The separators with which it was. -/
def separators (s : Stay) : List Text := s.rounds.map Round.separator ++ [s.separator]

/-- What was answered. -/
def results (s : Stay) : List (Except Fault (Option Text)) :=
  s.rounds.map (fun round => .ok (some round.record)) ++ [.ok none]

/-- When a record was asked for, and with which separators. -/
def asks (s : Stay) : List (World × Text) :=
  s.rounds.map (fun round => (round.asked.world, round.separator)) ++ [(s.ended.world, s.separator)]

/-- The records are those that a reader of the text alone gives under the same separators. -/
def Gives (s : Stay) (t : Text) : Prop := (Reader.ofText t).results s.separators = s.results

/-- While it has been read, the file that a name leads to has not been changed, or, if this is the standard input, the
rules have taken nothing from it. -/
structure Spares (s : Stay) (w : World) (name : Text) : Prop where
  file : ∀ path, w.originOf? name = some (.file path 0) → ∀ asked ∈ s.asked,
    asked.world.files.text path = w.files.text path
  input : w.originOf? name = some .standard → LeavesInput s.rounds

/-- The records are counted from one, under the name of the file. -/
def Counted (s : Stay) (name : Text) : Prop :=
  ∀ j round, s.rounds[j]? = some round →
    round.found.number "FNR" = (fun n : Number => n.add .one)^[j + 1] .zero ∧
      round.found.store.global? "FILENAME".toList = some (.str name)

end Stay

/-- The turn is that of the standard input, by whatever name. -/
def Turn.TakesInput : Turn → Prop
  | .read name opened _ => opened.world.originOf? name = some .standard
  | .standard .. => True
  | _ => False

namespace Eval

variable {rules : List Rule} {m m' : Machine} {stay : Option Stay} {turns : List Turn} {s : Stay}

theorem Turns.mem_asked (h : Turns rules m (some s) turns m') : m ∈ s.asked := by
  cases h with
  | record => exact List.mem_cons_self
  | finished => exact List.mem_cons_self

/-- The records are what the stream alone answers, whatever becomes of the file. -/
theorem Turns.answers {i : Input} (h : Turns rules m (some s) turns m') (hcurrent : m.mainInput.current = some i) :
    i.answers s.asks = s.results := by
  obtain ⟨rounds, ended, last⟩ := s
  induction rounds generalizing m i with
  | nil =>
    cases h with
    | finished hcurrent' hseparator hread hrest =>
      cases hcurrent.symm.trans hcurrent'
      exact Input.answers_cons hread []
  | cons round rounds ih =>
    cases h with
    | @record _ _ separator t i' w found left _ _ _ _ _ hcurrent' hseparator hread hset hrules hfeed hrest =>
      cases hcurrent.symm.trans hcurrent'
      have hcurrent' : left.mainInput.current = some i' := by
        rw [hfeed.mainInput, (sameFeed_onRecord hset).mainInput]
        rfl
      refine (Input.answers_cons hread _).trans ?_
      exact congrArg (_ :: ·) (ih hcurrent' hrest)

/-- As long as the text of the file is the same, or nothing else is taken from the standard input, the records are those
of a reader. -/
theorem Turns.results {i : Input} {r : Reader} (h : Turns rules m (some s) turns m')
    (hcurrent : m.mainInput.current = some i) (hreads : i.Reads m.world r)
    (hfile : ∀ path, i.beginning = .file path 0 → ∀ asked ∈ s.asked,
      asked.world.files.text path = m.world.files.text path)
    (hinput : i.beginning = .standard → LeavesInput s.rounds) : r.results s.separators = s.results := by
  obtain ⟨rounds, ended, last⟩ := s
  induction rounds generalizing m i r with
  | nil =>
    cases h with
    | finished hcurrent' hseparator hread hrest =>
      cases hcurrent.symm.trans hcurrent'
      obtain ⟨hresult, -⟩ := hreads.readInput hread
      exact congrArg (· :: []) hresult.symm
  | cons round rounds ih =>
    cases h with
    | @record _ _ separator t i' w found left _ _ _ _ _ hcurrent' hseparator hread hset hrules hfeed hrest =>
      cases hcurrent.symm.trans hcurrent'
      obtain ⟨hresult, hreads', hbeginning, hfiles, -⟩ := hreads.readInput hread
      have hcurrent' : left.mainInput.current = some i' := by
        rw [hfeed.mainInput, (sameFeed_onRecord hset).mainInput]
        rfl
      have hleft (hstandard : i'.beginning = .standard) : left.world.input = w.input := by
        have hrules := hinput (hbeginning.symm.trans hstandard) _ List.mem_cons_self
        exact hrules.trans (congrArg World.input (world_onRecord hset))
      have htext (path : Path) (hpath : i'.beginning = .file path 0) :
          left.world.files.text path = w.files.text path := by
        rw [hfiles]
        exact hfile path (hbeginning.symm.trans hpath) left (List.mem_cons_of_mem _ hrest.mem_asked)
      have hrest := ih hcurrent' (hreads'.of_input hleft htext) hrest (fun path hpath asked hasked => ?_)
        fun hstandard => (List.forall_mem_cons.1 (hinput (hbeginning.symm.trans hstandard))).2
      · change (r.readRecord separator).1 :: (r.readRecord separator).2.results _ = .ok (some t) :: _
        rw [← hresult]
        exact congrArg (_ :: ·) hrest
      · have hpath' := hbeginning.symm.trans hpath
        rw [hfile path hpath' asked (List.mem_cons_of_mem _ hasked),
          hfile path hpath' left (List.mem_cons_of_mem _ hrest.mem_asked)]

/-- The rules are run on the record that has been read, with the separator in force when it was asked for. -/
theorem Turns.found {round : Round} (h : Turns rules m stay turns m') (hround : round ∈ roundsOf stay turns) :
    round.asked.separator = .ok round.separator ∧ round.found.record.text = round.record ∧
      RulesRun rules round.found round.left := by
  induction h with
  | ended => exact absurd hround List.not_mem_nil
  | passed hidle hmore hword hempty hrest ih => exact ih hround
  | assigned hidle hmore hword hassignment hassign hrest ih => exact ih hround
  | missed hidle hmore hword hnonempty hfile hopen hrest ih => exact ih hround
  | read hidle hmore hword hnonempty hfile hopen hrest ih =>
    rw [roundsOf_read] at hround
    exact ih hround
  | standard hidle hmore hunused hrest ih =>
    rw [roundsOf_standard] at hround
    exact ih hround
  | record hcurrent hseparator hread hset hrules hfeed hrest ih =>
    rw [roundsOf_record] at hround
    rcases List.mem_cons.1 hround with rfl | hround
    · refine ⟨hseparator, ?_, hrules⟩
      rw [← congrArg (fun p => p.2.record) hset]
      exact Record.text_setText ..
    · exact ih hround
  | finished hcurrent hseparator hread hrest ih => exact ih hround

/-- A word that could not be opened is noted. -/
theorem Turns.inputFailed (h : Turns rules m stay turns m') :
    m'.inputFailed = (m.inputFailed || turns.any Turn.isMissed) := by
  induction h with
  | ended => exact (Bool.or_false _).symm
  | passed hidle hmore hword hempty hrest ih => exact ih
  | assigned hidle hmore hword hassignment hassign hrest ih =>
    rw [ih, (sameFeed_assignGlobal hassign).inputFailed]
    rfl
  | missed hidle hmore hword hnonempty hfile hopen hrest ih =>
    rw [ih]
    exact (Bool.or_true _).symm
  | read hidle hmore hword hnonempty hfile hopen hrest ih => exact ih
  | standard hidle hmore hunused hrest ih => exact ih
  | record hcurrent hseparator hread hset hrules hfeed hrest ih =>
    rw [ih, hfeed.inputFailed, (sameFeed_onRecord hset).inputFailed]
    rfl
  | finished hcurrent hseparator hread hrest ih => exact ih

/-- The rules are run where the main loop is. -/
theorem Turns.samePlace {round : Round} (h : Turns rules m stay turns m') (hround : round ∈ roundsOf stay turns) :
    m.SamePlace round.found := by
  induction h with
  | ended => exact absurd hround List.not_mem_nil
  | passed hidle hmore hword hempty hrest ih => exact (ih hround).after rfl ⟨rfl, rfl⟩
  | assigned hidle hmore hword hassignment hassign hrest ih =>
    exact ((sameFeed_assignGlobal hassign).toSamePlace.trans (ih hround)).after rfl ⟨rfl, rfl⟩
  | missed hidle hmore hword hnonempty hfile hopen hrest ih =>
    have hasked := World.samePlace_openFile hopen
    exact (ih hround).after rfl ((World.robust_samePlace _).perform (.warnAlways _) hasked)
  | read hidle hmore hword hnonempty hfile hopen hrest ih =>
    rw [roundsOf_read] at hround
    exact (ih hround).after rfl (World.samePlace_openFile hopen)
  | standard hidle hmore hunused hrest ih =>
    rw [roundsOf_standard] at hround
    exact (ih hround).after rfl ⟨rfl, rfl⟩
  | @record m i separator t i' w found left rounds ended last turns m' hcurrent hseparator hread hset hrules hfeed hrest
      ih =>
    have hfound : m.SamePlace found := (sameFeed_onRecord hset).toSamePlace.after rfl (World.samePlace_readInput hread)
    rw [roundsOf_record] at hround
    rcases List.mem_cons.1 hround with rfl | hround
    · exact hfound
    · exact (hfound.trans hfeed.toSamePlace).trans (ih hround)
  | finished hcurrent hseparator hread hrest ih => exact (ih hround).after rfl (World.samePlace_readInput hread)

/-! ### Turns -/

/-- The stream at hand is not on the standard input. -/
def SparesInput (m : Machine) : Prop := ∀ i, m.mainInput.current = some i → i.beginning ≠ .standard

theorem SparesInput.of_idle (h : m.mainInput.current = none) : SparesInput m :=
  fun _ hcurrent => nomatch h.symm.trans hcurrent

/-- After some of the turns the others follow, and if none of the first is that of the standard input, only the rules
have taken from it. -/
def Divides (rules : List Rule) (m : Machine) (stay : Option Stay) (turns : List Turn) (m' : Machine) : Prop :=
  ∀ before after, before ++ after = turns → ∃ m₁, Turns rules m₁ none after m' ∧
    (SparesInput m → (∀ turn ∈ before, ¬turn.TakesInput) →
      Passes m.world.input (roundsOf stay before) m₁.world.input)

/-- The turns are taken apart in front of the first one or behind it. -/
theorem Divides.cons {turn : Turn} {next : Machine} (h : Turns rules m none (turn :: turns) m')
    (hlater : Divides rules next stay turns m')
    (hrounds : ∀ turns, roundsOf none (turn :: turns) = roundsOf stay turns)
    (hnext : ¬turn.TakesInput → SparesInput next ∧ next.world.input = m.world.input) :
    Divides rules m none (turn :: turns) m' := by
  intro before after hturns
  rcases before with _ | ⟨first, before⟩
  · cases hturns
    exact ⟨m, h, fun _ _ => rfl⟩
  · cases hturns
    obtain ⟨m₁, hafter, hpasses⟩ := hlater before after rfl
    refine ⟨m₁, hafter, fun _ hbefore => ?_⟩
    obtain ⟨hfirst, hbefore⟩ := List.forall_mem_cons.1 hbefore
    obtain ⟨hspares, hsame⟩ := hnext hfirst
    rw [hrounds, ← hsame]
    exact hpasses hspares hbefore

theorem Turns.divides (h : Turns rules m stay turns m') : Divides rules m stay turns m' := by
  induction h with
  | @ended m hidle hmore hused =>
    intro before after hturns
    obtain ⟨rfl, rfl⟩ := List.append_eq_nil_iff.1 hturns
    exact ⟨m, .ended hidle hmore hused, fun _ _ => rfl⟩
  | passed hidle hmore hword hempty hrest ih =>
    exact ih.cons (.passed hidle hmore hword hempty hrest) (fun _ => rfl) fun _ => ⟨.of_idle hidle, rfl⟩
  | assigned hidle hmore hword hassignment hassign hrest ih =>
    have hworld := world_assignGlobal hassign
    refine ih.cons (.assigned hidle hmore hword hassignment hassign hrest) (fun _ => rfl) fun _ => ⟨.of_idle ?_, ?_⟩
    · rw [(sameFeed_assignGlobal hassign).mainInput]
      exact hidle
    · exact congrArg World.input hworld
  | missed hidle hmore hword hnonempty hfile hopen hrest ih =>
    exact ih.cons (.missed hidle hmore hword hnonempty hfile hopen hrest) (fun _ => rfl) fun _ =>
      ⟨.of_idle hidle, (World.openFile_cases hopen).1⟩
  | read hidle hmore hword hnonempty hfile hopen hrest ih =>
    refine ih.cons (.read hidle hmore hword hnonempty hfile hopen hrest) (roundsOf_read _ _ _) fun hturn => ?_
    obtain ⟨rfl, origin, horigin, rfl⟩ := World.openFile_cases hopen
    refine ⟨fun i hcurrent hstandard => hturn ?_, rfl⟩
    cases hcurrent
    rw [Input.beginning_ofOrigin horigin] at hstandard
    rw [hstandard] at horigin
    exact horigin
  | standard hidle hmore hunused hrest ih =>
    exact ih.cons (.standard hidle hmore hunused hrest) (roundsOf_standard _ _) fun hturn => absurd trivial hturn
  | @record m i separator t i' w found left rounds ended last turns m' hcurrent hseparator hread hset hrules hfeed hrest
      ih =>
    intro before after hturns
    obtain ⟨m₁, hafter, hpasses⟩ := ih before after hturns
    obtain ⟨hbeginning, hworld⟩ := Input.beginning_readInput hread
    refine ⟨m₁, hafter, fun hspares hbefore => ⟨?_, hpasses (fun j hj => ?_) hbefore⟩⟩
    · -- The stream is not on the standard input, so that reading from it has left this alone.
      obtain rfl := hworld (hspares i hcurrent)
      have hfound := world_onRecord hset
      exact congrArg World.input hfound
    · rw [hfeed.mainInput, (sameFeed_onRecord hset).mainInput] at hj
      cases hj
      rw [hbeginning]
      exact hspares i hcurrent
  | @finished m i separator i' w turns m' hcurrent hseparator hread hrest ih =>
    intro before after hturns
    obtain ⟨m₁, hafter, hpasses⟩ := ih before after hturns
    refine ⟨m₁, hafter, fun hspares hbefore => ?_⟩
    obtain rfl := (Input.beginning_readInput hread).2 (hspares i hcurrent)
    exact hpasses (.of_idle rfl) hbefore

/-- If nobody has its turn to read it, only the rules take from the standard input. -/
theorem Turns.passes (h : Turns rules m none turns m') (hidle : m.mainInput.current = none)
    (hturns : ∀ turn ∈ turns, ¬turn.TakesInput) : Passes m.world.input (roundsOf none turns) m'.world.input := by
  obtain ⟨m₁, hlast, hpasses⟩ := h.divides turns [] (List.append_nil turns)
  cases hlast
  exact hpasses (.of_idle hidle) hturns

/-- An assignment has been made before the turns after it. -/
theorem Turns.assigned_of_mem {name value : Text} {made : Machine} {before after : List Turn}
    (h : Turns rules m none (before ++ .assigned name value made :: after) m') :
    (name ≠ fieldCountName → made.store.global? name = some (.strnum (decodeEscapes value))) ∧
      Turns rules made none after m' := by
  obtain ⟨m₁, hturn, -⟩ := h.divides _ _ rfl
  cases hturn with
  | assigned hidle hmore hword hassignment hassign hrest =>
    exact ⟨fun hname => Machine.global?_assignGlobal hname hassign, hrest⟩

/-- What is missed cannot be read. -/
theorem Turns.missed_of_mem {name : Text} {asked : Machine} (h : Turns rules m none turns m')
    (hmem : .missed name asked ∈ turns) : asked.world.textUnder? name = none := by
  obtain ⟨before, after, rfl⟩ := List.append_of_mem hmem
  obtain ⟨m₁, hturn, -⟩ := h.divides _ _ rfl
  cases hturn with
  | missed hidle hmore hword hnonempty hfile hopen hrest =>
    unfold World.textUnder?
    rw [(World.openFile_cases hopen).2]
    rfl

/-- In a file that has been begun, the records are counted from one, under its name. -/
theorem Turns.counted {name : Text} {i : Input} (h : Turns rules (m.begin name i) (some s) turns m')
    (huntouched : Untouched s.rounds) : s.Counted name := by
  obtain ⟨hcounts, hnames⟩ := h.inFile huntouched
  rw [(m.number_begin name i).2] at hcounts
  rw [m.fileName_begin name i] at hnames
  exact fun j round hround => ⟨hcounts j round hround, hnames round (List.mem_of_getElem? hround)⟩

/-- What is opened can be read, from its beginning and by itself, and gives its records as long as it stays as it is. -/
theorem Turns.read_of_mem {name : Text} {opened : Machine} (h : Turns rules m none turns m')
    (hmem : .read name opened s ∈ turns) (huntouched : Untouched s.rounds) :
    s.Counted name ∧ ∃ origin t, opened.world.originOf? name = some origin ∧ opened.world.textUnder? name = some t ∧
      (Input.ofOrigin origin).answers s.asks = s.results ∧ (s.Spares opened.world name → s.Gives t) := by
  obtain ⟨before, after, rfl⟩ := List.append_of_mem hmem
  obtain ⟨m₁, hturn, -⟩ := h.divides _ _ rfl
  cases hturn with
  | @read m₁ t i w stay turns m' hidle hmore hword hnonempty hfile hopen hrest =>
    obtain ⟨rfl, origin, horigin, rfl⟩ := World.openFile_cases hopen
    refine ⟨hrest.counted huntouched, origin, (World.sourceOf (.ofOrigin origin) m₁.world).unread, horigin, ?_,
      hrest.answers rfl, fun hspares => ?_⟩
    · change m₁.world.textUnder? name = _
      unfold World.textUnder?
      rw [horigin]
      rfl
    · refine hrest.results rfl (Input.reads_ofOrigin origin _) (fun path hpath => hspares.file path ?_) fun hstandard =>
        hspares.input ?_
      · rw [Input.beginning_ofOrigin horigin] at hpath
        rw [← hpath]
        exact horigin
      · rw [Input.beginning_ofOrigin horigin] at hstandard
        rw [← hstandard]
        exact horigin

/-- If only assignments have been before it, the standard input has its turn with what it was at first.  It gives its
records by itself, and all of them as long as the rules take nothing from it. -/
theorem Turns.standard_of_mem {opened : Machine} {before after : List Turn}
    (h : Turns rules m none (before ++ .standard opened s :: after) m') (hidle : m.mainInput.current = none)
    (hbefore : ∀ turn ∈ before, ¬turn.TakesInput ∧ turn.rounds = []) (huntouched : Untouched s.rounds) :
    opened.world.input = m.world.input ∧ s.Counted [] ∧ (Input.ofOrigin .standard).answers s.asks = s.results ∧
      (LeavesInput s.rounds → s.Gives m.world.input.unread) := by
  obtain ⟨m₁, hturn, hpasses⟩ := h.divides _ _ rfl
  have hnone : roundsOf none before = [] := List.flatMap_eq_nil_iff.2 fun turn hturn => (hbefore turn hturn).2
  have hsame := hpasses (.of_idle hidle) fun turn hturn => (hbefore turn hturn).1
  rw [hnone] at hsame
  cases hturn with
  | standard hidle hmore hunused hrest =>
    refine ⟨hsame, hrest.counted huntouched, hrest.answers rfl, fun hleaves => ?_⟩
    have hresults := hrest.results rfl (Input.reads_ofOrigin .standard _) nofun fun _ => hleaves
    rw [← hsame]
    exact hresults

end Eval

end Awk
