import Awk.Proofs.Input.Streams
import Awk.Proofs.Machine.Sound
import Awk.Proofs.MainInput.Plain

/-!
# The main input, operand by operand

The records are asked for one at a time, and whatever has to be done before there is one is done then: files are opened
and left, and assignments made.  Seen as a whole the operands have their turns one after the other (`Turn`), and a file
that can be read stays until its end has been found (`Stay`).  The relation `Turns` says what has been done, and in
which state, in a run of the main loop (`turns_of_runRecords`).
-/

namespace Awk

namespace Machine

/-! ### What the main loop looks at -/

/-- A counter. -/
def number (m : Machine) (name : String) : Number := (m.store.global? name.toList).elim .zero Value.toNumber

/-- What stands at a place of the array of words. -/
def word (m : Machine) (k : Nat) : Option Value :=
  match m.store.globals.lookup "ARGV".toList with
  | some (.array id) => (m.store.array id).get? (Text.ofNat k)
  | _ => none

/-- The word whose turn is next, as text under the present format. -/
def nextWord (m : Machine) : Except Fault (Option Text) :=
  match m.word m.mainInput.nextOperand with
  | some v => do return some (← v.toText (← m.scalars.convfmt))
  | none => .ok none

/-- Whether the next place is among those that are counted. -/
def more (m : Machine) : Except Fault Bool := do
  return (m.mainInput.nextOperand : Int) < (← (m.number "ARGC").toInt)

/-- The record separator. -/
def separator (m : Machine) : Except Fault Text := m.scalars.setting "RS" ['\n']

/-! ### What it does -/

/-- The next word has its turn. -/
def turn (m : Machine) : Machine :=
  { m with mainInput := { m.mainInput with nextOperand := m.mainInput.nextOperand + 1 } }

/-- A file is begun. -/
def begin (m : Machine) (name : Text) (i : Input) : Machine :=
  { m with
    mainInput := { m.mainInput with usedFile := true, current := some i }
    store := (m.store.setGlobal "FILENAME".toList (.str name)).setGlobal "FNR".toList (.num .zero) }

/-- A file cannot be opened. -/
def miss (m : Machine) (name : Text) (reason : OpenReason) : Machine :=
  { m with
    mainInput := { m.mainInput with usedFile := true }
    world := ((World.warnAlways (missingNote name reason)).run m.world).2
    inputFailed := true }

/-- A stream has been read from. -/
def fetched (m : Machine) (i : Input) (w : World) : Machine :=
  { m with world := w, mainInput := { m.mainInput with current := some i } }

def count (m : Machine) (name : String) : Machine :=
  { m with store := m.store.setGlobal name.toList (.num ((m.number name).add .one)) }

/-- The current file is left. -/
def leaveFile (m : Machine) : Machine := { m with mainInput := { m.mainInput with current := none } }

/-- There is nothing more to read. -/
def finishInput (m : Machine) : Machine := { m with mainInput := { m.mainInput with exhausted := true } }

end Machine

/-- A record: the state in which it was asked for, the separator and the text, and the states in which the rules have
found and left it. -/
structure Round where
  asked : Machine
  separator : Text
  record : Text
  found : Machine
  left : Machine

/-- The records of a file, and the state and the separator with which its end has been found. -/
structure Stay where
  rounds : List Round
  ended : Machine
  separator : Text

/-- What has become of a word. -/
inductive Turn where
  /-- It is not there, or it is empty. -/
  | passed
  /-- It is an assignment, and this is the state when it has been made. -/
  | assigned (name value : Text) (made : Machine)
  /-- It names no file that can be opened in this state. -/
  | missed (name : Text) (asked : Machine)
  /-- A file has been opened, and this is the state then. -/
  | read (name : Text) (opened : Machine) (stay : Stay)
  /-- There has been no file, and the standard input has the turn. -/
  | standard (opened : Machine) (stay : Stay)

namespace Eval

/-- The rules have been run on a record, until a `next` at most. -/
def RulesRun (rules : List Rule) (found left : Machine) : Prop :=
  ∃ fuel, (runRules fuel 0 rules).run found = (.ok (), left) ∨ (runRules fuel 0 rules).run found = (.error .next, left)

/-- What the main loop does from a state on, to its end: what is left of the stay in the current file, if there is one,
and then the turns. -/
inductive Turns (rules : List Rule) : Machine → Option Stay → List Turn → Machine → Prop
  | ended {m} (hidle : m.mainInput.current = none) (hmore : m.more = .ok false) (hused : m.mainInput.usedFile = true) :
    Turns rules m none [] m.finishInput
  | passed {m t turns m'} (hidle : m.mainInput.current = none) (hmore : m.more = .ok true) (hword : m.nextWord = .ok t)
    (hempty : t.getD [] = []) (hrest : Turns rules m.turn none turns m') : Turns rules m none (.passed :: turns) m'
  | assigned {m t name value m₁ turns m'} (hidle : m.mainInput.current = none) (hmore : m.more = .ok true)
    (hword : m.nextWord = .ok (some t)) (hassignment : assignment? t = some (name, value))
    (hassign : (assignGlobal name (.strnum (decodeEscapes value))).run m.turn = (.ok (), m₁))
    (hrest : Turns rules m₁ none turns m') : Turns rules m none (.assigned name value m₁ :: turns) m'
  | missed {m t reason w turns m'} (hidle : m.mainInput.current = none) (hmore : m.more = .ok true)
    (hword : m.nextWord = .ok (some t)) (hnonempty : t ≠ []) (hfile : assignment? t = none)
    (hopen : (World.openFile t).run m.world = (.error (.cannotOpen t reason), w))
    (hrest : Turns rules ({ m.turn with world := w }.miss t reason) none turns m') :
    Turns rules m none (.missed t m :: turns) m'
  | read {m t i w stay turns m'} (hidle : m.mainInput.current = none) (hmore : m.more = .ok true)
    (hword : m.nextWord = .ok (some t)) (hnonempty : t ≠ []) (hfile : assignment? t = none)
    (hopen : (World.openFile t).run m.world = (.ok i, w))
    (hrest : Turns rules ({ m.turn with world := w }.begin t i) (some stay) turns m') :
    Turns rules m none (.read t ({ m.turn with world := w }.begin t i) stay :: turns) m'
  | standard {m stay turns m'} (hidle : m.mainInput.current = none) (hmore : m.more = .ok false)
    (hunused : m.mainInput.usedFile = false)
    (hrest : Turns rules (m.begin [] (.ofOrigin .standard)) (some stay) turns m') :
    Turns rules m none (.standard (m.begin [] (.ofOrigin .standard)) stay :: turns) m'
  | record {m i separator t i' w found left rounds ended last turns m'} (hcurrent : m.mainInput.current = some i)
    (hseparator : m.separator = .ok separator)
    (hread : (World.readInput i separator).run m.world = (.ok (.ok (some t), i'), w))
    (hset : (onRecord fun vars => Record.setText vars t).run (((m.fetched i' w).count "NR").count "FNR") =
      (.ok (), found))
    (hrules : RulesRun rules found left) (hfeed : found.SameFeed left)
    (hrest : Turns rules left (some ⟨rounds, ended, last⟩) turns m') :
    Turns rules m (some ⟨⟨m, separator, t, found, left⟩ :: rounds, ended, last⟩) turns m'
  | finished {m i separator i' w turns m'} (hcurrent : m.mainInput.current = some i)
    (hseparator : m.separator = .ok separator)
    (hread : (World.readInput i separator).run m.world = (.ok (.ok none, i'), w))
    (hrest : Turns rules (m.fetched i' w).leaveFile none turns m') : Turns rules m (some ⟨[], m, separator⟩) turns m'

/-! ### Single steps -/

variable {rules : List Rule} {m m' : Machine} {fuel : Nat}

/-- A fault without a place. -/
abbrev raised {α : Type} (x : Except Fault α) : Except Interruption α := x.mapError fun f => .failure ⟨f, none⟩

theorem run_ofExcept {α : Type} (x : Except Fault α) (m : Machine) : (ofExcept x).run m = (raised x, m) := by
  cases x <;> rfl

theorem run_textOf (v : Value) (m : Machine) :
    (textOf v).run m = (raised do v.toText (← m.scalars.convfmt), m) := by
  unfold textOf convfmt
  rw [Action.run_bind, Action.run_bind, Action.run_get]
  dsimp only
  rw [run_ofExcept]
  cases m.scalars.convfmt with
  | error f => rfl
  | ok format => exact run_ofExcept _ m

theorem run_operand (m : Machine) : (operand m.mainInput.nextOperand).run m = (raised m.nextWord, m) := by
  have hword : (operand m.mainInput.nextOperand).run m =
      match m.word m.mainInput.nextOperand with
      | some v => (do return some (← textOf v) : Eval (Option Text)).run m
      | none => (.ok none, m) := by
    unfold operand Machine.word
    rw [Action.run_bind, Action.run_get]
    dsimp only
    cases m.store.globals.lookup "ARGV".toList with
    | none => rfl
    | some b =>
      cases b with
      | array id =>
        dsimp only
        cases (m.store.array id).get? (Text.ofNat m.mainInput.nextOperand) <;> rfl
      | _ => rfl
  rw [hword]
  unfold Machine.nextWord
  cases m.word m.mainInput.nextOperand with
  | none => rfl
  | some v =>
    dsimp only
    rw [Action.run_bind, run_textOf]
    cases m.scalars.convfmt with
    | error f => rfl
    | ok format =>
      have hvalue : (do v.toText (← Except.ok format) : Except Fault Text) = v.toText format := rfl
      have hsome : (do return some (← v.toText (← Except.ok format)) : Except Fault (Option Text)) =
          (v.toText format).map some := by
        change (do return some (← v.toText format)) = _
        cases v.toText format <;> rfl
      rw [hvalue, hsome]
      cases v.toText format <;> rfl

theorem run_setting_separator (m : Machine) : (setting "RS").run m = (raised m.separator, m) := run_ofExcept _ m

/-- An operand that is an assignment is made. -/
theorem run_openOperand_assignment {t name value : Text} (hnonempty : t ≠ []) (h : assignment? t = some (name, value))
    (m : Machine) : (openOperand t).run m =
      (do
        assignGlobal name (.strnum (decodeEscapes value))
        return false : Eval Bool).run m := by
  have hempty : ¬t.isEmpty = true := by simpa using hnonempty
  unfold openOperand applyAssignment
  rw [if_neg hempty, h, Action.run_bind, Action.run_bind, Action.run_bind]
  rcases (assignGlobal name (.strnum (decodeEscapes value))).run m with ⟨e | u, m'⟩ <;> rfl

/-- The operand at hand is opened or not, and in the second case the next one is looked at. -/
theorem openNext_cases {opened : Bool} (h : (openNext (fuel + 1)).run m = (.ok opened, m')) :
    (m.more = .ok true ∧ ∃ t, m.nextWord = .ok t ∧
        ((openOperand (t.getD [])).run m.turn = (.ok true, m') ∧ opened = true ∨
          ∃ m₁, (openOperand (t.getD [])).run m.turn = (.ok false, m₁) ∧ (openNext fuel).run m₁ = (.ok opened, m'))) ∨
      m.more = .ok false ∧ (m.mainInput.usedFile = true ∧ opened = false ∧ m' = m ∨
        m.mainInput.usedFile = false ∧ opened = true ∧ m' = m.begin [] (.ofOrigin .standard)) := by
  have hcounter : (counter "ARGC").run m = (.ok (m.number "ARGC"), m) := rfl
  unfold openNext at h
  rw [Action.run_bind, Action.run_get] at h
  dsimp only at h
  rw [Action.run_bind, hcounter] at h
  dsimp only at h
  rw [Action.run_bind, run_ofExcept] at h
  unfold Machine.more
  cases hcount : (m.number "ARGC").toInt with
  | error f =>
    rw [hcount] at h
    cases h
  | ok count =>
    rw [hcount] at h
    change (if (m.mainInput.nextOperand : Int) < count then _ else _ : Eval Bool).run m = _ at h
    split at h
    · rename_i hmore
      refine .inl ⟨congrArg Except.ok (decide_eq_true hmore), ?_⟩
      rw [Action.run_bind, run_operand] at h
      cases hword : m.nextWord with
      | error f =>
        rw [hword] at h
        cases h
      | ok t =>
        rw [hword] at h
        refine ⟨t, rfl, ?_⟩
        change (modifyInput _ >>= fun _ => _ : Eval Bool).run m = _ at h
        rw [Action.run_bind] at h
        change (openOperand (t.getD []) >>= fun opened => _ : Eval Bool).run m.turn = _ at h
        rw [Action.run_bind] at h
        generalize (openOperand (t.getD [])).run m.turn = result at h
        obtain ⟨e | opened', m₁⟩ := result
        · cases h
        · cases opened' with
          | true =>
            cases h
            exact .inl ⟨rfl, rfl⟩
          | false => exact .inr ⟨m₁, rfl, h⟩
    · rename_i hmore
      refine .inr ⟨congrArg Except.ok (decide_eq_false hmore), ?_⟩
      rw [Action.run_bind, Action.run_get] at h
      dsimp only at h
      split at h
      · rename_i hused
        cases h
        exact .inl ⟨hused, rfl, rfl⟩
      · rename_i hunused
        cases h
        exact .inr ⟨Bool.eq_false_iff.2 hunused, rfl, rfl⟩

/-- What becomes of an operand: nothing, an assignment, a file that is begun, or one that cannot be opened. -/
theorem openOperand_cases {t : Text} {opened : Bool} (h : (openOperand t).run m = (.ok opened, m')) :
    (t = [] ∧ opened = false ∧ m' = m) ∨
      (t ≠ [] ∧ ∃ name value, assignment? t = some (name, value) ∧ opened = false ∧
        (assignGlobal name (.strnum (decodeEscapes value))).run m = (.ok (), m')) ∨
      (t ≠ [] ∧ assignment? t = none ∧
        ((∃ i w, (World.openFile t).run m.world = (.ok i, w) ∧ opened = true ∧ m' = { m with world := w }.begin t i) ∨
          ∃ reason w, (World.openFile t).run m.world = (.error (.cannotOpen t reason), w) ∧ opened = false ∧
            m' = { m with world := w }.miss t reason)) := by
  by_cases hempty : t = []
  · subst hempty
    cases h
    exact .inl ⟨rfl, rfl, rfl⟩
  · cases hassignment : assignment? t with
    | some entry =>
      obtain ⟨name, value⟩ := entry
      rw [run_openOperand_assignment hempty hassignment, Action.run_bind] at h
      refine .inr (.inl ⟨hempty, name, value, rfl, ?_⟩)
      generalize (assignGlobal name (.strnum (decodeEscapes value))).run m = result at h ⊢
      obtain ⟨e | u, m₁⟩ := result
      · cases h
      · cases h
        exact ⟨rfl, rfl⟩
    | none =>
      rw [run_openOperand hempty hassignment] at h
      refine .inr (.inr ⟨hempty, rfl, ?_⟩)
      generalize hopen : (World.openFile t).run m.world = result at h ⊢
      split at h
      · rename_i i w
        cases h
        exact .inl ⟨i, w, rfl, rfl, rfl⟩
      · rename_i name reason w
        cases h
        obtain rfl := openFile_cannotOpen hopen
        exact .inr ⟨reason, w, rfl, rfl, rfl⟩
      · cases h

/-! ### From one record to the next -/

/-- The main loop is running. -/
structure Ready (functions : List Function) (m : Machine) : Prop where
  functions : m.functions = functions
  unexhausted : m.mainInput.exhausted = false

/-- What is done from the second state on is done from the first one on, after something else perhaps. -/
def Precedes (rules : List Rule) (m m' : Machine) : Prop :=
  ∀ stay turns last, Turns rules m' stay turns last → ∃ stay' turns', Turns rules m stay' turns' last

variable {functions : List Function}

theorem Precedes.refl (rules : List Rule) (m : Machine) : Precedes rules m m := fun stay turns _ h => ⟨stay, turns, h⟩

theorem Precedes.trans {m₁ : Machine} (h : Precedes rules m m₁) (h' : Precedes rules m₁ m') : Precedes rules m m' := by
  intro stay turns last hturns
  obtain ⟨stay', turns', hturns'⟩ := h' stay turns last hturns
  exact h stay' turns' last hturns'

theorem Turns.idle {stay : Option Stay} {turns : List Turn} {last : Machine} (h : Turns rules m stay turns last)
    (hidle : m.mainInput.current = none) : stay = none := by
  cases h with
  | record hcurrent => cases hidle.symm.trans hcurrent
  | finished hcurrent => cases hidle.symm.trans hcurrent
  | _ => rfl

theorem Turns.staying {stay : Option Stay} {turns : List Turn} {last : Machine} {i : Input}
    (h : Turns rules m stay turns last) (hcurrent : m.mainInput.current = some i) : ∃ s, stay = some s := by
  cases h with
  | record => exact ⟨_, rfl⟩
  | finished => exact ⟨_, rfl⟩
  | ended hidle => cases hidle.symm.trans hcurrent
  | passed hidle => cases hidle.symm.trans hcurrent
  | assigned hidle => cases hidle.symm.trans hcurrent
  | missed hidle => cases hidle.symm.trans hcurrent
  | read hidle => cases hidle.symm.trans hcurrent
  | standard hidle => cases hidle.symm.trans hcurrent

/-- An assignment leaves the main input alone. -/
theorem sameFeed_assignGlobal {name : Text} {v : Value} (h : (assignGlobal name v).run m = (.ok (), m')) :
    m.SameFeed m' := by
  have hkept := (storing_sameFeed.assignGlobal name v m (.refl m)).1
  rwa [h] at hkept

theorem sameFeed_onRecord {act : Variables → Record.Action Unit} {r : Except Interruption Unit}
    (h : (onRecord act).run m = (r, m')) : m.SameFeed m' := by
  cases h
  exact ⟨⟨rfl, rfl, rfl⟩, rfl, rfl, rfl⟩

/-- Nor has it to do with the world. -/
theorem world_assignGlobal {name : Text} {v : Value} (h : (assignGlobal name v).run m = (.ok (), m')) :
    m'.world = m.world := by
  have hkept := ((storing_world m.world).assignGlobal name v m rfl).1
  rwa [h] at hkept

theorem world_onRecord {act : Variables → Record.Action Unit} {r : Except Interruption Unit}
    (h : (onRecord act).run m = (r, m')) : m'.world = m.world :=
  (congrArg (fun p => p.2.world) h).symm

/-- The word that is next has its turn. -/
theorem precedes_of_openOperand (hm : Ready functions m) (hidle : m.mainInput.current = none)
    (hmore : m.more = .ok true) {t : Option Text} (hword : m.nextWord = .ok t) {opened : Bool}
    (h : (openOperand (t.getD [])).run m.turn = (.ok opened, m')) :
    Ready functions m' ∧ (m'.mainInput.current = none ↔ opened = false) ∧ Precedes rules m m' := by
  rcases openOperand_cases h with ⟨hempty, rfl, rfl⟩ | ⟨hnonempty, name, value, hassignment, rfl, hassign⟩ |
      ⟨hnonempty, hfile, hopen⟩
  · refine ⟨⟨hm.functions, hm.unexhausted⟩, iff_of_true hidle rfl, fun stay turns last hrest => ?_⟩
    obtain rfl := hrest.idle hidle
    exact ⟨none, _, .passed hidle hmore hword hempty hrest⟩
  · cases t with
    | none => exact absurd rfl hnonempty
    | some t =>
      have hfeed := sameFeed_assignGlobal hassign
      have hidle' : m'.mainInput.current = none := by
        rw [hfeed.mainInput]
        exact hidle
      refine ⟨⟨hfeed.functions.trans hm.functions, ?_⟩, iff_of_true hidle' rfl, fun stay turns last hrest => ?_⟩
      · rw [hfeed.mainInput]
        exact hm.unexhausted
      · obtain rfl := hrest.idle hidle'
        exact ⟨none, _, .assigned hidle hmore hword hassignment hassign hrest⟩
  · cases t with
    | none => exact absurd rfl hnonempty
    | some t =>
      rcases hopen with ⟨i, w, hopen, rfl, rfl⟩ | ⟨reason, w, hopen, rfl, rfl⟩
      · refine ⟨⟨hm.functions, hm.unexhausted⟩, iff_of_false nofun Bool.noConfusion, fun stay turns last hrest => ?_⟩
        obtain ⟨s, rfl⟩ := hrest.staying rfl
        exact ⟨none, _, .read hidle hmore hword hnonempty hfile hopen hrest⟩
      · refine ⟨⟨hm.functions, hm.unexhausted⟩, iff_of_true hidle rfl, fun stay turns last hrest => ?_⟩
        obtain rfl := hrest.idle hidle
        exact ⟨none, _, .missed hidle hmore hword hnonempty hfile hopen hrest⟩

/-- The words that are looked at until a file has been opened, or until none is left, have their turns. -/
theorem precedes_of_openNext (rules : List Rule) {opened : Bool} (hm : Ready functions m)
    (hidle : m.mainInput.current = none)
    (h : (openNext fuel).run m = (.ok opened, m')) : Ready functions m' ∧ Precedes rules m m' ∧
      (opened = false → m'.mainInput.current = none ∧ m'.more = .ok false ∧ m'.mainInput.usedFile = true) := by
  induction fuel generalizing m with
  | zero => cases h
  | succ fuel ih =>
    rcases openNext_cases h with ⟨hmore, t, hword, hoperand⟩ | ⟨hmore, hlast⟩
    · rcases hoperand with ⟨hoperand, rfl⟩ | ⟨m₁, hoperand, hrest⟩
      · obtain ⟨hm', -, hprecedes⟩ := precedes_of_openOperand hm hidle hmore hword hoperand
        exact ⟨hm', hprecedes, nofun⟩
      · obtain ⟨hm₁, hidle₁, hprecedes⟩ := precedes_of_openOperand hm hidle hmore hword hoperand
        obtain ⟨hm', hprecedes', hlast⟩ := ih hm₁ (hidle₁.2 rfl) hrest
        exact ⟨hm', hprecedes.trans hprecedes', hlast⟩
    · rcases hlast with ⟨hused, rfl, rfl⟩ | ⟨hunused, rfl, rfl⟩
      · exact ⟨hm, .refl rules m', fun _ => ⟨hidle, hmore, hused⟩⟩
      · refine ⟨⟨hm.functions, hm.unexhausted⟩, fun stay turns last hrest => ?_, nofun⟩
        obtain ⟨s, rfl⟩ := hrest.staying rfl
        exact ⟨none, _, .standard hidle hmore hunused hrest⟩

/-- A record comes from the current file, or from what is opened after it. -/
theorem nextRecord_cases {record : Option Text} (hm : m.mainInput.exhausted = false)
    (h : (nextRecord (fuel + 1)).run m = (.ok record, m')) :
    (m.mainInput.current = none ∧ ∃ opened m₁, (openNext fuel).run m = (.ok opened, m₁) ∧
        match opened with
        | true => (nextRecord fuel).run m₁ = (.ok record, m')
        | false => record = none ∧ m' = m₁.finishInput) ∨
      ∃ i separator result i' w, m.mainInput.current = some i ∧ m.separator = .ok separator ∧
        (World.readInput i separator).run m.world = (.ok (.ok result, i'), w) ∧
        match result with
        | some t => record = some t ∧ m' = ((m.fetched i' w).count "NR").count "FNR"
        | none => (nextRecord fuel).run (m.fetched i' w).leaveFile = (.ok record, m') := by
  unfold nextRecord at h
  rw [Action.run_bind, Action.run_get] at h
  dsimp only at h
  rw [hm] at h
  cases hcurrent : m.mainInput.current with
  | none =>
    rw [hcurrent] at h
    change (openNext fuel >>= fun opened => _ : Eval (Option Text)).run m = _ at h
    rw [Action.run_bind] at h
    refine .inl ⟨rfl, ?_⟩
    generalize (openNext fuel).run m = result at h ⊢
    obtain ⟨e | opened, m₁⟩ := result
    · cases h
    · refine ⟨opened, m₁, rfl, ?_⟩
      cases opened with
      | true => exact h
      | false =>
        cases h
        exact ⟨rfl, rfl⟩
  | some i =>
    rw [hcurrent] at h
    change (setting "RS" >>= fun separator => _ : Eval (Option Text)).run m = _ at h
    rw [Action.run_bind, run_setting_separator] at h
    cases hseparator : m.separator with
    | error f =>
      rw [hseparator] at h
      cases h
    | ok separator =>
      rw [hseparator] at h
      change (onWorld (World.readInput i separator) >>= fun _ => _ : Eval (Option Text)).run m = _ at h
      rw [Action.run_bind, run_onWorld] at h
      -- Reading gives an outcome in any case, which may be that the separator is bad.
      obtain ⟨outcome, i', w, hread⟩ : ∃ outcome i' w,
          (World.readInput i separator).run m.world = (.ok (outcome, i'), w) := ⟨_, _, _, World.run_readInput ..⟩
      rw [hread] at h
      change (modifyInput _ >>= fun _ => _ : Eval (Option Text)).run { m with world := w } = _ at h
      rw [Action.run_bind] at h
      change (ofExcept outcome >>= fun result => _ : Eval (Option Text)).run (m.fetched i' w) = _ at h
      rw [Action.run_bind, run_ofExcept] at h
      cases outcome with
      | error f => cases h
      | ok result =>
        refine .inr ⟨i, separator, result, i', w, rfl, rfl, hread, ?_⟩
        cases result with
        | none => exact h
        | some t =>
          cases h
          exact ⟨rfl, rfl⟩

/-- Where a record has come from: a file that is current after some turns; when there is none, the turns are over. -/
def Reaches (rules : List Rule) (m : Machine) (record : Option Text) (m' : Machine) : Prop :=
  match record with
  | none => ∃ stay turns, Turns rules m stay turns m'
  | some t => ∃ asked i separator i' w, Precedes rules m asked ∧ asked.mainInput.current = some i ∧
      asked.separator = .ok separator ∧ (World.readInput i separator).run asked.world = (.ok (.ok (some t), i'), w) ∧
      m' = ((asked.fetched i' w).count "NR").count "FNR"

theorem Reaches.of_precedes {record : Option Text} {m₁ : Machine} (hprecedes : Precedes rules m m₁)
    (h : Reaches rules m₁ record m') : Reaches rules m record m' := by
  cases record with
  | none =>
    obtain ⟨stay, turns, hturns⟩ := h
    exact hprecedes stay turns m' hturns
  | some t =>
    obtain ⟨asked, i, separator, i', w, hprecedes', hrest⟩ := h
    exact ⟨asked, i, separator, i', w, hprecedes.trans hprecedes', hrest⟩

/-- Until there is a record, or no more, words have their turns and files come to their ends. -/
theorem reaches_of_nextRecord (rules : List Rule) {record : Option Text} (hm : Ready functions m)
    (h : (nextRecord fuel).run m = (.ok record, m')) :
    Reaches rules m record m' ∧ (record ≠ none → Ready functions m') := by
  induction fuel generalizing m with
  | zero => cases h
  | succ fuel ih =>
    rcases nextRecord_cases hm.unexhausted h with ⟨hidle, opened, m₁, hopen, hrest⟩ |
        ⟨i, separator, result, i', w, hcurrent, hseparator, hread, hrest⟩
    · obtain ⟨hm₁, hprecedes, hlast⟩ := precedes_of_openNext rules hm hidle hopen
      cases opened with
      | true =>
        obtain ⟨hreaches, hready⟩ := ih hm₁ hrest
        exact ⟨hreaches.of_precedes hprecedes, hready⟩
      | false =>
        obtain ⟨rfl, rfl⟩ := hrest
        obtain ⟨hidle₁, hmore, hused⟩ := hlast rfl
        exact ⟨hprecedes none [] _ (.ended hidle₁ hmore hused), fun hne => absurd rfl hne⟩
    · cases result with
      | none =>
        have hleft : Ready functions (m.fetched i' w).leaveFile := ⟨hm.functions, hm.unexhausted⟩
        have hprecedes : Precedes rules m (m.fetched i' w).leaveFile := by
          intro stay turns last hrest'
          obtain rfl := hrest'.idle rfl
          exact ⟨_, _, .finished hcurrent hseparator hread hrest'⟩
        obtain ⟨hreaches, hready⟩ := ih hleft hrest
        exact ⟨hreaches.of_precedes hprecedes, hready⟩
      | some t =>
        obtain ⟨rfl, rfl⟩ := hrest
        exact ⟨⟨m, i, separator, i', w, .refl rules m, hcurrent, hseparator, hread, rfl⟩,
          fun _ => ⟨hm.functions, hm.unexhausted⟩⟩

/-- The main loop ends when there is no more record.  Otherwise it goes on when the rules have been run on the record,
unless they have left the file. -/
theorem runRecords_cases (h : (runRecords rules (fuel + 1)).run m = (.ok (), m')) :
    (nextRecord fuel).run m = (.ok none, m') ∨
      ∃ t counted found left, (nextRecord fuel).run m = (.ok (some t), counted) ∧
        (onRecord fun vars => Record.setText vars t).run counted = (.ok (), found) ∧
        ((runRules fuel 0 rules).run found = (.error .nextFile, left) ∨
          ((runRules fuel 0 rules).run found = (.ok (), left) ∨
            (runRules fuel 0 rules).run found = (.error .next, left)) ∧
          (runRecords rules fuel).run left = (.ok (), m')) := by
  unfold runRecords at h
  rw [Action.run_bind] at h
  generalize (nextRecord fuel).run m = next at h ⊢
  obtain ⟨e | record, counted⟩ := next
  · cases h
  · cases record with
    | none =>
      cases h
      exact .inl rfl
    | some t =>
      change (onRecord _ >>= fun _ => _ : Eval Unit).run counted = _ at h
      rw [Action.run_bind] at h
      generalize hset : (onRecord fun vars => Record.setText vars t).run counted = set at h
      obtain ⟨e | ⟨⟩, found⟩ := set
      · cases h
      · dsimp only at h
        rw [Action.run_bind, run_catching] at h
        generalize hrun : (runRules fuel 0 rules).run found = result at h
        obtain ⟨result, left⟩ := result
        refine .inr ⟨t, counted, found, left, rfl, hset, ?_⟩
        rw [hrun]
        cases result with
        | ok u => exact .inr ⟨.inl rfl, h⟩
        | error e =>
          cases e with
          | next => exact .inr ⟨.inr rfl, h⟩
          | nextFile => exact .inl rfl
          | _ => cases h

/-- A run of the main loop to its end gives all words their turns. -/
theorem turns_of_runRecords
    (hrules : ∀ fuel (found : Machine), found.functions = functions →
      Stays found.SameFeed LeavesNothing (runRules fuel 0 rules))
    (hm : Ready functions m) (h : (runRecords rules fuel).run m = (.ok (), m')) :
    ∃ stay turns, Turns rules m stay turns m' := by
  induction fuel generalizing m with
  | zero => cases h
  | succ fuel ih =>
    rcases runRecords_cases h with hnext | ⟨t, counted, found, left, hnext, hset, hround⟩
    · exact (reaches_of_nextRecord rules hm hnext).1
    · obtain ⟨hreaches, hready⟩ := reaches_of_nextRecord rules hm hnext
      obtain ⟨asked, i, separator, i', w, hprecedes, hcurrent, hseparator, hread, rfl⟩ := hreaches
      obtain ⟨hfunctions, hunexhausted⟩ := hready nofun
      have hkept := sameFeed_onRecord hset
      obtain ⟨hfeed, hout⟩ := hrules fuel found (hkept.functions.trans hfunctions) found (.refl found)
      rcases hround with hrun | ⟨hrun, hrest⟩
      · rw [hrun] at hout
        exact absurd rfl hout.1
      · replace hfeed : found.SameFeed left := by rcases hrun with hrun | hrun <;> (rw [hrun] at hfeed; exact hfeed)
        have hinput := hfeed.mainInput.trans hkept.mainInput
        have hleft : Ready functions left := by
          refine ⟨hfeed.functions.trans (hkept.functions.trans hfunctions), ?_⟩
          rw [hinput]
          exact hunexhausted
        obtain ⟨stay, turns, hturns⟩ := ih hleft hrest
        obtain ⟨⟨rounds, ended, last⟩, rfl⟩ := hturns.staying (show left.mainInput.current = some i' by rw [hinput]; rfl)
        exact hprecedes _ _ _ (.record hcurrent hseparator hread hset ⟨fuel, hrun⟩ hfeed hturns)

end Eval

end Awk
