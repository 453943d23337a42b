import Awk.Proofs.Counting
import Awk.Proofs.Machine.Bindings
import Awk.Proofs.MainInput.Turns

/-!
# The order of the main input

As long as the program keeps its hands off the counters and the words, the turns are those of the words, in their order
(`Turns.ordered`), and the counters count the records, those of all files (`Turns.overall`) and those of the current
one (`Turns.inFile`).
-/

namespace Awk

namespace Store

theorem globals_setGlobal (s : Store) (name name' : Text) (v : Value) :
    (s.setGlobal name v).globals.lookup name' = if name' = name then some (.scalar v) else s.globals.lookup name' :=
  Table.lookup_bind s.globals name name' _

end Store

namespace Machine

/-! ### What the main loop relies on -/

/-- The names in which the main loop keeps its counts and finds the words. -/
def watched : List String := ["ARGC", "ARGV", "NR", "FNR", "FILENAME"]

/-- What the word at a place says, which is nothing if there is none. -/
def said (m : Machine) (k : Nat) : Value := (m.word k).getD .unset

/-- The words say what they said, and their number is as it was. -/
structure SameWords (start m : Machine) : Prop where
  count : m.number "ARGC" = start.number "ARGC"
  words : ∀ k, m.said k = start.said k

/-- What the main loop relies on is as it was. -/
structure SameWatch (start m : Machine) : Prop where
  bindings : ∀ name ∈ watched, m.store.globals.lookup name.toList = start.store.globals.lookup name.toList
  words : ∀ k, m.said k = start.said k

variable {start m m' : Machine} {name other : String} {v : Value}

theorem SameWords.trans (h : start.SameWords m) (h' : m.SameWords m') : start.SameWords m' :=
  ⟨h'.count.trans h.count, fun k => (h'.words k).trans (h.words k)⟩

theorem SameWatch.global? (h : start.SameWatch m) (hname : name ∈ watched) :
    m.store.global? name.toList = start.store.global? name.toList := by
  unfold Store.global?
  rw [h.bindings name hname]

theorem SameWatch.number (h : start.SameWatch m) (hname : name ∈ watched) : m.number name = start.number name := by
  unfold Machine.number
  rw [h.global? hname]

theorem SameWatch.sameWords (h : start.SameWatch m) : start.SameWords m := ⟨h.number (by decide), h.words⟩

theorem SameWatch.of_store (h : m.store = start.store) : start.SameWatch m := by
  refine ⟨fun name _ => by rw [h], fun k => ?_⟩
  unfold said word
  rw [h]

theorem global?_setGlobal (s : Store) (name name' : Text) (v : Value) :
    (s.setGlobal name v).global? name' = if name' = name then some v else s.global? name' := by
  unfold Store.global?
  rw [Store.globals_setGlobal]
  by_cases hname : name' = name
  · rw [if_pos hname, if_pos hname]
  · rw [if_neg hname, if_neg hname]

/-- A global that is set is no word, and the other globals stay. -/
theorem sameWords_setGlobal (m : Machine) (name : String) (hargc : "ARGC".toList ≠ name.toList)
    (hargv : "ARGV".toList ≠ name.toList) (v : Value) :
    m.SameWords { m with store := m.store.setGlobal name.toList v } := by
  refine ⟨?_, fun k => ?_⟩
  · unfold number
    rw [global?_setGlobal, if_neg hargc]
  · unfold said word
    rw [Store.globals_setGlobal, if_neg hargv]
    rfl

theorem sameWords_begin (m : Machine) (name : Text) (i : Input) : m.SameWords (m.begin name i) := by
  have hname := m.sameWords_setGlobal "FILENAME" (by decide) (by decide) (.str name)
  have hcount := hname.trans (sameWords_setGlobal _ "FNR" (by decide) (by decide) (.num .zero))
  exact ⟨hcount.count, hcount.words⟩

theorem sameWords_count (m : Machine) (name : String) (hargc : "ARGC".toList ≠ name.toList)
    (hargv : "ARGV".toList ≠ name.toList) : m.SameWords (m.count name) :=
  m.sameWords_setGlobal name hargc hargv _

theorem number_count (m : Machine) (name other : String) :
    (m.count name).number other = if other.toList = name.toList then (m.number other).add .one else m.number other := by
  unfold count number
  rw [global?_setGlobal]
  split
  · rename_i heq
    rw [heq]
    rfl
  · rfl

theorem number_begin (m : Machine) (name : Text) (i : Input) :
    (m.begin name i).number "NR" = m.number "NR" ∧ (m.begin name i).number "FNR" = .zero := by
  unfold begin number
  refine ⟨?_, ?_⟩
  · rw [global?_setGlobal, if_neg (by decide), global?_setGlobal, if_neg (by decide)]
  · rw [global?_setGlobal, if_pos rfl]
    rfl

theorem fileName_begin (m : Machine) (name : Text) (i : Input) :
    (m.begin name i).store.global? "FILENAME".toList = some (.str name) := by
  unfold begin
  rw [global?_setGlobal, if_neg (by decide), global?_setGlobal, if_pos rfl]

/-- An assignment binds the name, unless it fails or counts the fields, which is for the record. -/
theorem store_assignSlot {slot : Slot} {r : Except Interruption Value}
    (h : (Eval.assignSlot slot v).run m = (r, m')) :
    m'.store = m.store ∧ (∀ u, r = .ok u → Eval.isFieldCount slot = true) ∨
      m.store.setScalar slot v = .ok m'.store := by
  unfold Eval.assignSlot at h
  rw [Action.run_bind, Action.run_get] at h
  dsimp only at h
  rw [Action.run_bind, Eval.run_ofExcept] at h
  cases hstore : m.store.setScalar slot v with
  | error f =>
    rw [hstore] at h
    cases h
    exact .inl ⟨rfl, nofun⟩
  | ok store =>
    rw [hstore] at h
    change (if Eval.isFieldCount slot then _ else _ : Eval Value).run m = _ at h
    split at h
    · rename_i hcount
      refine .inl ⟨?_, fun _ _ => hcount⟩
      rw [Action.run_bind, Eval.run_ofExcept] at h
      cases hnumber : v.toNumber.toInt with
      | error f =>
        rw [hnumber] at h
        cases h
        rfl
      | ok count =>
        rw [hnumber] at h
        change (Eval.onRecord _ >>= fun _ => _ : Eval Value).run m = _ at h
        rw [Action.run_bind] at h
        generalize hrecord : (Eval.onRecord fun vars => Record.setCount vars count).run m = result at h
        obtain ⟨result, m₁⟩ := result
        have hsame : m₁.store = m.store := (congrArg (fun p => p.2.store) hrecord).symm
        cases result <;> cases h <;> exact hsame
    · cases h
      exact .inr rfl

theorem store_assignGlobal {name : Text} {r : Except Interruption Unit}
    (h : (Eval.assignGlobal name v).run m = (r, m')) :
    m'.store = m.store ∧ (∀ u, r = .ok u → name = Eval.fieldCountName) ∨ m'.store = m.store.setGlobal name v := by
  unfold Eval.assignGlobal at h
  rw [Action.run_bind] at h
  generalize hassign : (Eval.assignSlot ⟨.globals, name⟩ v).run m = result at h
  obtain ⟨result, m₁⟩ := result
  obtain rfl : m₁ = m' := by cases result <;> cases h <;> rfl
  rcases store_assignSlot hassign with ⟨hsame, hcount⟩ | hstore
  · refine .inl ⟨hsame, fun u hu => ?_⟩
    cases result with
    | error e =>
      cases h
      cases hu
    | ok value => simpa [Eval.isFieldCount] using hcount value rfl
  · refine .inr ?_
    unfold Store.setScalar at hstore
    split at hstore
    · cases hstore
    · exact (Except.ok.inj hstore).symm

/-- A name that is assigned to has the value then, unless it is for the record. -/
theorem global?_assignGlobal {name : Text} (hname : name ≠ Eval.fieldCountName)
    (h : (Eval.assignGlobal name v).run m = (.ok (), m')) : m'.store.global? name = some v := by
  rcases store_assignGlobal h with ⟨-, hcount⟩ | hstore
  · exact absurd (hcount () rfl) hname
  · rw [hstore, global?_setGlobal, if_pos rfl]

/-- An assignment to another name leaves what the main loop relies on. -/
theorem sameWatch_assignGlobal {name : Text} (hname : ∀ other ∈ watched, other.toList ≠ name)
    (h : (Eval.assignGlobal name v).run m = (.ok (), m')) : m.SameWatch m' := by
  rcases store_assignGlobal h with ⟨hsame, -⟩ | hsame
  · exact .of_store hsame
  · refine ⟨fun other hother => ?_, fun k => ?_⟩
    · rw [hsame, Store.globals_setGlobal, if_neg (hname other hother)]
    · unfold said word
      rw [hsame, Store.globals_setGlobal, if_neg (hname "ARGV" (by decide))]
      rfl

/-! ### Words -/

/-- The words from a place on, up to the number that is counted. -/
def wordsFrom (m : Machine) (k : Nat) : List Value :=
  match (m.number "ARGC").toInt with
  | .ok count => (List.range' k (count - k).toNat).map m.said
  | .error _ => []

theorem more_eq_ok {more : Bool} (h : m.more = .ok more) :
    ∃ count, (m.number "ARGC").toInt = .ok count ∧ more = decide ((m.mainInput.nextOperand : Int) < count) := by
  obtain ⟨count, hcount, hmore⟩ := Action.bind_eq_ok.1 h
  exact ⟨count, hcount, (Except.ok.inj hmore).symm⟩

theorem wordsFrom_of_more (hwords : start.SameWords m) (h : m.more = .ok true) :
    start.wordsFrom m.mainInput.nextOperand =
      m.said m.mainInput.nextOperand :: start.wordsFrom (m.mainInput.nextOperand + 1) := by
  obtain ⟨count, hcount, hmore⟩ := more_eq_ok h
  have hlt := of_decide_eq_true hmore.symm
  have hlength : (count - m.mainInput.nextOperand).toNat = (count - (m.mainInput.nextOperand + 1 : Nat)).toNat + 1 := by
    omega
  unfold wordsFrom
  rw [← hwords.count, hcount]
  dsimp only
  rw [hlength, List.range'_succ, List.map_cons, hwords.words]

theorem wordsFrom_of_not_more (hwords : start.SameWords m) (h : m.more = .ok false) :
    start.wordsFrom m.mainInput.nextOperand = [] := by
  obtain ⟨count, hcount, hmore⟩ := more_eq_ok h
  have hle := of_decide_eq_false hmore.symm
  have hlength : (count - m.mainInput.nextOperand).toNat = 0 := by omega
  unfold wordsFrom
  rw [← hwords.count, hcount]
  dsimp only
  rw [hlength]
  rfl

theorem said_of_nextWord {t : Option Text} (h : m.nextWord = .ok t) :
    ∃ format, (m.said m.mainInput.nextOperand).toText format = .ok (t.getD []) := by
  unfold nextWord at h
  unfold said
  cases hword : m.word m.mainInput.nextOperand with
  | none =>
    rw [hword] at h
    cases h
    exact ⟨[], rfl⟩
  | some v =>
    rw [hword] at h
    obtain ⟨format, -, h⟩ := Action.bind_eq_ok.1 h
    obtain ⟨text, htext, h⟩ := Action.bind_eq_ok.1 h
    cases h
    exact ⟨format, htext⟩

end Machine

namespace Turn

/-- The records that a turn has given. -/
def rounds : Turn → List Round
  | .read _ _ stay | .standard _ stay => stay.rounds
  | _ => []

/-- The word names a file. -/
def isFile : Turn → Bool
  | .missed .. | .read .. => true
  | _ => false

def isMissed : Turn → Bool
  | .missed .. => true
  | _ => false

/-- What has become of a word is what it says. -/
inductive Fits : Value → Turn → Prop
  | passed {v format} (h : v.toText format = .ok []) : Fits v .passed
  | assigned {v format t name value} (h : v.toText format = .ok t) (hassignment : assignment? t = some (name, value))
    (made : Machine) : Fits v (.assigned name value made)
  | missed {v format t} (h : v.toText format = .ok t) (hnonempty : t ≠ []) (hfile : assignment? t = none)
    (asked : Machine) : Fits v (.missed t asked)
  | read {v format t} (h : v.toText format = .ok t) (hnonempty : t ≠ []) (hfile : assignment? t = none)
    (opened : Machine) (stay : Stay) : Fits v (.read t opened stay)

/-- The words have had their turns in order, and then the standard input, if no word has been that of a file. -/
inductive Matches : Bool → List Value → List Turn → Prop
  | used : Matches true [] []
  | unused (opened : Machine) (stay : Stay) : Matches false [] [.standard opened stay]
  | word {used v words turn turns} (hfits : Fits v turn) (hrest : Matches (used || turn.isFile) words turns) :
    Matches used (v :: words) (turn :: turns)

variable {used : Bool} {words : List Value} {turns : List Turn}

/-- The standard input has a turn, the last one, if and only if no word is that of a file. -/
theorem Matches.standard (h : Matches used words turns) :
    if used || turns.any isFile then ∀ opened s, .standard opened s ∉ turns
    else ∃ before opened s, turns = before ++ [.standard opened s] ∧ ∀ opened s, .standard opened s ∉ before := by
  induction h with
  | used => exact fun _ _ => List.not_mem_nil
  | unused opened s => exact ⟨[], opened, s, rfl, fun _ _ => List.not_mem_nil⟩
  | @word used v words first turns hfits hrest ih =>
    have hfirst (opened : Machine) (s : Stay) : .standard opened s ≠ first := by
      rintro rfl
      cases hfits
    rw [List.any_cons, ← Bool.or_assoc]
    split at ih
    · rename_i hfile
      rw [if_pos hfile]
      exact fun opened s hmem => (List.mem_cons.1 hmem).elim (hfirst opened s) (ih opened s)
    · rename_i hfile
      obtain ⟨before, opened, s, rfl, hbefore⟩ := ih
      rw [if_neg hfile]
      refine ⟨first :: before, opened, s, rfl, fun opened s hmem => ?_⟩
      exact (List.mem_cons.1 hmem).elim (hfirst opened s) (hbefore opened s)

end Turn

namespace Eval

/-- The records of a stay and of the turns after it. -/
def roundsOf (stay : Option Stay) (turns : List Turn) : List Round :=
  stay.elim [] Stay.rounds ++ turns.flatMap Turn.rounds

/-- A word does nothing to what the main loop relies on. -/
def Harmless (v : Value) : Prop :=
  ∀ format t name value, v.toText format = .ok t → assignment? t = some (name, value) →
    ∀ other ∈ Machine.watched, other.toList ≠ name

/-- No assignment has been to what the main loop relies on. -/
def NoneWatched (turns : List Turn) : Prop :=
  ∀ name value made, .assigned name value made ∈ turns → ∀ other ∈ Machine.watched, other.toList ≠ name

theorem NoneWatched.tail {turn : Turn} {turns : List Turn} (h : NoneWatched (turn :: turns)) : NoneWatched turns :=
  fun name value made hmem => h name value made (List.mem_cons_of_mem _ hmem)

/-- The rules do nothing to what the main loop relies on. -/
def Untouched (rounds : List Round) : Prop := ∀ round ∈ rounds, round.found.SameWatch round.left

variable {rules : List Rule} {start m m' : Machine} {stay : Option Stay} {turns : List Turn}

theorem roundsOf_read (name : Text) (opened : Machine) (s : Stay) (turns : List Turn) :
    roundsOf none (.read name opened s :: turns) = roundsOf (some s) turns := by
  simp [roundsOf, Turn.rounds]

theorem roundsOf_standard (opened : Machine) (s : Stay) (turns : List Turn) :
    roundsOf none (.standard opened s :: turns) = roundsOf (some s) turns := by
  simp [roundsOf, Turn.rounds]

theorem roundsOf_record (round : Round) (rounds : List Round) (ended : Machine) (last : Text) (turns : List Turn) :
    roundsOf (some ⟨round :: rounds, ended, last⟩) turns = round :: roundsOf (some ⟨rounds, ended, last⟩) turns := rfl

/-- The state in which the rules find a record has its counters, and the words as they were. -/
theorem found_store {i' : Input} {w : World} {t : Text} {found : Machine}
    (hset : (onRecord fun vars => Record.setText vars t).run (((m.fetched i' w).count "NR").count "FNR") =
      (.ok (), found)) : found.store = ((m.fetched i' w).count "NR" |>.count "FNR").store :=
  (congrArg (fun p => p.2.store) hset).symm

theorem sameWords_found {i' : Input} {w : World} {t : Text} {found : Machine}
    (hset : (onRecord fun vars => Record.setText vars t).run (((m.fetched i' w).count "NR").count "FNR") =
      (.ok (), found)) : m.SameWords found := by
  have hfetched : m.SameWords (m.fetched i' w) := ⟨rfl, fun _ => rfl⟩
  have hcounted := (hfetched.trans (Machine.sameWords_count _ "NR" (by decide) (by decide))).trans
    (Machine.sameWords_count _ "FNR" (by decide) (by decide))
  exact hcounted.trans (Machine.SameWatch.of_store (found_store hset)).sameWords

/-- What the turns are to match, and which names are assigned to. -/
def Ordered (start m : Machine) (turns : List Turn) : Prop :=
  Turn.Matches m.mainInput.usedFile (start.wordsFrom m.mainInput.nextOperand) turns ∧ NoneWatched turns

/-- The turn of a word, and then those of the words after it. -/
theorem Ordered.turn {turn : Turn} (h : Ordered start m' turns) (hwords : start.SameWords m) (hmore : m.more = .ok true)
    (hfits : turn.Fits (m.said m.mainInput.nextOperand))
    (hassigned : ∀ name value made, turn = .assigned name value made → ∀ other ∈ Machine.watched, other.toList ≠ name)
    (hnext : m'.mainInput.nextOperand = m.mainInput.nextOperand + 1)
    (hused : m'.mainInput.usedFile = (m.mainInput.usedFile || turn.isFile)) :
    Ordered start m (turn :: turns) := by
  obtain ⟨hmatches, hassignments⟩ := h
  rw [hnext, hused] at hmatches
  refine ⟨?_, fun name value made hmem => ?_⟩
  · rw [Machine.wordsFrom_of_more hwords hmore]
    exact .word hfits hmatches
  · rcases List.mem_cons.1 hmem with heq | hmem
    · exact hassigned name value made heq.symm
    · exact hassignments name value made hmem

/-- The turns are those of the words in their order. -/
theorem Turns.ordered (h : Turns rules m stay turns m') (hwords : start.SameWords m)
    (hharmless : ∀ v ∈ start.wordsFrom m.mainInput.nextOperand, Harmless v)
    (huntouched : Untouched (roundsOf stay turns)) : Ordered start m turns := by
  -- What comes after a word's turn is known from the induction, for words that are harmless like all.
  have hlater {m : Machine} (hwords : start.SameWords m) (hmore : m.more = .ok true)
      (hharmless : ∀ v ∈ start.wordsFrom m.mainInput.nextOperand, Harmless v) :
      ∀ v ∈ start.wordsFrom (m.mainInput.nextOperand + 1), Harmless v := fun v hv => by
    refine hharmless v ?_
    rw [Machine.wordsFrom_of_more hwords hmore]
    exact List.mem_cons_of_mem _ hv
  induction h with
  | ended hidle hmore hused =>
    refine ⟨?_, fun name value made hmem => absurd hmem List.not_mem_nil⟩
    rw [Machine.wordsFrom_of_not_more hwords hmore, hused]
    exact .used
  | passed hidle hmore hword hempty hrest ih =>
    have hrest := ih ⟨hwords.count, hwords.words⟩ (hlater hwords hmore hharmless) huntouched
    refine hrest.turn hwords hmore ?_ (fun _ _ _ heq => nomatch heq) rfl (Bool.or_false _).symm
    obtain ⟨format, htext⟩ := Machine.said_of_nextWord hword
    rw [hempty] at htext
    exact .passed htext
  | @assigned m t name value m₁ turns m' hidle hmore hword hassignment hassign hrest ih =>
    obtain ⟨format, htext⟩ := Machine.said_of_nextWord hword
    have hmem : m.said m.mainInput.nextOperand ∈ start.wordsFrom m.mainInput.nextOperand := by
      rw [Machine.wordsFrom_of_more hwords hmore]
      exact List.mem_cons_self
    have hname := hharmless _ hmem format t name value htext hassignment
    have hsame := (Machine.sameWatch_assignGlobal hname hassign).sameWords
    have hinput : m₁.mainInput = m.turn.mainInput := (sameFeed_assignGlobal hassign).mainInput
    have hrest : Ordered start m₁ turns := by
      refine ih (hwords.trans ⟨hsame.count, hsame.words⟩) ?_ huntouched
      rw [hinput]
      exact hlater hwords hmore hharmless
    refine hrest.turn hwords hmore ?_ (fun name' value' made heq => by cases heq; exact hname) ?_ ?_
    · exact .assigned htext hassignment _
    · rw [hinput]
      rfl
    · rw [hinput]
      exact (Bool.or_false _).symm
  | missed hidle hmore hword hnonempty hfile hopen hrest ih =>
    obtain ⟨format, htext⟩ := Machine.said_of_nextWord hword
    have hrest := ih ⟨hwords.count, hwords.words⟩ (hlater hwords hmore hharmless) huntouched
    refine hrest.turn hwords hmore ?_ (fun _ _ _ heq => nomatch heq) rfl (Bool.or_true _).symm
    exact .missed htext hnonempty hfile _
  | @read m t i w stay turns m' hidle hmore hword hnonempty hfile hopen hrest ih =>
    obtain ⟨format, htext⟩ := Machine.said_of_nextWord hword
    have hopened : m.SameWords { m.turn with world := w } := ⟨rfl, fun _ => rfl⟩
    rw [roundsOf_read] at huntouched
    have hrest := ih (hwords.trans (hopened.trans (Machine.sameWords_begin _ t i))) (hlater hwords hmore hharmless)
      huntouched
    refine hrest.turn hwords hmore ?_ (fun _ _ _ heq => nomatch heq) rfl (Bool.or_true _).symm
    exact .read htext hnonempty hfile _ _
  | @standard m stay turns m' hidle hmore hunused hrest ih =>
    rw [roundsOf_standard] at huntouched
    obtain ⟨hmatches, hassignments⟩ := ih (hwords.trans (m.sameWords_begin _ _)) hharmless huntouched
    have hempty : start.wordsFrom m.mainInput.nextOperand = [] := Machine.wordsFrom_of_not_more hwords hmore
    have hmatches : Turn.Matches true (start.wordsFrom m.mainInput.nextOperand) turns := hmatches
    rw [hempty] at hmatches
    cases hmatches
    refine ⟨?_, fun name value made hmem => ?_⟩
    · rw [hempty, hunused]
      exact .unused _ _
    · rcases List.mem_cons.1 hmem with heq | hmem
      · cases heq
      · exact hassignments name value made hmem
  | @record m i separator t i' w found left rounds ended last turns m' hcurrent hseparator hread hset hrules hfeed hrest
      ih =>
    rw [roundsOf_record] at huntouched
    obtain ⟨hround, huntouched⟩ := List.forall_mem_cons.1 huntouched
    have hinput : left.mainInput = (m.fetched i' w).mainInput :=
      hfeed.mainInput.trans (sameFeed_onRecord hset).mainInput
    have hleft : start.SameWords left := hwords.trans ((sameWords_found hset).trans hround.sameWords)
    have hrest : Ordered start left turns := by
      refine ih hleft ?_ huntouched
      rw [hinput]
      exact hharmless
    unfold Ordered at hrest
    rw [hinput] at hrest
    exact hrest
  | finished hcurrent hseparator hread hrest ih => exact ih ⟨hwords.count, hwords.words⟩ hharmless huntouched

/-! ### Counters -/

/-- Both counters have gone up by one where the rules find a record, in the same file. -/
theorem counters_found {i' : Input} {w : World} {t : Text} {found : Machine}
    (hset : (onRecord fun vars => Record.setText vars t).run (((m.fetched i' w).count "NR").count "FNR") =
      (.ok (), found)) :
    found.number "NR" = (m.number "NR").add .one ∧ found.number "FNR" = (m.number "FNR").add .one ∧
      found.store.global? "FILENAME".toList = m.store.global? "FILENAME".toList := by
  have hnumber (name : String) : found.number name = (((m.fetched i' w).count "NR").count "FNR").number name := by
    unfold Machine.number
    rw [found_store hset]
  refine ⟨?_, ?_, ?_⟩
  · rw [hnumber, Machine.number_count, if_neg (by decide), Machine.number_count, if_pos rfl]
    rfl
  · rw [hnumber, Machine.number_count, if_pos rfl, Machine.number_count, if_neg (by decide)]
    rfl
  · rw [found_store hset]
    unfold Machine.count
    rw [Machine.global?_setGlobal, if_neg (by decide), Machine.global?_setGlobal, if_neg (by decide)]
    rfl

/-- The first record counts, and then the others count on. -/
theorem counted_cons {name : String} {first : Round} {rest : List Round} {n : Number}
    (hfirst : first.found.number name = n.add .one)
    (hrest : ∀ j round, rest[j]? = some round →
      round.found.number name = (fun n : Number => n.add .one)^[j + 1] (first.found.number name))
    (j : Nat) (round : Round) (h : (first :: rest)[j]? = some round) :
    round.found.number name = (fun n : Number => n.add .one)^[j + 1] n := by
  cases j with
  | zero =>
    cases h
    exact hfirst
  | succ j =>
    rw [Function.iterate_succ_apply, ← hfirst]
    exact hrest j round h

/-- The records are counted through all files. -/
theorem Turns.overall (h : Turns rules m stay turns m') (huntouched : Untouched (roundsOf stay turns))
    (hnames : NoneWatched turns)
    (j : Nat) (round : Round) (hround : (roundsOf stay turns)[j]? = some round) :
    round.found.number "NR" = (fun n : Number => n.add .one)^[j + 1] (m.number "NR") := by
  induction h generalizing j round with
  | ended hidle hmore hused => cases hround
  | passed hidle hmore hword hempty hrest ih =>
    exact ih huntouched hnames.tail j round hround
  | @assigned m t name value m₁ turns m' hidle hmore hword hassignment hassign hrest ih =>
    have hname := hnames name value m₁ List.mem_cons_self
    have hsame : m₁.number "NR" = m.number "NR" := (Machine.sameWatch_assignGlobal hname hassign).number (by decide)
    rw [← hsame]
    exact ih huntouched hnames.tail j round hround
  | missed hidle hmore hword hnonempty hfile hopen hrest ih =>
    exact ih huntouched hnames.tail j round hround
  | @read m t i w stay turns m' hidle hmore hword hnonempty hfile hopen hrest ih =>
    rw [roundsOf_read] at huntouched hround
    have hsame : ({ m.turn with world := w }.begin t i).number "NR" = m.number "NR" := (Machine.number_begin ..).1
    rw [← hsame]
    exact ih huntouched hnames.tail j round hround
  | @standard m stay turns m' hidle hmore hunused hrest ih =>
    rw [roundsOf_standard] at huntouched hround
    have hsame : (m.begin [] (.ofOrigin .standard)).number "NR" = m.number "NR" := (Machine.number_begin ..).1
    rw [← hsame]
    exact ih huntouched hnames.tail j round hround
  | record hcurrent hseparator hread hset hrules hfeed hrest ih =>
    rw [roundsOf_record] at huntouched hround
    obtain ⟨hkept, huntouched⟩ := List.forall_mem_cons.1 huntouched
    refine counted_cons (counters_found hset).1 (fun j round hround => ?_) j round hround
    rw [← hkept.number (by decide)]
    exact ih huntouched hnames j round hround
  | finished hcurrent hseparator hread hrest ih => exact ih huntouched hnames j round hround

/-- The records of a file are counted from where the counter stands, and the file stays the current one. -/
theorem Turns.inFile {s : Stay} (h : Turns rules m (some s) turns m') (huntouched : Untouched s.rounds) :
    (∀ j round, s.rounds[j]? = some round →
        round.found.number "FNR" = (fun n : Number => n.add .one)^[j + 1] (m.number "FNR")) ∧
      ∀ round ∈ s.rounds,
        round.found.store.global? "FILENAME".toList = m.store.global? "FILENAME".toList := by
  obtain ⟨rounds, ended, last⟩ := s
  induction rounds generalizing m with
  | nil => exact ⟨fun j round hround => by simp at hround, fun round hmem => absurd hmem List.not_mem_nil⟩
  | cons round rounds ih =>
    cases h with
    | record hcurrent hseparator hread hset hrules hfeed hrest =>
      obtain ⟨hkept, huntouched⟩ := List.forall_mem_cons.1 huntouched
      obtain ⟨-, hcount, hname⟩ := counters_found hset
      obtain ⟨hcounts, hnames⟩ := ih hrest huntouched
      refine ⟨counted_cons hcount fun j round hround => ?_, List.forall_mem_cons.2 ⟨hname, fun round hmem => ?_⟩⟩
      · rw [← hkept.number (by decide)]
        exact hcounts j round hround
      · exact (hnames round hmem).trans ((hkept.global? (by decide)).trans hname)

end Eval

end Awk
