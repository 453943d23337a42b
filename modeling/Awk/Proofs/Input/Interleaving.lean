import Awk.Machine.Expr
import Awk.Proofs.Closing
import Awk.Proofs.Input.Apart

/-!
# Readers of different files

Reads from files by name, reads of the main input and closing may come in any order, with anything between them that
leaves the input streams alone (`Interleaving`).  Whatever the order, the reads from a file give what one fresh reader of
the file would give, from the last time that the file was closed, and the main input gives what it would give alone
(`readers_apart`).
-/

namespace Awk

/-- The only faults of an expression are its own. -/
theorem compileEre_ne_cannotOpen (ere target : Text) (reason : OpenReason) :
    compileEre ere ≠ .error (.cannotOpen target reason) := by
  unfold compileEre
  split
  · exact fun h => by cases h
  · split <;> exact fun h => by cases h

theorem Reader.readRecord_ne_cannotOpen (r : Reader) (separator target : Text) (reason : OpenReason) :
    (r.readRecord separator).1 ≠ .error (.cannotOpen target reason) := by
  unfold readRecord
  split
  · exact fun h => by cases h
  · exact fun h => by cases h
  · have hcompile := compileEre_ne_cannotOpen separator target reason
    split
    · rename_i fault hfault
      rw [hfault] at hcompile
      exact fun h => hcompile (by rw [Except.error.inj h])
    · exact fun h => by cases h

/-! ### Interleavings -/

/-- What happens to the input streams: a read from a file, a read of the main input in a state, closing, and everything
else. -/
inductive InputEvent where
  | read (name separator : Text) (result : Except Interruption (Option (Option Text)))
  | main (fuel : Nat) (before : Machine) (result : Except Interruption (Option Text))
  | close (name : Text)
  | other

/-- Ordinary files by name: where each is and what stands in it. -/
abbrev FixedFiles := Text → Option (Path × Text)

def Machine.Holds (m : Machine) (fixed : FixedFiles) : Prop :=
  ∀ name path t, fixed name = some (path, t) → m.world.Holds name path t

/-- One event on the input streams. -/
inductive InputStep (fixed : FixedFiles) : Machine → InputEvent → Machine → Prop
  | read {m : Machine} {name separator : Text} (hfixed : (fixed name).isSome)
      (hseparator : (Eval.setting "RS").run m = (.ok separator, m)) :
      InputStep fixed m (.read name separator ((Eval.readStream .file name).run m).1)
        ((Eval.readStream .file name).run m).2
  | main (m : Machine) (fuel : Nat) :
      InputStep fixed m (.main fuel m ((Eval.nextRecord fuel).run m).1) ((Eval.nextRecord fuel).run m).2
  | close (m : Machine) (name : Text) :
      InputStep fixed m (.close name) ((Eval.onWorld (World.close name)).run m).2
  | other {m m' : Machine}
      (hinputs : ∀ name, (fixed name).isSome → m'.world.inputs.lookup name = m.world.inputs.lookup name)
      (hinput : m'.world.input = m.world.input) (hmain : m'.mainInput = m.mainInput) : InputStep fixed m .other m'

/-- Events one after the other, while the files are and stay ordinary files with the same texts. -/
inductive Interleaving (fixed : FixedFiles) (start : Machine) : Machine → List InputEvent → Prop
  | nil (hholds : start.Holds fixed) : Interleaving fixed start start []
  | snoc {m m' : Machine} {events : List InputEvent} {e : InputEvent} (h : Interleaving fixed start m events)
      (hstep : InputStep fixed m e m') (hholds : m'.Holds fixed) : Interleaving fixed start m' (events ++ [e])

namespace InputEvent

/-- The reads from a name since it was last closed, with their separators and results. -/
def readsSince (name : Text) (events : List InputEvent) :
    List (Text × Except Interruption (Option (Option Text))) :=
  events.foldl (fun reads e =>
    match e with
    | .read n separator result => if n = name then reads ++ [(separator, result)] else reads
    | .close n => if n = name then [] else reads
    | .main .. | .other => reads) []

/-- The reads of the main input, with the states in which they are made. -/
def mainReads (events : List InputEvent) : List (Nat × Machine) :=
  events.filterMap fun
    | .main fuel before _ => some (fuel, before)
    | _ => none

def mainResults (events : List InputEvent) : List (Except Interruption (Option Text)) :=
  events.filterMap fun
    | .main _ _ result => some result
    | _ => none

/-- A record of a file as the result of a read by name. -/
def asRead : Except Fault (Option Text) → Except Interruption (Option (Option Text))
  | .ok record => .ok (some record)
  | .error f => .error (.failure ⟨f, none⟩)

end InputEvent

namespace Machine

/-- A state, with the variables, the record and the files of another. -/
def under (m before : Machine) : Machine :=
  { m with store := before.store, record := before.record, world := { m.world with files := before.world.files } }

/-- What the reads of the main input come to when nothing but the variables, the record and the files changes between
them. -/
def resultsAlone (m : Machine) : List (Nat × Machine) → List (Except Interruption (Option Text))
  | [] => []
  | (fuel, before) :: reads =>
    ((Eval.nextRecord fuel).run (m.under before)).1 ::
      ((Eval.nextRecord fuel).run (m.under before)).2.resultsAlone reads

/-- The state after such reads. -/
def afterAlone (m : Machine) (reads : List (Nat × Machine)) : Machine :=
  reads.foldl (fun m (fuel, before) => ((Eval.nextRecord fuel).run (m.under before)).2) m

theorem resultsAlone_concat (m : Machine) (reads : List (Nat × Machine)) (fuel : Nat) (before : Machine) :
    m.resultsAlone (reads ++ [(fuel, before)]) =
      m.resultsAlone reads ++ [((Eval.nextRecord fuel).run ((m.afterAlone reads).under before)).1] := by
  induction reads generalizing m with
  | nil => rfl
  | cons first reads ih => exact congrArg (_ :: ·) (ih _)

theorem afterAlone_concat (m : Machine) (reads : List (Nat × Machine)) (fuel : Nat) (before : Machine) :
    m.afterAlone (reads ++ [(fuel, before)]) =
      ((Eval.nextRecord fuel).run ((m.afterAlone reads).under before)).2 := by
  rw [afterAlone, List.foldl_concat, afterAlone]

end Machine

namespace InputEvent

/-- What the reads from a file have come to, and what the next one will come to. -/
structure KnownOf (name : Text) (path : Path) (t : Text) (m : Machine) (events : List InputEvent) : Prop where
  results : (readsSince name events).map Prod.snd =
    ((Reader.ofText t).results ((readsSince name events).map Prod.fst)).map asRead
  next : m.world.Awaits name path ((Reader.ofText t).after ((readsSince name events).map Prod.fst))

def Known (fixed : FixedFiles) (m : Machine) (events : List InputEvent) : Prop :=
  ∀ name path t, fixed name = some (path, t) → KnownOf name path t m events

/-- So far the main input has been read as it is read alone. -/
structure AsAlone (start m : Machine) (events : List InputEvent) : Prop where
  results : mainResults events = start.resultsAlone (mainReads events)
  mainInput : (start.afterAlone (mainReads events)).mainInput = m.mainInput
  input : (start.afterAlone (mainReads events)).world.input = m.world.input

end InputEvent

open InputEvent

theorem Eval.run_setting {m : Machine} {name : String} {t : Text}
    (h : m.scalars.setting name ((Machine.settingDefaults.lookup name).getD "").toList = .ok t) :
    (setting name).run m = (.ok t, m) := by
  unfold setting
  rw [Action.run_bind, Action.run_get]
  dsimp only
  rw [h]
  rfl

/-- A read from a file gives the record of its reader, and nothing but its stream changes. -/
theorem World.Awaits.readStream {m : Machine} {name separator : Text} {path : Path} {t : Text} {r : Reader}
    (hseparator : (Eval.setting "RS").run m = (.ok separator, m)) (hholds : m.world.Holds name path t)
    (h : m.world.Awaits name path r) :
    ∃ inputs, (Eval.readStream .file name).run m =
        (asRead (r.readRecord separator).1, { m with world := { m.world with inputs := inputs } }) ∧
      World.Awaits { m.world with inputs := inputs } name path (r.readRecord separator).2 ∧
      ∀ other, other ≠ name → inputs.lookup other = m.world.inputs.lookup other := by
  obtain ⟨inputs, hread, hawaits, hothers⟩ := h.readNamed hholds separator
  refine ⟨inputs, ?_, hawaits, hothers⟩
  unfold Eval.readStream
  rw [Action.run_bind, hseparator]
  dsimp only
  rw [Action.run_bind, Eval.run_onWorld, Action.run_observing, hread]
  have hfault := r.readRecord_ne_cannotOpen separator
  generalize (r.readRecord separator).1 = result at hfault ⊢
  cases result with
  | ok record => rfl
  | error f =>
    cases f with
    | cannotOpen target reason => exact absurd rfl (hfault target reason)
    | _ => rfl

/-- Only the stream under the name and the text of the file matter. -/
theorem World.Awaits.of_lookup {w w' : World} {name : Text} {path : Path} {t : Text} {r : Reader}
    (h : w.Awaits name path r) (hholds : w.Holds name path t) (hholds' : w'.Holds name path t)
    (hlookup : w'.inputs.lookup name = w.inputs.lookup name) : w'.Awaits name path r := by
  have htext : w'.files.text path = w.files.text path := hholds'.text.trans hholds.text.symm
  unfold World.Awaits at h ⊢
  rw [hlookup]
  split at h
  · rw [h, htext]
  · exact h.of_text htext

namespace InputEvent

variable {fixed : FixedFiles} {start m m' : Machine} {events : List InputEvent} {e : InputEvent}

theorem readsSince_concat (name : Text) (events : List InputEvent) (e : InputEvent) :
    readsSince name (events ++ [e]) =
      match e with
      | .read n separator result =>
        if n = name then readsSince name events ++ [(separator, result)] else readsSince name events
      | .close n => if n = name then [] else readsSince name events
      | .main .. | .other => readsSince name events := by
  rw [readsSince, List.foldl_concat]
  rfl

/-- Where the stream and the reads are those of before, everything is known as before. -/
theorem Known.same {name : Text} {path : Path} {t : Text} (h : Known fixed m events) (hholds : m.Holds fixed)
    (hholds' : m'.Holds fixed) (hfixed : fixed name = some (path, t))
    (hreads : readsSince name (events ++ [e]) = readsSince name events)
    (hlookup : m'.world.inputs.lookup name = m.world.inputs.lookup name)  :
    KnownOf name path t m' (events ++ [e]) := by
  have hname := h name path t hfixed
  refine ⟨?_, ?_⟩
  · rw [hreads]
    exact hname.results
  · rw [hreads]
    exact hname.next.of_lookup (hholds name path t hfixed) (hholds' name path t hfixed) hlookup

theorem known_nil (hholds : start.Holds fixed)
    (hclosed : ∀ name, (fixed name).isSome → start.world.inputs.lookup name = none) : Known fixed start [] := by
  intro name path t hfixed
  refine ⟨rfl, ?_⟩
  unfold World.Awaits
  rw [hclosed name (by rw [hfixed]; rfl)]
  exact congrArg Reader.ofText (hholds name path t hfixed).text.symm

theorem Known.step (h : Known fixed m events) (hholds : m.Holds fixed) (hstep : InputStep fixed m e m')
    (hholds' : m'.Holds fixed) : Known fixed m' (events ++ [e]) := by
  intro name path t hfixed
  cases hstep with
  | @read read separator hfixed' hseparator =>
    obtain ⟨⟨path', t'⟩, hfixed'⟩ := Option.isSome_iff_exists.1 hfixed'
    obtain ⟨inputs, hread, hawaits, hothers⟩ :=
      (h read path' t' hfixed').next.readStream hseparator (hholds read path' t' hfixed')
    rw [hread] at hholds' ⊢
    by_cases hname : read = name
    · subst hname
      obtain ⟨rfl, rfl⟩ := Prod.mk.inj (Option.some.inj (hfixed.symm.trans hfixed'))
      have hreads (result) : readsSince read (events ++ [.read read separator result]) =
          readsSince read events ++ [(separator, result)] := by
        rw [readsSince_concat]
        exact if_pos rfl
      refine ⟨?_, ?_⟩
      · simp only [hreads, List.map_append, List.map_cons, List.map_nil, Reader.results_concat,
          (h read path t hfixed).results]
      · simp only [hreads, List.map_append, List.map_cons, List.map_nil, Reader.after_concat]
        exact hawaits
    · refine h.same hholds hholds' hfixed ?_ (hothers name (Ne.symm hname))
      rw [readsSince_concat]
      exact if_neg hname
  | main fuel =>
    refine h.same hholds hholds' hfixed (readsSince_concat ..) ?_
    rw [(Eval.apart_nextRecord fuel m m (.refl m)).2.2]
  | close closed =>
    obtain ⟨status, w', hclose, -, hinputs, -⟩ := World.run_close closed m.world
    rw [Eval.run_onWorld, hclose] at hholds' ⊢
    have hlookup (other : Text) := World.lookup_dropStream closed other m.world.inputs
    by_cases hname : closed = name
    · subst hname
      have hreads : readsSince closed (events ++ [.close closed]) = [] := by
        rw [readsSince_concat]
        exact if_pos rfl
      refine ⟨by rw [hreads]; rfl, ?_⟩
      rw [hreads]
      unfold World.Awaits
      rw [hinputs, hlookup, if_pos rfl]
      exact congrArg Reader.ofText (hholds' closed path t hfixed).text.symm
    · refine h.same hholds hholds' hfixed ?_ ?_
      · rw [readsSince_concat]
        exact if_neg hname
      · rw [hinputs, hlookup, if_neg (Ne.symm hname)]
  | other hinputs hinput hmain =>
    exact h.same hholds hholds' hfixed (readsSince_concat ..) (hinputs name (by rw [hfixed]; rfl))

theorem AsAlone.same (h : AsAlone start m events) (hresults : mainResults (events ++ [e]) = mainResults events)
    (hreads : mainReads (events ++ [e]) = mainReads events) (hmain : m'.mainInput = m.mainInput)
    (hinput : m'.world.input = m.world.input) : AsAlone start m' (events ++ [e]) where
  results := by rw [hresults, hreads, h.results]
  mainInput := by rw [hreads, h.mainInput, hmain]
  input := by rw [hreads, h.input, hinput]

theorem AsAlone.step (h : AsAlone start m events) (hknown : Known fixed m events) (hholds : m.Holds fixed)
    (hstep : InputStep fixed m e m') : AsAlone start m' (events ++ [e]) := by
  cases hstep with
  | @read name separator hfixed hseparator =>
    obtain ⟨⟨path, t⟩, hfixed⟩ := Option.isSome_iff_exists.1 hfixed
    obtain ⟨inputs, hread, -⟩ :=
      (hknown name path t hfixed).next.readStream hseparator (hholds name path t hfixed)
    rw [hread]
    refine h.same ?_ ?_ rfl rfl
    · simp [mainResults]
    · simp [mainReads]
  | main fuel =>
    have hagrees : ((start.afterAlone (mainReads events)).under m).Agrees m := ⟨rfl, rfl, h.mainInput, rfl, h.input⟩
    obtain ⟨hresult, hagrees', -⟩ := Eval.apart_nextRecord fuel _ _ hagrees
    have hreads : mainReads (events ++ [.main fuel m ((Eval.nextRecord fuel).run m).1]) =
        mainReads events ++ [(fuel, m)] := by
      simp [mainReads]
    have hresults : mainResults (events ++ [.main fuel m ((Eval.nextRecord fuel).run m).1]) =
        mainResults events ++ [((Eval.nextRecord fuel).run m).1] := by
      simp [mainResults]
    refine ⟨?_, ?_, ?_⟩
    · rw [hresults, hreads, Machine.resultsAlone_concat, h.results, hresult]
    · rw [hreads, Machine.afterAlone_concat, hagrees'.mainInput]
    · rw [hreads, Machine.afterAlone_concat, hagrees'.world.input]
  | close name =>
    obtain ⟨status, w', hclose, -, -, hinput⟩ := World.run_close name m.world
    rw [Eval.run_onWorld, hclose]
    refine h.same ?_ ?_ rfl hinput
    · simp [mainResults]
    · simp [mainReads]
  | other hinputs hinput hmain =>
    refine h.same ?_ ?_ hmain hinput
    · simp [mainResults]
    · simp [mainReads]

end InputEvent

section Runs

variable {fixed : FixedFiles} {start m : Machine} {events : List InputEvent}

theorem Interleaving.known (h : Interleaving fixed start m events)
    (hclosed : ∀ name, (fixed name).isSome → start.world.inputs.lookup name = none) :
    m.Holds fixed ∧ Known fixed m events ∧ AsAlone start m events := by
  induction h with
  | nil hholds => exact ⟨hholds, known_nil hholds hclosed, rfl, rfl, rfl⟩
  | snoc _ hstep hholds' ih =>
    obtain ⟨hholds, hknown, halone⟩ := ih
    exact ⟨hholds', hknown.step hholds hstep hholds', halone.step hknown hholds hstep⟩

/-- However reads from files, reads of the main input and closing follow each other: the reads from a file since it was
last closed give what a fresh reader of this file gives for the same separators, and the reads of the main input give
what they give without all the rest. -/
theorem readers_apart (h : Interleaving fixed start m events)
    (hclosed : ∀ name, (fixed name).isSome → start.world.inputs.lookup name = none) :
    (∀ name path t, fixed name = some (path, t) → (readsSince name events).map Prod.snd =
      ((Reader.ofText t).results ((readsSince name events).map Prod.fst)).map asRead) ∧
    mainResults events = start.resultsAlone (mainReads events) := by
  obtain ⟨-, hknown, halone⟩ := h.known hclosed
  exact ⟨fun name path t hfixed => (hknown name path t hfixed).results, halone.results⟩

end Runs

/-! ### A mixed case -/

namespace Mixed

def text : Text := "p\nq r\n".toList

def path : Path := Files.pathOf Files.empty.home ['a']

/-- One file, which is also the only operand. -/
def files : FixedFiles := fun name => if name = ['a'] then some (path, text) else none

def start : Machine := .start (.start (.ofList [(['a'], text)]) [] [] 0) [] [] ["awk".toList, ['a']]

def read (m : Machine) : Machine := ((Eval.readStream .file ['a']).run m).2

/-- A read of the file, and one of the main input. -/
def both : Machine := ((Eval.nextRecord 4).run (read start)).2

/-- From here on, words are read. -/
def words : Machine := { both with store := both.store.setGlobal "RS".toList (.str [' ']) }

def closed : Machine := ((Eval.onWorld (World.close ['a'])).run (read words)).2

def events : List InputEvent :=
  [.read ['a'] ['\n'] ((Eval.readStream .file ['a']).run start).1,
    .main 4 (read start) ((Eval.nextRecord 4).run (read start)).1, .other,
    .read ['a'] [' '] ((Eval.readStream .file ['a']).run words).1, .close ['a'],
    .read ['a'] [' '] ((Eval.readStream .file ['a']).run closed).1]

theorem holds {m : Machine} (h : m.world.files = start.world.files) : m.Holds files := by
  intro name path t hfixed
  obtain ⟨rfl, hfixed⟩ := Option.ite_none_right_eq_some.1 hfixed
  cases hfixed
  exact ⟨by decide, by decide, by rw [h]; decide +kernel, by rw [h]; decide +kernel⟩

theorem interleaving : Interleaving files start (read closed) events := by
  have hread (m : Machine) (separator : Text) (h : m.scalars.setting "RS" ['\n'] = .ok separator) :
      InputStep files m (.read ['a'] separator ((Eval.readStream .file ['a']).run m).1) (read m) :=
    .read rfl (Eval.run_setting h)
  have hother (m : Machine) (store : Store) : InputStep files m .other { m with store := store } :=
    .other (fun _ _ => rfl) rfl rfl
  have h₁ := (Interleaving.nil (holds (m := start) rfl)).snoc (hread start ['\n'] (by decide +kernel))
    (holds (by decide +kernel))
  have h₂ := h₁.snoc (.main _ 4) (holds (m := both) (by decide +kernel))
  have h₃ := h₂.snoc (hother both _) (holds (m := words) (by decide +kernel))
  have h₄ := h₃.snoc (hread words [' '] (by decide +kernel)) (holds (by decide +kernel))
  have h₅ := h₄.snoc (.close _ ['a']) (holds (m := closed) (by decide +kernel))
  exact h₅.snoc (hread closed [' '] (by decide +kernel)) (holds (by decide +kernel))

end Mixed

/-- After closing, the first record is read once more, under the separator of now. -/
theorem readers_apart_mixed :
    Interleaving Mixed.files Mixed.start (Mixed.read Mixed.closed) Mixed.events ∧
      (∀ name, (Mixed.files name).isSome → Mixed.start.world.inputs.lookup name = none) ∧
      (readsSince ['a'] Mixed.events).map Prod.snd = [.ok (some (some "p\nq".toList))] ∧
      mainResults Mixed.events = Mixed.start.resultsAlone (mainReads Mixed.events) := by
  have hclosed (name : Text) (_ : (Mixed.files name).isSome) : Mixed.start.world.inputs.lookup name = none := rfl
  obtain ⟨hreads, hmain⟩ := readers_apart Mixed.interleaving hclosed
  have hresults : (Reader.ofText Mixed.text).results [[' ']] = [.ok (some "p\nq".toList)] := by decide +kernel
  refine ⟨Mixed.interleaving, hclosed, ?_, hmain⟩
  rw [hreads ['a'] Mixed.path Mixed.text rfl]
  exact congrArg (·.map asRead) hresults

end Awk
