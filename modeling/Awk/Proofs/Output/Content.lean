import Awk.Proofs.Output.Events
import Awk.Proofs.Outcome
import Awk.Proofs.StreamTable

/-!
# What is written to a file

What a run prints to a file is on its way for a while: some of it is in the file, the rest waits in the stream that is
open under the name.  Both together are what a reader of the events would expect (`World.tally`): the first output to the
name opens the stream, and decides whether the file is emptied, and all output until the name is closed goes there, unless
the stream is that of a command.  Each event keeps this in step (`World.Carries.step`), provided that nothing else writes
to the file (`World.Event.Spares`), so in the end nothing is lost or out of order (`World.content_of_events`).
-/

namespace Awk

namespace Files

variable {files : Files} {path other : Path} {name t : Text}

theorem lookup_putEntry (contents : List (Path × Text)) :
    (putEntry path t contents).lookup other = if other = path then some t else contents.lookup other := by
  induction contents with
  | nil =>
    by_cases hother : other = path
    · simp [putEntry, hother]
    · simp [putEntry, hother, List.lookup_cons, beq_eq_false_iff_ne.2 hother]
  | cons entry contents ih =>
    obtain ⟨p, u⟩ := entry
    rw [putEntry]
    by_cases hp : p = path
    · subst hp
      rw [if_pos rfl]
      by_cases hother : other = p
      · simp [hother]
      · simp [hother, List.lookup_cons, beq_eq_false_iff_ne.2 hother]
    · rw [if_neg hp]
      by_cases hother : other = p
      · subst hother
        simp [hp]
      · rw [List.lookup_cons, List.lookup_cons, beq_eq_false_iff_ne.2 hother]
        exact ih

theorem text_put : (files.put path t).text other = if other = path then t else files.text other := by
  unfold text text? put
  rw [lookup_putEntry]
  split
  · rfl
  · rfl

theorem text_seek : (files.seek name).text path = files.text path := by
  unfold seek
  split
  · rfl
  · rfl

theorem text_toRead : (files.toRead name).2.text path = files.text path := by
  unfold toRead
  split
  · exact text_seek
  · rfl
  · rfl
  · rfl
  · exact text_seek

theorem text?_of_follow {creating : Bool} {here : Path} {parts : List Text}
    (h : files.follow creating here parts = .ok (.absent path)) : files.text? path = none := by
  fun_induction follow files creating here parts with
  | case2 here part rest hidle ih => exact ih h
  | case3 here rest hup ih => exact ih h
  | case7 here part rest _ _ _ path' hdevice hdirectory ih => exact ih h
  | case11 here part rest _ _ _ path' hdevice _ hnone =>
    obtain rfl : path' = path := Entry.absent.inj (Except.ok.inj h)
    simpa using hnone
  | _ => cases h

/-- What can be made is not there yet. -/
theorem text_of_locate {creating : Bool} (h : files.locate creating name = .ok (.absent path)) :
    files.text path = [] := by
  have hnone : files.text? path = none := by
    unfold locate at h
    split at h
    · cases h
    · split at h
      · cases h
      · exact text?_of_follow h
  rw [text, hnone]
  rfl

/-- A file that is opened for writing is emptied, or stays as it is. -/
theorem text_toWrite {anew : Bool} (h : (files.toWrite anew name).1 = .ok (.inl path)) :
    (files.toWrite anew name).2.text path = if anew then [] else files.text path := by
  unfold toWrite at h ⊢
  split at h
  · cases h
  · cases h
  · cases h
  · cases h
    cases anew with
    | true => exact text_put.trans (if_pos rfl)
    | false => rfl
  · rename_i habsent
    cases h
    rw [text_put, if_pos rfl]
    cases anew with
    | true => rfl
    | false => exact (text_of_locate habsent).symm

theorem text_toWrite_of_ne {anew : Bool} (h : (files.toWrite anew name).1 ≠ .ok (.inl path)) :
    (files.toWrite anew name).2.text path = files.text path := by
  have hne {p : Path} (hp : .ok (.inl p) ≠ (.ok (.inl path) : Except OpenReason (Path ⊕ Device))) : path ≠ p :=
    fun heq => hp (by rw [heq])
  unfold toWrite at h ⊢
  split at h
  · exact text_seek
  · rfl
  · rfl
  · split
    · rw [text_put, if_neg (hne h)]
    · rfl
  · dsimp only
    rw [text_put, if_neg (hne h)]
    split
    · rfl
    · exact text_seek

end Files

namespace World

/-! ### What should be there -/

/-- The text that belongs to a file, and how the stream under its name was opened, if there is one. -/
structure Tally where
  text : Text
  opened : Option RedirectOp

/-- The first output opens a stream; then it takes all output until it is closed. -/
def Tally.output (s : Tally) (op : RedirectOp) (t : Text) : Tally :=
  match s.opened, op with
  | none, .write => ⟨t, some .write⟩
  | none, .append => ⟨s.text ++ t, some .append⟩
  | none, .pipe => ⟨s.text, some .pipe⟩
  | some .pipe, _ => s
  | some _, _ => ⟨s.text ++ t, s.opened⟩

/-- Opening a stream is output of nothing. -/
theorem Tally.output_output (text : Text) (op : RedirectOp) (t : Text) :
    (output ⟨text, none⟩ op []).output op t = output ⟨text, none⟩ op t := by
  cases op <;> simp [output]

def Tally.step (name : Text) (s : Tally) : Event → Tally
  | .redirect op n t => if n = name then s.output op t else s
  | .close n => if n = name then ⟨s.text, none⟩ else s
  | _ => s

/-- What belongs to a file after the events, if there was no stream under its name before. -/
def tally (name start : Text) (events : List Event) : Tally := events.foldl (Tally.step name) ⟨start, none⟩

/-! ### What is there -/

end World

/-- The output to a sink ends up in a file. -/
def Sink.LeadsTo (path : Path) : Sink → Prop
  | .file p _ | .fileEnd p => p = path
  | _ => False

/-- The command that is run when the stream is closed. -/
def Sink.command? : Sink → Option Text
  | .command text => some text
  | _ => none

namespace World

/-- How much of a tally is in the file, and which stream holds the rest. -/
inductive Stands (name : Text) (path : Path) : Tally → Text → Option Output → Prop
  | closed (t : Text) : Stands name path ⟨t, none⟩ t none
  | written (t pending : Text) : Stands name path ⟨t ++ pending, some .write⟩ t (some ⟨.file path t.length, pending⟩)
  | appended (t pending : Text) : Stands name path ⟨t ++ pending, some .append⟩ t (some ⟨.fileEnd path, pending⟩)
  | piped (t pending : Text) : Stands name path ⟨t, some .pipe⟩ t (some ⟨.command name, pending⟩)

/-- The file and the stream under its name carry a tally, and no other stream leads to the file. -/
structure Carries (w : World) (name : Text) (path : Path) (s : Tally) : Prop where
  stands : Stands name path s (w.files.text path) (w.outputs.lookup name)
  others : ∀ n o, n ≠ name → w.outputs.lookup n = some o → ¬o.sink.LeadsTo path
  distinct : (w.outputs.map Prod.fst).Nodup

/-- The text of the file and the output streams are as they were. -/
structure SameOutput (path : Path) (start w : World) : Prop where
  text : w.files.text path = start.files.text path
  outputs : w.outputs = start.outputs

variable {name n t : Text} {path : Path} {s : Tally} {w w' start : World} {o : Output}

theorem SameOutput.refl (w : World) : SameOutput path w w := ⟨rfl, rfl⟩

theorem SameOutput.trans (h : SameOutput path start w) (h' : SameOutput path w w') : SameOutput path start w' :=
  ⟨h'.text.trans h.text, h'.outputs.trans h.outputs⟩

theorem Carries.of_same (h : w.Carries name path s) (hsame : SameOutput path w w') : w'.Carries name path s := by
  refine ⟨?_, ?_, ?_⟩
  · rw [hsame.text, hsame.outputs]
    exact h.stands
  · rw [hsame.outputs]
    exact h.others
  · rw [hsame.outputs]
    exact h.distinct

/-- The stream under a name is replaced, and the text of the file perhaps with it. -/
theorem Carries.put (h : w.Carries name path s) {s' : Tally} {files : Files} {o : Output}
    (hstands : Stands name path s' (files.text path) (some o)) :
    Carries { w with files := files, outputs := putStream name o w.outputs } name path s' := by
  refine ⟨?_, fun n o' hn hlookup => ?_, nodup_putStream _ _ h.distinct⟩
  · rw [lookup_putStream, if_pos rfl]
    exact hstands
  · rw [lookup_putStream, if_neg hn] at hlookup
    exact h.others n o' hn hlookup

/-- A stream under another name may be replaced by one that does not lead to the file. -/
theorem Carries.putOther (h : w.Carries name path s) (hn : n ≠ name) {files : Files} {o : Output}
    (htext : files.text path = w.files.text path) (ho : ¬o.sink.LeadsTo path) :
    Carries { w with files := files, outputs := putStream n o w.outputs } name path s := by
  refine ⟨?_, fun n' o' hn' hlookup => ?_, nodup_putStream _ _ h.distinct⟩
  · rw [lookup_putStream, if_neg (Ne.symm hn), htext]
    exact h.stands
  · rw [lookup_putStream] at hlookup
    split at hlookup
    · cases hlookup
      exact ho
    · exact h.others n' o' hn' hlookup

/-! ### Operations that leave the file and the streams alone -/

/-- The action leaves the text of the file and the output streams alone. -/
abbrev Spared {α : Type} (path : Path) (start : World) (allowed : Fault → Prop) (act : Action α) : Prop :=
  Yields (SameOutput path start) allowed (fun _ => True) act

section Spared

variable {allowed : Fault → Prop}

theorem spared_modify {f : World → World} (h : ∀ w, SameOutput path w (f w)) :
    Spared path start allowed (modify f : Action PUnit) :=
  Yields.modify fun w hw => hw.trans (h w)

/-- A warning can always be given. -/
theorem run_warn (path : Path) (message : Text) (w : World) :
    ∃ w', (warn message).run w = (.ok (), w') ∧ SameOutput path w w' := by
  unfold warn
  rw [Action.run_bind, Action.run_get]
  dsimp only
  split
  · exact ⟨_, rfl, rfl, rfl⟩
  · exact ⟨w, rfl, .refl w⟩

theorem spared_warn (message : Text) : Spared path start allowed (warn message) := by
  intro w hw
  obtain ⟨w', hwarn, hsame⟩ := run_warn path message w
  rw [hwarn]
  exact ⟨hw.trans hsame, trivial⟩

theorem spared_checkName (command : Text) : Spared path start (fun _ => True) (checkName command) := by
  unfold checkName
  split
  · exact Yields.throw trivial
  · exact Yields.pure trivial

theorem spared_openFile (file : Text) : Spared path start (fun _ => True) (openFile file) := by
  unfold openFile
  dsimp only
  split
  · exact Yields.pure trivial
  · refine (spared_checkName file).andThen fun _ => ?_
    refine Yields.get.bind fun w hw => ?_
    refine (Yields.set (by exact hw.trans ⟨Files.text_toRead, rfl⟩)).andThen fun _ => ?_
    split
    · exact Yields.throw trivial
    all_goals exact Yields.pure trivial

theorem same_keepSource (i : Input) (before : Source) (reader : Reader) :
    SameOutput path w (keepSource i before reader w).2 := by
  unfold keepSource
  split <;> exact ⟨rfl, rfl⟩

theorem spared_readInput (i : Input) (separator : Text) :
    Spared path start (fun _ => True) (readInput i separator) := by
  refine Yields.get.bind fun w hw => ?_
  exact (Yields.set (hw.trans (same_keepSource ..))).andThen fun _ => Yields.pure trivial

/-- A stream that does not lead to the file has nothing for it. -/
theorem spared_flushOutput (ho : ¬o.sink.LeadsTo path) :
    Yields (SameOutput path start) (fun _ => True) (fun o' => o'.sink.LeadsTo path → False) (flushOutput o) := by
  have hput (p : Path) (t : World → Text) (hp : ¬p = path) : Spared path start (fun _ => True)
      (modify fun w => { w with files := w.files.put p (t w) } : Action PUnit) :=
    spared_modify fun w => ⟨by rw [Files.text_put, if_neg (Ne.symm hp)], rfl⟩
  unfold flushOutput
  split
  · exact Yields.andThen (spared_modify fun _ => ⟨rfl, rfl⟩) fun _ => Yields.pure ho
  · rename_i p offset hsink
    have hp : ¬p = path := fun hp => ho (by rw [hsink]; exact hp)
    exact (hput p (fun w => overwrite (w.files.text p) offset o.pending) hp).andThen fun _ => Yields.pure hp
  · rename_i p hsink
    have hp : ¬p = path := fun hp => ho (by rw [hsink]; exact hp)
    exact (hput p (fun w => w.files.text p ++ o.pending) hp).andThen fun _ => Yields.pure hp
  · exact Yields.pure id
  · split
    · exact Yields.pure ho
    · exact Yields.throw trivial
  · exact Yields.pure ho
  · exact Yields.pure ho

end Spared

/-! ### Flushing -/

theorem overwrite_end (t new : Text) : overwrite t t.length new = t ++ new := by
  simp [overwrite, Text.padRight]

/-- What waits in the stream under the name is added to the file, unless it waits for a command. -/
theorem Stands.flush (h : Stands name path s (w.files.text path) (some o)) :
    ∃ o' files, (flushOutput o).run w = (.ok o', { w with files := files }) ∧
      Stands name path s (files.text path) (some o') ∧ ((∀ command, o.sink ≠ .command command) →
        files.text path = s.text) := by
  generalize htext : w.files.text path = text at h
  cases h with
  | written t pending =>
    refine ⟨⟨.file path (text.length + pending.length), []⟩, _, rfl, ?_⟩
    have hwritten : Stands name path _ _ _ := .written (text ++ pending) []
    rw [List.append_nil, List.length_append] at hwritten
    rw [Files.text_put, if_pos rfl, htext, overwrite_end]
    exact ⟨hwritten, fun _ => rfl⟩
  | appended t pending =>
    refine ⟨⟨.fileEnd path, []⟩, _, rfl, ?_⟩
    have happended : Stands name path _ _ _ := .appended (text ++ pending) []
    rw [List.append_nil] at happended
    rw [Files.append, Files.text_put, if_pos rfl, htext]
    exact ⟨happended, fun _ => rfl⟩
  | piped t pending =>
    refine ⟨_, w.files, rfl, ?_⟩
    rw [htext]
    exact ⟨.piped text pending, fun _ => rfl⟩

/-- A stream is flushed under its name, and the others are left alone. -/
theorem Carries.flushNamed (h : w.Carries name path s) (hlookup : w.outputs.lookup n = some o) :
    ∃ w', (flushNamed n o).run w = (.ok (), w') ∧ w'.Carries name path s ∧
      ∀ n', n' ≠ n → w'.outputs.lookup n' = w.outputs.lookup n' := by
  unfold World.flushNamed
  rw [Action.run_bind, Action.run_observing]
  dsimp only
  by_cases hn : n = name
  · subst hn
    obtain ⟨o', files, hflush, hstands, -⟩ := Stands.flush (hlookup ▸ h.stands)
    rw [hflush]
    refine ⟨_, rfl, h.put hstands, fun n' hn' => ?_⟩
    rw [lookup_putStream, if_neg hn']
  · obtain ⟨hsame, hresult⟩ := spared_flushOutput (h.others n o hn hlookup) w (.refl w)
    generalize (flushOutput o).run w = flushed at hsame hresult
    obtain ⟨result, w'⟩ := flushed
    cases result with
    | ok o' =>
      refine ⟨_, rfl, (h.of_same hsame).putOther hn rfl hresult, fun n' hn' => ?_⟩
      rw [lookup_putStream, if_neg hn', hsame.outputs]
    | error f =>
      obtain ⟨w'', hwarn, hwarned⟩ := run_warn path ("flush of '".toList ++ n ++ ['\''] ++ noSpaceNote) w'
      have hsame' := hsame.trans hwarned
      exact ⟨w'', hwarn, h.of_same hsame', fun n' _ => by rw [hsame'.outputs]⟩

theorem Carries.flushEach (h : w.Carries name path s) {streams : List (Text × Output)}
    (hdistinct : (streams.map Prod.fst).Nodup) (hstreams : ∀ n o, (n, o) ∈ streams → w.outputs.lookup n = some o) :
    ∃ w', (flushEach streams).run w = (.ok (), w') ∧ w'.Carries name path s := by
  induction streams generalizing w with
  | nil => exact ⟨w, rfl, h⟩
  | cons entry streams ih =>
    obtain ⟨n, o⟩ := entry
    obtain ⟨hn, hdistinct⟩ := List.nodup_cons.1 hdistinct
    obtain ⟨w', hflush, hcarries, hothers⟩ := h.flushNamed (hstreams n o List.mem_cons_self)
    have hrest (n' : Text) (o' : Output) (hmem : (n', o') ∈ streams) : w'.outputs.lookup n' = some o' := by
      have hne : n' ≠ n := fun heq => hn (List.mem_map.2 ⟨_, hmem, heq⟩)
      rw [hothers n' hne]
      exact hstreams n' o' (List.mem_cons_of_mem _ hmem)
    obtain ⟨w'', hrun, hcarries'⟩ := ih hcarries hdistinct hrest
    refine ⟨w'', ?_, hcarries'⟩
    rw [World.flushEach, Action.run_bind, hflush]
    exact hrun

theorem Carries.flushAll (h : w.Carries name path s) :
    ∃ w', flushAll.run w = (.ok (), w') ∧ w'.Carries name path s := by
  have hstandard : Carries { w with shown := w.shown ++ w.held, held := [] } name path s := h.of_same ⟨rfl, rfl⟩
  obtain ⟨w', hrun, hcarries⟩ := hstandard.flushEach h.distinct fun n o => lookup_of_mem h.distinct
  exact ⟨w', hrun, hcarries⟩

/-! ### Commands -/

/-- A command leaves the text of a file as it is when it is run. -/
def CommandSpares (path : Path) (w : World) (piped : Option Text) (command : Text) : Prop :=
  (w.commandRun piped command).2.files.text path = w.files.text path

instance (path : Path) (w : World) (piped : Option Text) (command : Text) :
    Decidable (CommandSpares path w piped command) :=
  inferInstanceAs (Decidable (_ = _))

theorem same_runShown {piped : Option Text} {command : Text} (h : CommandSpares path w piped command) :
    SameOutput path w ((runShown piped command).run w).2 := by
  unfold runShown runCommand checkName
  cases command.contains '\x00' with
  | true => exact .refl w
  | false => exact ⟨h, rfl⟩

/-! ### Closing -/

theorem snd_closeOutput (o : Output) (w : World) : ((closeOutput o).run w).2 =
    match o.sink with
    | .command command => ((runShown (some o.pending) command).run w).2
    | _ => ((flushOutput o).run w).2 := by
  unfold closeOutput
  cases o.sink with
  | command command =>
    dsimp only
    rw [Action.run_bind]
    rcases (runShown (some o.pending) command).run w with ⟨f | ending, w'⟩ <;> rfl
  | _ =>
    dsimp only
    rw [Action.run_bind]
    rcases (flushOutput o).run w with ⟨f | o', w'⟩ <;> rfl

/-- Whatever was waiting has come to the file when the stream has been closed. -/
theorem Stands.close (h : Stands name path s (w.files.text path) (some o))
    (hspares : ∀ command, o.sink = .command command → CommandSpares path w (some o.pending) command) :
    ((closeOutput o).run w).2.files.text path = s.text ∧ ((closeOutput o).run w).2.outputs = w.outputs := by
  rw [snd_closeOutput]
  cases hsink : o.sink with
  | command command =>
    obtain ⟨htext, houtputs⟩ := same_runShown (hspares command hsink)
    have hpiped : w.files.text path = s.text := by
      cases h with
      | piped t pending => rfl
      | _ => cases hsink
    exact ⟨htext.trans hpiped, houtputs⟩
  | _ =>
    obtain ⟨o', files, hflush, -, htext⟩ := h.flush
    dsimp only
    rw [hflush]
    exact ⟨htext (by rw [hsink]; nofun), rfl⟩

theorem same_closeOutput (ho : ¬o.sink.LeadsTo path)
    (hspares : ∀ command, o.sink = .command command → CommandSpares path w (some o.pending) command) :
    SameOutput path w ((closeOutput o).run w).2 := by
  rw [snd_closeOutput]
  cases hsink : o.sink with
  | command command => exact same_runShown (hspares command hsink)
  | _ => exact (spared_flushOutput ho w (.refl w)).1

/-- The stream under a name is gone when it has been closed. -/
theorem Carries.drop (h : w.Carries name path s) (hn : n ≠ name) :
    Carries { w with outputs := dropStream n w.outputs } name path s := by
  refine ⟨?_, fun n' o hn' hlookup => ?_, nodup_dropStream _ h.distinct⟩
  · rw [lookup_dropStream, if_neg (Ne.symm hn)]
    exact h.stands
  · rw [lookup_dropStream] at hlookup
    split at hlookup
    · cases hlookup
    · exact h.others n' o hn' hlookup

theorem Carries.dropOwn (h : w.Carries name path s) (hsame : w'.outputs = dropStream name w.outputs)
    (htext : w'.files.text path = s.text) : w'.Carries name path ⟨s.text, none⟩ := by
  refine ⟨?_, fun n o hn hlookup => ?_, ?_⟩
  · rw [hsame, lookup_dropStream, if_pos rfl, htext]
    exact .closed s.text
  · rw [hsame, lookup_dropStream, if_neg hn] at hlookup
    exact h.others n o hn hlookup
  · rw [hsame]
    exact nodup_dropStream _ h.distinct

theorem Stands.opened_eq_none {text : Text} (h : Stands name path s text none) : s = ⟨s.text, none⟩ := by
  cases h
  rfl

theorem Stands.text_eq {text : Text} (h : Stands name path s text none) : text = s.text := by
  cases h
  rfl

theorem Carries.closeOutputNamed (h : w.Carries name path s)
    (hspares : ∀ command pending, w.outputs.lookup n = some ⟨.command command, pending⟩ →
      CommandSpares path w (some pending) command) :
    ∃ status w', (closeOutputNamed n).run w = (.ok status, w') ∧
      w'.Carries name path (if n = name then ⟨s.text, none⟩ else s) := by
  cases hlookup : w.outputs.lookup n with
  | none =>
    refine ⟨none, w, ?_, ?_⟩
    · unfold World.closeOutputNamed
      rw [Action.run_bind, Action.run_get]
      dsimp only
      rw [hlookup]
      rfl
    · split
      · rename_i hn
        subst hn
        have hstands := h.stands
        rw [hlookup] at hstands
        rw [← hstands.opened_eq_none]
        exact h
      · exact h
  | some o =>
    have hcommand (command : Text) (hsink : o.sink = .command command) :
        CommandSpares path { w with outputs := dropStream n w.outputs } (some o.pending) command :=
      hspares command o.pending (by rw [hlookup, ← hsink])
    have hclosed : ((closeOutput o).run { w with outputs := dropStream n w.outputs }).2.Carries name path
        (if n = name then ⟨s.text, none⟩ else s) := by
      by_cases hn : n = name
      · subst hn
        have hstands : Stands n path s (w.files.text path) (some o) := hlookup ▸ h.stands
        obtain ⟨htext, houtputs⟩ := Stands.close (w := { w with outputs := dropStream n w.outputs }) hstands hcommand
        rw [if_pos rfl]
        exact h.dropOwn houtputs htext
      · rw [if_neg hn]
        exact (h.drop hn).of_same (same_closeOutput (h.others n o hn hlookup) hcommand)
    have hrun : (World.closeOutputNamed n).run w =
        match (closeOutput o).run { w with outputs := dropStream n w.outputs } with
        | (.ok status, w') => (.ok (some (Int.ofNat status)), w')
        | (.error _, w') => (.ok (some (-1)), ((warn ("close of '".toList ++ n ++ ['\''] ++ noSpaceNote)).run w').2) := by
      unfold World.closeOutputNamed
      rw [Action.run_bind, Action.run_get]
      dsimp only
      rw [hlookup]
      dsimp only
      rw [Action.run_bind, Action.run_modify]
      dsimp only
      rw [Action.run_bind, Action.run_observing]
      generalize (closeOutput o).run _ = outcome
      obtain ⟨f | status, w'⟩ := outcome
      · obtain ⟨w'', hwarn, -⟩ := run_warn path ("close of '".toList ++ n ++ ['\''] ++ noSpaceNote) w'
        dsimp only
        rw [Action.run_bind, hwarn]
        rfl
      · rfl
    rw [hrun]
    generalize (closeOutput o).run _ = outcome at hclosed
    obtain ⟨f | status, w'⟩ := outcome
    · obtain ⟨w'', hwarn, hsame⟩ := run_warn path ("close of '".toList ++ n ++ ['\''] ++ noSpaceNote) w'
      dsimp only
      rw [hwarn]
      exact ⟨_, _, rfl, hclosed.of_same hsame⟩
    · exact ⟨_, _, rfl, hclosed⟩

/-- What leaves the file and the streams alone may follow. -/
theorem Carries.after {α : Type} {act : Action α} (h : w.Carries name path s)
    (hact : Spared path w (fun _ => True) act) : ((act.run w).2).Carries name path s :=
  h.of_same (hact w (.refl w)).1

theorem Carries.close (h : w.Carries name path s)
    (hspares : ∀ command pending, w.outputs.lookup n = some ⟨.command command, pending⟩ →
      CommandSpares path w (some pending) command) :
    ((close n).run w).2.Carries name path (if n = name then ⟨s.text, none⟩ else s) := by
  obtain ⟨status, w', hclose, hcarries⟩ := h.closeOutputNamed hspares
  unfold World.close
  rw [Action.run_bind, hclose]
  refine hcarries.after ?_
  have hinput : Spared path w' (fun _ => True) (closeInputNamed n) := by
    refine Yields.get.andThen fun w => ?_
    split
    · exact Yields.pure trivial
    · exact Yields.andThen (spared_modify fun _ => ⟨rfl, rfl⟩) fun _ => Yields.pure trivial
  refine hinput.andThen fun input => ?_
  split
  · exact Yields.pure trivial
  · exact (spared_warn _).andThen fun _ => Yields.pure trivial

/-! ### Printing -/

/-- A name that stands for a file, not for a device that is always open. -/
structure OutputName (name : Text) : Prop where
  notStandard : isStandardOutput name = false
  notErrors : name ≠ standardErrorName
  named : name.contains '\x00' = false

theorem run_openOutput_open (op : RedirectOp) (h : w.outputs.lookup n = some o) :
    (openOutput op n).run w = (.ok (), w) := by
  unfold openOutput
  rw [Action.run_bind, Action.run_get]
  dsimp only
  rw [h]
  rfl

theorem run_openOutput_pipe (h : w.outputs.lookup n = none) : (openOutput .pipe n).run w =
    (do
      flushAll
      checkName n
      putOutput n ⟨.command n, []⟩ : Action Unit).run w := by
  unfold openOutput
  rw [Action.run_bind, Action.run_get]
  dsimp only
  rw [h]
  rfl

theorem run_openOutput_file {op : RedirectOp} (hop : op ≠ .pipe) (h : w.outputs.lookup n = none) :
    (openOutput op n).run w =
      (if isStandardOutput n then putOutput n ⟨.standard, []⟩
      else if n = standardErrorName then putOutput n ⟨.errors, []⟩
      else do
        let sink ← openSink (op = .write) n
        putOutput n ⟨sink, []⟩ : Action Unit).run w := by
  unfold openOutput
  rw [Action.run_bind, Action.run_get]
  dsimp only
  rw [h, Option.isSome_none, if_neg Bool.false_ne_true]
  cases op with
  | pipe => exact absurd rfl hop
  | write =>
    dsimp only
    split <;> rfl
  | append =>
    dsimp only
    split <;> rfl

theorem run_checkNamed (h : n.contains '\x00' = false) : (checkName n).run w = (.ok (), w) := by
  unfold checkName
  rw [h]
  rfl

theorem run_openSink {anew : Bool} (hnamed : n.contains '\x00' = false)
    (h : (w.files.toWrite anew n).1 = .ok (.inl path)) : (openSink anew n).run w =
      (.ok (if anew then .file path 0 else .fileEnd path), { w with files := (w.files.toWrite anew n).2 }) := by
  unfold openSink
  rw [Action.run_bind, run_checkNamed hnamed]
  dsimp only
  rw [Action.run_bind, Action.run_get]
  dsimp only
  rw [h]
  rfl

/-- An output that is not for a command opens a stream on the file. -/
theorem run_openOwn (hname : OutputName name) (hclosed : w.outputs.lookup name = none) {op : RedirectOp}
    (hop : op ≠ .pipe) (hopens : (w.files.toWrite (op = .write) name).1 = .ok (.inl path)) :
    (openOutput op name).run w = (.ok (), { w with
      files := (w.files.toWrite (op = .write) name).2
      outputs := putStream name ⟨if op = .write then .file path 0 else .fileEnd path, []⟩ w.outputs }) := by
  rw [run_openOutput_file hop hclosed, hname.notStandard, if_neg Bool.false_ne_true, if_neg hname.notErrors,
    Action.run_bind, run_openSink hname.named hopens]
  dsimp only
  simp only [decide_eq_true_eq]
  rfl

/-- The first output to the name opens a stream on the file, which is emptied or not, or a command. -/
theorem Carries.openOwn (hname : OutputName name) (h : w.Carries name path s) (hclosed : w.outputs.lookup name = none)
    {op : RedirectOp} (hopens : op ≠ .pipe → (w.files.toWrite (op = .write) name).1 = .ok (.inl path)) :
    ∃ w', (openOutput op name).run w = (.ok (), w') ∧ w'.Carries name path (s.output op []) := by
  have hstands := h.stands
  rw [hclosed] at hstands
  generalize hbefore : w.files.text path = text at hstands
  cases hstands
  cases op with
  | pipe =>
    obtain ⟨w', hflush, hcarries⟩ := h.flushAll
    refine ⟨{ w' with outputs := putStream name ⟨.command name, []⟩ w'.outputs }, ?_, hcarries.put ?_⟩
    · rw [run_openOutput_pipe hclosed, Action.run_bind, hflush]
      dsimp only
      rw [Action.run_bind, run_checkNamed hname.named]
      rfl
    · have hstands := hcarries.stands
      generalize w'.files.text path = text', w'.outputs.lookup name = stream at hstands
      cases hstands
      exact .piped text []
  | write =>
    refine ⟨_, run_openOwn hname hclosed nofun (hopens nofun), h.put ?_⟩
    rw [Files.text_toWrite (hopens nofun)]
    exact .written [] []
  | append =>
    refine ⟨_, run_openOwn hname hclosed nofun (hopens nofun), h.put ?_⟩
    rw [Files.text_toWrite (hopens nofun), hbefore]
    exact .appended text []

/-- What is printed to the stream under the name waits there. -/
theorem Carries.printOwn (h : w.Carries name path s) (hopen : s.opened ≠ none) (op : RedirectOp) (t : Text) :
    ((printTo name t).run w).2.Carries name path (s.output op t) := by
  have hstands := h.stands
  generalize htext : w.files.text path = text at hstands
  generalize hlookup : w.outputs.lookup name = stream at hstands
  have hrun (o : Output) (ho : w.outputs.lookup name = some o) (hstandard : o.sink ≠ .standard)
      (herrors : o.sink ≠ .errors) : ((printTo name t).run w).2 =
        { w with outputs := putStream name { o with pending := o.pending ++ t } w.outputs } := by
    unfold printTo
    rw [Action.run_bind, Action.run_get]
    dsimp only
    rw [ho]
    dsimp only
    split
    · rename_i hsink
      exact absurd hsink hstandard
    · rename_i hsink
      exact absurd hsink herrors
    · rfl
  cases hstands with
  | closed => exact absurd rfl hopen
  | written text pending =>
    have houtput : Tally.output ⟨text ++ pending, some .write⟩ op t = ⟨text ++ (pending ++ t), some .write⟩ := by
      rw [← List.append_assoc]
      rfl
    rw [hrun _ hlookup nofun nofun, houtput]
    exact h.put (htext.symm ▸ .written text (pending ++ t))
  | appended text pending =>
    have houtput : Tally.output ⟨text ++ pending, some .append⟩ op t = ⟨text ++ (pending ++ t), some .append⟩ := by
      rw [← List.append_assoc]
      rfl
    rw [hrun _ hlookup nofun nofun, houtput]
    exact h.put (htext.symm ▸ .appended text (pending ++ t))
  | piped text pending =>
    rw [hrun _ hlookup nofun nofun]
    exact h.put (htext.symm ▸ .piped text (pending ++ t))

theorem openSink_other {anew : Bool} (h : (w.files.toWrite anew n).1 ≠ .ok (.inl path)) :
    SameOutput path w ((openSink anew n).run w).2 ∧
      Outcome (fun _ => True) (fun sink => sink.LeadsTo path → False) ((openSink anew n).run w).1 := by
  have htext := Files.text_toWrite_of_ne h
  unfold openSink
  rw [Action.run_bind]
  cases hnamed : n.contains '\x00' with
  | true =>
    have hcheck : (checkName n).run w = (.error .nulInName, w) := by
      unfold checkName
      rw [hnamed]
      rfl
    rw [hcheck]
    exact ⟨.refl w, trivial⟩
  | false =>
    rw [run_checkNamed hnamed]
    dsimp only
    rw [Action.run_bind, Action.run_get]
    dsimp only
    generalize w.files.toWrite anew n = found at h htext ⊢
    obtain ⟨result, files⟩ := found
    rcases result with reason | p | d
    · exact ⟨⟨htext, rfl⟩, trivial⟩
    · have hp : ¬p = path := fun hp => h (by rw [hp])
      cases anew <;> exact ⟨⟨htext, rfl⟩, hp⟩
    · cases d <;> exact ⟨⟨htext, rfl⟩, id⟩

theorem Carries.openOther (h : w.Carries name path s) (hn : n ≠ name) {op : RedirectOp}
    (hapart : op ≠ .pipe → (w.files.toWrite (op = .write) n).1 ≠ .ok (.inl path)) :
    ((openOutput op n).run w).2.Carries name path s := by
  cases hlookup : w.outputs.lookup n with
  | some o =>
    rw [run_openOutput_open op hlookup]
    exact h
  | none =>
    by_cases hop : op = .pipe
    · subst hop
      obtain ⟨w', hflush, hcarries⟩ := h.flushAll
      rw [run_openOutput_pipe hlookup, Action.run_bind, hflush]
      dsimp only
      rw [Action.run_bind]
      unfold checkName
      cases n.contains '\x00' with
      | true => exact hcarries
      | false => exact hcarries.putOther hn rfl id
    · rw [run_openOutput_file hop hlookup]
      split
      · exact h.putOther hn rfl id
      · split
        · exact h.putOther hn rfl id
        · obtain ⟨hsame, hsink⟩ := openSink_other (hapart hop)
          rw [Action.run_bind]
          generalize (openSink (op = .write) n).run w = opened at hsame hsink
          obtain ⟨f | sink, w'⟩ := opened
          · exact h.of_same hsame
          · exact (h.of_same hsame).putOther hn rfl hsink

theorem Carries.printOther (h : w.Carries name path s) (hn : n ≠ name) (t : Text) :
    ((printTo n t).run w).2.Carries name path s := by
  unfold printTo
  rw [Action.run_bind, Action.run_get]
  dsimp only
  split
  · exact h
  · rename_i o hlookup
    split
    · exact h.of_same ⟨rfl, rfl⟩
    · exact h.of_same ⟨rfl, rfl⟩
    · exact h.putOther hn rfl (h.others n o hn hlookup)

/-! ### Events -/

/-- The event does not write to the file, but under its name: no other name leads there, and neither do the commands
that are run. -/
def Event.Spares (name : Text) (path : Path) (w : World) : Event → Prop
  | .redirect op n _ => op ≠ .pipe →
    if n = name then w.outputs.lookup name = none → (w.files.toWrite (op = .write) name).1 = .ok (.inl path)
    else (w.files.toWrite (op = .write) n).1 ≠ .ok (.inl path)
  | .close n => ∀ o ∈ w.outputs.lookup n, ∀ command ∈ o.sink.command?, CommandSpares path w (some o.pending) command
  | .system command => CommandSpares path (World.flushAll.run w).2 none command
  | .readNamed .command command _ => w.inputs.lookup command = none → CommandSpares path (World.flushAll.run w).2 none command
  | _ => True

deriving instance DecidableEq for Except

instance (name : Text) (path : Path) (w : World) : (e : Event) → Decidable (e.Spares name path w)
  | .redirect op n _ => inferInstanceAs (Decidable (op ≠ .pipe →
      if n = name then w.outputs.lookup name = none → (w.files.toWrite (op = .write) name).1 = .ok (.inl path)
      else (w.files.toWrite (op = .write) n).1 ≠ .ok (.inl path)))
  | .close n => inferInstanceAs (Decidable
      (∀ o ∈ w.outputs.lookup n, ∀ command ∈ o.sink.command?, CommandSpares path w (some o.pending) command))
  | .system command => inferInstanceAs (Decidable (CommandSpares path (World.flushAll.run w).2 none command))
  | .readNamed .command command _ => inferInstanceAs (Decidable
      (w.inputs.lookup command = none → CommandSpares path (World.flushAll.run w).2 none command))
  | .print _ | .flush _ | .flushAll | .flushStandard | .openFile _ | .readInput .. | .readNamed .file .. | .warn _
  | .warnAlways _ => .isTrue trivial

theorem Carries.redirectOwn (hname : OutputName name) (h : w.Carries name path s) {op : RedirectOp} {t : Text}
    (hspares : (Event.redirect op name t).Spares name path w) :
    ((redirect op name t).run w).2.Carries name path (s.output op t) := by
  unfold redirect
  rw [Action.run_bind]
  cases hlookup : w.outputs.lookup name with
  | none =>
    have hopens (hop : op ≠ .pipe) : (w.files.toWrite (op = .write) name).1 = .ok (.inl path) := by
      have hopens := hspares hop
      rw [if_pos rfl] at hopens
      exact hopens hlookup
    have hclosed : s = ⟨s.text, none⟩ := by
      have hstands := h.stands
      rw [hlookup] at hstands
      exact hstands.opened_eq_none
    obtain ⟨w', hopened, hcarries⟩ := h.openOwn hname hlookup hopens
    rw [hopened]
    have hprinted := hcarries.printOwn (by rw [hclosed]; cases op <;> nofun) op t
    rw [hclosed, Tally.output_output] at hprinted
    rw [hclosed]
    exact hprinted
  | some o =>
    rw [run_openOutput_open op hlookup]
    have hopen : s.opened ≠ none := by
      have hstands := h.stands
      rw [hlookup] at hstands
      cases hstands <;> nofun
    exact h.printOwn hopen op t

theorem Carries.redirectOther (h : w.Carries name path s) (hn : n ≠ name) {op : RedirectOp} {t : Text}
    (hspares : (Event.redirect op n t).Spares name path w) :
    ((redirect op n t).run w).2.Carries name path s := by
  have hapart (hop : op ≠ .pipe) : (w.files.toWrite (op = .write) n).1 ≠ .ok (.inl path) := by
    have hapart := hspares hop
    rwa [if_neg hn] at hapart
  have hopened := h.openOther hn hapart
  unfold redirect
  rw [Action.run_bind]
  generalize (openOutput op n).run w = opened at hopened
  obtain ⟨f | u, w'⟩ := opened
  · exact hopened
  · exact hopened.printOther hn t

theorem Carries.runCommand (h : w.Carries name path s) {piped : Option Text} {command : Text}
    (hspares : CommandSpares path w piped command) : ((runCommand piped command).run w).2.Carries name path s := by
  refine h.of_same ?_
  unfold World.runCommand checkName
  cases command.contains '\x00' with
  | true => exact .refl w
  | false => exact ⟨hspares, rfl⟩

theorem Carries.readNamed (h : w.Carries name path s) {kind : InputKind} {n separator : Text}
    (hspares : (Event.readNamed kind n separator).Spares name path w) :
    ((readNamed kind n separator).run w).2.Carries name path s := by
  have hnamed : ((inputNamed kind n).run w).2.Carries name path s := by
    unfold inputNamed
    rw [Action.run_bind, Action.run_get]
    dsimp only
    split
    · exact h
    · rename_i hlookup
      cases kind with
      | file =>
        have hopened := h.after (spared_openFile n)
        dsimp only
        rw [Action.run_bind]
        generalize (openFile n).run w = opened at hopened
        obtain ⟨f | i, w'⟩ := opened
        · exact hopened
        · exact hopened.of_same ⟨rfl, rfl⟩
      | command =>
        have hopened : ((openCommand n).run w).2.Carries name path s := by
          obtain ⟨w', hflush, hcarries⟩ := h.flushAll
          have hcommand : CommandSpares path (World.flushAll.run w).2 none n := hspares hlookup
          rw [hflush] at hcommand
          have hrun := hcarries.runCommand hcommand
          unfold openCommand
          rw [Action.run_bind, hflush]
          dsimp only
          rw [Action.run_bind]
          generalize (World.runCommand none n).run w' = ran at hrun
          obtain ⟨f | outcome, w''⟩ := ran <;> exact hrun
        dsimp only
        rw [Action.run_bind]
        generalize (openCommand n).run w = opened at hopened
        obtain ⟨f | i, w'⟩ := opened
        · exact hopened
        · exact hopened.of_same ⟨rfl, rfl⟩
  unfold World.readNamed
  rw [Action.run_bind]
  generalize (inputNamed kind n).run w = named at hnamed
  obtain ⟨f | i, w'⟩ := named
  · exact hnamed
  · refine hnamed.after ((spared_readInput i separator).andThen fun (record, i) => ?_)
    refine Yields.andThen (spared_modify fun _ => ⟨rfl, rfl⟩) fun _ => ?_
    cases record with
    | ok record => exact Yields.pure trivial
    | error f => exact Yields.throw trivial

theorem Carries.flush (h : w.Carries name path s) (n : Text) : ((flush n).run w).2.Carries name path s := by
  unfold World.flush
  rw [Action.run_bind, Action.run_get]
  dsimp only
  split
  · exact h.after ((spared_warn _).andThen fun _ => Yields.pure trivial)
  · rename_i o hlookup
    rw [Action.run_bind]
    by_cases hn : n = name
    · subst hn
      obtain ⟨o', files, hflush, hstands, -⟩ := Stands.flush (hlookup ▸ h.stands)
      rw [hflush]
      exact h.put hstands
    · obtain ⟨hsame, hresult⟩ := spared_flushOutput (h.others n o hn hlookup) w (.refl w)
      generalize (flushOutput o).run w = flushed at hsame hresult
      obtain ⟨f | o', w'⟩ := flushed
      · exact h.of_same hsame
      · exact (h.of_same hsame).putOther hn rfl hresult

/-- An event changes what is carried as the tally says. -/
theorem Carries.step (hname : OutputName name) (h : w.Carries name path s) {e : Event}
    (hspares : e.Spares name path w) : (e.perform w).Carries name path (s.step name e) := by
  cases e with
  | print t => exact h.of_same ⟨rfl, rfl⟩
  | redirect op n t =>
    by_cases hn : n = name
    · subst hn
      rw [Tally.step, if_pos rfl]
      exact h.redirectOwn hname hspares
    · rw [Tally.step, if_neg hn]
      exact h.redirectOther hn hspares
  | close n => exact h.close fun command pending hlookup => hspares _ hlookup command rfl
  | flush n => exact h.flush n
  | flushAll =>
    obtain ⟨w', hflush, hcarries⟩ := h.flushAll
    rw [Event.perform, hflush]
    exact hcarries
  | flushStandard => exact h.of_same ⟨rfl, rfl⟩
  | system command =>
    obtain ⟨w', hflush, hcarries⟩ := h.flushAll
    have hcommand : CommandSpares path (World.flushAll.run w).2 none command := hspares
    rw [hflush] at hcommand
    have hrun := hcarries.of_same (same_runShown hcommand)
    rw [Event.perform, system, Action.run_bind, hflush]
    dsimp only
    rw [Action.run_bind]
    generalize (runShown none command).run w' = shown at hrun
    obtain ⟨f | ending, w''⟩ := shown <;> exact hrun
  | openFile n => exact h.after (spared_openFile n)
  | readInput i separator => exact h.after (spared_readInput i separator)
  | readNamed kind n separator => exact h.readNamed hspares
  | warn message => exact h.after (spared_warn message)
  | warnAlways message => exact h.of_same ⟨rfl, rfl⟩

/-- All events spare the file, each where it happens. -/
def AllSpare (name : Text) (path : Path) : World → List Event → Prop
  | _, [] => True
  | w, e :: events => e.Spares name path w ∧ AllSpare name path (e.perform w) events

instance decidableAllSpare (name : Text) (path : Path) : (w : World) → (events : List Event) →
    Decidable (AllSpare name path w events)
  | _, [] => .isTrue trivial
  | w, e :: events => @instDecidableAnd _ _ _ (decidableAllSpare name path (e.perform w) events)

theorem Carries.performAll (hname : OutputName name) (h : w.Carries name path s) {events : List Event}
    (hspares : AllSpare name path w events) :
    (w.performAll events).Carries name path (events.foldl (Tally.step name) s) := by
  induction events generalizing w s with
  | nil => exact h
  | cons e events ih => exact ih (h.step hname hspares.1) hspares.2

/-- Without streams a file carries its text. -/
theorem carries_start (hclosed : w.outputs = []) : w.Carries name path ⟨w.files.text path, none⟩ := by
  refine ⟨?_, fun n o _ hlookup => ?_, ?_⟩
  · rw [hclosed]
    exact .closed _
  · rw [hclosed] at hlookup
    cases hlookup
  · rw [hclosed]
    exact List.nodup_nil

/-- When no stream is left under the name, what belongs to the file is there. -/
theorem content_of_events (hname : OutputName name) (hstart : w.outputs = []) {events : List Event}
    (hspares : AllSpare name path w events) (hclosed : (w.performAll events).outputs.lookup name = none) :
    (w.performAll events).files.text path = (tally name (w.files.text path) events).text := by
  have hcarries : w.Carries name path ⟨w.files.text path, none⟩ := carries_start hstart
  have hstands := (hcarries.performAll hname hspares).stands
  rw [hclosed] at hstands
  exact hstands.text_eq

end World

end Awk
