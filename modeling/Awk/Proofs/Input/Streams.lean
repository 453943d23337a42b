import Awk.Proofs.Action
import Awk.Proofs.Reader.Delivery
import Awk.Proofs.Reader.Gathered
import Awk.Proofs.StreamTable
import Awk.World.Close

/-!
# Streams on files

A stream on a file keeps what its reader has at hand and how much of the file it has fetched.  While the text of the file
is the same, it stands where some reader of the text would stand (`Input.StandsAt`), from the first record on
(`standsAt_ofOrigin`), and a record that is read from it is the one that this reader gives (`StandsAt.readInput`).
-/

namespace Awk

namespace Reader

/-- What a reader answers to one call for each of the separators. -/
def results (r : Reader) : List Text → List (Except Fault (Option Text))
  | [] => []
  | separator :: separators => (r.readRecord separator).1 :: (r.readRecord separator).2.results separators

theorem results_concat (r : Reader) (separators : List Text) (separator : Text) :
    r.results (separators ++ [separator]) =
      r.results separators ++ [((r.after separators).readRecord separator).1] := by
  induction separators generalizing r with
  | nil => rfl
  | cons first separators ih => exact congrArg (_ :: ·) (ih _)

theorem after_concat (r : Reader) (separators : List Text) (separator : Text) :
    r.after (separators ++ [separator]) = ((r.after separators).readRecord separator).2 := by
  rw [after, List.foldl_concat, after]

end Reader

namespace World

/-- The reader of a stream with its source as it stands now. -/
def readerOf (i : Input) (w : World) : Reader := { i.reader with source := sourceOf i w }

theorem run_readInput (i : Input) (separator : Text) (w : World) :
    (readInput i separator).run w =
      (.ok (((readerOf i w).readRecord separator).1,
          (keepSource i (sourceOf i w) ((readerOf i w).readRecord separator).2 w).1),
        (keepSource i (sourceOf i w) ((readerOf i w).readRecord separator).2 w).2) := rfl

end World

namespace Input

variable {i : Input} {w : World} {path : Path} {r : Reader}

/-- A stream on a file whose next records are those of a reader. -/
structure StandsAt (i : Input) (w : World) (path : Path) (r : Reader) : Prop where
  origin : ∃ fetched, i.origin = .file path fetched
  reader : (World.readerOf i w).gathered = r.gathered

/-- Nothing but the text of the file matters. -/
theorem StandsAt.of_text {w' : World} (h : i.StandsAt w path r) (htext : w'.files.text path = w.files.text path) :
    i.StandsAt w' path r := by
  obtain ⟨fetched, horigin⟩ := h.origin
  refine ⟨h.origin, ?_⟩
  have hreader := h.reader
  simp only [World.readerOf, World.sourceOf, horigin] at hreader ⊢
  rw [htext]
  exact hreader

/-- A stream that has just been opened stands at the beginning of the file. -/
theorem standsAt_ofOrigin (w : World) (path : Path) :
    (ofOrigin (.file path 0)).StandsAt w path (.ofText (w.files.text path)) := by
  refine ⟨⟨0, rfl⟩, ?_⟩
  simp [World.readerOf, World.sourceOf, ofOrigin, Reader.gathered, Reader.ofText, Reader.ofSource, Source.gathered,
    Source.unread, Source.ofText]

/-- What has been taken from behind is what the stream has fetched. -/
theorem readerOf_keepSource {fetched : Nat} {r' : Reader} (horigin : i.origin = .file path fetched)
    (hbeyond : r'.source.beyond <:+ (World.sourceOf i w).beyond) :
    World.readerOf (World.keepSource i (World.sourceOf i w) r' w).1 w = r' := by
  have hsource : (World.sourceOf i w).beyond = (w.files.text path).drop fetched := by
    rw [World.sourceOf, horigin]
  rw [hsource] at hbeyond
  have hdrop := List.suffix_iff_eq_drop.1 hbeyond
  simp only [World.readerOf, World.keepSource, horigin, World.sourceOf]
  rw [← List.drop_drop, ← hdrop]

theorem StandsAt.readInput (h : i.StandsAt w path r) (separator : Text) :
    ∃ i', (World.readInput i separator).run w = (.ok ((r.readRecord separator).1, i'), w) ∧
      i'.StandsAt w path (r.readRecord separator).2 := by
  obtain ⟨fetched, horigin⟩ := h.origin
  have hread := (World.readerOf i w).readRecord_gathered separator
  rw [h.reader, Reader.readRecord_gathered] at hread
  obtain ⟨hresult, hreader⟩ := Prod.mk.inj hread
  have hkeep := readerOf_keepSource horigin ((World.readerOf i w).beyond_readRecord separator)
  have hworld (r' : Reader) : (World.keepSource i (World.sourceOf i w) r' w).2 = w := by
    simp only [World.keepSource, horigin]
  have horigin' (r' : Reader) :
      ∃ fetched', (World.keepSource i (World.sourceOf i w) r' w).1.origin = .file path fetched' := by
    simp only [World.keepSource, horigin]
    exact ⟨_, rfl⟩
  refine ⟨_, ?_, horigin' ((World.readerOf i w).readRecord separator).2, ?_⟩
  · rw [World.run_readInput, hworld, hresult]
  · rw [hkeep, hreader]

end Input

namespace World

/-! ### Streams under a name -/

/-- The name of an ordinary file, where it leads and what stands there. -/
structure Holds (w : World) (name : Text) (path : Path) (t : Text) : Prop where
  notStandard : isStandardInput name = false
  named : name.contains '\x00' = false
  found : w.files.locate false name = .ok (.file path)
  text : w.files.text path = t

/-- The next record of the stream under a name, opened if there is none, is that of a reader. -/
def Awaits (w : World) (name : Text) (path : Path) (r : Reader) : Prop :=
  match w.inputs.lookup name with
  | none => r = .ofText (w.files.text path)
  | some i => i.StandsAt w path r

variable {w : World} {name : Text} {path : Path} {t : Text} {r : Reader}

theorem run_checkName (h : name.contains '\x00' = false) : (checkName name).run w = (.ok (), w) := by
  unfold checkName
  rw [h]
  rfl

theorem run_openFile (h : w.Holds name path t) : (openFile name).run w = (.ok (.ofOrigin (.file path 0)), w) := by
  have hread : w.files.toRead name = (.ok (.inl path), w.files) := by
    rw [Files.toRead, h.found]
  unfold openFile
  rw [h.notStandard]
  simp only [Bool.false_eq_true, if_false, Action.run_bind, Action.run_pure, Action.run_get, run_checkName h.named, hread]
  rfl

theorem Awaits.readNamed (hholds : w.Holds name path t) (h : w.Awaits name path r) (separator : Text) :
    ∃ inputs, (readNamed .file name separator).run w = ((r.readRecord separator).1, { w with inputs := inputs }) ∧
      Awaits { w with inputs := inputs } name path (r.readRecord separator).2 ∧
      ∀ other, other ≠ name → inputs.lookup other = w.inputs.lookup other := by
  obtain ⟨i, inputs, hopened, hstands, hothers⟩ : ∃ i inputs,
      (inputNamed .file name).run w = (.ok i, { w with inputs := inputs }) ∧ i.StandsAt w path r ∧
        ∀ other, other ≠ name → inputs.lookup other = w.inputs.lookup other := by
    unfold Awaits at h
    rw [inputNamed, Action.run_bind, Action.run_get]
    dsimp only
    split at h
    · rename_i hlookup
      rw [hlookup]
      dsimp only
      rw [Action.run_bind, run_openFile hholds]
      refine ⟨_, _, rfl, h ▸ Input.standsAt_ofOrigin w path, fun other hother => ?_⟩
      rw [lookup_putStream, if_neg hother]
    · rename_i i hlookup
      rw [hlookup]
      exact ⟨i, w.inputs, rfl, h, fun _ _ => rfl⟩
  have hstands : i.StandsAt { w with inputs := inputs } path r := hstands.of_text rfl
  obtain ⟨i', hread, hstands'⟩ := hstands.readInput separator
  refine ⟨putStream name i' inputs, ?_, ?_, fun other hother => ?_⟩
  · rw [World.readNamed, Action.run_bind, hopened]
    dsimp only
    rw [Action.run_bind, hread]
    dsimp only
    rw [Action.run_bind, Action.run_modify]
    rcases (r.readRecord separator).1 with fault | record
    · rfl
    · rfl
  · unfold Awaits
    dsimp only
    rw [lookup_putStream, if_pos rfl]
    exact hstands'.of_text rfl
  · rw [lookup_putStream, if_neg hother, hothers other hother]

end World

end Awk
