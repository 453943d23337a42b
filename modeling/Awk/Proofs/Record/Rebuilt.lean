import Awk.Proofs.Fields.Single
import Awk.Proofs.Record.Eager

/-!
# Rebuilding a text and cutting it again

With the same character between the fields of a record on the way in and on the way out (`Variables.Separates`), its
text is the texts of its fields with that character between them (`Record.Tracks`), however it came about.  So a field
that is stored where it was read changes nothing, and a text that was rebuilt from fields without the character is cut
into the same fields again (`Record.cut_rebuilt`).
-/

namespace Awk

open Awk.Action

/-- The variables on which the cutting and the rebuilding of a record depend. -/
def recordSettings : List Text := ["FS".toList, "OFS".toList, "RS".toList, "CONVFMT".toList]

/-- The fields are separated by one character, in what is read and in what is made anew, and lines are not gathered to
paragraphs.  There is a format for numbers wherever there is a text of `FS`. -/
structure Variables.Separates (vars : Variables) (c : Char) (format : Text) : Prop where
  fieldSeparator : vars.setting "FS" [' '] = .ok [c]
  outputSeparator : vars.setting "OFS" [' '] = .ok [c]
  recordEnd : ∃ ending, vars.setting "RS" ['\n'] = .ok ending ∧ ending ≠ []
  convfmt : vars.convfmt = .ok format

/-- A value whose text is there and does not have the character in it. -/
def Value.Lacks (format : Text) (c : Char) (v : Value) : Prop := ∃ t, v.toText format = .ok t ∧ c ∉ t

namespace RecordOp

/-- The operation leaves the settings as they are. -/
def KeepsSettings : RecordOp → Prop
  | assign name _ => name ∉ recordSettings
  | _ => True

/-- A field that the operation stores does not have the character in it. -/
def StoresWithout (format : Text) (c : Char) : RecordOp → Prop
  | setField index v => 0 < index → v.Lacks format c
  | _ => True

end RecordOp

theorem Variables.Separates.assign {vars : Variables} {c : Char} {format name : Text} (h : vars.Separates c format)
    (hname : name ∉ recordSettings) (v : Value) : (vars.assign name v).Separates c format := by
  have hsame {setting : Text} (hsetting : setting ∈ recordSettings) : vars.assign name v setting = vars setting :=
    if_neg fun heq : setting = name => hname (heq ▸ hsetting)
  have hconvfmt : (vars.assign name v).convfmt = vars.convfmt := by
    rw [Variables.convfmt, Variables.convfmt, hsame (by simp [recordSettings])]
  have hsetting {setting : String} (hmem : setting.toList ∈ recordSettings) (default : Text) :
      (vars.assign name v).setting setting default = vars.setting setting default := by
    rw [Variables.setting, Variables.setting, hsame hmem, hconvfmt]
  refine ⟨?_, ?_, ?_, hconvfmt.trans h.convfmt⟩
  · rw [hsetting (by simp [recordSettings]), h.fieldSeparator]
  · rw [hsetting (by simp [recordSettings]), h.outputSeparator]
  · rw [hsetting (by simp [recordSettings])]
    exact h.recordEnd

namespace Record

/-- The fields as texts. -/
def fieldTexts (vars : Variables) : Action (List Text) := do
  let values ← fields
  let format ← vars.convfmt
  values.mapM fun v => v.toText format

/-- Store a field where it was read. -/
def restoreField (vars : Variables) (index : Int) : Action Unit := do
  setField vars index (← getField index)

/-- Whichever field is stored where it was read, the text stays as it is; and nothing fails if all fields have
texts. -/
def KeepsText (vars : Variables) (r : Record) : Prop :=
  ∃ n, (count.run r).1 = .ok n ∧ ∀ index : Nat, 1 ≤ index → index ≤ n →
    ((restoreField vars index).run r).2.text = r.text ∧
    ∀ texts, ((fieldTexts vars).run r).1 = .ok texts → ((restoreField vars index).run r).1 = .ok ()

/-- The text, when it is installed, is cut into the fields of the record. -/
def CutsBack (vars : Variables) (r : Record) : Prop :=
  ∃ texts, ((fieldTexts vars).run r).1 = .ok texts ∧
    ((fieldTexts vars).run ((setText vars r.text).run r).2).1 = .ok texts

/-- A new record, or one whose text has just been installed. -/
def Begun (vars : Variables) (r : Record) : Prop := r = .empty ∨ ∃ t r', r = ((setText vars t).run r').2

/-- The variables and the record after some operations. -/
def after (vars : Variables) (r : Record) : List RecordOp → Variables × Record
  | [] => (vars, r)
  | op :: ops =>
    let (_, vars, r) := perform vars r op
    after vars r ops

/-- The record has these fields, and its text is their texts with the character between them, if they all have one. -/
structure Tracks (format : Text) (c : Char) (r : Record) (values : List Value) : Prop where
  holds : r.Holds values
  joined : ∀ texts, values.mapM (·.toText format) = .ok texts → r.text = Text.join [c] texts

variable {vars : Variables} {c : Char} {format : Text} {r : Record} {values : List Value}

theorem mapM_toText_strnum (format : Text) (pieces : List Text) :
    (pieces.map Value.strnum).mapM (·.toText format) = .ok pieces := by
  induction pieces with
  | nil => rfl
  | cons piece pieces ih =>
    rw [List.map_cons, List.mapM_cons, ih]
    rfl

/-- The texts of values that lack the character. -/
theorem exists_mapM_toText (h : ∀ v ∈ values, v.Lacks format c) :
    ∃ texts, values.mapM (·.toText format) = .ok texts ∧ ∀ t ∈ texts, c ∉ t := by
  induction values with
  | nil => exact ⟨[], rfl, List.forall_mem_nil _⟩
  | cons v values ih =>
    obtain ⟨⟨t, ht, hlacks⟩, hvalues⟩ := List.forall_mem_cons.1 h
    obtain ⟨texts, htexts, hlack⟩ := ih hvalues
    refine ⟨t :: texts, ?_, List.forall_mem_cons.2 ⟨hlacks, hlack⟩⟩
    rw [List.mapM_cons, ht, htexts]
    rfl

theorem mem_of_padTo {count : Nat} {padded : List Value} (h : padTo values count = .ok padded) {v : Value}
    (hv : v ∈ padded) : v ∈ values ∨ v = .unset := by
  obtain ⟨_, -, h⟩ := bind_eq_ok.1 h
  cases h
  rcases List.mem_append.1 hv with hv | hv
  · exact .inl hv
  · exact .inr (List.eq_of_mem_replicate hv)

/-- There is nothing to be added where the fields are there. -/
theorem padTo_of_le {count : Nat} (h : count ≤ values.length) : padTo values count = .ok values := by
  rw [padTo, Nat.sub_eq_zero_of_le h, List.replicate_zero, List.append_nil]
  rfl

theorem Value.lacks_unset (format : Text) (c : Char) : Value.unset.Lacks format c := ⟨[], rfl, List.not_mem_nil⟩

/-! ### What the operations do -/

theorem run_fields_of_holds (h : r.Holds values) : fields.run r = (.ok values, { r with split := some values }) := by
  unfold Holds at h
  rcases hsplit : r.split with _ | present
  · rw [hsplit] at h
    obtain ⟨pieces, hpieces, rfl⟩ := h
    simp only [fields, run_bind, run_get, hsplit, run_liftM, hpieces, run_modify, run_pure]
  · rw [hsplit] at h
    simp only [fields, run_bind, run_get, hsplit, run_pure, ← h]
    rw [← hsplit]

theorem Tracks.cut (h : r.Tracks format c values) : { r with split := some values }.Tracks format c values :=
  ⟨rfl, h.joined⟩

/-- A record with a text that has been installed and not been cut. -/
def installed (c : Char) (t : Text) : Record := ⟨t, .strnum t, none, [c], false⟩

theorem run_setText_of_separates (hvars : vars.Separates c format) (t : Text) (r : Record) :
    (setText vars t).run r = (.ok (), installed c t) := by
  obtain ⟨ending, hending, hne⟩ := hvars.recordEnd
  have hparagraph : ending.isEmpty = false := by simpa using hne
  simp only [setText, run_bind, run_modify, hvars.fieldSeparator, hending, hparagraph, run_liftM, installed]

theorem installed_tracks (hc : c ≠ ' ') (format t : Text) :
    ∃ values, (installed c t).Tracks format c values ∧ ∀ v ∈ values, v.Lacks format c := by
  obtain ⟨pieces, hpieces, hlack, hjoin⟩ :
      ∃ pieces, splitFields t [c] false = .ok pieces ∧ (∀ piece ∈ pieces, c ∉ piece) ∧ Text.join [c] pieces = t := by
    by_cases ht : t = []
    · refine ⟨[], ?_, List.forall_mem_nil _, ht.symm⟩
      rw [ht, splitFields, if_neg (by simpa using hc)]
      rfl
    · exact exists_splitFields_single hc ht
  refine ⟨pieces.map .strnum, ⟨⟨pieces, hpieces, rfl⟩, fun texts htexts => ?_⟩,
    List.forall_mem_map.2 fun piece hpiece => ⟨piece, rfl, hlack piece hpiece⟩⟩
  rw [mapM_toText_strnum] at htexts
  cases htexts
  exact hjoin.symm

/-- What is made of the fields is the text of the fields, unless one of them has none. -/
theorem run_rebuild_of_split (hvars : vars.Separates c format) (hsplit : r.split = some values) :
    (rebuild vars).run r =
      match values.mapM (·.toText format) with
      | .ok texts => (.ok (), { r with text := Text.join [c] texts, value := .strnum (Text.join [c] texts) })
      | .error f => (.error f, r) := by
  simp only [rebuild, fields, run_bind, run_get, hsplit, run_pure, hvars.convfmt, hvars.outputSeparator, run_liftM,
    run_mapM_liftM]
  cases values.mapM (·.toText format) with
  | error f => rfl
  | ok texts =>
    rw [← hsplit]
    rfl

theorem rebuild_tracks (hvars : vars.Separates c format) (hsplit : r.split = some values) :
    ((rebuild vars).run r).2.Tracks format c values := by
  rw [run_rebuild_of_split hvars hsplit]
  have hholds (r' : Record) (hr' : r'.split = some values) : r'.Holds values := by
    rw [Holds, hr']
  split
  · rename_i texts htexts
    refine ⟨hholds _ hsplit, fun texts' htexts' => ?_⟩
    rw [htexts, Except.ok.injEq] at htexts'
    rw [htexts']
  · rename_i f hfails
    refine ⟨hholds _ hsplit, fun texts htexts => ?_⟩
    rw [hfails] at htexts
    cases htexts

/-! ### What stays so -/

theorem getField_tracks (h : r.Tracks format c values) (index : Int) :
    ((Record.getField index).run r).2.Tracks format c values := by
  unfold Record.getField
  by_cases hzero : index = 0
  · simpa only [hzero, if_true, run_bind, run_get, run_pure] using h
  by_cases hneg : index < 0
  · rw [if_neg hzero, if_pos hneg]
    exact h
  simpa only [hzero, hneg, if_false, run_bind, run_fields_of_holds h.holds, run_pure] using h.cut

theorem count_tracks (h : r.Tracks format c values) : (Record.count.run r).2.Tracks format c values := by
  simpa only [Record.count, run_bind, run_fields_of_holds h.holds, run_pure] using h.cut

/-- A field that is stored, or the whole text, becomes part of what the record has. -/
theorem setField_tracks (hvars : vars.Separates c format) (hc : c ≠ ' ') (h : r.Tracks format c values) (index : Int)
    (v : Value) :
    ∃ values', ((Record.setField vars index v).run r).2.Tracks format c values' ∧
      ((∀ w ∈ values, w.Lacks format c) → (0 < index → v.Lacks format c) → ∀ w ∈ values', w.Lacks format c) := by
  unfold Record.setField
  by_cases hzero : index = 0
  · cases htext : v.toText format with
    | error f =>
      refine ⟨values, ?_, fun hlack _ => hlack⟩
      simpa only [hzero, if_true, run_bind, run_liftM, hvars.convfmt, htext] using h
    | ok t =>
      obtain ⟨values', htracks, hlack⟩ := installed_tracks hc format t
      refine ⟨values', ?_, fun _ _ => hlack⟩
      simpa only [hzero, if_true, run_bind, run_liftM, hvars.convfmt, htext, run_setText_of_separates hvars]
        using htracks
  by_cases hneg : index < 0
  · refine ⟨values, ?_, fun hlack _ => hlack⟩
    rw [if_neg hzero, if_pos hneg]
    exact h
  have hpos : 0 < index := by omega
  cases hpad : padTo values index.toNat with
  | error f =>
    refine ⟨values, ?_, fun hlack _ => hlack⟩
    simpa only [hzero, hneg, if_false, run_bind, run_fields_of_holds h.holds, hpad, run_liftM] using h.cut
  | ok padded =>
    refine ⟨padded.set (index.toNat - 1) v, ?_, fun hlack hv w hw => ?_⟩
    · simpa only [hzero, hneg, if_false, run_bind, run_fields_of_holds h.holds, hpad, run_liftM, run_modify]
        using rebuild_tracks hvars rfl
    · rcases List.mem_or_eq_of_mem_set hw with hw | rfl
      · rcases mem_of_padTo hpad hw with hw | rfl
        · exact hlack w hw
        · exact Value.lacks_unset format c
      · exact hv hpos

theorem setCount_tracks (hvars : vars.Separates c format) (h : r.Tracks format c values) (count : Int) :
    ∃ values', ((Record.setCount vars count).run r).2.Tracks format c values' ∧
      ((∀ w ∈ values, w.Lacks format c) → ∀ w ∈ values', w.Lacks format c) := by
  unfold Record.setCount
  by_cases hneg : count < 0
  · refine ⟨values, ?_, id⟩
    rw [if_pos hneg]
    exact h
  cases hpad : padTo (values.take count.toNat) count.toNat with
  | error f =>
    refine ⟨values, ?_, id⟩
    simpa only [hneg, if_false, run_bind, run_pure, run_fields_of_holds h.holds, hpad, run_liftM] using h.cut
  | ok padded =>
    refine ⟨padded, ?_, fun hlack w hw => ?_⟩
    · simpa only [hneg, if_false, run_bind, run_pure, run_fields_of_holds h.holds, hpad, run_liftM, run_modify]
        using rebuild_tracks hvars rfl
    · rcases mem_of_padTo hpad hw with hw | rfl
      · exact hlack w (List.mem_of_mem_take hw)
      · exact Value.lacks_unset format c

/-- One operation leaves a record whose text is that of its fields; and if it stores nothing with the character, and
there was none in the fields before, there is none in them afterwards. -/
theorem perform_tracks (hvars : vars.Separates c format) (hc : c ≠ ' ') (h : r.Tracks format c values)
    {op : RecordOp} (hop : op.KeepsSettings) :
    (perform vars r op).2.1.Separates c format ∧
    ∃ values', (perform vars r op).2.2.Tracks format c values' ∧
      ((∀ v ∈ values, v.Lacks format c) → op.StoresWithout format c → ∀ v ∈ values', v.Lacks format c) := by
  cases op with
  | assign name v => exact ⟨hvars.assign hop v, values, h, fun hlack _ => hlack⟩
  | setText t =>
    obtain ⟨values', htracks, hlack⟩ := installed_tracks hc format t
    refine ⟨hvars, values', ?_, fun _ _ => hlack⟩
    rw [perform, run_setText_of_separates hvars]
    exact htracks
  | getField index => exact ⟨hvars, values, getField_tracks h index, fun hlack _ => hlack⟩
  | setField index v => exact ⟨hvars, setField_tracks hvars hc h index v⟩
  | count => exact ⟨hvars, values, count_tracks h, fun hlack _ => hlack⟩
  | setCount count =>
    obtain ⟨values', htracks, hlack⟩ := setCount_tracks hvars h count
    exact ⟨hvars, values', htracks, fun hvalues _ => hlack hvalues⟩
  | readText => exact ⟨hvars, values, h, fun hlack _ => hlack⟩

/-- The same of a run of operations. -/
theorem after_tracks (hvars : vars.Separates c format) (hc : c ≠ ' ') (h : r.Tracks format c values)
    {ops : List RecordOp} (hops : ∀ op ∈ ops, op.KeepsSettings) :
    (after vars r ops).1.Separates c format ∧
    ∃ values', (after vars r ops).2.Tracks format c values' ∧
      ((∀ v ∈ values, v.Lacks format c) → (∀ op ∈ ops, op.StoresWithout format c) →
        ∀ v ∈ values', v.Lacks format c) := by
  induction ops generalizing vars r values with
  | nil => exact ⟨hvars, values, h, fun hlack _ => hlack⟩
  | cons op ops ih =>
    obtain ⟨hop, hops⟩ := List.forall_mem_cons.1 hops
    obtain ⟨hvars', between, hbetween, hfirst⟩ := perform_tracks hvars hc h hop
    obtain ⟨hvars'', values', htracks, hrest⟩ := ih hvars' hbetween hops
    refine ⟨hvars'', values', htracks, fun hlack hstores => ?_⟩
    obtain ⟨hstore, hstores⟩ := List.forall_mem_cons.1 hstores
    exact hrest (hfirst hlack hstore) hstores

/-! ### There and back -/

theorem run_fieldTexts (hvars : vars.Separates c format) (h : r.Holds values) :
    ((fieldTexts vars).run r).1 = values.mapM (·.toText format) := by
  simp only [fieldTexts, run_bind, run_fields_of_holds h, hvars.convfmt, run_liftM, run_mapM_liftM]

/-- To store a field where it was read is to make the text anew. -/
theorem run_restoreField (h : r.Holds values) {index : Nat} (hpos : 1 ≤ index) (hle : index ≤ values.length)
    (vars : Variables) : (restoreField vars index).run r = (rebuild vars).run { r with split := some values } := by
  have hzero : (index : Int) ≠ 0 := by omega
  have hneg : ¬(index : Int) < 0 := by omega
  have hlt : index - 1 < values.length := by omega
  have hsame : values.set (index - 1) ((values[index - 1]?).getD .unset) = values := by
    rw [List.getElem?_eq_getElem hlt, Option.getD_some, List.set_getElem_self]
  have hcut : { r with split := some values }.Holds values := rfl
  simp only [restoreField, getField, setField, hzero, hneg, if_false, run_bind, run_fields_of_holds h, run_pure,
    run_fields_of_holds hcut, Int.toNat_natCast, padTo_of_le hle, run_liftM, run_modify, hsame]

theorem Tracks.keepsText (hvars : vars.Separates c format) (h : r.Tracks format c values) : KeepsText vars r := by
  refine ⟨values.length, ?_, fun index hpos hle => ?_⟩
  · simp only [Record.count, run_bind, run_fields_of_holds h.holds, run_pure]
  · rw [run_restoreField h.holds hpos hle, run_rebuild_of_split hvars rfl, run_fieldTexts hvars h.holds]
    cases htexts : values.mapM (·.toText format) with
    | error f => exact ⟨rfl, fun _ htexts => by cases htexts⟩
    | ok texts => exact ⟨(h.joined texts htexts).symm, fun _ _ => rfl⟩

/-- The text of fields without the character is cut into these fields. -/
theorem Tracks.cutsBack (hvars : vars.Separates c format) (hc : c ≠ ' ') (h : r.Tracks format c values)
    (hlack : ∀ v ∈ values, v.Lacks format c) (htext : r.text ≠ []) : CutsBack vars r := by
  obtain ⟨texts, htexts, hnone⟩ := exists_mapM_toText hlack
  have hjoin := h.joined texts htexts
  refine ⟨texts, (run_fieldTexts hvars h.holds).trans htexts, ?_⟩
  have hcut : (installed c r.text).Holds (texts.map .strnum) := by
    refine ⟨texts, ?_, rfl⟩
    rw [hjoin] at htext ⊢
    exact splitFields_join hc hnone htext
  rw [run_setText_of_separates hvars, run_fieldTexts hvars hcut, mapM_toText_strnum]

theorem Begun.tracks (hvars : vars.Separates c format) (hc : c ≠ ' ') (h : Begun vars r) :
    ∃ values, r.Tracks format c values ∧ ∀ v ∈ values, v.Lacks format c := by
  rcases h with rfl | ⟨t, r', rfl⟩
  · refine ⟨[], ⟨rfl, fun texts htexts => ?_⟩, List.forall_mem_nil _⟩
    cases htexts
    rfl
  · rw [run_setText_of_separates hvars]
    exact installed_tracks hc format t

/-- **Cutting at a character and rebuilding with it undo each other.**  The pieces of a text do not have the character
in them and are the text when they are put together by it.  A record that has been worked on, with the character as
field separator of its input and its output, therefore keeps its text when a field is stored where it was read; and if
no field was stored that has the character in it, the text of the record is cut into the fields that it was made of. -/
theorem cut_rebuilt {c : Char} (hc : c ≠ ' ') :
    (∀ text ≠ [], ∃ pieces, splitFields text [c] false = .ok pieces ∧ (∀ piece ∈ pieces, c ∉ piece) ∧
      Text.join [c] pieces = text) ∧
    ∀ (vars vars' : Variables) (format : Text) (r r' : Record) (ops : List RecordOp),
      vars.Separates c format → Begun vars r → (∀ op ∈ ops, op.KeepsSettings) → after vars r ops = (vars', r') →
      KeepsText vars' r' ∧ ((∀ op ∈ ops, op.StoresWithout format c) → r'.text ≠ [] → CutsBack vars' r') := by
  refine ⟨fun text htext => exists_splitFields_single hc htext, ?_⟩
  intro vars vars' format r r' ops hvars hbegun hops hafter
  obtain ⟨values₀, htracks₀, hlack₀⟩ := hbegun.tracks hvars hc
  obtain ⟨hvars', values, htracks, hlack⟩ := after_tracks hvars hc htracks₀ hops
  rw [hafter] at hvars' htracks
  exact ⟨htracks.keepsText hvars', fun hstores => htracks.cutsBack hvars' hc (hlack hlack₀ hstores)⟩

/-- A backslash separates: fields are added, with empty ones between them, and one of them is emptied. -/
theorem cut_rebuilt_backslash :
    let vars : Variables := fun name =>
      if name = "FS".toList ∨ name = "OFS".toList then some (.str ['\\']) else none
    let ops : List RecordOp :=
      [.setText "\\a\\\\b".toList, .setField 6 (.str "[x".toList), .assign "SEP".toList .unset, .setField 2 .unset]
    ∃ vars' r, after vars .empty ops = (vars', r) ∧ r.text = "\\\\\\b\\\\[x".toList ∧
      KeepsText vars' r ∧ CutsBack vars' r := by
  intro vars ops
  have hvars : vars.Separates '\\' defaultFormat := ⟨rfl, rfl, ⟨_, rfl, by decide⟩, rfl⟩
  have hkeeps : ∀ op ∈ ops, op.KeepsSettings := by
    simp [ops, RecordOp.KeepsSettings, recordSettings]
  have hstores : ∀ op ∈ ops, op.StoresWithout defaultFormat '\\' := by
    intro op hop
    simp only [ops, List.mem_cons, List.not_mem_nil, or_false] at hop
    rcases hop with rfl | rfl | rfl | rfl
    · trivial
    · exact fun _ => ⟨_, rfl, by decide⟩
    · trivial
    · exact fun _ => ⟨_, rfl, by decide⟩
  have htext : (after vars .empty ops).2.text = "\\\\\\b\\\\[x".toList := by decide +kernel
  obtain ⟨⟨vars', r⟩, hafter⟩ : ∃ result, after vars .empty ops = result := ⟨_, rfl⟩
  rw [hafter] at htext
  obtain ⟨hrestored, hagain⟩ :=
    (cut_rebuilt (by decide)).2 vars vars' defaultFormat .empty r ops hvars (.inl rfl) hkeeps hafter
  exact ⟨vars', r, hafter, htext, hrestored, hagain hstores (by rw [htext]; decide)⟩

end Record

end Awk
