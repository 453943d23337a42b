import Awk.Proofs.Syntax.Layout.Items
import Awk.Proofs.Syntax.Layout.Walk

/-!
# Program texts with the same tokens

A text that has the tokens of a program is read as its items in other places (`Parser.Whole.exists_passes`).  If nothing
but newlines follows them, it is the same program (`Parser.exists_parseProgram_of_follows`).
-/

namespace Awk

namespace Parser

variable {n : Nat} {s t : ParserState} {source : Text} {C : Correspondence} {path : List Taken} {list : List Item}

/-! ### Calls -/

/-- A check of every entry that finds nothing. -/
theorem forIn_run {α : Type} {check : α → PUnit → Parser (ForInStep PUnit)} {list : List α}
    (h : ∀ a ∈ list, (check a ⟨⟩).run s = .ok (.yield ⟨⟩, s)) : (forIn list ⟨⟩ check).run s = .ok (⟨⟩, s) := by
  induction list with
  | nil =>
    rw [List.forIn_nil]
    exact pure_ok.2 ⟨rfl, rfl⟩
  | cons a list ih =>
    rw [List.forIn_cons]
    exact bind_ok.2 ⟨_, _, h a List.mem_cons_self, ih fun b hb => h b (List.mem_cons_of_mem _ hb)⟩

theorem checkCalls_run (h : (Recorded s.calls).Implies (Defined s.functions)) : checkCalls.run s = .ok ((), s) := by
  refine bind_ok.2 ⟨_, _, get_ok.2 ⟨rfl, rfl⟩, bind_ok.2 ⟨_, _, forIn_run fun call hcall => ?_, pure_ok.2 ⟨rfl, rfl⟩⟩⟩
  obtain ⟨arity, hlookup, hle⟩ := h (List.mem_reverse.1 hcall)
  simp only [hlookup, if_neg (Nat.not_lt.2 hle)]
  rfl

/-- Calls of functions that are defined stay so behind functions of other names. -/
theorem Correspondence.Near.defined {s' : ParserState} (h : C.Near path s s')
    (hcalls : (Recorded s.calls).Implies (Defined s.functions))
    (hknown : ∀ entry ∈ C.known, ∀ signature ∈ s.functions, entry.1 ≠ signature.1)
    (hearlier : (Recorded C.earlier).Implies (Defined C.known)) :
    (Recorded s'.calls).Implies (Defined s'.functions) := by
  intro token count hcall
  rw [Recorded, h.calls, List.mem_append, List.mem_map] at hcall
  rw [Defined, h.functions, List.lookup_append]
  rcases hcall with ⟨⟨token₀, count₀⟩, hcall, heq⟩ | hcall
  · cases heq
    obtain ⟨arity, hlookup, hle⟩ := hcalls hcall
    have hnone : C.known.lookup (C.token token₀).text = none := by
      obtain ⟨before, after, hfunctions, -⟩ := List.lookup_eq_some_iff.1 hlookup
      refine List.lookup_eq_none_iff.2 fun entry hentry => bne_iff_ne.2 fun heq => ?_
      exact hknown entry hentry (token₀.text, arity) (by simp [hfunctions]) heq.symm
    exact ⟨arity, by rw [hnone]; exact hlookup, hle⟩
  · obtain ⟨arity, hlookup, hle⟩ := hearlier hcall
    exact ⟨arity, by rw [hlookup]; rfl, hle⟩

/-! ### Items -/

theorem items_end (hend : s.current.kind = .eof) (hn : 0 < n) : (items n).run s = .ok ([], s) := by
  obtain ⟨n, rfl⟩ := Nat.exists_eq_add_one_of_ne_zero (Nat.ne_of_gt hn)
  refine bind_ok.2 ⟨_, _, skip_of_skips .refl (by rw [hend]; rfl) rfl, ?_⟩
  refine bind_ok.2 ⟨_, _, kind_ok.2 ⟨rfl, rfl⟩, ?_⟩
  rw [if_pos hend]
  rfl

/-- The items of a program text are read from its start to its end, and all calls in it are accepted. -/
structure Whole (source : Text) (list : List Item) (s t : ParserState) : Prop where
  start : start source = .ok s
  items : (items (fuelFor source)).run s = .ok (list, t)
  functions : t.functions = list.filterMap Item.signature?
  calls : (Recorded t.calls).Implies (Defined t.functions)

theorem start_ok : start source = .ok s ↔ ∃ token behind, (Cursor.ofText source).token = .ok (token, behind) ∧
    s = ⟨.ofText source, token, behind, none, [], []⟩ := by
  refine Action.bind_eq_ok.trans ⟨?_, ?_⟩
  · rintro ⟨⟨token, behind⟩, htoken, h⟩
    cases h
    exact ⟨token, behind, htoken, rfl⟩
  · rintro ⟨token, behind, htoken, rfl⟩
    exact ⟨(token, behind), htoken, rfl⟩

theorem exists_whole {p : Program} (h : parseProgram source = .ok p) : ∃ s t, Whole source p.items s t := by
  obtain ⟨s, hstart, h⟩ := Action.bind_eq_ok.1 h
  obtain ⟨⟨p', s'⟩, hprogram, h⟩ := Action.bind_eq_ok.1 h
  cases h
  simp only [program, bind_ok, current_ok, spanFrom_iff, pure_ok] at hprogram
  obtain ⟨_, _, ⟨rfl, rfl⟩, list, t, hlist, _, _, hcheck, _, _, ⟨rfl, rfl⟩, rfl, -⟩ := hprogram
  obtain ⟨rfl, hcalls⟩ := checkCalls_ok hcheck
  have hfunctions := (items_ok (tidy_start hstart) hlist).1.functions
  obtain ⟨token, behind, htoken, rfl⟩ := start_ok.1 hstart
  exact ⟨_, _, hstart, hlist, hfunctions, hcalls⟩

theorem exists_program (hstart : start source = .ok s) (hitems : (items (fuelFor source)).run s = .ok (list, t))
    (hcalls : (Recorded t.calls).Implies (Defined t.functions)) :
    ∃ p, parseProgram source = .ok p ∧ p.items = list := by
  refine ⟨⟨t.spanFrom s.current, list⟩, ?_, rfl⟩
  refine Action.bind_eq_ok.2 ⟨s, hstart, Action.bind_eq_ok.2 ⟨(⟨t.spanFrom s.current, list⟩, t), ?_, rfl⟩⟩
  simp only [program, bind_ok, current_ok, spanFrom_iff, pure_ok]
  exact ⟨_, _, ⟨rfl, rfl⟩, list, t, hitems, _, _, checkCalls_run hcalls, _, _, ⟨rfl, rfl⟩, rfl, rfl⟩

/-- A place in another text from which the tokens of a program stand in it up to a final place, with newlines where they
make no difference. -/
def Follows (final : Cursor → Prop) (source : Text) (list : List Item) (place : Placement) (cursor : Cursor) : Prop :=
  ∀ {path stop}, Leads (list.map Item.outline) (list.flatMap Item.governed) path →
    (Cursor.ofText source).Covers (path.map Taken.token) stop → stop.AtEnd →
      Cursor.Walk place final path (.ofText source) cursor

variable {place : Placement} {cursor : Cursor} {final : Cursor → Prop}

/-- The parser has read some items up to a final place, where it may go on. -/
structure Passes (final : Cursor → Prop) (m : Nat) (s : ParserState) (list : List Item) (t : ParserState) : Prop where
  fed : Fed t
  final : final t.position
  calls : (Recorded t.calls).Implies (Defined t.functions)
  items : ∀ {more u}, (items (m - list.length)).run t = .ok (more, u) → (Parser.items m).run s = .ok (list ++ more, u)

/-- From there on the parser reads the same items in other places, if no function of them has been defined before. -/
theorem Whole.exists_passes {s' : ParserState} (h : Whole source list s t) {m : Nat} (hfuel : fuelFor source ≤ m)
    (hfinal : ∀ {c}, final c → ∃ token behind, c.token = .ok (token, behind) ∧ TokenKind.eof.Matches token.kind)
    (hfollows : Follows final source list place s'.position) (hfed' : Fed s')
    (hnew : ∀ entry ∈ s'.functions, ∀ signature ∈ t.functions, entry.1 ≠ signature.1)
    (hcalls : (Recorded s'.calls).Implies (Defined s'.functions)) :
    ∃ t', Passes final m s' (list.map (Item.placed place.span)) t' ∧ t'.functions = s'.functions ++ t.functions := by
  let C := Correspondence.ofWalk place final hfinal s'.functions s'.calls
  obtain ⟨hfed, hposition⟩ := fed_start h.start
  have hknown : ∀ item ∈ list, ∀ signature ∈ item.signature?, ∀ entry ∈ C.known, entry.1 ≠ signature.1 := by
    intro item hitem signature hsignature entry hentry
    refine hnew entry hentry signature ?_
    rw [h.functions]
    exact List.mem_filterMap.2 ⟨item, hitem, hsignature⟩
  obtain ⟨path, hmoves, -, -, hend, hleads, hrun⟩ := Parser.exists_items (C := C) hfed hfuel h.items hknown
  have hcovers := hmoves.covers hfed
  rw [hposition] at hcovers
  have hmeets := hfollows hleads hcovers ⟨_, _, hmoves.fed hfed, hend⟩
  obtain ⟨token, behind, -, rfl⟩ := start_ok.1 h.start
  have hnear : C.Near path ⟨.ofText source, token, behind, none, [], []⟩ s' :=
    ⟨hfed, hfed', hmeets, (List.append_nil _).symm, rfl⟩
  obtain ⟨t', hnear', hitems⟩ := hrun hnear.loose
  refine ⟨t', ⟨hnear'.fed', ?_, hnear'.defined h.calls hnew hcalls, ?_⟩, hnear'.functions⟩
  · cases hnear'.meets with
    | done _ _ hdone => exact hdone
  · rw [List.length_map]
    exact hitems

/-- Nothing but the end of the text is read where nothing but newlines comes before it. -/
theorem exists_items_end {s : ParserState} (hends : s.position.Ends) (hfed : Fed s) (hn : 0 < n) :
    ∃ u, (items n).run s = .ok ([], u) ∧ u.functions = s.functions ∧ u.calls = s.calls := by
  obtain ⟨stop, hnewlines, hend⟩ := hends
  have ⟨_, _, hlast, _⟩ := hend
  obtain ⟨u, hskip, hfed', rfl, hfunctions, hcalls⟩ := skips_of_newlines hnewlines hlast rfl hfed
  have hskip' : SkipsTerminators s u := hskip.mono fun hk => by rw [eq_of_beq hk]; rfl
  exact ⟨u, items_of_skips hskip' (items_end (hend.kind_eq hfed') hn), hfunctions, hcalls⟩

/-- Every item takes some of the text. -/
theorem Whole.length_lt (h : Whole source list s t) : list.length < fuelFor source ∧ list.length ≤ source.length := by
  let C := Correspondence.ofWalk .none Cursor.Ends Cursor.Ends.matches [] []
  obtain ⟨hfed, hposition⟩ := fed_start h.start
  obtain ⟨path, hmoves, hlt, hle, -⟩ :=
    Parser.exists_items (C := C) hfed (Nat.le_refl _) h.items fun _ _ _ _ _ hentry => absurd hentry List.not_mem_nil
  have hcovers := (hmoves.covers hfed).length_le
  rw [hposition, List.length_map, Cursor.ofText] at hcovers
  dsimp only at hcovers
  exact ⟨hlt, by omega⟩

/-- Where nothing but newlines follows them, these are all items. -/
theorem Whole.exists_items {s' : ParserState} (h : Whole source list s t) {m : Nat} (hfuel : fuelFor source ≤ m)
    (hfollows : Follows Cursor.Ends source list place s'.position) (hfed' : Fed s')
    (hnew : ∀ entry ∈ s'.functions, ∀ signature ∈ t.functions, entry.1 ≠ signature.1)
    (hcalls : (Recorded s'.calls).Implies (Defined s'.functions)) :
    ∃ u, (Parser.items m).run s' = .ok (list.map (Item.placed place.span), u) ∧
      (Recorded u.calls).Implies (Defined u.functions) := by
  obtain ⟨t', hpasses, -⟩ := h.exists_passes hfuel Cursor.Ends.matches hfollows hfed' hnew hcalls
  have hlt := h.length_lt.1
  obtain ⟨u, hitems, hfunctions, hrecorded⟩ := exists_items_end (n := m - (list.map (Item.placed place.span)).length)
    hpasses.final hpasses.fed (by rw [List.length_map]; omega)
  refine ⟨u, List.append_nil (list.map (Item.placed place.span)) ▸ hpasses.items hitems, ?_⟩
  rw [hfunctions, hrecorded]
  exact hpasses.calls

theorem Whole.exists_token (h : Whole source list s t)
    (hfinal : ∀ {c}, final c → ∃ token behind, c.token = .ok (token, behind) ∧ TokenKind.eof.Matches token.kind)
    (hfollows : Follows final source list place cursor) : ∃ token behind, cursor.token = .ok (token, behind) := by
  let C := Correspondence.ofWalk place final hfinal [] []
  obtain ⟨hfed, hposition⟩ := fed_start h.start
  obtain ⟨path, hmoves, -, -, hend, hleads, -⟩ :=
    Parser.exists_items (C := C) hfed (Nat.le_refl _) h.items fun _ _ _ _ _ hentry => absurd hentry List.not_mem_nil
  have hcovers := hmoves.covers hfed
  rw [hposition] at hcovers
  obtain ⟨first, after, hfirst, -⟩ := start_ok.1 h.start
  obtain ⟨token, behind, htoken, -⟩ := C.read (hfollows hleads hcovers ⟨_, _, hmoves.fed hfed, hend⟩) hfirst
  exact ⟨token, behind, htoken⟩

/-- A text that has the tokens of a program is the same program in other places. -/
theorem exists_parseProgram_of_follows {source source' : Text} {p : Program} (h : parseProgram source = .ok p)
    (hle : source.length ≤ source'.length) (hfollows : Follows Cursor.Ends source p.items place (.ofText source')) :
    ∃ p', parseProgram source' = .ok p' ∧ p'.items = p.items.map (Item.placed place.span) := by
  obtain ⟨s, t, hwhole⟩ := exists_whole h
  obtain ⟨token, behind, htoken⟩ := hwhole.exists_token Cursor.Ends.matches hfollows
  have hfuel : fuelFor source ≤ fuelFor source' := by
    unfold fuelFor
    omega
  let s' : ParserState := ⟨.ofText source', token, behind, none, [], []⟩
  have hfollows' : Follows Cursor.Ends source p.items place s'.position := hfollows
  obtain ⟨u, hitems, hcalls⟩ :=
    hwhole.exists_items hfuel hfollows' htoken (List.forall_mem_nil _) fun hcall => absurd hcall List.not_mem_nil
  exact exists_program (start_ok.2 ⟨token, behind, htoken, rfl⟩) hitems hcalls

end Parser

end Awk
