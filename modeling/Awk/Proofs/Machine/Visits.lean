import Awk.Proofs.Machine.Lasting
import Awk.Proofs.Machine.Lengths
import Awk.Proofs.Outcome

/-!
# Loops over the keys of an array

A loop over the keys of an array takes the keys that are there when it begins, one after the other, and visits those that
are still there when their turn comes (`Eval.keyTurns`).  In every state that arises in a run (`Machine.Arises`) no key
stands twice in an array, and so the loop visits no key twice, whatever is done to the array meanwhile
(`Eval.for_in_visits`).
-/

namespace Awk

namespace Eval

variable {α : Type}

/-! ### Evaluations and the keys of arrays -/

/-- The action makes no key stand twice in an array. -/
abbrev KeepsTidy (act : Eval α) : Prop := Yields (fun m : Machine => m.store.Tidy) (fun _ => True) (fun _ => True) act

theorem Composed.keepsTidy {act : Eval α} (h : Composed act) : KeepsTidy act :=
  h.preserves (.of_arrays (fun harrays hs => hs.of_arrays harrays) (fun hs hat => hs.arrayAt hat)
    fun id _ hs htidy => hs.setArray id (htidy (hs id))) fun _ _ _ _ hs => hs.of_arrays rfl

end Eval

/-! ### The states that arise -/

open Eval in
/-- The states from which a run with these functions goes on: the one in which it begins, those to which evaluations
lead, those in which a call has been entered, and those that differ from them in nothing that evaluations are about. -/
inductive Machine.Arises (functions : List Function) : Machine → Prop
  | start (world : World) (environment : List (Text × Text)) (words : List Text) :
    Arises functions (Machine.start world functions environment words)
  | run {m : Machine} {α : Type} {act : Eval α} (h : Arises functions m) (hact : Composed act) :
    Arises functions (act.run m).2
  | enter {m m' : Machine} {f : Function} {fuel : Nat} {args : List Expr} {table : Table} (h : Arises functions m)
    (hf : f ∈ functions) (hbound : (bindArguments (expr fuel) f.params args).run m = (.ok table, m')) :
    Arises functions (m'.enter table)
  | aside {m m' : Machine} (h : Arises functions m) (hstore : m'.store = m.store) (hrecord : m'.record = m.record)
    (hworld : m'.world = m.world) (hfunctions : m'.functions = m.functions) : Arises functions m'

namespace Machine.Arises

open Eval

variable {functions : List Function} {m : Machine}

theorem reached (h : m.Arises functions) : m.Reached functions := by
  induction h with
  | start world environment words => exact ⟨world, environment, words, .refl⟩
  | run _ hact ih => exact ih.path (hact.walks _ ih.scoped).path
  | enter _ hf hbound ih =>
    obtain ⟨hwalk, hparams, htable⟩ := enters_of_bindArguments (walks_eval _).expr ih.scoped hbound
    have hmem := (hwalk.path.functions.trans ih.functions_eq).symm ▸ hf
    exact ih.path (hwalk.path.enter hmem hparams htable)
  | @aside m m' _ hstore hrecord hworld hfunctions ih =>
    have hpath : m.Path 0 m' := .of_change (.aside hstore hrecord hworld hfunctions)
    exact ih.path hpath

/-- An evaluation walks to a state that arises. -/
theorem step {α : Type} {act : Eval α} {result : Except Interruption α} {m' : Machine} (h : m.Arises functions)
    (hact : Composed act) (hrun : act.run m = (result, m')) : m.WalksTo m' ∧ m'.Arises functions := by
  have hwalk := hact.walks m h.reached.scoped
  have harises := h.run hact
  rw [hrun] at hwalk harises
  exact ⟨hwalk, harises⟩

/-- No key stands twice in an array. -/
theorem tidy (h : m.Arises functions) : m.store.Tidy := by
  induction h with
  | start world environment words => exact Machine.tidy_start world functions environment words
  | run _ hact ih => exact (hact.keepsTidy _ ih).1
  | @enter m _ f fuel args _ _ _ hbound ih =>
    have htidy := ((composed_bindArguments (composed_eval fuel).expr f.params args).keepsTidy m ih).1
    rw [hbound] at htidy
    exact htidy.of_arrays rfl
  | aside _ hstore _ _ _ ih => exact hstore ▸ ih

end Machine.Arises

namespace Eval

/-! ### The turns of the keys -/

/-- The turn of a key: the state found, and the one in which the body is begun if the key is visited. -/
structure KeyTurn where
  key : Text
  found : Machine
  entered : Option Machine

/-- A loop goes on after a body that has ended in this way. -/
def continues : Except Interruption Unit → Bool
  | .ok () | .error .continue => true
  | .error _ => false

namespace KeyTurn

/-- The loop goes on after the turn. -/
def goesOn (body : Eval Unit) (t : KeyTurn) : Bool :=
  match t.entered with
  | none => true
  | some entered => continues (body.run entered).1

/-- The state after the turn. -/
def left (body : Eval Unit) (t : KeyTurn) : Machine :=
  match t.entered with
  | none => t.found
  | some entered => (body.run entered).2

/-- The state after turns. -/
def after (body : Eval Unit) (m : Machine) (turns : List KeyTurn) : Machine := turns.foldl (fun _ t => t.left body) m

end KeyTurn

/-- The turns that keys have, and how the loop over them ends.  There is no visit if the key cannot be assigned. -/
def keyTurns (body : Eval Unit) (element : Text) (id : Nat) :
    List Text → Machine → List KeyTurn × Except Interruption Unit × Machine
  | [], m => ([], .ok (), m)
  | key :: keys, m =>
    if (m.store.array id).contains key then
      match (assignVariable element (.strnum key)).run m with
      | (.error i, m') => ([⟨key, m, none⟩], .error i, m')
      | (.ok _, entered) =>
        match body.run entered with
        | (.ok (), left) | (.error .continue, left) =>
          (⟨key, m, some entered⟩ :: (keyTurns body element id keys left).1, (keyTurns body element id keys left).2)
        | (.error .break, left) => ([⟨key, m, some entered⟩], .ok (), left)
        | (.error i, left) => ([⟨key, m, some entered⟩], .error i, left)
    else (⟨key, m, none⟩ :: (keyTurns body element id keys m).1, (keyTurns body element id keys m).2)

variable {body : Eval Unit} {element : Text} {id : Nat} {keys : List Text} {key : Text} {m : Machine} {t : KeyTurn}
  {turns : List KeyTurn}

/-- The loop ends as its run does. -/
theorem keyTurns_snd (body : Eval Unit) (element : Text) (id : Nat) (keys : List Text) (m : Machine) :
    (keyTurns body element id keys m).2 = (visit body element id keys).run m := by
  induction keys generalizing m with
  | nil => rfl
  | cons key keys ih =>
    rw [keyTurns, visit, Action.run_bind]
    have harray : (array id).run m = (.ok (m.store.array id), m) := rfl
    rw [harray]
    dsimp only
    split
    · rw [Action.run_bind]
      rcases (assignVariable element (.strnum key)).run m with ⟨i | v, entered⟩
      · rfl
      · dsimp only
        rw [Action.run_bind, round, Action.run_bind, run_catching]
        rcases body.run entered with ⟨i | ⟨⟩, left⟩
        · cases i with
          | «continue» => exact ih left
          | _ => rfl
        · exact ih left
    · exact ih m

/-- The turn of a key that is found in a state.  It is visited if it is in the array, and the loop variable is it. -/
structure IsTurn (element : Text) (id : Nat) (key : Text) (m : Machine) (t : KeyTurn) : Prop where
  key_eq : t.key = key
  found_eq : t.found = m
  visited : t.entered.isSome ↔ key ∈ (m.store.array id).keys
  entered : ∀ {entered}, t.entered = some entered →
    (assignVariable element (.strnum key)).run m = (.ok (.strnum key), entered) ∧
      (readVariable element).run entered = (.ok (.strnum key), entered)

/-- Keys have their turns in order as long as the loop goes on. -/
inductive InTurn (body : Eval Unit) (element : Text) (id : Nat) : List Text → Machine → List KeyTurn → Prop
  | done {m : Machine} : InTurn body element id [] m []
  | last {key : Text} {keys : List Text} {m : Machine} {t : KeyTurn} (hturn : IsTurn element id key m t)
    (hends : t.goesOn body = false) :
    InTurn body element id (key :: keys) m [t]
  | next {key : Text} {keys : List Text} {m : Machine} {t : KeyTurn} {turns : List KeyTurn}
    (hturn : IsTurn element id key m t) (hgoes : t.goesOn body = true)
    (hrest : InTurn body element id keys (t.left body) turns) : InTurn body element id (key :: keys) m (t :: turns)

namespace InTurn

theorem prefix_keys (h : InTurn body element id keys m turns) : turns.map KeyTurn.key <+: keys := by
  induction h with
  | done => exact List.prefix_refl []
  | last hturn _ =>
    rw [List.map_singleton, hturn.key_eq]
    exact List.prefix_append [_] _
  | next hturn _ _ ih =>
    rw [List.map_cons, hturn.key_eq]
    exact (List.prefix_cons_inj _).2 ih

theorem isTurn (h : InTurn body element id keys m turns) {n : Nat} (ht : turns[n]? = some t) :
    IsTurn element id t.key (KeyTurn.after body m (turns.take n)) t := by
  induction h generalizing n with
  | done => cases ht
  | last hturn _ =>
    cases n with
    | zero =>
      cases ht
      exact hturn.key_eq ▸ hturn
    | succ n => cases ht
  | next hturn _ _ ih =>
    cases n with
    | zero =>
      cases ht
      exact hturn.key_eq ▸ hturn
    | succ n => exact ih ht

/-- A key is visited exactly if no turn before has left the loop and the key is in the array after these. -/
theorem visited_iff (h : InTurn body element id keys m turns) {n : Nat} (hkey : keys[n]? = some key) :
    (∃ t, turns[n]? = some t ∧ t.entered.isSome) ↔
      (∀ t ∈ turns.take n, t.goesOn body = true) ∧
        key ∈ ((KeyTurn.after body m (turns.take n)).store.array id).keys := by
  induction h generalizing n with
  | done => cases hkey
  | @last k _ m t hturn hends =>
    cases n with
    | zero =>
      cases hkey
      simpa [KeyTurn.after] using hturn.visited
    | succ n => simp [hends]
  | @next k _ m t turns hturn hgoes _ ih =>
    cases n with
    | zero =>
      cases hkey
      simpa [KeyTurn.after] using hturn.visited
    | succ n => simpa [hgoes, KeyTurn.after] using ih hkey

end InTurn

/-! ### The loop variable -/

/-- The name is bound to no array, where it is found, and is not the number of fields. -/
def IsOrdinary (m : Machine) (name : Text) : Prop :=
  isFieldCount (m.store.slotOf name) = false ∧ ∀ id, m.store.lookup (m.store.slotOf name) ≠ some (.array id)

variable {name : Text}

theorem IsScalar.isOrdinary (h : IsScalar m name) (hcount : isFieldCount (m.store.slotOf name) = false) :
    IsOrdinary m name := by
  obtain ⟨v, hv⟩ := h
  refine ⟨hcount, fun id hid => ?_⟩
  rw [hv] at hid
  cases hid

/-- What can be assigned is read back, and can be assigned again whatever has been evaluated meanwhile. -/
theorem IsOrdinary.assign (h : IsOrdinary m name) (hm : m.store.Scoped) (v : Value) :
    ∃ m', (assignVariable name v).run m = (.ok v, m') ∧ (readVariable name).run m' = (.ok v, m') ∧ m.WalksTo m' ∧
      ∀ m'', m'.WalksTo m'' → IsOrdinary m'' name := by
  obtain ⟨hcount, hnone⟩ := h
  obtain ⟨store, hset⟩ : ∃ store, m.store.setScalar (m.store.slotOf name) v = .ok store := by
    unfold Store.setScalar
    split
    · rename_i id hid
      exact absurd hid (hnone id)
    · exact ⟨_, rfl⟩
  have hrun : (assignVariable name v).run m = (.ok v, { m with store := store }) := by
    unfold assignVariable slotOf assignSlot
    simp only [Action.run_bind, Action.run_get, Action.run_pure, hset, hcount, Bool.false_eq_true, if_false]
    rfl
  have hwalk := walks_assignVariable name v m hm
  have hlookup := lookup_of_assignVariable hcount hrun
  rw [hrun] at hwalk
  have hslot := hwalk.slotOf_eq hm name
  -- The name is found in the same scope after the assignment, and in the same scope again whenever the body is left.
  rw [← hslot] at hcount hlookup
  refine ⟨_, hrun, ?_, hwalk, fun m'' hwalk' => ?_⟩
  · unfold readVariable slotOf readSlot
    simp only [Action.run_bind, Action.run_get, Action.run_pure, hcount, Bool.false_eq_true, if_false]
    rw [Store.scalarAt, hlookup]
    rfl
  · have hscoped := hwalk.scoped hm
    have hscalar : IsScalar _ name := ⟨v, hlookup⟩
    exact (hscalar.walksTo hscoped hwalk').isOrdinary ((hwalk'.slotOf_eq hscoped name).symm ▸ hcount)

/-- Every key up to the end of the loop has its turn. -/
theorem inTurn_keyTurns (hbody : Walks body) (hm : m.store.Scoped) (helement : IsOrdinary m element)
    (id : Nat) (keys : List Text) : InTurn body element id keys m (keyTurns body element id keys m).1 := by
  induction keys generalizing m with
  | nil => exact .done
  | cons key keys ih =>
    rw [keyTurns]
    split
    · rename_i hcontains
      -- The variable is a scalar from here on, so whatever the body does, the next key can be assigned to it.
      obtain ⟨entered, hassign, hread, hwalk, hordinary⟩ := helement.assign hm (.strnum key)
      have hentered := hwalk.scoped hm
      have hleft := hbody entered hentered
      have hturn : IsTurn element id key m ⟨key, m, some entered⟩ := {
        key_eq := rfl
        found_eq := rfl
        visited := iff_of_true rfl (Assoc.contains_iff.1 hcontains)
        entered := fun h => Option.some.inj h ▸ ⟨hassign, hread⟩ }
      rw [hassign]
      dsimp only
      rcases hran : body.run entered with ⟨i | ⟨⟩, left⟩
      all_goals
        have hgoes := congrArg (fun outcome => continues outcome.1) hran
        have hlast : (⟨key, m, some entered⟩ : KeyTurn).left body = left := congrArg Prod.snd hran
        rw [hran] at hleft
        have hrest := ih (hleft.scoped hentered) (hordinary left hleft)
        rw [← hlast] at hrest ⊢
      · cases i with
        | «continue» => exact .next hturn hgoes hrest
        | _ => exact .last hturn hgoes
      · exact .next hturn hgoes hrest
    · rename_i hcontains
      have hturn : IsTurn element id key m ⟨key, m, none⟩ := {
        key_eq := rfl
        found_eq := rfl
        visited := iff_of_false (nofun) fun hmem => hcontains (Assoc.contains_iff.2 hmem)
        entered := nofun }
      exact .next hturn rfl (ih hm helement)

/-- In every state that arises in a run, a loop over the keys of an array that assigns them to an ordinary scalar visits
some of the keys that the array has at this moment, in their order and none of them twice.  A key is visited exactly if
no turn of a key before it has left the loop and the key is in the array after these turns; then the body is begun in the
state in which the variable has been assigned the key, as what has been read from the input is, and nothing else has been
done. -/
theorem for_in_visits {functions : List Function} {m m₀ : Machine} (hm : m.Arises functions) {element array : Token}
    {id : Nat} (harray : (arrayNamed array.text).run m = (.ok id, m₀)) (helement : IsOrdinary m₀ element.text)
    (fuel : Nat) (span : Span) (body : Stmt) :
    ∃ turns,
      (stmt (fuel + 1) (.forIn span element array body)).run m =
        (located (some span) (visit (stmt fuel body) element.text id (m₀.store.array id).keys)).run m₀ ∧
      keyTurns (stmt fuel body) element.text id (m₀.store.array id).keys m₀ =
        (turns, (visit (stmt fuel body) element.text id (m₀.store.array id).keys).run m₀) ∧
      turns.map KeyTurn.key <+: (m₀.store.array id).keys ∧
      ((turns.filter fun t => t.entered.isSome).map KeyTurn.key).Sublist (m₀.store.array id).keys ∧
      ((turns.filter fun t => t.entered.isSome).map KeyTurn.key).Nodup ∧
      (∀ n key, (m₀.store.array id).keys[n]? = some key →
        ((∃ t, turns[n]? = some t ∧ t.entered.isSome) ↔
          (∀ t ∈ turns.take n, t.goesOn (stmt fuel body) = true) ∧
            key ∈ ((KeyTurn.after (stmt fuel body) m₀ (turns.take n)).store.array id).keys)) ∧
      ∀ n t entered, turns[n]? = some t → t.entered = some entered →
        t.found = KeyTurn.after (stmt fuel body) m₀ (turns.take n) ∧
        (assignVariable element.text (.strnum t.key)).run t.found = (.ok (.strnum t.key), entered) ∧
        (readVariable element.text).run entered = (.ok (.strnum t.key), entered) := by
  obtain ⟨store, hat, rfl⟩ : ∃ store, m.store.arrayAt (m.store.slotOf array.text) = .ok (id, store) ∧
      m₀ = { m with store := store } := by
    rw [run_arrayNamed_eq] at harray
    split at harray
    · rename_i hat
      cases harray
      exact ⟨_, hat, rfl⟩
    · cases harray
  have hm₀ : Machine.Arises functions { m with store := store } := by
    have hrun := hm.run (Composed.arrayNamed array.text)
    rwa [harray] at hrun
  have hturns := inTurn_keyTurns ((walks_eval fuel).stmt body) hm₀.reached.scoped helement id (store.array id).keys
  -- Keys that have a turn are the first ones in an array without repetitions, so none has two of them.
  have hprefix := hturns.prefix_keys
  have hsublist := ((List.filter_sublist (p := fun t => t.entered.isSome)).map KeyTurn.key).trans hprefix.sublist
  refine ⟨_, run_forIn fuel span element body hat, Prod.ext rfl (keyTurns_snd ..), hprefix, hsublist,
    (hm₀.tidy id).sublist hsublist, fun n key hkey => hturns.visited_iff hkey, fun n t entered ht hentered => ?_⟩
  have hturn := hturns.isTurn ht
  exact ⟨hturn.found_eq, hturn.found_eq ▸ hturn.entered hentered⟩

/-- On its first visit the loop empties the array, makes its last element again and then a new one. -/
def refillingSource : Text :=
  "BEGIN \x7b a[1]; a[2]; a[3]; for (k in a) \x7b delete a; a[3]; a[0]; k = 7 \x7d \x7d".toList

/-- The state before the loop, and the one in which its turns begin. -/
def refillingStates (before : List Stmt) (array : Token) : Machine × Machine :=
  let m := ((sequence (stmt 20) before).run emptyStart).2
  (m, ((arrayNamed array.text).run m).2)

def refillingTurns (before : List Stmt) (element array : Token) (body : Stmt) : List KeyTurn :=
  let m₀ := (refillingStates before array).2
  (keyTurns (stmt 20 body) element.text 2 (m₀.store.array 2).keys m₀).1

/-- The loop variable is not bound, the array has three keys, and the first and the last of them are visited. -/
def refillingChecked (parts : Parts) : Bool :=
  match parts.begins with
  | [.block _ [s₁, s₂, s₃, .forIn _ element array body]] =>
    let (m, m₀) := refillingStates [s₁, s₂, s₃] array
    decide (((arrayNamed array.text).run m).1.toOption = some 2) &&
      decide (m₀.store.lookup (m₀.store.slotOf element.text) = none) &&
      !isFieldCount (m₀.store.slotOf element.text) && decide ((m₀.store.array 2).keys = [['1'], ['2'], ['3']]) &&
      decide (((refillingTurns [s₁, s₂, s₃] element array body).filter fun t => t.entered.isSome).map KeyTurn.key =
        [['1'], ['3']])
  | _ => false

theorem for_in_visits_refilled : ∃ parts span span' before element array body m₀,
    loadProgram refillingSource = .ok parts ∧
      parts.begins = [.block span (before ++ [.forIn span' element array body])] ∧
      (arrayNamed array.text).run (refillingStates before array).1 = (.ok 2, m₀) ∧
      (m₀.store.array 2).keys = [['1'], ['2'], ['3']] ∧
      ((refillingTurns before element array body).filter fun t => t.entered.isSome).map KeyTurn.key = [['1'], ['3']] ∧
      ((refillingTurns before element array body).map KeyTurn.key <+: [['1'], ['2'], ['3']]) := by
  have hchecked : (loadProgram refillingSource).toOption.any refillingChecked = true := by decide +kernel
  obtain ⟨parts, hload, hchecked⟩ := (Option.any_eq_true _ _).1 hchecked
  unfold refillingChecked at hchecked
  split at hchecked
  · rename_i span s₁ s₂ s₃ span' element array body hbegins
    dsimp only at hchecked
    simp only [Bool.and_eq_true, decide_eq_true_eq, Bool.not_eq_true'] at hchecked
    obtain ⟨⟨⟨⟨harray, hnone⟩, hcount⟩, hkeys⟩, hvisited⟩ := hchecked
    have hrun := Action.run_eq_of_toOption harray
    have harises : (refillingStates [s₁, s₂, s₃] array).1.Arises [] :=
      (Machine.Arises.start _ [] []).run (composed_sequence (composed_eval 20).stmt _)
    have hordinary : IsOrdinary (refillingStates [s₁, s₂, s₃] array).2 element.text := ⟨hcount, by simp [hnone]⟩
    obtain ⟨turns, -, hturns, hprefix, -⟩ := for_in_visits harises hrun hordinary 20 span' body
    have hsame : refillingTurns [s₁, s₂, s₃] element array body = turns := congrArg Prod.fst hturns
    refine ⟨parts, span, span', [s₁, s₂, s₃], element, array, body, _, Action.toOption_eq_some.1 hload, hbegins, hrun,
      hkeys, hvisited, ?_⟩
    rw [hsame, ← hkeys]
    exact hprefix
  · cases hchecked

end Eval

end Awk
