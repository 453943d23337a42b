import Awk.Proofs.Arrays.Allocated

/-!
# Splitting into an array

A call of `split` evaluates its arguments (`Eval.splitArguments`): the text comes first, then the array is found or
made, and then the separator is evaluated.  What has been evaluated is cut (`Separator.cut`), and only when the pieces
are there the array is changed (`Eval.split_eq`).  So the pieces fill the array exactly, or a fault leaves it alone
(`Eval.split_fills`), even if the text or the separator is an element of it.
-/

namespace Awk

/-! ### The pieces in an array -/

namespace Assoc

theorem Tidy.get?_of_mem {a : Assoc} (h : a.Tidy) {key : Text} {v : Value} (hmem : (key, v) ∈ a.entries) :
    a.get? key = some v := by
  obtain ⟨before, after, hsplit⟩ := List.append_of_mem hmem
  refine List.lookup_eq_some_iff.2 ⟨before, after, hsplit, fun entry hentry => ?_⟩
  unfold Tidy keys at h
  rw [hsplit, List.map_append, List.nodup_append] at h
  have hne := h.2.2 entry.1 (List.mem_map_of_mem hentry) key (by simp)
  exact bne_iff_ne.2 hne.symm

theorem get?_ofPieces {pieces : List Text} {i : Nat} {t : Text} (h : pieces[i]? = some t) :
    (ofPieces pieces).get? (Text.ofNat (i + 1)) = some (.strnum t) := by
  obtain ⟨hi, rfl⟩ := List.getElem?_eq_some_iff.1 h
  exact (tidy_ofPieces pieces).get?_of_mem (List.mem_mapIdx.2 ⟨i, hi, rfl⟩)

end Assoc

/-! ### Separators -/

/-- What a text is cut at: the matches of a regular expression that is written as such, or a field separator. -/
inductive Separator where
  | regex (source : Text)
  | field (separator : Text)
  deriving DecidableEq, Repr

/-- The pieces of a text. -/
def Separator.cut (t : Text) : Separator → Except Fault (List Text)
  | .regex source => (compileEre source).map (splitPattern t)
  | .field separator => splitFields t separator false

namespace Eval

/-- The separator that an argument comes to; without one it is `FS`. -/
def separatorOf (eval : Evaluate) : Option Expr → Eval Separator
  | some (.regex token) => return .regex token.text
  | some e => do return .field (← textOf (← eval e))
  | none => do return .field (← setting "FS")

/-- What the arguments of `split` come to, the array by its number. -/
structure SplitArguments where
  text : Text
  array : Nat
  separator : Separator
  deriving DecidableEq, Repr

/-- Evaluate the arguments of `split` from left to right. -/
def splitArguments (eval : Evaluate) (text array : Expr) (separator : Option Expr) : Eval SplitArguments := do
  let t ← textOf (← eval text)
  match array with
  | .lvalue (.var name) =>
    let id ← arrayNamed name.text
    return ⟨t, id, ← separatorOf eval separator⟩
  | _ => fail .splitIntoNonArray

variable {eval : Evaluate} {text array : Expr} {separator : Option Expr}

theorem piecesOf_eq (eval : Evaluate) (t : Text) (separator : Option Expr) :
    piecesOf eval t separator = (do ofExcept ((← separatorOf eval separator).cut t)) := by
  cases separator with
  | none => simp only [piecesOf, separatorOf, bind_assoc, pure_bind, Separator.cut]
  | some e =>
    cases e with
    | regex token =>
      simp only [piecesOf, separatorOf, compiled, pure_bind, Separator.cut]
      cases compileEre token.text <;> rfl
    | _ => simp only [piecesOf, separatorOf, bind_assoc, pure_bind, Separator.cut]

/-- First the arguments are evaluated, then the text is cut, and then the array is changed. -/
theorem split_eq (eval : Evaluate) (text array : Expr) (separator : Option Expr) :
    split eval text array separator = (do
      let args ← splitArguments eval text array separator
      let pieces ← ofExcept (args.separator.cut args.text)
      setArray args.array (.ofPieces pieces)
      return .ofNat pieces.length) := by
  unfold split splitArguments
  simp only [bind_assoc]
  refine bind_congr fun v => bind_congr fun t => ?_
  cases array with
  | lvalue target =>
    cases target with
    | var name => simp only [piecesOf_eq, bind_assoc, pure_bind]
    | _ => rfl
  | _ => rfl

/-! ### The run of a call -/

variable {m m' : Machine} {functions : List Function} {fuel : Nat}

theorem composed_separatorOf (heval : ∀ e, Composed (eval e)) (separator : Option Expr) :
    Composed (separatorOf eval separator) := by
  unfold separatorOf
  split
  · exact Composed.pure
  · exact (heval _).andThen fun v => (composed_textOf v).andThen fun _ => Composed.pure
  · exact (composed_setting _).andThen fun _ => Composed.pure

theorem composed_splitArguments (heval : ∀ e, Composed (eval e)) (text array : Expr) (separator : Option Expr) :
    Composed (splitArguments eval text array separator) := by
  refine (heval text).andThen fun v => (composed_textOf v).andThen fun t => ?_
  split
  · refine (Composed.arrayNamed _).andThen fun id => ?_
    exact (composed_separatorOf heval separator).andThen fun _ => Composed.pure
  · exact Composed.fail

/-- What is in the arrays does not change when one is found or made for a name. -/
theorem array_arrayNamed (name : Text) (m : Machine) (id : Nat) :
    ((arrayNamed name).run m).2.store.array id = m.store.array id := by
  rw [run_arrayNamed_eq]
  cases hat : m.store.arrayAt (m.store.slotOf name) with
  | error f => rfl
  | ok found => exact Store.array_arrayAt hat id

/-- While the separator is evaluated the name stays bound to the array. -/
theorem lookup_of_splitArguments (hm : m.Arises functions) {args : SplitArguments}
    (h : (splitArguments (expr fuel) text array separator).run m = (.ok args, m')) :
    ∃ name, array = .lvalue (.var name) ∧
      m'.store.lookup (m'.store.slotOf name.text) = some (.array args.array) := by
  have heval := (composed_eval fuel).expr
  obtain ⟨v, m₁, hv, hafter⟩ := Action.run_bind_eq_ok.1 h
  obtain ⟨t, m₂, ht, hrest⟩ := Action.run_bind_eq_ok.1 hafter
  obtain ⟨-, hm₁⟩ := hm.step (heval text) hv
  obtain ⟨-, hm₂⟩ := hm₁.step (composed_textOf v) ht
  clear h hafter
  split at hrest
  · rename_i name
    refine ⟨name, rfl, ?_⟩
    obtain ⟨id, m₃, hid, hlast⟩ := Action.run_bind_eq_ok.1 hrest
    obtain ⟨s, m₄, hs, hargs⟩ := Action.run_bind_eq_ok.1 hlast
    cases hargs
    obtain ⟨hnamed, hm₃⟩ := hm₂.step (Composed.arrayNamed name.text) hid
    obtain ⟨hwalk, -⟩ := hm₃.step (composed_separatorOf heval separator) hs
    refine hwalk.lookup_array hm₃.reached.scoped ?_
    rw [hnamed.slotOf_eq hm₂.reached.scoped]
    rw [run_arrayNamed_eq] at hid
    split at hid
    · rename_i hat
      cases hid
      exact Store.lookup_arrayAt hm₂.reached.scoped (m₂.store.has_slotOf name.text) hat
    · cases hid
  · cases hrest

/-- What a call comes to. -/
theorem run_split (m : Machine) (fuel : Nat) (text array : Expr) (separator : Option Expr) :
    (callBuiltin (expr fuel) .split (text :: array :: separator.toList)).run m =
      match (splitArguments (expr fuel) text array separator).run m with
      | (.error i, m₁) => (.error i, m₁)
      | (.ok args, m₁) =>
        match args.separator.cut args.text with
        | .error f => (.error (.failure ⟨f, none⟩), m₁)
        | .ok pieces =>
          (.ok (.ofNat pieces.length), { m₁ with store := m₁.store.setArray args.array (.ofPieces pieces) }) := by
  have hcall : callBuiltin (expr fuel) .split (text :: array :: separator.toList) =
      split (expr fuel) text array separator := by
    cases separator <;> rfl
  rw [hcall, split_eq, Action.run_bind]
  rcases (splitArguments (expr fuel) text array separator).run m with ⟨i | args, m₁⟩
  · rfl
  · dsimp only
    cases args.separator.cut args.text <;> rfl

/-- If `split` gives a number, the keys of the array are those from one up to it, and its elements are the pieces of the
text as it was, and under the separator as it was, before the array was changed.  If `split` fails, nothing has been done
but to evaluate the arguments; that an array is found or made for a name on the way changes nothing in it. -/
theorem split_fills (hm : m.Arises functions) (fuel : Nat) (text array : Expr) (separator : Option Expr) :
    (∀ v, (callBuiltin (expr fuel) .split (text :: array :: separator.toList)).run m = (.ok v, m') →
      ∃ name args pieces m₁ a, array = .lvalue (.var name) ∧
        (splitArguments (expr fuel) text array separator).run m = (.ok args, m₁) ∧
        args.separator.cut args.text = .ok pieces ∧ v = .ofNat pieces.length ∧
        m' = { m₁ with store := m₁.store.setArray args.array a } ∧
        m'.store.lookup (m'.store.slotOf name.text) = some (.array args.array) ∧ m'.store.array args.array = a ∧
        a.keys = (List.range pieces.length).map (fun i => Text.ofNat (i + 1)) ∧
        ∀ i t, pieces[i]? = some t → a.get? (Text.ofNat (i + 1)) = some (.strnum t)) ∧
    (∀ i, (callBuiltin (expr fuel) .split (text :: array :: separator.toList)).run m = (.error i, m') →
      m' = ((splitArguments (expr fuel) text array separator).run m).2) ∧
    ∀ name id m₁, ((arrayNamed name).run m₁).2.store.array id = m₁.store.array id := by
  rw [← and_assoc]
  refine ⟨?_, fun name id m₁ => array_arrayNamed name m₁ id⟩
  rw [run_split]
  rcases hargs : (splitArguments (expr fuel) text array separator).run m with ⟨i | args, m₁⟩
  · refine ⟨(fun v h => nomatch h), fun i h => ?_⟩
    cases h
    rfl
  dsimp only
  cases hcut : args.separator.cut args.text with
  | error f =>
    refine ⟨(fun v h => nomatch h), fun i h => ?_⟩
    cases h
    rfl
  | ok pieces =>
    refine ⟨fun v h => ?_, fun i h => nomatch h⟩
    cases h
    obtain ⟨name, harray, hbound⟩ := lookup_of_splitArguments hm hargs
    obtain ⟨-, hm₁⟩ := hm.step (composed_splitArguments (composed_eval fuel).expr text array separator) hargs
    have hfilled := Store.array_setArray_self (hm₁.allocated _ _ hbound) (.ofPieces pieces)
    exact ⟨name, args, pieces, m₁, _, harray, rfl, hcut, rfl, rfl, hbound, hfilled, Assoc.keys_ofPieces pieces,
      fun i t => Assoc.get?_ofPieces⟩

/-- The text and the separators are elements of the array that is filled; one of them is no regular expression. -/
def aliasedSource : Text :=
  "BEGIN \x7b a[1] = \"x:y\"; a[2] = \":\"; a[3] = \"((\"; split(a[1], a, a[3]); split(a[1], a, a[2]) \x7d".toList

/-- The state before the two calls. -/
def aliasedState (before : List Stmt) : Machine := ((sequence (stmt 20) before).run emptyStart).2

/-- How the two calls end, and what their arguments come to. -/
def aliasedChecked (parts : Parts) : Bool :=
  match parts.begins with
  | [.block _ [s₁, s₂, s₃, .expr _ (.builtin _ .split _ [text₁, array₁, refused]),
      .expr _ (.builtin _ .split _ [text, array, separator])]] =>
    let m := aliasedState [s₁, s₂, s₃]
    decide (((callBuiltin (expr 20) .split [text₁, array₁, refused]).run m).1.toOption = none) &&
      decide ((((splitArguments (expr 20) text₁ array₁ (some refused)).run m).2.store.array 2).keys =
        [['1'], ['2'], ['3']]) &&
      decide (((callBuiltin (expr 20) .split [text, array, separator]).run m).1.toOption = some (.ofNat 2)) &&
      decide (((splitArguments (expr 20) text array (some separator)).run m).1.toOption =
        some ⟨"x:y".toList, 2, .field [':']⟩)
  | _ => false

theorem split_fills_aliased :
    ∃ parts block before span₁ call₁ token₁ text₁ array₁ refused span call token text array separator i m₁ m',
      loadProgram aliasedSource = .ok parts ∧
      parts.begins = [.block block (before ++ [.expr span₁ (.builtin call₁ .split token₁ [text₁, array₁, refused]),
        .expr span (.builtin call .split token [text, array, separator])])] ∧
      (callBuiltin (expr 20) .split [text₁, array₁, refused]).run (aliasedState before) = (.error i, m₁) ∧
      (m₁.store.array 2).keys = [['1'], ['2'], ['3']] ∧
      (callBuiltin (expr 20) .split [text, array, separator]).run (aliasedState before) = (.ok (.ofNat 2), m') ∧
      (m'.store.array 2).keys = [['1'], ['2']] ∧ (m'.store.array 2).get? ['1'] = some (.strnum ['x']) ∧
      (m'.store.array 2).get? ['2'] = some (.strnum ['y']) := by
  have hchecked : (loadProgram aliasedSource).toOption.any aliasedChecked = true := by decide +kernel
  obtain ⟨parts, hload, hchecked⟩ := (Option.any_eq_true _ _).1 hchecked
  unfold aliasedChecked at hchecked
  split at hchecked
  · rename_i block s₁ s₂ s₃ span₁ call₁ token₁ text₁ array₁ refused span call token text array separator hbegins
    dsimp only at hchecked
    simp only [Bool.and_eq_true, decide_eq_true_eq] at hchecked
    obtain ⟨⟨⟨hrefused, hkeys⟩, hfilled⟩, hargs⟩ := hchecked
    have harises : (aliasedState [s₁, s₂, s₃]).Arises [] :=
      (Machine.Arises.start _ [] []).run (composed_sequence (composed_eval 20).stmt _)
    rcases hfails : (callBuiltin (expr 20) .split [text₁, array₁, refused]).run (aliasedState [s₁, s₂, s₃]) with
      ⟨i | v, m₁⟩
    · obtain ⟨-, hkept, -⟩ := split_fills harises 20 text₁ array₁ (some refused)
      have hrun := Action.run_eq_of_toOption hfilled
      obtain ⟨hfills, -, -⟩ := split_fills harises 20 text array (some separator)
      obtain ⟨name, args, pieces, m₂, a, -, hevaluated, hcut, -, -, -, ha, hnumbers, helements⟩ := hfills _ hrun
      rw [hevaluated] at hargs
      cases hargs
      have hpieces : Separator.cut "x:y".toList (.field [':']) = .ok [['x'], ['y']] := by decide +kernel
      cases hpieces.symm.trans hcut
      refine ⟨parts, block, [s₁, s₂, s₃], span₁, call₁, token₁, text₁, array₁, refused, span, call, token, text, array,
        separator, i, m₁, _, Action.toOption_eq_some.1 hload, hbegins, hfails, hkept i hfails ▸ hkeys, hrun, ?_, ?_, ?_⟩
      · rw [ha, hnumbers]
        rfl
      · rw [ha]
        exact helements 0 ['x'] rfl
      · rw [ha]
        exact helements 1 ['y'] rfl
    · rw [hfails] at hrefused
      cases hrefused
  · cases hchecked

end Eval

end Awk
