import Awk.Machine.Builtins
import Awk.Proofs.Outcome

/-!
# Computations that cannot find the program at fault

Some faults say that a program should not have been accepted (`Fault.IsInternal`).  No computation on texts, numbers
and values ends in one of them: formatting, conversion, comparison, arithmetic, regular expressions, the names of the
store.
-/

namespace Awk

/-- Faults of a program that is not well formed. -/
def Fault.IsInternal : Fault → Prop
  | .unknownOperator _ | .undefinedFunction _ | .tooManyArguments .. => True
  | _ => False

abbrev Fault.IsOrdinary (f : Fault) : Prop := ¬f.IsInternal

variable {α β : Type}

/-- Whatever goes wrong is not the program's form. -/
abbrev Calm (x : Except Fault α) : Prop := Outcome Fault.IsOrdinary (fun _ => True) x

theorem Calm.ok {a : α} : Calm (.ok a) := trivial

theorem Calm.andThen {x : Except Fault α} {f : α → Except Fault β} (hx : Calm x) (hf : ∀ a, Calm (f a)) :
    Calm (x >>= f) :=
  hx.bind fun a _ => hf a

theorem Calm.ite {c : Prop} [Decidable c] {x y : Except Fault α} (hx : Calm x) (hy : Calm y) :
    Calm (if c then x else y) := by
  split
  · exact hx
  · exact hy

/-! ### Numbers and sizes -/

theorem calm_checkSize (size : Nat) : Calm (checkSize size) := by
  unfold checkSize
  split
  · exact not_false
  · trivial

theorem calm_checkPlaces (count : Nat) : Calm (checkPlaces count) := by
  refine (calm_checkSize count).andThen fun _ => ?_
  split
  · exact not_false
  · trivial

theorem calm_toInt (n : Number) : Calm n.toInt := by
  unfold Number.toInt
  split
  · trivial
  · split <;> exact not_false

theorem calm_literalNumber (t : Text) : Calm (literalNumber t) := by
  unfold literalNumber
  split
  · trivial
  · exact not_false

theorem calm_arith (op : ArithOp) (a b : Value) : Calm (Value.arith op a b) := by
  cases op with
  | div =>
    unfold Value.arith
    dsimp only
    split
    · exact not_false
    · trivial
  | mod =>
    unfold Value.arith
    dsimp only
    split
    · exact not_false
    · trivial
  | _ => trivial

/-! ### Formats -/

namespace Printf

variable {textOf : Value → Except Fault Text}

theorem calm_extent (e : Extent) (args : List Value) : Calm (e.value args) := by
  cases e with
  | absent => trivial
  | digits ds => trivial
  | star => exact (calm_toInt _).andThen fun _ => .ok

theorem calm_spec (d : Directive) (args : List Value) : Calm (d.spec args) := by
  refine (calm_extent _ _).andThen fun (width, args) => ?_
  dsimp only
  split
  · exact not_false
  · exact (calm_extent _ _).andThen fun _ => .ok

theorem calm_claimWidth (spec : Spec) : Calm spec.claimWidth := by
  unfold Spec.claimWidth
  split
  · exact not_false
  · exact (calm_checkSize _).andThen fun _ => .ok

theorem calm_checkNumeric (spec : Spec) : Calm spec.checkNumeric := by
  unfold Spec.checkNumeric
  split
  · exact not_false
  · trivial

theorem calm_pad (spec : Spec) (t : Text) : Calm (pad spec t) := (calm_claimWidth spec).andThen fun _ => .ok

theorem calm_layNumber (spec : Spec) (negative : Bool) (mark digits : Text) :
    Calm (layNumber spec negative mark digits) :=
  (calm_claimWidth spec).andThen fun _ => .ok

theorem calm_digitsInBase (spec : Spec) (base n : Nat) : Calm (digitsInBase spec base n) := by
  refine (calm_checkNumeric spec).andThen fun _ => ?_
  dsimp only
  split
  · exact not_false
  · trivial

theorem calm_layFloat (spec : Spec) (conversion : Char) (n : Number) : Calm (layFloat spec conversion n) :=
  (calm_checkNumeric spec).andThen fun _ => calm_layNumber ..

theorem calm_layOctal (spec : Spec) (n : Nat) : Calm (layOctal spec n) := by
  refine (calm_digitsInBase ..).andThen fun _ => ?_
  dsimp only
  split
  · exact (calm_claimWidth spec).andThen fun _ => .ok
  · exact calm_pad ..

theorem calm_layInteger (spec : Spec) (conversion : Char) (n : Number) : Calm (layInteger spec conversion n) := by
  unfold layInteger
  split
  · exact calm_pad ..
  · dsimp only
    split
    · split
      · exact calm_layOctal ..
      · exact (calm_digitsInBase ..).andThen fun _ => calm_layNumber ..
    · exact (calm_digitsInBase ..).andThen fun _ => calm_layNumber ..
    · exact (calm_digitsInBase ..).andThen fun _ => calm_layNumber ..
    · exact (calm_digitsInBase ..).andThen fun _ => calm_layNumber ..

theorem calm_charOf (htext : ∀ v, Calm (textOf v)) (v : Value) : Calm (charOf textOf v) := by
  unfold charOf
  exact .ite ((calm_toInt _).andThen fun _ => .ok) ((htext v).andThen fun _ => .ok)

theorem calm_convert (htext : ∀ v, Calm (textOf v)) (spec : Spec) (conversion : Char) (v : Value) :
    Calm (convert textOf spec conversion v) := by
  unfold convert
  split
  · exact (htext v).andThen fun _ => calm_pad ..
  · exact (calm_charOf htext v).andThen fun _ => calm_pad ..
  all_goals first | exact calm_layInteger .. | exact calm_layFloat ..

theorem calm_formatDirective (htext : ∀ v, Calm (textOf v)) (d : Directive) (args : List Value) :
    Calm (formatDirective textOf d args) := by
  unfold formatDirective
  split
  · trivial
  · split
    · trivial
    · refine (calm_spec ..).andThen fun (spec, args) => ?_
      exact .ite ((calm_convert htext ..).andThen fun _ => .ok) .ok

theorem calm_formatSegments (htext : ∀ v, Calm (textOf v)) (segments : List Segment) (args : List Value) :
    Calm (formatSegments textOf segments args) := by
  induction segments generalizing args with
  | nil => trivial
  | cons segment rest ih =>
    cases segment with
    | text t => exact (ih args).andThen fun _ => .ok
    | directive d => exact (calm_formatDirective htext d args).andThen fun _ => (ih _).andThen fun _ => .ok

theorem calm_formatWith (htext : ∀ v, Calm (textOf v)) (format : Text) (args : List Value) :
    Calm (formatWith textOf format args) :=
  calm_formatSegments htext _ _

end Printf

/-! ### Values -/

theorem Number.calm_toTextBy {other : Number → Except Fault Text} (hother : ∀ n, Calm (other n)) (n : Number) :
    Calm (n.toTextBy other) := by
  cases n with
  | nan negative => exact .ok
  | infinite negative => exact .ok
  | finite negative units =>
    rw [Number.toTextBy]
    generalize Number.whole? (.finite negative units) = whole
    cases whole with
    | none => exact hother _
    | some i => exact .ok

theorem Number.calm_toText (format : Text) (n : Number) : Calm (n.toText format) := by
  refine calm_toTextBy (fun m => Printf.calm_formatWith (fun v => ?_) format _) n
  cases v <;> exact .ok

theorem Value.calm_toText (format : Text) (v : Value) : Calm (v.toText format) := by
  cases v with
  | num n => exact n.calm_toText format
  | _ => trivial

theorem Value.calm_compare (format : Text) (a b : Value) : Calm (Value.compare format a b) := by
  unfold Value.compare
  split
  · trivial
  · exact (a.calm_toText format).andThen fun _ => (b.calm_toText format).andThen fun _ => .ok

theorem calm_sprintf (convfmt format : Text) (args : List Value) : Calm (sprintf convfmt format args) :=
  Printf.calm_formatWith (Value.calm_toText convfmt) format args

theorem calm_substring (t : Text) (start : Number) (length : Option Number) : Calm (substring t start length) := by
  have hslice {first last : Number} :
      Calm (do
        let first ← first.toInt
        let last ← last.toInt
        .ok (t.slice (first - 1).toNat (last - 1).toNat)) :=
    (calm_toInt _).andThen fun _ => (calm_toInt _).andThen fun _ => .ok
  unfold substring
  dsimp only
  generalize start.roundHalfUp.add _ = stop
  generalize (if Number.lt _ stop = true then _ else stop) = last
  generalize (if start.roundHalfUp.lt _ = true then _ else _) = first
  exact .ite .ok (.ite .ok hslice)

/-! ### Regular expressions and fields -/

theorem calm_compileEre (ere : Text) : Calm (compileEre ere) := by
  unfold compileEre
  split
  · exact not_false
  · split
    · trivial
    · exact not_false
    · exact not_false

theorem calm_splitFields (text separator : Text) (paragraph : Bool) : Calm (splitFields text separator paragraph) := by
  have hpattern : Calm (do .ok (splitPattern text (← compileEre (separatorEre separator paragraph)))) :=
    (calm_compileEre _).andThen fun _ => .ok
  unfold splitFields
  split
  · trivial
  · split
    · trivial
    · dsimp only
      split
      · trivial
      · split
        · exact hpattern
        · trivial
      · exact hpattern

/-- A separator can fail to compile, and nothing else about a record can fail. -/
theorem calm_readRecord (r : Reader) (separator : Text) : Calm (r.readRecord separator).1 := by
  unfold Reader.readRecord
  split
  · trivial
  · trivial
  · have hcompile := calm_compileEre separator
    split
    · rename_i fault hfault
      rw [hfault] at hcompile
      exact hcompile
    · trivial

/-! ### Names -/

theorem Variables.calm_convfmt (vars : Variables) : Calm vars.convfmt := by
  unfold Variables.convfmt
  split
  · exact Value.calm_toText ..
  · trivial

theorem Variables.calm_setting (vars : Variables) (name : String) (default : Text) :
    Calm (vars.setting name default) := by
  unfold Variables.setting
  split
  · exact vars.calm_convfmt.andThen fun _ => Value.calm_toText ..
  · trivial

namespace Store

theorem calm_arrayAtFrom (fuel : Nat) (s : Store) (slot : Option Slot) : Calm (arrayAtFrom fuel s slot) := by
  induction fuel generalizing slot with
  | zero => trivial
  | succ fuel ih =>
    cases slot with
    | none => trivial
    | some slot =>
      rw [arrayAtFrom]
      split
      · trivial
      · exact not_false
      · exact (ih _).andThen fun (_, _) => .ok
      · trivial

theorem calm_arrayAt (s : Store) (slot : Slot) : Calm (s.arrayAt slot) := calm_arrayAtFrom _ _ _

theorem calm_scalarAt (s : Store) (slot : Slot) : Calm (s.scalarAt slot) := by
  unfold scalarAt
  split
  · trivial
  · exact not_false
  · trivial
  · trivial

theorem calm_setScalar (s : Store) (slot : Slot) (v : Value) : Calm (s.setScalar slot v) := by
  unfold setScalar
  split
  · exact not_false
  · trivial

end Store

/-! ### The record -/

/-- The same of an action, whatever the state. -/
abbrev CalmAction {σ : Type} (act : ExceptT Fault (StateM σ) α) : Prop :=
  Yields (fun _ => True) Fault.IsOrdinary (fun _ => True) act

namespace CalmAction

variable {σ : Type}

theorem lift {x : Except Fault α} (h : Calm x) : CalmAction (liftM x : ExceptT Fault (StateM σ) α) := Yields.lift h

theorem pure {a : α} : CalmAction (Pure.pure a : ExceptT Fault (StateM σ) α) := Yields.pure trivial

theorem get : CalmAction (MonadState.get : ExceptT Fault (StateM σ) σ) := Yields.get

theorem modify {f : σ → σ} : CalmAction (modify f : ExceptT Fault (StateM σ) PUnit) := Yields.modify fun _ _ => trivial

end CalmAction

namespace Record

variable (vars : Variables)

theorem calm_setText (t : Text) : CalmAction (setText vars t) := by
  refine CalmAction.modify.andThen fun _ => ?_
  refine (CalmAction.lift (vars.calm_setting ..)).andThen fun _ => ?_
  refine CalmAction.modify.andThen fun _ => ?_
  exact (CalmAction.lift (vars.calm_setting ..)).andThen fun _ => CalmAction.modify

theorem calm_fields : CalmAction fields := by
  refine CalmAction.get.andThen fun r => ?_
  split
  · exact CalmAction.pure
  · refine (CalmAction.lift (calm_splitFields ..)).andThen fun _ => ?_
    exact CalmAction.modify.andThen fun _ => CalmAction.pure

theorem calm_rebuild : CalmAction (rebuild vars) := by
  refine calm_fields.andThen fun values => ?_
  refine (CalmAction.lift vars.calm_convfmt).andThen fun format => ?_
  refine (CalmAction.lift (vars.calm_setting ..)).andThen fun _ => ?_
  have htexts : CalmAction (values.mapM fun v => (liftM (v.toText format) : Action Text)) := by
    intro r _
    rw [Action.run_mapM_liftM]
    exact ⟨trivial, .mapM fun v _ => v.calm_toText format⟩
  exact htexts.andThen fun _ => CalmAction.modify

theorem calm_count : CalmAction count := calm_fields.andThen fun _ => CalmAction.pure

theorem calm_padTo (values : List Value) (count : Nat) : Calm (padTo values count) :=
  (calm_checkPlaces _).andThen fun _ => .ok

theorem calm_setCount (count : Int) : CalmAction (setCount vars count) := by
  unfold setCount
  dsimp only
  split
  · exact Yields.stop not_false
  · refine calm_fields.andThen fun _ => ?_
    refine (CalmAction.lift (calm_padTo ..)).andThen fun _ => ?_
    exact CalmAction.modify.andThen fun _ => calm_rebuild vars

theorem calm_getField (index : Int) : CalmAction (getField index) := by
  unfold getField
  split
  · exact CalmAction.get.andThen fun _ => CalmAction.pure
  · dsimp only
    split
    · exact Yields.stop not_false
    · exact calm_fields.andThen fun _ => CalmAction.pure

theorem calm_setField (index : Int) (v : Value) : CalmAction (setField vars index v) := by
  unfold setField
  split
  · refine (CalmAction.lift vars.calm_convfmt).andThen fun _ => ?_
    exact (CalmAction.lift (v.calm_toText _)).andThen fun _ => calm_setText vars _
  · split
    · exact Yields.throw not_false
    · refine calm_fields.andThen fun _ => ?_
      refine (CalmAction.lift (calm_padTo ..)).andThen fun _ => ?_
      exact CalmAction.modify.andThen fun _ => calm_rebuild vars

end Record

end Awk
