import Awk.Proofs.Machine.Walk

/-!
# Kinds of names

In the states that a run comes by, names keep their kind and callers their scalars (`bindings_kept`).  So a name is used
as one kind only (`used_as_one_kind`): what has been bound to an array can be neither read nor assigned as a scalar, and
what has been bound to a scalar can not be used as an array.  The number of fields is no binding, and so is no such name:
`NF` among the globals can be used as both (`fieldCount_as_array`).
-/

namespace Awk

/-! ### The states that a run comes by -/

/-- A run with these functions can come by this state. -/
def Machine.Reached (functions : List Function) (m : Machine) : Prop :=
  ∃ world environment words, (Machine.start world functions environment words).Path 0 m

namespace Store

theorem lookup_addGlobalArray (s : Store) (name : Text) (a : Assoc) (slot : Slot) :
    (s.addGlobalArray name a).lookup slot =
      if slot = ⟨.globals, name⟩ then some (.array s.arrays.size) else s.lookup slot := by
  unfold addGlobalArray
  dsimp only
  rw [lookup_bind (.inl rfl)]
  rfl

theorem lookup_setGlobal (s : Store) (name : Text) (v : Value) (slot : Slot) :
    (s.setGlobal name v).lookup slot = if slot = ⟨.globals, name⟩ then some (.scalar v) else s.lookup slot :=
  lookup_bind (.inl rfl) slot (.scalar v)

end Store

namespace Machine

theorem scalar_of_mem_predefined {entry : Text × Binding} (h : entry ∈ predefined) : ∃ v, entry.2 = .scalar v := by
  rcases List.mem_append.1 h with h | h
  · obtain ⟨setting, -, rfl⟩ := List.mem_map.1 h
    exact ⟨_, rfl⟩
  · obtain ⟨counter, -, rfl⟩ := List.mem_map.1 h
    exact ⟨_, rfl⟩

section Start

variable (world : World) (functions : List Function) (environment : List (Text × Text)) (words : List Text)

/-- The globals at the start: the predefined scalars, the two arrays and the number of words. -/
theorem lookup_start (slot : Slot) :
    (start world functions environment words).store.lookup slot =
      if slot = ⟨.globals, "ARGC".toList⟩ then some (.scalar (.ofNat words.length))
      else if slot = ⟨.globals, "ARGV".toList⟩ then some (.array 1)
      else if slot = ⟨.globals, "ENVIRON".toList⟩ then some (.array 0)
      else match slot.scope with
        | .globals => predefined.lookup slot.name
        | .call _ => none := by
  unfold start
  dsimp only
  rw [Store.lookup_setGlobal, Store.lookup_addGlobalArray, Store.lookup_addGlobalArray]
  obtain ⟨scope, name⟩ := slot
  cases scope <;> rfl

/-- A predefined scalar is bound to a scalar. -/
theorem scalar_of_predefined {name : Text} (h : (predefined.lookup name).isSome) :
    ∃ v, (start world functions environment words).store.lookup ⟨.globals, name⟩ = some (.scalar v) := by
  rw [lookup_start]
  split
  · exact ⟨_, rfl⟩
  split
  · rename_i hargv
    cases hargv
    exact absurd h (by decide)
  split
  · rename_i henviron
    cases henviron
    exact absurd h (by decide)
  obtain ⟨b, hb⟩ := Option.isSome_iff_exists.1 h
  obtain ⟨before, after, hsplit, -⟩ := List.lookup_eq_some_iff.1 hb
  have hmem : (name, b) ∈ predefined := by simp [hsplit]
  obtain ⟨v, rfl⟩ := scalar_of_mem_predefined hmem
  exact ⟨v, hb⟩

theorem scoped_start : (start world functions environment words).store.Scoped where
  globals {name passed} h := by
    rw [lookup_start] at h
    split at h
    · cases h
    split at h
    · cases h
    split at h
    · cases h
    obtain ⟨before, after, hsplit, -⟩ := List.lookup_eq_some_iff.1 h
    have hmem : (name, .untyped passed) ∈ predefined := by simp [hsplit]
    obtain ⟨v, hv⟩ := scalar_of_mem_predefined hmem
    cases hv
  passed {level name slot} h := by
    simp [lookup_start] at h
  maintained name hname := by
    refine scalar_of_predefined world functions environment words ?_
    revert name
    decide

end Start

variable {functions : List Function} {m m' : Machine}

theorem Reached.scoped (h : m.Reached functions) : m.store.Scoped := by
  obtain ⟨world, environment, words, hpath⟩ := h
  exact hpath.scoped (scoped_start ..) (Nat.zero_le _)

theorem Reached.functions_eq (h : m.Reached functions) : m.functions = functions := by
  obtain ⟨world, environment, words, hpath⟩ := h
  exact hpath.functions

theorem Reached.path {floor : Nat} (h : m.Reached functions) (hpath : m.Path floor m') : m'.Reached functions := by
  obtain ⟨world, environment, words, hstart⟩ := h
  exact ⟨world, environment, words, hstart.trans (hpath.mono (Nat.zero_le _))⟩

/-- Each running call has the parameters of a function. -/
theorem Reached.frames (h : m.Reached functions) {level : Nat} (hlevel : level < m.store.calls.size) :
    ∃ f ∈ functions, m.store.names level = f.params := by
  obtain ⟨world, environment, words, hpath⟩ := h
  have hscoped := scoped_start world functions environment words
  have hfunctions := hpath.functions
  induction hpath generalizing level with
  | refl => exact absurd hlevel (Nat.not_lt_zero _)
  | change h hchange ih =>
    have halters := hchange.alters (h.scoped hscoped (Nat.zero_le _))
    rw [halters.names]
    exact ih (halters.depth ▸ hlevel) h.functions
  | @enter m f table h hf hparams htable ih =>
    rcases Nat.lt_or_ge level m.store.calls.size with hlt | hge
    · obtain ⟨g, hg, hnames⟩ := ih hlt h.functions
      exact ⟨g, hg, (m.store.names_push_of_lt table hlt).trans hnames⟩
    · have hsize : level = m.store.calls.size := by
        have hpushed : level < m.store.calls.size + 1 := by simpa [Machine.enter, Store.push] using hlevel
        omega
      subst hsize
      have hfound : f ∈ functions := by
        rw [h.functions] at hf
        exact hf
      exact ⟨f, hfound, (m.store.names_push table).trans hparams⟩
  | @leave m h hlt ih =>
    have hlevel' : level + 1 < m.store.calls.size := by
      have hpopped : level < m.store.calls.size - 1 := by simpa [Machine.leave, Store.pop] using hlevel
      omega
    obtain ⟨g, hg, hnames⟩ := ih (Nat.lt_of_succ_lt hlevel') h.functions
    exact ⟨g, hg, (m.store.names_pop hlevel').trans hnames⟩

/-- What is found at first stays as it is kept. -/
theorem Reached.keeps {floor : Nat} (h : m.Reached functions) (hfloor : floor ≤ m.store.calls.size)
    (hpath : m.Path floor m') : m.store.Keeps floor m'.store :=
  (hpath.keeps h.scoped hfloor).1

theorem Reached.predefined (h : m.Reached functions) {name : Text} (hname : (Machine.predefined.lookup name).isSome) :
    ∃ v, m.store.lookup ⟨.globals, name⟩ = some (.scalar v) := by
  obtain ⟨world, environment, words, hpath⟩ := h
  obtain ⟨v, hv⟩ := scalar_of_predefined world functions environment words hname
  obtain ⟨b, hb, hkept⟩ := (hpath.keeps (scoped_start ..) (Nat.zero_le _)).1.kept (Nat.zero_le _) hv
  cases hkept
  exact ⟨_, hb⟩

end Machine

open Eval in
/-- In every state that a run comes by, the running calls have the parameters of functions and no other names, and an
evaluation of any expression, statement or call, however it ends, comes by a path on which these calls keep running to
a state in which they are the innermost again.  A call runs the body of its function one level further in.  Along any
path, names that were bound to arrays are bound to the same arrays, those that were bound to scalars are bound to scalars,
and in all calls but the innermost that keeps running the scalars are the same and what had no kind has none or has become
an array. -/
theorem bindings_kept {functions : List Function} {m : Machine} (hm : m.Reached functions) :
    (∀ level < m.store.calls.size, ∃ f ∈ functions, m.store.names level = f.params) ∧
      (∀ fuel, (∀ e, m.WalksTo ((expr fuel e).run m).2) ∧ (∀ s, m.WalksTo ((stmt fuel s).run m).2) ∧
        (∀ function args, m.WalksTo ((call fuel function args).run m).2) ∧
        ∀ parts, m.WalksTo ((runParts fuel parts).run m).2) ∧
      (∀ {fuel function args f table m₁}, functions.find? (fun f => f.name == function.text) = some f →
        args.length ≤ f.params.length → (bindArguments (expr fuel) f.params args).run m = (.ok table, m₁) →
        (call (fuel + 1) function args).run m =
            (returned ((stmt fuel f.body).run (m₁.enter table)).1, ((stmt fuel f.body).run (m₁.enter table)).2.leave) ∧
          m.WalksTo m₁ ∧ (m₁.enter table).Reached functions ∧
          (m₁.enter table).store.calls.size = m.store.calls.size + 1) ∧
      ∀ {floor m'}, floor ≤ m.store.calls.size → m.Path floor m' →
        m'.Reached functions ∧ m.store.Keeps floor m'.store := by
  refine ⟨fun level hlevel => hm.frames hlevel, fun fuel => ?_, ?_, fun hfloor hpath => ?_⟩
  · have heval := walks_eval fuel
    exact ⟨fun e => heval.expr e m hm.scoped, fun s => heval.stmt s m hm.scoped,
      fun function args => heval.call function args m hm.scoped, fun parts => walks_runParts fuel parts m hm.scoped⟩
  · intro fuel function args f table m₁ hfound hcount hbound
    obtain ⟨hwalk, hparams, htable⟩ := enters_of_bindArguments (walks_eval fuel).expr hm.scoped hbound
    have hfunctions : m₁.functions = functions := (hm.path hwalk.path).functions_eq
    have hf : f ∈ m₁.functions := hfunctions ▸ List.mem_of_find?_eq_some hfound
    have hentered : m₁.Path 0 (m₁.enter table) := .enter .refl hf hparams htable
    refine ⟨?_, hwalk, (hm.path hwalk.path).path hentered, ?_⟩
    · unfold call
      rw [run_callWith (hm.functions_eq.symm ▸ hfound) hcount, hbound]
    · simp [Machine.enter, Store.push, hwalk.depth]
  · exact ⟨hm.path hpath, hm.keeps hfloor hpath⟩

/-- A function that makes an array of one parameter and assigns to the other. -/
def makerSource : Text := "function f(a, b) \x7b a[b] = b; b = b b \x7d".toList

/-- A call of the function for a name that is bound to nothing and a text. -/
def makerTable : Table := [(['a'], .untyped (some ⟨.globals, ['x']⟩)), (['b'], .scalar (.str ['y']))]

/-- The state in which its body runs. -/
def makerCalled (f : Function) : Machine := (Machine.start (.start .empty [] [] 0) [f] [] []).enter makerTable

theorem bindings_kept_maker : ∃ parts f, loadProgram makerSource = .ok parts ∧ parts.functions = [f] ∧
    (makerCalled f).Reached [f] ∧
    (makerCalled f).store.Keeps 1 ((Eval.stmt 20 f.body).run (makerCalled f)).2.store ∧
    ((Eval.stmt 20 f.body).run (makerCalled f)).2.store.lookup ⟨.globals, ['x']⟩ = some (.array 2) ∧
    ((Eval.stmt 20 f.body).run (makerCalled f)).2.store.lookup ⟨.call 0, ['b']⟩ = some (.scalar (.str ['y', 'y'])) := by
  have htests : (loadProgram makerSource).toOption.any (fun parts => decide (parts.functions.length = 1 ∧
      ∀ f ∈ parts.functions, f.params = [['a'], ['b']] ∧
        ((Eval.stmt 20 f.body).run (makerCalled f)).2.store.lookup ⟨.globals, ['x']⟩ = some (.array 2) ∧
        ((Eval.stmt 20 f.body).run (makerCalled f)).2.store.lookup ⟨.call 0, ['b']⟩ =
          some (.scalar (.str ['y', 'y'])))) = true := by
    decide +kernel
  obtain ⟨parts, hload, htests⟩ := (Option.any_eq_true _ _).1 htests
  obtain ⟨hcount, htests⟩ := of_decide_eq_true htests
  obtain ⟨f, hf⟩ := List.length_eq_one_iff.1 hcount
  obtain ⟨hparams, hx, hb⟩ := htests f (hf ▸ List.mem_singleton_self f)
  have hentered : (Machine.start (.start .empty [] [] 0) [f] [] []).Path 0 (makerCalled f) := by
    refine .enter .refl (List.mem_singleton_self f) hparams.symm fun {name slot} hlookup => ?_
    obtain ⟨before, after, hsplit, -⟩ := List.lookup_eq_some_iff.1 hlookup
    have hmem : (name, .untyped (some slot)) ∈ makerTable := by simp [hsplit]
    have hslot : slot = ⟨.globals, ['x']⟩ := by
      simp only [makerTable, List.mem_cons, Prod.mk.injEq, List.not_mem_nil, or_false] at hmem
      rcases hmem with ⟨-, hmem⟩ | ⟨-, hmem⟩
      · exact Option.some.inj (Binding.untyped.inj hmem)
      · cases hmem
    exact .inl (congrArg Slot.scope hslot)
  have hreached : (makerCalled f).Reached [f] := ⟨_, [], [], hentered⟩
  obtain ⟨-, hwalks, -, hkeeps⟩ := bindings_kept hreached
  have hwalk := (hwalks 20).2.1 f.body
  exact ⟨parts, f, Action.toOption_eq_some.1 hload, hf, hreached, (hkeeps (Nat.le_refl _) hwalk.path).2, hx, hb⟩

/-! ### Uses of names -/

theorem Store.scopeOf_eq (s : Store) (name : Text) :
    s.scopeOf name = if name ∈ s.names (s.calls.size - 1) then .call (s.calls.size - 1) else .globals := by
  unfold Store.scopeOf Array.back?
  split
  · rename_i table htable
    have heq : s.table (.call (s.calls.size - 1)) = table := by simp [Store.table, htable]
    have hiff : (s.lookup ⟨.call (s.calls.size - 1), name⟩).isSome ↔ name ∈ s.names (s.calls.size - 1) :=
      Store.isSome_lookup_iff
    rw [Store.lookup, heq] at hiff
    simp only [hiff]
  · rename_i hnone
    have hnames : s.names (s.calls.size - 1) = [] := by simp [Store.names, Store.table, hnone]
    simp [hnames]

/-- A name is found in the same scope as long as the call goes on. -/
theorem Machine.WalksTo.slotOf_eq {m m' : Machine} (h : m.WalksTo m') (hm : m.store.Scoped) (name : Text) :
    m'.store.slotOf name = m.store.slotOf name := by
  have hnames : m'.store.names (m'.store.calls.size - 1) = m.store.names (m.store.calls.size - 1) := by
    rw [h.depth]
    rcases Nat.eq_zero_or_pos m.store.calls.size with hzero | hpos
    · rw [hzero, Store.names_of_le (Nat.le_of_eq hzero), Store.names_of_le (Nat.le_of_eq (h.depth.trans hzero))]
    · exact (h.path.keeps hm (Nat.le_refl _)).1.names (Nat.sub_lt hpos Nat.one_pos)
  rw [Store.slotOf, Store.slotOf, Store.scopeOf_eq, Store.scopeOf_eq, hnames, h.depth]

/-- A name that is bound to an array stays bound to it. -/
theorem Machine.WalksTo.lookup_array {m m' : Machine} (h : m.WalksTo m') (hm : m.store.Scoped) {name : Text} {id : Nat}
    (hid : m.store.lookup (m.store.slotOf name) = some (.array id)) :
    m'.store.lookup (m'.store.slotOf name) = some (.array id) := by
  obtain ⟨b, hb, hkept⟩ := (h.path.keeps hm (Nat.le_refl _)).1.kept (m.store.has_slotOf name).rank_le hid
  cases hkept
  rw [h.slotOf_eq hm, hb]

namespace Eval

variable {m m' : Machine} {name : Text} {eval : Evaluate} {f : Fault} {α β : Type}

/-- The name is bound to an array, where it is found, and is not the number of fields. -/
def IsArray (m : Machine) (name : Text) : Prop :=
  isFieldCount (m.store.slotOf name) = false ∧ ∃ id, m.store.lookup (m.store.slotOf name) = some (.array id)

/-- The name is bound to a scalar, where it is found. -/
def IsScalar (m : Machine) (name : Text) : Prop := ∃ v, m.store.lookup (m.store.slotOf name) = some (.scalar v)

theorem IsArray.walksTo (h : IsArray m name) (hm : m.store.Scoped) (hwalk : m.WalksTo m') : IsArray m' name := by
  obtain ⟨hcount, id, hid⟩ := h
  exact ⟨hwalk.slotOf_eq hm name ▸ hcount, id, hwalk.lookup_array hm hid⟩

theorem IsScalar.walksTo (h : IsScalar m name) (hm : m.store.Scoped) (hwalk : m.WalksTo m') : IsScalar m' name := by
  obtain ⟨v, hv⟩ := h
  obtain ⟨b, hb, hkept⟩ := (hwalk.path.keeps hm (Nat.le_refl _)).1.kept (m.store.has_slotOf name).rank_le hv
  cases hkept
  exact ⟨_, hwalk.slotOf_eq hm name ▸ hb⟩

/-- An array can be neither read as a scalar nor assigned, and nothing is changed by trying. -/
theorem run_readVariable (h : IsArray m name) :
    (readVariable name).run m = (.error (.failure ⟨.arrayAsScalar name, none⟩), m) := by
  obtain ⟨hcount, id, hid⟩ := h
  have hread : m.store.scalarAt (m.store.slotOf name) = .error (.arrayAsScalar name) := by
    rw [Store.scalarAt, hid]
    rfl
  unfold readVariable slotOf readSlot
  simp only [Action.run_bind, Action.run_get, Action.run_pure, hcount, Bool.false_eq_true, if_false, hread]
  rfl

theorem run_assignVariable (h : IsArray m name) (v : Value) :
    (assignVariable name v).run m = (.error (.failure ⟨.arrayAsScalar name, none⟩), m) := by
  obtain ⟨-, id, hid⟩ := h
  have hassign : m.store.setScalar (m.store.slotOf name) v = .error (.arrayAsScalar name) := by
    rw [Store.setScalar, hid]
    rfl
  unfold assignVariable slotOf assignSlot
  simp only [Action.run_bind, Action.run_get, Action.run_pure, hassign]
  rfl

/-- A scalar cannot be used as an array, and nothing is changed by trying. -/
theorem run_arrayNamed (h : IsScalar m name) :
    (arrayNamed name).run m = (.error (.failure ⟨.scalarAsArray name, none⟩), m) := by
  obtain ⟨v, hv⟩ := h
  have harray : m.store.arrayAt (m.store.slotOf name) = .error (.scalarAsArray name) := by
    rw [Store.arrayAt, Store.arrayAtFrom, hv]
    rfl
  unfold arrayNamed slotOf
  simp only [Action.run_bind, Action.run_get, Action.run_pure, harray]
  rfl

/-! ### Faults after operands -/

/-- The operands are evaluated, and then there is a fault. -/
def refused (operands : Eval Unit) (f : Fault) : Eval α := do
  operands
  fail f

/-- What comes after a fault does not matter. -/
theorem run_bind_refused {act : Eval α} {next : α → Eval β} {operands : Eval Unit}
    (h : act.run m = (refused operands f).run m) : (act >>= next).run m = (refused operands f).run m := by
  unfold refused at h ⊢
  rw [Action.run_bind] at h ⊢
  rw [h, Action.run_bind]
  rcases operands.run m with ⟨i | u, m₁⟩ <;> rfl

/-- There is a fault wherever the operands may lead. -/
theorem run_bind_fail {operands : Eval α} {next : α → Eval β} (hwalks : Walks operands) (hm : m.store.Scoped)
    (h : ∀ a m₁, m.WalksTo m₁ → (next a).run m₁ = (.error (.failure ⟨f, none⟩), m₁)) :
    (operands >>= next).run m = (refused (do let _ ← operands) f).run m := by
  have hwalk := hwalks m hm
  unfold refused
  rw [Action.run_bind, Action.run_bind, Action.run_bind]
  revert hwalk
  rcases operands.run m with ⟨i | a, m₁⟩
  · exact fun _ => rfl
  · exact fun hwalk => h a m₁ hwalk

/-- Nothing follows a fault. -/
theorem run_bind_error {act : Eval α} {next : α → Eval β} {i : Interruption} (h : act.run m = (.error i, m')) :
    (act >>= next).run m = (.error i, m') := by
  rw [Action.run_bind, h]

theorem run_located_congr {act act' : Eval α} (span : Option Span) (h : act.run m = act'.run m) :
    (located span act).run m = (located span act').run m := by
  unfold located
  rw [ExceptT.run_mk, ExceptT.run_mk, h]

theorem run_located_fault {act : Eval α} (span : Span) (h : act.run m = (.error (.failure ⟨f, none⟩), m)) :
    (located (some span) act).run m = (.error (.failure ⟨f, some (span.line, span.column)⟩), m) := by
  unfold located
  rw [ExceptT.run_mk, h]
  rfl

/-! ### Uses as a scalar -/

/-- The ways in which an expression uses a name as a scalar, each with what is evaluated before. -/
inductive ScalarUse (eval : Evaluate) (name : Text) : Expr → Eval Unit → Prop
  | read {token : Token} (h : token.text = name) : ScalarUse eval name (.lvalue (.var token)) (pure ())
  | assign {span : Span} {token : Token} {op : AssignOp} {mark : Token} {right : Expr} (h : token.text = name) :
    ScalarUse eval name (.assign span (.var token) op mark right) (do let _ ← eval right)
  | preStep {span : Span} {op : StepOp} {mark token : Token} (h : token.text = name) :
    ScalarUse eval name (.preStep span op mark (.var token)) (pure ())
  | postStep {span : Span} {op : StepOp} {mark token : Token} (h : token.text = name) :
    ScalarUse eval name (.postStep span (.var token) op mark) (pure ())

/-- A name cannot be used as a scalar: all uses end in a fault, which leaves the state as it is. -/
structure RefusesScalar (m : Machine) (name : Text) : Prop where
  read : (readVariable name).run m = (.error (.failure ⟨.arrayAsScalar name, none⟩), m)
  assign : ∀ v, (assignVariable name v).run m = (.error (.failure ⟨.arrayAsScalar name, none⟩), m)
  use : ∀ fuel e operands, ScalarUse (expr fuel) name e operands →
    (expr (fuel + 1) e).run m = (located e.span? (refused operands (.arrayAsScalar name))).run m

theorem run_assign_array (heval : ∀ e, Walks (eval e)) (hm : m.store.Scoped) (h : IsArray m name) {token : Token}
    (htoken : token.text = name) (op : AssignOp) (right : Expr) :
    (assign eval (.var token) op right).run m = (refused (do let _ ← eval right) (.arrayAsScalar name)).run m := by
  subst htoken
  refine run_bind_fail (heval right) hm fun v m₁ hwalk => ?_
  have h₁ := h.walksTo hm hwalk
  cases op with
  | set => exact run_assignVariable h₁ v
  | update op => exact run_bind_error (run_readVariable h₁)

theorem run_stepTarget_array (h : IsArray m name) {token : Token} (htoken : token.text = name) (op : StepOp) :
    (stepTarget eval op (.var token)).run m = (refused (pure ()) (.arrayAsScalar name)).run m := by
  subst htoken
  unfold stepTarget targetOf
  rw [Action.run_bind, Action.run_pure]
  exact run_bind_refused (run_readVariable h)

theorem refusesScalar (hm : m.store.Scoped) (h : IsArray m name) : RefusesScalar m name where
  read := run_readVariable h
  assign := run_assignVariable h
  use fuel e operands huse := by
    unfold expr
    refine run_located_congr _ ?_
    cases huse with
    | read htoken =>
      subst htoken
      exact run_readVariable h
    | assign htoken => exact run_assign_array (walks_eval fuel).expr hm h htoken _ _
    | preStep htoken => exact run_bind_refused (run_stepTarget_array h htoken _)
    | postStep htoken => exact run_bind_refused (run_stepTarget_array h htoken _)

/-! ### Uses as an array -/

/-- The ways in which an expression uses a name as an array, each with what is evaluated before. -/
inductive ArrayUse (eval : Evaluate) (name : Text) : Expr → Eval Unit → Prop
  | read {span : Span} {array : Token} {subscripts : List Expr} {place : Span} (h : array.text = name) :
    ArrayUse eval name (.lvalue (.index span array subscripts place)) (do let _ ← subscriptKey eval subscripts)
  | assign {span : Span} {array : Token} {subscripts : List Expr} {place whole : Span} {op : AssignOp} {mark : Token}
    {right : Expr} (h : array.text = name) :
    ArrayUse eval name (.assign whole (.index span array subscripts place) op mark right)
      (do let _ ← subscriptKey eval subscripts)
  | preStep {span : Span} {array : Token} {subscripts : List Expr} {place whole : Span} {op : StepOp} {mark : Token}
    (h : array.text = name) :
    ArrayUse eval name (.preStep whole op mark (.index span array subscripts place))
      (do let _ ← subscriptKey eval subscripts)
  | postStep {span : Span} {array : Token} {subscripts : List Expr} {place whole : Span} {op : StepOp} {mark : Token}
    (h : array.text = name) :
    ArrayUse eval name (.postStep whole (.index span array subscripts place) op mark)
      (do let _ ← subscriptKey eval subscripts)
  | member {span : Span} {subscripts : List Expr} {place : Option Span} {array : Token} (h : array.text = name) :
    ArrayUse eval name (.member span subscripts place array) (do let _ ← subscriptKey eval subscripts)
  | split {span : Span} {mark : Token} {text : Expr} {array : Token} {separator : List Expr} (h : array.text = name)
    (hcount : separator.length ≤ 1) :
    ArrayUse eval name (.builtin span .split mark (text :: .lvalue (.var array) :: separator))
      (do let _ ← textOf (← eval text))

/-- A name cannot be used as an array: all uses end in a fault, which leaves the state as it is. -/
structure RefusesArray (m : Machine) (name : Text) : Prop where
  array : (arrayNamed name).run m = (.error (.failure ⟨.scalarAsArray name, none⟩), m)
  /-- Whatever reads or writes an element. -/
  target : ∀ fuel {span array subscripts place}, array.text = name →
    (targetOf (expr fuel) (.index span array subscripts place)).run m =
      (refused (do let _ ← subscriptKey (expr fuel) subscripts) (.scalarAsArray name)).run m
  use : ∀ fuel e operands, ArrayUse (expr fuel) name e operands →
    (expr (fuel + 1) e).run m = (located e.span? (refused operands (.scalarAsArray name))).run m
  forIn : ∀ fuel {span element array body}, array.text = name →
    (stmt (fuel + 1) (.forIn span element array body)).run m =
      (.error (.failure ⟨.scalarAsArray name, some (span.line, span.column)⟩), m)
  delete : ∀ fuel {span array subscripts}, array.text = name →
    (stmt (fuel + 1) (.delete span array subscripts)).run m =
      (.error (.failure ⟨.scalarAsArray name, some (span.line, span.column)⟩), m)

theorem run_targetOf_scalar (heval : ∀ e, Walks (eval e)) (hm : m.store.Scoped) (h : IsScalar m name) {span : Span}
    {array : Token} {subscripts : List Expr} {place : Span} (harray : array.text = name) :
    (targetOf eval (.index span array subscripts place)).run m =
      (refused (do let _ ← subscriptKey eval subscripts) (.scalarAsArray name)).run m := by
  subst harray
  refine run_bind_fail (walks_subscriptKey heval subscripts) hm fun key m₁ hwalk => ?_
  exact run_bind_error (run_arrayNamed (h.walksTo hm hwalk))

theorem run_split_scalar (heval : ∀ e, Walks (eval e)) (hm : m.store.Scoped) (h : IsScalar m name) {text : Expr}
    {array : Token} (harray : array.text = name) (separator : Option Expr) :
    (split eval text (.lvalue (.var array)) separator).run m =
      (refused (do let _ ← textOf (← eval text)) (.scalarAsArray name)).run m := by
  subst harray
  have hwalks : Walks (do textOf (← eval text)) := (heval text).andThen walks_textOf
  unfold split
  rw [← bind_assoc]
  refine (run_bind_fail hwalks hm fun t m₁ hwalk => ?_).trans (by rw [bind_assoc])
  exact run_bind_error (run_arrayNamed (h.walksTo hm hwalk))

theorem refusesArray (hm : m.store.Scoped) (h : IsScalar m name) : RefusesArray m name where
  array := run_arrayNamed h
  target fuel {_ _ _ _} harray := run_targetOf_scalar (walks_eval fuel).expr hm h harray
  use fuel e operands huse := by
    have heval := (walks_eval fuel).expr
    unfold expr
    refine run_located_congr _ ?_
    cases huse with
    | read harray => exact run_bind_refused (run_targetOf_scalar heval hm h harray)
    | assign harray => exact run_bind_refused (run_targetOf_scalar heval hm h harray)
    | preStep harray => exact run_bind_refused (run_bind_refused (run_targetOf_scalar heval hm h harray))
    | postStep harray => exact run_bind_refused (run_bind_refused (run_targetOf_scalar heval hm h harray))
    | member harray =>
      subst harray
      refine run_bind_fail (walks_subscriptKey heval _) hm fun key m₁ hwalk => ?_
      exact run_bind_error (run_arrayNamed (h.walksTo hm hwalk))
    | @split _ _ _ _ separator harray hcount =>
      match separator, hcount with
      | [], _ => exact run_split_scalar heval hm h harray none
      | [e], _ => exact run_split_scalar heval hm h harray (some e)
  forIn fuel {span element array body} harray := by
    subst harray
    unfold stmt
    exact run_located_fault span (run_bind_error (run_arrayNamed h))
  delete fuel {span array subscripts} harray := by
    subst harray
    unfold stmt
    exact run_located_fault span (run_bind_error (run_arrayNamed h))

/-! ### One kind for each name -/

theorem lookup_of_assignVariable {v v' : Value} (hcount : isFieldCount (m.store.slotOf name) = false)
    (h : (assignVariable name v).run m = (.ok v', m')) :
    m'.store.lookup (m.store.slotOf name) = some (.scalar v) := by
  unfold assignVariable slotOf assignSlot at h
  simp only [Action.run_bind, Action.run_get, Action.run_pure, hcount, Bool.false_eq_true, if_false] at h
  cases hset : m.store.setScalar (m.store.slotOf name) v with
  | error f =>
    rw [hset] at h
    cases h
  | ok store =>
    rw [hset] at h
    cases h
    exact Store.lookup_setScalar (m.store.has_slotOf name) hset

theorem lookup_of_arrayNamed (hm : m.store.Scoped) {id : Nat} (h : (arrayNamed name).run m = (.ok id, m')) :
    m'.store.lookup (m.store.slotOf name) = some (.array id) := by
  unfold arrayNamed slotOf at h
  simp only [Action.run_bind, Action.run_get, Action.run_pure] at h
  cases harray : m.store.arrayAt (m.store.slotOf name) with
  | error f =>
    rw [harray] at h
    cases h
  | ok made =>
    rw [harray] at h
    cases h
    exact Store.lookup_arrayAt hm (m.store.has_slotOf name) harray

/-- In every state that a run comes by, a name that is assigned becomes a scalar, and one that is used as an array
becomes that array.  As long as its scope is there, what has been an array is the same array and cannot be used as a
scalar, and what has been a scalar, or is one of the predefined ones, cannot be used as an array: every use ends in a
type error and changes nothing.  The number of fields among the globals is left out: it is not bound to anything. -/
theorem used_as_one_kind {functions : List Function} (hm : m.Reached functions) {floor : Nat}
    (hfloor : floor ≤ m.store.calls.size) (hpath : m.Path floor m') {slot : Slot} (hslot : m'.store.slotOf name = slot)
    (hscope : slot.scope.rank ≤ floor) (hcount : isFieldCount slot = false) :
    (∀ v v' m₁, (assignVariable name v).run m' = (.ok v', m₁) → m₁.store.lookup slot = some (.scalar v)) ∧
      (∀ id m₁, (arrayNamed name).run m' = (.ok id, m₁) → m₁.store.lookup slot = some (.array id)) ∧
      (∀ id, m.store.lookup slot = some (.array id) →
        m'.store.lookup slot = some (.array id) ∧ RefusesScalar m' name) ∧
      ((∃ v, m.store.lookup slot = some (.scalar v)) ∨
          slot.scope = .globals ∧ (Machine.predefined.lookup name).isSome →
        RefusesArray m' name) := by
  subst hslot
  have hm' := hm.path hpath
  have hkeeps := hm.keeps hfloor hpath
  refine ⟨fun v v' m₁ h => lookup_of_assignVariable hcount h, fun id m₁ h => lookup_of_arrayNamed hm'.scoped h,
    fun id hid => ?_, fun hscalar => refusesArray hm'.scoped ?_⟩
  · obtain ⟨b, hb, hkept⟩ := hkeeps.kept hscope hid
    cases hkept
    exact ⟨hb, refusesScalar hm'.scoped ⟨hcount, id, hb⟩⟩
  · rcases hscalar with ⟨v, hv⟩ | ⟨hglobal, hpredefined⟩
    · obtain ⟨b, hb, hkept⟩ := hkeeps.kept hscope hv
      cases hkept
      exact ⟨_, hb⟩
    · obtain ⟨v, hv⟩ := hm'.predefined hpredefined
      have hslot : m'.store.slotOf name = ⟨.globals, name⟩ := congrArg (Slot.mk · name) hglobal
      exact ⟨v, hslot ▸ hv⟩

/-- The state before a run without functions, in an empty world. -/
def emptyStart : Machine := .start (.start .empty [] [] 0) [] [] []

/-- The state after emptying the environment. -/
def emptiedEnvironment : Machine :=
  ((stmt 1 (.delete ⟨1, 1, 0, 14⟩ ⟨.name, "ENVIRON".toList, ⟨1, 8, 7, 14⟩⟩ none)).run emptyStart).2

/-- The environment is an array as before, and the field separator is none. -/
theorem used_as_one_kind_environment :
    RefusesScalar emptiedEnvironment "ENVIRON".toList ∧ RefusesArray emptiedEnvironment "FS".toList := by
  have hreached : emptyStart.Reached [] := ⟨_, _, _, .refl⟩
  have hwalk : emptyStart.WalksTo emptiedEnvironment := (walks_eval 1).stmt _ emptyStart hreached.scoped
  have hslot (name : Text) : emptiedEnvironment.store.slotOf name = ⟨.globals, name⟩ :=
    hwalk.slotOf_eq hreached.scoped name
  obtain ⟨-, -, hscalar, -⟩ :=
    used_as_one_kind hreached (Nat.zero_le _) hwalk.path (hslot "ENVIRON".toList) (Nat.zero_le _) (by decide)
  obtain ⟨-, -, -, harray⟩ :=
    used_as_one_kind hreached (Nat.zero_le _) hwalk.path (hslot "FS".toList) (Nat.zero_le _) (by decide)
  exact ⟨(hscalar 0 rfl).2, harray (.inr ⟨rfl, by decide⟩)⟩

/-- The number of fields can be used as an array, and is read as a number nevertheless. -/
theorem fieldCount_as_array : ∃ m m', (arrayNamed fieldCountName).run emptyStart = (.ok 2, m) ∧
    m.store.lookup (m.store.slotOf fieldCountName) = some (.array 2) ∧
    (readVariable fieldCountName).run m = (.ok (.ofNat 0), m') :=
  ⟨_, _, rfl, rfl, rfl⟩

end Eval

end Awk
