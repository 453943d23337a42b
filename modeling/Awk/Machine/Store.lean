import Awk.Assoc

/-!
# Names and what they are bound to

A name stands for a scalar, an array, or a parameter whose kind is not known yet.  Names are looked up in the table of
the innermost call if they are its parameters, and among the globals otherwise (`scopeOf`).  Arrays live in a heap and
are bound by number, so that several names can share one.

A parameter without a kind remembers the name that was passed for it (`Binding.untyped`).  Its first use as an array
follows these names down to an array, or to a name that is bound to nothing, and binds them all to one array
(`arrayAt`).
-/

namespace Awk

inductive Scope where
  | globals
  /-- The parameters of a call, by the number of calls below it. -/
  | call (level : Nat)
  deriving DecidableEq, Repr

/-- A name in a scope. -/
structure Slot where
  scope : Scope
  name : Text
  deriving DecidableEq, Repr

inductive Binding where
  | scalar (v : Value)
  | array (id : Nat)
  | untyped (passed : Option Slot)
  deriving DecidableEq, Repr

abbrev Table := List (Text × Binding)

/-- The table with a name bound anew, in its old place or first. -/
def Table.bind (name : Text) (b : Binding) (table : Table) : Table :=
  if (table.lookup name).isSome then table.map fun (n, old) => if n = name then (n, b) else (n, old)
  else (name, b) :: table

structure Store where
  globals : Table
  /-- The tables of the running calls, the innermost last. -/
  calls : Array Table
  arrays : Array Assoc
  deriving Repr

namespace Store

/-- The table of a scope. -/
def table (s : Store) : Scope → Table
  | .globals => s.globals
  | .call level => (s.calls[level]?).getD []

def lookup (s : Store) (slot : Slot) : Option Binding := (s.table slot.scope).lookup slot.name

/-- Bind a name in its scope. -/
def bind (s : Store) (slot : Slot) (b : Binding) : Store :=
  match slot.scope with
  | .globals => { s with globals := s.globals.bind slot.name b }
  | .call level => { s with calls := s.calls.modify level (·.bind slot.name b) }

/-- The scope in which a name is found from within the innermost call. -/
def scopeOf (s : Store) (name : Text) : Scope :=
  match s.calls.back? with
  | some table => if (table.lookup name).isSome then .call (s.calls.size - 1) else .globals
  | none => .globals

def slotOf (s : Store) (name : Text) : Slot := ⟨s.scopeOf name, name⟩

/-- A new empty array. -/
def newArray (s : Store) : Nat × Store := (s.arrays.size, { s with arrays := s.arrays.push .empty })

def array (s : Store) (id : Nat) : Assoc := s.arrays[id]?.getD .empty

def setArray (s : Store) (id : Nat) (a : Assoc) : Store := { s with arrays := s.arrays.modify id fun _ => a }

/-- The array at the end of a chain of passed names, with all names on the way bound to it.  A name is passed by a
caller, so the chain is no longer than the calls are deep. -/
def arrayAtFrom : Nat → Store → Option Slot → Except Fault (Nat × Store)
  | 0, s, _ => .ok s.newArray
  | _ + 1, s, none => .ok s.newArray
  | fuel + 1, s, some slot =>
    match s.lookup slot with
    | some (.array id) => .ok (id, s)
    | some (.scalar _) => .error (.scalarAsArray slot.name)
    | some (.untyped passed) => do
      let (id, s) ← arrayAtFrom fuel s passed
      .ok (id, s.bind slot (.array id))
    | none =>
      let (id, s) := s.newArray
      .ok (id, s.bind slot (.array id))

/-- The array that a slot is bound to, made on first use. -/
def arrayAt (s : Store) (slot : Slot) : Except Fault (Nat × Store) :=
  arrayAtFrom (s.calls.size + 2) s (some slot)

/-- The scalar that a slot is bound to, unset if it has no kind yet. -/
def scalarAt (s : Store) (slot : Slot) : Except Fault Value :=
  match s.lookup slot with
  | some (.scalar v) => .ok v
  | some (.array _) => .error (.arrayAsScalar slot.name)
  | some (.untyped _) | none => .ok .unset

/-- Bind a slot to a scalar. -/
def setScalar (s : Store) (slot : Slot) (v : Value) : Except Fault Store :=
  match s.lookup slot with
  | some (.array _) => .error (.arrayAsScalar slot.name)
  | _ => .ok (s.bind slot (.scalar v))

/-- The value of a global scalar, if the name is one. -/
def global? (s : Store) (name : Text) : Option Value :=
  match s.globals.lookup name with
  | some (.scalar v) => some v
  | _ => none

def setGlobal (s : Store) (name : Text) (v : Value) : Store := s.bind ⟨.globals, name⟩ (.scalar v)

/-- Enter a call with its parameters bound. -/
def push (s : Store) (table : Table) : Store := { s with calls := s.calls.push table }

/-- Leave the innermost call. -/
def pop (s : Store) : Store := { s with calls := s.calls.pop }

/-- Add an array under a global name. -/
def addGlobalArray (s : Store) (name : Text) (a : Assoc) : Store :=
  let (id, s) := s.newArray
  (s.setArray id a).bind ⟨.globals, name⟩ (.array id)

end Store

end Awk
