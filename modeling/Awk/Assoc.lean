import Awk.Value.Basic

/-!
# Arrays

An array maps texts to values and keeps its keys in the order in which they came (`keys`).  Setting a key that is
present keeps its place; a key that was erased and comes again goes last.  Looking at a missing element brings it
into being, unset (`fetch`).
-/

namespace Awk

structure Assoc where
  entries : List (Text × Value)
  deriving DecidableEq, Repr

namespace Assoc

def empty : Assoc := ⟨[]⟩

instance : Inhabited Assoc := ⟨empty⟩

def keys (a : Assoc) : List Text := a.entries.map Prod.fst

def size (a : Assoc) : Nat := a.entries.length

def get? (a : Assoc) (key : Text) : Option Value := a.entries.lookup key

def contains (a : Assoc) (key : Text) : Bool := (a.get? key).isSome

/-- Entries with the value of `key` replaced, or with the key put last. -/
def insertEntry (key : Text) (value : Value) : List (Text × Value) → List (Text × Value)
  | [] => [(key, value)]
  | (k, v) :: rest => if k = key then (k, value) :: rest else (k, v) :: insertEntry key value rest

def insert (a : Assoc) (key : Text) (value : Value) : Assoc := ⟨insertEntry key value a.entries⟩

def erase (a : Assoc) (key : Text) : Assoc := ⟨a.entries.filter fun entry => entry.1 != key⟩

/-- The element at a key, which is there afterwards. -/
def fetch (a : Assoc) (key : Text) : Value × Assoc :=
  match a.get? key with
  | some v => (v, a)
  | none => (.unset, ⟨a.entries ++ [(key, .unset)]⟩)

/-- The values at the keys `1`, `2`, … -/
def ofPieces (pieces : List Text) : Assoc :=
  ⟨pieces.mapIdx fun i piece => (Text.ofNat (i + 1), .strnum piece)⟩

end Assoc

end Awk
