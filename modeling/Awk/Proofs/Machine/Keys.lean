import Awk.Machine.Basic
import Awk.Proofs.Action
import Mathlib.Data.List.Nodup

/-!
# Keys of arrays

The keys of an array stand in the order in which they came: what sets an element leaves a key that is there in its
place and puts a new one last, and what removes an element leaves the others in their order (`Assoc.keys_insert`,
`Assoc.keys_erase`).  So no key ever stands twice.  A store with only such arrays is tidy (`Store.Tidy`); so is the one
that a run begins with, and nothing that is done to a store makes it untidy.
-/

namespace Awk

/-! ### A single array -/

namespace Assoc

/-- No key stands twice. -/
def Tidy (a : Assoc) : Prop := a.keys.Nodup

variable {a : Assoc} {key : Text}

theorem contains_iff : a.contains key = true ↔ key ∈ a.keys := by
  unfold contains get? keys
  induction a.entries with
  | nil => simp
  | cons entry entries ih =>
    rw [List.lookup_cons, List.map_cons, List.mem_cons, ← ih]
    cases hkey : key == entry.1 with
    | true => simp [eq_of_beq hkey]
    | false => simp [ne_of_beq_false hkey]

/-- A key that is there keeps its place, and a new one comes last. -/
theorem keys_insert (a : Assoc) (key : Text) (v : Value) :
    (a.insert key v).keys = if key ∈ a.keys then a.keys else a.keys ++ [key] := by
  unfold insert keys
  induction a.entries with
  | nil => rfl
  | cons entry entries ih =>
    obtain ⟨k, old⟩ := entry
    unfold insertEntry
    split
    · rename_i hkey
      simp [hkey]
    · rename_i hkey
      rw [List.map_cons, ih]
      have hne : key ≠ k := fun h => hkey h.symm
      simp only [List.map_cons, List.mem_cons, hne, false_or]
      split <;> rfl

theorem keys_erase (a : Assoc) (key : Text) : (a.erase key).keys = a.keys.filter (· != key) :=
  (List.filter_map (f := Prod.fst) (p := (· != key))).symm

theorem keys_fetch (a : Assoc) (key : Text) :
    (a.fetch key).2.keys = if key ∈ a.keys then a.keys else a.keys ++ [key] := by
  have hcontains : a.contains key = true ↔ key ∈ a.keys := a.contains_iff
  unfold contains at hcontains
  unfold fetch
  cases hget : a.get? key with
  | some v =>
    rw [hget] at hcontains
    rw [if_pos (hcontains.1 rfl)]
  | none =>
    rw [hget] at hcontains
    have hkey : key ∉ a.keys := fun hmem => nomatch hcontains.2 hmem
    rw [if_neg hkey, keys, keys, List.map_append]
    rfl

/-! What is found at a key after a change. -/

theorem get?_insert (a : Assoc) (key : Text) (v : Value) (k : Text) :
    (a.insert key v).get? k = if key = k then some v else a.get? k := by
  unfold insert get?
  dsimp only
  induction a.entries with
  | nil =>
    rw [insertEntry, List.lookup_cons]
    grind
  | cons entry entries ih =>
    obtain ⟨first, old⟩ := entry
    unfold insertEntry
    split <;> rw [List.lookup_cons, List.lookup_cons]
    · grind
    · rw [ih]
      grind

theorem get?_erase (a : Assoc) (key k : Text) : (a.erase key).get? k = if key = k then none else a.get? k := by
  unfold erase get?
  dsimp only
  induction a.entries with
  | nil => simp
  | cons entry entries ih =>
    rw [List.filter_cons, List.lookup_cons]
    split
    · rw [List.lookup_cons, ih]
      grind
    · rw [ih]
      grind

theorem get?_fetch (a : Assoc) (key k : Text) :
    (a.fetch key).2.get? k = if key = k then some (a.fetch key).1 else a.get? k := by
  unfold fetch
  cases hget : a.get? key with
  | some v =>
    by_cases hkey : key = k
    · rw [if_pos hkey, ← hkey, hget]
    · rw [if_neg hkey]
  | none =>
    have hlast : (⟨a.entries ++ [(key, .unset)]⟩ : Assoc).get? k = (a.get? k).or (List.lookup k [(key, .unset)]) :=
      List.lookup_append
    dsimp only
    rw [hlast]
    by_cases hkey : key = k
    · rw [if_pos hkey, ← hkey, hget, List.lookup_cons_self, Option.none_or]
    · rw [if_neg hkey, List.lookup_cons, beq_eq_false_iff_ne.2 (Ne.symm hkey), List.lookup_nil, Option.or_none]

theorem keys_ofPieces (pieces : List Text) :
    (ofPieces pieces).keys = (List.range pieces.length).map fun i => Text.ofNat (i + 1) := by
  refine List.ext_getElem ?_ fun i hi hi' => ?_
  · simp [keys, ofPieces]
  · simp [keys, ofPieces]

/-- Numbers are written differently. -/
theorem ofNat_injective : Function.Injective Text.ofNat := by
  intro n m h
  have hread (n : Nat) : Nat.ofDigitChars 10 (Text.ofNat n) 0 = n :=
    Nat.ofDigitChars_toDigits (by decide) (by decide)
  rw [← hread n, h, hread m]

theorem tidy_empty : empty.Tidy := List.nodup_nil

theorem Tidy.append (h : a.Tidy) (hkey : key ∉ a.keys) : (a.keys ++ [key]).Nodup := by
  rw [← List.concat_eq_append]
  exact h.concat hkey

theorem Tidy.insert (h : a.Tidy) (key : Text) (v : Value) : (a.insert key v).Tidy := by
  unfold Tidy
  rw [keys_insert]
  split
  · exact h
  · exact h.append ‹_›

theorem Tidy.fetch (h : a.Tidy) (key : Text) : (a.fetch key).2.Tidy := by
  unfold Tidy
  rw [keys_fetch]
  split
  · exact h
  · exact h.append ‹_›

theorem Tidy.erase (h : a.Tidy) (key : Text) : (a.erase key).Tidy := by
  unfold Tidy
  rw [keys_erase]
  exact h.filter _

theorem tidy_ofPieces (pieces : List Text) : (ofPieces pieces).Tidy := by
  unfold Tidy
  rw [keys_ofPieces]
  exact List.nodup_range.map fun i j h => Nat.succ.inj (ofNat_injective h)

end Assoc

theorem Machine.tidy_inputArray (entries : List (Text × Text)) : (inputArray entries).Tidy := by
  have hfold {a : Assoc} (h : a.Tidy) : (entries.foldl (fun a entry => a.insert entry.1 (.strnum entry.2)) a).Tidy := by
    induction entries generalizing a with
    | nil => exact h
    | cons entry entries ih => exact ih (h.insert _ _)
  exact hfold Assoc.tidy_empty

/-! ### All arrays -/

namespace Store

/-- In no array does a key stand twice. -/
def Tidy (s : Store) : Prop := ∀ id, (s.array id).Tidy

variable {s s' : Store}

theorem array_setArray_self {id : Nat} (h : id < s.arrays.size) (a : Assoc) :
    (s.setArray id a).array id = a := by
  unfold setArray array
  rw [Array.getElem?_modify, if_pos rfl, Array.getElem?_eq_getElem h]
  rfl

/-- Only the arrays matter. -/
theorem Tidy.of_arrays (h : s.Tidy) (harrays : s'.arrays = s.arrays) : s'.Tidy := by
  intro id
  unfold array
  rw [harrays]
  exact h id

theorem arrays_bind (s : Store) (slot : Slot) (b : Binding) : (s.bind slot b).arrays = s.arrays := by
  unfold bind
  split <;> rfl

theorem Tidy.bind (h : s.Tidy) (slot : Slot) (b : Binding) : (s.bind slot b).Tidy := h.of_arrays (arrays_bind s slot b)

theorem Tidy.setArray (h : s.Tidy) (id : Nat) {a : Assoc} (ha : a.Tidy) : (s.setArray id a).Tidy := by
  intro other
  unfold Store.setArray array
  rw [Array.getElem?_modify]
  split
  · cases s.arrays[other]? with
    | none => exact Assoc.tidy_empty
    | some old => exact ha
  · exact h other

/-- What has not been made yet counts as empty. -/
theorem array_newArray (s : Store) (id : Nat) : s.newArray.2.array id = s.array id := by
  unfold newArray array
  rw [Array.getElem?_push]
  split
  · rename_i hnew
    rw [Array.getElem?_eq_none (Nat.le_of_eq hnew.symm)]
    rfl
  · rfl

theorem Tidy.newArray (h : s.Tidy) : s.newArray.2.Tidy := fun id => s.array_newArray id ▸ h id

/-- An array that is found or made for a name leaves the others as they are, or is the last one. -/
theorem arrays_arrayAtFrom {fuel : Nat} {passed : Option Slot} {id : Nat}
    (h : s.arrayAtFrom fuel passed = .ok (id, s')) :
    s'.arrays = s.arrays ∨ s'.arrays = s.arrays.push .empty := by
  induction fuel generalizing passed id s' with
  | zero =>
    cases h
    exact .inr rfl
  | succ fuel ih =>
    cases passed with
    | none =>
      cases h
      exact .inr rfl
    | some slot =>
      unfold arrayAtFrom at h
      split at h
      · cases h
        exact .inl rfl
      · cases h
      · obtain ⟨⟨id', s₁⟩, hrest, h⟩ := Action.bind_eq_ok.1 h
        cases h
        rw [arrays_bind]
        exact ih hrest
      · cases h
        exact .inr (arrays_bind ..)

theorem Tidy.arrayAt (h : s.Tidy) {slot : Slot} {id : Nat} (hat : s.arrayAt slot = .ok (id, s')) : s'.Tidy := by
  rcases arrays_arrayAtFrom hat with harrays | harrays
  · exact h.of_arrays harrays
  · exact h.newArray.of_arrays harrays

theorem Tidy.addGlobalArray (h : s.Tidy) (name : Text) {a : Assoc} (ha : a.Tidy) : (s.addGlobalArray name a).Tidy :=
  (h.newArray.setArray s.newArray.1 ha).bind _ _

end Store

theorem Machine.tidy_start (world : World) (functions : List Function) (environment : List (Text × Text))
    (words : List Text) : (start world functions environment words).store.Tidy := by
  have hnone : (⟨predefined, #[], #[]⟩ : Store).Tidy := fun id => Assoc.tidy_empty
  have henvironment := hnone.addGlobalArray "ENVIRON".toList (tidy_inputArray environment)
  exact (henvironment.addGlobalArray "ARGV".toList (tidy_inputArray _)).bind _ _

end Awk
