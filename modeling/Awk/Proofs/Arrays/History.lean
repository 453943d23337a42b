import Awk.Proofs.Machine.Keys
import Mathlib.Data.List.Induction

/-!
# The history of an array

What an array holds is told from what has been done to it (`Assoc.Operation`): a key is there if it has been looked up or
set, and not been removed since (`Assoc.Held`); it has come with the first operation of this kind since it was not there
(`Assoc.IntroducedAt`); and its value is the last one that it has been set to since (`Assoc.LastSet`).  Each of these is a
condition on some operation and on those that came later, and so it is known how one more operation changes it
(`Assoc.since_concat`).  The keys stand in the order in which they have come (`Assoc.insertion_ordered`).
-/

namespace Awk.Assoc

/-- What can be done to an array. -/
inductive Operation where
  | get (key : Text)
  | set (key : Text) (v : Value)
  | contains (key : Text)
  | delete (key : Text)
  | clear
  deriving DecidableEq, Repr

/-- The array after an operation. -/
def perform (a : Assoc) : Operation → Assoc
  | .get key => (a.fetch key).2
  | .set key v => a.insert key v
  | .contains _ => a
  | .delete key => a.erase key
  | .clear => empty

/-- The array after operations on the empty array. -/
def after (ops : List Operation) : Assoc := ops.foldl perform empty

/-! ### Histories -/

namespace Operation

/-- The key that is in the array after the operation, whether or not it was before. -/
def brought? : Operation → Option Text
  | get key | set key _ => some key
  | _ => none

/-- The key is not in the array after the operation. -/
def removes (key : Text) : Operation → Bool
  | delete k => k == key
  | clear => true
  | _ => false

/-- The value that the key is set to. -/
def given? (key : Text) : Operation → Option Value
  | set k v => if k = key then some v else none
  | _ => none

end Operation

/-- Some operation had the first property, with what came before it, and none since has the second. -/
def Since (p : List Operation → Operation → Prop) (q : Operation → Bool) (ops : List Operation) : Prop :=
  ∃ before op later, ops = before ++ op :: later ∧ p before op ∧ ∀ o ∈ later, q o = false

/-- The key has been set or looked up, and not been removed since. -/
def Held (key : Text) : List Operation → Prop :=
  Since (fun _ op => op.brought? = some key) (Operation.removes key)

/-- The operation with this number has brought the key, which was not held before, and it has not been removed since. -/
def IntroducedAt (key : Text) (n : Nat) : List Operation → Prop :=
  Since (fun before op => before.length = n ∧ op.brought? = some key ∧ ¬Held key before) (Operation.removes key)

/-- The key has been set to the value, and neither been set again nor removed since. -/
def LastSet (key : Text) (v : Value) : List Operation → Prop :=
  Since (fun _ op => op = .set key v) (fun op => (op.given? key).isSome || op.removes key)

variable {a : Assoc} {ops : List Operation} {op : Operation} {key : Text} {v : Value} {n n' : Nat}

theorem not_since_nil (p : List Operation → Operation → Prop) (q : Operation → Bool) : ¬Since p q [] := by
  rintro ⟨before, op, later, h, -⟩
  cases before <;> cases h

/-- One more operation: it has the first property, or it has not the second one and all was so before. -/
theorem since_concat {p : List Operation → Operation → Prop} {q : Operation → Bool} :
    Since p q (ops ++ [op]) ↔ p ops op ∨ Since p q ops ∧ q op = false := by
  constructor
  · rintro ⟨before, o, later, h, hp, hq⟩
    rcases List.eq_nil_or_concat' later with rfl | ⟨init, last, rfl⟩
    · obtain ⟨rfl, hlast⟩ := List.append_inj' h rfl
      cases hlast
      exact .inl hp
    · rw [← List.cons_append, ← List.append_assoc] at h
      obtain ⟨rfl, hlast⟩ := List.append_inj' h rfl
      cases hlast
      rw [List.forall_mem_append, List.forall_mem_singleton] at hq
      exact .inr ⟨⟨before, o, init, rfl, hp, hq.1⟩, hq.2⟩
  · rintro (hp | ⟨⟨before, o, later, rfl, hp, hq⟩, hop⟩)
    · exact ⟨ops, op, [], rfl, hp, by simp⟩
    · refine ⟨before, o, later ++ [op], by simp, hp, ?_⟩
      rw [List.forall_mem_append, List.forall_mem_singleton]
      exact ⟨hq, hop⟩

theorem held_concat : Held key (ops ++ [op]) ↔ op.brought? = some key ∨ Held key ops ∧ op.removes key = false :=
  since_concat

theorem introducedAt_concat :
    IntroducedAt key n (ops ++ [op]) ↔
      (ops.length = n ∧ op.brought? = some key ∧ ¬Held key ops) ∨ IntroducedAt key n ops ∧ op.removes key = false :=
  since_concat

theorem lastSet_concat :
    LastSet key v (ops ++ [op]) ↔
      op = .set key v ∨ LastSet key v ops ∧ ((op.given? key).isSome || op.removes key) = false :=
  since_concat

theorem IntroducedAt.held (h : IntroducedAt key n ops) : Held key ops := by
  obtain ⟨before, op, later, hops, ⟨-, hbrought, -⟩, hkept⟩ := h
  exact ⟨before, op, later, hops, hbrought, hkept⟩

theorem IntroducedAt.lt_length (h : IntroducedAt key n ops) : n < ops.length := by
  obtain ⟨before, op, later, rfl, ⟨rfl, -⟩, -⟩ := h
  simp

theorem Operation.removes_of_brought? (h : op.brought? = some key) : op.removes key = false := by
  cases op with
  | delete | clear => cases h
  | _ => rfl

/-- A key that is held has come at some time. -/
theorem Held.introducedAt (h : Held key ops) : ∃ n, IntroducedAt key n ops := by
  induction ops using List.reverseRecOn with
  | nil => exact absurd h (not_since_nil _ _)
  | append_singleton ops op ih =>
    by_cases hold : Held key ops ∧ op.removes key = false
    · obtain ⟨n, hn⟩ := ih hold.1
      exact ⟨n, introducedAt_concat.2 (.inr ⟨hn, hold.2⟩)⟩
    · have hbrought := (held_concat.1 h).resolve_right hold
      have hnew : ¬Held key ops := fun hheld => hold ⟨hheld, Operation.removes_of_brought? hbrought⟩
      exact ⟨ops.length, introducedAt_concat.2 (.inl ⟨rfl, hbrought, hnew⟩)⟩

theorem IntroducedAt.unique (h : IntroducedAt key n ops) (h' : IntroducedAt key n' ops) : n = n' := by
  induction ops using List.reverseRecOn with
  | nil => exact absurd h (not_since_nil _ _)
  | append_singleton ops op ih =>
    rcases introducedAt_concat.1 h with ⟨hn, -, hnew⟩ | ⟨hold, -⟩
    · rcases introducedAt_concat.1 h' with ⟨hn', -⟩ | ⟨hold', -⟩
      · exact hn.symm.trans hn'
      · exact absurd hold'.held hnew
    · rcases introducedAt_concat.1 h' with ⟨-, -, hnew'⟩ | ⟨hold', -⟩
      · exact absurd hold.held hnew'
      · exact ih hold hold'

/-! ### Keys -/

theorem after_concat (ops : List Operation) (op : Operation) : after (ops ++ [op]) = (after ops).perform op :=
  List.foldl_concat ..

/-- The key that an operation brings, if it is not there. -/
def newKey? (a : Assoc) (op : Operation) : Option Text := op.brought?.filter fun key => key ∉ a.keys

theorem newKey?_eq_some : a.newKey? op = some key ↔ op.brought? = some key ∧ key ∉ a.keys := by
  rw [newKey?, Option.filter_eq_some_iff, decide_eq_true_iff]

/-- An operation removes keys, without a change to the order of the others, and then puts a new key last. -/
theorem keys_perform (a : Assoc) (op : Operation) :
    (a.perform op).keys = a.keys.filter (fun key => !op.removes key) ++ (a.newKey? op).toList := by
  have hput (key : Text) : (if key ∈ a.keys then a.keys else a.keys ++ [key]) =
      a.keys ++ ((some key).filter fun key => key ∉ a.keys).toList := by
    by_cases hkey : key ∈ a.keys <;> simp [Option.filter, hkey]
  cases op with
  | get key => simp [perform, keys_fetch, hput, Operation.removes, newKey?, Operation.brought?]
  | set key v => simp [perform, keys_insert, hput, Operation.removes, newKey?, Operation.brought?]
  | contains key => simp [perform, Operation.removes, newKey?, Operation.brought?]
  | delete key =>
    simp only [perform, keys_erase, Operation.removes, newKey?, Operation.brought?, Option.filter_none,
      Option.toList_none, List.append_nil]
    exact List.filter_congr fun k _ => by rw [bne, Bool.beq_comm]
  | clear => simp [perform, empty, keys, Operation.removes, newKey?, Operation.brought?]

theorem tidy_perform (h : a.Tidy) (op : Operation) : (a.perform op).Tidy := by
  cases op with
  | get key => exact h.fetch key
  | set key v => exact h.insert key v
  | contains key => exact h
  | delete key => exact h.erase key
  | clear => exact tidy_empty

theorem tidy_after (ops : List Operation) : (after ops).Tidy := by
  induction ops using List.reverseRecOn with
  | nil => exact tidy_empty
  | append_singleton ops op ih =>
    rw [after_concat]
    exact tidy_perform ih op

theorem mem_keys_after : key ∈ (after ops).keys ↔ Held key ops := by
  induction ops using List.reverseRecOn with
  | nil => exact iff_of_false List.not_mem_nil (not_since_nil _ _)
  | append_singleton ops op ih =>
    rw [after_concat, keys_perform, List.mem_append, List.mem_filter, Bool.not_eq_true', Option.mem_toList,
      newKey?_eq_some, ih, held_concat]
    constructor
    · rintro (hold | ⟨hbrought, -⟩)
      · exact .inr hold
      · exact .inl hbrought
    · rintro (hbrought | hold)
      · by_cases hheld : Held key ops
        · exact .inl ⟨hheld, Operation.removes_of_brought? hbrought⟩
        · exact .inr ⟨hbrought, hheld⟩
      · exact .inl hold

/-- The keys stand in the order in which they have come. -/
theorem pairwise_keys_after (ops : List Operation) :
    (after ops).keys.Pairwise fun key key' =>
      ∃ n n', IntroducedAt key n ops ∧ IntroducedAt key' n' ops ∧ n < n' := by
  induction ops using List.reverseRecOn with
  | nil => exact List.Pairwise.nil
  | append_singleton ops op ih =>
    rw [after_concat, keys_perform, List.pairwise_append]
    refine ⟨?_, ?_, fun key hkey key' hkey' => ?_⟩
    · -- Neither of two keys that stay is introduced anew.
      refine (ih.filter _).imp_of_mem fun hkey hkey' => ?_
      rintro ⟨n, n', hn, hn', hlt⟩
      rw [List.mem_filter, Bool.not_eq_true'] at hkey hkey'
      exact ⟨n, n', introducedAt_concat.2 (.inr ⟨hn, hkey.2⟩), introducedAt_concat.2 (.inr ⟨hn', hkey'.2⟩), hlt⟩
    · cases (after ops).newKey? op with
      | none => exact List.Pairwise.nil
      | some key => exact List.pairwise_singleton _ key
    · rw [List.mem_filter, Bool.not_eq_true', mem_keys_after] at hkey
      rw [Option.mem_toList, newKey?_eq_some, mem_keys_after] at hkey'
      obtain ⟨n, hn⟩ := hkey.1.introducedAt
      exact ⟨n, ops.length, introducedAt_concat.2 (.inr ⟨hn, hkey.2⟩), introducedAt_concat.2 (.inl ⟨rfl, hkey'⟩),
        hn.lt_length⟩

/-! ### Values -/

theorem fst_fetch (a : Assoc) (key : Text) : (a.fetch key).1 = (a.get? key).getD .unset := by
  unfold fetch
  cases a.get? key <;> rfl

/-- What is there is found, and the array stays as it is. -/
theorem fetch_of_mem (h : key ∈ a.keys) : (a.fetch key).2 = a := by
  rw [← contains_iff, contains, Option.isSome_iff_exists] at h
  obtain ⟨v, hv⟩ := h
  rw [fetch, hv]

/-- What is not there comes last and unset. -/
theorem fetch_of_notMem (h : key ∉ a.keys) : a.fetch key = (.unset, ⟨a.entries ++ [(key, .unset)]⟩) := by
  rw [← contains_iff, contains, Option.not_isSome_iff_eq_none] at h
  rw [fetch, h]

/-- What is found at a key after an operation on an array. -/
theorem getD_perform (a : Assoc) (op : Operation) (key : Text) :
    ((a.perform op).get? key).getD .unset =
      (op.given? key).getD (if op.removes key then .unset else (a.get? key).getD .unset) := by
  cases op with
  | get k =>
    simp only [perform, get?_fetch, Operation.given?, Operation.removes]
    split
    · rename_i hkey
      rw [fst_fetch, hkey]
      rfl
    · rfl
  | set k v =>
    simp only [perform, get?_insert, Operation.given?, Operation.removes]
    split <;> rfl
  | contains k => rfl
  | delete k =>
    simp only [perform, get?_erase, Operation.given?, Operation.removes, beq_iff_eq]
    split <;> rfl
  | clear => rfl

theorem Operation.given?_eq_some : op.given? key = some v ↔ op = .set key v := by
  cases op with
  | set k w =>
    rw [given?, Option.ite_none_right_eq_some, Option.some.injEq, set.injEq]
  | _ => exact iff_of_false nofun nofun

/-- The value at a key is the last one that it was set to, if it has been set since it came. -/
theorem getD_after :
    ((after ops).get? key).getD .unset = v ↔ LastSet key v ops ∨ v = .unset ∧ ∀ w, ¬LastSet key w ops := by
  induction ops using List.reverseRecOn generalizing v with
  | nil =>
    have hnone (w : Value) : ¬LastSet key w [] := not_since_nil _ _
    simp only [hnone, false_or, not_false_eq_true, implies_true, and_true]
    exact eq_comm
  | append_singleton ops op ih =>
    rw [after_concat, getD_perform]
    simp only [lastSet_concat, ← Operation.given?_eq_some]
    cases op.given? key with
    | some w => simp
    | none =>
      cases op.removes key with
      | true => simp [eq_comm]
      | false => simpa using ih

/-! ### All together -/

/-- After any operations on the empty array, no key stands twice; the keys are those that have been set or looked up and
not been removed since, in the order of the operations that have brought them; there are as many elements as keys; what
is set or looked up keeps its place if it is there, and a key that is looked up comes last and unset if it is not; asking
for a key changes nothing; and what is found is the last value that the key has been set to since it came. -/
theorem insertion_ordered (ops : List Operation) :
    (after ops).keys.Nodup ∧
      (∀ key, key ∈ (after ops).keys ↔ Held key ops) ∧
      (∀ key ∈ (after ops).keys, ∃! n, IntroducedAt key n ops) ∧
      ((after ops).keys.Pairwise fun key key' =>
        ∀ n n', IntroducedAt key n ops → IntroducedAt key' n' ops → n < n') ∧
      (after ops).size = (after ops).keys.length ∧
      (∀ key ∈ (after ops).keys,
        (∀ v, (after (ops ++ [.set key v])).keys = (after ops).keys) ∧ after (ops ++ [.get key]) = after ops) ∧
      (∀ key ∉ (after ops).keys,
        (∀ v, (after (ops ++ [.set key v])).keys = (after ops).keys ++ [key]) ∧
          (after ops).fetch key = (.unset, ⟨(after ops).entries ++ [(key, .unset)]⟩)) ∧
      (∀ key, ((after ops).contains key = true ↔ key ∈ (after ops).keys) ∧
        after (ops ++ [.contains key]) = after ops) ∧
      ∀ key v, ((after ops).fetch key).1 = v ↔ LastSet key v ops ∨ v = .unset ∧ ∀ w, ¬LastSet key w ops := by
  refine ⟨tidy_after ops, fun key => mem_keys_after, fun key hkey => ?_, ?_, (List.length_map _).symm,
    fun key hkey => ⟨fun v => ?_, ?_⟩, fun key hkey => ⟨fun v => ?_, ?_⟩, fun key => ⟨contains_iff, ?_⟩, fun key v => ?_⟩
  · obtain ⟨n, hn⟩ := (mem_keys_after.1 hkey).introducedAt
    exact ⟨n, hn, fun n' hn' => hn'.unique hn⟩
  · refine (pairwise_keys_after ops).imp ?_
    rintro key key' ⟨i, i', hi, hi', hlt⟩ n n' hn hn'
    rw [hn.unique hi, hn'.unique hi']
    exact hlt
  · rw [after_concat, perform, keys_insert, if_pos hkey]
  · rw [after_concat, perform, fetch_of_mem hkey]
  · rw [after_concat, perform, keys_insert, if_neg hkey]
  · exact fetch_of_notMem hkey
  · rw [after_concat, perform]
  · rw [fst_fetch, getD_after]

example : (after [.get ['a'], .get ['b'], .set ['a'] (.str []), .delete ['a'], .get ['a']]).keys = [['b'], ['a']] := by
  decide

end Awk.Assoc
