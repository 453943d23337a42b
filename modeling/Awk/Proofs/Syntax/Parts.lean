import Awk.Proofs.Syntax.Parser.Program

/-!
# Parts of well-formed programs

Folding and sorting keep the names and the parameters of the functions, so the calls that the parser has accepted are
those that the functions of the parts take (`Accepted`), and all parts of a program that has been loaded are well
formed and folded (`wellFormed_of_loadProgram`).
-/

namespace Awk

/-- The functions take the calls that are accepted. -/
def Accepted (functions : List Function) : Accepts := fun token count =>
  ∃ f, functions.find? (fun f => f.name == token.text) = some f ∧ count ≤ f.params.length

structure Parts.WellFormed (accepts : Accepts) (p : Parts) : Prop where
  begins : ∀ s ∈ p.begins, s.WellFormed accepts true
  selectors : ∀ r ∈ p.rules, ∀ s ∈ r.selector, s.WellFormed accepts true
  actions : ∀ r ∈ p.rules, ∀ s ∈ r.action, s.WellFormed accepts true
  ends : ∀ s ∈ p.ends, s.WellFormed accepts true
  functions : ∀ f ∈ p.functions, f.body.WellFormed accepts true

def Function.signature (f : Function) : Text × Nat := (f.name, f.params.length)

theorem accepted_of_defined {functions : List Function} :
    (Defined (functions.map Function.signature)).Implies (Accepted functions) := by
  rintro token count ⟨arity, hlookup, hcount⟩
  induction functions with
  | nil => cases hlookup
  | cons f functions ih =>
    rw [List.map_cons, Function.signature, List.lookup_cons] at hlookup
    unfold Accepted
    rw [List.find?_cons]
    by_cases hname : f.name = token.text
    · rw [hname, beq_self_eq_true] at hlookup
      cases hlookup
      refine ⟨f, ?_, hcount⟩
      rw [hname, beq_self_eq_true]
    · rw [beq_false_of_ne (Ne.symm hname)] at hlookup
      rw [beq_false_of_ne hname]
      exact ih hlookup

/-! ### Folding -/

theorem signature?_prune {item item' : Item} (h : item.prune = .ok item') : item'.signature? = item.signature? := by
  cases item with
  | begin span body =>
    obtain ⟨body', -, h⟩ := Action.bind_eq_ok.1 h
    cases h
    rfl
  | «end» span body =>
    obtain ⟨body', -, h⟩ := Action.bind_eq_ok.1 h
    cases h
    rfl
  | rule span selector action =>
    cases selector with
    | none =>
      simp only [Item.prune, Action.bind_eq_ok] at h
      obtain ⟨_, -, action', -, h⟩ := h
      cases h
      rfl
    | some s =>
      simp only [Item.prune, Action.bind_eq_ok] at h
      obtain ⟨_, -, _, -, action', -, h⟩ := h
      cases h
      rfl
  | function span name params body =>
    obtain ⟨body', -, h⟩ := Action.bind_eq_ok.1 h
    cases h
    rfl

theorem signatures_mapM {items items' : List Item} (h : items.mapM Item.prune = .ok items') :
    items'.filterMap Item.signature? = items.filterMap Item.signature? := by
  induction items generalizing items' with
  | nil =>
    cases h
    rfl
  | cons item items ih =>
    rw [List.mapM_cons] at h
    obtain ⟨item', hitem, h⟩ := Action.bind_eq_ok.1 h
    obtain ⟨rest, hrest, h⟩ := Action.bind_eq_ok.1 h
    cases h
    rw [List.filterMap_cons, List.filterMap_cons, signature?_prune hitem, ih hrest]

theorem Program.signatures_prune {p p' : Program} (h : p.prune = .ok p') : p'.signatures = p.signatures := by
  obtain ⟨items', hitems, h⟩ := Action.bind_eq_ok.1 h
  cases h
  exact signatures_mapM hitems

/-! ### Sorting -/

namespace Parts

theorem signatures_ofItems (items : List Item) :
    (ofItems items).functions.map Function.signature = items.filterMap Item.signature? := by
  induction items with
  | nil => rfl
  | cons item items ih =>
    cases item with
    | function span name params body =>
      rw [ofItems, List.map_cons, ih, Function.signature, List.length_map]
      rfl
    | _ => exact ih

theorem wellFormed_ofItems {accepts : Accepts} {items : List Item} (h : ∀ item ∈ items, item.WellFormed accepts true) :
    (ofItems items).WellFormed accepts := by
  induction items with
  | nil =>
    exact ⟨List.forall_mem_nil _, List.forall_mem_nil _, List.forall_mem_nil _, List.forall_mem_nil _,
      List.forall_mem_nil _⟩
  | cons item items ih =>
    obtain ⟨hitem, hitems⟩ := List.forall_mem_cons.1 h
    obtain ⟨hbegins, hselectors, hactions, hends, hfunctions⟩ := ih hitems
    cases item with
    | begin span body => exact ⟨List.forall_mem_cons.2 ⟨hitem, hbegins⟩, hselectors, hactions, hends, hfunctions⟩
    | «end» span body => exact ⟨hbegins, hselectors, hactions, List.forall_mem_cons.2 ⟨hitem, hends⟩, hfunctions⟩
    | rule span selector action =>
      refine ⟨hbegins, List.forall_mem_cons.2 ⟨hitem.1, hselectors⟩, List.forall_mem_cons.2 ⟨?_, hactions⟩, hends,
        hfunctions⟩
      exact fun s hs => (hitem.2 s hs).2
    | function span name params body =>
      exact ⟨hbegins, hselectors, hactions, hends, List.forall_mem_cons.2 ⟨hitem, hfunctions⟩⟩

end Parts

/-! ### Loading -/

theorem wellFormed_of_prune {source : Text} {p p' : Program} (hparse : parseProgram source = .ok p)
    (hprune : p.prune = .ok p') : p'.WellFormed (Accepted (Parts.ofItems p'.items).functions) true := by
  have hwell := (wellFormed_of_parseProgram hparse).prune hprune
  have haccepts : (Defined p.signatures).Implies (Accepted (Parts.ofItems p'.items).functions) := by
    rw [← Program.signatures_prune hprune, Program.signatures, ← Parts.signatures_ofItems]
    exact accepted_of_defined
  exact fun item hitem => (hwell item hitem).mono haccepts

theorem exists_of_loadProgram {source : Text} {parts : Parts} (h : loadProgram source = .ok parts) :
    ∃ p p', parseProgram source = .ok p ∧ p.prune = .ok p' ∧ Parts.ofItems p'.items = parts := by
  unfold loadProgram at h
  split at h
  · cases h
  · rename_i p hparse
    split at h
    · cases h
    · rename_i p' hprune
      cases h
      exact ⟨p, p', hparse, hprune, rfl⟩

theorem wellFormed_of_loadProgram {source : Text} {parts : Parts} (h : loadProgram source = .ok parts) :
    parts.WellFormed (Accepted parts.functions) := by
  obtain ⟨p, p', hparse, hprune, rfl⟩ := exists_of_loadProgram h
  exact Parts.wellFormed_ofItems (wellFormed_of_prune hparse hprune)

end Awk
