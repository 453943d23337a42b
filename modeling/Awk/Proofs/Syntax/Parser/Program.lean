import Awk.Proofs.Syntax.Parser.Stmt
import Awk.Syntax.Parts

/-!
# What the parser gives

Every program that the parser gives is well formed, where the calls accepted are those of a function that the program
defines with at least as many parameters (`wellFormed_of_parseProgram`).  The parser keeps the calls and the functions
on record and compares them at the end; what has to be shown is that the record is complete at that point (`items_ok`,
`checkCalls_ok`).
-/

namespace Awk

/-- A function with its number of parameters. -/
def Item.signature? : Item → Option (Text × Nat)
  | .function _ name params _ => some (name.text, params.length)
  | _ => none

def Program.signatures (p : Program) : List (Text × Nat) := p.items.filterMap Item.signature?

/-- A call is accepted if the first function of its name takes that many arguments. -/
def Defined (signatures : List (Text × Nat)) : Accepts := fun token count =>
  ∃ arity, signatures.lookup token.text = some arity ∧ count ≤ arity

namespace Parser

variable {fuel n : Nat} {s s' s₁ : ParserState}

abbrev GoodItem (accepts : Accepts) (item : Item) : Prop := item.WellFormed accepts false

/-- As `After`, but functions have been defined. -/
structure Defines (s s' : ParserState) (defined : List (Text × Nat)) : Prop where
  tidy : Tidy s'
  calls : s.calls ⊆ s'.calls
  functions : s'.functions = s.functions ++ defined

theorem After.defines (h : After s s') : Defines s s' [] :=
  ⟨h.tidy, h.calls, by rw [h.functions, List.append_nil]⟩

theorem Defines.trans {defined defined' : List (Text × Nat)} (h : Defines s s₁ defined)
    (h' : Defines s₁ s' defined') : Defines s s' (defined ++ defined') :=
  ⟨h'.tidy, List.Subset.trans h.calls h'.calls, by rw [h'.functions, h.functions, List.append_assoc]⟩

theorem gives_action (ht : Tidy s) {inSpecial : Bool} : Gives s (action fuel inSpecial) GoodBlock :=
  (stmtSpec fuel).block _ ht

theorem moreParams_ok {function : Text} (ht : Tidy s) {seen params : List Token}
    (h : (moreParams function fuel seen).run s = .ok (params, s')) : After s s' := by
  induction fuel generalizing s seen with
  | zero =>
    obtain ⟨_, _, -, h⟩ := bind_ok.1 h
    exact absurd h failAt_ok
  | succ fuel ih =>
    obtain ⟨_, s₁, hskip, h⟩ := bind_ok.1 h
    obtain ⟨token, s₂, htoken, h⟩ := bind_ok.1 h
    have hafter₁ := skipNewlines_ok ht hskip
    have hafter₂ := hafter₁.trans (expect_ok htoken).2.2
    obtain ⟨-, h⟩ := unless_ok failAt_ok h
    obtain ⟨-, h⟩ := unless_ok failAt_ok h
    obtain ⟨b, s₃, haccept, h⟩ := bind_ok.1 h
    have hafter₃ := hafter₂.trans (accept_ok hafter₂.tidy haccept)
    split at h
    · exact hafter₃.trans (ih hafter₃.tidy h)
    · obtain ⟨-, rfl⟩ := pure_ok.1 h
      exact hafter₃

/-- Whether a function has parameters or not, the parser goes on in the same way. -/
theorem params_ok {function : Text} (ht : Tidy s) {α : Type} {next : List Token → Parser α} {a : α} {p : Prop}
    [Decidable p] (h : (if p then pure [] >>= next else moreParams function fuel [] >>= next).run s = .ok (a, s')) :
    ∃ params s₁, After s s₁ ∧ (next params).run s₁ = .ok (a, s') := by
  split at h
  · simp only [bind_ok, pure_ok] at h
    obtain ⟨params, s₁, ⟨rfl, rfl⟩, h⟩ := h
    exact ⟨[], s₁, .refl ht, h⟩
  · obtain ⟨params, s₁, hparams, h⟩ := bind_ok.1 h
    exact ⟨params, s₁, moreParams_ok ht hparams, h⟩

theorem defining (ht : Tidy s) (signature : Text × Nat) :
    Defines s { s with functions := s.functions ++ [signature] } [signature] :=
  ⟨ht, List.Subset.refl _, rfl⟩

theorem functionItem_ok {item : Item} (h : (functionItem fuel).run s = .ok (item, s')) :
    Defines s s' item.signature?.toList ∧ GoodItem (Recorded s'.calls) item := by
  simp only [functionItem, bind_ok, current_ok] at h
  obtain ⟨start, s₁, hstart, nameToken, s₂, ⟨rfl, rfl⟩, h⟩ := h
  have hafter₂ := (advance_ok hstart).2
  split at h
  · simp only [bind_ok, get_ok] at h
    obtain ⟨_, s₃, hname, _, s₄, ⟨rfl, rfl⟩, h⟩ := h
    have hafter₃ := hafter₂.trans (advance_ok hname).2
    obtain ⟨-, h⟩ := unless_ok failAt_ok h
    simp only [bind_ok, kind_ok] at h
    obtain ⟨_, s₅, hopen, k, s₆, ⟨rfl, rfl⟩, h⟩ := h
    have hafter₅ := hafter₃.trans (expect_ok hopen).2.2
    obtain ⟨params, s₇, hafter₇, h⟩ := params_ok hafter₅.tidy h
    simp only [bind_ok, modify_ok, pure_ok] at h
    obtain ⟨_, s₈, hclose, _, _, rfl, _, t₁, hskip, body, t₂, hbody, span, t₃, hspan, rfl, rfl⟩ := h
    have hafter₈ := hafter₅.trans (hafter₇.trans (expect_ok hclose).2.2)
    have hdefines := defining hafter₈.tidy (s₂.current.text, params.length)
    have hskipped := skipNewlines_ok hdefines.tidy hskip
    obtain ⟨hdone, -, hgood⟩ := (stmtSpec fuel).block _ hskipped.tidy hbody
    cases spanFrom_ok hspan
    exact ⟨hafter₈.defines.trans (hdefines.trans (hskipped.trans hdone).defines), hgood⟩
  · obtain ⟨_, _, hfail, -⟩ := bind_ok.1 h
    exact absurd hfail failExpecting_ok

theorem gives_selector (ht : Tidy s) :
    Gives s (selector fuel) fun accepts chosen => chosen.WellFormed accepts false := by
  intro chosen s' h
  simp only [selector, bind_ok, current_ok] at h
  obtain ⟨start, s₁, ⟨rfl, rfl⟩, first, s₂, hfirst, b, s₃, haccept, h⟩ := h
  obtain ⟨hafter₂, hgood₂⟩ := gives_expr fuel ht hfirst
  have hafter₃ := accept_ok hafter₂.tidy haccept
  split at h
  · simp only [bind_ok, pure_ok] at h
    obtain ⟨_, s₄, hskip, last, s₅, hlast, span, s₆, hspan, rfl, rfl⟩ := h
    have hafter₄ := hafter₃.trans (skipNewlines_ok hafter₃.tidy hskip)
    obtain ⟨hafter₅, hgood₅⟩ := gives_expr fuel hafter₄.tidy hlast
    cases spanFrom_ok hspan
    exact ⟨hafter₂.trans (hafter₄.trans hafter₅), hgood₂.after (hafter₄.trans hafter₅), hgood₅⟩
  · simp only [bind_ok, pure_ok] at h
    obtain ⟨span, s₄, hspan, rfl, rfl⟩ := h
    cases spanFrom_ok hspan
    exact ⟨hafter₂.trans hafter₃, hgood₂.after hafter₃⟩

theorem item_ok (ht : Tidy s) {found : Item} (h : (item fuel).run s = .ok (found, s')) :
    Defines s s' found.signature?.toList ∧ GoodItem (Recorded s'.calls) found := by
  simp only [item, bind_ok, current_ok] at h
  obtain ⟨start, s₁, ⟨rfl, rfl⟩, h⟩ := h
  -- Special rules, functions, an action alone, and a selector with or without an action.
  split at h
  · simp only [bind_ok, pure_ok] at h
    obtain ⟨_, s₂, hbegin, body, s₃, hbody, span, s₄, hspan, rfl, rfl⟩ := h
    have hafter₂ := (advance_ok hbegin).2
    obtain ⟨hafter₃, -, hgood⟩ := gives_action hafter₂.tidy hbody
    cases spanFrom_ok hspan
    exact ⟨(hafter₂.trans hafter₃).defines, hgood⟩
  · simp only [bind_ok, pure_ok] at h
    obtain ⟨_, s₂, hend, body, s₃, hbody, span, s₄, hspan, rfl, rfl⟩ := h
    have hafter₂ := (advance_ok hend).2
    obtain ⟨hafter₃, -, hgood⟩ := gives_action hafter₂.tidy hbody
    cases spanFrom_ok hspan
    exact ⟨(hafter₂.trans hafter₃).defines, hgood⟩
  · exact functionItem_ok h
  · simp only [bind_ok, pure_ok] at h
    obtain ⟨body, s₂, hbody, span, s₃, hspan, rfl, rfl⟩ := h
    obtain ⟨hafter, hgood⟩ := gives_action ht hbody
    cases spanFrom_ok hspan
    exact ⟨hafter.defines, forall_mem_none, forall_mem_some hgood⟩
  · simp only [bind_ok, kind_ok] at h
    obtain ⟨chosen, s₂, hchosen, k, s₃, ⟨rfl, rfl⟩, h⟩ := h
    obtain ⟨hafter₂, hgood₂⟩ := gives_selector ht hchosen
    split at h
    · simp only [bind_ok, pure_ok] at h
      obtain ⟨body, s₃, hbody, span, s₄, hspan, rfl, rfl⟩ := h
      obtain ⟨hafter₃, hgood₃⟩ := gives_action hafter₂.tidy hbody
      cases spanFrom_ok hspan
      exact ⟨(hafter₂.trans hafter₃).defines, forall_mem_some (hgood₂.mono hafter₃.implies), forall_mem_some hgood₃⟩
    · obtain ⟨b, s₃, hend, h⟩ := bind_ok.1 h
      cases atTerminator_ok hend
      obtain ⟨-, h⟩ := unless_ok failExpecting_ok h
      simp only [bind_ok, pure_ok] at h
      obtain ⟨span, s₄, hspan, rfl, rfl⟩ := h
      cases spanFrom_ok hspan
      exact ⟨hafter₂.defines, forall_mem_some hgood₂, forall_mem_none⟩

theorem items_ok (ht : Tidy s) {list : List Item} (h : (items n).run s = .ok (list, s')) :
    Defines s s' (list.filterMap Item.signature?) ∧ ∀ item ∈ list, GoodItem (Recorded s'.calls) item := by
  induction n generalizing s list with
  | zero =>
    obtain ⟨_, _, -, h⟩ := bind_ok.1 h
    exact absurd h failAt_ok
  | succ n ih =>
    simp only [items, bind_ok, kind_ok] at h
    obtain ⟨_, s₁, hskip, k, s₂, ⟨rfl, rfl⟩, h⟩ := h
    have hafter := skipTerminators_ok ht hskip
    split at h
    · obtain ⟨rfl, rfl⟩ := pure_ok.1 h
      exact ⟨hafter.defines, List.forall_mem_nil _⟩
    · simp only [bind_ok, pure_ok] at h
      obtain ⟨first, s₃, hfirst, rest, s₄, hrest, rfl, rfl⟩ := h
      obtain ⟨hdefines, hgood⟩ := item_ok hafter.tidy hfirst
      obtain ⟨hdefines', hgood'⟩ := ih hdefines.tidy hrest
      constructor
      · have happend : (first :: rest).filterMap Item.signature? =
            first.signature?.toList ++ rest.filterMap Item.signature? := by
          cases hsignature : first.signature? with
          | none => exact List.filterMap_cons_none hsignature
          | some signature => exact List.filterMap_cons_some hsignature
        rw [happend]
        exact hafter.defines.trans (hdefines.trans hdefines')
      · intro item hitem
        rcases List.mem_cons.1 hitem with rfl | hitem
        · exact hgood.mono fun hcall => hdefines'.calls hcall
        · exact hgood' item hitem

/-- A check of every entry that changes nothing. -/
theorem forIn_ok {α : Type} {check : α → PUnit → Parser (ForInStep PUnit)} {p : α → Prop}
    (hcheck : ∀ {a r s'}, (check a ⟨⟩).run s = .ok (r, s') → s' = s ∧ r = .yield ⟨⟩ ∧ p a) {list : List α} {u : PUnit}
    (h : (forIn list ⟨⟩ check).run s = .ok (u, s')) : s' = s ∧ ∀ a ∈ list, p a := by
  induction list with
  | nil =>
    rw [List.forIn_nil] at h
    obtain ⟨-, rfl⟩ := pure_ok.1 h
    exact ⟨rfl, List.forall_mem_nil _⟩
  | cons a list ih =>
    rw [List.forIn_cons] at h
    obtain ⟨r, s₁, hfirst, h⟩ := bind_ok.1 h
    obtain ⟨rfl, rfl, ha⟩ := hcheck hfirst
    obtain ⟨hsame, hrest⟩ := ih h
    exact ⟨hsame, List.forall_mem_cons.2 ⟨ha, hrest⟩⟩

/-- All calls on record are accepted by the functions on record. -/
theorem checkCalls_ok {u : Unit} (h : checkCalls.run s = .ok (u, s')) :
    s' = s ∧ (Recorded s.calls).Implies (Defined s.functions) := by
  simp only [checkCalls, bind_ok, get_ok] at h
  obtain ⟨_, s₁, ⟨rfl, rfl⟩, _, s₂, hloop, h⟩ := h
  obtain ⟨-, rfl⟩ := pure_ok.1 h
  have hall : s' = s₁ ∧ ∀ call ∈ s₁.calls.reverse, Defined s₁.functions call.1 call.2 := by
    refine forIn_ok ?_ hloop
    intro call r s' h
    split at h
    · obtain ⟨_, _, hfail, -⟩ := bind_ok.1 h
      exact absurd hfail failAt_ok
    · rename_i arity harity
      obtain ⟨hle, h⟩ := unless_ok failAt_ok h
      obtain ⟨rfl, rfl⟩ := pure_ok.1 h
      exact ⟨rfl, rfl, arity, harity, Nat.le_of_not_lt hle⟩
  exact ⟨hall.1, fun hcall => hall.2 _ (List.mem_reverse.2 hcall)⟩

theorem program_ok (ht : Tidy s) (hfunctions : s.functions = []) {p : Program}
    (h : (program fuel).run s = .ok (p, s')) : p.WellFormed (Defined p.signatures) false := by
  simp only [program, bind_ok, current_ok, pure_ok] at h
  obtain ⟨start, s₁, ⟨rfl, rfl⟩, list, s₂, hlist, _, s₃, hcheck, span, s₄, -, rfl, rfl⟩ := h
  obtain ⟨hdefines, hgood⟩ := items_ok ht hlist
  obtain ⟨-, haccepts⟩ := checkCalls_ok hcheck
  have hsignatures : s₂.functions = list.filterMap Item.signature? := by
    rw [hdefines.functions, hfunctions, List.nil_append]
  rw [hsignatures] at haccepts
  exact fun item hitem => (hgood item hitem).mono haccepts

end Parser

theorem wellFormed_of_parseProgram {source : Text} {p : Program} (h : parseProgram source = .ok p) :
    p.WellFormed (Defined p.signatures) false := by
  obtain ⟨s, hstart, h⟩ := Action.bind_eq_ok.1 h
  obtain ⟨⟨p', s'⟩, hprogram, h⟩ := Action.bind_eq_ok.1 h
  cases h
  have hfunctions : s.functions = [] := by
    obtain ⟨_, -, h⟩ := Action.bind_eq_ok.1 hstart
    cases h
    rfl
  exact Parser.program_ok (Parser.tidy_start hstart) hfunctions hprogram

end Awk
