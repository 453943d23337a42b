import Awk.Proofs.Action
import Awk.Proofs.Syntax.WellFormed

/-!
# What parsers leave alone

A parser that has succeeded went from one state to another (`After`): the current token is again one that a cursor has
given, the calls met before are still on record, and no function has been defined.  The steps of which the grammar is
made are taken one by one here; the rest follows with `bind_ok`.
-/

namespace Awk.Parser

/-- A call is accepted if it is on record. -/
def Recorded (calls : List (Token × Nat)) : Accepts := fun token count => (token, count) ∈ calls

def Tidy (s : ParserState) : Prop := s.current.Proper

structure After (s s' : ParserState) : Prop where
  tidy : Tidy s'
  calls : s.calls ⊆ s'.calls
  functions : s'.functions = s.functions

theorem After.refl {s : ParserState} (h : Tidy s) : After s s := ⟨h, List.Subset.refl _, rfl⟩

theorem After.trans {s₁ s₂ s₃ : ParserState} (h₁ : After s₁ s₂) (h₂ : After s₂ s₃) : After s₁ s₃ :=
  ⟨h₂.tidy, List.Subset.trans h₁.calls h₂.calls, h₂.functions.trans h₁.functions⟩

theorem After.implies {s s' : ParserState} (h : After s s') : (Recorded s.calls).Implies (Recorded s'.calls) :=
  fun hcall => h.calls hcall

variable {α β : Type} {s s' : ParserState}

theorem bind_ok {x : Parser α} {f : α → Parser β} {b : β} :
    (x >>= f).run s = .ok (b, s') ↔ ∃ a s₁, x.run s = .ok (a, s₁) ∧ (f a).run s₁ = .ok (b, s') := by
  rw [StateT.run_bind, Action.bind_eq_ok]
  constructor
  · rintro ⟨⟨a, s₁⟩, hx, hf⟩
    exact ⟨a, s₁, hx, hf⟩
  · rintro ⟨a, s₁, hx, hf⟩
    exact ⟨(a, s₁), hx, hf⟩

theorem pure_ok {a b : α} : (pure a : Parser α).run s = .ok (b, s') ↔ b = a ∧ s' = s := by
  rw [StateT.run_pure]
  constructor
  · intro h
    cases h
    exact ⟨rfl, rfl⟩
  · rintro ⟨rfl, rfl⟩
    rfl

theorem get_ok {t : ParserState} : (get : Parser ParserState).run s = .ok (t, s') ↔ t = s ∧ s' = s := by
  constructor
  · intro h
    cases h
    exact ⟨rfl, rfl⟩
  · rintro ⟨rfl, rfl⟩
    rfl

theorem set_ok {t : ParserState} {u : PUnit} : (set t : Parser PUnit).run s = .ok (u, s') ↔ s' = t := by
  constructor
  · intro h
    cases h
    rfl
  · rintro rfl
    rfl

theorem modify_ok {f : ParserState → ParserState} {u : PUnit} :
    (modify f : Parser PUnit).run s = .ok (u, s') ↔ s' = f s := by
  constructor
  · intro h
    cases h
    rfl
  · rintro rfl
    rfl

theorem lift_ok {x : Except SyntaxError α} {a : α} :
    (liftM x : Parser α).run s = .ok (a, s') ↔ x = .ok a ∧ s' = s := by
  cases x with
  | error e =>
    constructor
    · intro h
      cases h
    · rintro ⟨h, -⟩
      cases h
  | ok b =>
    constructor
    · intro h
      cases h
      exact ⟨rfl, rfl⟩
    · rintro ⟨h, rfl⟩
      cases h
      rfl

theorem failAt_ok {fault : SyntaxFault} {token : Token} {a : α} :
    ¬(failAt fault token : Parser α).run s = .ok (a, s') := by
  intro h
  cases h

theorem current_ok {token : Token} : current.run s = .ok (token, s') ↔ token = s.current ∧ s' = s := by
  simp only [current, bind_ok, get_ok, pure_ok]
  constructor
  · rintro ⟨t, s₁, ⟨rfl, rfl⟩, h⟩
    exact h
  · intro h
    exact ⟨s, s, ⟨rfl, rfl⟩, h⟩

theorem kind_ok {k : TokenKind} : kind.run s = .ok (k, s') ↔ k = s.current.kind ∧ s' = s := by
  simp only [kind, bind_ok, get_ok, pure_ok]
  constructor
  · rintro ⟨t, s₁, ⟨rfl, rfl⟩, h⟩
    exact h
  · intro h
    exact ⟨s, s, ⟨rfl, rfl⟩, h⟩

theorem failExpecting_ok {construct : String} {a : α} :
    ¬(failExpecting construct : Parser α).run s = .ok (a, s') := by
  simp only [failExpecting, bind_ok, not_exists, not_and]
  intro token s₁ _
  exact failAt_ok

theorem moveTo_ok {position : Cursor} {lastStop : Option Nat} {u : Unit}
    (h : (moveTo position lastStop).run s = .ok (u, s')) : After s s' := by
  simp only [moveTo, bind_ok, lift_ok, modify_ok] at h
  obtain ⟨⟨token, behind⟩, s₁, ⟨htoken, rfl⟩, rfl⟩ := h
  exact ⟨Cursor.proper_token htoken, List.Subset.refl _, rfl⟩

theorem advance_ok {token : Token} (h : advance.run s = .ok (token, s')) : token = s.current ∧ After s s' := by
  simp only [advance, bind_ok, get_ok, pure_ok] at h
  obtain ⟨t, s₁, ⟨rfl, rfl⟩, u, s₂, hmove, rfl, rfl⟩ := h
  exact ⟨rfl, moveTo_ok hmove⟩

theorem accept_ok (ht : Tidy s) {k : TokenKind} {accepted : Bool} (h : (accept k).run s = .ok (accepted, s')) :
    After s s' := by
  simp only [accept, bind_ok, kind_ok] at h
  obtain ⟨k', s₁, ⟨rfl, rfl⟩, h⟩ := h
  split at h
  · simp only [bind_ok, pure_ok] at h
    obtain ⟨token, s₂, hadvance, rfl, rfl⟩ := h
    exact (advance_ok hadvance).2
  · obtain ⟨rfl, rfl⟩ := pure_ok.1 h
    exact .refl ht

theorem expect_ok {k : TokenKind} {construct : String} {token : Token}
    (h : (expect k construct).run s = .ok (token, s')) : token = s.current ∧ token.kind = k ∧ After s s' := by
  simp only [expect, bind_ok, kind_ok] at h
  obtain ⟨k', s₁, ⟨rfl, rfl⟩, h⟩ := h
  split at h
  · rename_i hkind
    obtain ⟨rfl, hafter⟩ := advance_ok h
    exact ⟨rfl, hkind, hafter⟩
  · exact absurd h failExpecting_ok

theorem nextKind_ok {k : TokenKind} (h : nextKind.run s = .ok (k, s')) : s' = s := by
  simp only [nextKind, bind_ok, get_ok, lift_ok, pure_ok] at h
  obtain ⟨t, s₁, ⟨rfl, rfl⟩, token, s₂, ⟨-, rfl⟩, -, rfl⟩ := h
  rfl

theorem skipFuel_ok (ht : Tidy s) {skipped : TokenKind → Bool} {fuel : Nat} {u : Unit}
    (h : (skipFuel skipped fuel).run s = .ok (u, s')) : After s s' := by
  induction fuel generalizing s with
  | zero =>
    obtain ⟨-, rfl⟩ := pure_ok.1 h
    exact .refl ht
  | succ fuel ih =>
    simp only [skipFuel, bind_ok, kind_ok] at h
    obtain ⟨k, s₁, ⟨rfl, rfl⟩, h⟩ := h
    split at h
    · simp only [bind_ok] at h
      obtain ⟨token, s₂, hadvance, h⟩ := h
      have hafter := (advance_ok hadvance).2
      exact hafter.trans (ih hafter.tidy h)
    · obtain ⟨-, rfl⟩ := pure_ok.1 h
      exact .refl ht

theorem skip_ok (ht : Tidy s) {skipped : TokenKind → Bool} {u : Unit} (h : (skip skipped).run s = .ok (u, s')) :
    After s s' := by
  simp only [skip, bind_ok, get_ok] at h
  obtain ⟨t, s₁, ⟨rfl, rfl⟩, h⟩ := h
  exact skipFuel_ok ht h

theorem skipNewlines_ok (ht : Tidy s) {u : Unit} (h : skipNewlines.run s = .ok (u, s')) : After s s' := skip_ok ht h

theorem skipTerminators_ok (ht : Tidy s) {u : Unit} (h : skipTerminators.run s = .ok (u, s')) : After s s' :=
  skip_ok ht h

theorem atTerminator_ok {b : Bool} (h : atTerminator.run s = .ok (b, s')) : s' = s := by
  simp only [atTerminator, bind_ok, kind_ok, pure_ok] at h
  obtain ⟨k, s₁, ⟨rfl, rfl⟩, -, rfl⟩ := h
  rfl

theorem spanFrom_ok {token : Token} {span : Span} (h : (spanFrom token).run s = .ok (span, s')) : s' = s := by
  simp only [spanFrom, bind_ok, get_ok, pure_ok] at h
  obtain ⟨t, s₁, ⟨rfl, rfl⟩, -, rfl⟩ := h
  rfl

theorem takeRegex_ok {token : Token} (h : takeRegex.run s = .ok (token, s')) : After s s' := by
  simp only [takeRegex, bind_ok, get_ok, lift_ok, pure_ok] at h
  obtain ⟨t, s₁, ⟨rfl, rfl⟩, ⟨token', behind⟩, s₂, ⟨-, rfl⟩, u, s₃, hmove, -, rfl⟩ := h
  exact moveTo_ok hmove

theorem tidy_start {source : Text} (h : start source = .ok s) : Tidy s := by
  obtain ⟨⟨token, behind⟩, htoken, h⟩ := Action.bind_eq_ok.1 h
  cases h
  exact Cursor.proper_token htoken

end Awk.Parser
