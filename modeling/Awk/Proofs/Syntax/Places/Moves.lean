import Awk.Proofs.Syntax.Operands
import Awk.Proofs.Syntax.Places.Extent

/-!
# Tokens taken one after another

Between two states of the parser some tokens have been taken (`Moves`).  They cover the text between the two places
(`Moves.covers`), stand in it one behind the other (`Cursor.Covers.inOrder`), and a node that is placed from the state
before them reaches from the first of them to the last (`Moves.spanFrom`).
-/

namespace Awk

/-- One token ends before the next one begins. -/
def InOrder (tokens : List Token) : Prop := tokens.Pairwise fun a b => a.span.stop ≤ b.span.start

/-- The place from the first of some tokens to the last. -/
def extentOf : List Token → Span
  | [] => ⟨0, 0, 0, 0⟩
  | first :: rest => { first.span with stop := (rest.getLastD first).span.stop }

theorem extentOf_cons_append (first last : Token) (rest : List Token) :
    extentOf (first :: rest ++ [last]) = { first.span with stop := last.span.stop } := by
  simp [extentOf, List.getLastD_eq_getLast?]

theorem extentOf_start {first : Token} {tokens : List Token} (h : tokens.head? = some first) :
    (extentOf tokens).start = first.span.start := by
  cases tokens with
  | nil => cases h
  | cons token tokens =>
    cases h
    rfl

theorem extentOf_stop {last : Token} {tokens : List Token} (h : tokens.getLast? = some last) :
    (extentOf tokens).stop = last.span.stop := by
  cases tokens with
  | nil => cases h
  | cons token tokens =>
    rw [List.getLast?_cons, Option.some.injEq] at h
    rw [extentOf, List.getLastD_eq_getLast?, h]

/-- What covers a text takes some text with every token, from left to right. -/
theorem Cursor.Covers.bounds {cursor stop : Cursor} {tokens : List Token} (h : cursor.Covers tokens stop) :
    cursor.offset ≤ stop.offset ∧ ∀ token ∈ tokens,
      cursor.offset ≤ token.span.start ∧ token.span.start < token.span.stop ∧ token.span.stop ≤ stop.offset := by
  induction h with
  | nil => exact ⟨Nat.le_refl _, List.forall_mem_nil _⟩
  | token htoken hend hmore ih =>
    obtain ⟨hstart, -, hstop, hlt⟩ := token_extent htoken
    have hpos := hlt hend
    refine ⟨by omega, List.forall_mem_cons.2 ⟨⟨hstart, hpos, by omega⟩, fun t ht => ?_⟩⟩
    obtain ⟨hstart', hlt', hstop'⟩ := ih.2 t ht
    exact ⟨by omega, hlt', hstop'⟩
  | regex hslash hkind hregex hmore ih =>
    obtain ⟨hstart, -, -, hlt⟩ := token_extent hslash
    have hpos := hlt (by rcases hkind with hkind | hkind <;> rw [hkind] <;> decide)
    obtain ⟨hspan, hle, hstop⟩ := regex_extent hslash hkind hregex
    have heq := congrArg Span.start hspan
    dsimp only at heq
    refine ⟨by omega, List.forall_mem_cons.2 ⟨⟨by omega, by omega, by omega⟩, fun t ht => ?_⟩⟩
    obtain ⟨hstart', hlt', hstop'⟩ := ih.2 t ht
    exact ⟨by omega, hlt', hstop'⟩

theorem Cursor.Covers.inOrder {cursor stop : Cursor} {tokens : List Token} (h : cursor.Covers tokens stop) :
    InOrder tokens := by
  induction h with
  | nil => exact .nil
  | token htoken hend hmore ih =>
    obtain ⟨-, -, hstop, -⟩ := token_extent htoken
    exact .cons (fun t ht => hstop ▸ (hmore.bounds.2 t ht).1) ih
  | regex hslash hkind hregex hmore ih =>
    obtain ⟨-, -, hstop⟩ := regex_extent hslash hkind hregex
    exact .cons (fun t ht => hstop ▸ (hmore.bounds.2 t ht).1) ih

namespace Parser

/-- Tokens are taken one after another.  In the place of a slash a regular expression may be taken, and functions and
calls may be put on record. -/
inductive Moves : ParserState → List Token → ParserState → Prop
  | refl {s} : Moves s [] s
  | take {s s₁ tokens s'} (hend : s.current.kind ≠ .eof) (htake : Takes s s₁) (hmore : Moves s₁ tokens s') :
    Moves s (s.current :: tokens) s'
  | regex {s token s₁ tokens s'} (hkind : s.current.kind = .slash ∨ s.current.kind = .divAssign)
    (htake : TakesRegex s token s₁) (hmore : Moves s₁ tokens s') : Moves s (token :: tokens) s'
  | record {s functions calls tokens s'} (hmore : Moves { s with functions := functions, calls := calls } tokens s') :
    Moves s tokens s'

namespace Moves

variable {s s₁ s' : ParserState} {tokens tokens' : List Token}

theorem trans (h : Moves s tokens s₁) (h' : Moves s₁ tokens' s') : Moves s (tokens ++ tokens') s' := by
  induction h with
  | refl => exact h'
  | take hend htake hmore ih => exact .take hend htake (ih h')
  | regex hkind htake hmore ih => exact .regex hkind htake (ih h')
  | record hmore ih => exact .record (ih h')

theorem fed (h : Moves s tokens s') (hfed : Fed s) : Fed s' := by
  induction h with
  | refl => exact hfed
  | take hend htake hmore ih =>
    obtain ⟨token, behind, htoken, rfl⟩ := takes_iff.1 htake
    exact ih htoken
  | regex hkind htake hmore ih =>
    obtain ⟨stop, next, behind, hregex, hnext, rfl⟩ := takesRegex_iff.1 htake
    exact ih hnext
  | record hmore ih => exact ih hfed

theorem covers (h : Moves s tokens s') (hfed : Fed s) : s.position.Covers tokens s'.position := by
  induction h with
  | refl => exact .nil
  | take hend htake hmore ih =>
    obtain ⟨token, behind, htoken, rfl⟩ := takes_iff.1 htake
    exact .token hfed hend (ih htoken)
  | regex hkind htake hmore ih =>
    obtain ⟨stop, next, behind, hregex, hnext, rfl⟩ := takesRegex_iff.1 htake
    exact .regex hfed hkind hregex (ih hnext)
  | record hmore ih => exact ih hfed

theorem lastStop (h : Moves s tokens s') :
    s'.lastStop = (tokens.getLast?.map fun token => token.span.stop).or s.lastStop := by
  induction h with
  | refl => rfl
  | take hend htake hmore ih =>
    obtain ⟨token, behind, htoken, rfl⟩ := takes_iff.1 htake
    rw [ih, List.getLast?_cons]
    cases List.getLast? _ <;> rfl
  | regex hkind htake hmore ih =>
    obtain ⟨stop, next, behind, hregex, hnext, rfl⟩ := takesRegex_iff.1 htake
    rw [ih, List.getLast?_cons]
    cases List.getLast? _ <;> rfl
  | record hmore ih => exact ih

theorem current_eq (h : Moves s [] s') : s'.current = s.current := by
  generalize hnone : ([] : List Token) = tokens at h
  induction h with
  | refl => rfl
  | take => cases hnone
  | regex => cases hnone
  | record hmore ih => exact ih hnone

/-- The first token taken is the current one, or begins where it does. -/
theorem head (h : Moves s tokens s') (hfed : Fed s) : ∀ first ∈ tokens.head?,
    first.span = { s.current.span with stop := first.span.stop } ∧ s.current.span.stop ≤ first.span.stop := by
  induction h with
  | refl =>
    rintro _ ⟨⟩
  | take hend htake hmore ih =>
    rintro _ ⟨⟩
    exact ⟨rfl, Nat.le_refl _⟩
  | regex hkind htake hmore ih =>
    rintro _ ⟨⟩
    obtain ⟨stop, next, behind, hregex, hnext, rfl⟩ := takesRegex_iff.1 htake
    obtain ⟨hspan, hle, -⟩ := Cursor.regex_extent hfed hkind hregex
    exact ⟨hspan, hle⟩
  | record hmore ih => exact ih hfed

/-- The last token taken ends no earlier than the token that was current before. -/
theorem reach (h : Moves s tokens s') (hfed : Fed s) (hne : tokens ≠ []) :
    s'.lastStop = some (extentOf tokens).stop ∧ s.current.span.stop ≤ (extentOf tokens).stop := by
  obtain ⟨first, rest, rfl⟩ := List.exists_cons_of_ne_nil hne
  obtain ⟨-, hle⟩ := h.head hfed first rfl
  have hlast := h.lastStop
  rw [List.getLast?_cons, Option.map_some, Option.some_or] at hlast
  rw [extentOf, List.getLastD_eq_getLast?]
  refine ⟨hlast, ?_⟩
  cases hrest : rest.getLast? with
  | none => exact hle
  | some last =>
    have hmem := List.mem_of_getLast? hrest
    have hbehind := (List.pairwise_cons.1 (h.covers hfed).inOrder).1 last hmem
    obtain ⟨-, hlt, -⟩ := (h.covers hfed).bounds.2 last (List.mem_cons_of_mem _ hmem)
    exact Nat.le_trans hle (Nat.le_trans hbehind (Nat.le_of_lt hlt))

/-- A node that is placed from the current token reaches from the first token taken to the last. -/
theorem spanFrom (h : Moves s tokens s') (hfed : Fed s) (hne : tokens ≠ []) :
    s'.spanFrom s.current = extentOf tokens := by
  obtain ⟨hlast, hle⟩ := h.reach hfed hne
  obtain ⟨first, rest, rfl⟩ := List.exists_cons_of_ne_nil hne
  obtain ⟨hspan, -⟩ := h.head hfed first rfl
  rw [ParserState.spanFrom, hlast, Option.getD_some, Nat.max_eq_left hle, extentOf, hspan]

end Moves

end Parser

end Awk
