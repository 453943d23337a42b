import Awk.Syntax.Parser.State
import Awk.Syntax.Prune

/-!
# How tokens are spelt

A token of a kind that stands for an operator, a keyword or a built-in function has one of the texts of that kind
(`Token.Proper`).  The tokens that a cursor finds have one (`Cursor.proper_token`), so an operator that the parser takes
from the kind of a token can be read back from the text of the token (`Token.Proper.read`).
-/

namespace Awk

/-- The texts that tokens of a kind have; none if the kind does not fix them. -/
def TokenKind.spellings : TokenKind → List Text
  | .builtin b => [b.name.toList]
  | kind => ((keywords ++ operators).filter fun entry => entry.2 == kind).map fun entry => entry.1.toList

def TokenKind.Spells (kind : TokenKind) (t : Text) : Prop := kind.spellings = [] ∨ t ∈ kind.spellings

def Token.Proper (token : Token) : Prop := token.kind.Spells token.text

/-! ### Where tokens come from -/

theorem spells_of_entry {entry : String × TokenKind} (h : entry ∈ keywords ++ operators) :
    entry.2.Spells entry.1.toList := by
  have hall : ∀ entry ∈ keywords ++ operators, entry.1.toList ∈ entry.2.spellings := by decide
  exact .inr (hall entry h)

theorem spells_nameKind (name rest : Text) : (Lexeme.nameKind name rest).Spells name := by
  unfold Lexeme.nameKind
  split
  · rename_i kind hkeyword
    obtain ⟨entry, hfind, rfl⟩ := Option.map_eq_some_iff.1 hkeyword
    have hname := List.find?_some hfind
    rw [beq_iff_eq] at hname
    rw [← hname]
    exact spells_of_entry (List.mem_append_left _ (List.mem_of_find?_eq_some hfind))
  · split
    · rename_i b hbuiltin
      unfold Builtin.ofName? at hbuiltin
      have hname := List.find?_some hbuiltin
      rw [beq_iff_eq] at hname
      exact .inr (List.mem_singleton.2 hname.symm)
    · split
      · exact .inl rfl
      · exact .inl rfl

theorem spells_scan {t : Text} {lexeme : Lexeme} (h : Lexeme.scan t = .ok lexeme) :
    lexeme.kind.Spells lexeme.value := by
  unfold Lexeme.scan at h
  split at h
  · cases h
    exact .inl rfl
  split at h
  · cases h
    exact .inl rfl
  split at h
  · split at h
    · cases h
      exact .inl rfl
    · cases h
  split at h
  · cases h
    exact .inl rfl
  split at h
  · cases h
    exact spells_nameKind _ _
  split at h
  · rename_i op kind hfind
    cases h
    exact spells_of_entry (List.mem_append_right _ (List.mem_of_find?_eq_some hfind))
  · cases h

theorem Cursor.proper_token {cursor stop : Cursor} {token : Token} (h : cursor.token = .ok (token, stop)) :
    token.Proper := by
  unfold Cursor.token Cursor.take at h
  split at h
  · cases h
  · rename_i lexeme hlexeme
    cases h
    exact spells_scan hlexeme

/-! ### Operators by their texts -/

def CompareOp.table : List (String × CompareOp) :=
  [("<", lt), ("<=", le), ("==", eq), ("!=", ne), (">", gt), (">=", ge)]

def SignOp.table : List (String × SignOp) := [("-", minus), ("+", plus), ("!", not)]

def StepOp.table : List (String × StepOp) := [("++", up), ("--", down)]

def RedirectOp.table : List (String × RedirectOp) := [(">", write), (">>", append), ("|", pipe)]

def CompareOp.ofText? (t : Text) : Option CompareOp := table.lookup (String.ofList t)

def SignOp.ofText? (t : Text) : Option SignOp := table.lookup (String.ofList t)

def StepOp.ofText? (t : Text) : Option StepOp := table.lookup (String.ofList t)

def RedirectOp.ofText? (t : Text) : Option RedirectOp := table.lookup (String.ofList t)

/-- An assignment that is not plain is written as its operator and an equals sign. -/
def AssignOp.ofText? (t : Text) : Option AssignOp :=
  if t = "=".toList then some set else (ArithOp.ofText? t.dropLast).map update

/-- A match is negated or not, by its operator. -/
def negation? (t : Text) : Option Bool := [("~", false), ("!~", true)].lookup (String.ofList t)

/-- A print statement formats or not, by its keyword. -/
def formatted? (t : Text) : Option Bool := [("print", false), ("printf", true)].lookup (String.ofList t)

variable {token : Token}

/-- The text of a token whose kind has but one. -/
theorem Token.Proper.text_eq (h : token.Proper) {kind : TokenKind} {t : Text} (hkind : token.kind = kind)
    (ht : kind.spellings = [t]) : token.text = t := by
  rw [Proper, TokenKind.Spells, hkind, ht] at h
  rcases h with h | h
  · exact absurd h (List.cons_ne_nil _ _)
  · exact List.mem_singleton.1 h

/-- The kinds of tokens that write something have one text each, which writes the same. -/
def Agree {α : Type} (ofKind? : TokenKind → Option α) (ofText? : Text → Option α) : Prop :=
  ∀ {kind : TokenKind} {a : α}, ofKind? kind = some a → ∃ t, kind.spellings = [t] ∧ ofText? t = some a

theorem Token.Proper.read {α : Type} {ofKind? : TokenKind → Option α} {ofText? : Text → Option α} (h : token.Proper)
    (hagree : Agree ofKind? ofText?) {a : α} (ha : ofKind? token.kind = some a) : ofText? token.text = some a := by
  obtain ⟨t, hspellings, ht⟩ := hagree ha
  rw [h.text_eq rfl hspellings]
  exact ht

theorem CompareOp.agree : Agree ofKind? ofText? := by
  intro kind op hop
  unfold ofKind? at hop
  split at hop <;> cases hop <;> exact ⟨_, rfl, rfl⟩

theorem SignOp.agree : Agree ofKind? ofText? := by
  intro kind op hop
  unfold ofKind? at hop
  split at hop <;> cases hop <;> exact ⟨_, rfl, rfl⟩

theorem StepOp.agree : Agree ofKind? ofText? := by
  intro kind op hop
  unfold ofKind? at hop
  split at hop <;> cases hop <;> exact ⟨_, rfl, rfl⟩

theorem RedirectOp.agree : Agree ofKind? ofText? := by
  intro kind op hop
  unfold ofKind? at hop
  split at hop <;> cases hop <;> exact ⟨_, rfl, rfl⟩

theorem ArithOp.agree_sum : Agree sum? ofText? := by
  intro kind op hop
  unfold sum? at hop
  split at hop <;> cases hop <;> exact ⟨_, rfl, rfl⟩

theorem ArithOp.agree_product : Agree product? ofText? := by
  intro kind op hop
  unfold product? at hop
  split at hop <;> cases hop <;> exact ⟨_, rfl, rfl⟩

/-- The one operator with two spellings is read in the one that folding gives it. -/
theorem AssignOp.ofText?_of_kind (h : token.Proper) {op : AssignOp} (hop : ofKind? token.kind = some op) :
    ofText? (canonicalToken token).text = some op := by
  unfold ofKind? at hop
  split at hop <;> cases hop
  all_goals rename_i hkind
  all_goals unfold canonicalToken
  case h_7 =>
    rw [if_pos hkind]
    rfl
  all_goals rw [if_neg (by rw [hkind]; decide), h.text_eq hkind rfl]
  all_goals rfl

theorem canonicalToken_idem (token : Token) : canonicalToken (canonicalToken token) = canonicalToken token := by
  unfold canonicalToken
  split
  · rfl
  · rfl

theorem Builtin.ofName?_name (b : Builtin) : ofName? b.name.toList = some b := by
  cases b <;> rfl

theorem Builtin.ofName?_of_kind (h : token.Proper) {b : Builtin} (hkind : token.kind = .builtin b) :
    ofName? token.text = some b := by
  rw [h.text_eq hkind rfl]
  exact ofName?_name b

end Awk
