import Awk.Proofs.MainInput.Order
import Awk.Proofs.Syntax.Places.Extent
import Awk.Run

/-!
# Escapes

Every string can be written: with a backslash before each backslash and each double quote, and with `\n` for a newline
(`escaped`).  The lexer, which looks for the quote that closes a literal, and the decoder of escapes go through the
written text in the same steps, one for each character of the string.  So a literal (`quoted`) is read as the string,
whatever stands behind it, and an assignment on the command line gives it to its variable (`escaped_read_back`).
-/

namespace Awk

/-- A character as it is written in a string literal. -/
def escapedChar (c : Char) : Text :=
  if c = '\\' then ['\\', '\\'] else if c = '"' then ['\\', '"'] else if c = '\n' then ['\\', 'n'] else [c]

/-- A string as it is written in a literal, or behind the equals sign of an assignment. -/
def escaped (s : Text) : Text := s.flatMap escapedChar

/-- The literal of a string. -/
def quoted (s : Text) : Text := '"' :: (escaped s ++ ['"'])

@[simp]
theorem escaped_nil : escaped [] = [] := rfl

@[simp]
theorem escaped_cons (c : Char) (s : Text) : escaped (c :: s) = escapedChar c ++ escaped s := List.flatMap_cons

/-- A character is written as an escape or stands for itself. -/
theorem escapedChar_cases (c : Char) :
    (∃ d, escapedChar c = ['\\', d] ∧ d ≠ '\n' ∧ stringEscapes.lookup d = some c) ∨
      escapedChar c = [c] ∧ c ≠ '\\' ∧ c ≠ '"' ∧ c ≠ '\n' := by
  unfold escapedChar
  split
  · rename_i hc
    exact .inl ⟨'\\', rfl, by decide, by rw [hc]; rfl⟩
  split
  · rename_i hc
    exact .inl ⟨'"', rfl, by decide, by rw [hc]; rfl⟩
  split
  · rename_i hc
    exact .inl ⟨'n', rfl, by decide, by rw [hc]; rfl⟩
  · exact .inr ⟨rfl, ‹_›, ‹_›, ‹_›⟩

/-! ### Decoding -/

theorem decodeEscapes_escapedChar (c : Char) (t : Text) :
    decodeEscapes (escapedChar c ++ t) = c :: decodeEscapes t := by
  rcases escapedChar_cases c with ⟨d, hd, -, hlookup⟩ | ⟨hsame, hescape, -, -⟩
  · rw [hd, List.cons_append, List.cons_append, List.nil_append, decodeEscapes, hlookup]
  · -- What stands for itself is no backslash, so that no escape begins with it.
    rw [hsame, List.cons_append, List.nil_append, decodeEscapes]
    rintro d u rfl -
    exact hescape rfl

theorem decodeEscapes_escaped (s : Text) : decodeEscapes (escaped s) = s := by
  induction s with
  | nil => rw [escaped_nil, decodeEscapes]
  | cons c s ih => rw [escaped_cons, decodeEscapes_escapedChar, ih]

/-! ### The literal -/

open Lexeme (stringBody)

theorem stringBody_escapedChar (c : Char) (t : Text) :
    stringBody (escapedChar c ++ t) = (stringBody t).map (escapedChar c ++ ·) := by
  rcases escapedChar_cases c with ⟨d, hd, -, -⟩ | ⟨hsame, hescape, hquote, hnewline⟩
  · rw [hd]
    rfl
  · rw [hsame]
    exact Lexeme.stringBody_cons hquote hnewline hescape t

/-- The first quote that closes a literal is the one behind the string. -/
theorem stringBody_escaped (s rest : Text) : stringBody (escaped s ++ '"' :: rest) = some (escaped s) := by
  induction s with
  | nil => rfl
  | cons c s ih =>
    rw [escaped_cons, List.append_assoc, stringBody_escapedChar, ih]
    rfl

theorem newline_notMem_escaped (s : Text) : '\n' ∉ escaped s := by
  intro hmem
  obtain ⟨c, -, hc⟩ := List.mem_flatMap.1 hmem
  rcases escapedChar_cases c with ⟨d, hd, hd', -⟩ | ⟨hsame, -, -, hnewline⟩
  · rw [hd, List.mem_cons, List.mem_singleton] at hc
    rcases hc with hc | hc
    · revert hc
      decide
    · exact hd' hc.symm
  · rw [hsame, List.mem_singleton] at hc
    exact hnewline hc.symm

namespace Cursor

/-- Within a line only the columns are counted on. -/
theorem advance_line {cursor : Cursor} {t rest : Text} (h : cursor.rest = t ++ rest) (hline : '\n' ∉ t) :
    cursor.advance t.length = ⟨rest, cursor.offset + t.length, cursor.line, cursor.column + t.length⟩ := by
  induction t generalizing cursor with
  | nil =>
    obtain rfl : cursor.rest = rest := h
    rfl
  | cons c t ih =>
    obtain ⟨hc, ht⟩ := not_or.1 (List.mem_cons.not.1 hline)
    rw [List.length_cons, advance, h, List.cons_append]
    dsimp only
    rw [if_neg (Ne.symm hc), ih rfl ht]
    simp only [Nat.add_assoc, Nat.add_comm 1]

theorem token_quoted {cursor : Cursor} {s rest : Text} (h : cursor.rest = quoted s ++ rest) :
    cursor.token = .ok (⟨.string, escaped s, ⟨cursor.line, cursor.column, cursor.offset,
        cursor.offset + (quoted s).length⟩⟩,
      ⟨rest, cursor.offset + (quoted s).length, cursor.line, cursor.column + (quoted s).length⟩) := by
  have hrest : cursor.rest = '"' :: (escaped s ++ '"' :: rest) := by
    rw [h, quoted, List.cons_append, List.append_assoc]
    rfl
  have hscan : Lexeme.scan cursor.rest = .ok ⟨.string, escaped s, (quoted s).length⟩ := by
    rw [hrest]
    unfold Lexeme.scan
    dsimp only
    rw [if_neg (by decide), if_pos rfl, stringBody_escaped, quoted, List.length_cons, List.length_append]
    rfl
  have hline : '\n' ∉ quoted s := by
    have hescaped := newline_notMem_escaped s
    simp [quoted, hescaped]
  have hskip : cursor.skipBlanks = cursor := by
    rw [skipBlanks, Lexeme.blankLength_of_scan hscan, advance_zero]
  refine token_iff.2 ⟨_, by rw [hskip]; exact hscan, ?_, ?_⟩
  · rw [hskip]
  · rw [hskip]
    exact (advance_line h hline).symm

end Cursor

/-! ### The assignment -/

/-- A text that can be a name. -/
def IsName (name : Text) : Prop :=
  ∃ c t, name = c :: t ∧ isNameStart c = true ∧ ∀ d ∈ t, isNameChar d = true

theorem assignment?_name {name : Text} (hname : IsName name) (value : Text) :
    assignment? (name ++ '=' :: value) = some (name, value) := by
  obtain ⟨c, t, rfl, hc, ht⟩ := hname
  have hequals : isNameChar '=' = false := by decide
  have htake : (t ++ '=' :: value).takeWhile isNameChar = t := by
    rw [List.takeWhile_append_of_pos ht, List.takeWhile_cons_of_neg (by rw [hequals]; decide), List.append_nil]
  have hdrop : (t ++ '=' :: value).dropWhile isNameChar = '=' :: value := by
    rw [List.dropWhile_append_of_pos ht, List.dropWhile_cons_of_neg (by rw [hequals]; decide)]
  rw [List.cons_append, assignment?, if_pos hc, hdrop, htake]
  rfl

namespace Eval

variable {m : Machine}

theorem run_assignGlobal {name : Text} {v : Value} (hname : name ≠ fieldCountName)
    (hscalar : ∀ id, m.store.globals.lookup name ≠ some (.array id)) :
    (assignGlobal name v).run m = (.ok (), { m with store := m.store.setGlobal name v }) := by
  have hstore : m.store.setScalar ⟨.globals, name⟩ v = .ok (m.store.setGlobal name v) := by
    unfold Store.setScalar
    split
    · rename_i id hlookup
      exact absurd hlookup (hscalar id)
    · rfl
  have hcount : ¬isFieldCount ⟨.globals, name⟩ = true := by simpa [isFieldCount] using hname
  unfold assignGlobal assignSlot
  rw [Action.run_bind, Action.run_bind, Action.run_get]
  dsimp only
  rw [Action.run_bind, run_ofExcept, hstore]
  dsimp only [raised, Except.mapError]
  rw [if_neg hcount]
  rfl

/-- An assignment of a written string gives the variable the string, and changes nothing else. -/
theorem run_applyAssignment_escaped {name : Text} (hname : IsName name) (hcount : name ≠ fieldCountName)
    (hscalar : ∀ id, m.store.globals.lookup name ≠ some (.array id)) (s : Text) :
    (applyAssignment (name ++ '=' :: escaped s)).run m =
      (.ok true, { m with store := m.store.setGlobal name (.strnum s) }) := by
  unfold applyAssignment
  rw [assignment?_name hname]
  dsimp only
  rw [Action.run_bind, decodeEscapes_escaped, run_assignGlobal hcount hscalar]
  rfl

theorem run_findM?_append {α : Type} {p : α → Eval Bool} {l l' : List α} {m m' : Machine}
    (h : (l.findM? p).run m = (.ok none, m')) : ((l ++ l').findM? p).run m = (l'.findM? p).run m' := by
  induction l generalizing m with
  | nil =>
    cases h
    rfl
  | cons a l ih =>
    rw [List.findM?, Action.run_bind] at h
    rw [List.cons_append, List.findM?, Action.run_bind]
    generalize (p a).run m = result at h ⊢
    obtain ⟨e | found, m₁⟩ := result
    · cases h
    · cases found with
      | true => cases h
      | false => exact ih h

theorem run_applyOptions (words : List Text) (m : Machine) :
    (applyOptions none words).run m =
      match (words.findM? fun t => do return !(← applyAssignment t)).run m with
      | (.ok (some word), m') => (.ok (.error (.badAssignment word)), m')
      | (.ok none, m') => (.ok (.ok ()), m')
      | (.error e, m') => (.error e, m') := by
  unfold applyOptions
  rw [Action.run_bind]
  generalize (words.findM? fun t => do return !(← applyAssignment t)).run m = result
  obtain ⟨e | ⟨⟩ | word, m'⟩ := result <;> rfl

/-- The assignments of the command line are made one after the other. -/
theorem run_applyOptions_append {fieldSep : Option Text} {words more : List Text} {word : Text} {m m₁ m₂ : Machine}
    (h : (applyOptions fieldSep words).run m = (.ok (.ok ()), m₁))
    (hword : (applyAssignment word).run m₁ = (.ok true, m₂)) :
    (applyOptions fieldSep (words ++ word :: more)).run m = (applyOptions none more).run m₂ := by
  have hsearch {start : Machine} (h : (applyOptions none words).run start = (.ok (.ok ()), m₁)) :
      (applyOptions none (words ++ word :: more)).run start = (applyOptions none more).run m₂ := by
    have hmade : (words.findM? fun t => do return !(← applyAssignment t)).run start = (.ok none, m₁) := by
      rw [run_applyOptions] at h
      split at h
      · cases h
      · rename_i hfound
        cases h
        exact hfound
      · cases h
    have hnext : ((word :: more).findM? fun t => do return !(← applyAssignment t)).run m₁ =
        (more.findM? fun t => do return !(← applyAssignment t)).run m₂ := by
      rw [List.findM?, Action.run_bind, Action.run_bind, hword]
      rfl
    rw [run_applyOptions, run_findM?_append hmade, hnext, run_applyOptions]
  -- A field separator is set before the words have their turn, in both runs alike.
  cases fieldSep with
  | none => exact hsearch h
  | some t =>
    have hstart (words : List Text) : (applyOptions (some t) words).run m =
        (do
          assignGlobal "FS".toList (.str (fieldSeparator t))
          applyOptions none words : Eval (Except UsageError Unit)).run m := rfl
    rw [hstart, Action.run_bind] at h ⊢
    generalize (assignGlobal "FS".toList (.str (fieldSeparator t))).run m = result at h ⊢
    obtain ⟨e | ⟨⟩, start⟩ := result
    · cases h
    · exact hsearch h

end Eval

/-- Every string can be written as a literal and as a value on the command line.  The literal is one token, whatever
follows it, and is folded to the string.  As an operand or an option, the assignment gives the variable the string as
a value of input and changes nothing else. -/
theorem escaped_read_back (s : Text) :
    (∀ (cursor : Cursor) (rest : Text), cursor.rest = quoted s ++ rest →
      ∃ token behind, cursor.token = .ok (token, behind) ∧ token.kind = .string ∧
        token.span = ⟨cursor.line, cursor.column, cursor.offset, cursor.offset + (quoted s).length⟩ ∧
        behind.rest = rest ∧ (Expr.string token).prune = .ok (.literal (.str s))) ∧
    ∀ (name : Text) (m : Machine), IsName name → name ≠ Eval.fieldCountName →
      (∀ id, m.store.globals.lookup name ≠ some (.array id)) →
      ∃ m', m' = { m with store := m.store.setGlobal name (.strnum s) } ∧ m'.store.global? name = some (.strnum s) ∧
        (Eval.openOperand (name ++ '=' :: escaped s)).run m = (.ok false, m') ∧
        ∀ (fieldSep : Option Text) (words more : List Text) (start : Machine),
          (Eval.applyOptions fieldSep words).run start = (.ok (.ok ()), m) →
          (Eval.applyOptions fieldSep (words ++ (name ++ '=' :: escaped s) :: more)).run start =
            (Eval.applyOptions none more).run m' := by
  refine ⟨fun cursor rest hrest => ?_, fun name m hname hcount hscalar => ?_⟩
  · refine ⟨_, _, Cursor.token_quoted hrest, rfl, rfl, rfl, ?_⟩
    rw [Expr.prune, decodeEscapes_escaped]
  · have hassign := Eval.run_applyAssignment_escaped hname hcount hscalar s
    refine ⟨_, rfl, ?_, ?_, fun _ _ _ _ h => Eval.run_applyOptions_append h hassign⟩
    · rw [Machine.global?_setGlobal, if_pos rfl]
    · have hnonempty : name ++ '=' :: escaped s ≠ [] := List.append_ne_nil_of_right_ne_nil _ (List.cons_ne_nil _ _)
      rw [Eval.run_openOperand_assignment hnonempty (assignment?_name hname _), decodeEscapes_escaped, Action.run_bind,
        Eval.run_assignGlobal hcount hscalar]
      rfl

/-- A string that ends in a backslash, with another one before an octal digit, and with a quote and a newline. -/
def awkward : Text := ['\\', '1', '"', '\n', '\\']

theorem escaped_read_back_awkward :
    ∃ token behind m m', (Cursor.ofText (quoted awkward ++ ['"'])).token = .ok (token, behind) ∧
      behind.rest = ['"'] ∧ (Expr.string token).prune = .ok (.literal (.str awkward)) ∧
      m'.store.global? ['x'] = some (.strnum awkward) ∧
      (Eval.openOperand (['x'] ++ '=' :: escaped awkward)).run m = (.ok false, m') ∧
      (Eval.applyOptions none [['x'] ++ '=' :: escaped awkward]).run m = (.ok (.ok ()), m') := by
  let m : Machine := .start (.start .empty [] [] 0) [] [] []
  have hlookup : m.store.globals.lookup ['x'] = none := by decide +kernel
  obtain ⟨hliteral, hassignment⟩ := escaped_read_back awkward
  obtain ⟨token, behind, htoken, -, -, hbehind, hprune⟩ := hliteral (.ofText (quoted awkward ++ ['"'])) _ rfl
  obtain ⟨m', -, hvalue, hoperand, hoption⟩ := hassignment ['x'] m
    ⟨'x', [], rfl, by decide, nofun⟩ (by decide) (by rw [hlookup]; nofun)
  exact ⟨token, behind, m, m', htoken, hbehind, hprune, hvalue, hoperand, hoption none [] [] m rfl⟩

end Awk
