import Awk.Proofs.Syntax.Layout.Insertion

/-!
# Programs one behind the other

With a newline between them two program texts are one program, which has the items of the first and then those of the
second, their places behind the first text (`parseProgram_joined`).
-/

namespace Awk

/-! ### Places -/

/-- A place behind a text and a newline. -/
def Span.behind (source : Text) (place : Span) : Span :=
  ⟨place.line + (source.count '\n' + 1), place.column, place.start + (source.length + 1),
    place.stop + (source.length + 1)⟩

/-- All places behind a text and a newline. -/
def Placement.behind (source : Text) : Placement where
  span := Span.behind source
  stop n := n + (source.length + 1)
  monotone _ _ h := Nat.add_le_add_right h _
  span_stop _ _ := rfl

namespace Cursor

variable {source y w : Text} {c c' : Cursor}

def behind (source : Text) (c : Cursor) : Cursor :=
  ⟨c.rest, c.offset + (source.length + 1), c.line + (source.count '\n' + 1), c.column⟩

theorem advance_behind (source : Text) (n : Nat) (c : Cursor) :
    (c.behind source).advance n = (c.advance n).behind source := by
  induction n generalizing c with
  | zero => rfl
  | succ n ih =>
    obtain ⟨rest, offset, line, column⟩ := c
    cases rest with
    | nil => rfl
    | cons d rest =>
      rw [behind, advance, advance]
      dsimp only
      rw [← ih]
      congr 1
      by_cases hd : d = '\n'
      · rw [if_pos hd, if_pos hd, behind]
        simp only [Nat.add_right_comm]
      · rw [if_neg hd, if_neg hd, behind]
        simp only [Nat.add_right_comm]

theorem moved_behind (source : Text) (c : Cursor) : Moved (Placement.behind source).span c (c.behind source) := by
  refine ⟨rfl, fun {n length} _ _ => ?_⟩
  rw [advance_behind]
  simp [Placement.behind, Span.behind, span, behind, Nat.add_right_comm]

/-- Behind the newline the second text begins. -/
theorem advance_joined (source t : Text) :
    (ofText (source ++ '\n' :: t)).advance (source.length + 1) = (ofText t).behind source := by
  have hall {source : Text} {c : Cursor} (h : c.rest = source ++ '\n' :: t) :
      c.advance (source.length + 1) = ⟨t, c.offset + (source.length + 1), c.line + (source.count '\n' + 1), 1⟩ := by
    induction source generalizing c with
    | nil =>
      rw [advance, h]
      rfl
    | cons d source ih =>
      rw [List.length_cons, advance, h]
      by_cases hd : d = '\n'
      · simp only [List.cons_append, if_pos hd]
        rw [ih rfl, hd, List.count_cons_self]
        simp only [Nat.add_comm, Nat.add_left_comm]
      · simp only [List.cons_append, if_neg hd]
        rw [ih rfl, List.count_cons_of_ne hd]
        simp only [Nat.add_comm, Nat.add_left_comm]
  exact hall rfl

/-- The newline between two texts is the next token. -/
def Between (source t : Text) (c : Cursor) : Prop :=
  c.skipBlanks.rest = '\n' :: t ∧ c.skipBlanks.advance 1 = (ofText t).behind source

theorem Between.token {t : Text} (h : Between source t c) :
    ∃ token, c.token = .ok (token, (ofText t).behind source) ∧ token.kind = .newline :=
  ⟨_, h.2 ▸ token_newline h.1, rfl⟩

theorem Between.matches {t : Text} (h : Between source t c) :
    ∃ token behind, c.token = .ok (token, behind) ∧ TokenKind.eof.Matches token.kind := by
  obtain ⟨token, htoken, hkind⟩ := h.token
  exact ⟨token, _, htoken, .inr ⟨rfl, hkind⟩⟩

/-- Where a text ends, the newline behind it is the next token. -/
theorem between_of_atEnd {t : Text} (h : Within source c) (hend : c.AtEnd) :
    Between source t { c with rest := c.rest ++ '\n' :: t } := by
  obtain ⟨token, behind, htoken, hkind⟩ := hend
  obtain ⟨lexeme, hscan, rfl, -⟩ := token_iff.1 htoken
  have hnil : c.rest.length ≤ Lexeme.blankLength false c.rest := by
    rw [← List.drop_eq_nil_iff, ← skipBlanks_rest]
    exact Lexeme.eq_nil_of_scan_eof hscan hkind
  obtain ⟨g, rest, comment, heq, hlength, hpassed, -⟩ := Lexeme.exists_passed false c.rest
  have hrest : rest = [] := by
    rw [← List.length_eq_zero_iff]
    have hsum := congrArg List.length heq
    rw [List.length_append] at hsum
    omega
  rw [hrest, List.append_nil] at heq
  -- What is passed over up to the end of the text is passed over up to the newline.
  have hskip : ({ c with rest := c.rest ++ '\n' :: t } : Cursor).skipBlanks =
      (ofText (source ++ '\n' :: t)).advance source.length := by
    have hadvance : (ofText (source ++ '\n' :: t)).advance c.offset = { c with rest := c.rest ++ '\n' :: t } := by
      have hwith := advance_with (c := ofText source) (u := source) (y := []) (w := '\n' :: t)
        (List.append_nil source).symm h.le
      rw [← h.rest, ← h.eq] at hwith
      exact hwith
    have hsum : c.rest.length = source.length - c.offset := by rw [h.rest, List.length_drop]
    have hle := h.le
    rw [skipBlanks, ← hadvance, ← advance_add, hadvance]
    congr 1
    dsimp only
    rw [heq, hpassed.blankLength, Lexeme.blankLength_newline, ← heq]
    omega
  refine ⟨?_, ?_⟩
  · rw [hskip, advance_rest]
    exact List.drop_left
  · rw [hskip, ← advance_add, advance_joined]

end Cursor

/-! ### Joined texts -/

/-- A text does not end with the name of a function that is called. -/
theorem Cursor.Covers.rest_of_funcName {c stop : Cursor} {tokens : List Token} {last : Token} (h : c.Covers tokens stop)
    (hlast : last ∈ tokens.getLast?) (hkind : last.kind = .funcName) : 0 < stop.rest.length := by
  obtain ⟨front, rfl⟩ := List.getLast?_eq_some_iff.1 hlast
  obtain ⟨m, -, hback⟩ := h.split
  cases hback with
  | token htoken hend hmore =>
    cases hmore
    obtain ⟨lexeme, hscan, rfl, rfl⟩ := token_iff.1 htoken
    have hopen := Lexeme.head_of_scan_funcName hscan hkind
    rw [← advance_rest] at hopen
    exact List.length_pos_iff.2 fun hnil => by rw [hnil] at hopen; cases hopen
  | regex _ _ hregex =>
    rw [kind_of_regex hregex] at hkind
    cases hkind

namespace Parser

open Cursor Outline

variable {source source' : Text} {list : List Item} {s t : ParserState}

/-- The tokens of a program text stand where they did in front of a newline and another text, if none of its regular
expressions leaves a class open. -/
theorem follows_joined (t : Text)
    (hclosed : ∀ token ∈ leavesIn (list.map Item.outline), token.kind = .ere →
      Lexeme.openMarks false (token.inner source) = []) :
    Follows (Between source t) source list .none (ofText (source ++ '\n' :: t)) := by
  intro path stop hleads hcovers hend
  have hstill : Still Placement.none.span source [] ('\n' :: t) (ofText source) (ofText (source ++ '\n' :: t)) :=
    ⟨(List.append_nil source).symm, rfl, fun _ _ => rfl⟩
  have hbreaks : Breaks ('\n' :: t) := by
    rintro _ ⟨⟩
    decide
  have hwithin := (Within.ofText source).covers hcovers
  rw [← List.append_nil path]
  refine hcovers.walk_still hstill hbreaks (Nat.zero_le _) ?_ (.ofText source) ?_ rfl fun {u m'} hstill' => ?_
  · exact fun last hlast hkind => hcovers.rest_of_funcName hlast hkind
  · intro token htoken hkind mark hmark
    have hmem : token ∈ operandsOf (path.map Taken.token) :=
      List.mem_filter.2 ⟨htoken, by rw [hkind]; rfl⟩
    rw [← hleads.carries] at hmem
    rw [hclosed token (List.mem_filter.1 hmem).1 hkind] at hmark
    cases hmark
  · obtain ⟨token, behind, htoken, hkind⟩ := hend
    refine .done htoken hkind ?_
    have hrest : u = stop.rest := by rw [hstill'.rest, List.append_nil]
    rw [hstill'.eq, hrest]
    exact between_of_atEnd hwithin ⟨token, behind, htoken, hkind⟩

/-- And the tokens of the other text behind it. -/
theorem follows_behind (source source' : Text) (list : List Item) :
    Follows Cursor.Ends source' list (.behind source) ((ofText source').behind source) := fun _ hcovers hend =>
  hcovers.walk_newlines hend .refl (.inl rfl) (moved_behind source (ofText source')).skipBlanks rfl

/-- The newline between two texts is skipped. -/
theorem skips_between (h : Between source source' s.position) (hfed : Fed s)
    (htoken : ∃ token behind, ((ofText source').behind source).token = .ok (token, behind)) :
    ∃ t, SkipsTerminators s t ∧ Fed t ∧ t.position = (ofText source').behind source ∧ t.functions = s.functions ∧
      t.calls = s.calls := by
  obtain ⟨newline, hnewline, hkind⟩ := h.token
  rw [Fed, hnewline, Except.ok.injEq, Prod.mk.injEq] at hfed
  obtain ⟨rfl, hbehind⟩ := hfed
  rw [hbehind] at htoken
  obtain ⟨token, behind, htoken⟩ := htoken
  obtain ⟨t, htake, hfed, hposition, hfunctions, hcalls⟩ := takes_of_token htoken
  exact ⟨t, .step (by rw [hkind]; rfl) htake .refl, hfed, hposition.trans hbehind.symm, hfunctions, hcalls⟩

end Parser

open Awk.Parser in
/-- With a newline between them, two program texts that define no function of the same name are one program, which has
the items of the first one and then those of the second, if no regular expression of the first one leaves a class
open. -/
theorem parseProgram_joined {source source' : Text} {p q : Program} (hp : parseProgram source = .ok p)
    (hq : parseProgram source' = .ok q) (hclosed : p.ClassesClosed source)
    (hnew : ∀ f ∈ p.signatures, ∀ g ∈ q.signatures, f.1 ≠ g.1) :
    ∃ r, parseProgram (source ++ '\n' :: source') = .ok r ∧
      r.items = p.items ++ q.items.map (Item.placed (Span.behind source)) := by
  obtain ⟨s, t, hwhole⟩ := exists_whole hp
  obtain ⟨s', t', hwhole'⟩ := exists_whole hq
  have hlength := hwhole.length_lt.2
  have hfuel : fuelFor source ≤ fuelFor (source ++ '\n' :: source') ∧
      fuelFor source' ≤ fuelFor (source ++ '\n' :: source') - p.items.length := by
    simp only [fuelFor, List.length_append, List.length_cons]
    omega
  -- The first text, up to the newline.
  rw [Program.ClassesClosed, Program.outline, Outline.leaves_node] at hclosed
  have hfollows : Follows (Cursor.Between source source') source p.items .none (.ofText (source ++ '\n' :: source')) :=
    follows_joined source' hclosed
  obtain ⟨first, after, hfirst⟩ := hwhole.exists_token Cursor.Between.matches hfollows
  let start : ParserState := ⟨.ofText (source ++ '\n' :: source'), first, after, none, [], []⟩
  have hstart : Follows (Cursor.Between source source') source p.items .none start.position := hfollows
  obtain ⟨t₁, hpasses, hfunctions⟩ := hwhole.exists_passes hfuel.1 Cursor.Between.matches hstart hfirst
    (List.forall_mem_nil _) fun hcall => absurd hcall List.not_mem_nil
  -- The newline, and the second text.
  have hfollows' : Follows Cursor.Ends source' q.items (.behind source) ((Cursor.ofText source').behind source) :=
    follows_behind source source' q.items
  obtain ⟨t₂, hskip, hfed, hposition, hfunctions₂, hcalls₂⟩ :=
    skips_between hpasses.final hpasses.fed (hwhole'.exists_token Cursor.Ends.matches hfollows')
  rw [← hposition] at hfollows'
  obtain ⟨u, hitems, hcalls⟩ := hwhole'.exists_items hfuel.2 hfollows' hfed
    (by rw [hfunctions₂, hfunctions, hwhole.functions, hwhole'.functions]; exact hnew)
    (by rw [hfunctions₂, hcalls₂]; exact hpasses.calls)
  have hall := hpasses.items (items_of_skips hskip (by rw [List.length_map]; exact hitems))
  obtain ⟨r, hr, hlist⟩ := exists_program (start_ok.2 ⟨first, after, hfirst, rfl⟩) hall hcalls
  refine ⟨r, hr, hlist.trans ?_⟩
  have hsame : p.items.map (Item.placed Placement.none.span) = p.items :=
    (List.map_congr_left fun item _ => item.placed_id).trans (List.map_id _)
  rw [hsame]
  rfl

/-- A function, and a selector that a comment follows. -/
def selecting : Text := "function f(a) \x7b return a ~ /[[:digit:]/]/ \x7d\n$1 ~ /x/, f(2) # last\\".toList

/-- Semicolons, a function and its call at the end. -/
def calling : Text := "; ;function g() \x7b print f \x7d\nEND \x7b g() \x7d".toList

theorem parseProgram_joined_calling : ∃ p q r, parseProgram selecting = .ok p ∧ parseProgram calling = .ok q ∧
    p.ClassesClosed selecting ∧ (∀ f ∈ p.signatures, ∀ g ∈ q.signatures, f.1 ≠ g.1) ∧
      parseProgram (selecting ++ '\n' :: calling) = .ok r ∧
        r.items = p.items ++ q.items.map (Item.placed (Span.behind selecting)) := by
  have htests : (parseProgram selecting).toOption.any (fun p => decide
      ((∀ token ∈ p.outline.leaves, token.kind = .ere → Lexeme.openMarks false (token.inner selecting) = []) ∧
        p.signatures = [(['f'], 1)])) = true ∧
      (parseProgram calling).toOption.any (fun q => decide (q.signatures = [(['g'], 0)])) = true := by
    decide +kernel
  obtain ⟨p, hp, hfirst⟩ := (Option.any_eq_true _ _).1 htests.1
  obtain ⟨q, hq, hsecond⟩ := (Option.any_eq_true _ _).1 htests.2
  obtain ⟨hclosed, hsignatures⟩ := of_decide_eq_true hfirst
  rw [Action.toOption_eq_some] at hp hq
  have hnew : ∀ f ∈ p.signatures, ∀ g ∈ q.signatures, f.1 ≠ g.1 := by
    rw [hsignatures, of_decide_eq_true hsecond]
    decide
  obtain ⟨r, hr, hitems⟩ := parseProgram_joined hp hq hclosed hnew
  exact ⟨p, q, r, hp, hq, hclosed, hnew, hr, hitems⟩

end Awk
