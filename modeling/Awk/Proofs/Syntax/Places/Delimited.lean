import Awk.Proofs.Syntax.Places.Moves

/-!
# Places that delimit the text of a node

The tokens of a program text belong to the nodes of its tree: those that a construct opens with, those of its children
from left to right, and the operators and punctuation between and behind them.  Places delimit the text
(`Outline.Delimits`) when every node reaches from the first of its tokens to the last.  Then the places of the parts of
a node lie in it, and one behind the other (`Outline.nested`).

The parser places the pipes into `getline` of the right operand of a comparison as if they began where the comparison
does (`Expr.pipedFrom`).  For outlines that are placed in this way (`Outline.Spells`) the two laws hold exactly if no
comparison has a pipe for its right operand (`Outline.pipesRight`).
-/

namespace Awk

/-- Tokens that are no operands. -/
def Marks (tokens : List Token) : Prop := ∀ token ∈ tokens, token.kind.isOperand = false

theorem Marks.nil : Marks [] := List.forall_mem_nil _

theorem Marks.append {tokens tokens' : List Token} (h : Marks tokens) (h' : Marks tokens') : Marks (tokens ++ tokens') :=
  List.forall_mem_append.2 ⟨h, h'⟩

namespace Outline

/-! ### Definitions -/

/-- What a construct may open with before its first child.  Most constructs begin with their first child. -/
def openings : String → List (List TokenKind)
  | "group" => [[.lpar]]
  | "subscripts" => [[], [.lpar]]
  | "field" => [[.dollar]]
  | "simple_getline" | "file_getline" => [[.getline]]
  | "block" => [[.lbrace]]
  | "if_stmt" => [[.if]]
  | "while_stmt" => [[.while]]
  | "do_stmt" => [[.do]]
  | "for_stmt" | "for_in_stmt" => [[.for]]
  | "empty_stmt" => [[.semi]]
  | "delete_stmt" => [[.delete]]
  | "break_stmt" => [[.break]]
  | "continue_stmt" => [[.continue]]
  | "next_stmt" => [[.next]]
  | "nextfile_stmt" => [[.nextFile]]
  | "exit_stmt" => [[.exit]]
  | "return_stmt" => [[.return]]
  | "begin" => [[.begin]]
  | "end" => [[.end]]
  | "function_def" => [[.function]]
  | _ => [[]]

/-- A node, if it has a place, reaches from the first of its tokens to the last. -/
def Reaches (span : Option Span) (tokens : List Token) : Prop := ∀ place ∈ span, tokens ≠ [] ∧ place = extentOf tokens

/-- The tokens of some outlines from left to right, each behind its outline with the marks up to the next one.  The
marks between what a construct opens with and its first child are its own. -/
inductive Delimits : List Outline → List Token → Prop
  | nil : Delimits [] []
  | leaf {token gap os tokens} (hgap : Marks gap) (hmore : Delimits os tokens) :
    Delimits (leaf token :: os) (token :: gap ++ tokens)
  | node {label span children opening before inner gap os tokens}
    (hopening : opening.map Token.kind ∈ openings label) (hbefore : Marks before) (hfirst : opening = [] → before = [])
    (hchildren : Delimits children inner) (hspan : Reaches span (opening ++ before ++ inner)) (hgap : Marks gap)
    (hmore : Delimits os tokens) :
    Delimits (node label span children :: os) (opening ++ before ++ inner ++ gap ++ tokens)

mutual

/-- The places of a tree: its own, or if it has none those of its children. -/
def places : Outline → List Span
  | node _ (some span) _ => [span]
  | node _ none children => placesIn children
  | leaf token => [token.span]
  | value _ => []

def placesIn : List Outline → List Span
  | [] => []
  | o :: os => o.places ++ placesIn os

end

/-- The places of children lie in the place of their node, if it has one, and do not overlap from left to right. -/
def holds (span : Option Span) (inner : List Span) : Bool :=
  (span.all fun outer => inner.all fun place => outer.start ≤ place.start && place.stop ≤ outer.stop) &&
    inner.Pairwise fun a b => a.stop ≤ b.start

mutual

/-- Every node of a tree holds its children. -/
def nested : Outline → Bool
  | node _ span children => holds span (placesIn children) && nestedIn children
  | _ => true

def nestedIn : List Outline → Bool
  | [] => true
  | o :: os => o.nested && nestedIn os

end

def isPipe : Outline → Bool
  | node label _ _ => label == "pipe_getline"
  | _ => false

mutual

/-- A comparison somewhere in the tree has a pipe into `getline` for its right operand. -/
def pipesRight : Outline → Bool
  | node label _ children => label == "compare" && children.getLast?.any isPipe || pipesRightIn children
  | _ => false

def pipesRightIn : List Outline → Bool
  | [] => false
  | o :: os => o.pipesRight || pipesRightIn os

end

end Outline

/-- The expression with its pipes into `getline` placed as if they began where a place does. -/
def Expr.pipedFrom (start : Span) : Expr → Expr
  | .getlineCommand span command target =>
    .getlineCommand { start with stop := span.stop } (command.pipedFrom start) target
  | e => e

namespace Outline

/-- As `Delimits`, but for the pipes of the right operand of a comparison, which begin where the comparison does. -/
inductive Spells : List Outline → List Token → Prop
  | nil : Spells [] []
  | leaf {token gap os tokens} (hgap : Marks gap) (hmore : Spells os tokens) :
    Spells (leaf token :: os) (token :: gap ++ tokens)
  | node {label span children opening before inner gap os tokens} (hcompare : label ≠ "compare")
    (hopening : opening.map Token.kind ∈ openings label) (hbefore : Marks before) (hfirst : opening = [] → before = [])
    (hchildren : Spells children inner) (hspan : Reaches span (opening ++ before ++ inner)) (hgap : Marks gap)
    (hmore : Spells os tokens) : Spells (node label span children :: os) (opening ++ before ++ inner ++ gap ++ tokens)
  | compare {left right : Expr} {mark : Token} {inner inner' gap os tokens} (hleft : Spells [left.outline] inner)
    (hright : Spells [right.outline] inner') (hgap : Marks gap) (hmore : Spells os tokens) :
    Spells (node "compare" (some (extentOf (inner ++ mark :: inner')))
      [left.outline, .leaf mark, (right.pipedFrom (extentOf (inner ++ mark :: inner'))).outline] :: os)
      (inner ++ mark :: inner' ++ gap ++ tokens)

/-! ### Putting outlines together -/

variable {os os' : List Outline} {tokens tokens' gap : List Token}

theorem Spells.single (token : Token) : Spells [.leaf token] [token] := .leaf .nil .nil

/-- A node that opens with nothing before its first child. -/
theorem Spells.around {label : String} {span : Option Span} (hcompare : label ≠ "compare") (hopening : [] ∈ openings label)
    (h : Spells os tokens) (hspan : Reaches span tokens) : Spells [Outline.node label span os] tokens := by
  have hnode : Spells [Outline.node label span os] ([] ++ [] ++ tokens ++ [] ++ []) :=
    .node hcompare (show List.map Token.kind [] ∈ openings label from hopening) .nil (fun _ => rfl) h hspan .nil .nil
  rwa [List.append_nil, List.append_nil] at hnode

/-- A node that opens with a token of its own, and marks behind it. -/
theorem Spells.opened {label : String} {span : Option Span} {first : Token} {before : List Token}
    (hcompare : label ≠ "compare") (hopening : [first.kind] ∈ openings label) (hbefore : Marks before) (h : Spells os tokens)
    (hspan : Reaches span (first :: before ++ tokens)) : Spells [Outline.node label span os] (first :: before ++ tokens) := by
  have hnode : Spells [Outline.node label span os] ([first] ++ before ++ tokens ++ [] ++ []) :=
    .node hcompare (show List.map Token.kind [first] ∈ openings label from hopening) hbefore (fun h => by cases h) h hspan
      .nil .nil
  rwa [List.append_nil, List.append_nil] at hnode

theorem Spells.compared {left right : Expr} (mark : Token) (hleft : Spells [left.outline] tokens)
    (hright : Spells [right.outline] tokens') :
    Spells [Outline.node "compare" (some (extentOf (tokens ++ mark :: tokens')))
      [left.outline, .leaf mark, (right.pipedFrom (extentOf (tokens ++ mark :: tokens'))).outline]]
      (tokens ++ mark :: tokens') := by
  have hnode : Spells _ (tokens ++ mark :: tokens' ++ [] ++ []) := .compare hleft hright .nil .nil
  rwa [List.append_nil, List.append_nil] at hnode

theorem Delimits.around {label : String} {span : Option Span} (hopening : [] ∈ openings label) (h : Delimits os tokens)
    (hspan : Reaches span tokens) (hgap : Marks gap) (hmore : Delimits os' tokens') :
    Delimits (Outline.node label span os :: os') (tokens ++ gap ++ tokens') :=
  .node (show List.map Token.kind [] ∈ openings label from hopening) .nil (fun _ => rfl) h hspan hgap hmore

theorem Delimits.append (h : Delimits os tokens) (h' : Delimits os' tokens') :
    Delimits (os ++ os') (tokens ++ tokens') := by
  induction h with
  | nil => exact h'
  | leaf hgap hmore ih =>
    rw [List.append_assoc]
    exact .leaf hgap ih
  | node hopening hbefore hfirst hchildren hspan hgap hmore ihchildren ih =>
    rw [List.append_assoc]
    exact .node hopening hbefore hfirst hchildren hspan hgap ih

theorem Spells.append (h : Spells os tokens) (h' : Spells os' tokens') : Spells (os ++ os') (tokens ++ tokens') := by
  induction h with
  | nil => exact h'
  | leaf hgap hmore ih =>
    rw [List.append_assoc]
    exact .leaf hgap ih
  | node hcompare hopening hbefore hfirst hchildren hspan hgap hmore ihchildren ih =>
    rw [List.append_assoc]
    exact .node hcompare hopening hbefore hfirst hchildren hspan hgap ih
  | compare hleft hright hgap hmore ihleft ihright ih =>
    rw [List.append_assoc]
    exact .compare hleft hright hgap ih

/-- Marks behind some outlines belong to what the outlines are children of. -/
theorem Spells.marks (h : Spells os tokens) (hne : os ≠ []) (hgap : Marks gap) : Spells os (tokens ++ gap) := by
  induction h with
  | nil => exact absurd rfl hne
  | @leaf token gap' os tokens hgap' hmore ih =>
    by_cases hos : os = []
    · subst hos
      cases hmore
      simpa using Spells.leaf (hgap'.append hgap) .nil
    · rw [List.append_assoc]
      exact .leaf hgap' (ih hos)
  | @node label span children opening before inner gap' os tokens hcompare hopening hbefore hfirst hchildren hspan hgap'
      hmore ihchildren ih =>
    by_cases hos : os = []
    · subst hos
      cases hmore
      simpa using Spells.node hcompare hopening hbefore hfirst hchildren hspan (hgap'.append hgap) .nil
    · rw [List.append_assoc]
      exact .node hcompare hopening hbefore hfirst hchildren hspan hgap' (ih hos)
  | @compare left right mark inner inner' gap' os tokens hleft hright hgap' hmore ihleft ihright ih =>
    by_cases hos : os = []
    · subst hos
      cases hmore
      have hmore : Spells _ (inner ++ mark :: inner' ++ (gap' ++ gap) ++ []) :=
        .compare hleft hright (hgap'.append hgap) .nil
      simpa using hmore
    · rw [List.append_assoc]
      exact .compare hleft hright hgap' (ih hos)

/-! ### Expressions with a place -/

theorem isPipe_outline (e : Expr) :
    e.outline.isPipe = true ↔ ∃ span command target, e = .getlineCommand span command target := by
  cases e with
  | lvalue target => cases target <;> simp [Expr.outline, LValue.outline, isPipe]
  | logical span op left right => cases op <;> simp [Expr.outline, isPipe]
  | _ => simp [Expr.outline, isPipe]

/-- What is spelt in a text is a tree with a place. -/
theorem places_of_spells {e : Expr} (h : Spells (e.outline :: os) tokens) : ∃ place, e.outline.places = [place] := by
  cases e with
  | literal v =>
    rw [Expr.outline] at h
    cases h
  | lvalue target => cases target <;> exact ⟨_, by rw [Expr.outline, LValue.outline, places]⟩
  | logical span op left right => cases op <;> exact ⟨_, by rw [Expr.outline, places]⟩
  | _ => exact ⟨_, by rw [Expr.outline, places]⟩

theorem pipedFrom_of_not_isPipe {e : Expr} (start : Span) (h : e.outline.isPipe = false) : e.pipedFrom start = e := by
  unfold Expr.pipedFrom
  split
  · simp [Expr.outline, isPipe] at h
  · rfl

theorem isPipe_pipedFrom (start : Span) (e : Expr) : (e.pipedFrom start).outline.isPipe = e.outline.isPipe := by
  unfold Expr.pipedFrom
  split
  · simp [Expr.outline, isPipe]
  · rfl

/-! ### The laws for what is spelt -/

/-- Places that begin with one of some tokens and end with one. -/
def Bounded (tokens : List Token) (places : List Span) : Prop :=
  ∀ place ∈ places, ∃ a ∈ tokens, ∃ b ∈ tokens, place.start = a.span.start ∧ place.stop = b.span.stop

theorem Bounded.mono {places : List Span} (h : Bounded tokens places) (hsub : tokens ⊆ tokens') :
    Bounded tokens' places := by
  intro place hplace
  obtain ⟨a, ha, b, hb, heq⟩ := h place hplace
  exact ⟨a, hsub ha, b, hsub hb, heq⟩

theorem Bounded.append {places places' : List Span} (h : Bounded tokens places) (h' : Bounded tokens' places') :
    Bounded (tokens ++ tokens') (places ++ places') := by
  intro place hplace
  rcases List.mem_append.1 hplace with hplace | hplace
  · exact h.mono (List.subset_append_left _ _) place hplace
  · exact h'.mono (List.subset_append_right _ _) place hplace

theorem bounded_extentOf (hne : tokens ≠ []) : Bounded tokens [extentOf tokens] := by
  intro place hplace
  obtain rfl := List.mem_singleton.1 hplace
  obtain ⟨a, ha⟩ := Option.isSome_iff_exists.1 (List.isSome_head?.2 hne)
  exact ⟨a, List.mem_of_mem_head? ha, tokens.getLast hne, List.getLast_mem hne, extentOf_start ha,
    extentOf_stop (List.getLast?_eq_some_getLast hne)⟩

theorem bounded_leaf (token : Token) (gap : List Token) : Bounded (token :: gap) [token.span] := by
  intro place hplace
  obtain rfl := List.mem_singleton.1 hplace
  exact ⟨token, List.mem_cons_self, token, List.mem_cons_self, rfl, rfl⟩

theorem Spells.bounded (h : Spells os tokens) : Bounded tokens (placesIn os) := by
  induction h with
  | nil => exact List.forall_mem_nil _
  | leaf hgap hmore ih => exact (bounded_leaf _ _).append ih
  | @node label span children opening before inner gap os tokens hcompare hopening hbefore hfirst hchildren hspan hgap
      hmore ihchildren ih =>
    refine Bounded.append (.mono ?_ (List.subset_append_left _ gap)) ih
    cases span with
    | none => exact ihchildren.mono (List.subset_append_right _ _)
    | some span =>
      obtain ⟨hne, rfl⟩ := hspan span rfl
      exact bounded_extentOf hne
  | compare hleft hright hgap hmore ihleft ihright ih =>
    exact ((bounded_extentOf (by simp)).mono (List.subset_append_left _ _)).append ih

theorem reaches_extentOf (hne : tokens ≠ []) : Reaches (some (extentOf tokens)) tokens := by
  rintro _ ⟨⟩
  exact ⟨hne, rfl⟩

/-- Tokens of a text, which take some of it from left to right. -/
structure Ordered (tokens : List Token) : Prop where
  order : InOrder tokens
  extent : ∀ token ∈ tokens, token.span.start < token.span.stop

theorem Ordered.of_append (h : Ordered (tokens ++ tokens')) : Ordered tokens ∧ Ordered tokens' :=
  ⟨⟨(List.pairwise_append.1 h.order).1, fun t ht => h.extent t (List.mem_append_left _ ht)⟩,
    ⟨(List.pairwise_append.1 h.order).2.1, fun t ht => h.extent t (List.mem_append_right _ ht)⟩⟩

theorem Ordered.within (h : Ordered tokens) {token : Token} (htoken : token ∈ tokens) :
    (extentOf tokens).start ≤ token.span.start ∧ token.span.stop ≤ (extentOf tokens).stop := by
  have hne := List.ne_nil_of_mem htoken
  constructor
  · obtain ⟨first, rest, rfl⟩ := List.exists_cons_of_ne_nil hne
    rcases List.mem_cons.1 htoken with rfl | hrest
    · exact Nat.le_refl _
    · have hbehind := (List.pairwise_cons.1 h.order).1 token hrest
      have hfirst := h.extent first List.mem_cons_self
      exact Nat.le_trans (Nat.le_of_lt hfirst) hbehind
  · have hlast := List.dropLast_concat_getLast hne
    rw [extentOf_stop (List.getLast?_eq_some_getLast hne)]
    rw [← hlast, List.mem_append, List.mem_singleton] at htoken
    rcases htoken with hrest | heq
    · have hbefore := h.order
      rw [← hlast] at hbefore
      have hle := (List.pairwise_append.1 hbefore).2.2 token hrest _ List.mem_cons_self
      have hlt := h.extent _ (List.getLast_mem hne)
      omega
    · rw [heq]

/-- None of some places overlaps another one, and they stand from left to right. -/
abbrev Successive (places : List Span) : Prop := places.Pairwise fun a b => a.stop ≤ b.start

theorem Successive.append (horder : Ordered (tokens ++ tokens')) {places places' : List Span} (h : Successive places)
    (hbounded : Bounded tokens places) (h' : Successive places') (hbounded' : Bounded tokens' places') :
    Successive (places ++ places') := by
  refine List.pairwise_append.2 ⟨h, h', fun place hplace place' hplace' => ?_⟩
  obtain ⟨-, -, b, hb, -, hstop⟩ := hbounded place hplace
  obtain ⟨a, ha, -, -, hstart, -⟩ := hbounded' place' hplace'
  rw [hstop, hstart]
  exact (List.pairwise_append.1 horder.order).2.2 b hb a ha

theorem Spells.successive (h : Spells os tokens) (horder : Ordered tokens) : Successive (placesIn os) := by
  induction h with
  | nil => exact .nil
  | leaf hgap hmore ih =>
    exact Successive.append horder (List.pairwise_singleton _ _) (bounded_leaf _ _) (ih horder.of_append.2) hmore.bounded
  | @node label span children opening before inner gap os tokens hcompare hopening hbefore hfirst hchildren hspan hgap
      hmore ihchildren ih =>
    have hnode := (Spells.node hcompare hopening hbefore hfirst hchildren hspan hgap .nil).bounded
    rw [placesIn, placesIn, List.append_nil, List.append_nil] at hnode
    refine Successive.append horder ?_ hnode (ih horder.of_append.2) hmore.bounded
    cases span with
    | none => exact ihchildren horder.of_append.1.of_append.1.of_append.2
    | some span => exact List.pairwise_singleton _ _
  | compare hleft hright hgap hmore ihleft ihright ih =>
    refine Successive.append horder (List.pairwise_singleton _ _) ?_ (ih horder.of_append.2) hmore.bounded
    exact (bounded_extentOf (by simp)).mono (List.subset_append_left _ _)

/-- The place of a node holds what is spelt by its tokens. -/
theorem holds_of_spells {span : Option Span} (before : List Token) (h : Spells os tokens)
    (horder : Ordered (before ++ tokens)) (hspan : Reaches span (before ++ tokens)) : holds span (placesIn os) = true := by
  rw [holds, Bool.and_eq_true, decide_eq_true_eq]
  refine ⟨?_, h.successive horder.of_append.2⟩
  cases span with
  | none => rfl
  | some span =>
    obtain ⟨-, rfl⟩ := hspan span rfl
    rw [Option.all_some, List.all_eq_true]
    intro place hplace
    obtain ⟨a, ha, b, hb, hstart, hstop⟩ := h.bounded place hplace
    have hbefore := (horder.within (List.mem_append_right before ha)).1
    have hbehind := (horder.within (List.mem_append_right before hb)).2
    rw [Bool.and_eq_true, decide_eq_true_eq, decide_eq_true_eq, hstart, hstop]
    exact ⟨hbefore, hbehind⟩

/-- A comparison with a pipe for its right operand does not hold its children apart. -/
theorem holds_compare_pipe {left right : Expr} {mark : Token} (hleft : Spells [left.outline] tokens)
    (hright : right.outline.isPipe = true) (horder : Ordered tokens) :
    holds (some (extentOf (tokens ++ mark :: tokens')))
      (placesIn [left.outline, .leaf mark, (right.pipedFrom (extentOf (tokens ++ mark :: tokens'))).outline]) =
        false := by
  obtain ⟨place, hplace⟩ := places_of_spells hleft
  obtain ⟨span, command, target, rfl⟩ := (isPipe_outline right).1 hright
  obtain ⟨a, ha, b, hb, hstart, hstop⟩ := hleft.bounded place (by simp [placesIn, hplace])
  -- The pipe begins with the first token of the comparison, which the left operand takes.
  have hfirst : (extentOf (tokens ++ mark :: tokens')).start = (extentOf tokens).start := by
    obtain ⟨first, rest, rfl⟩ := List.exists_cons_of_ne_nil (List.ne_nil_of_mem ha)
    rfl
  have hbefore := (horder.within hb).1
  have hlt := horder.extent b hb
  rw [holds, Bool.and_eq_false_iff]
  refine .inr (decide_eq_false fun hpairs => ?_)
  rw [Expr.pipedFrom, Expr.outline, placesIn, hplace, placesIn, placesIn, places, places] at hpairs
  have hle := (List.pairwise_cons.1 hpairs).1 _ (List.mem_cons_of_mem _ List.mem_cons_self)
  rw [hfirst, hstop] at hle
  omega

/-- Every node holds its children if and only if no comparison has a pipe for its right operand. -/
theorem Spells.nested_iff (h : Spells os tokens) (horder : Ordered tokens) :
    nestedIn os = true ↔ pipesRightIn os = false := by
  induction h with
  | nil => simp [nestedIn, pipesRightIn]
  | @leaf token gap os tokens hgap hmore ih =>
    have hleaf : (Outline.leaf token).nested = true ∧ (Outline.leaf token).pipesRight = false := ⟨rfl, rfl⟩
    rw [nestedIn, pipesRightIn, hleaf.1, hleaf.2, Bool.true_and, Bool.false_or]
    have htokens : Ordered (token :: gap ++ tokens) := horder
    exact ih htokens.of_append.2
  | @node label span children opening before inner gap os tokens hcompare hopening hbefore hfirst hchildren hspan hgap
      hmore ihchildren ih =>
    have hinner := horder.of_append.1.of_append.1
    rw [nestedIn, pipesRightIn, nested, pipesRight, holds_of_spells _ hchildren hinner hspan, beq_false_of_ne hcompare,
      Bool.true_and, Bool.false_and, Bool.false_or, Bool.and_eq_true, Bool.or_eq_false_iff,
      ihchildren hinner.of_append.2, ih horder.of_append.2]
  | @compare left right mark inner inner' gap os tokens hleft hright hgap hmore ihleft ihright ih =>
    have hinner := horder.of_append.1.of_append.1
    have hchildren : Spells [left.outline, .leaf mark, right.outline] (inner ++ mark :: inner') :=
      hleft.append (.leaf .nil hright)
    rw [nestedIn, pipesRightIn, nested, pipesRight, Bool.and_eq_true, Bool.or_eq_false_iff, ih horder.of_append.2]
    refine and_congr_left fun _ => ?_
    cases hpipe : right.outline.isPipe with
    | true =>
      rw [holds_compare_pipe hleft hpipe hinner.of_append.1]
      simp [isPipe_pipedFrom, hpipe]
    | false =>
      have hright' : Ordered ([mark] ++ inner') := hinner.of_append.2
      rw [pipedFrom_of_not_isPipe _ hpipe]
      have hholds : holds (some (extentOf (inner ++ mark :: inner')))
          (placesIn [left.outline, .leaf mark, right.outline]) = true :=
        holds_of_spells [] hchildren hinner (reaches_extentOf (by simp))
      have hboth := and_congr (ihleft hinner.of_append.1)
        (ihright hright'.of_append.2)
      simp only [nestedIn, pipesRightIn, Bool.and_true, Bool.or_false] at hboth
      simp [hholds, nestedIn, pipesRightIn, nested, pipesRight, hpipe, hboth]

/-- Where no comparison has a pipe for its right operand, the places delimit the text. -/
theorem Spells.delimits (h : Spells os tokens) (hpipes : pipesRightIn os = false) : Delimits os tokens := by
  induction h with
  | nil => exact .nil
  | leaf hgap hmore ih =>
    rw [pipesRightIn, Bool.or_eq_false_iff] at hpipes
    exact .leaf hgap (ih hpipes.2)
  | node hcompare hopening hbefore hfirst hchildren hspan hgap hmore ihchildren ih =>
    rw [pipesRightIn, pipesRight, Bool.or_eq_false_iff, Bool.or_eq_false_iff] at hpipes
    exact .node hopening hbefore hfirst (ihchildren hpipes.1.2) hspan hgap (ih hpipes.2)
  | @compare left right mark inner inner' gap os tokens hleft hright hgap hmore ihleft ihright ih =>
    rw [pipesRightIn, pipesRight, Bool.or_eq_false_iff, Bool.or_eq_false_iff] at hpipes
    obtain ⟨⟨hpipe, hchildren⟩, hos⟩ := hpipes
    have hright' : right.outline.isPipe = false := by simpa [isPipe_pipedFrom] using hpipe
    rw [pipedFrom_of_not_isPipe _ hright'] at hchildren ⊢
    simp only [pipesRightIn, Bool.or_eq_false_iff] at hchildren
    have hdelimits : Delimits [left.outline, .leaf mark, right.outline] (inner ++ mark :: inner') :=
      (ihleft (by simp [pipesRightIn, hchildren.1])).append
        (.leaf .nil (ihright (by simp [pipesRightIn, hchildren.2.2])))
    exact .around (by decide) hdelimits (reaches_extentOf (by simp)) hgap (ih hos)

end Outline

end Awk
