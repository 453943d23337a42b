import Awk.Printf.Basic
import Awk.Proofs.Action
import Awk.Proofs.Regex.Translation

/-!
# Formats, piece by piece

A format is put together from texts without a percent sign and complete directives.  A complete directive is read the
same whatever follows it (`readDirective_append`), and it looks at no more arguments than it takes
(`formatDirective_handed`).  So the pieces can be formatted one by one, each with its own arguments
(`sprintf_pieces`): the first ones that those before it have left.
-/

namespace Awk.Printf

open Awk.Action

/-! ### Pieces -/

/-- The format that a segment is written as. -/
def Segment.written : Segment → Text
  | .text t => t
  | .directive d => d.text

/-- A text without a percent sign, or a directive with a conversion that is read from its own text to the end. -/
def Segment.IsPiece : Segment → Prop
  | .text t => '%' ∉ t
  | .directive d => d.text = '%' :: d.text.tail ∧ readDirective d.text.tail = (d, []) ∧ d.conversion.isSome

instance : DecidablePred Segment.IsPiece := fun s => by
  cases s <;> unfold Segment.IsPiece <;> infer_instance

/-- How many arguments a piece takes: none for a percent sign, else one for each star and one for a value to convert. -/
def Segment.taken : Segment → Nat
  | .text _ => 0
  | .directive d =>
    if d.conversion = some '%' then 0
    else d.text.count '*' + if d.conversion.any converts then 1 else 0

/-- The first arguments, as many as are asked for, unset when there are no more. -/
def handed (n : Nat) (args : List Value) : List Value := (List.range n).map fun i => args.getD i .unset

/-- The pieces, each with the arguments that are handed to it, from left to right. -/
def deal : List Segment → List Value → List (Segment × List Value)
  | [], _ => []
  | piece :: pieces, args => (piece, handed piece.taken args) :: deal pieces (args.drop piece.taken)

/-! ### Reading a directive with something behind it -/

variable {t rest : Text} {c : Char}

theorem span_append {p : Char → Bool} (h : t.dropWhile p ≠ []) (rest : Text) :
    (t ++ rest).takeWhile p = t.takeWhile p ∧ (t ++ rest).dropWhile p = t.dropWhile p ++ rest := by
  induction t with
  | nil => exact absurd rfl h
  | cons a t ih =>
    cases ha : p a with
    | true =>
      rw [List.dropWhile_cons_of_pos ha] at h
      obtain ⟨htake, hdrop⟩ := ih h
      rw [List.cons_append, List.takeWhile_cons_of_pos ha, List.dropWhile_cons_of_pos ha, htake, hdrop,
        List.takeWhile_cons_of_pos ha, List.dropWhile_cons_of_pos ha]
      exact ⟨rfl, rfl⟩
    | false =>
      have hnot : ¬p a = true := by simp [ha]
      rw [List.cons_append, List.takeWhile_cons_of_neg hnot, List.dropWhile_cons_of_neg hnot,
        List.takeWhile_cons_of_neg hnot, List.dropWhile_cons_of_neg hnot]
      exact ⟨rfl, rfl⟩

theorem takeExtent_append (h : (takeExtent t).2 ≠ []) :
    takeExtent (t ++ rest) = ((takeExtent t).1, (takeExtent t).2 ++ rest) := by
  cases t with
  | nil => exact absurd rfl h
  | cons a t =>
    unfold takeExtent at h ⊢
    rw [List.cons_append]
    dsimp only at h ⊢
    split
    · rfl
    · rename_i hstar
      rw [if_neg hstar] at h
      split
      · rename_i hdigit
        rw [if_pos hdigit] at h
        obtain ⟨htake, hdrop⟩ := span_append h rest
        rw [← List.cons_append, htake, hdrop]
      · rfl

/-- A precision without digits. -/
def Extent.orDigits : Extent → Extent
  | .absent => .digits []
  | e => e

theorem takePrecision_point (t : Text) : takePrecision ('.' :: t) = ((takeExtent t).1.orDigits, (takeExtent t).2) := by
  rw [takePrecision]
  rcases takeExtent t with ⟨extent, behind⟩
  cases extent <;> rfl

theorem takePrecision_of_ne (h : c ≠ '.') : takePrecision (c :: t) = (.absent, c :: t) := by
  unfold takePrecision
  split
  · rename_i heq
    exact absurd (List.cons.inj heq).1 h
  · rfl

theorem takePrecision_append (h : (takePrecision t).2 ≠ []) :
    takePrecision (t ++ rest) = ((takePrecision t).1, (takePrecision t).2 ++ rest) := by
  cases t with
  | nil => exact absurd rfl h
  | cons a t =>
    rw [List.cons_append]
    by_cases hpoint : a = '.'
    · subst hpoint
      rw [takePrecision_point] at h
      rw [takePrecision_point, takePrecision_point, takeExtent_append h]
    · rw [takePrecision_of_ne hpoint, takePrecision_of_ne hpoint]
      rfl

/-- The letters of the length modifiers. -/
abbrev modifierLetters : Text := "hlLqjzt".toList

theorem dropModifier_of_not (h : modifierLetters.contains c = false) : dropModifier (c :: t) = c :: t := by
  unfold dropModifier
  split
  · rename_i heq
    cases heq
    exact absurd h (by decide)
  · rename_i heq
    cases heq
    exact absurd h (by decide)
  · rename_i heq
    cases heq
    exact if_neg (Bool.eq_false_iff.1 h)
  · rename_i heq
    cases heq

theorem dropModifier_singleton (c : Char) : dropModifier [c] = if modifierLetters.contains c then [] else [c] := by
  unfold dropModifier
  split
  · rename_i heq
    cases heq
  · rename_i heq
    cases heq
  · rename_i heq
    cases heq
    rfl
  · rename_i heq
    cases heq

theorem dropModifier_cons_cons (a b : Char) (t : Text) : dropModifier (a :: b :: t) =
    if a = 'h' ∧ b = 'h' ∨ a = 'l' ∧ b = 'l' then t
    else if modifierLetters.contains a then b :: t else a :: b :: t := by
  split
  · rename_i htwo
    rcases htwo with ⟨rfl, rfl⟩ | ⟨rfl, rfl⟩ <;> rfl
  · rename_i hnot
    unfold dropModifier
    split
    · rename_i heq
      cases heq
      exact absurd (.inl ⟨rfl, rfl⟩) hnot
    · rename_i heq
      cases heq
      exact absurd (.inr ⟨rfl, rfl⟩) hnot
    · rename_i heq
      cases heq
      rfl
    · rename_i heq
      cases heq

theorem dropModifier_append (h : dropModifier t ≠ []) : dropModifier (t ++ rest) = dropModifier t ++ rest := by
  match t, h with
  | [], h => exact absurd rfl h
  | [a], h =>
    rw [dropModifier_singleton] at h
    have ha : modifierLetters.contains a = false := Bool.eq_false_iff.2 fun hmodifier => h (if_pos hmodifier)
    rw [List.cons_append, dropModifier_of_not ha, dropModifier_of_not ha]
    rfl
  | a :: b :: t, h =>
    rw [List.cons_append, List.cons_append, dropModifier_cons_cons, dropModifier_cons_cons]
    split
    · rfl
    · split <;> rfl

theorem takeConversion_eq_some {u : Text} (h : takeConversion t = (some c, u)) : t = c :: u ∧ isConversion c = true := by
  cases t with
  | nil => cases h
  | cons a t =>
    unfold takeConversion at h
    dsimp only at h
    split at h
    · rename_i ha
      cases h
      exact ⟨rfl, ha⟩
    · cases h

variable {d : Directive}

/-- Of a complete directive the conversion is left when all other parts have been read. -/
theorem behind_modifier (h : readDirective t = (d, [])) (hc : d.conversion = some c) :
    dropModifier (takePrecision (takeExtent (t.dropWhile isFlag)).2).2 = [c] ∧ isConversion c = true := by
  refine takeConversion_eq_some (Prod.ext ?_ ?_)
  · exact (congrArg (fun r => r.1.conversion) h).trans hc
  · exact congrArg (fun r => r.2) h

theorem parts_of_complete (h : readDirective t = (d, [])) (hc : d.conversion = some c) :
    d = ⟨'%' :: t, t.takeWhile isFlag, (takeExtent (t.dropWhile isFlag)).1,
      (takePrecision (takeExtent (t.dropWhile isFlag)).2).1, some c⟩ := by
  obtain ⟨hmodifier, hconversion⟩ := behind_modifier h hc
  have hnone : takeConversion [c] = (some c, []) := if_pos hconversion
  unfold readDirective at h
  dsimp only at h
  rw [hmodifier, hnone, List.length_nil, Nat.sub_zero, List.take_length] at h
  exact (congrArg Prod.fst h).symm

/-- A complete directive is read the same whatever follows it. -/
theorem readDirective_append (h : readDirective t = (d, [])) (hc : d.conversion = some c) (rest : Text) :
    readDirective (t ++ rest) = (d, rest) := by
  obtain ⟨hmodifier, hconversion⟩ := behind_modifier h hc
  have hmodifier' : dropModifier (takePrecision (takeExtent (t.dropWhile isFlag)).2).2 ≠ [] := by simp [hmodifier]
  have hprecision : (takePrecision (takeExtent (t.dropWhile isFlag)).2).2 ≠ [] := fun hnil => by
    rw [hnil] at hmodifier'
    exact hmodifier' rfl
  have hwidth : (takeExtent (t.dropWhile isFlag)).2 ≠ [] := fun hnil => by
    rw [hnil] at hprecision
    exact hprecision rfl
  have hflags : t.dropWhile isFlag ≠ [] := fun hnil => by
    rw [hnil] at hwidth
    exact hwidth rfl
  obtain ⟨htake, hdrop⟩ := span_append hflags rest
  have hrest : takeConversion (c :: rest) = (some c, rest) := if_pos hconversion
  rw [parts_of_complete h hc]
  unfold readDirective
  dsimp only
  rw [htake, hdrop, takeExtent_append hwidth, takePrecision_append hprecision, dropModifier_append hmodifier', hmodifier]
  dsimp only [List.cons_append, List.nil_append]
  rw [hrest, List.length_append, Nat.add_sub_cancel, List.take_left]

/-! ### The stars of a directive -/

/-- How many stars an extent is written with. -/
def Extent.stars : Extent → Nat
  | .absent => 0
  | .star => 1
  | .digits _ => 0

theorem count_dropWhile {p : Char → Bool} (hp : p '*' = false) (t : Text) :
    (t.dropWhile p).count '*' = t.count '*' := by
  induction t with
  | nil => rfl
  | cons a t ih =>
    cases ha : p a with
    | true =>
      have hne : a ≠ '*' := fun h => by
        rw [h, hp] at ha
        cases ha
      rw [List.dropWhile_cons_of_pos ha, List.count_cons_of_ne hne, ih]
    | false => rw [List.dropWhile_cons_of_neg (by simp [ha])]

theorem count_takeExtent (t : Text) : t.count '*' = (takeExtent t).1.stars + (takeExtent t).2.count '*' := by
  cases t with
  | nil => rfl
  | cons a t =>
    unfold takeExtent
    dsimp only
    split
    · rename_i hstar
      rw [hstar, List.count_cons_self, Nat.add_comm]
      rfl
    · split
      · rw [count_dropWhile (by decide), Extent.stars, Nat.zero_add]
      · rw [Extent.stars, Nat.zero_add]

theorem stars_orDigits (e : Extent) : e.orDigits.stars = e.stars := by
  cases e <;> rfl

theorem count_takePrecision (t : Text) : t.count '*' = (takePrecision t).1.stars + (takePrecision t).2.count '*' := by
  cases t with
  | nil => rfl
  | cons a t =>
    by_cases hpoint : a = '.'
    · subst hpoint
      rw [takePrecision_point, stars_orDigits, ← count_takeExtent, List.count_cons_of_ne (by decide)]
    · rw [takePrecision_of_ne hpoint, Extent.stars, Nat.zero_add]

theorem ne_star_of_modifier (h : modifierLetters.contains c = true) : c ≠ '*' := by
  rintro rfl
  exact absurd h (by decide)

theorem count_dropModifier (t : Text) : (dropModifier t).count '*' = t.count '*' := by
  match t with
  | [] => rfl
  | [a] =>
    rw [dropModifier_singleton]
    split
    · rename_i ha
      rw [List.count_cons_of_ne (ne_star_of_modifier ha)]
    · rfl
  | a :: b :: t =>
    rw [dropModifier_cons_cons]
    split
    · rename_i htwo
      rcases htwo with ⟨rfl, rfl⟩ | ⟨rfl, rfl⟩ <;> rfl
    · split
      · rename_i ha
        rw [List.count_cons_of_ne (ne_star_of_modifier ha)]
      · rfl

/-- The stars of a complete directive are those of its width and its precision. -/
theorem stars_of_complete (h : readDirective t = (d, [])) (hc : d.conversion = some c) :
    d.text.count '*' = d.width.stars + d.precision.stars := by
  obtain ⟨hmodifier, hconversion⟩ := behind_modifier h hc
  have hne : c ≠ '*' := by
    rintro rfl
    exact absurd hconversion (by decide)
  have hbehind := count_dropModifier (takePrecision (takeExtent (t.dropWhile isFlag)).2).2
  rw [hmodifier, List.count_cons_of_ne hne, List.count_nil] at hbehind
  rw [parts_of_complete h hc]
  dsimp only
  rw [List.count_cons_of_ne (by decide), ← count_dropWhile (p := isFlag) (by decide), count_takeExtent,
    count_takePrecision, ← hbehind, Nat.add_zero]

/-! ### Handing out the arguments -/

theorem handed_succ (n : Nat) (args : List Value) :
    handed (n + 1) args = (nextArg args).1 :: handed n (args.drop 1) := by
  unfold handed
  rw [List.range_succ_eq_map, List.map_cons, List.map_map]
  cases args with
  | nil => rfl
  | cons v args => rfl

theorem nextArg_snd (args : List Value) : (nextArg args).2 = args.drop 1 := by
  cases args <;> rfl

theorem value_star (args : List Value) :
    Extent.star.value args = (nextArg args).1.toNumber.toInt.map fun i => (some i, args.drop 1) := by
  rw [← nextArg_snd]
  unfold Extent.value
  cases nextArg args with
  | mk v rest =>
    dsimp only
    cases v.toNumber.toInt <;> rfl

/-- An extent looks at no more arguments than it has stars. -/
theorem value_handed (e : Extent) (n : Nat) (args : List Value) :
    e.value (handed (e.stars + n) args) = (e.value args).map fun found => (found.1, handed n found.2) := by
  cases e with
  | absent =>
    rw [Extent.stars, Nat.zero_add]
    rfl
  | star =>
    rw [Extent.stars, Nat.add_comm, handed_succ, value_star, value_star]
    generalize nextArg args = next
    change Except.map _ next.1.toNumber.toInt = _
    cases next.1.toNumber.toInt <;> rfl
  | digits ds =>
    rw [Extent.stars, Nat.zero_add]
    rfl

theorem rest_of_value {e : Extent} {args rest : List Value} {width : Option Int} (h : e.value args = .ok (width, rest)) :
    rest = args.drop e.stars := by
  cases e with
  | star =>
    rw [value_star] at h
    cases hwhole : (nextArg args).1.toNumber.toInt with
    | error f =>
      rw [hwhole] at h
      cases h
    | ok i =>
      rw [hwhole] at h
      cases h
      rfl
  | _ =>
    cases h
    rfl

/-- The layout that a directive asks for, given what its width and its precision come to. -/
def Directive.layout (d : Directive) (width precision : Option Int) : Spec where
  left := d.flags.contains '-' || width.any (· < 0)
  plus := d.flags.contains '+'
  space := d.flags.contains ' '
  alternate := d.flags.contains '#'
  zero := d.flags.contains '0'
  width := width.map Int.natAbs
  foreignWidth := d.width.isForeign
  longWidth := d.width.isLong
  precision := precision.bind fun p => if p < 0 then none else some p.toNat

/-- The width takes its argument before the precision does. -/
theorem spec_eq (d : Directive) (args : List Value) :
    d.spec args = d.width.value args >>= fun width =>
      if d.precision.isLong then .error .badDirective
      else (d.precision.value width.2).map fun precision => (d.layout width.1 precision.1, precision.2) := by
  unfold Directive.spec
  cases d.width.value args with
  | error f => rfl
  | ok width =>
    cases d.precision.isLong with
    | true => rfl
    | false =>
      change (d.precision.value width.2 >>= fun precision => _) = Except.map _ (d.precision.value width.2)
      cases d.precision.value width.2 <;> rfl

theorem spec_handed (d : Directive) (n : Nat) (args : List Value) :
    d.spec (handed (d.width.stars + d.precision.stars + n) args) =
      (d.spec args).map fun found => (found.1, handed n found.2) := by
  rw [spec_eq, spec_eq, Nat.add_assoc, value_handed]
  cases d.width.value args with
  | error f => rfl
  | ok width =>
    obtain ⟨width, behind⟩ := width
    change (if d.precision.isLong then _ else _ : Except Fault _) = Except.map _ (if d.precision.isLong then _ else _)
    split
    · rfl
    · rw [value_handed]
      cases d.precision.value behind <;> rfl

theorem rest_of_spec {args rest : List Value} {spec : Spec} (h : d.spec args = .ok (spec, rest)) :
    rest = args.drop (d.width.stars + d.precision.stars) := by
  rw [spec_eq] at h
  obtain ⟨⟨width, behind⟩, hwidth, h⟩ := bind_eq_ok.1 h
  dsimp only at h
  split at h
  · cases h
  · cases hprecision : d.precision.value behind with
    | error f =>
      rw [hprecision] at h
      cases h
    | ok found =>
      rw [hprecision] at h
      cases h
      rw [rest_of_value hprecision, rest_of_value hwidth, List.drop_drop]

/-! ### Formatting piece by piece -/

variable {textOf : Value → Except Fault Text}

theorem taken_eq (h : readDirective t = (d, [])) (hc : d.conversion = some c) : (Segment.directive d).taken =
    if c = '%' then 0 else d.width.stars + d.precision.stars + if converts c then 1 else 0 := by
  change (if d.conversion = some '%' then 0 else d.text.count '*' + if d.conversion.any converts then 1 else 0) = _
  rw [stars_of_complete h hc, hc]
  simp only [Option.some.injEq, Option.any_some]

theorem formatDirective_eq (hc : d.conversion = some c) (args : List Value) : formatDirective textOf d args =
    if c = '%' then .ok (['%'], args)
    else d.spec args >>= fun found =>
      if converts c then (convert textOf found.1 c (nextArg found.2).1).map fun t => (t, found.2.drop 1)
      else .ok (d.text, found.2) := by
  unfold formatDirective
  rw [hc]
  dsimp only
  split
  · rfl
  · cases d.spec args with
    | error f => rfl
    | ok found =>
      dsimp only [bind, Except.bind]
      rw [← nextArg_snd]
      cases converts c with
      | false => rfl
      | true => cases convert textOf found.1 c (nextArg found.2).1 <;> rfl

/-- A complete directive looks at the arguments it takes and leaves the others. -/
theorem formatDirective_handed (h : readDirective t = (d, [])) (hc : d.conversion = some c) (args : List Value) :
    formatDirective textOf d args =
      (formatDirective textOf d (handed (Segment.directive d).taken args)).map fun found =>
        (found.1, args.drop (Segment.directive d).taken) := by
  rw [formatDirective_eq hc, formatDirective_eq hc, taken_eq h hc]
  split
  · rfl
  · rw [spec_handed]
    cases hspec : d.spec args with
    | error f => rfl
    | ok found =>
      obtain ⟨spec, rest⟩ := found
      obtain rfl := rest_of_spec hspec
      dsimp only [bind, Except.bind, Except.map]
      cases converts c with
      | false => rfl
      | true =>
        have hnext (rest : List Value) : (nextArg (handed 1 rest)).1 = (nextArg rest).1 := by
          rw [handed_succ]
          rfl
        rw [if_pos rfl, if_pos rfl, if_pos rfl, hnext, List.drop_drop]
        cases convert textOf spec c (nextArg (args.drop (d.width.stars + d.precision.stars))).1 <;> rfl

theorem formatSegments_cons_text (s : Text) (ss : List Segment) (args : List Value) :
    formatSegments textOf (.text s :: ss) args = (formatSegments textOf ss args).map (s ++ ·) := by
  rw [formatSegments]
  cases formatSegments textOf ss args <;> rfl

theorem formatSegments_cons_directive (d : Directive) (ss : List Segment) (args : List Value) :
    formatSegments textOf (.directive d :: ss) args =
      formatDirective textOf d args >>= fun found => (formatSegments textOf ss found.2).map (found.1 ++ ·) := by
  rw [formatSegments]
  cases formatDirective textOf d args with
  | error f => rfl
  | ok found =>
    dsimp only [bind, Except.bind]
    cases formatSegments textOf ss found.2 <;> rfl

/-- A character that begins no directive is written as it is. -/
theorem formatSegments_cons (hc : c ≠ '%') (t : Text) (args : List Value) :
    formatSegments textOf (segments (c :: t)) args = (formatSegments textOf (segments t) args).map (c :: ·) := by
  rw [segments, if_neg hc]
  split
  · rename_i s ss hsegments
    rw [hsegments, formatSegments_cons_text, formatSegments_cons_text]
    cases formatSegments textOf ss args <;> rfl
  · exact formatSegments_cons_text [c] (segments t) args

theorem formatSegments_text (h : '%' ∉ t) (rest : Text) (args : List Value) :
    formatSegments textOf (segments (t ++ rest)) args = (formatSegments textOf (segments rest) args).map (t ++ ·) := by
  induction t with
  | nil =>
    rw [List.nil_append]
    cases formatSegments textOf (segments rest) args <;> rfl
  | cons c t ih =>
    have hc : c ≠ '%' := fun heq => h (heq ▸ List.mem_cons_self)
    rw [List.cons_append, formatSegments_cons hc, ih fun hmem => h (List.mem_cons_of_mem _ hmem)]
    cases formatSegments textOf (segments rest) args <;> rfl

theorem formatSegments_directive (h : readDirective t = (d, [])) (hc : d.conversion = some c) (rest : Text)
    (args : List Value) : formatSegments textOf (segments ('%' :: t ++ rest)) args =
      formatDirective textOf d args >>= fun found =>
        (formatSegments textOf (segments rest) found.2).map (found.1 ++ ·) := by
  rw [List.cons_append, segments, if_pos rfl, readDirective_append h hc]
  exact formatSegments_cons_directive d (segments rest) args

theorem formatSegments_nil (args : List Value) : formatSegments textOf (segments []) args = .ok [] := by
  rw [segments, formatSegments]

/-- A complete directive on its own. -/
theorem formatWith_directive (h : readDirective t = (d, [])) (hc : d.conversion = some c) (args : List Value) :
    formatWith textOf ('%' :: t) args = (formatDirective textOf d args).map Prod.fst := by
  have halone : formatSegments textOf (segments ('%' :: t ++ [])) args = _ := formatSegments_directive h hc [] args
  rw [List.append_nil] at halone
  rw [formatWith, halone]
  cases formatDirective textOf d args with
  | error f => rfl
  | ok found =>
    dsimp only [bind, Except.bind]
    rw [formatSegments_nil]
    exact congrArg Except.ok (List.append_nil found.1)

/-- A format that begins with a piece: the piece has its own arguments, and the rest what it leaves. -/
theorem formatWith_piece {piece : Segment} (hpiece : piece.IsPiece) (rest : Text) (args : List Value) :
    formatWith textOf (piece.written ++ rest) args =
      formatWith textOf piece.written (handed piece.taken args) >>= fun t =>
        (formatWith textOf rest (args.drop piece.taken)).map (t ++ ·) := by
  cases piece with
  | text t =>
    have halone : formatWith textOf t (handed 0 args) = .ok t := by
      rw [formatWith, ← List.append_nil t, formatSegments_text hpiece, formatSegments_nil]
      rfl
    exact (formatSegments_text hpiece rest args).trans (by rw [Segment.written, Segment.taken, halone]; rfl)
  | directive d =>
    obtain ⟨htext, hread, hconversion⟩ := hpiece
    obtain ⟨c, hc⟩ := Option.isSome_iff_exists.1 hconversion
    have hall : formatWith textOf (d.text ++ rest) args =
        formatDirective textOf d args >>= fun found => (formatWith textOf rest found.2).map (found.1 ++ ·) := by
      rw [htext]
      exact formatSegments_directive hread hc rest args
    have halone (own : List Value) : formatWith textOf d.text own = (formatDirective textOf d own).map Prod.fst := by
      rw [htext]
      exact formatWith_directive hread hc own
    rw [Segment.written, hall, halone, formatDirective_handed hread hc]
    cases formatDirective textOf d (handed (Segment.directive d).taken args) <;> rfl

theorem formatWith_pieces {pieces : List Segment} (h : ∀ piece ∈ pieces, piece.IsPiece) (args : List Value) :
    formatWith textOf (pieces.flatMap Segment.written) args =
      ((deal pieces args).mapM fun dealt => formatWith textOf dealt.1.written dealt.2).map List.flatten := by
  induction pieces generalizing args with
  | nil => exact formatSegments_nil args
  | cons piece pieces ih =>
    obtain ⟨hpiece, hpieces⟩ := List.forall_mem_cons.1 h
    rw [List.flatMap_cons, formatWith_piece hpiece, ih hpieces, deal, List.mapM_cons]
    cases formatWith textOf piece.written (handed piece.taken args) with
    | error f => rfl
    | ok t =>
      cases (deal pieces (args.drop piece.taken)).mapM fun dealt => formatWith textOf dealt.1.written dealt.2 <;> rfl

/-! ### Stars -/

theorem ofDigits_filterMap {ds : Text} (h : ∀ c ∈ ds, c.isDigit) :
    Numeral.ofDigits (ds.filterMap Unicode.decimalValue?) = Nat.ofDigitChars 10 ds 0 := by
  have hfold (n : Nat) : (ds.filterMap Unicode.decimalValue?).foldl (fun n d => 10 * n + d) n =
      Nat.ofDigitChars 10 ds n := by
    induction ds generalizing n with
    | nil => rfl
    | cons c ds ih =>
      obtain ⟨hc, hds⟩ := List.forall_mem_cons.1 h
      rw [List.filterMap_cons, Ere.decimalValue?_of_isDigit hc, List.foldl_cons, ih hds, Nat.ofDigitChars_cons]
      rfl
  exact hfold 0

theorem value_ofNat (n : Nat) (args : List Value) :
    (Extent.digits (Text.ofNat n)).value args = .ok (some (n : Int), args) := by
  have hn : Numeral.ofDigits ((Text.ofNat n).filterMap Unicode.decimalValue?) = n := by
    rw [ofDigits_filterMap fun c => Ere.isDigit_of_mem_ofNat]
    exact Nat.ofDigitChars_toDigits (by decide) (by decide)
  rw [Extent.value, hn]

theorem isForeign_ofNat (n : Nat) : (Extent.digits (Text.ofNat n)).isForeign = false :=
  List.any_eq_false.2 fun c hc => by simp [Ere.isDigit_of_mem_ofNat hc]

/-- Two stars stand for the numbers that are handed to them, that of the width first. -/
theorem formatDirective_stars (hc : d.conversion = some c) (hconverts : converts c = true) (hwidth : d.width = .star)
    (hprecision : d.precision = .star) {a b : Value} {width precision : Nat} (ha : a.toNumber.toInt = .ok (width : Int))
    (hb : b.toNumber.toInt = .ok (precision : Int)) (hlong : (Text.ofNat width).length ≤ numeralLimit)
    (hlong' : (Text.ofNat precision).length ≤ numeralLimit) (args : List Value) :
    formatDirective textOf d (a :: b :: args) = formatDirective textOf
      { d with width := .digits (Text.ofNat width), precision := .digits (Text.ofNat precision) } args := by
  have hpercent : c ≠ '%' := by
    rintro rfl
    exact absurd hconverts (by decide)
  have hshort {n : Nat} (h : (Text.ofNat n).length ≤ numeralLimit) : (Extent.digits (Text.ofNat n)).isLong = false :=
    decide_eq_false (Nat.not_lt.2 h)
  have hstars : d.spec (a :: b :: args) = .ok (d.layout (some width) (some precision), args) := by
    have hstar (v : Value) (rest : List Value) :
        Extent.star.value (v :: rest) = v.toNumber.toInt.map fun i => (some i, rest) := value_star (v :: rest)
    rw [spec_eq, hwidth, hstar, ha, hprecision]
    change (Extent.star.value (b :: args)).map _ = _
    rw [hstar, hb]
    rfl
  have hdigits : ({ d with width := .digits (Text.ofNat width), precision := .digits (Text.ofNat precision) } :
      Directive).spec args = .ok (d.layout (some width) (some precision), args) := by
    rw [spec_eq, value_ofNat]
    dsimp only [bind, Except.bind]
    rw [hshort hlong', value_ofNat]
    unfold Directive.layout
    rw [isForeign_ofNat, hshort hlong, hwidth]
    rfl
  generalize hd : ({ d with width := .digits (Text.ofNat width), precision := .digits (Text.ofNat precision) } :
    Directive) = d' at hdigits ⊢
  have hc' : d'.conversion = some c := by
    rw [← hd]
    exact hc
  rw [formatDirective_eq hc, formatDirective_eq hc', if_neg hpercent, if_neg hpercent, hstars, hdigits]
  dsimp only [bind, Except.bind]
  rw [if_pos hconverts, if_pos hconverts]

/-- A format is written piece by piece, each piece with its own arguments: those of the pieces before it have been handed
out, a missing one is unset, and what is left over is ignored.  Of the arguments of one directive the width takes the
first, the precision the next, and the conversion what comes then. -/
theorem sprintf_pieces {pieces : List Segment} (h : ∀ piece ∈ pieces, piece.IsPiece) (convfmt : Text)
    (args : List Value) :
    sprintf convfmt (pieces.flatMap Segment.written) args =
        ((deal pieces args).mapM fun dealt => sprintf convfmt dealt.1.written dealt.2).map List.flatten ∧
      ∀ d c a b (width precision : Nat) rest, d.conversion = some c → converts c = true → d.width = .star →
        d.precision = .star → a.toNumber.toInt = .ok (width : Int) → b.toNumber.toInt = .ok (precision : Int) →
        (Text.ofNat width).length ≤ numeralLimit → (Text.ofNat precision).length ≤ numeralLimit →
        formatDirective (Value.toText convfmt) d (a :: b :: rest) = formatDirective (Value.toText convfmt)
          { d with width := .digits (Text.ofNat width), precision := .digits (Text.ofNat precision) } rest :=
  ⟨formatWith_pieces h args, fun _ _ _ _ _ _ rest hc hconverts hwidth hprecision ha hb hlong hlong' =>
    formatDirective_stars hc hconverts hwidth hprecision ha hb hlong hlong' rest⟩

/-- Text with a star, a directive with two stars and a modifier, an unknown conversion with a star, percent signs with
and without one, and a conversion for which no argument is left. -/
def mixedPieces : List Segment :=
  .text "2*d".toList :: ["*.*lf", "-*y", "%", "*%", "s", "2d"].map fun t => .directive (readDirective t.toList).1

theorem sprintf_pieces_mixed :
    (∀ piece ∈ mixedPieces, piece.IsPiece) ∧
      mixedPieces.flatMap Segment.written = "2*d%*.*lf%-*y%%%*%%s%2d".toList ∧
      (sprintf defaultFormat "2*d%*.*lf%-*y%%%*%%s%2d".toList
        [.ofNat 6, .ofNat 2, .ofNat 3, .ofNat 9, .str "x".toList]).toOption = some "2*d  3.00%-*y%%x 0".toList ∧
      (deal mixedPieces [.ofNat 6, .ofNat 2, .ofNat 3, .ofNat 9, .str "x".toList]).map Prod.snd =
        [[], [.ofNat 6, .ofNat 2, .ofNat 3], [.ofNat 9], [], [], [.str "x".toList], [.unset]] ∧
      sprintf defaultFormat (mixedPieces.flatMap Segment.written)
          [.ofNat 6, .ofNat 2, .ofNat 3, .ofNat 9, .str "x".toList] =
        ((deal mixedPieces [.ofNat 6, .ofNat 2, .ofNat 3, .ofNat 9, .str "x".toList]).mapM fun dealt =>
          sprintf defaultFormat dealt.1.written dealt.2).map List.flatten := by
  have hpieces : ∀ piece ∈ mixedPieces, piece.IsPiece := by decide +kernel
  exact ⟨hpieces, by decide +kernel, by decide +kernel, by decide +kernel, (sprintf_pieces hpieces _ _).1⟩

end Awk.Printf
