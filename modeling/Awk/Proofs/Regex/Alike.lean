import Awk.Proofs.Regex.Spans

/-!
# Places that a pattern cannot tell apart

A relation between places carries over from the marks and characters of a pattern to the whole pattern
(`run_alike`): if each of them takes related places to related places, then the pattern matches at both of two related
places or at neither, and the ends are related again (`matchAt_alike`).

The fuel of a repetition is part of what is shown: at related places the texts may differ in length, so the two runs
have different fuel, and each of them has enough (`Enough`).
-/

namespace Awk

namespace Pattern

/-- All the marks and characters in the pattern are of a kind. -/
def Leaves (kind : Pattern → Prop) : Pattern → Prop
  | seq p q => Leaves kind p ∧ Leaves kind q
  | alt p q => Leaves kind p ∧ Leaves kind q
  | «repeat» p _ _ _ => Leaves kind p
  | p => kind p

theorem Leaves.imp {kind kind' : Pattern → Prop} (h : ∀ {q}, kind q → kind' q) {p : Pattern} (hp : p.Leaves kind) :
    p.Leaves kind' := by
  induction p with
  | seq p q ihp ihq => exact ⟨ihp hp.1, ihq hp.2⟩
  | alt p q ihp ihq => exact ⟨ihp hp.1, ihq hp.2⟩
  | «repeat» p least most greed ih => exact ih hp
  | empty => exact h hp
  | char test => exact h hp
  | atStart => exact h hp
  | atEnd => exact h hp

/-! ### One way and then another -/

theorem run_alt (p q : Pattern) (k : Continuation) (place : Place) :
    (alt p q).run k place = (p.run k place).or (q.run k place) := by
  rw [run]
  cases p.run k place with
  | none => rfl
  | some stop => rfl

theorem runGreedy_round (body : Continuation → Continuation) (k : Continuation) (fuel : Nat) (most last : Option Nat)
    (place : Place) :
    runGreedy body k (fuel + 1) 0 most last place =
      if most == some 0 || last == some place.offset then k place
      else (body (runGreedy body k fuel 0 (fewer most) (some place.offset)) place).or (k place) := by
  rw [runGreedy]
  cases body (runGreedy body k fuel 0 (fewer most) (some place.offset)) place with
  | none => rfl
  | some stop => rfl

theorem runLazy_round (body : Continuation → Continuation) (k : Continuation) (fuel : Nat) (most last : Option Nat)
    (place : Place) :
    runLazy body k (fuel + 1) 0 most last place =
      (k place).or (if most == some 0 || last == some place.offset then none
        else body (runLazy body k fuel 0 (fewer most) (some place.offset)) place) := by
  rw [runLazy]
  cases k place with
  | none => rfl
  | some stop => rfl

theorem runPossessive_round (body : Continuation → Continuation) (fuel : Nat) (most last : Option Nat)
    (place : Place) :
    runPossessive body (fuel + 1) 0 most last place =
      if most == some 0 || last == some place.offset then some place
      else (body some place).elim (some place) (runPossessive body fuel 0 (fewer most) (some place.offset)) := by
  rw [runPossessive]
  cases body some place with
  | none => rfl
  | some next => rfl

/-! ### Fuel -/

/-- Enough fuel for the rounds that are left at a place: each takes some text, but for those that must be made and for
a last one. -/
def Enough (fuel least : Nat) (last : Option Nat) (place : Place) : Prop :=
  least + place.rest.length + (if last = some place.offset then 1 else 2) ≤ fuel

theorem Enough.least {fuel least : Nat} {last : Option Nat} {place next : Place}
    (h : Enough (fuel + 1) (least + 1) last place) (hnext : place.Reaches next) : Enough fuel least last next := by
  obtain ⟨taken, hrest, hoffset⟩ := hnext
  have hlength := congrArg List.length hrest
  rw [List.length_append] at hlength
  unfold Enough at h ⊢
  by_cases hnil : taken.length = 0
  · rw [hoffset, hnil, Nat.add_zero]
    omega
  · split
    · omega
    · split at h
      · omega
      · omega

theorem Enough.round {fuel : Nat} {last : Option Nat} {place next : Place} (h : Enough (fuel + 1) 0 last place)
    (hlast : last ≠ some place.offset) (hnext : place.Reaches next) : Enough fuel 0 (some place.offset) next := by
  obtain ⟨taken, hrest, hoffset⟩ := hnext
  have hlength := congrArg List.length hrest
  rw [List.length_append] at hlength
  unfold Enough at h ⊢
  rw [if_neg hlast] at h
  split
  · omega
  · rename_i hmoved
    have htaken : taken.length ≠ 0 := by
      intro hnil
      exact hmoved (by rw [hoffset, hnil, Nat.add_zero])
    omega

theorem Enough.exists_succ {fuel least : Nat} {last : Option Nat} {place : Place} (h : Enough fuel least last place) :
    ∃ n, fuel = n + 1 := by
  refine Nat.exists_eq_succ_of_ne_zero ?_
  unfold Enough at h
  split at h
  · omega
  · omega

/-! ### Related places -/

/-- From related places to related places, with continuations that do so where they are reached. -/
def Alike (R : Place → Place → Prop) (body : Continuation → Continuation) : Prop :=
  ∀ {k k' : Continuation} {a b : Place}, R a b →
    (∀ {x y}, a.Reaches x → b.Reaches y → R x y → Option.Rel R (k x) (k' y)) →
    Option.Rel R (body k a) (body k' b)

variable {R : Place → Place → Prop}

theorem rel_or {o o' e e' : Option Place} (h : Option.Rel R o o') (he : Option.Rel R e e') :
    Option.Rel R (o.or e) (o'.or e') := by
  cases h with
  | none => exact he
  | some hxy => exact .some hxy

theorem rel_bind {o o' : Option Place} {k k' : Continuation} (h : Option.Rel R o o')
    (hk : ∀ {x y}, o = some x → o' = some y → R x y → Option.Rel R (k x) (k' y)) :
    Option.Rel R (o.bind k) (o'.bind k') := by
  cases h with
  | none => exact .none
  | some hxy => exact hk rfl rfl hxy

theorem rel_elim {o o' e e' : Option Place} {k k' : Continuation} (h : Option.Rel R o o') (he : Option.Rel R e e')
    (hk : ∀ {x y}, o = some x → o' = some y → R x y → Option.Rel R (k x) (k' y)) :
    Option.Rel R (o.elim e k) (o'.elim e' k') := by
  cases h with
  | none => exact he
  | some hxy => exact hk rfl rfl hxy

/-- One round of a possessive repetition. -/
theorem Alike.ends {body : Continuation → Continuation} (hbody : Alike R body) {a b : Place} (hab : R a b) :
    Option.Rel R (body some a) (body some b) :=
  hbody hab fun _ _ hxy => .some hxy

theorem ne_of_goes {most last : Option Nat} {offset : Nat} (h : ¬(most == some 0 || last == some offset) = true) :
    last ≠ some offset := by
  rintro rfl
  simp at h

section Rounds

/- Related places are equally far apart all along, so that a round takes some text in one run if it does so in the
other. -/
variable {shift : Nat} (hshift : ∀ {a b}, R a b → b.offset = a.offset + shift)

include hshift

/-- Both runs stop before a round, or neither. -/
theorem stops_alike {a b : Place} (hab : R a b) (most : Option Nat) {last last' : Option Nat}
    (hlast : last' = last.map (· + shift)) :
    (most == some 0 || last' == some b.offset) = (most == some 0 || last == some a.offset) := by
  rw [hlast, hshift hab, Bool.eq_iff_iff]
  cases last with
  | none => exact Iff.rfl
  | some last => simp

variable {body : Continuation → Continuation} (hbody : Alike R body) {k k' : Continuation} {a b : Place}

include hbody

-- In each of the three the induction is on the fuel of one run, and the other run keeps pace: both make a round or
-- neither does (`stops_alike`), and after a round both still have enough.
theorem runGreedy_alike (hab : R a b) (hk : ∀ {x y}, a.Reaches x → b.Reaches y → R x y → Option.Rel R (k x) (k' y))
    {fuel fuel' least : Nat} {last last' : Option Nat} (hlast : last' = last.map (· + shift)) (most : Option Nat)
    (hfuel : Enough fuel least last a) (hfuel' : Enough fuel' least last' b) :
    Option.Rel R (runGreedy body k fuel least most last a) (runGreedy body k' fuel' least most last' b) := by
  induction fuel generalizing fuel' least last last' most a b with
  | zero => exact absurd hfuel.exists_succ (by simp)
  | succ fuel ih =>
    obtain ⟨fuel', rfl⟩ := hfuel'.exists_succ
    cases least with
    | succ least =>
      refine hbody hab fun hx hy hxy => ?_
      exact ih hxy (fun hx' hy' => hk (hx.trans hx') (hy.trans hy')) hlast _ (hfuel.least hx) (hfuel'.least hy)
    | zero =>
      have hstops := stops_alike hshift hab most hlast
      rw [runGreedy_round, runGreedy_round, hstops]
      split
      · exact hk (.refl a) (.refl b) hab
      · rename_i hgo
        refine rel_or (hbody hab fun hx hy hxy => ?_) (hk (.refl a) (.refl b) hab)
        exact ih hxy (fun hx' hy' => hk (hx.trans hx') (hy.trans hy')) (by rw [hshift hab]; rfl) _
          (hfuel.round (ne_of_goes hgo) hx) (hfuel'.round (ne_of_goes (hstops ▸ hgo)) hy)

theorem runLazy_alike (hab : R a b) (hk : ∀ {x y}, a.Reaches x → b.Reaches y → R x y → Option.Rel R (k x) (k' y))
    {fuel fuel' least : Nat} {last last' : Option Nat} (hlast : last' = last.map (· + shift)) (most : Option Nat)
    (hfuel : Enough fuel least last a) (hfuel' : Enough fuel' least last' b) :
    Option.Rel R (runLazy body k fuel least most last a) (runLazy body k' fuel' least most last' b) := by
  induction fuel generalizing fuel' least last last' most a b with
  | zero => exact absurd hfuel.exists_succ (by simp)
  | succ fuel ih =>
    obtain ⟨fuel', rfl⟩ := hfuel'.exists_succ
    cases least with
    | succ least =>
      refine hbody hab fun hx hy hxy => ?_
      exact ih hxy (fun hx' hy' => hk (hx.trans hx') (hy.trans hy')) hlast _ (hfuel.least hx) (hfuel'.least hy)
    | zero =>
      have hstops := stops_alike hshift hab most hlast
      rw [runLazy_round, runLazy_round, hstops]
      refine rel_or (hk (.refl a) (.refl b) hab) ?_
      split
      · exact .none
      · rename_i hgo
        refine hbody hab fun hx hy hxy => ?_
        exact ih hxy (fun hx' hy' => hk (hx.trans hx') (hy.trans hy')) (by rw [hshift hab]; rfl) _
          (hfuel.round (ne_of_goes hgo) hx) (hfuel'.round (ne_of_goes (hstops ▸ hgo)) hy)

theorem runPossessive_alike (hforward : Forward body) (hab : R a b) {fuel fuel' least : Nat}
    {last last' : Option Nat} (hlast : last' = last.map (· + shift)) (most : Option Nat)
    (hfuel : Enough fuel least last a) (hfuel' : Enough fuel' least last' b) :
    Option.Rel R (runPossessive body fuel least most last a) (runPossessive body fuel' least most last' b) := by
  induction fuel generalizing fuel' least last last' most a b with
  | zero => exact absurd hfuel.exists_succ (by simp)
  | succ fuel ih =>
    obtain ⟨fuel', rfl⟩ := hfuel'.exists_succ
    cases least with
    | succ least =>
      refine rel_bind (hbody.ends hab) fun hx hy hxy => ?_
      exact ih hxy hlast _ (hfuel.least (hforward.reaches hx)) (hfuel'.least (hforward.reaches hy))
    | zero =>
      have hstops := stops_alike hshift hab most hlast
      rw [runPossessive_round, runPossessive_round, hstops]
      split
      · exact .some hab
      · rename_i hgo
        refine rel_elim (hbody.ends hab) (.some hab) fun hx hy hxy => ?_
        exact ih hxy (by rw [hshift hab]; rfl) _ (hfuel.round (ne_of_goes hgo) (hforward.reaches hx))
          (hfuel'.round (ne_of_goes (hstops ▸ hgo)) (hforward.reaches hy))

end Rounds

/-! ### Whole patterns -/

/-- A mark or a character that takes related places to related places. -/
def Blind (R : Place → Place → Prop) (p : Pattern) : Prop :=
  ∀ {a b : Place}, R a b → Option.Rel R (p.run some a) (p.run some b)

theorem Blind.alike {p : Pattern} (hp : p.Blind R) (hrun : ∀ k place, p.run k place = (p.run some place).bind k) :
    Alike R p.run := by
  intro k k' a b hab hk
  rw [hrun k a, hrun k' b]
  refine rel_bind (hp hab) fun hx hy hxy => ?_
  exact hk (Forward.reaches (run_forward p) hx) (Forward.reaches (run_forward p) hy) hxy

/-- A pattern of marks and characters that take related places to related places does so as a whole. -/
theorem run_alike {shift : Nat} (hshift : ∀ {a b}, R a b → b.offset = a.offset + shift) {p : Pattern}
    (hp : p.Leaves (Blind R)) : Alike R p.run := by
  induction p with
  | empty => exact Blind.alike hp fun _ _ => rfl
  | char test =>
    refine Blind.alike hp fun k place => ?_
    unfold run
    cases place.rest with
    | nil => rfl
    | cons c rest =>
      dsimp only
      split
      · rfl
      · rfl
  | atStart =>
    refine Blind.alike hp fun k place => ?_
    unfold run
    split
    · rfl
    · rfl
  | atEnd =>
    refine Blind.alike hp fun k place => ?_
    unfold run
    split
    · rfl
    · rfl
  | seq p q ihp ihq =>
    intro k k' a b hab hk
    refine ihp hp.1 hab fun hx hy hxy => ?_
    exact ihq hp.2 hxy fun hx' hy' => hk (hx.trans hx') (hy.trans hy')
  | alt p q ihp ihq =>
    intro k k' a b hab hk
    rw [run_alt, run_alt]
    exact rel_or (ihp hp.1 hab hk) (ihq hp.2 hab hk)
  | «repeat» p least most greed ih =>
    intro k k' a b hab hk
    -- The fuel that `run` gives depends on the place, and is enough at either.
    have hfuel (place : Place) : Enough (least + place.rest.length + 3) least none place := by
      unfold Enough
      rw [if_neg (Option.some_ne_none _).symm]
      omega
    cases greed with
    | greedy => exact runGreedy_alike hshift (ih hp) hab hk rfl most (hfuel a) (hfuel b)
    | lazy => exact runLazy_alike hshift (ih hp) hab hk rfl most (hfuel a) (hfuel b)
    | possessive =>
      have hrounds := runPossessive_alike hshift (ih hp) (run_forward p) hab rfl most (hfuel a) (hfuel b)
      refine rel_bind hrounds fun hx hy hxy => ?_
      exact hk (runPossessive_reaches (run_forward p) hx) (runPossessive_reaches (run_forward p) hy) hxy

private theorem offset_of_rel {shift : Nat} (hshift : ∀ {a b}, R a b → b.offset = a.offset + shift)
    {o o' : Option Place} (h : Option.Rel R o o') :
    o'.map Place.offset = (o.map Place.offset).map (· + shift) := by
  cases h with
  | none => rfl
  | some hxy => simp [hshift hxy]

/-- Matches at related places are equally long. -/
theorem matchAt_alike {shift : Nat} (hshift : ∀ {a b}, R a b → b.offset = a.offset + shift) {p : Pattern}
    (hp : p.Leaves (Blind R)) {a b : Place} (hab : R a b) (advance : Bool) :
    p.matchAt advance b = (p.matchAt advance a).map (· + shift) := by
  have hends : Option.Rel R (p.run (fun stop => if advance && stop.offset == a.offset then none else some stop) a)
      (p.run (fun stop => if advance && stop.offset == b.offset then none else some stop) b) := by
    refine run_alike hshift hp hab fun {x y} _ _ hxy => ?_
    have hsame : (y.offset == b.offset) = (x.offset == a.offset) := by
      rw [hshift hab, hshift hxy, Bool.eq_iff_iff]
      simp
    rw [hsame]
    split
    · exact .none
    · exact .some hxy
  exact offset_of_rel hshift hends

end Pattern

end Awk
