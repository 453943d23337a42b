import Awk.Proofs.Syntax.Layout.Stmt

/-!
# Programs in the second text

What is read as the items of a program in the first text is read in the second one (`mirrors_item`), which may go on
behind them (`exists_items`).  The functions that the second text has defined before must have other names.
-/

namespace Awk

/-- Where the statements begin in an item that stand behind the parenthesis of an `if`, a `while` or a `for`. -/
def Item.governed : Item → List Nat
  | .begin _ body | .end _ body | .function _ _ _ body => body.governed
  | .rule _ _ action => action.elim [] Stmt.governed

def Program.governed (p : Program) : List Nat := p.items.flatMap Item.governed

namespace Parser

open Outline

variable {α : Type} {C : Correspondence} {closed keeps : Bool} {pre post : Tie} {n m : Nat} {s s₁ t : ParserState}
  {P : List Taken → Prop} {a : α}

/-! ### Functions -/

/-- A function whose name is new in the second text. -/
theorem Mirrors.newFunction {name : Text} {forbid : Parser Unit} {next : Unit → Parser α}
    (hnew : ¬(s.functions.any fun entry => entry.1 == name) = true) (hknown : ∀ entry ∈ C.known, entry.1 ≠ name)
    (h : Mirrors C closed ⟨false, keeps⟩ post s t P (next ()) a) :
    Mirrors C closed ⟨false, keeps⟩ post s t P
      (do
        let s ← get
        if (s.functions.any fun entry => entry.1 == name) = true then forbid >>= next else next ()) a := by
  refine h.runs fun {path s' t'} htied hrun => bind_ok.2 ⟨s', s', get_ok.2 ⟨rfl, rfl⟩, ?_⟩
  have hnone : ¬(s'.functions.any fun entry => entry.1 == name) = true := by
    rw [htied.near.functions, List.any_append, Bool.or_eq_true, not_or]
    refine ⟨fun hany => ?_, hnew⟩
    obtain ⟨entry, hentry, heq⟩ := List.any_eq_true.1 hany
    exact hknown entry hentry (eq_of_beq heq)
  rwa [if_neg hnone]

/-- A function is put on record. -/
theorem Mirrors.recordFunction (signature : Text × Nat) :
    Mirrors C closed ⟨false, keeps⟩ ⟨false, keeps⟩ s { s with functions := s.functions ++ [signature] } (· = [])
      (modify fun s => { s with functions := s.functions ++ [signature] }) PUnit.unit := by
  refine fun _ => ⟨[], .record .refl, rfl, fun {_ s'} _ htied => ⟨_, modify_ok.2 rfl, Correspondence.Near.tied ?_ htied.2⟩⟩
  exact htied.near.recorded (by simp [htied.near.functions]) htied.near.calls

theorem mirrors_moreParams {function : Text} {seen params : List Token} (hle : n ≤ m)
    (h : (moreParams function n seen).run s = .ok (params, t)) :
    Mirrors C closed .apart .alike s t (fun path => ∃ more, params = seen ++ more ∧ Carries (more.map leaf) path)
      (moreParams function m (seen.map C.token)) (params.map C.token) := by
  induction n generalizing m s seen with
  | zero => exact absurd h tooDeep_ok
  | succ n ih =>
    obtain ⟨m, rfl⟩ := Nat.exists_eq_add_of_le' hle
    obtain ⟨_, s₁, hskip, h⟩ := bind_ok.1 h
    obtain ⟨_, s₂, htoken, h⟩ := bind_ok.1 h
    obtain ⟨rfl, hname, htake⟩ := expect_iff.1 htoken
    obtain ⟨hfunction, h⟩ := unless_ok failAt_ok h
    obtain ⟨hseen, h⟩ := unless_ok failAt_ok h
    refine .bind (.skipNewlines (skips_of_skip hskip) (hname ▸ rfl)) fun gap hgap => ?_
    refine .bind (.expect hname htake rfl) ?_
    rintro _ rfl
    have hseen' : ¬((seen.map C.token).any fun other => other.text == (C.token s₁.current).text) = true := by
      rw [List.any_map]
      exact hseen
    refine .unless hfunction (.unless hseen' ?_)
    have hmap : seen.map C.token ++ [C.token s₁.current] = (seen ++ [s₁.current]).map C.token := by simp
    rw [hmap]
    have hhead := (Carries.newlines hgap).append (Carries.leaf s₁.current false)
    rcases accept_split h with ⟨s₃, hcomma, htake', h⟩ | ⟨hcomma, h⟩
    · refine .bind (.acceptOpen hcomma htake' rfl) ?_
      rintro _ rfl
      refine (ih (Nat.le_of_succ_le_succ hle) h).imp ?_
      rintro path ⟨more, rfl, hmore⟩
      refine ⟨s₁.current :: more, by simp, ?_⟩
      simpa [Carries] using hhead.append ((Carries.mark false hcomma rfl).append hmore)
    · obtain ⟨rfl, rfl⟩ := pure_ok.1 h
      refine .bind (.acceptNot hcomma rfl) ?_
      rintro _ rfl
      exact .pure ⟨[s₁.current], rfl, by simpa using hhead⟩

/-- Whether a function has parameters or not, they are read in the same way in the second text. -/
theorem mirrors_params {β : Type} {function : Text} {next next' : List Token → Parser β} {a b : β} (hle : n ≤ m)
    (h : (if s.current.kind = TokenKind.rpar then pure [] >>= next else moreParams function n [] >>= next).run s =
      .ok (a, t))
    (hnext : ∀ {params s₁}, (next params).run s₁ = .ok (a, t) → ∀ path, Carries (params.map leaf) path →
      Mirrors C closed .alike post s₁ t (fun rest => P (path ++ rest)) (next' (params.map C.token)) b) :
    Mirrors C closed .alike post s t P
      (if s.current.kind = TokenKind.rpar then pure [] >>= next' else moreParams function m [] >>= next') b := by
  split at h
  · rename_i hclose
    rw [pure_bind] at h
    rw [if_pos hclose, pure_bind]
    exact hnext h [] .nil
  · rename_i hclose
    obtain ⟨params, s₁, hparams, h⟩ := bind_ok.1 h
    rw [if_neg hclose]
    refine .bind ((mirrors_moreParams hle hparams).mono (fun h => by cases h) id id id) ?_
    rintro path ⟨more, rfl, hmore⟩
    exact hnext h path hmore

theorem isFirm_of_block {context : Context} {stmt : Stmt} (h : (block n context).run s = .ok (stmt, t)) :
    s.current.kind.isFirm = true := by
  cases (stmtReads n).block h with
  | block hopen => rw [hopen]; rfl

theorem mirrors_functionItem {found : Item} (hle : n ≤ m) (hkind : s.current.kind = .function)
    (hknown : ∀ signature ∈ found.signature?, ∀ entry ∈ C.known, entry.1 ≠ signature.1)
    (h : (functionItem n).run s = .ok (found, t)) :
    Mirrors C closed .near .alike s t (fun path => Leads [found.outline] found.governed path ∧ path ≠ [])
      (functionItem m) (found.placed C.place.span) := by
  simp only [functionItem] at h ⊢
  obtain ⟨_, s₁, hstart, h⟩ := bind_ok.1 h
  obtain ⟨rfl, htake⟩ := advance_iff.1 hstart
  refine .bind (.advance htake (hkind ▸ rfl)) ?_
  rintro _ rfl
  obtain ⟨_, s₁, hcurrent, hrest⟩ := bind_ok.1 h
  obtain ⟨rfl, rfl⟩ := current_ok.1 hcurrent
  split at hrest
  swap
  · obtain ⟨_, _, hfail, -⟩ := bind_ok.1 hrest
    exact absurd hfail failExpecting_ok
  rename_i hname
  have htight : s₁.current.kind.isTight = true := by
    rw [Bool.or_eq_true, decide_eq_true_eq, decide_eq_true_eq] at hname
    rcases hname with hname | hname <;> rw [hname] <;> rfl
  refine .current (Bool.and_eq_true_iff.1 htight).1 ?_
  rw [C.token_kind, if_pos hname]
  obtain ⟨_, s₂, htoken, h⟩ := bind_ok.1 hrest
  obtain ⟨rfl, htake₁⟩ := advance_iff.1 htoken
  refine .bind (.advance htake₁ htight) ?_
  rintro _ rfl
  obtain ⟨_, s₂, hget, hdefine⟩ := bind_ok.1 h
  obtain ⟨rfl, rfl⟩ := get_ok.1 hget
  obtain ⟨hnew, h⟩ := unless_ok failAt_ok hdefine
  obtain ⟨_, s₃, hparen, h⟩ := bind_ok.1 h
  obtain ⟨-, hopen, htake₂⟩ := expect_iff.1 hparen
  obtain ⟨_, s₃, hk, h⟩ := bind_ok.1 h
  obtain ⟨rfl, rfl⟩ := kind_ok.1 hk
  have hname' : ∀ entry ∈ C.known, entry.1 ≠ s₁.current.text := by
    obtain ⟨params, s₄, -, h⟩ := reads_params h
    simp only [bind_ok, pure_ok] at h
    obtain ⟨_, _, -, _, _, -, _, _, -, body, _, -, span, _, -, rfl, -⟩ := h
    exact hknown _ rfl
  refine .newFunction hnew hname' (.bind (.expect hopen htake₂ rfl) ?_)
  rintro _ rfl
  refine .kind (fun _ => rfl) (mirrors_params hle h fun {params s₄} h path hpath => ?_)
  simp only [bind_ok, expect_iff, modify_ok, spanFrom_iff, pure_ok] at h
  obtain ⟨_, s₅, ⟨-, hclose, htake₃⟩, _, _, rfl, _, s₆, hskip, body, s₇, hbody, _, _, ⟨rfl, rfl⟩, rfl, rfl⟩ := h
  refine .bind (.expect hclose htake₃ rfl) ?_
  rintro _ rfl
  rw [List.length_map]
  refine .bind (.recordFunction _) ?_
  rintro _ rfl
  refine .bind (.skipNewlines (skips_of_skip hskip) (isFirm_of_block hbody)) fun gap hgap => ?_
  refine .bind ((stmtMirrors C hle).block hbody) fun path' hpath' =>
    .spanFrom _ (.pure ⟨?_, List.cons_ne_nil _ _⟩)
  have hhead := (Carries.mark false hkind rfl).append (Carries.leaf s₁.current false)
  have hlist := (Carries.mark false hopen rfl).append (hpath.append (Carries.mark false hclose rfl))
  have hall := (hhead.append (hlist.append (Carries.newlines hgap))).leads.append hpath'.toLeads
  simpa [Item.governed] using hall.imp (by simp [Item.outline, leavesIn_append])

theorem mirrors_selector {found : Selector} (hle : n ≤ m) (h : (selector n).run s = .ok (found, t)) :
    Mirrors C closed .near .alike s t (Carries [found.outline]) (selector m) (found.placed C.place.span) := by
  simp only [selector] at h ⊢
  obtain ⟨_, s, hcurrent, h⟩ := bind_ok.1 h
  obtain ⟨rfl, rfl⟩ := current_ok.1 hcurrent
  obtain ⟨first, s₁, hfirst, h⟩ := bind_ok.1 h
  have ih := exprMirrors C hle
  refine .current (isFirm_of_level hfirst) (.bind (ih.level hfirst) fun path₁ h₁ => ?_)
  rcases accept_split h with ⟨s₂, hcomma, htake, h⟩ | ⟨hcomma, h⟩
  · simp only [bind_ok, spanFrom_iff, pure_ok] at h
    obtain ⟨_, s₃, hskip, last, s₄, hlast, _, _, ⟨rfl, rfl⟩, rfl, rfl⟩ := h
    refine .bind (.acceptOpen hcomma htake rfl) ?_
    rintro _ rfl
    refine .bind (.skipNewlines (skips_of_skip hskip) (isFirm_of_level hlast)) fun gap hgap => ?_
    refine .bind (ih.level hlast) fun path₂ h₂ => .spanFrom _ (.pure ?_)
    have hbetween := (Carries.mark false hcomma rfl).append (Carries.newlines hgap)
    simpa [Carries, Selector.outline] using h₁.append (hbetween.append h₂)
  · simp only [bind_ok, spanFrom_iff, pure_ok] at h
    obtain ⟨_, _, ⟨rfl, rfl⟩, rfl, rfl⟩ := h
    refine .bind (.acceptNot hcomma rfl) ?_
    rintro _ rfl
    refine .spanFrom _ (.pure ?_)
    simpa [Carries, Selector.outline] using h₁

theorem isFirm_of_item {found : Item} (h : (item n).run s = .ok (found, t)) : s.current.kind.isFirm = true := by
  have hselector {chosen u} (h : ReadsSelector s chosen u) : s.current.kind.isFirm = true := by
    cases h with
    | single hfirst | range hfirst => exact isFirm_of_reads hfirst rfl
  cases reads_item h with
  | begin hkind | «end» hkind | function hkind => rw [hkind]; rfl
  | always hbody =>
    cases hbody with
    | block hopen => rw [hopen]; rfl
  | rule hchosen | selector hchosen => exact hselector hchosen

/-- A selector that no action follows. -/
theorem mirrors_soleSelector {found : Selector} (hle : n ≤ m) (h : (selector n).run s = .ok (found, t))
    (hends : isTerminator t.current.kind = true) :
    Mirrors C closed .near .alike s t (fun path => Carries [found.outline] path ∧ path ≠ []) (selector m)
      (found.placed C.place.span) := by
  refine (mirrors_selector hle h).imp_of_moves fun path _ hmoves hcarries => ⟨hcarries, ?_⟩
  rintro rfl
  have hbegins : isTerminator s.current.kind = false := by
    cases reads_selector h with
    | single hfirst | range hfirst => exact isTerminator_of_reads hfirst rfl
  rw [hmoves.current_eq, hbegins] at hends
  cases hends

/-- The path of an item is not empty. -/
theorem mirrors_item {found : Item} (hle : n ≤ m)
    (hknown : ∀ signature ∈ found.signature?, ∀ entry ∈ C.known, entry.1 ≠ signature.1)
    (h : (item n).run s = .ok (found, t)) :
    Mirrors C closed .near .alike s t (fun path => Leads [found.outline] found.governed path ∧ path ≠ []) (item m)
      (found.placed C.place.span) := by
  have hfirm := isFirm_of_item h
  have ih := stmtMirrors C hle
  simp only [item] at h ⊢
  obtain ⟨_, s, hcurrent, h⟩ := bind_ok.1 h
  obtain ⟨rfl, rfl⟩ := current_ok.1 hcurrent
  refine .current hfirm ?_
  rw [C.token_kind]
  -- Special rules, functions, an action alone, and a selector with or without an action.
  split at h
  · rename_i hkind
    simp only [bind_ok, advance_iff, spanFrom_iff, pure_ok] at h
    obtain ⟨_, s₁, ⟨-, htake⟩, body, s₂, hbody, _, _, ⟨rfl, rfl⟩, rfl, rfl⟩ := h
    refine .bind (.advance htake (hkind ▸ rfl)) ?_
    rintro _ rfl
    refine .bind (ih.block hbody).of_near fun path hpath => .spanFrom _ (.pure ⟨?_, List.cons_ne_nil _ _⟩)
    have hall := (Carries.mark false hkind rfl).leads.append hpath.toLeads
    simpa [Item.governed] using hall.imp (by simp [Item.outline])
  · rename_i hkind
    simp only [bind_ok, advance_iff, spanFrom_iff, pure_ok] at h
    obtain ⟨_, s₁, ⟨-, htake⟩, body, s₂, hbody, _, _, ⟨rfl, rfl⟩, rfl, rfl⟩ := h
    refine .bind (.advance htake (hkind ▸ rfl)) ?_
    rintro _ rfl
    refine .bind (ih.block hbody).of_near fun path hpath => .spanFrom _ (.pure ⟨?_, List.cons_ne_nil _ _⟩)
    have hall := (Carries.mark false hkind rfl).leads.append hpath.toLeads
    simpa [Item.governed] using hall.imp (by simp [Item.outline])
  · rename_i hkind
    exact mirrors_functionItem hle hkind hknown h
  · simp only [bind_ok, spanFrom_iff, pure_ok] at h
    obtain ⟨body, s₁, hbody, _, _, ⟨rfl, rfl⟩, rfl, rfl⟩ := h
    refine .bind (ih.block hbody) fun path hpath => .spanFrom _ (.pure ?_)
    obtain ⟨first, rest, rfl, -⟩ := hpath.begins
    exact ⟨by simpa [Item.governed] using hpath.toLeads.imp (by simp [Item.outline]), List.cons_ne_nil _ _⟩
  · obtain ⟨chosen, s₁, hchosen, h⟩ := bind_ok.1 h
    obtain ⟨_, s₁, hk, h⟩ := bind_ok.1 h
    obtain ⟨rfl, rfl⟩ := kind_ok.1 hk
    split at h
    · rename_i hopen
      simp only [bind_ok, spanFrom_iff, pure_ok] at h
      obtain ⟨body, s₂, hbody, _, _, ⟨rfl, rfl⟩, rfl, rfl⟩ := h
      refine .bind (mirrors_selector hle hchosen) fun path₁ h₁ => .kind (fun _ => rfl) ?_
      rw [if_pos hopen]
      refine .bind (ih.block hbody).of_near fun path₂ h₂ => .spanFrom _ (.pure ⟨?_, ?_⟩)
      · have hall := h₁.leads.append h₂.toLeads
        simpa [Item.governed] using hall.imp (by simp [Item.outline])
      · obtain ⟨first, rest, rfl, -⟩ := h₂.begins
        simp
    · rename_i hopen
      obtain ⟨b, s₂, hend, h⟩ := bind_ok.1 h
      obtain ⟨rfl, rfl⟩ := atTerminator_iff.1 hend
      obtain ⟨hends, h⟩ := unless_ok failExpecting_ok h
      simp only [bind_ok, spanFrom_iff, pure_ok] at h
      obtain ⟨_, _, ⟨rfl, rfl⟩, rfl, rfl⟩ := h
      have hends' : isTerminator t.current.kind = true := by simpa using hends
      refine .bind (mirrors_soleSelector hle hchosen hends') fun path₁ h₁ => .kind (fun _ => rfl) ?_
      rw [if_neg hopen]
      refine .atTerminator (.unless hends (.spanFrom _ (.pure ?_)))
      rw [List.append_nil]
      exact ⟨by simpa [Item.governed] using h₁.1.leads.imp (by simp [Item.outline]), h₁.2⟩

/-! ### Programs -/

/-- Newlines and semicolons before the items make no difference. -/
theorem items_of_skips {more : List Item} (hskip : SkipsTerminators s s₁) (h : (items n).run s₁ = .ok (more, t)) :
    (items n).run s = .ok (more, t) := by
  cases n with
  | zero => exact absurd h tooDeep_ok
  | succ n =>
    obtain ⟨_, s₂, hrun, h⟩ := bind_ok.1 h
    exact bind_ok.2 ⟨_, _, skip_of_skips (hskip.trans (skips_of_skip hrun)) (skip_stops rfl hrun) rfl, h⟩

/-- What is read as the items of a program in the first text is read in the second one, with any fuel that is no less.
At the end of the path the second text may go on. -/
theorem exists_items {list : List Item} (hfed : Fed s) (hle : n ≤ m) (h : (items n).run s = .ok (list, t))
    (hknown : ∀ item ∈ list, ∀ signature ∈ item.signature?, ∀ entry ∈ C.known, entry.1 ≠ signature.1) :
    ∃ path, Moves s (path.map Taken.token) t ∧ list.length < n ∧ list.length ≤ path.length ∧ t.current.kind = .eof ∧
      Leads (list.map Item.outline) (list.flatMap Item.governed) path ∧
      ∀ {s'}, C.Tied .loose path s s' → ∃ t', C.Near [] t t' ∧ ∀ {more u},
        (items (m - list.length)).run t' = .ok (more, u) →
          (items m).run s' = .ok (list.map (Item.placed C.place.span) ++ more, u) := by
  induction n generalizing m s list with
  | zero => exact absurd h tooDeep_ok
  | succ n ih =>
    obtain _ | m := m
    · exact absurd hle (Nat.not_succ_le_zero n)
    obtain ⟨_, s₁, hskip, h⟩ := bind_ok.1 h
    obtain ⟨_, s₁, hk, h⟩ := bind_ok.1 h
    obtain ⟨rfl, rfl⟩ := kind_ok.1 hk
    have hskips := skips_of_skip hskip
    split at h
    · rename_i hend
      obtain ⟨rfl, rfl⟩ := pure_ok.1 h
      obtain ⟨path, hmoves, hall, hrun⟩ := Correspondence.exists_skips_of_tied (C := C) (fun hk => by simpa using hk) rfl hskips
      refine ⟨path, hmoves, Nat.succ_pos n, Nat.zero_le _, hend, (Carries.gap hall).leads, fun htied => ?_⟩
      rw [← List.append_nil path] at htied
      obtain ⟨t', hskip', hnear⟩ := hrun htied
      exact ⟨t', hnear, fun hmore => items_of_skips hskip' hmore⟩
    · rename_i hend
      simp only [bind_ok, pure_ok] at h
      obtain ⟨first, s₂, hfirst, more, s₃, hmore, rfl, rfl⟩ := h
      have hle := Nat.le_of_succ_le_succ hle
      obtain ⟨hfirst', hmore'⟩ := List.forall_mem_cons.1 hknown
      have hstop := Bool.or_eq_false_iff.1 (skip_stops rfl hskip)
      have hitem : Mirrors C false .loose .alike s s₂
          (fun path => Leads [first.outline] first.governed path ∧ path ≠ []) (skipTerminators >>= fun _ => item m)
          (first.placed C.place.span) := by
        refine .bind (.skipTerminators hskips (isFirm_of_item hfirst) (ne_of_beq_false hstop.2)) fun gap hgap => ?_
        have hpath {path} (hpath : Leads [first.outline] first.governed path ∧ path ≠ []) :
            Leads [first.outline] first.governed (gap ++ path) ∧ gap ++ path ≠ [] :=
          ⟨by simpa using (Carries.gap hgap).leads.append hpath.1, by simp [hpath.2]⟩
        exact (mirrors_item hle hfirst' hfirst).imp fun path => hpath
      obtain ⟨path, hmoves, ⟨hleads, hne⟩, hrun⟩ := hitem hfed
      obtain ⟨path', hmoves', hlt, hlength, hend', hleads', hrun'⟩ := ih (hmoves.fed hfed) hle hmore hmore'
      have hpos := List.length_pos_iff.2 hne
      refine ⟨path ++ path', List.map_append ▸ hmoves.trans hmoves', Nat.succ_lt_succ hlt, ?_, hend',
        hleads.append hleads', fun htied => ?_⟩
      · rw [List.length_cons, List.length_append]
        omega
      obtain ⟨s₂', hitem', htied₂⟩ := hrun (fun h => Bool.noConfusion h) htied
      obtain ⟨t', hnear, hitems⟩ := hrun' (htied₂.mono (fun h => by cases h) (fun h => by cases h))
      refine ⟨t', hnear, fun hm => ?_⟩
      rw [List.length_cons, Nat.add_sub_add_right] at hm
      obtain ⟨_, s₁', hskip', hitem'⟩ := bind_ok.1 hitem'
      refine bind_ok.2 ⟨_, _, hskip', bind_ok.2 ⟨_, _, kind_ok.2 ⟨rfl, rfl⟩, ?_⟩⟩
      rw [if_neg (TokenKind.ne_of_isFirm (isFirm_of_item hitem')).2]
      exact bind_ok.2 ⟨_, _, hitem', bind_ok.2 ⟨_, _, hitems hm, rfl⟩⟩

end Parser

end Awk
