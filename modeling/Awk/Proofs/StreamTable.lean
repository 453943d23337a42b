import Awk.World.Output

/-!
# Tables of streams

A table has at most one stream under a name.  Putting a stream there or dropping one changes what stands under this name
and nothing else.
-/

namespace Awk.World

variable {α : Type} (name other : Text) (stream : α) (streams : List (Text × α))

theorem lookup_putStream :
    (putStream name stream streams).lookup other = if other = name then some stream else streams.lookup other := by
  induction streams with
  | nil =>
    by_cases hother : other = name
    · simp [putStream, hother]
    · simp [putStream, hother, List.lookup_cons, beq_eq_false_iff_ne.2 hother]
  | cons entry streams ih =>
    obtain ⟨n, s⟩ := entry
    rw [putStream]
    by_cases hn : n = name
    · subst hn
      rw [if_pos rfl]
      by_cases hother : other = n
      · simp [hother]
      · simp [hother, List.lookup_cons, beq_eq_false_iff_ne.2 hother]
    · rw [if_neg hn]
      by_cases hother : other = n
      · subst hother
        simp [hn]
      · rw [List.lookup_cons, List.lookup_cons, beq_eq_false_iff_ne.2 hother]
        exact ih

theorem lookup_dropStream :
    (dropStream name streams).lookup other = if other = name then none else streams.lookup other := by
  induction streams with
  | nil => simp [dropStream]
  | cons entry streams ih =>
    obtain ⟨n, s⟩ := entry
    rw [dropStream] at ih ⊢
    by_cases hn : n = name
    · subst hn
      rw [List.filter_cons_of_neg (by simp), ih]
      by_cases hother : other = n
      · rw [if_pos hother, if_pos hother]
      · rw [if_neg hother, if_neg hother, List.lookup_cons, beq_eq_false_iff_ne.2 hother]
    · rw [List.filter_cons_of_pos (by simpa using hn)]
      by_cases hother : other = n
      · subst hother
        simp [hn]
      · rw [List.lookup_cons, List.lookup_cons, beq_eq_false_iff_ne.2 hother]
        exact ih

variable {name streams} in
theorem dropStream_of_lookup (h : streams.lookup name = none) : dropStream name streams = streams := by
  refine List.filter_eq_self.2 fun entry hentry => bne_iff_ne.2 fun heq => ?_
  have hne := List.lookup_eq_none_iff.1 h entry hentry
  rw [heq] at hne
  simp at hne

theorem names_putStream : (putStream name stream streams).map Prod.fst =
    if name ∈ streams.map Prod.fst then streams.map Prod.fst else streams.map Prod.fst ++ [name] := by
  induction streams with
  | nil => rfl
  | cons entry streams ih =>
    obtain ⟨n, s⟩ := entry
    rw [putStream]
    by_cases hn : n = name
    · subst hn
      simp
    · rw [if_neg hn, List.map_cons, ih, List.map_cons]
      by_cases hmem : name ∈ streams.map Prod.fst
      · rw [if_pos hmem, if_pos (List.mem_cons_of_mem _ hmem)]
      · rw [if_neg hmem, if_neg fun h => (List.mem_cons.1 h).elim (hn ∘ Eq.symm) hmem, List.cons_append]

variable {streams}

theorem nodup_putStream (h : (streams.map Prod.fst).Nodup) : ((putStream name stream streams).map Prod.fst).Nodup := by
  rw [names_putStream]
  split
  · exact h
  · rename_i hname
    refine List.nodup_append.2 ⟨h, List.pairwise_singleton .., fun n hn new hnew => ?_⟩
    rintro rfl
    exact hname (List.mem_singleton.1 hnew ▸ hn)

theorem nodup_dropStream (h : (streams.map Prod.fst).Nodup) : ((dropStream name streams).map Prod.fst).Nodup :=
  h.sublist (List.filter_sublist.map _)

variable {name stream}

theorem lookup_of_mem (h : (streams.map Prod.fst).Nodup) (hmem : (name, stream) ∈ streams) :
    streams.lookup name = some stream := by
  induction streams with
  | nil => cases hmem
  | cons entry streams ih =>
    obtain ⟨n, s⟩ := entry
    obtain ⟨hn, h⟩ := List.nodup_cons.1 h
    rcases List.mem_cons.1 hmem with heq | htail
    · cases heq
      exact List.lookup_cons_self
    · have hne : name ≠ n := by
        rintro rfl
        exact hn (List.mem_map.2 ⟨_, htail, rfl⟩)
      rw [List.lookup_cons, beq_eq_false_iff_ne.2 hne]
      exact ih h htail

theorem mem_names_of_lookup (h : streams.lookup name = some stream) : name ∈ streams.map Prod.fst := by
  obtain ⟨before, after, rfl, -⟩ := List.lookup_eq_some_iff.1 h
  simp

end Awk.World
