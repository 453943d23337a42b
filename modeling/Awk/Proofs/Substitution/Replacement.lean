import Awk.Proofs.Regex.Slashes
import Awk.Substitute

/-!
# Replacements

A replacement is expanded part after part, so that it may be cut anywhere but behind a backslash that nothing is paired
with yet (`expand_append`).  Every text has a replacement that stands for it, whatever was matched: the text with a
backslash before each backslash and each `&` (`expand_literally`).
-/

namespace Awk

open Ere (Paired)

/-- The replacement that stands for the text itself. -/
def literally (t : Text) : Text := t.flatMap fun c => if c = '&' ∨ c = '\\' then ['\\', c] else [c]

theorem expand_ampersand (matched : Text) : expand ['&'] matched = matched := List.append_nil matched

section Equations

-- Both lemmas need the equations of `expand`, which are made here.
attribute [local simp] expand

theorem expand_plain {c : Char} (hmatched : c ≠ '&') (hescape : c ≠ '\\') (t matched : Text) :
    expand (c :: t) matched = c :: expand t matched := by
  rw [expand]
  · exact fun u hc => absurd hc hescape
  · exact fun u hc => absurd hc hescape
  · exact hmatched

/-- A backslash stands for itself if nothing that it could be paired with follows. -/
theorem expand_unpaired {c : Char} (hmatched : c ≠ '&') (hescape : c ≠ '\\') (t matched : Text) :
    expand ('\\' :: c :: t) matched = '\\' :: expand (c :: t) matched := by
  rw [expand]
  · exact fun u _ hu => hmatched (List.cons.inj hu).1
  · exact fun u _ hu => hescape (List.cons.inj hu).1
  · nofun

end Equations

theorem expand_literally (t matched : Text) : expand (literally t) matched = t := by
  induction t with
  | nil => rfl
  | cons c t ih =>
    rw [literally, List.flatMap_cons, ← literally]
    split
    · rename_i hc
      rcases hc with rfl | rfl
      · exact congrArg ('&' :: ·) ih
      · exact congrArg ('\\' :: ·) ih
    · rename_i hc
      rw [not_or] at hc
      rw [List.singleton_append, expand_plain hc.1 hc.2, ih]

/-! ### Cutting a replacement -/

/-- Only the backslashes at the end matter. -/
theorem paired_of_cons {c d : Char} {t : Text} (hd : d ≠ '\\') (h : Paired (c :: d :: t)) : Paired (d :: t) := by
  unfold Paired List.rtakeWhile at *
  rw [List.length_reverse] at *
  rw [List.reverse_cons, List.takeWhile_append] at h
  split at h
  · rename_i hall
    have hmem : d ∈ ((d :: t).reverse.takeWhile (· == '\\')) := by
      rw [(List.takeWhile_prefix _).eq_of_length hall]
      simp
    exact absurd (by simpa using List.mem_takeWhile_imp hmem) hd
  · exact h

theorem expand_append {a : Text} (h : Paired a) (b matched : Text) :
    expand (a ++ b) matched = expand a matched ++ expand b matched := by
  induction a, matched using expand.induct with
  | case1 t matched ih =>
    have ht : Paired t := Paired.of_append (s := ['\\', '&']) rfl h
    exact congrArg ('&' :: ·) (ih ht)
  | case2 t matched ih =>
    have ht : Paired t := Paired.of_append (s := ['\\', '\\']) rfl h
    exact congrArg ('\\' :: ·) (ih ht)
  | case3 t matched ih =>
    have ht : Paired t := Paired.of_append (s := ['&']) rfl h
    rw [List.cons_append, expand, expand, ih ht, List.append_assoc]
  | case4 c t matched hampersand hescape hmatched ih =>
    by_cases hc : c = '\\'
    · subst hc
      -- What the backslash could be paired with belongs to `a`.
      cases t with
      | nil => cases h
      | cons d t =>
        have hd : d ≠ '&' := fun hd => hampersand t rfl (by rw [hd])
        have hd' : d ≠ '\\' := fun hd => hescape t rfl (by rw [hd])
        have hrest := ih (paired_of_cons hd' h)
        rw [List.cons_append] at hrest
        rw [List.cons_append, List.cons_append, expand_unpaired hd hd', expand_unpaired hd hd', hrest,
          List.cons_append]
    · have ht : Paired t := Paired.of_append (s := [c]) (Paired.concat [] hc) h
      rw [List.cons_append, expand_plain hmatched hc, expand_plain hmatched hc, ih ht, List.cons_append]
  | case5 matched => rfl

/-- A replacement that ends in an unpaired backslash cannot be cut there: an `&` after it stands for itself. -/
theorem paired_of_expand_append {a : Text}
    (h : ∀ b matched, expand (a ++ b) matched = expand a matched ++ expand b matched) : Paired a := by
  by_contra hnot
  obtain ⟨s, rfl, hs⟩ := Ere.exists_of_not_paired hnot
  have hcut := h ['&'] []
  rw [List.append_assoc, expand_append hs, expand_append hs, List.append_assoc] at hcut
  cases List.append_cancel_left hcut

/-- **Every text can be put in.**  With a backslash before each backslash and each `&` a text is put in as it is.  A
replacement may be expanded in two parts exactly if the first one does not end in an unpaired backslash. -/
theorem expand_literally_and_append : (∀ t matched, expand (literally t) matched = t) ∧
    ∀ a, Paired a ↔ ∀ b matched, expand (a ++ b) matched = expand a matched ++ expand b matched :=
  ⟨expand_literally, fun _ => ⟨fun h b matched => expand_append h b matched, paired_of_expand_append⟩⟩

example : expand (literally "a\\&b".toList) "m".toList = "a\\&b".toList ∧ Paired "a\\\\".toList ∧
    ¬Paired "\\\\\\".toList := by
  decide

end Awk
