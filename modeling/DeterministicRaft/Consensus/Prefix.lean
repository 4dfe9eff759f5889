import Mathlib.Data.List.Infix

/-!
# Prefixes of lists

Logs are compared by prefix. Here are the facts about `<+:` that the safety argument uses and the library does not state: the
entries a prefix shares with what it extends, the longest common prefix of two lists, and the merge of a log with the first
entries of an authority.
-/

namespace Consensus

variable {ε : Type*}

/-- The cut of an extension, within the length of what it extends, is the cut of what it extends. -/
theorem take_extends {X Y : List ε} (h : X <+: Y) {n : ℕ} (hn : n ≤ X.length) : Y.take n = X.take n := by
  obtain ⟨t, rfl⟩ := h
  rw [List.take_append_of_le_length hn]

/-- A prefix has the same entry at each of its places. -/
theorem getElem?_extends {X Y : List ε} (h : X <+: Y) {k : ℕ} {e : ε} (hk : X[k]? = some e) : Y[k]? = some e := by
  obtain ⟨t, rfl⟩ := h
  rw [List.getElem?_append_left (List.getElem?_eq_some_iff.1 hk).1]
  exact hk

/-- An entry of a list within a prefix's length is an entry of the prefix. -/
theorem getElem?_below {X Y : List ε} (h : X <+: Y) {k : ℕ} {e : ε} (hk : Y[k]? = some e) (hl : k < X.length) :
    X[k]? = some e := by
  obtain ⟨t, rfl⟩ := h
  rwa [List.getElem?_append_left hl] at hk

/-- Two lists that agree up to and including a place hold the same entry there. -/
theorem getElem?_of_take_succ {X Y : List ε} {k : ℕ} {e : ε} (h : X.take (k + 1) <+: Y) (hk : X[k]? = some e) :
    Y[k]? = some e := by
  apply getElem?_extends h
  rw [List.getElem?_take_of_lt (Nat.lt_succ_self k)]
  exact hk

/-- Cutting one entry further appends that entry. -/
theorem take_succ_eq {X : List ε} {k : ℕ} {e : ε} (hk : X[k]? = some e) : X.take (k + 1) = X.take k ++ [e] := by
  rw [List.take_add_one, hk]
  rfl

/-- An entry of a list with one entry more is one of the list, or the last. -/
theorem getElem?_concat_cases {X : List ε} {x y : ε} {k : ℕ} (hk : (X ++ [x])[k]? = some y) :
    X[k]? = some y ∨ (k = X.length ∧ y = x) := by
  rcases lt_trichotomy k X.length with hlt | rfl | hgt
  · rw [List.getElem?_append_left hlt] at hk
    exact Or.inl hk
  · rw [List.getElem?_concat_length] at hk
    exact Or.inr ⟨rfl, (Option.some.inj hk).symm⟩
  · rw [List.getElem?_eq_none (by simp; omega)] at hk
    cases hk

/-- Two lists have a longest common prefix. -/
theorem exists_meet (X Y : List ε) : ∃ Z, Z <+: X ∧ Z <+: Y ∧ ∀ W, W <+: X → W <+: Y → W <+: Z := by
  induction X generalizing Y with
  | nil => exact ⟨[], List.nil_prefix, List.nil_prefix, fun W hW _ => hW⟩
  | cons x X ih =>
    cases Y with
    | nil => exact ⟨[], List.nil_prefix, List.nil_prefix, fun W _ hW => hW⟩
    | cons y Y =>
      by_cases hxy : x = y
      · subst hxy
        obtain ⟨Z, hX, hY, hm⟩ := ih Y
        refine ⟨x :: Z, (List.prefix_cons_inj x).2 hX, (List.prefix_cons_inj x).2 hY, ?_⟩
        intro W h1 h2
        cases W with
        | nil => exact List.nil_prefix
        | cons w W =>
          obtain ⟨rfl, h3⟩ := List.cons_prefix_cons.1 h1
          exact (List.prefix_cons_inj _).2 (hm W h3 (List.cons_prefix_cons.1 h2).2)
      · refine ⟨[], List.nil_prefix, List.nil_prefix, ?_⟩
        intro W h1 h2
        cases W with
        | nil => exact List.nil_prefix
        | cons w W =>
          exact absurd ((List.cons_prefix_cons.1 h1).1.symm.trans (List.cons_prefix_cons.1 h2).1) hxy

/-! ## Merging a log with the first entries of an authority -/

open Classical in
/-- What a log becomes when the authority's first entries `A` are to be in it: unchanged if they are, and cut to them
otherwise. -/
noncomputable def merge (L A : List ε) : List ε := if A <+: L then L else A

/-- The authority's entries are in the merge. -/
theorem prefix_merge (L A : List ε) : A <+: merge L A := by
  unfold merge
  split
  · assumption
  · exact List.prefix_refl A

/-- The merge is the log itself when the log already held the authority's entries. -/
theorem merge_eq_left {L A : List ε} (h : A <+: L) : merge L A = L := if_pos h

/-- The merge is the authority's entries when the log did not hold them. -/
theorem merge_eq_right {L A : List ε} (h : ¬A <+: L) : merge L A = A := if_neg h

/-- What a log shares with the authority survives the merge. -/
theorem prefix_merge_both {X L B : List ε} {m : ℕ} (hL : X <+: L) (hB : X <+: B) : X <+: merge L (B.take m) := by
  by_cases h : B.take m <+: L
  · rwa [merge_eq_left h]
  · rw [merge_eq_right h]
    rcases Nat.le_total X.length m with hm | hm
    · exact List.prefix_take_iff.2 ⟨hB, hm⟩
    · exact absurd ((take_extends hB hm ▸ List.take_prefix m X).trans hL) h

/-- The first entries of a log survive the merge, if the log has what the authority has of them. -/
theorem prefix_merge_known {L B : List ε} {c m : ℕ} (hB : B.take c <+: L) : L.take c <+: merge L (B.take m) := by
  by_cases h : B.take m <+: L
  · rw [merge_eq_left h]
    exact List.take_prefix c L
  · rw [merge_eq_right h]
    have hcm : c < m := by
      by_contra hle
      exact h ((List.take_prefix_take_left (not_lt.1 hle)).trans hB)
    have hlen : c < B.length := by
      by_contra hle
      rw [List.take_of_length_le (by omega)] at h hB
      exact h hB
    have heq : L.take c = B.take c := by
      have htake := List.prefix_iff_eq_take.1 hB
      rw [List.length_take_of_le hlen.le] at htake
      exact htake.symm
    rw [heq]
    exact List.take_prefix_take_left hcm.le

/-- Every entry of a merge is an entry of the log or of the authority. -/
theorem mem_merge {L A : List ε} {e : ε} (h : e ∈ merge L A) : e ∈ L ∨ e ∈ A := by
  by_cases hp : A <+: L
  · rw [merge_eq_left hp] at h
    exact Or.inl h
  · rw [merge_eq_right hp] at h
    exact Or.inr h

end Consensus
