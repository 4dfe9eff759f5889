import Mathlib.Data.Finset.SymmDiff
import Mathlib.Data.List.Count
import Mathlib.Data.List.Dedup
import Mathlib.Data.Finset.Card

/-!
# Majorities of a list of voters

A set is a majority of a list when more than half of the list is in it. Two majorities of one list meet, and so do majorities of
two sets of voters that differ by one.
-/

namespace Consensus

variable {ν : Type*}

open Classical in
/-- More than half of the voters `c` are in `Q`. -/
def Majority (c : List ν) (Q : Set ν) : Prop := c.length < 2 * c.countP (fun v => decide (v ∈ Q))

/-- A count by a decidable test that only holds in `Q` shows a majority. -/
theorem majority_of_countP {c : List ν} {Q : Set ν} (p : ν → Bool) (hp : ∀ v, p v = true → v ∈ Q)
    (h : c.length < 2 * c.countP p) : Majority c Q := by
  classical
  have : c.countP p ≤ c.countP (fun v => decide (v ∈ Q)) :=
    List.countP_mono_left fun v _ hv => by simpa using hp v hv
  unfold Majority
  omega

/-- More than half as many nodes of a set as there are voters, all of them voters, are a majority. -/
theorem majority_of_card [DecidableEq ν] {c : List ν} {F : Finset ν} (h : c.length < (F.filter (· ∈ c)).card * 2) :
    Majority c {v | v ∈ F} := by
  refine majority_of_countP (fun v => decide (v ∈ F)) (fun v hv => by simpa using hv) ?_
  have hsub : F.filter (· ∈ c) ⊆ (c.filter (fun v => decide (v ∈ F))).toFinset := by
    intro v hv
    rw [Finset.mem_filter] at hv
    simp [hv.1, hv.2]
  have hcard := (Finset.card_le_card hsub).trans (List.toFinset_card_le _)
  rw [List.countP_eq_length_filter]
  omega

/-- More nodes than a majority are a majority. -/
theorem Majority.mono {c : List ν} {Q Q' : Set ν} (h : Majority c Q) (hs : Q ⊆ Q') : Majority c Q' := by
  classical
  exact majority_of_countP _ (fun v hv => hs (by simpa using hv)) h

/-- A majority is one by its voters alone. -/
theorem Majority.inter {c : List ν} {Q : Set ν} (h : Majority c Q) : Majority c (Q ∩ {v | v ∈ c}) := by
  classical
  refine majority_of_countP (fun v => decide (v ∈ Q) && decide (v ∈ c)) (fun v hv => by simpa using hv) ?_
  rw [List.countP_congr (q := fun v => decide (v ∈ Q)) fun v hv => by simp [hv]]
  exact h

/-- Two majorities of one list meet. -/
theorem Majority.overlap {c : List ν} {Q Q' : Set ν} (h : Majority c Q) (h' : Majority c Q') : ∃ v, v ∈ Q ∧ v ∈ Q' := by
  classical
  by_contra hn
  have hd : ∀ v, v ∈ Q' → v ∉ Q := fun v h1 h2 => hn ⟨v, h2, h1⟩
  have h1 := List.length_eq_countP_add_countP (l := c) (fun v => decide (v ∈ Q))
  have h2 : c.countP (fun v => decide (v ∈ Q')) ≤ c.countP (fun v => !decide (v ∈ Q)) :=
    List.countP_mono_left fun v _ hv => by simpa using hd v (by simpa using hv)
  have h3 : c.countP (fun v => !decide (v ∈ Q)) = c.countP (fun v => decide ¬decide (v ∈ Q) = true) := by
    refine List.countP_congr fun v _ => ?_
    simp
  unfold Majority at h h'
  omega

/-- The voters of a list of distinct voters that are in a set, counted as a set. -/
theorem countP_eq_card [DecidableEq ν] {c : List ν} (hc : c.Nodup) (p : ν → Bool) :
    c.countP p = (c.toFinset.filter (fun v => p v = true)).card := by
  rw [List.countP_eq_length_filter, ← List.toFinset_card_of_nodup (hc.filter p), List.toFinset_filter]

/-- Majorities of two sets of voters that differ by one meet: the union of the sets is as large as half of both and their difference
together. -/
theorem Majority.overlap_adjacent [DecidableEq ν] {c c' : List ν} (hc : c.Nodup) (hc' : c'.Nodup)
    (hd : (symmDiff c.toFinset c'.toFinset).card = 1) {Q Q' : Set ν} (h : Majority c Q) (h' : Majority c' Q') :
    ∃ v, v ∈ Q ∧ v ∈ Q' := by
  classical
  by_contra hn
  unfold Majority at h h'
  rw [countP_eq_card hc, ← List.toFinset_card_of_nodup hc] at h
  rw [countP_eq_card hc', ← List.toFinset_card_of_nodup hc'] at h'
  generalize c.toFinset = C at h hd
  generalize c'.toFinset = C' at h' hd
  have hdisj : Disjoint (C.filter (fun v => decide (v ∈ Q) = true)) (C'.filter (fun v => decide (v ∈ Q') = true)) := by
    rw [Finset.disjoint_left]
    intro v hv hv'
    simp only [Finset.mem_filter, decide_eq_true_eq] at hv hv'
    exact hn ⟨v, hv.2, hv'.2⟩
  have hsub := Finset.card_le_card
    (Finset.union_subset_union (Finset.filter_subset (fun v => decide (v ∈ Q) = true) C)
      (Finset.filter_subset (fun v => decide (v ∈ Q') = true) C'))
  rw [Finset.card_union_of_disjoint hdisj] at hsub
  have h1 := Finset.card_union_add_card_inter C C'
  have h2 : (C ∪ C').card = (C ∩ C').card + (symmDiff C C').card := by
    have hle : C ∩ C' ⊆ C ∪ C' := Finset.inter_subset_left.trans Finset.subset_union_left
    have h3 := Finset.card_sdiff_add_card_eq_card hle
    have h4 : symmDiff C C' = (C ∪ C') \ (C ∩ C') := symmDiff_eq_sup_sdiff_inf C C'
    rw [h4]
    omega
  omega

end Consensus
