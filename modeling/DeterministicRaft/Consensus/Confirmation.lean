import DeterministicRaft.Consensus.Preserve

/-!
# Confirming a leader

A leader that has committed an entry of its own term asks which nodes are still in its term. If a quorum says so, at moments of
their own after the question, then nothing had been committed when it asked but what the leader knew.
-/

namespace Consensus

variable {ν ε γ : Type*} {S : Scheme ν ε γ} {s : State ν ε}

/-- With one configuration throughout: when a quorum of it is later found in a term no later than `t`, no leader of a term after
`t` had been elected before. -/
theorem Inv.le_of_confirmed (h : Inv S s) {c : γ} (hcfg : ∀ X, s.WellFormed S X → S.cfg X = c) {t : ℤ} {Q : Set ν}
    (hQ : S.quorum c Q) (hconf : ∀ v ∈ Q, ∃ s', s.Extends s' ∧ Inv S s' ∧ s'.term v ≤ t) {u : ℤ} (hu : s.Led u) : u ≤ t := by
  obtain ⟨a, ha⟩ := hu
  have hq := h.leader_elected ha
  rw [hcfg _ (h.stood_wf (h.leader_stood ha))] at hq
  obtain ⟨v, ⟨V, hV, -⟩, hv⟩ := S.overlap hq hQ
  obtain ⟨s', x, h', ht⟩ := hconf v hv
  exact (h'.ballot_le (x.ballot hV)).1.trans ht

/-- A confirmed leader that has committed an entry of its own term knows everything that was committed when it asked. An earlier commit
lies below what the leader was elected with, and so below its own. -/
theorem Inv.length_le_of_confirmed (h : Inv S s) {c : γ} (hcfg : ∀ X, s.WellFormed S X → S.cfg X = c) {t : ℤ} {n : ℕ}
    {Y : List ε} (hown : s.committed t n Y) (hmax : ∀ k X, s.committed t k X → k ≤ n) {Q : Set ν} (hQ : S.quorum c Q)
    (hconf : ∀ v ∈ Q, ∃ s', s.Extends s' ∧ Inv S s' ∧ s'.term v ≤ t) {u : ℤ} {P : List ε} (hP : s.Committed u P) :
    P.length ≤ n := by
  rcases hP with rfl | ⟨u', k, X, -, hX, hp⟩
  · exact Nat.zero_le _
  have hk : (X.take k).length = k := List.length_take_of_le (h.committed_le hX)
  have hlen := hk ▸ hp.length_le
  have hle := h.le_of_confirmed hcfg hQ hconf (h.committed_led hX).1
  rcases lt_or_eq_of_le hle with hlt | rfl
  · have h1 := (h.complete (h.committed_led hown).1 u' k X hX hlt).length_le
    have h2 := h.elog_lt_committed hown
    omega
  · exact hlen.trans (hmax k X hX)

end Consensus
