import DeterministicRaft.Simulation

/-!
# The representation invariant of a node

What the fields of a node say about one another in every reachable world, and that no operation raises there.
-/

namespace DeterministicRaft

open Consensus

variable {net : Network}

/-- How the fields of a node fit together. -/
structure RaftNode.WellFormed (self : RaftNode) : Prop where
  base_nonneg : 0 ≤ self.baseIndex
  base_le : self.baseIndex ≤ self.lastApplied
  applied_eq : self.lastApplied = self.commitIndex
  commit_le : self.commitIndex ≤ self.lastLogIndex
  /-- `applied` lists the commands at the indices above the base up to `lastApplied`; after a restart or an installation there are
  none. -/
  applied : self.applied = (self.log.take (self.lastApplied - self.baseIndex).toNat).map (·.command)
  snapshot_iff : (∃ snap, self.snapshot = some snap) ↔ 0 < self.baseIndex
  snapshot_at : ∀ snap, self.snapshot = some snap → snap.lastIndex = self.baseIndex ∧ snap.lastTerm = self.baseTerm
  sorted : self.log.Pairwise fun e e' => e.term ≤ e'.term
  base_term : self.baseTerm ≤ self.term ∧ ∀ e ∈ self.log, self.baseTerm ≤ e.term
  terms : ∀ e ∈ self.log, e.term ≤ self.term
  /-- A leader has a next index for each of its peers, and every next index is in its log or just behind it. -/
  next_range : self.role = .leader → ∀ p i, self.nextIndex.lookup p = some i → 1 ≤ i ∧ i ≤ self.lastLogIndex + 1
  next_some : self.role = .leader → ∀ p ∈ self.peers, ∃ i, self.nextIndex.lookup p = some i

/-- A node that stands for its part of a protocol state is well formed. -/
theorem Fits.wellFormed {a : State NodeId Entry} {tr : Trace} {n : NodeId} {self : RaftNode} (h : Fits net tr n a self) :
    self.WellFormed := by
  obtain ⟨b, hb, hbn, hle⟩ := h.2.stored.exists_base
  have hbc := h.2.base_le
  have hci := h.2.commitIndex
  have hla := h.2.lastApplied
  have hcl := h.commit_le
  have hlast := h.lastLogIndex
  have hlive : self.log = (a.log n).drop b := hbn ▸ h.2.stored.live
  have hbt : self.baseTerm = net.scheme.lastTerm ((a.log n).take b) := hbn ▸ h.2.stored.baseTerm
  have hsn : self.snapshot = net.snapshotOf ((a.log n).take b) := hbn ▸ h.2.stored.snapshot
  have hlen : ((a.log n).take b).length = b := List.length_take_of_le hle
  have hget : ∀ {i : ℕ} {e : Entry}, self.log[i]? = some e → (a.log n)[b + i]? = some e := by
    intro i e hi
    rwa [hlive, List.getElem?_drop] at hi
  have hbase : (b = 0 ∧ self.baseTerm = 0) ∨ ∃ e, (a.log n)[b - 1]? = some e ∧ self.baseTerm = e.term ∧ 0 < b := by
    rcases Nat.eq_zero_or_pos b with rfl | hpos
    · exact Or.inl ⟨rfl, by rw [hbt]; rfl⟩
    · obtain ⟨i, rfl⟩ : ∃ i, b = i + 1 := ⟨b - 1, by omega⟩
      obtain ⟨e, he⟩ : ∃ e, (a.log n)[i]? = some e := ⟨_, List.getElem?_eq_getElem (by omega)⟩
      exact Or.inr ⟨e, he, by rw [hbt, lastTerm_take he]; rfl, hpos⟩
  have hnonneg : ∀ e ∈ a.log n, 0 ≤ e.term := by
    intro e he
    obtain ⟨i, hi⟩ := List.mem_iff_getElem?.1 he
    exact (h.1.led_pos (h.1.log_wf n i e hi).1).le
  have hterms : ∀ e ∈ a.log n, e.term ≤ self.term := by
    intro e he
    rw [h.2.term]
    exact h.1.log_term n e he
  refine {
    base_nonneg := h.2.stored.nonneg
    base_le := by omega
    applied_eq := by omega
    commit_le := by omega
    applied := ?_
    snapshot_iff := ?_
    snapshot_at := ?_
    sorted := ?_
    base_term := ⟨?_, ?_⟩
    terms := fun e he => hterms e (List.mem_of_mem_drop (hlive ▸ he))
    next_range := fun hr p i hi => by
      have := (h.2.leads hr).next_range p i hi
      omega
    next_some := fun hr p hp => (h.2.leads hr).next_some p ((h.2.peers p).1 hp).1 ((h.2.peers p).1 hp).2 }
  · rw [h.2.applied, hbn, hlive, List.drop_take]
    congr 2
    omega
  · rw [hsn, Network.snapshotOf]
    constructor
    · rintro ⟨snap, hs⟩
      split at hs
      · exact absurd hs (by simp)
      · rename_i hne
        have := List.length_pos_iff.2 hne
        omega
    · intro hpos
      have hne : (a.log n).take b ≠ [] := by
        intro hnil
        rw [hnil, List.length_nil] at hlen
        omega
      exact ⟨_, if_neg hne⟩
  · intro snap hs
    rw [hsn, Network.snapshotOf] at hs
    split at hs
    · exact absurd hs (by simp)
    · rw [Option.some.injEq] at hs
      subst hs
      exact ⟨by simp only [hlen]; omega, hbt.symm⟩
  · rw [List.pairwise_iff_getElem]
    intro i j hi hj hij
    exact h.1.sorted (h.1.log_wf n) (hget (List.getElem?_eq_getElem hi)) (hget (List.getElem?_eq_getElem hj)) (by omega)
  · rcases hbase with ⟨-, h0⟩ | ⟨e, he, h1, -⟩
    · have := h.1.term_nonneg n
      rw [h0, h.2.term]
      exact this
    · rw [h1]
      exact hterms e (List.mem_of_getElem? he)
  · intro e he
    obtain ⟨i, hi⟩ := List.mem_iff_getElem?.1 he
    rcases hbase with ⟨-, h0⟩ | ⟨x, hx, h1, -⟩
    · rw [h0]
      exact hnonneg e (List.mem_of_getElem? (hget hi))
    · rw [h1]
      exact h.1.sorted (h.1.log_wf n) hx (hget hi) (by omega)

/-- In every reachable world every node is well formed, and no operation raises, whatever happens next. -/
theorem representation (r : Run net) (k : ℕ) :
    (∀ n, ((r.state k).nodes n).WellFormed) ∧ ∀ act, net.Admits act → ∃ w, (r.state k).step act = .ok w := by
  obtain ⟨s, hs⟩ := r.exists_shadow
  refine ⟨fun n => ((hs.sim k).fits n).wellFormed, fun act hact => ?_⟩
  obtain ⟨w, -, hw, -⟩ := (hs.sim k).step hact
  exact ⟨w, hw⟩

end DeterministicRaft
