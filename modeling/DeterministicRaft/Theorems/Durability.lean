import DeterministicRaft.Consensus.Durability
import DeterministicRaft.Theorems.FalseAlarms
import DeterministicRaft.Theorems.Membership
import DeterministicRaft.Theorems.Safety

/-!
# What a cluster has committed lasts

An entry that some node has counted as committed is on that node for good. A leader has counted it as committed by then, and a majority
of the leader's voters have it from that moment on: in their logs or folded into their snapshots, through every crash, every truncation
and every snapshot that a leader installs.
-/

namespace DeterministicRaft

open Consensus

variable {net : Network} {r : Run net} {s : ℕ → State NodeId Entry}

/-- The entries that a node counts as committed, those it has compacted included. -/
def World.committed (w : World) (n : NodeId) : List Entry := (w.logicalLog n).take (w.nodes n).commitIndex.toNat

namespace Simulates

variable {a : State NodeId Entry} {w : World}

theorem committed_eq (h : Simulates net a w) (n : NodeId) : w.committed n = (a.log n).take (a.commit n) := by
  rw [World.committed, h.logicalLog_eq, (h.node n).commitIndex, Int.toNat_natCast]

end Simulates

/-- Between two moments of a run the protocol takes steps. -/
theorem Run.Shadow.steps_of_le (hs : r.Shadow s) {k l : ℕ} (hkl : k ≤ l) : Steps net.scheme (s k) (s l) := by
  induction hkl with
  | refl => exact Steps.refl _
  | step _ ih => exact ih.trans (hs.steps _)

/-- The highest commit of a run so far was a leader's, and a majority of its voters had acknowledged it. -/
theorem Run.Shadow.peak (hs : r.Shadow s) (k : ℕ) : ∃ C, (r.state k).Capped C ∧
    (C = 0 ∨ ∃ j ≤ k, ∃ leader, ((r.state j).nodes leader).commitIndex = C ∧ ((r.state j).nodes leader).Confirmed) := by
  induction k with
  | zero =>
    rw [r.start]
    exact ⟨0, Watched.capped_init net, Or.inl rfl⟩
  | succ k ih =>
    obtain ⟨C, hcapped, hreached⟩ := ih
    rcases hcapped.step (hs.sim k).out (r.next k) with hsame | ⟨leader, hcapped', hconfirmed⟩
    · refine ⟨C, hsame, hreached.imp_right ?_⟩
      rintro ⟨j, hj, leader, hC, hconfirmed⟩
      exact ⟨j, Nat.le_succ_of_le hj, leader, hC, hconfirmed⟩
    · exact ⟨_, hcapped', Or.inr ⟨k + 1, le_rfl, leader, rfl, hconfirmed⟩⟩

/-- Of what two nodes have committed, at any two moments, the one begins with the other. -/
theorem Run.Shadow.committed_prefix (hs : r.Shadow s) {j k : ℕ} {m n : NodeId}
    (hle : ((r.state k).nodes n).commitIndex ≤ ((r.state j).nodes m).commitIndex) :
    (r.state k).committed n <+: (r.state j).committed m := by
  have hk := (hs.extends_of_le (Nat.le_max_left k j)).known ((hs.sim k).inv.commit_known n)
  have hj := (hs.extends_of_le (Nat.le_max_right k j)).known ((hs.sim j).inv.commit_known m)
  have hlen := (hs.sim j).inv.commit_le m
  rw [(hs.sim k).committed_eq, (hs.sim j).committed_eq]
  rw [((hs.sim k).node n).commitIndex, ((hs.sim j).node m).commitIndex] at hle
  rcases (hs.sim (max k j)).inv.known_total hk hj with hp | hp
  · exact hp
  · have hlength : (((s k).log n).take ((s k).commit n)).length ≤ (((s j).log m).take ((s j).commit m)).length := by
      rw [List.length_take, List.length_take]
      omega
    rw [hp.eq_of_length_le hlength]

/-- What a node has committed at some moment of a run it has at every later one, as the first entries of its log, compacted or not.
And unless that is nothing, a leader has committed it at that moment or before, and a majority of the voters that the leader had then
have it from then on. -/
theorem durability (r : Run net) (k : ℕ) (n : NodeId) :
    (∀ l, k ≤ l → (r.state k).committed n <+: (r.state l).logicalLog n) ∧
    ((r.state k).committed n ≠ [] → ∃ j ≤ k, ∃ leader, ((r.state j).nodes leader).role = .leader ∧
      (r.state k).committed n <+: (r.state j).committed leader ∧
      Majority ((r.state j).nodes leader).voters {v | ∀ l, j ≤ l → (r.state k).committed n <+: (r.state l).logicalLog v}) := by
  obtain ⟨s, hs⟩ := r.exists_shadow
  refine ⟨fun l hkl => ?_, fun hne => ?_⟩
  · rw [(hs.sim k).committed_eq, (hs.sim l).logicalLog_eq]
    exact ((hs.steps_of_le hkl).secures (hs.sim k).inv ((hs.sim k).inv.secures n)).1
  · obtain ⟨C, hcapped, hreached⟩ := hs.peak k
    have hle := (hcapped.within n).commit
    rcases hreached with rfl | ⟨j, hj, leader, rfl, hconfirmed⟩
    · rw [World.committed, Int.toNat_of_nonpos hle] at hne
      exact absurd rfl hne
    · have hp := hs.committed_prefix hle
      refine ⟨j, hj, leader, hconfirmed.1, hp, ?_⟩
      rw [(hs.sim j).committed_eq] at hp
      rw [((hs.sim j).fits leader).voters]
      refine Majority.mono (((hs.sim j).fits leader).majority_on hconfirmed) fun v hv l hjl => ?_
      rw [(hs.sim l).logicalLog_eq]
      exact hp.trans (hv (s l) (hs.extends_of_le hjl) (hs.sim l).inv)

/-- A node has as many committed entries as it counts. -/
theorem Run.length_committed (r : Run net) (k : ℕ) (n : NodeId) :
    ((r.state k).committed n).length = ((r.state k).nodes n).commitIndex.toNat := by
  obtain ⟨s, hs⟩ := r.exists_shadow
  rw [(hs.sim k).committed_eq, List.length_take, ((hs.sim k).node n).commitIndex, Int.toNat_natCast]
  exact min_eq_left ((hs.sim k).inv.commit_le n)

/-- Server 0 has committed a command and the entry that adds server 2, and a majority has them for good. -/
theorem durability_growing : ((growingRun.state 9).committed 0).length = 2 ∧
    (∀ l, 9 ≤ l → (growingRun.state 9).committed 0 <+: (growingRun.state l).logicalLog 0) ∧
    ∃ j ≤ 9, ∃ leader, ((growingRun.state j).nodes leader).role = .leader ∧
      (growingRun.state 9).committed 0 <+: (growingRun.state j).committed leader ∧
      Majority ((growingRun.state j).nodes leader).voters
        {v | ∀ l, j ≤ l → (growingRun.state 9).committed 0 <+: (growingRun.state l).logicalLog v} := by
  have hcommit : ((growingRun.state 9).nodes 0).commitIndex = 2 := of_decide_eq_true
    (holds_of_exec admits_growingActions 9 (fun w => decide ((w.nodes 0).commitIndex = 2)) (by decide +kernel))
  have hlength : ((growingRun.state 9).committed 0).length = 2 := by
    rw [Run.length_committed, hcommit]
    rfl
  obtain ⟨hkept, hmajority⟩ := durability growingRun 9 0
  exact ⟨hlength, hkept, hmajority (List.ne_nil_of_length_pos (by omega))⟩

end DeterministicRaft
