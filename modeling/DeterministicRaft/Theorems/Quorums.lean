import DeterministicRaft.Adoption
import DeterministicRaft.Ceilings
import DeterministicRaft.Votes

/-!
# Quorums of adjacent configurations

What `change_config` accepts differs by one server from the configuration it replaces, so that a majority of the one meets every majority
of the other. The argument needs configurations without duplicates: those that leaders propose have none, wherever they are adopted.
-/

namespace DeterministicRaft

open Consensus RaftNode Refinement

variable {self after : RaftNode} {I : Inputs}

/-! ## The majority tests -/

/-- The servers pass the test for a majority of the voters: votes and confirmations are counted where they come from a voter, replicas
are counted voter by voter. -/
inductive PassesTest (voters : List NodeId) : Set NodeId → Prop
  | tally (servers : Finset NodeId) (h : voters.length < (servers.filter (· ∈ voters)).card * 2) : PassesTest voters {v | v ∈ servers}
  | replicas (holds : NodeId → Bool) (h : voters.length < voters.countP holds * 2) : PassesTest voters {v | holds v = true}

theorem PassesTest.majority {voters : List NodeId} {Q : Set NodeId} (h : PassesTest voters Q) : Majority voters Q := by
  cases h with
  | tally servers h => exact majority_of_card h
  | replicas holds h => exact majority_of_countP holds (fun _ hv => hv) (by omega)

/-- A candidate wins with votes that pass the test. -/
theorem maybeWin_passes (h : self.maybeWin = .ok after) (hne : after ≠ self) : PassesTest self.voters {v | v ∈ self.votes} := by
  unfold RaftNode.maybeWin at h
  simp only at h
  split at h
  · rename_i hwin
    exact .tally self.votes hwin.2
  · cases h
    exact absurd rfl hne

/-- A read is served with confirmations that pass the test. -/
theorem tryServeRead_passes {readId : Int} (hne : self.tryServeRead readId ≠ self) :
    ∃ pending, self.pendingReads.lookup readId = some pending ∧ PassesTest self.voters {v | v ∈ pending.acks} := by
  unfold RaftNode.tryServeRead at hne
  split at hne
  · exact absurd rfl hne
  · rename_i pending hpending
    simp only at hne
    split at hne
    · rename_i hserve
      exact ⟨pending, hpending, .tally pending.acks hserve.1⟩
    · exact absurd rfl hne

/-- A leader that commits does so up to an index above, at which the replicas pass the test. -/
theorem advanceLoop_passes (k : ℕ) {n : Int} (hn : n = self.commitIndex + k) (h : self.advanceLoop n k = .ok after) (hne : after ≠ self) :
    self.commitIndex < after.commitIndex ∧
      PassesTest self.voters {v | decide (after.commitIndex ≤ self.matchIndex.getD v 0) = true} := by
  induction k generalizing n with
  | zero =>
    cases h
    exact absurd rfl hne
  | succ k ih =>
    unfold RaftNode.advanceLoop at h
    obtain ⟨term, -, h⟩ := bind_eq_ok.1 h
    split at h
    · cases h
      exact absurd rfl hne
    · simp only at h
      split at h
      · rename_i hmajority
        obtain ⟨mid, hset, h⟩ := bind_eq_ok.1 h
        cases h
        have hcommit : mid.commitIndex = n := by
          rw [(setCommitIndex_max self n mid hset).2]
          omega
        refine ⟨?_, .replicas (fun v => mid.commitIndex ≤ self.matchIndex.getD v 0) (hcommit.symm ▸ hmajority)⟩
        show self.commitIndex < mid.commitIndex
        omega
      · exact ih (by omega) h

/-- The commit rule does nothing, or what it has committed then passes the test. -/
theorem advanceCommit_passes (h : self.advanceCommit = .ok after) (hne : after ≠ self) :
    self.commitIndex < after.commitIndex ∧
      PassesTest self.voters {v | decide (after.commitIndex ≤ self.matchIndex.getD v 0) = true} := by
  rw [RaftNode.advanceCommit] at h
  by_cases hlast : self.lastLogIndex ≤ self.commitIndex
  · rw [Int.toNat_of_nonpos (by omega)] at h
    cases h
    exact absurd rfl hne
  · exact advanceLoop_passes _ (by omega) h hne

/-! ## What is proposed -/

/-- What `change_config` accepts: it is adopted, it differs by one server, and it is a sorted set with the leader in it. -/
theorem changeConfig_accepted {newVoters : List NodeId} (h : self.changeConfig newVoters = .ok (after, true)) :
    after.voters = sortedSet newVoters ∧ (symmDiff after.voters.toFinset self.voters.toFinset).card = 1 ∧ self.id ∈ after.voters ∧
      self.role = .leader := by
  rcases Makes.changeConfig_cases h with ⟨hf, -⟩ | ⟨-, hr, -, hd, hs, -, es, rfl, -⟩
  · cases hf
  · exact ⟨rfl, hd, hs, hr⟩

/-- Every node keeps its place. -/
theorem World.step_ids {w after : World} {act : Action} (h : w.step act = .ok after) (hw : ∀ n, (w.nodes n).id = n) (n : NodeId) :
    (after.nodes n).id = n := by
  rcases World.step_cases h with rfl | ⟨m, op, self, -, hp, rfl⟩
  · exact hw n
  · have hid := (perform_makes (I := .any) ⟨trivial, trivial, trivial⟩ _ op (op.admissible_any _) self hp).fixed.1
    by_cases hn : n = m
    · subst hn
      simp only [Function.update_self]
      exact hid.trans (hw n)
    · simp only [Function.update_of_ne hn]
      exact hw n

/-! ## Runs -/

/-- In a run of these actions, the leader's proposal was accepted, and these are the voters that it adopted. -/
def Proposed (start : World) (acts : List Action) (leader : NodeId) (voters : List NodeId) : Prop :=
  ∃ before newVoters rest w after, acts = before ++ Action.changeConfig leader newVoters :: rest ∧ start.exec before = .ok w ∧
    (w.nodes leader).changeConfig newVoters = .ok (after, true) ∧ after.voters = voters

/-- Where voters come from: they are the first ones, or a client has submitted a string that names them, or a leader has proposed
them. -/
inductive Origin (start : World) (initial : List NodeId) (acts : List Action) : List NodeId → Prop
  | first : Origin start initial acts initial
  | submitted {voters : List NodeId} (n : NodeId) (command : String) (h : Action.clientCommand n command ∈ acts)
      (hd : decodeConfig command = some voters) : Origin start initial acts voters
  | proposed {voters : List NodeId} (leader : NodeId) (h : Proposed start acts leader voters) : Origin start initial acts voters

section Runs

variable (ids initialVoters : List NodeId) (peers : NodeId → List NodeId) (config : NodeId → RaftConfig) (bugs : NodeId → Bugs)
  {acts : List Action}

/-- All that is adopted in the course of a run comes from somewhere in it. -/
theorem origins (before rest : List Action) (hacts : acts = before ++ rest) {w : World}
    (h : (World.launch ids initialVoters peers config bugs).exec before = .ok w) :
    w.Adopts (Origin (World.launch ids initialVoters peers config bugs) (initialVoters.insertionSort (· ≤ ·)) acts) ∧
      ∀ n, (w.nodes n).id = n := by
  induction before using List.reverseRecOn generalizing rest w with
  | nil =>
    cases h
    exact ⟨World.Adopts.launch ids initialVoters peers config bugs .first, fun n => rfl⟩
  | append_singleton before act ih =>
    rw [World.exec, List.foldlM_append] at h
    obtain ⟨mid, hmid, h⟩ := bind_eq_ok.1 h
    obtain ⟨after, hstep, h⟩ := bind_eq_ok.1 h
    cases h
    have hsplit : acts = before ++ act :: rest := by rw [hacts, List.append_assoc, List.singleton_append]
    obtain ⟨hadopts, hids⟩ := ih (act :: rest) hsplit hmid
    refine ⟨World.Adopts.step mid act w ?_ hstep hadopts, World.step_ids hstep hids⟩
    cases act with
    | clientCommand n command =>
      intro _ _ voters hd
      exact .submitted n command (by rw [hsplit]; simp) hd
    | changeConfig leader newVoters =>
      intro node hnode
      rw [← (changeConfig_accepted hnode).1]
      exact .proposed leader ⟨before, newVoters, rest, mid, node, hsplit, hmid, hnode, rfl⟩
    | _ => trivial

/-- What a leader proposes is a sorted set with itself in it. -/
theorem proposed_sorted {leader : NodeId} {voters : List NodeId}
    (h : Proposed (World.launch ids initialVoters peers config bugs) acts leader voters) :
    voters.Nodup ∧ voters.Pairwise (· ≤ ·) ∧ leader ∈ voters := by
  obtain ⟨before, newVoters, rest, w, after, hacts, hw, hnode, rfl⟩ := h
  obtain ⟨hvoters, -, hid, -⟩ := changeConfig_accepted hnode
  rw [(origins ids initialVoters peers config bugs before _ hacts hw).2 leader] at hid
  refine ⟨?_, ?_, hid⟩
  · rw [hvoters]
    exact nodup_sortedSet newVoters
  · rw [hvoters]
    exact List.pairwise_insertionSort _ _

end Runs

/-- Quorums of adjacent configurations intersect. Where `change_config` replaces voters without duplicates, any servers that pass one of
the majority tests on the voters before and any that pass one on those after have a server in common that is a voter both before and
after; and these are the tests with which elections are won, reads are served and a new commit index is reached. In every run, whatever
voters a node adopts or its log names are the first ones, or named by a string that a client submitted, or proposed by a leader through
`change_config`, and those that were proposed are sorted, without duplicates, and contain the leader. -/
theorem adjacent_quorums_intersect :
    (∀ (node after : RaftNode) (newVoters : List NodeId), node.voters.Nodup → node.changeConfig newVoters = .ok (after, true) →
      ∀ Q Q', PassesTest node.voters Q → PassesTest after.voters Q' → ∃ v ∈ Q, v ∈ Q' ∧ v ∈ node.voters ∧ v ∈ after.voters) ∧
    (∀ node after : RaftNode,
      (node.maybeWin = .ok after → after ≠ node → PassesTest node.voters {v | v ∈ node.votes}) ∧
      (∀ readId, node.tryServeRead readId ≠ node →
        ∃ pending, node.pendingReads.lookup readId = some pending ∧ PassesTest node.voters {v | v ∈ pending.acks}) ∧
      (node.advanceCommit = .ok after → after ≠ node → node.commitIndex < after.commitIndex ∧
        PassesTest node.voters {v | decide (after.commitIndex ≤ node.matchIndex.getD v 0) = true})) ∧
    ∀ (ids initialVoters : List NodeId) (peers : NodeId → List NodeId) (config : NodeId → RaftConfig) (bugs : NodeId → Bugs)
      (acts : List Action) (w : World), (World.launch ids initialVoters peers config bugs).exec acts = .ok w →
      (∀ n, Origin (World.launch ids initialVoters peers config bugs) (initialVoters.insertionSort (· ≤ ·)) acts (w.nodes n).voters ∧
        ∀ e ∈ (w.nodes n).log, ∀ voters, decodeConfig e.command = some voters →
          Origin (World.launch ids initialVoters peers config bugs) (initialVoters.insertionSort (· ≤ ·)) acts voters) ∧
      ∀ leader voters, Proposed (World.launch ids initialVoters peers config bugs) acts leader voters →
        voters.Nodup ∧ voters.Pairwise (· ≤ ·) ∧ leader ∈ voters := by
  refine ⟨fun node after newVoters hnodup h Q Q' hQ hQ' => ?_, fun node after => ⟨maybeWin_passes, fun readId => tryServeRead_passes,
    advanceCommit_passes⟩, fun ids initialVoters peers config bugs acts w h => ⟨fun n => ?_, fun leader voters hp => ?_⟩⟩
  · obtain ⟨hvoters, hcard, -, -⟩ := changeConfig_accepted h
    have hnodup' : after.voters.Nodup := hvoters ▸ nodup_sortedSet newVoters
    obtain ⟨v, hv, hv'⟩ := Majority.overlap_adjacent hnodup hnodup' (by rwa [symmDiff_comm]) hQ.majority.inter hQ'.majority.inter
    exact ⟨v, hv.1, hv'.1, hv.2, hv'.2⟩
  · have hadopts := (origins ids initialVoters peers config bugs acts [] (List.append_nil acts).symm h).1
    exact ⟨(hadopts.nodes n).current, (hadopts.nodes n).log⟩
  · exact proposed_sorted ids initialVoters peers config bugs hp

end DeterministicRaft
