import DeterministicRaft.Operations.Commit

/-!
# Elections, as steps of the protocol

The timers, candidacy and victory.
-/

namespace DeterministicRaft

open Consensus Refinement

variable {net : Network} {a a' : State NodeId Entry} {tr : Trace} {n : NodeId} {self : RaftNode} {A : Set Entry}

/-- `_become_leader` of a candidate with the ballots of a quorum. -/
theorem Fits.becomeLeader (h : Fits net tr n a self) (hr : self.role = .candidate)
    (hq : Majority (net.scheme.cfg (a.log n)) {v | ∃ V, a.ballot (a.term n) v = some (n, V)}) :
    Runs net A tr n a self.becomeLeader fun _ after => after.role = .leader ∧ after.term = self.term := by
  have habs : a.role n = .candidate := by
    rw [← h.2.role, hr]
    rfl
  have hnl : ¬a.Led (a.term n) := h.1.not_led_of_quorum habs hq
  have hm := actsAt.win (S := net.scheme) (A := A) habs hq
  have x := actsAt.extends_of h.1 hm
  have hlast := h.lastLogIndex
  have hlead : (a.win n).leader self.term = some n := by
    rw [h.2.term]
    simp [State.win]
  have hleads : Leads net (a.win n) n (Dict.fromKeys self.peers (self.lastLogIndex + 1))
      ((Dict.fromKeys self.peers 0).insert self.id self.lastLogIndex) false := by
    refine ⟨?_, ?_, ?_, ?_, ?_⟩
    · intro p hp hpn
      exact ⟨_, by rw [Dict.lookup_fromKeys, if_pos ((h.2.peers p).2 ⟨hp, hpn⟩)]⟩
    · intro p y hy
      rw [Dict.lookup_fromKeys] at hy
      split at hy
      · simp only [Option.some.injEq] at hy
        simp only [State.win]
        omega
      · exact absurd hy (by simp)
    · intro v y hy hpos
      by_cases hv : v = self.id
      · subst hv
        rw [Finmap.lookup_insert, Option.some.injEq] at hy
        refine ⟨(a.log n).length, by omega, ?_⟩
        simp [State.win, h.2.id]
      · rw [Finmap.lookup_insert_of_ne _ hv, Dict.lookup_fromKeys] at hy
        split at hy
        · simp only [Option.some.injEq] at hy
          omega
        · exact absurd hy (by simp)
    · intro hc
      exact absurd hc (by simp)
    · intro c Y hc
      exact absurd (h.1.committed_led hc).1 hnl
  have h1 : Fits net tr n (a.win n) { self with
      role := .leader
      leaderId := some self.id
      nextIndex := Dict.fromKeys self.peers (self.lastLogIndex + 1)
      matchIndex := (Dict.fromKeys self.peers 0).insert self.id self.lastLogIndex
      committedThisTerm := false } :=
    ⟨actsAt.inv h.1 hm, { h.2 with
      role := by simp [State.win, Role.abs]
      votes := fun hr' => absurd hr' (by simp)
      leads := fun _ => hleads
      traced := h.2.traced.grow x }⟩
  have h2 := h1.record (e := .role .leader self.term) fun _ => hlead
  have h3 : Fits net tr n (a.win n) (RaftNode.rebuildClientIndex { (RaftNode.record { self with
      role := .leader, leaderId := some self.id } (.role .leader self.term)) with
        nextIndex := Dict.fromKeys self.peers (self.lastLogIndex + 1)
        matchIndex := (Dict.fromKeys self.peers 0).insert self.id self.lastLogIndex
        committedThisTerm := false }) := ⟨h2.1, { h2.2 with }⟩
  obtain ⟨mid, h4, h5, out, h6⟩ := h3.broadcastHeartbeats rfl
  have h7 : self.becomeLeader = .ok mid.armHeartbeatTimer := by
    simp only [RaftNode.becomeLeader]
    exact congrArg (fun y : Except PyError RaftNode => y >>= fun z => .ok z.armHeartbeatTimer) h4
  rw [h7]
  refine Ends.move hm ⟨h5.armHeartbeatTimer, ?_, ?_⟩
  · rw [h6]
    rfl
  · rw [h6]
    rfl

/-- `_maybe_win`. -/
theorem Fits.maybeWin (h : Fits net tr n a self) : Runs net A tr n a self.maybeWin fun _ _ => True := by
  simp only [RaftNode.maybeWin]
  split
  · rename_i hw
    refine (h.becomeLeader hw.1 ?_).mono fun _ _ _ h => ⟨h.1, trivial⟩
    rw [← h.voters]
    exact (majority_of_card hw.2).mono fun v hv => h.2.votes hw.1 v hv
  · exact Ends.pure ⟨h, trivial⟩

/-- `start_election`. -/
theorem Fits.startElection (h : Fits net tr n a self) : Handles net A tr n a self.startElection := by
  simp only [RaftNode.startElection]
  split
  · exact Handles.of_acts (Ends.pure h.armElectionTimer)
  · have hterm := h.2.term
    have hm := yieldsAt.campaign (S := net.scheme) (s := a) (n := n) (u := self.term + 1) (by omega)
    have x := yieldsAt.extends_of h.1 hm
    have h1 : Fits net tr n (a.campaign n (self.term + 1)) { self with
        term := self.term + 1, role := .candidate, votedFor := some self.id, leaderId := none, votes := {self.id} } :=
      ⟨yieldsAt.inv h.1 hm, { h.2 with
        term := by simp [State.campaign]
        votedFor := by simp [State.campaign, h.2.id]
        role := by simp [State.campaign, Role.abs]
        votes := fun _ v hv => by
          have hvn : v = n := by simpa [h.2.id] using hv
          subst hvn
          exact ⟨a.log v, by simp [State.campaign]⟩
        leads := fun hr => absurd hr (by simp)
        traced := h.2.traced.grow x }⟩
    have h2 := ((h1.record (e := .election (self.term + 1)) fun _ => trivial).record
      (e := .role .candidate (self.term + 1)) fun _ => trivial).armElectionTimer
    have hid : (RaftNode.armElectionTimer (RaftNode.record (RaftNode.record { self with
        term := self.term + 1, role := .candidate, votedFor := some self.id, leaderId := none, votes := {self.id} }
        (.election (self.term + 1))) (.role .candidate (self.term + 1)))).id = n := h.2.id
    have htm : (RaftNode.armElectionTimer (RaftNode.record (RaftNode.record { self with
        term := self.term + 1, role := .candidate, votedFor := some self.id, leaderId := none, votes := {self.id} }
        (.election (self.term + 1))) (.role .candidate (self.term + 1)))).term = self.term + 1 := rfl
    generalize RaftNode.armElectionTimer (RaftNode.record (RaftNode.record { self with
        term := self.term + 1, role := .candidate, votedFor := some self.id, leaderId := none, votes := {self.id} }
        (.election (self.term + 1))) (.role .candidate (self.term + 1))) = mid at h2 hid htm
    have hst : (a.campaign n (self.term + 1)).stood mid.term n = some ((a.campaign n (self.term + 1)).log n) := by
      rw [htm]
      simp [State.campaign]
    have hlast := h2.lastLogIndex
    have htat := h2.2.stored.termAt (by have := h2.2.base_le; have := h2.commit_le; omega) le_rfl
    rw [← hlast, List.take_length] at htat
    simp only [htat, bind, Except.bind]
    refine ⟨_, hm, (Fits.maybeWin ?_).mono fun _ _ _ hQ => hQ.1⟩
    have hreq : ∀ (ps : List NodeId) (node : RaftNode), Fits net tr n (a.campaign n (self.term + 1)) node →
        Fits net tr n (a.campaign n (self.term + 1)) (ps.foldl (fun node p => node.send p (.requestVote {
          term := mid.term, candidate := mid.id, lastLogIndex := mid.lastLogIndex,
          lastLogTerm := net.scheme.lastTerm ((a.campaign n (self.term + 1)).log n) })) node) := by
      intro ps
      induction ps with
      | nil => exact fun _ hn => hn
      | cons p ps ih => exact fun node hn => ih _ (hn.send ⟨hid, _, hst, hlast, rfl⟩)
    exact hreq _ _ h2

/-- `on_election_timeout`. -/
theorem Fits.onElectionTimeout (h : Fits net tr n a self) (seq : Int) :
    Handles net A tr n a (self.onElectionTimeout seq) := by
  unfold RaftNode.onElectionTimeout
  split
  · exact Handles.of_acts (Ends.pure h)
  · exact (h.record (e := .timer self.term) fun _ => trivial).startElection

/-- `on_heartbeat`. -/
theorem Fits.onHeartbeat (h : Fits net tr n a self) (seq : Int) :
    Runs net A tr n a (self.onHeartbeat seq) fun _ _ => True := by
  unfold RaftNode.onHeartbeat
  split
  · exact Ends.pure ⟨h, trivial⟩
  · rename_i hc
    have hr : self.role = .leader := by
      by_contra hne
      exact hc (Or.inr (Or.inr hne))
    obtain ⟨mid, h1, h2, -⟩ := h.broadcastHeartbeats hr
    rw [h1]
    exact Ends.pure ⟨h2.armHeartbeatTimer, trivial⟩

end DeterministicRaft
