import DeterministicRaft.Operations.Commit

/-!
# The client interface and crashes, as steps of the protocol

Commands, configuration changes, reads, crash and restart.
-/

namespace DeterministicRaft

open Consensus Refinement

variable {net : Network} {a a' : State NodeId Entry} {tr : Trace} {n : NodeId} {self : RaftNode} {A : Set Entry}

/-! ## Appending -/

/-- A leader after it appended an entry of its term. -/
theorem Fits.appended (h : Fits net tr n a self) (hr : self.role = .leader) {e : Entry}
    (hm : (actsAt net.scheme n A).rel a (a.append n e)) :
    Fits net tr n (a.append n e) { (self.appendReplicated ((a.log n).length + 1) e) with
      matchIndex := self.matchIndex.insert self.id (self.appendReplicated ((a.log n).length + 1) e).lastLogIndex } := by
  have x := actsAt.extends_of h.1 hm
  have hlast := (h.2.stored.appendReplicated e).lastLogIndex
  rw [List.length_append, List.length_singleton] at hlast
  have hL := h.2.leads hr
  have hcl := h.commit_le
  have hlog : (a.append n e).log n = a.log n ++ [e] := by simp [State.append]
  have htake : (a.log n ++ [e]).take (a.commit n) = (a.log n).take (a.commit n) := List.take_append_of_le_length hcl
  have honly := OnlyLog.appendReplicated self ((a.log n).length + 1) e
  have hst := h.2.stored.appendReplicated e
  have hleads : Leads net (a.append n e) n self.nextIndex (self.matchIndex.insert self.id
      (self.appendReplicated ((a.log n).length + 1) e).lastLogIndex) self.committedThisTerm := by
    refine ⟨hL.next_some, ?_, ?_, ?_, hL.max⟩
    · intro p y hy
      obtain ⟨h1, h2⟩ := hL.next_range p y hy
      rw [hlog, List.length_append, List.length_singleton]
      omega
    · intro v y hy hpos
      by_cases hv : v = self.id
      · subst hv
        rw [Finmap.lookup_insert, Option.some.injEq] at hy
        refine ⟨(a.log n).length + 1, by omega, ?_⟩
        simp [State.append, h.2.id]
      · rw [Finmap.lookup_insert_of_ne _ hv] at hy
        obtain ⟨m, h1, h2⟩ := hL.matched v y hy hpos
        exact ⟨m, h1, x.acked h2⟩
    · intro hc
      obtain ⟨Y, h1, h2⟩ := hL.own hc
      exact ⟨Y, h1, hlog ▸ h2.trans (List.prefix_append _ _)⟩
  generalize (self.appendReplicated ((a.log n).length + 1) e).lastLogIndex = last at hleads
  generalize self.appendReplicated ((a.log n).length + 1) e = mid at honly hst
  rw [honly] at hst ⊢
  refine ⟨actsAt.inv h.1 hm, { h.2 with
    stored := ?_, applied := ?_, kv := ?_, recorded := ?_, leads := fun _ => hleads, traced := h.2.traced.grow x }⟩
  · rw [hlog]
    exact hst
  · show self.applied = _
    rw [hlog]
    exact h.2.applied.trans (by rw [← htake]; rfl)
  · show self.kv = _
    rw [hlog]
    exact h.2.kv.trans (by rw [← htake]; rfl)
  · rw [hlog]
    show Recorded _ (List.take (a.commit n) (a.log n ++ [e]))
    rw [htake]
    exact h.2.recorded

/-- The node appends a command that a client gives it: it leads, and the request is not in its log by its own record. -/
def RaftNode.Appends (self : RaftNode) (command : String) : Prop :=
  self.role = .leader ∧ self.alive = true ∧ ¬((Command.decode command).isStructured = true ∧
    (Command.decode command).reqId ≤ self.clientIndex.getD (Command.decode command).clientId (-1))

/-- `client_command`, with a string that is no configuration. -/
theorem Fits.clientCommand (h : Fits net tr n a self) {command : String} (hc : decodeConfig command = none)
    (hA : self.Appends command → { term := self.term, command } ∈ A) :
    Ends (actsAt net.scheme n A) a (self.clientCommand command) fun a' r => Fits net tr n a' r.1 := by
  simp only [RaftNode.clientCommand]
  split
  · exact Ends.pure h
  · rename_i hact
    have hr : self.role = .leader := by
      by_contra hne
      exact hact (Or.inl hne)
    split
    · exact Ends.pure (h.record (e := .dedup command) fun _ => trivial)
    · rename_i hnew
      have happ : self.Appends command := ⟨hr, by simpa using fun ha => hact (Or.inr ha), hnew⟩
      obtain ⟨index, hindex⟩ : ∃ index, (if (Command.decode command).isStructured = true then
          { self with clientIndex := self.clientIndex.insert (Command.decode command).clientId (Command.decode command).reqId }
          else self) = { self with clientIndex := index } := by
        split
        · exact ⟨_, rfl⟩
        · exact ⟨_, rfl⟩
      simp only [hindex]
      have h1 : Fits net tr n a { self with clientIndex := index } := ⟨h.1, { h.2 with }⟩
      have habs : a.role n = .leader := by
        rw [← h.2.role, hr]
        rfl
      have hm := actsAt.append (S := net.scheme) (A := A) (e := { term := self.term, command }) habs h.2.term hc (hA happ)
      have h2 := h1.appended hr hm
      simp only [RaftNode.appendReplicated, hc] at h2
      refine Ends.after hm (Ends.bind (Q := fun a' after => Fits net tr n a' after) ?_ fun _ _ _ h => Ends.pure h)
      exact Fits.broadcast_ends (Fits.record h2 (by exact fun _ => trivial)) hr

/-- `change_config`, for a proposal of servers. -/
theorem Fits.changeConfig (h : Fits net tr n a self) {newVoters : List NodeId} (ht : net.reconfigurable = true)
    (hv : newVoters ⊆ net.ids) (hA : { term := self.term, command := encodeConfig (sortedSet newVoters) } ∈ A) :
    Ends (actsAt net.scheme n A) a (self.changeConfig newVoters) fun a' r => Fits net tr n a' r.1 := by
  simp only [RaftNode.changeConfig]
  split
  · exact Ends.pure h
  rename_i hact
  split
  · exact Ends.pure h
  rename_i hdiff
  split
  · exact Ends.pure h
  rename_i hself
  split
  · exact Ends.pure h
  rename_i hpending
  split
  · exact Ends.pure h
  rename_i hguard
  have hr : self.role = .leader := by
    by_contra hne
    exact hact (Or.inl hne)
  have hown : self.committedThisTerm = true := by
    by_contra hne
    exact hguard ⟨by simpa using hne, by rw [h.2.bugs]; rfl⟩
  have habs : a.role n = .leader := by
    rw [← h.2.role, hr]
    rfl
  have hne : sortedSet newVoters ≠ [] := fun hnil => hself (by simp [hnil])
  have hdec : decodeConfig (encodeConfig (sortedSet newVoters)) = some (sortedSet newVoters) := by
    rw [decodeConfig_encodeConfig hne, insertionSort_sortedSet]
  obtain ⟨Y, hY, hYL⟩ := (h.2.leads hr).own hown
  have hadj : net.scheme.adjacent (net.scheme.cfg (a.log n)) (sortedSet newVoters) := by
    rw [← h.voters]
    refine ⟨⟨h.legal.1, nodup_sortedSet _, ?_⟩, ht, fun v hm => hv (mem_sortedSet.1 hm)⟩
    rw [symmDiff_comm]
    exact not_not.1 hdiff
  have hquiet : net.scheme.Quiet (a.log n) (a.commit n) (a.log n).length := by
    intro j e hj _ he
    by_contra hc
    have h1 : (j : Int) < self.configIndex := h.2.stored.configIndex j e he hc
    have h2 := h.2.commitIndex
    omega
  have hm := actsAt.reconfigure (S := net.scheme) (A := A) (e := { term := self.term, command := encodeConfig (sortedSet newVoters) })
    habs h.2.term hdec hadj hY hYL hquiet hA
  have h2 := h.appended hr hm
  have hlast : RaftNode.lastLogIndex { self with
      log := self.log ++ [{ term := self.term, command := encodeConfig (sortedSet newVoters) }]
      logVersion := self.logVersion + 1 } = (a.log n).length + 1 := by
    rw [← h.lastLogIndex]
    simp only [RaftNode.lastLogIndex, List.length_append, List.length_singleton]
    omega
  simp only [RaftNode.appendReplicated, hdec, ← hlast] at h2
  refine Ends.after hm (Ends.bind (Q := fun a' after => Fits net tr n a' after) ?_ fun _ _ _ h => Ends.pure h)
  exact Fits.broadcast_ends (Fits.record h2 (by exact fun _ => trivial)) hr

/-! ## Reads -/

/-- `_try_serve_read`. -/
theorem Fits.tryServeRead (h : Fits net tr n a self) (readId : Int) : Fits net tr n a (self.tryServeRead readId) := by
  unfold RaftNode.tryServeRead
  split
  · exact h
  · rename_i pending _
    simp only
    split
    · have hread : net.readIndex = true := by
        rcases h.2.reads with hr | h0
        · exact hr
        · rename_i hp _
          rw [h0] at hp
          cases hp
      have h1 : Fits net tr n a { self with pendingReads := self.pendingReads.erase readId } :=
        ⟨h.1, { h.2 with reads := Or.inl hread }⟩
      refine (h1.record (e := .readserved readId pending.command) fun _ => trivial).emit (Or.inr ?_)
      refine ⟨hread, a.term n, (a.log n).take (a.commit n), h.1.commit_known n, ?_, ?_⟩
      · refine h.2.recorded.mono ?_
        simp [RaftNode.record, RaftNode.emit, calls]
      · rw [← h.2.kv]
    · exact h

/-- `request_read`, where reads are served by ReadIndex. -/
theorem Fits.requestRead (h : Fits net tr n a self) (hread : net.readIndex = true) (command : String) : Fits net tr n a (self.requestRead command).1 := by
  simp only [RaftNode.requestRead]
  split
  · exact h
  · refine Fits.tryServeRead ?_ _
    have h1 : Fits net tr n a { self with
        nextReadId := self.nextReadId + 1
        pendingReads := self.pendingReads.insert self.nextReadId ⟨command, self.commitIndex, {self.id}⟩ } :=
      ⟨h.1, { h.2 with reads := Or.inl hread }⟩
    have h2 := h1.record (e := .read self.nextReadId self.commitIndex) fun _ => trivial
    have hreq : ∀ (ps : List NodeId) (node : RaftNode) (i : Int), Fits net tr n a node → Fits net tr n a (ps.foldl
        (fun node p => node.send p (.readHeartbeat { term := node.term, leader := node.id, readId := i })) node) := by
      intro ps
      induction ps with
      | nil => exact fun _ _ hn => hn
      | cons p ps ih => exact fun node i hn => ih _ i (hn.send hn.2.id)
    exact hreq _ _ _ h2

/-! ## Crash and restart -/

/-- The part of a crashed node that comes back from its snapshot. -/
def crashed (P : List Entry) (self : RaftNode) : RaftNode :=
  { self with
    alive := false, role := .follower, kv := replay P, commitIndex := P.length, lastApplied := P.length, applied := []
    leaderId := none, nextIndex := ∅, matchIndex := ∅, votes := ∅, clientIndex := ∅, pendingReads := ∅
    committedThisTerm := false }

/-- `pause` brings back what the snapshot holds. -/
theorem pause_eq {P : List Entry} (h : self.snapshot = net.snapshotOf P) :
    self.pause = { (crashed P self).rebuildConfig with
      timerSeq := self.timerSeq + 1, incarnation := self.incarnation + 1 } := by
  by_cases hP : P = []
  · subst hP
    rw [Network.snapshotOf_nil] at h
    simp only [RaftNode.pause, RaftNode.resetVolatile, h]
    simp [crashed, RaftNode.rebuildConfig, RaftNode.adoptConfig, h]
  · rw [Network.snapshotOf, if_neg hP] at h
    simp only [RaftNode.pause, RaftNode.resetVolatile, h, KVStateMachine.restore]
    simp [crashed, RaftNode.rebuildConfig, RaftNode.adoptConfig, h]

/-- `pause`. -/
theorem Fits.pause (h : Fits net tr n a self) :
    ∃ a', (yieldsAt net.scheme n).rel a a' ∧ Fits net tr n a' self.pause := by
  obtain ⟨b, hb, hbn, hle⟩ := h.2.stored.exists_base
  have hst := h.2.stored
  have hbc : b ≤ a.commit n := by
    have := h.2.base_le
    omega
  have hlive : self.log = (a.log n).drop b := hbn ▸ hst.live
  have hbt : self.baseTerm = net.scheme.lastTerm ((a.log n).take b) := hbn ▸ hst.baseTerm
  have hsn : self.snapshot = net.snapshotOf ((a.log n).take b) := hbn ▸ hst.snapshot
  have hlen : ((a.log n).take b).length = b := List.length_take_of_le hle
  have hcut : (a.log n).take b <+: (a.log n).take (a.commit n) := List.take_prefix_take_left hbc
  have hm1 := yieldsAt.stepDown (S := net.scheme) (s := a) n
  have hm2 := yieldsAt.learn (S := net.scheme) (s := a.stepDown n) (f := n) (n := b) hle
    ((h.1.commit_known n).shorter hcut)
  have hm := (yieldsAt net.scheme n).trans hm1 hm2
  have x := yieldsAt.extends_of h.1 hm
  refine ⟨_, hm, yieldsAt.inv h.1 hm, ?_⟩
  rw [pause_eq hsn]
  have hrb : Stored net (a.log n) (crashed ((a.log n).take b) self).rebuildConfig.disk := by
    refine Stored.rebuildConfig hst.nonneg hst.le ?_ ?_ ?_ hst.initialVoters
    · show self.log = (a.log n).drop self.baseIndex.toNat
      rw [hbn, hlive]
    · show self.baseTerm = net.scheme.lastTerm ((a.log n).take self.baseIndex.toNat)
      rw [hbn, hbt]
    · show self.snapshot = net.snapshotOf ((a.log n).take self.baseIndex.toNat)
      rw [hbn, hsn]
  have hcommit : ((a.stepDown n).learn n b).commit n = b := by simp [State.learn]
  exact {
    id := h.2.id
    peers := h.2.peers
    bugs := h.2.bugs
    stored := hrb
    term := h.2.term
    votedFor := h.2.votedFor
    role := by simp [State.learn, State.stepDown, crashed, RaftNode.rebuildConfig, RaftNode.adoptConfig, Role.abs]
    base_le := by
      rw [hcommit]
      exact hb.le
    commitIndex := by
      rw [hcommit]
      exact congrArg Nat.cast hlen
    lastApplied := by
      rw [hcommit]
      exact congrArg Nat.cast hlen
    applied := by
      rw [hcommit]
      show [] = (((a.log n).take b).drop self.baseIndex.toNat).map (·.command)
      simp [hbn]
    kv := by
      rw [hcommit]
      rfl
    recorded := by
      rw [hcommit]
      exact h.2.recorded.shorter hcut
    votes := fun hr => absurd hr (by simp [crashed, RaftNode.rebuildConfig, RaftNode.adoptConfig])
    leads := fun hr => absurd hr (by simp [crashed, RaftNode.rebuildConfig, RaftNode.adoptConfig])
    reads := Or.inr rfl
    traced := h.2.traced.grow x }

/-- `resume`. -/
theorem Fits.resume (h : Fits net tr n a self) : Fits net tr n a self.resume :=
  (⟨h.1, { h.2 with }⟩ : Fits net tr n a { self with alive := true }).armElectionTimer

end DeterministicRaft
