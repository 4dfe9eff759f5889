import DeterministicRaft.Operations.Commit

/-!
# What the operations do to the reads

Reads are asked for by a client, pinged by the leader, confirmed by the followers, and served. Every other operation leaves them
alone, or drops all of them where the node may not lead any longer.
-/

namespace DeterministicRaft

open Refinement

/-- The call is part of a read. -/
def Effect.isRead : Effect → Bool
  | .send _ (.readHeartbeat _) => true
  | .send _ (.readAck _) => true
  | .record (.read _ _) => true
  | .record (.readserved _ _) => true
  | _ => false

/-- The operation leaves the node's reads alone, or drops them; where it keeps them, a leader leads on in its term. -/
structure LeavesReads (node after : RaftNode) : Prop where
  nextReadId : after.nextReadId = node.nextReadId
  pending : after.pendingReads = ∅ ∨
    (after.pendingReads = node.pendingReads ∧ (node.role = .leader → after.role = .leader ∧ after.term = node.term))
  calls : ∃ es, after.out = node.out ++ es ∧ ∀ e ∈ es, e.isRead = false

variable {self mid after : RaftNode}

namespace LeavesReads

/-- The operation changes other things only, and calls nothing. -/
theorem of_eq (h1 : after.nextReadId = self.nextReadId) (h2 : after.pendingReads = self.pendingReads)
    (h3 : self.role = .leader → after.role = .leader ∧ after.term = self.term) (h4 : after.out = self.out) :
    LeavesReads self after :=
  ⟨h1, Or.inr ⟨h2, h3⟩, [], by rw [h4, List.append_nil], by simp⟩

/-- A node that does nothing. -/
theorem refl (self : RaftNode) : LeavesReads self self := of_eq rfl rfl (fun h => ⟨h, rfl⟩) rfl

/-- One part of an operation after the other. -/
theorem trans (h : LeavesReads self mid) (h' : LeavesReads mid after) : LeavesReads self after := by
  obtain ⟨es, h1, h2⟩ := h.calls
  obtain ⟨es', h3, h4⟩ := h'.calls
  refine ⟨h'.nextReadId.trans h.nextReadId, ?_, es ++ es', by rw [h3, h1, List.append_assoc], ?_⟩
  · rcases h'.pending with h5 | ⟨h5, h6⟩
    · exact Or.inl h5
    · rcases h.pending with h7 | ⟨h7, h8⟩
      · exact Or.inl (h5.trans h7)
      · exact Or.inr ⟨h5.trans h7, fun hr => ⟨(h6 (h8 hr).1).1, (h6 (h8 hr).1).2.trans (h8 hr).2⟩⟩
  · intro e he
    rcases List.mem_append.1 he with he | he
    · exact h2 e he
    · exact h4 e he

/-- A call that is no read. -/
theorem emit (self : RaftNode) {e : Effect} (he : e.isRead = false) : LeavesReads self (self.emit e) :=
  ⟨rfl, Or.inr ⟨rfl, fun h => ⟨h, rfl⟩⟩, [e], rfl, by simpa using he⟩

/-- A call after an operation that leaves the reads alone. -/
theorem andEmit (h : LeavesReads self after) {e : Effect} (he : e.isRead = false) : LeavesReads self (after.emit e) :=
  h.trans (emit after he)

/-- A change of other things after an operation that leaves the reads alone. -/
theorem andThen {last : RaftNode} (h : LeavesReads self after) (h1 : last.nextReadId = after.nextReadId)
    (h2 : last.pendingReads = after.pendingReads) (h3 : after.role = .leader → last.role = .leader ∧ last.term = after.term)
    (h4 : last.out = after.out) : LeavesReads self last := h.trans (of_eq h1 h2 h3 h4)

/-- A change of the log. -/
theorem of_onlyLog (h : OnlyLog self after) : LeavesReads self after := by
  rw [h]
  exact of_eq rfl rfl (fun h => ⟨h, rfl⟩) rfl

/-- Applying entries. -/
theorem of_justApplies (h : JustApplies self after) : LeavesReads self after := by
  obtain ⟨honly, es, hout, hes⟩ := h
  refine ⟨by rw [honly], Or.inr ⟨by rw [honly], fun hr => ?_⟩, es, hout, fun e he => ?_⟩
  · rw [honly]
    exact ⟨hr, rfl⟩
  · have hs := hes e he
    unfold Effect.Applies at hs
    split at hs
    all_goals first | rfl | exact hs.elim

end LeavesReads

/-- Every result of the operation leaves the reads of `node` alone. -/
abbrev Bystands (node : RaftNode) (x : Except PyError RaftNode) : Prop := Ensures x (LeavesReads node)

/-- One part of a function after the other. -/
theorem Bystands.bind {x : Except PyError RaftNode} {f : RaftNode → Except PyError RaftNode} (h : Bystands self x)
    (hf : ∀ mid, Bystands mid (f mid)) : Bystands self (x >>= f) :=
  Ensures.bind h fun mid hm => (hf mid).mono fun _ ha => hm.trans ha

namespace LeavesReads

/-! ## Timers, lifecycle and roles -/

/-- An election timer. -/
theorem armElectionTimer (self : RaftNode) : LeavesReads self self.armElectionTimer :=
  (of_eq rfl rfl (fun h => ⟨h, rfl⟩) rfl : LeavesReads self { self with timerSeq := self.timerSeq + 1 }).andEmit rfl

/-- A heartbeat timer. -/
theorem armHeartbeatTimer (self : RaftNode) : LeavesReads self self.armHeartbeatTimer :=
  (of_eq rfl rfl (fun h => ⟨h, rfl⟩) rfl : LeavesReads self { self with timerSeq := self.timerSeq + 1 }).andEmit rfl

/-- Stepping down forgets the reads. -/
theorem becomeFollower (self : RaftNode) (term : Int) : LeavesReads self (self.becomeFollower term) := by
  rw [becomeFollower_eq]
  refine ⟨rfl, Or.inl rfl, steppedDown self term ++ [.schedule .election (self.timerSeq + 1)], by simp, ?_⟩
  intro e he
  rcases List.mem_append.1 he with he | he
  · unfold steppedDown at he
    split at he
    · rw [List.mem_singleton.1 he]
      rfl
    · simp at he
  · rw [List.mem_singleton.1 he]
    rfl

/-- A crash forgets the reads. -/
theorem pause (self : RaftNode) : LeavesReads self self.pause := by
  cases hs : self.snapshot with
  | none => exact ⟨by simp [RaftNode.pause, RaftNode.resetVolatile, RaftNode.rebuildConfig, RaftNode.adoptConfig, hs],
      Or.inl (by simp [RaftNode.pause, RaftNode.resetVolatile, RaftNode.rebuildConfig, RaftNode.adoptConfig, hs]), [],
      by simp [RaftNode.pause, RaftNode.resetVolatile, RaftNode.rebuildConfig, RaftNode.adoptConfig, hs], by simp⟩
  | some snap => exact ⟨by simp [RaftNode.pause, RaftNode.resetVolatile, RaftNode.rebuildConfig, RaftNode.adoptConfig, hs],
      Or.inl (by simp [RaftNode.pause, RaftNode.resetVolatile, RaftNode.rebuildConfig, RaftNode.adoptConfig, hs]), [],
      by simp [RaftNode.pause, RaftNode.resetVolatile, RaftNode.rebuildConfig, RaftNode.adoptConfig, hs], by simp⟩

/-- A restart. -/
theorem resume (self : RaftNode) : LeavesReads self self.resume :=
  (of_eq rfl rfl (fun h => ⟨h, rfl⟩) rfl : LeavesReads self { self with alive := true }).trans (armElectionTimer _)

/-! ## Replication -/

/-- A snapshot is sent. -/
theorem sendInstallSnapshot (self : RaftNode) (peer : NodeId) : LeavesReads self (self.sendInstallSnapshot peer) := by
  unfold RaftNode.sendInstallSnapshot
  split
  · exact refl self
  · exact emit self rfl

end LeavesReads

namespace Bystands

/-- A leader's message. -/
theorem sendAppendEntries (self : RaftNode) (peer : NodeId) : Bystands self (self.sendAppendEntries peer) := by
  unfold RaftNode.sendAppendEntries
  refine Ensures.bind (Ensures.trivial _) fun next _ => ?_
  simp only
  split
  · exact Ensures.pure (LeavesReads.sendInstallSnapshot self peer)
  · exact Ensures.bind (Ensures.trivial _) fun prevTerm _ => Ensures.pure (LeavesReads.emit self rfl)

/-- Heartbeats. -/
theorem broadcastHeartbeats (self : RaftNode) : Bystands self self.broadcastHeartbeats :=
  Ensures.foldlM (fun mid p hm => (sendAppendEntries mid p).mono fun _ ha => hm.trans ha) (LeavesReads.refl self)

/-! ## Commits and compaction -/

/-- The commit rule. -/
theorem advanceLoop (self : RaftNode) (n : Int) (k : Nat) : Bystands self (self.advanceLoop n k) := by
  induction k generalizing n with
  | zero => exact Ensures.pure (LeavesReads.refl self)
  | succ k ih =>
    unfold RaftNode.advanceLoop
    refine Ensures.bind (Ensures.trivial _) fun term _ => ?_
    split
    · exact Ensures.pure (LeavesReads.refl self)
    · simp only
      split
      · exact Bystands.bind ((JustApplies.setCommitIndex self n).mono fun _ => LeavesReads.of_justApplies) fun mid =>
          Ensures.pure (LeavesReads.of_eq rfl rfl (fun h => ⟨h, rfl⟩) rfl)
      · exact ih (n - 1)

/-! ## Elections -/

/-- A new leader has no reads yet. -/
theorem becomeLeader (self : RaftNode) : Bystands self self.becomeLeader := by
  unfold RaftNode.becomeLeader
  refine Bystands.bind ((broadcastHeartbeats _).mono fun after ha => LeavesReads.trans ?_ ha) fun mid =>
    Ensures.pure (LeavesReads.armHeartbeatTimer mid)
  have h1 : LeavesReads self ({ self with role := .leader, leaderId := some self.id }) :=
    LeavesReads.of_eq rfl rfl (fun _ => ⟨rfl, rfl⟩) rfl
  have h2 := h1.andEmit (e := .record (.role .leader self.term)) rfl
  exact h2.andThen rfl rfl (fun h => ⟨h, rfl⟩) rfl

/-- A candidate has no reads. -/
theorem maybeWin (self : RaftNode) : Bystands self self.maybeWin := by
  unfold RaftNode.maybeWin
  simp only
  split
  · exact becomeLeader self
  · exact Ensures.pure (LeavesReads.refl self)

/-- Who stands has no reads. -/
theorem startElection (self : RaftNode) (hr : self.role ≠ .leader) : Bystands self self.startElection := by
  unfold RaftNode.startElection
  split
  · exact Ensures.pure (LeavesReads.armElectionTimer self)
  · refine Ensures.bind (Ensures.trivial _) fun lastLogTerm _ => (maybeWin _).mono fun after ha => LeavesReads.trans ?_ ha
    have hsends : ∀ (ps : List NodeId) (mid : RaftNode) (req : RequestVote), LeavesReads self mid →
        LeavesReads self (ps.foldl (fun mid p => mid.send p (.requestVote req)) mid) := by
      intro ps
      induction ps with
      | nil => exact fun _ _ h => h
      | cons p ps ih => exact fun mid req h => ih _ req (h.andEmit rfl)
    refine hsends _ _ _ (LeavesReads.trans ?_ (LeavesReads.armElectionTimer _))
    refine LeavesReads.andEmit (LeavesReads.andEmit ?_ (by rfl)) (by rfl)
    exact LeavesReads.of_eq rfl rfl (fun h => absurd h hr) rfl

/-- An election timeout. -/
theorem onElectionTimeout (self : RaftNode) (seq : Int) : Bystands self (self.onElectionTimeout seq) := by
  unfold RaftNode.onElectionTimeout
  split
  · exact Ensures.pure (LeavesReads.refl self)
  · rename_i hg
    refine (startElection _ ?_).mono fun after ha => (LeavesReads.emit self rfl).trans ha
    exact fun hr => hg (Or.inr (Or.inr hr))

/-- A heartbeat timeout. -/
theorem onHeartbeat (self : RaftNode) (seq : Int) : Bystands self (self.onHeartbeat seq) := by
  unfold RaftNode.onHeartbeat
  split
  · exact Ensures.pure (LeavesReads.refl self)
  · exact Bystands.bind (broadcastHeartbeats self) fun mid => Ensures.pure (LeavesReads.armHeartbeatTimer mid)

/-! ## Clients and operators -/

/-- A command. -/
theorem clientCommand (self : RaftNode) (command : String) : Bystands self (Prod.fst <$> self.clientCommand command) := by
  refine Ensures.map ?_
  unfold RaftNode.clientCommand
  split
  · exact Ensures.pure (LeavesReads.refl self)
  · simp only
    split
    · exact Ensures.pure (LeavesReads.emit self rfl)
    · refine Ensures.bind (Q := LeavesReads self) ?_ fun mid h => Ensures.pure h
      refine (broadcastHeartbeats _).mono fun after ha => LeavesReads.trans ?_ ha
      refine LeavesReads.andEmit ?_ (by rfl)
      split <;> exact LeavesReads.of_eq rfl rfl (fun h => ⟨h, rfl⟩) rfl

/-- A proposed configuration. -/
theorem changeConfig (self : RaftNode) (newVoters : List NodeId) :
    Bystands self (Prod.fst <$> self.changeConfig newVoters) := by
  refine Ensures.map ?_
  unfold RaftNode.changeConfig
  simp only
  split
  · exact Ensures.pure (LeavesReads.refl self)
  split
  · exact Ensures.pure (LeavesReads.refl self)
  split
  · exact Ensures.pure (LeavesReads.refl self)
  split
  · exact Ensures.pure (LeavesReads.refl self)
  split
  · exact Ensures.pure (LeavesReads.refl self)
  · refine Ensures.bind (Q := LeavesReads self) ?_ fun mid h => Ensures.pure h
    refine (broadcastHeartbeats _).mono fun after ha => LeavesReads.trans ?_ ha
    refine LeavesReads.andEmit ?_ (by rfl)
    exact LeavesReads.of_eq rfl rfl (fun h => ⟨h, rfl⟩) rfl

/-! ## Messages -/

/-- A candidate is answered. -/
theorem onRequestVote (self : RaftNode) (msg : RequestVote) : Bystands self (self.onRequestVote msg) := by
  have hobs : LeavesReads self (if msg.term > self.term then self.becomeFollower msg.term else self) := by
    split
    · exact LeavesReads.becomeFollower self _
    · exact LeavesReads.refl self
  unfold RaftNode.onRequestVote
  simp only
  generalize (if msg.term > self.term then self.becomeFollower msg.term else self) = mid at hobs
  have hrefused := hobs.andEmit
    (e := .send msg.candidate (.voteReply { term := mid.term, voter := mid.id, granted := false })) rfl
  split
  · refine Ensures.bind (Ensures.trivial _) fun myLastTerm _ => ?_
    split
    · refine Ensures.pure (LeavesReads.andEmit (LeavesReads.trans ?_ (LeavesReads.armElectionTimer _)) (by rfl))
      refine LeavesReads.andEmit ?_ (by rfl)
      exact hobs.andThen rfl rfl (fun h => ⟨h, rfl⟩) rfl
    · exact Ensures.pure hrefused
  · exact Ensures.pure hrefused

/-- A vote is counted. -/
theorem onVoteReply (self : RaftNode) (msg : VoteReply) : Bystands self (self.onVoteReply msg) := by
  unfold RaftNode.onVoteReply
  split
  · exact Ensures.pure (LeavesReads.becomeFollower self _)
  · split
    · exact Ensures.pure (LeavesReads.refl self)
    · refine (maybeWin _).mono fun after ha => LeavesReads.trans ?_ ha
      exact LeavesReads.of_eq rfl rfl (fun h => ⟨h, rfl⟩) rfl

/-- A follower of the message's term, with its election timer armed anew. -/
theorem follow (self : RaftNode) (leader : NodeId) {mid : RaftNode} (h : LeavesReads self mid) :
    LeavesReads self ({ mid with leaderId := some leader }).armElectionTimer := by
  have hnamed : LeavesReads self { mid with leaderId := some leader } := h.andThen rfl rfl (fun h => ⟨h, rfl⟩) rfl
  exact hnamed.trans (LeavesReads.armElectionTimer _)

/-- A leader is answered. -/
theorem onAppendEntries (self : RaftNode) (msg : AppendEntries) : Bystands self (self.onAppendEntries msg) := by
  have hobs : LeavesReads self (if msg.term > self.term then self.becomeFollower msg.term else self) := by
    split
    · exact LeavesReads.becomeFollower self _
    · exact LeavesReads.refl self
  unfold RaftNode.onAppendEntries
  simp only
  generalize (if msg.term > self.term then self.becomeFollower msg.term else self) = mid at hobs
  split
  · exact Ensures.pure (hobs.andEmit rfl)
  · have hrole : LeavesReads self (if mid.role ≠ .follower then mid.becomeFollower msg.term else mid) := by
      split
      · exact hobs.trans (LeavesReads.becomeFollower mid _)
      · exact hobs
    have hfollow := follow self msg.leader hrole
    generalize ({ (if mid.role ≠ .follower then mid.becomeFollower msg.term else mid) with
      leaderId := some msg.leader } : RaftNode).armElectionTimer = node at hfollow
    refine Ensures.bind (Ensures.trivial _) fun rest _ => Ensures.bind (Ensures.trivial _) fun bad _ => ?_
    split
    · exact Ensures.pure (hfollow.andEmit rfl)
    · refine Ensures.bind (OnlyLog.mergeEntries node _ _) fun merged hm => ?_
      have hm := hfollow.trans (LeavesReads.of_onlyLog hm)
      have hreply : ∀ last : RaftNode, LeavesReads self last → Bystands self (.ok (last.send msg.leader
          (.appendReply { term := last.term, follower := last.id, success := true, matchIndex := rest.1 + rest.2.2.length }))) :=
        fun last hl => Ensures.pure (hl.andEmit (by rfl))
      split
      · exact Ensures.bind (Q := LeavesReads self) (Ensures.pure (hm.andThen rfl rfl (fun h => ⟨h, rfl⟩) rfl)) hreply
      · split
        · exact Ensures.bind ((JustApplies.setCommitIndex _ _).mono fun _ ha => hm.trans (.of_justApplies ha)) hreply
        · exact Ensures.bind (Ensures.pure hm) hreply

/-- An answer is taken in. -/
theorem onAppendReply (self : RaftNode) (msg : AppendReply) : Bystands self (self.onAppendReply msg) := by
  unfold RaftNode.onAppendReply
  split
  · exact Ensures.pure (LeavesReads.becomeFollower self _)
  · split
    · exact Ensures.pure (LeavesReads.refl self)
    · split
      · refine (advanceLoop _ _ _).mono fun after ha => LeavesReads.trans ?_ ha
        exact LeavesReads.of_eq rfl rfl (fun h => ⟨h, rfl⟩) rfl
      · refine (sendAppendEntries _ _).mono fun after ha => LeavesReads.trans ?_ ha
        exact LeavesReads.of_eq rfl rfl (fun h => ⟨h, rfl⟩) rfl

/-- A snapshot is installed. -/
theorem onInstallSnapshot (self : RaftNode) (msg : InstallSnapshot) : Bystands self (self.onInstallSnapshot msg) := by
  unfold RaftNode.onInstallSnapshot
  split
  · exact Ensures.pure (LeavesReads.emit self rfl)
  · have hrole : LeavesReads self (if msg.term > self.term ∨ self.role ≠ .follower then self.becomeFollower msg.term else self) := by
      split
      · exact LeavesReads.becomeFollower self _
      · exact LeavesReads.refl self
    have hfollow := follow self msg.leader hrole
    simp only
    generalize ({ (if msg.term > self.term ∨ self.role ≠ .follower then self.becomeFollower msg.term else self) with
      leaderId := some msg.leader } : RaftNode).armElectionTimer = node at hfollow
    split
    · exact Ensures.pure (hfollow.andEmit rfl)
    · refine Ensures.bind (Ensures.trivial _) fun keepTail _ => Ensures.pure ?_
      refine LeavesReads.andEmit (LeavesReads.andEmit ?_ (by rfl)) (by rfl)
      exact hfollow.andThen rfl rfl (fun h => ⟨h, rfl⟩) rfl

end Bystands

/-! ## The operations of a read -/

/-- `_try_serve_read` does nothing, or it serves the read: a majority of the voters has confirmed it, and the node has applied
what was committed when it was asked for. -/
theorem tryServeRead_cases (self : RaftNode) (id : Int) : self.tryServeRead id = self ∨
    ∃ p, self.pendingReads.lookup id = some p ∧ self.voters.length < (p.acks.filter (· ∈ self.voters)).card * 2 ∧
      p.readIndex ≤ self.lastApplied ∧ self.tryServeRead id = { self with
        pendingReads := self.pendingReads.erase id
        out := self.out ++ [.record (.readserved id p.command),
          .onApply p.command (self.kv.applyRead (Command.decode p.command))] } := by
  unfold RaftNode.tryServeRead
  cases hp : self.pendingReads.lookup id with
  | none => exact Or.inl rfl
  | some p =>
    simp only
    split
    · rename_i hs
      refine Or.inr ⟨p, rfl, hs.1, hs.2, ?_⟩
      simp [RaftNode.record, RaftNode.emit]
    · exact Or.inl rfl

/-- The ping that asks a voter to confirm a read. -/
def ping (self : RaftNode) (id : Int) (p : NodeId) : Effect :=
  .send p (.readHeartbeat { term := self.term, leader := self.id, readId := id })

/-- The node with a new read waiting, and the voters pinged. -/
def withRead (self : RaftNode) (command : String) : RaftNode :=
  { self with
    nextReadId := self.nextReadId + 1
    pendingReads := self.pendingReads.insert self.nextReadId ⟨command, self.commitIndex, {self.id}⟩
    out := self.out ++ [.record (.read self.nextReadId self.commitIndex)] ++
      self.otherVoters.map (ping self self.nextReadId) }

/-- `request_read` refuses, or it pings the voters and tries to serve the read. -/
theorem requestRead_eq (self : RaftNode) (command : String) : self.requestRead command =
    if self.role ≠ .leader ∨ self.alive = false ∨ self.committedThisTerm = false then (self, false)
    else ((withRead self command).tryServeRead self.nextReadId, true) := by
  unfold RaftNode.requestRead
  split
  · rfl
  · have hsends : ∀ (ps : List NodeId) (mid : RaftNode) (id : Int),
        ps.foldl (fun mid p => mid.send p (.readHeartbeat { term := mid.term, leader := mid.id, readId := id })) mid =
          { mid with out := mid.out ++ ps.map (ping mid id) } := by
      intro ps
      induction ps with
      | nil => simp
      | cons p ps ih =>
        intro mid id
        rw [List.foldl_cons, ih]
        simp [RaftNode.send, RaftNode.emit, ping]
    simp only
    rw [hsends]
    rfl

/-- `_on_read_heartbeat` answers with the term the node is in then. -/
theorem onReadHeartbeat_eq (self : RaftNode) (msg : ReadHeartbeat) : ∃ mid, LeavesReads self mid ∧
    self.onReadHeartbeat msg =
      mid.send msg.leader (.readAck { term := mid.term, follower := mid.id, readId := msg.readId }) := by
  unfold RaftNode.onReadHeartbeat
  refine ⟨_, ?_, rfl⟩
  split <;> split
  · exact Bystands.follow self _ (LeavesReads.becomeFollower self _)
  · exact LeavesReads.becomeFollower self _
  · exact Bystands.follow self _ (LeavesReads.refl self)
  · exact LeavesReads.refl self

/-- The node with one more confirmation of the read `p`. -/
def withAck (self : RaftNode) (msg : ReadAck) (p : PendingRead) : RaftNode :=
  { self with pendingReads := self.pendingReads.insert msg.readId { p with acks := insert msg.follower p.acks } }

/-- `_on_read_ack` leaves the reads alone, or it counts the confirmation and tries to serve the read. -/
theorem onReadAck_cases (self : RaftNode) (msg : ReadAck) : LeavesReads self (self.onReadAck msg) ∨
    ∃ p, self.pendingReads.lookup msg.readId = some p ∧ msg.term = self.term ∧ self.role = .leader ∧
      self.onReadAck msg = (withAck self msg p).tryServeRead msg.readId := by
  unfold RaftNode.onReadAck
  split
  · exact Or.inl (LeavesReads.becomeFollower self _)
  · cases hp : self.pendingReads.lookup msg.readId with
    | none => exact Or.inl (LeavesReads.refl self)
    | some p =>
      simp only
      split
      · exact Or.inl (LeavesReads.refl self)
      · rename_i hg
        push Not at hg
        exact Or.inr ⟨p, rfl, hg.1, hg.2, rfl⟩

end DeterministicRaft
