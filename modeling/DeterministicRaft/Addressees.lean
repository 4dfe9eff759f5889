import DeterministicRaft.Adoption
import DeterministicRaft.Gains

/-!
# Whom nodes write to

A node writes to the voters of its configuration, and to whom it answers. All of them are nodes of the cluster, as long as every
configuration names only these.
-/

namespace DeterministicRaft

open RaftNode Refinement

variable {P : NodeId → Prop} {self mid after : RaftNode}

/-- Whom the message is answered to, if it is answered: who sent it, as it says itself. -/
def Message.replyTo : Message → Option NodeId
  | .requestVote msg => some msg.candidate
  | .voteReply _ => none
  | .appendEntries msg => some msg.leader
  | .appendReply msg => some msg.follower
  | .installSnapshot msg => some msg.leader
  | .readHeartbeat msg => some msg.leader
  | .readAck _ => none

/-- From the one state to the other the node has written only to whom `P` says. -/
def Writes (P : NodeId → Prop) (self after : RaftNode) : Prop :=
  ∃ es, after.out = self.out ++ es ∧ ∀ dst msg, Effect.send dst msg ∈ es → P dst

namespace Writes

/-- A node that does nothing writes to nobody. -/
theorem refl (self : RaftNode) : Writes P self self := ⟨[], (List.append_nil _).symm, fun _ _ h => absurd h List.not_mem_nil⟩

/-- What is written in two parts. -/
theorem trans (h : Writes P self mid) (h' : Writes P mid after) : Writes P self after := by
  obtain ⟨es, hout, hes⟩ := h
  obtain ⟨es', hout', hes'⟩ := h'
  refine ⟨es ++ es', by rw [hout', hout, List.append_assoc], fun dst msg hm => ?_⟩
  rcases List.mem_append.1 hm with hm | hm
  · exact hes dst msg hm
  · exact hes' dst msg hm

/-- The node changes elsewhere. -/
theorem of_out (h : after.out = self.out) : Writes P self after :=
  ⟨[], by rw [h, List.append_nil], fun _ _ h => absurd h List.not_mem_nil⟩

/-- A call that is no message. -/
theorem aside {e : Effect} (h : after.out = self.out ++ [e]) (he : ∀ dst msg, e ≠ .send dst msg) : Writes P self after :=
  ⟨[e], h, fun dst msg hm => absurd (List.mem_singleton.1 hm).symm (he dst msg)⟩

/-- A record. -/
theorem recorded {event : Event} (h : after.out = self.out ++ [.record event]) : Writes P self after :=
  aside h fun _ _ he => Effect.noConfusion he

/-- A timer. -/
theorem scheduled {kind : TimerKind} {seq : Int} (h : after.out = self.out ++ [.schedule kind seq]) : Writes P self after :=
  aside h fun _ _ he => Effect.noConfusion he

/-- One message. -/
theorem send (self : RaftNode) {dst : NodeId} (msg : Message) (h : P dst) : Writes P self (self.send dst msg) := by
  refine ⟨[.send dst msg], rfl, fun dst' msg' hm => ?_⟩
  cases List.mem_singleton.1 hm
  exact h

/-- What a call of another function writes. -/
theorem next {x : Except PyError RaftNode} (h : Writes P self mid) (hx : Ensures x (Writes P mid)) : Ensures x (Writes P self) :=
  hx.mono fun _ => h.trans

/-- A node that steps down writes to nobody. -/
theorem becomeFollower (self : RaftNode) (t : Int) : Writes P self (self.becomeFollower t) := by
  rw [becomeFollower_eq]
  refine ⟨steppedDown self t ++ [.schedule .election (self.timerSeq + 1)], List.append_assoc _ _ _, fun dst msg hm => ?_⟩
  unfold steppedDown at hm
  split at hm <;> simp at hm

/-- A node that may step down first. -/
theorem observe (self : RaftNode) (c : Prop) [Decidable c] (t : Int) : Writes P self (if c then self.becomeFollower t else self) := by
  split
  · exact becomeFollower self t
  · exact refl self

/-- Applying entries writes to nobody. -/
theorem of_justApplies (h : JustApplies self after) : Writes P self after := by
  obtain ⟨-, es, hout, hes⟩ := h
  exact ⟨es, hout, fun dst msg hm => (hes _ hm).elim⟩

/-- A leader writes to the peer, whether it sends entries or its snapshot. -/
theorem sendAppendEntries (self : RaftNode) {peer : NodeId} (hp : P peer) : Ensures (self.sendAppendEntries peer) (Writes P self) := by
  unfold RaftNode.sendAppendEntries
  refine Ensures.bind (Ensures.trivial _) fun next _ => ?_
  simp only
  split
  · refine Ensures.pure ?_
    unfold RaftNode.sendInstallSnapshot
    split
    · exact refl self
    · exact send self _ hp
  · exact Ensures.bind (Ensures.trivial _) fun t _ => Ensures.pure (send self _ hp)

/-- The loop over some peers. -/
theorem sendAll (self : RaftNode) {peers : List NodeId} (hp : ∀ p ∈ peers, P p) :
    Ensures (peers.foldlM RaftNode.sendAppendEntries self) (Writes P self) := by
  induction peers generalizing self with
  | nil => exact Ensures.pure (refl self)
  | cons p peers ih =>
    rw [List.foldlM_cons]
    refine Ensures.bind (sendAppendEntries self (hp p List.mem_cons_self)) fun mid h => ?_
    exact next h (ih mid fun q hq => hp q (List.mem_cons_of_mem _ hq))

/-- The other voters are voters. -/
theorem other_voters (hv : ∀ v ∈ self.voters, P v) : ∀ p ∈ self.otherVoters, P p := fun p hp => hv p (List.mem_filter.1 hp).1

/-- Heartbeats go to the voters. -/
theorem broadcastHeartbeats (hv : ∀ v ∈ self.voters, P v) : Ensures self.broadcastHeartbeats (Writes P self) :=
  sendAll self (other_voters hv)

/-- One message to each of some peers. -/
theorem requests {peers : List NodeId} (hp : ∀ p ∈ peers, P p) (msg : NodeId → RaftNode → Message) (node : RaftNode) :
    Writes P node (peers.foldl (fun node p => node.send p (msg p node)) node) ∧
      (peers.foldl (fun node p => node.send p (msg p node)) node).voters ⊆ node.voters := by
  induction peers generalizing node with
  | nil => exact ⟨refl node, List.Subset.refl _⟩
  | cons p peers ih =>
    obtain ⟨hwrites, hvoters⟩ := ih (fun q hq => hp q (List.mem_cons_of_mem _ hq)) (node.send p (msg p node))
    exact ⟨(send node (msg p node) (hp p List.mem_cons_self)).trans hwrites, hvoters⟩

/-! ## Elections -/

/-- A new leader writes to the voters. -/
theorem maybeWin (hv : ∀ v ∈ self.voters, P v) : Ensures self.maybeWin (Writes P self) := by
  unfold RaftNode.maybeWin
  simp only
  split
  · unfold RaftNode.becomeLeader
    have hlead : Writes P self self.leading := recorded rfl
    have hvoters : ∀ v ∈ self.leading.voters, P v := hv
    refine Ensures.bind (Q := Writes P self.leading) (broadcastHeartbeats hvoters) fun mid h => Ensures.pure ?_
    exact (hlead.trans h).trans (scheduled rfl)
  · exact Ensures.pure (refl self)

/-- Who stands writes to the voters. -/
theorem startElection (hv : ∀ v ∈ self.voters, P v) : Ensures self.startElection (Writes P self) := by
  unfold RaftNode.startElection
  split
  · exact Ensures.pure (scheduled rfl)
  · refine Ensures.bind (Ensures.trivial _) fun lastLogTerm _ => ?_
    have hcampaign : Writes P self self.campaigned := by
      refine ⟨[.record (.election (self.term + 1)), .record (.role .candidate (self.term + 1)),
        .schedule .election (self.timerSeq + 1)], ?_, by simp⟩
      simp [campaigned, RaftNode.armElectionTimer, RaftNode.record, emit]
    have hpeers : ∀ p ∈ self.campaigned.otherVoters, P p := other_voters (by exact hv)
    obtain ⟨hrequests, hvoters⟩ := requests hpeers
      (fun _ _ => .requestVote ⟨self.campaigned.term, self.campaigned.id, self.campaigned.lastLogIndex, lastLogTerm⟩) self.campaigned
    exact next (hcampaign.trans hrequests) (maybeWin fun v h => hv v (hvoters h))

/-- Who stands after a timeout writes to the voters. -/
theorem onElectionTimeout (hv : ∀ v ∈ self.voters, P v) (seq : Int) : Ensures (self.onElectionTimeout seq) (Writes P self) := by
  unfold RaftNode.onElectionTimeout
  split
  · exact Ensures.pure (refl self)
  · exact next (recorded rfl) (startElection (by exact hv))

/-- A candidate is answered. -/
theorem onRequestVote (self : RaftNode) {msg : RequestVote} (hp : P msg.candidate) : Ensures (self.onRequestVote msg) (Writes P self) := by
  unfold RaftNode.onRequestVote
  simp only
  have hobs : Writes P self _ := observe self (msg.term > self.term) msg.term
  generalize (if msg.term > self.term then self.becomeFollower msg.term else self) = mid at hobs
  have hrefused : Writes P self (mid.send msg.candidate (.voteReply { term := mid.term, voter := mid.id, granted := false })) :=
    hobs.trans (send mid _ hp)
  split
  · refine Ensures.bind (Ensures.trivial _) fun t _ => ?_
    split
    · have hvote : Writes P mid (({ mid with votedFor := some msg.candidate }.record (.vote msg.candidate mid.term)).armElectionTimer) :=
        ⟨[.record (.vote msg.candidate mid.term), .schedule .election (mid.timerSeq + 1)], List.append_assoc _ [_] [_], by simp⟩
      exact Ensures.pure ((hobs.trans hvote).trans (send _ _ hp))
    · exact Ensures.pure hrefused
  · exact Ensures.pure hrefused

/-- A candidate that wins writes to the voters. -/
theorem onVoteReply (hv : ∀ v ∈ self.voters, P v) (msg : VoteReply) : Ensures (self.onVoteReply msg) (Writes P self) := by
  unfold RaftNode.onVoteReply
  split
  · exact Ensures.pure (becomeFollower self _)
  · split
    · exact Ensures.pure (refl self)
    · exact next (of_out rfl) (maybeWin (by exact hv))

/-! ## Replication -/

/-- A heartbeat goes to the voters. -/
theorem onHeartbeat (hv : ∀ v ∈ self.voters, P v) (seq : Int) : Ensures (self.onHeartbeat seq) (Writes P self) := by
  unfold RaftNode.onHeartbeat
  split
  · exact Ensures.pure (refl self)
  · refine Ensures.bind (broadcastHeartbeats hv) fun mid h => Ensures.pure ?_
    exact h.trans (scheduled rfl)

/-- A leader is answered. -/
theorem onAppendEntries (self : RaftNode) {msg : AppendEntries} (hp : P msg.leader) :
    Ensures (self.onAppendEntries msg) (Writes P self) := by
  unfold RaftNode.onAppendEntries
  simp only
  have hobs : Writes P self _ := observe self (msg.term > self.term) msg.term
  generalize (if msg.term > self.term then self.becomeFollower msg.term else self) = mid at hobs
  split
  · exact Ensures.pure (hobs.trans (send mid _ hp))
  · have hobs' : Writes P self _ := hobs.trans (observe mid (mid.role ≠ .follower) msg.term)
    generalize (if mid.role ≠ .follower then mid.becomeFollower msg.term else mid) = low at hobs'
    have harm : Writes P self ({ low with leaderId := some msg.leader }.armElectionTimer) :=
      hobs'.trans (scheduled rfl)
    refine Ensures.bind (Ensures.trivial _) fun rest _ => Ensures.bind (Ensures.trivial _) fun bad _ => ?_
    split
    · exact Ensures.pure (harm.trans (send _ _ hp))
    · refine Ensures.bind (OnlyLog.mergeEntries _ _ _) fun merged hm => ?_
      have hmerged : Writes P self merged := harm.trans (of_out (by rw [hm]))
      split
      · exact Ensures.pure (hmerged.trans (send _ _ hp))
      · split
        · refine Ensures.bind (JustApplies.setCommitIndex _ _) fun last hl => Ensures.pure ?_
          exact (hmerged.trans (of_justApplies hl)).trans (send _ _ hp)
        · exact Ensures.pure (hmerged.trans (send _ _ hp))

/-- The commit rule writes to nobody. -/
theorem advanceLoop (self : RaftNode) (n : Int) (k : ℕ) : Ensures (self.advanceLoop n k) (Writes P self) := by
  induction k generalizing n with
  | zero => exact Ensures.pure (refl self)
  | succ k ih =>
    unfold RaftNode.advanceLoop
    refine Ensures.bind (Ensures.trivial _) fun term _ => ?_
    split
    · exact Ensures.pure (refl self)
    · simp only
      split
      · exact Ensures.bind (JustApplies.setCommitIndex _ _) fun after h => Ensures.pure ((of_justApplies h).trans (of_out rfl))
      · exact ih _

/-- A follower that does not agree is written to again. -/
theorem onAppendReply (self : RaftNode) {msg : AppendReply} (hp : P msg.follower) : Ensures (self.onAppendReply msg) (Writes P self) := by
  unfold RaftNode.onAppendReply
  split
  · exact Ensures.pure (becomeFollower self _)
  split
  · exact Ensures.pure (refl self)
  split
  · exact next (of_out rfl) (advanceLoop _ _ _)
  · exact next (of_out rfl) (sendAppendEntries _ hp)

/-- The sender of a snapshot is answered. -/
theorem onInstallSnapshot (self : RaftNode) {msg : InstallSnapshot} (hp : P msg.leader) :
    Ensures (self.onInstallSnapshot msg) (Writes P self) := by
  unfold RaftNode.onInstallSnapshot
  simp only
  split
  · exact Ensures.pure (send self _ hp)
  · have hobs : Writes P self _ := observe self (msg.term > self.term ∨ self.role ≠ .follower) msg.term
    generalize (if msg.term > self.term ∨ self.role ≠ .follower then self.becomeFollower msg.term else self) = mid at hobs
    have harm : Writes P self ({ mid with leaderId := some msg.leader }.armElectionTimer) :=
      hobs.trans (scheduled rfl)
    split
    · exact Ensures.pure (harm.trans (send _ _ hp))
    · refine Ensures.bind (Ensures.trivial _) fun keep _ => Ensures.pure ?_
      refine Writes.trans (harm.trans ?_) (send _ _ hp)
      exact recorded rfl

/-! ## Clients -/

/-- A command goes to the voters. -/
theorem clientCommand (hv : ∀ v ∈ self.voters, P v) (command : String) :
    Ensures (Prod.fst <$> self.clientCommand command) (Writes P self) := by
  refine Ensures.map ?_
  unfold RaftNode.clientCommand
  split
  · exact Ensures.pure (refl self)
  · simp only
    split
    · exact Ensures.pure (recorded rfl)
    · obtain ⟨ci, heq⟩ := proposed_eq self command
      have hproposed : Writes P self (self.proposed command) := by
        rw [heq]
        exact recorded rfl
      have hvoters : ∀ v ∈ (self.proposed command).voters, P v := by
        rw [heq]
        exact hv
      exact Ensures.bind (Q := Writes P (self.proposed command)) (broadcastHeartbeats hvoters) fun mid h =>
        Ensures.pure (hproposed.trans h)

/-- A proposed configuration goes to its voters. -/
theorem changeConfig (self : RaftNode) {newVoters : List NodeId} (hv : ∀ v ∈ newVoters, P v) :
    Ensures (Prod.fst <$> self.changeConfig newVoters) (Writes P self) := by
  refine Ensures.map ?_
  unfold RaftNode.changeConfig
  simp only
  split
  · exact Ensures.pure (refl self)
  split
  · exact Ensures.pure (refl self)
  split
  · exact Ensures.pure (refl self)
  split
  · exact Ensures.pure (refl self)
  split
  · exact Ensures.pure (refl self)
  · have hreconfigured : Writes P self (self.reconfigured (sortedSet newVoters)) := recorded rfl
    have hvoters : ∀ v ∈ (self.reconfigured (sortedSet newVoters)).voters, P v := fun v h =>
      hv v (List.mem_dedup.1 ((List.mem_insertionSort _).1 h))
    exact Ensures.bind (Q := Writes P (self.reconfigured (sortedSet newVoters))) (broadcastHeartbeats hvoters) fun mid h =>
      Ensures.pure (hreconfigured.trans h)

/-- Serving a read writes to nobody. -/
theorem tryServeRead (self : RaftNode) (i : Int) : Writes P self (self.tryServeRead i) := by
  unfold RaftNode.tryServeRead
  split
  · exact refl self
  · rename_i pending _
    simp only
    split
    · exact ⟨[.record (.readserved i pending.command), .onApply pending.command (self.kv.applyRead (Command.decode pending.command))],
        List.append_assoc _ [_] [_], by simp⟩
    · exact refl self

/-- A read is to be confirmed by the voters. -/
theorem requestRead (hv : ∀ v ∈ self.voters, P v) (command : String) : Writes P self (self.requestRead command).1 := by
  unfold RaftNode.requestRead
  split
  · exact refl self
  · simp only
    refine Writes.trans ?_ (tryServeRead _ _)
    have hread : Writes P self ({ self with
        nextReadId := self.nextReadId + 1
        pendingReads := self.pendingReads.insert self.nextReadId ⟨command, self.commitIndex, {self.id}⟩ }.record
          (.read self.nextReadId self.commitIndex)) := recorded rfl
    refine hread.trans ?_
    exact (requests (other_voters (by exact hv))
      (fun p node => .readHeartbeat { term := node.term, leader := node.id, readId := self.nextReadId }) _).1

/-- A leader that asks for a confirmation is answered. -/
theorem onReadHeartbeat (self : RaftNode) {msg : ReadHeartbeat} (hp : P msg.leader) : Writes P self (self.onReadHeartbeat msg) := by
  unfold RaftNode.onReadHeartbeat
  simp only
  have hobs : Writes P self _ := observe self (msg.term > self.term) msg.term
  generalize (if msg.term > self.term then self.becomeFollower msg.term else self) = mid at hobs
  split
  · have harm : Writes P mid ({ mid with leaderId := some msg.leader }.armElectionTimer) := scheduled rfl
    exact (hobs.trans harm).trans (send _ _ hp)
  · exact hobs.trans (send _ _ hp)

/-- A confirmation is not answered. -/
theorem onReadAck (self : RaftNode) (msg : ReadAck) : Writes P self (self.onReadAck msg) := by
  unfold RaftNode.onReadAck
  split
  · exact becomeFollower self _
  · split
    · exact refl self
    · split
      · exact refl self
      · exact Writes.trans (of_out rfl) (tryServeRead _ _)

/-! ## Any operation -/

/-- An operation writes to voters, and to whom it answers. -/
theorem perform (hv : ∀ v ∈ self.voters, P v) {op : NodeOp} (hmsg : ∀ msg s, op = .handle msg → msg.replyTo = some s → P s)
    (hconfig : ∀ newVoters, op = .changeConfig newVoters → ∀ v ∈ newVoters, P v) : Ensures (self.perform op) (Writes P self) := by
  cases op with
  | start => exact Ensures.pure (scheduled rfl)
  | handle msg =>
    unfold RaftNode.perform RaftNode.handle
    simp only
    split
    · exact Ensures.pure (refl self)
    · cases msg with
      | requestVote msg => exact onRequestVote self (hmsg _ _ rfl rfl)
      | voteReply msg => exact onVoteReply hv msg
      | appendEntries msg => exact onAppendEntries self (hmsg _ _ rfl rfl)
      | appendReply msg => exact onAppendReply self (hmsg _ _ rfl rfl)
      | installSnapshot msg => exact onInstallSnapshot self (hmsg _ _ rfl rfl)
      | readHeartbeat msg => exact Ensures.pure (onReadHeartbeat self (hmsg _ _ rfl rfl))
      | readAck msg => exact Ensures.pure (onReadAck self msg)
  | electionTimeout seq => exact onElectionTimeout hv seq
  | heartbeat seq => exact onHeartbeat hv seq
  | clientCommand command => exact clientCommand hv command
  | changeConfig newVoters => exact changeConfig self (hconfig newVoters rfl)
  | requestRead command => exact Ensures.pure (requestRead hv command)
  | pause =>
    refine Ensures.pure ?_
    rw [pause_fields]
    exact of_out rfl
  | resume => exact Ensures.pure (scheduled rfl)

end Writes

end DeterministicRaft
