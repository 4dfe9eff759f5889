import DeterministicRaft.Actions

/-!
# Nodes do not look at `stale_local_reads`

The defect is in the client driver: a node that leads is asked for what its store holds. The operations of the nodes never read the
flag, so nodes with it and nodes without it do the same, step by step.
-/

namespace DeterministicRaft

open RaftNode Refinement

/-- No defect is on, except perhaps the one that no node looks at. -/
def Bugs.Unseen (bugs : Bugs) : Prop := bugs = { NO_BUGS with staleLocalReads := bugs.staleLocalReads }

/-- The same node, with or without stale reads. -/
def RaftNode.withStale (self : RaftNode) (b : Bool) : RaftNode := { self with bugs := { self.bugs with staleLocalReads := b } }

/-- The second node is the first one, but for the flag. -/
def Flagged (b : Bool) (u v : RaftNode) : Prop := v = u.withStale b

namespace Flagged

variable {b : Bool} {u u' v v' : RaftNode}

/-- The node with the flag set. -/
theorem refl (u : RaftNode) : Flagged b u (u.withStale b) := rfl

/-- A test that comes out the same on both nodes. -/
theorem ite {c c' : Prop} [Decidable c] [Decidable c'] (hc : c ↔ c') (h : Flagged b u v) (h' : Flagged b u' v') :
    Flagged b (if c then u else u') (if c' then v else v') := by
  by_cases hp : c
  · rwa [if_pos hp, if_pos (hc.1 hp)]
  · rwa [if_neg hp, if_neg fun hp' => hp (hc.2 hp')]

/-! ## Roles and the lifecycle -/

/-- Both nodes step down. -/
theorem becomeFollower (u : RaftNode) (t : Int) : Flagged b (u.becomeFollower t) ((u.withStale b).becomeFollower t) := by
  rw [becomeFollower_eq, becomeFollower_eq]
  exact refl _

/-- A node that may step down first. -/
theorem observe (u : RaftNode) (c : Prop) [Decidable c] (t : Int) :
    Flagged b (if c then u.becomeFollower t else u) (if c then (u.withStale b).becomeFollower t else u.withStale b) :=
  ite Iff.rfl (becomeFollower u t) (refl u)

/-- Both nodes crash alike. -/
theorem pause (u : RaftNode) : Flagged b u.pause (u.withStale b).pause := by
  obtain ⟨s, hs⟩ : ∃ s, u.snapshot = s := ⟨_, rfl⟩
  have hs' : (u.withStale b).snapshot = s := hs
  unfold RaftNode.pause RaftNode.resetVolatile
  cases s <;> simp only [hs, hs'] <;> exact refl _

/-! ## Replication -/

/-- Both leaders send their snapshot. -/
theorem sendInstallSnapshot (u : RaftNode) (peer : NodeId) :
    Flagged b (u.sendInstallSnapshot peer) ((u.withStale b).sendInstallSnapshot peer) := by
  obtain ⟨s, hs⟩ : ∃ s, u.snapshot = s := ⟨_, rfl⟩
  have hs' : (u.withStale b).snapshot = s := hs
  unfold RaftNode.sendInstallSnapshot
  rw [hs, hs']
  cases s <;> exact refl _

/-- Both leaders send the same entries, or raise alike. -/
theorem sendAppendEntries (u : RaftNode) (peer : NodeId) :
    Agree (Flagged b) (u.sendAppendEntries peer) ((u.withStale b).sendAppendEntries peer) := by
  unfold RaftNode.sendAppendEntries
  refine Agree.bind (Agree.self (u.nextIndex.item peer)) ?_
  rintro next _ rfl
  refine Agree.ite Iff.rfl (fun _ => .ok (sendInstallSnapshot u peer)) fun _ => ?_
  refine Agree.bind (Agree.self (u.termAt (next - 1))) ?_
  rintro t _ rfl
  exact .ok (refl _)

/-- Both leaders write to the same voters. -/
theorem broadcastHeartbeats (u : RaftNode) : Agree (Flagged b) u.broadcastHeartbeats (u.withStale b).broadcastHeartbeats := by
  unfold RaftNode.broadcastHeartbeats
  refine Agree.foldlM (l := u.otherVoters) ?_ (refl u)
  rintro peer - u _ rfl
  exact sendAppendEntries u peer

/-! ## Commits and compaction -/

/-- Both nodes compact as much. -/
theorem maybeCompact (u : RaftNode) : Agree (Flagged b) u.maybeCompact (u.withStale b).maybeCompact := by
  unfold RaftNode.maybeCompact
  refine Agree.ite Iff.rfl (fun _ => .ok (refl u)) fun _ => ?_
  refine Agree.bind (Agree.self ((u.emit (.beforeCompact u.view)).termAt u.lastApplied)) ?_
  rintro t _ rfl
  refine Agree.bind (Agree.self ((u.emit (.beforeCompact u.view)).configAt u.lastApplied)) ?_
  rintro voters _ rfl
  exact .ok (refl _)

/-- Both nodes apply the same entries. -/
theorem applyLoop (u : RaftNode) (n : ℕ) : Agree (Flagged b) (u.applyLoop n) ((u.withStale b).applyLoop n) := by
  induction n generalizing u with
  | zero => exact .ok (refl u)
  | succ n ih =>
    unfold RaftNode.applyLoop
    refine Agree.bind (Agree.self (u.entryAt (u.lastApplied + 1))) ?_
    rintro entry _ rfl
    exact ih _

/-- Both nodes commit as much. -/
theorem setCommitIndex (u : RaftNode) (index : Int) : Agree (Flagged b) (u.setCommitIndex index) ((u.withStale b).setCommitIndex index) := by
  unfold RaftNode.setCommitIndex
  refine Agree.ite Iff.rfl (fun _ => .ok (refl u)) fun _ => ?_
  refine Agree.bind (applyLoop ({ u with commitIndex := index }.record (.commit index)) _) ?_
  rintro mid _ rfl
  exact maybeCompact mid

/-- Both leaders find the same index to commit. -/
theorem advanceLoop (u : RaftNode) (n : Int) (k : ℕ) : Agree (Flagged b) (u.advanceLoop n k) ((u.withStale b).advanceLoop n k) := by
  induction k generalizing n with
  | zero => exact .ok (refl u)
  | succ k ih =>
    unfold RaftNode.advanceLoop
    refine Agree.bind (Agree.self (u.termAt n)) ?_
    rintro t _ rfl
    refine Agree.ite Iff.rfl (fun _ => .ok (refl u)) fun _ => Agree.ite Iff.rfl (fun _ => ?_) fun _ => ih (n - 1)
    refine Agree.bind (setCommitIndex u n) ?_
    rintro mid _ rfl
    exact .ok (refl _)

/-- Both leaders commit as much. -/
theorem advanceCommit (u : RaftNode) : Agree (Flagged b) u.advanceCommit (u.withStale b).advanceCommit := advanceLoop u _ _

/-! ## Elections -/

/-- Both candidates begin to lead. -/
theorem becomeLeader (u : RaftNode) : Agree (Flagged b) u.becomeLeader (u.withStale b).becomeLeader := by
  unfold RaftNode.becomeLeader
  refine Agree.bind (broadcastHeartbeats u.leading) ?_
  rintro mid _ rfl
  exact .ok (refl _)

/-- Both candidates win, or neither does. -/
theorem maybeWin (u : RaftNode) : Agree (Flagged b) u.maybeWin (u.withStale b).maybeWin := by
  unfold RaftNode.maybeWin
  exact Agree.ite Iff.rfl (fun _ => becomeLeader u) fun _ => .ok (refl u)

/-- The same message to each of some peers. -/
theorem requests (u : RaftNode) (peers : List NodeId) (msg : RaftNode → Message) (hmsg : ∀ u : RaftNode, msg (u.withStale b) = msg u) :
    Flagged b (peers.foldl (fun node p => node.send p (msg node)) u)
      (peers.foldl (fun node p => node.send p (msg node)) (u.withStale b)) := by
  induction peers generalizing u with
  | nil => exact refl u
  | cons p peers ih =>
    rw [List.foldl_cons, List.foldl_cons, hmsg]
    exact ih (u.send p (msg u))

/-- Both nodes stand. -/
theorem startElection (u : RaftNode) : Agree (Flagged b) u.startElection (u.withStale b).startElection := by
  unfold RaftNode.startElection
  refine Agree.ite Iff.rfl (fun _ => .ok (refl _)) fun _ => ?_
  refine Agree.bind (Agree.self (u.campaigned.termAt u.campaigned.lastLogIndex)) ?_
  rintro t _ rfl
  have hrequests := requests (b := b) u.campaigned u.campaigned.otherVoters
    (fun _ => .requestVote ⟨u.campaigned.term, u.campaigned.id, u.campaigned.lastLogIndex, t⟩) (fun _ => rfl)
  have hwin := maybeWin (b := b) (u.campaigned.otherVoters.foldl (fun node p => node.send p
    (.requestVote ⟨u.campaigned.term, u.campaigned.id, u.campaigned.lastLogIndex, t⟩)) u.campaigned)
  rw [← hrequests] at hwin
  exact hwin

/-- The timer is live on both nodes, or on neither. -/
theorem onElectionTimeout (u : RaftNode) (seq : Int) :
    Agree (Flagged b) (u.onElectionTimeout seq) ((u.withStale b).onElectionTimeout seq) := by
  unfold RaftNode.onElectionTimeout
  exact Agree.ite Iff.rfl (fun _ => .ok (refl u)) fun _ => startElection (u.record (.timer u.term))

/-- Both leaders go on with their heartbeat. -/
theorem onHeartbeat (u : RaftNode) (seq : Int) : Agree (Flagged b) (u.onHeartbeat seq) ((u.withStale b).onHeartbeat seq) := by
  unfold RaftNode.onHeartbeat
  refine Agree.ite Iff.rfl (fun _ => .ok (refl u)) fun _ => Agree.bind (broadcastHeartbeats u) ?_
  rintro mid _ rfl
  exact .ok (refl _)

/-- Both nodes give the same answer to a candidate. -/
theorem onRequestVote (u : RaftNode) (msg : RequestVote) :
    Agree (Flagged b) (u.onRequestVote msg) ((u.withStale b).onRequestVote msg) := by
  have hobs := observe (b := b) u (msg.term > u.term) msg.term
  unfold RaftNode.onRequestVote
  simp only
  generalize (if msg.term > u.term then u.becomeFollower msg.term else u) = mid at hobs ⊢
  rw [show (if msg.term > (u.withStale b).term then (u.withStale b).becomeFollower msg.term else u.withStale b) =
    mid.withStale b from hobs]
  refine Agree.ite Iff.rfl (fun _ => ?_) fun _ => .ok (refl _)
  refine Agree.bind (Agree.self (mid.termAt mid.lastLogIndex)) ?_
  rintro t _ rfl
  exact Agree.ite Iff.rfl (fun _ => .ok (refl _)) fun _ => .ok (refl _)

/-- Both candidates count the vote. -/
theorem onVoteReply (u : RaftNode) (msg : VoteReply) : Agree (Flagged b) (u.onVoteReply msg) ((u.withStale b).onVoteReply msg) := by
  unfold RaftNode.onVoteReply
  refine Agree.ite Iff.rfl (fun _ => .ok (becomeFollower u msg.term)) fun _ => ?_
  exact Agree.ite Iff.rfl (fun _ => .ok (refl u)) fun _ => maybeWin { u with votes := insert msg.voter u.votes }

/-! ## Clients and operators -/

/-- Both leaders append the command. -/
theorem proposed (u : RaftNode) (command : String) : Flagged b (u.proposed command) ((u.withStale b).proposed command) := by
  obtain ⟨s, hs⟩ : ∃ s, (Command.decode command).isStructured = s := ⟨_, rfl⟩
  unfold RaftNode.proposed
  simp only [hs]
  cases s <;> exact refl _

/-- Both nodes take the command, or neither does. -/
theorem clientCommand (u : RaftNode) (command : String) :
    Agree (Flagged b) (Prod.fst <$> u.clientCommand command) (Prod.fst <$> (u.withStale b).clientCommand command) := by
  refine Agree.map ?_
  unfold RaftNode.clientCommand
  refine Agree.ite Iff.rfl (fun _ => .ok (refl u)) fun _ => Agree.ite Iff.rfl (fun _ => .ok (refl _)) fun _ => ?_
  have hbroadcast := broadcastHeartbeats (b := b) (u.proposed command)
  rw [← proposed u command] at hbroadcast
  refine Agree.bind hbroadcast ?_
  rintro mid _ rfl
  exact .ok (refl mid)

/-- Both nodes take the proposal, or neither does. -/
theorem changeConfig (u : RaftNode) (newVoters : List NodeId) :
    Agree (Flagged b) (Prod.fst <$> u.changeConfig newVoters) (Prod.fst <$> (u.withStale b).changeConfig newVoters) := by
  refine Agree.map ?_
  unfold RaftNode.changeConfig
  have hrefused : Agree (fun x y : RaftNode × Bool => Flagged b x.1 y.1) (.ok (u, false) : Except PyError _)
    (.ok (u.withStale b, false)) := .ok (refl u)
  refine Agree.ite Iff.rfl (fun _ => hrefused) fun _ => Agree.ite Iff.rfl (fun _ => hrefused) fun _ => ?_
  refine Agree.ite Iff.rfl (fun _ => hrefused) fun _ => Agree.ite Iff.rfl (fun _ => hrefused) fun _ => ?_
  refine Agree.ite Iff.rfl (fun _ => hrefused) fun _ => ?_
  refine Agree.bind (broadcastHeartbeats (u.reconfigured (sortedSet newVoters))) ?_
  rintro mid _ rfl
  exact .ok (refl mid)

/-- Both leaders serve the read, or neither does. -/
theorem tryServeRead (u : RaftNode) (readId : Int) : Flagged b (u.tryServeRead readId) ((u.withStale b).tryServeRead readId) := by
  obtain ⟨pending, hp⟩ : ∃ pending, u.pendingReads.lookup readId = pending := ⟨_, rfl⟩
  have hp' : (u.withStale b).pendingReads.lookup readId = pending := hp
  unfold RaftNode.tryServeRead
  rw [hp, hp']
  cases pending with
  | none => exact refl u
  | some pending => exact ite Iff.rfl (refl _) (refl u)

/-- Both leaders note the read. -/
theorem requestRead (u : RaftNode) (command : String) : Flagged b (u.requestRead command).1 ((u.withStale b).requestRead command).1 := by
  unfold RaftNode.requestRead
  rw [apply_ite Prod.fst, apply_ite Prod.fst]
  refine ite Iff.rfl (refl u) ?_
  have hasked := requests (b := b) (({ u with
    nextReadId := u.nextReadId + 1
    pendingReads := u.pendingReads.insert u.nextReadId ⟨command, u.commitIndex, {u.id}⟩ }).record (.read u.nextReadId u.commitIndex))
    u.otherVoters (fun v => .readHeartbeat ⟨v.term, v.id, u.nextReadId⟩) fun _ => rfl
  have hserved := tryServeRead (b := b) (u.otherVoters.foldl (fun node p => node.send p (.readHeartbeat ⟨node.term, node.id, u.nextReadId⟩))
    (({ u with
      nextReadId := u.nextReadId + 1
      pendingReads := u.pendingReads.insert u.nextReadId ⟨command, u.commitIndex, {u.id}⟩ }).record (.read u.nextReadId u.commitIndex)))
    u.nextReadId
  rw [← hasked] at hserved
  exact hserved

/-- Both nodes confirm the leader. -/
theorem onReadHeartbeat (u : RaftNode) (msg : ReadHeartbeat) : Flagged b (u.onReadHeartbeat msg) ((u.withStale b).onReadHeartbeat msg) := by
  have hobs := observe (b := b) u (msg.term > u.term) msg.term
  unfold RaftNode.onReadHeartbeat
  simp only
  generalize (if msg.term > u.term then u.becomeFollower msg.term else u) = mid at hobs ⊢
  rw [show (if msg.term > (u.withStale b).term then (u.withStale b).becomeFollower msg.term else u.withStale b) =
    mid.withStale b from hobs]
  have hnext : Flagged b (if msg.term ≥ mid.term then ({ mid with leaderId := some msg.leader }).armElectionTimer else mid)
    (if msg.term ≥ (mid.withStale b).term then ({ mid.withStale b with leaderId := some msg.leader }).armElectionTimer
      else mid.withStale b) := ite Iff.rfl (refl _) (refl _)
  rw [hnext]
  exact refl _

/-- Both leaders count the confirmation. -/
theorem onReadAck (u : RaftNode) (msg : ReadAck) : Flagged b (u.onReadAck msg) ((u.withStale b).onReadAck msg) := by
  obtain ⟨pending, hp⟩ : ∃ pending, u.pendingReads.lookup msg.readId = pending := ⟨_, rfl⟩
  have hp' : (u.withStale b).pendingReads.lookup msg.readId = pending := hp
  unfold RaftNode.onReadAck
  refine ite Iff.rfl (becomeFollower u msg.term) ?_
  rw [hp, hp']
  cases pending with
  | none => exact refl u
  | some pending =>
    exact ite Iff.rfl (refl u) (tryServeRead { u with
      pendingReads := u.pendingReads.insert msg.readId { pending with acks := insert msg.follower pending.acks } } msg.readId)

/-! ## AppendEntries and InstallSnapshot -/

/-- Both logs are cut. -/
theorem truncateFrom (u : RaftNode) (index : Int) : Flagged b (u.truncateFrom index) ((u.withStale b).truncateFrom index) := by
  unfold RaftNode.truncateFrom
  exact ite Iff.rfl (refl _) (refl _)

/-- Both logs get the entry. -/
theorem appendReplicated (u : RaftNode) (index : Int) (entry : Entry) :
    Flagged b (u.appendReplicated index entry) ((u.withStale b).appendReplicated index entry) := by
  unfold RaftNode.appendReplicated
  cases decodeConfig entry.command <;> exact refl _

/-- Both nodes merge the same entries. -/
theorem mergeEntries (u : RaftNode) (index : Int) (entries : List Entry) :
    Agree (Flagged b) (u.mergeEntries index entries) ((u.withStale b).mergeEntries index entries) := by
  induction entries generalizing u index with
  | nil => exact .ok (refl u)
  | cons entry entries ih =>
    unfold RaftNode.mergeEntries
    refine Agree.ite Iff.rfl (fun _ => ?_) fun _ => ?_
    · refine Agree.bind (Agree.self (u.termAt (index + 1))) ?_
      rintro t _ rfl
      refine Agree.ite Iff.rfl (fun _ => ?_) fun _ => ih u (index + 1)
      rw [truncateFrom u, appendReplicated (u.truncateFrom (index + 1))]
      exact ih _ _
    · rw [appendReplicated u]
      exact ih _ _

/-- Both nodes give the same answer to a leader. -/
theorem onAppendEntries (u : RaftNode) (msg : AppendEntries) :
    Agree (Flagged b) (u.onAppendEntries msg) ((u.withStale b).onAppendEntries msg) := by
  have hobs := observe (b := b) u (msg.term > u.term) msg.term
  unfold RaftNode.onAppendEntries
  simp only
  generalize (if msg.term > u.term then u.becomeFollower msg.term else u) = mid at hobs ⊢
  rw [show (if msg.term > (u.withStale b).term then (u.withStale b).becomeFollower msg.term else u.withStale b) =
    mid.withStale b from hobs]
  refine Agree.ite Iff.rfl (fun _ => .ok (refl _)) fun _ => ?_
  have hdown := observe (b := b) mid (mid.role ≠ .follower) msg.term
  generalize (if mid.role ≠ .follower then mid.becomeFollower msg.term else mid) = low at hdown ⊢
  rw [show (if (mid.withStale b).role ≠ .follower then (mid.withStale b).becomeFollower msg.term else mid.withStale b) =
    low.withStale b from hdown]
  refine Agree.bind (Agree.self (({ low with leaderId := some msg.leader }).armElectionTimer.skipCovered msg)) ?_
  rintro ⟨prevIndex, prevTerm, entries⟩ _ rfl
  refine Agree.bind (Agree.self (({ low with leaderId := some msg.leader }).armElectionTimer.inconsistent prevIndex prevTerm)) ?_
  rintro bad _ rfl
  refine Agree.ite Iff.rfl (fun _ => .ok (refl _)) fun _ => ?_
  refine Agree.bind (mergeEntries ({ low with leaderId := some msg.leader }).armElectionTimer prevIndex entries) ?_
  rintro merged _ rfl
  refine Agree.ite Iff.rfl (fun _ => .ok (refl _)) fun _ => Agree.ite Iff.rfl (fun _ => ?_) fun _ => .ok (refl _)
  refine Agree.bind (setCommitIndex merged _) ?_
  rintro last _ rfl
  exact .ok (refl _)

/-- Both leaders take the answer in. -/
theorem onAppendReply (u : RaftNode) (msg : AppendReply) :
    Agree (Flagged b) (u.onAppendReply msg) ((u.withStale b).onAppendReply msg) := by
  unfold RaftNode.onAppendReply
  refine Agree.ite Iff.rfl (fun _ => .ok (becomeFollower u msg.term)) fun _ => Agree.ite Iff.rfl (fun _ => .ok (refl u)) fun _ => ?_
  refine Agree.ite Iff.rfl (fun _ => ?_) fun _ => ?_
  · exact advanceCommit { u with
      matchIndex := u.matchIndex.insert msg.follower (max (u.matchIndex.getD msg.follower 0) msg.matchIndex)
      nextIndex := u.nextIndex.insert msg.follower (max (u.nextIndex.getD msg.follower 1) (msg.matchIndex + 1)) }
  · exact sendAppendEntries { u with
      nextIndex := u.nextIndex.insert msg.follower (max 1 (u.nextIndex.getD msg.follower 1 - 1)) } msg.follower

/-- Both nodes install the snapshot, or neither does. -/
theorem onInstallSnapshot (u : RaftNode) (msg : InstallSnapshot) :
    Agree (Flagged b) (u.onInstallSnapshot msg) ((u.withStale b).onInstallSnapshot msg) := by
  unfold RaftNode.onInstallSnapshot
  refine Agree.ite Iff.rfl (fun _ => .ok (refl _)) fun _ => ?_
  have hobs := observe (b := b) u (msg.term > u.term ∨ u.role ≠ .follower) msg.term
  simp only
  generalize (if msg.term > u.term ∨ u.role ≠ .follower then u.becomeFollower msg.term else u) = mid at hobs ⊢
  rw [show (if msg.term > (u.withStale b).term ∨ (u.withStale b).role ≠ .follower then (u.withStale b).becomeFollower msg.term
    else u.withStale b) = mid.withStale b from hobs]
  refine Agree.ite Iff.rfl (fun _ => .ok (refl _)) fun _ => ?_
  refine Agree.bind (Agree.self (({ mid with leaderId := some msg.leader }).armElectionTimer.keepsTail msg)) ?_
  rintro keep _ rfl
  exact .ok (refl _)

/-! ## Operations and actions -/

/-- Both nodes handle a message alike. -/
theorem handle (u : RaftNode) (msg : Message) : Agree (Flagged b) (u.handle msg) ((u.withStale b).handle msg) := by
  unfold RaftNode.handle
  refine Agree.ite Iff.rfl (fun _ => .ok (refl u)) fun _ => ?_
  cases msg with
  | requestVote msg => exact onRequestVote u msg
  | voteReply msg => exact onVoteReply u msg
  | appendEntries msg => exact onAppendEntries u msg
  | appendReply msg => exact onAppendReply u msg
  | installSnapshot msg => exact onInstallSnapshot u msg
  | readHeartbeat msg => exact .ok (onReadHeartbeat u msg)
  | readAck msg => exact .ok (onReadAck u msg)

/-- No operation reads the flag. -/
theorem perform (u : RaftNode) (op : NodeOp) : Agree (Flagged b) (u.perform op) ((u.withStale b).perform op) := by
  cases op with
  | start => exact .ok (refl _)
  | handle msg => exact handle u msg
  | electionTimeout seq => exact onElectionTimeout u seq
  | heartbeat seq => exact onHeartbeat u seq
  | clientCommand command => exact clientCommand u command
  | changeConfig newVoters => exact changeConfig u newVoters
  | requestRead command => exact .ok (requestRead u command)
  | pause => exact .ok (pause u)
  | resume => exact .ok (refl _)

end Flagged

namespace World

/-- The same nodes, all with or all without stale reads. -/
def withStale (w : World) (b : Bool) : World := { w with nodes := fun n => (w.nodes n).withStale b }

/-- No action of the cluster depends on the flag. -/
theorem step_withStale (w : World) (b : Bool) (action : Action) :
    Agree (fun w' v => v = w'.withStale b) (w.step action) ((w.withStale b).step action) := by
  have hop : (w.withStale b).operation action = w.operation action := by
    cases action <;> rfl
  rw [World.step_eq, World.step_eq, hop]
  cases w.operation action with
  | none => exact .ok rfl
  | some target =>
    obtain ⟨n, op⟩ := target
    refine Agree.bind (Flagged.perform (b := b) (w.nodes n) op) ?_
    rintro node _ rfl
    refine .ok ?_
    unfold withStale
    simp only [World.mk.injEq]
    refine ⟨?_, rfl⟩
    funext m
    by_cases hm : m = n
    · subst hm
      simp only [Function.update_self]
      rfl
    · simp only [Function.update_of_ne hm]

/-- An action of nodes without the flag is one of the nodes with it. -/
theorem step_of_withStale {w v : World} {b : Bool} {action : Action} (h : (w.withStale b).step action = .ok v) :
    ∃ w', w.step action = .ok w' ∧ v = w'.withStale b := by
  have hagree := w.step_withStale b action
  rw [h] at hagree
  cases hstep : w.step action with
  | error e =>
    rw [hstep] at hagree
    cases hagree
  | ok w' =>
    rw [hstep] at hagree
    cases hagree with
    | ok heq => exact ⟨w', rfl, heq⟩

/-- The other way round. -/
theorem withStale_step {w w' : World} (b : Bool) {action : Action} (h : w.step action = .ok w') :
    (w.withStale b).step action = .ok (w'.withStale b) := by
  have hagree := w.step_withStale b action
  rw [h] at hagree
  cases hstep : (w.withStale b).step action with
  | error e =>
    rw [hstep] at hagree
    cases hagree
  | ok v =>
    rw [hstep] at hagree
    cases hagree with
    | ok heq => rw [heq]

end World

end DeterministicRaft
