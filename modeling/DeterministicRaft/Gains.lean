import DeterministicRaft.NodeInvariant

/-!
# What an operation can give a node

A node gains a leadership only by winning an election, and a leadership is marked as one that has committed only by a commit of its
own. Every other operation leaves a node with no more than it had.
-/

namespace DeterministicRaft

open RaftNode Refinement

variable {I : Inputs} {self mid after : RaftNode}

/-- A node that leads after led before, and a leadership with the mark after had it before. -/
def NoGain (self after : RaftNode) : Prop :=
  (after.role = .leader → self.role = .leader) ∧ (after.committedThisTerm = true → self.committedThisTerm = true)

/-- The node has just won an election. -/
def Elected (after : RaftNode) : Prop := ∃ candidate : RaftNode, candidate.becomeLeader = .ok after

namespace NoGain

/-- A node that does nothing gains nothing. -/
theorem refl (self : RaftNode) : NoGain self self := ⟨id, id⟩

/-- What gains nothing twice gains nothing. -/
theorem trans (h : NoGain self mid) (h' : NoGain mid after) : NoGain self after :=
  ⟨h.1 ∘ h'.1, h.2 ∘ h'.2⟩

/-- Calls leave the leader's mark alone. -/
theorem of_calls (h : Calls self after) : NoGain self after := by
  obtain ⟨es, rfl, -⟩ := h
  exact refl _

/-- A node that steps down gains nothing. -/
theorem becomeFollower (self : RaftNode) (t : Int) : NoGain self (self.becomeFollower t) := by
  rw [becomeFollower_eq]
  exact ⟨nofun, id⟩

/-- A node that may step down first. -/
theorem observe (self : RaftNode) (c : Prop) [Decidable c] (t : Int) : NoGain self (if c then self.becomeFollower t else self) := by
  split
  · exact becomeFollower self t
  · exact refl self

/-- A candidate gains nothing, or is elected. -/
theorem maybeWin (self : RaftNode) : Ensures self.maybeWin fun after => NoGain self after ∨ Elected after := by
  unfold RaftNode.maybeWin
  simp only
  split
  · exact fun after h => Or.inr ⟨self, h⟩
  · exact Ensures.pure (Or.inl (refl self))

/-- Messages to some peers. -/
theorem requests (peers : List NodeId) (msg : NodeId → RaftNode → Message) (node : RaftNode) :
    NoGain node (peers.foldl (fun node p => node.send p (msg p node)) node) := by
  induction peers generalizing node with
  | nil => exact refl node
  | cons p peers ih => exact ih (node.send p (msg p node))

/-- Who stands gains nothing but an election. -/
theorem startElection (self : RaftNode) : Ensures self.startElection fun after => NoGain self after ∨ Elected after := by
  unfold RaftNode.startElection
  split
  · exact Ensures.pure (Or.inl (refl self))
  · refine Ensures.bind (Ensures.trivial _) fun lastLogTerm _ => ?_
    have hcampaign : NoGain self self.campaigned := ⟨nofun, id⟩
    exact (maybeWin _).mono fun after h => h.imp_left ((hcampaign.trans (requests _ _ self.campaigned)).trans ·)

/-- A change of the log is no leadership. -/
theorem of_onlyLog (h : OnlyLog self after) : NoGain self after := by
  rw [h]
  exact ⟨id, id⟩

/-- Applying entries is no leadership. -/
theorem of_justApplies (h : JustApplies self after) : NoGain self after := by
  rw [h.1]
  exact ⟨id, id⟩

/-- Serving a read is no leadership. -/
theorem tryServeRead (self : RaftNode) (i : Int) : NoGain self (self.tryServeRead i) := by
  unfold RaftNode.tryServeRead
  split
  · exact refl self
  · simp only
    split <;> exact ⟨id, id⟩

/-- A node that hears from a leader gains nothing. -/
theorem onAppendEntries (self : RaftNode) (msg : AppendEntries) : Ensures (self.onAppendEntries msg) (NoGain self) := by
  unfold RaftNode.onAppendEntries
  simp only
  have hobs := observe self (msg.term > self.term) msg.term
  generalize (if msg.term > self.term then self.becomeFollower msg.term else self) = mid at hobs
  split
  · exact Ensures.pure hobs
  · have hobs' := hobs.trans (observe mid (mid.role ≠ .follower) msg.term)
    generalize (if mid.role ≠ .follower then mid.becomeFollower msg.term else mid) = low at hobs'
    refine Ensures.bind (Ensures.trivial _) fun rest _ => Ensures.bind (Ensures.trivial _) fun bad _ => ?_
    split
    · exact Ensures.pure hobs'
    · refine Ensures.bind (OnlyLog.mergeEntries _ _ _) fun merged hm => ?_
      have hmerge := of_onlyLog hm
      have hm := hobs'.trans hmerge
      split
      · exact Ensures.pure hm
      · split
        · refine Ensures.bind (JustApplies.setCommitIndex _ _) fun last hl => ?_
          have hcommit := of_justApplies hl
          exact Ensures.pure (hm.trans hcommit)
        · exact Ensures.pure hm

/-- A node that takes a snapshot gains nothing. -/
theorem onInstallSnapshot (self : RaftNode) (msg : InstallSnapshot) : Ensures (self.onInstallSnapshot msg) (NoGain self) := by
  unfold RaftNode.onInstallSnapshot
  simp only
  split
  · exact Ensures.pure (refl self)
  · have hobs := observe self (msg.term > self.term ∨ self.role ≠ .follower) msg.term
    generalize (if msg.term > self.term ∨ self.role ≠ .follower then self.becomeFollower msg.term else self) = mid at hobs
    split
    · exact Ensures.pure hobs
    · exact Ensures.bind (Ensures.trivial _) fun keep _ => Ensures.pure hobs

/-- A node that is asked for its vote gains nothing. -/
theorem onRequestVote (self : RaftNode) (msg : RequestVote) : Ensures (self.onRequestVote msg) (NoGain self) := by
  unfold RaftNode.onRequestVote
  simp only
  have hobs := observe self (msg.term > self.term) msg.term
  generalize (if msg.term > self.term then self.becomeFollower msg.term else self) = mid at hobs
  split
  · refine Ensures.bind (Ensures.trivial _) fun t _ => ?_
    split <;> exact Ensures.pure hobs
  · exact Ensures.pure hobs

/-- A candidate that is told of a vote gains nothing, or is elected. -/
theorem onVoteReply (self : RaftNode) (msg : VoteReply) :
    Ensures (self.onVoteReply msg) fun after => NoGain self after ∨ Elected after := by
  unfold RaftNode.onVoteReply
  split
  · exact Ensures.pure (Or.inl (becomeFollower self _))
  · split
    · exact Ensures.pure (Or.inl (refl self))
    · exact maybeWin { self with votes := insert msg.voter self.votes }

/-- A node that is asked to confirm a leader gains nothing. -/
theorem onReadHeartbeat (self : RaftNode) (msg : ReadHeartbeat) : NoGain self (self.onReadHeartbeat msg) := by
  unfold RaftNode.onReadHeartbeat
  simp only
  have hobs := observe self (msg.term > self.term) msg.term
  generalize (if msg.term > self.term then self.becomeFollower msg.term else self) = mid at hobs
  split <;> exact hobs

/-- A confirmation of a read marks nothing. -/
theorem onReadAck (self : RaftNode) (msg : ReadAck) : NoGain self (self.onReadAck msg) := by
  unfold RaftNode.onReadAck
  split
  · exact becomeFollower self _
  · split
    · exact refl self
    · split
      · exact refl self
      · exact tryServeRead _ _

/-- A read marks nothing. -/
theorem requestRead (self : RaftNode) (command : String) : NoGain self (self.requestRead command).1 := by
  unfold RaftNode.requestRead
  split
  · exact refl self
  · simp only
    refine NoGain.trans ?_ (tryServeRead _ _)
    exact requests _ (fun p node => .readHeartbeat { term := node.term, leader := node.id, readId := self.nextReadId }) _

/-- Heartbeats mark nothing. -/
theorem broadcastHeartbeats (hr : self.role = .leader) : Ensures self.broadcastHeartbeats (NoGain self) :=
  (Makes.broadcastHeartbeats_calls hr).mono fun _ => of_calls

/-- A leader's message marks nothing. -/
theorem sendAppendEntries (self : RaftNode) (hr : self.role = .leader) (peer : NodeId) : Ensures (self.sendAppendEntries peer) (NoGain self) :=
  (Makes.sendAppendEntries_calls hr (Calls.refl self) peer).mono fun _ => of_calls

/-- A command that is appended marks nothing. -/
theorem clientCommand (self : RaftNode) (command : String) : Ensures (Prod.fst <$> self.clientCommand command) (NoGain self) := by
  refine Ensures.map ?_
  unfold RaftNode.clientCommand
  split
  · exact Ensures.pure (refl self)
  · rename_i hg
    push Not at hg
    simp only
    split
    · exact Ensures.pure (refl self)
    · obtain ⟨ci, heq⟩ := proposed_eq self command
      have hrole : (self.proposed command).role = .leader := by
        rw [heq]
        exact hg.1
      refine Ensures.bind (Q := NoGain (self.proposed command)) (broadcastHeartbeats hrole) fun mid h => Ensures.pure ?_
      rw [heq] at h
      exact h

/-- A proposed configuration marks nothing. -/
theorem changeConfig (self : RaftNode) (newVoters : List NodeId) :
    Ensures (Prod.fst <$> self.changeConfig newVoters) (NoGain self) := by
  refine Ensures.map ?_
  unfold RaftNode.changeConfig
  simp only
  split
  · exact Ensures.pure (refl self)
  rename_i hg
  push Not at hg
  split
  · exact Ensures.pure (refl self)
  split
  · exact Ensures.pure (refl self)
  split
  · exact Ensures.pure (refl self)
  split
  · exact Ensures.pure (refl self)
  · refine Ensures.bind (Q := NoGain (self.reconfigured (sortedSet newVoters))) (broadcastHeartbeats hg.1) fun mid h => ?_
    exact Ensures.pure h

/-- A scan that changes anything moves the commit index. -/
theorem advanceLoop (self : RaftNode) {n : Int} (k : ℕ) (hn : self.commitIndex + k ≤ n) : Ensures (self.advanceLoop n k) fun after =>
    after = self ∨ self.commitIndex < after.commitIndex := by
  induction k generalizing n with
  | zero => exact Ensures.pure (Or.inl rfl)
  | succ k ih =>
    push_cast at hn
    unfold RaftNode.advanceLoop
    refine Ensures.bind (Ensures.trivial _) fun term _ => ?_
    split
    · exact Ensures.pure (Or.inl rfl)
    · simp only
      split
      · unfold RaftNode.setCommitIndex
        rw [if_neg (by omega)]
        refine Ensures.bind (Q := fun after => after.commitIndex = n) ?_ fun after h => Ensures.pure (Or.inr ?_)
        · refine Ensures.bind (Makes.applyLoop_eq _ _) ?_
          rintro mid ⟨entries, -, -, rfl⟩
          obtain ⟨es, -, heq⟩ := foldl_applyEntry ({ self with commitIndex := n }.record (.commit n)) entries
          rw [heq]
          unfold RaftNode.maybeCompact
          simp only
          split
          · exact Ensures.pure rfl
          · refine Ensures.bind (Ensures.trivial _) fun t _ => ?_
            exact Ensures.bind (Ensures.trivial _) fun vs _ => Ensures.pure rfl
        · simp only [h]
          omega
      · exact ih (by omega)

/-- The commit rule changes nothing, or commits more. -/
theorem advanceCommit (self : RaftNode) : Ensures self.advanceCommit fun after =>
    after = self ∨ self.commitIndex < after.commitIndex := by
  by_cases hl : self.commitIndex ≤ self.lastLogIndex
  · exact advanceLoop self _ (by omega)
  · rw [RaftNode.advanceCommit, show (self.lastLogIndex - self.commitIndex).toNat = 0 by omega]
    exact Ensures.pure (Or.inl rfl)

/-- An operation gives a node no more than it had, or the node wins an election, or it is a leader whom an answer to AppendEntries
lets commit. -/
theorem perform (self : RaftNode) (op : NodeOp) : Ensures (self.perform op) fun after => (NoGain self after ∨ Elected after) ∨
    ∃ msg, op = .handle (.appendReply msg) ∧ self.role = .leader ∧ msg.success = true ∧
      ∃ matchIndex nextIndex, { self with matchIndex, nextIndex }.advanceCommit = .ok after ∧
        self.commitIndex < after.commitIndex := by
  have hsame : ∀ {x : Except PyError RaftNode}, Ensures x (NoGain self) → Ensures x fun after => (NoGain self after ∨ Elected after) ∨
      ∃ msg, op = .handle (.appendReply msg) ∧ self.role = .leader ∧ msg.success = true ∧
        ∃ matchIndex nextIndex, { self with matchIndex, nextIndex }.advanceCommit = .ok after ∧
          self.commitIndex < after.commitIndex := fun hx => hx.mono fun _ h => Or.inl (Or.inl h)
  cases op with
  | start => exact hsame (Ensures.pure (refl self))
  | handle msg =>
    unfold RaftNode.perform RaftNode.handle
    simp only
    split
    · exact hsame (Ensures.pure (refl self))
    · cases msg with
      | requestVote msg => exact hsame (onRequestVote self msg)
      | voteReply msg => exact (onVoteReply self msg).mono fun _ h => Or.inl h
      | appendEntries msg => exact hsame (onAppendEntries self msg)
      | appendReply msg =>
        simp only
        unfold RaftNode.onAppendReply
        split
        · exact hsame (Ensures.pure (becomeFollower self _))
        · split
          · exact hsame (Ensures.pure (refl self))
          · rename_i hg
            push Not at hg
            split
            · rename_i hs
              intro after hafter
              rcases advanceCommit _ after hafter with rfl | hlt
              · exact Or.inl (Or.inl (refl self))
              · exact Or.inr ⟨msg, rfl, hg.1, hs, _, _, hafter, hlt⟩
            · exact hsame (sendAppendEntries { self with
                nextIndex := self.nextIndex.insert msg.follower (max 1 (self.nextIndex.getD msg.follower 1 - 1)) } hg.1 msg.follower)
      | installSnapshot msg => exact hsame (onInstallSnapshot self msg)
      | readHeartbeat msg => exact hsame (Ensures.pure (onReadHeartbeat self msg))
      | readAck msg => exact hsame (Ensures.pure (onReadAck self msg))
  | electionTimeout seq =>
    unfold RaftNode.perform RaftNode.onElectionTimeout
    simp only
    split
    · exact hsame (Ensures.pure (refl self))
    · exact (startElection (self.record (.timer self.term))).mono fun _ h => Or.inl h
  | heartbeat seq =>
    unfold RaftNode.perform RaftNode.onHeartbeat
    simp only
    split
    · exact hsame (Ensures.pure (refl self))
    · rename_i hg
      push Not at hg
      exact hsame (Ensures.bind (broadcastHeartbeats hg.2.2) fun mid h => Ensures.pure h)
  | clientCommand command => exact hsame (clientCommand self command)
  | changeConfig newVoters => exact hsame (changeConfig self newVoters)
  | requestRead command => exact hsame (Ensures.pure (requestRead self command))
  | pause =>
    refine hsame (Ensures.pure ?_)
    rw [pause_fields]
    exact ⟨fun hrole => absurd hrole (show Role.follower ≠ .leader by decide), fun hmark => absurd hmark Bool.false_ne_true⟩
  | resume => exact hsame (Ensures.pure (refl self))

end NoGain

/-- A leadership begins without the mark, with an index of the clients' requests in the log. -/
theorem Elected.fields (h : Elected after) : after.role = .leader ∧ after.committedThisTerm = false ∧
    after.clientIndex = clientIndexOf ∅ after.log := by
  obtain ⟨candidate, h⟩ := h
  unfold RaftNode.becomeLeader at h
  refine Ensures.bind (R := fun after => after.role = .leader ∧ after.committedThisTerm = false ∧
    after.clientIndex = clientIndexOf ∅ after.log) (@Makes.broadcastHeartbeats_calls candidate.leading rfl) ?_ after h
  rintro mid ⟨es, rfl, -⟩
  exact Ensures.pure ⟨rfl, rfl, rfl⟩

end DeterministicRaft
