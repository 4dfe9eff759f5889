import DeterministicRaft.Theorems.Votes

/-!
# The votes a node counts

A candidate counts its own vote when it stands, and a vote that it is told of while it is in the term. It leads only with the votes of
a majority of its voters. Nothing else that happens to a node changes what it has counted, unless it follows afterwards.
-/

namespace DeterministicRaft

open RaftNode Refinement

variable {I : Inputs} {self mid after : RaftNode} {t : Int} {c : NodeId}

/-- Messages to some peers. -/
theorem requests_eq (peers : List NodeId) (msg : RaftNode → Message) (node : RaftNode) :
    ∃ es, peers.foldl (fun node p => node.send p (msg node)) node = { node with out := node.out ++ es } := by
  induction peers generalizing node with
  | nil => exact ⟨[], by simp⟩
  | cons p peers ih =>
    obtain ⟨es, heq⟩ := ih (node.send p (msg node))
    refine ⟨.send p (msg node) :: es, heq.trans ?_⟩
    simp only [RaftNode.send, emit, List.append_assoc, List.cons_append, List.nil_append]

/-! ## Nothing is counted -/

/-- The node follows, or its role, its term and the votes that it has counted are what they were. -/
def SamePoll (self after : RaftNode) : Prop :=
  after.role = .follower ∨ (after.role = self.role ∧ after.term = self.term ∧ after.votes = self.votes)

namespace SamePoll

/-- A node that does nothing counts nothing. -/
theorem refl (self : RaftNode) : SamePoll self self := Or.inr ⟨rfl, rfl, rfl⟩

/-- What counts nothing twice counts nothing. -/
theorem trans (h : SamePoll self mid) (h' : SamePoll mid after) : SamePoll self after := by
  rcases h' with hf | ⟨hr, ht, hv⟩
  · exact Or.inl hf
  · rw [SamePoll, hr, ht, hv]
    exact h

/-- Calls count nothing. -/
theorem of_calls (h : Calls self after) : SamePoll self after := by
  obtain ⟨es, rfl, -⟩ := h
  exact refl _

/-- A node that steps down follows. -/
theorem becomeFollower (self : RaftNode) (t : Int) : SamePoll self (self.becomeFollower t) := by
  rw [becomeFollower_eq]
  exact Or.inl rfl

/-- A node that may step down first. -/
theorem observe (self : RaftNode) (p : Prop) [Decidable p] (t : Int) : SamePoll self (if p then self.becomeFollower t else self) := by
  split
  · exact becomeFollower self t
  · exact refl self

/-- A change of the log counts nothing. -/
theorem of_onlyLog (h : OnlyLog self after) : SamePoll self after := by
  rw [h]
  exact Or.inr ⟨rfl, rfl, rfl⟩

/-- Applying entries counts nothing. -/
theorem of_justApplies (h : JustApplies self after) : SamePoll self after := by
  rw [h.1]
  exact Or.inr ⟨rfl, rfl, rfl⟩

/-- Serving a read counts nothing. -/
theorem tryServeRead (self : RaftNode) (i : Int) : SamePoll self (self.tryServeRead i) := by
  unfold RaftNode.tryServeRead
  split
  · exact refl self
  · simp only
    split <;> exact Or.inr ⟨rfl, rfl, rfl⟩

/-- A node that is asked for its vote counts nothing, or follows. -/
theorem onRequestVote (self : RaftNode) (msg : RequestVote) : Ensures (self.onRequestVote msg) (SamePoll self) := by
  unfold RaftNode.onRequestVote
  simp only
  have hobs := observe self (msg.term > self.term) msg.term
  generalize (if msg.term > self.term then self.becomeFollower msg.term else self) = mid at hobs
  split
  · refine Ensures.bind (Ensures.trivial _) fun t _ => ?_
    split <;> exact Ensures.pure hobs
  · exact Ensures.pure hobs

/-- A node that hears from a leader follows, or refuses and counts nothing. -/
theorem onAppendEntries (self : RaftNode) (msg : AppendEntries) : Ensures (self.onAppendEntries msg) (SamePoll self) := by
  unfold RaftNode.onAppendEntries
  simp only
  have hobs := observe self (msg.term > self.term) msg.term
  generalize (if msg.term > self.term then self.becomeFollower msg.term else self) = mid at hobs
  split
  · exact Ensures.pure hobs
  · have hlow := hobs.trans (observe mid (mid.role ≠ .follower) msg.term)
    generalize (if mid.role ≠ .follower then mid.becomeFollower msg.term else mid) = low at hlow
    refine Ensures.bind (Ensures.trivial _) fun rest _ => Ensures.bind (Ensures.trivial _) fun bad _ => ?_
    split
    · exact Ensures.pure hlow
    · refine Ensures.bind (OnlyLog.mergeEntries _ _ _) fun merged hm => ?_
      have hmerge := of_onlyLog hm
      have hmerged := hlow.trans hmerge
      split
      · exact Ensures.pure hmerged
      · split
        · refine Ensures.bind (JustApplies.setCommitIndex _ _) fun last hl => ?_
          have hcommit := of_justApplies hl
          exact Ensures.pure (hmerged.trans hcommit)
        · exact Ensures.pure hmerged

/-- A node that gets a snapshot follows, or refuses and counts nothing. -/
theorem onInstallSnapshot (self : RaftNode) (msg : InstallSnapshot) : Ensures (self.onInstallSnapshot msg) (SamePoll self) := by
  unfold RaftNode.onInstallSnapshot
  simp only
  split
  · exact Ensures.pure (refl self)
  · have hobs := observe self (msg.term > self.term ∨ self.role ≠ .follower) msg.term
    generalize (if msg.term > self.term ∨ self.role ≠ .follower then self.becomeFollower msg.term else self) = mid at hobs
    split
    · exact Ensures.pure hobs
    · exact Ensures.bind (Ensures.trivial _) fun keep _ => Ensures.pure hobs

/-- A node that is asked to confirm a leader counts nothing, or follows. -/
theorem onReadHeartbeat (self : RaftNode) (msg : ReadHeartbeat) : SamePoll self (self.onReadHeartbeat msg) := by
  unfold RaftNode.onReadHeartbeat
  simp only
  have hobs := observe self (msg.term > self.term) msg.term
  generalize (if msg.term > self.term then self.becomeFollower msg.term else self) = mid at hobs
  split <;> exact hobs

/-- A confirmation of a read is no vote. -/
theorem onReadAck (self : RaftNode) (msg : ReadAck) : SamePoll self (self.onReadAck msg) := by
  unfold RaftNode.onReadAck
  split
  · exact becomeFollower self _
  · split
    · exact refl self
    · split
      · exact refl self
      · exact tryServeRead _ _

/-- Messages to some peers count nothing. -/
theorem requests (peers : List NodeId) (msg : RaftNode → Message) (node : RaftNode) :
    SamePoll node (peers.foldl (fun node p => node.send p (msg node)) node) := by
  obtain ⟨es, heq⟩ := requests_eq peers msg node
  rw [heq]
  exact Or.inr ⟨rfl, rfl, rfl⟩

/-- A read counts nothing. -/
theorem requestRead (self : RaftNode) (command : String) : SamePoll self (self.requestRead command).1 := by
  unfold RaftNode.requestRead
  split
  · exact refl self
  · simp only
    refine SamePoll.trans ?_ (tryServeRead _ _)
    exact requests _ (fun node => .readHeartbeat { term := node.term, leader := node.id, readId := self.nextReadId }) _

/-- A leader's message counts nothing. -/
theorem sendAppendEntries (self : RaftNode) (hr : self.role = .leader) (peer : NodeId) :
    Ensures (self.sendAppendEntries peer) (SamePoll self) :=
  (Makes.sendAppendEntries_calls hr (Calls.refl self) peer).mono fun _ => of_calls

/-- Heartbeats count nothing. -/
theorem broadcastHeartbeats (hr : self.role = .leader) : Ensures self.broadcastHeartbeats (SamePoll self) :=
  (Makes.broadcastHeartbeats_calls hr).mono fun _ => of_calls

/-- The commit rule counts nothing. -/
theorem advanceLoop (self : RaftNode) (n : Int) (k : ℕ) : Ensures (self.advanceLoop n k) (SamePoll self) := by
  induction k generalizing n with
  | zero => exact Ensures.pure (refl self)
  | succ k ih =>
    unfold RaftNode.advanceLoop
    refine Ensures.bind (Ensures.trivial _) fun term _ => ?_
    split
    · exact Ensures.pure (refl self)
    · simp only
      split
      · refine Ensures.bind (JustApplies.setCommitIndex _ _) fun last hl => ?_
        have hcommit := of_justApplies hl
        exact Ensures.pure hcommit
      · exact ih _

/-- A leader that is answered counts nothing, or follows. -/
theorem onAppendReply (self : RaftNode) (msg : AppendReply) : Ensures (self.onAppendReply msg) (SamePoll self) := by
  unfold RaftNode.onAppendReply
  split
  · exact Ensures.pure (becomeFollower self _)
  · split
    · exact Ensures.pure (refl self)
    · rename_i hg
      push Not at hg
      split
      · exact advanceLoop _ _ _
      · exact sendAppendEntries { self with
          nextIndex := self.nextIndex.insert msg.follower (max 1 (self.nextIndex.getD msg.follower 1 - 1)) } hg.1 msg.follower

/-- A command counts nothing. -/
theorem clientCommand (self : RaftNode) (command : String) : Ensures (Prod.fst <$> self.clientCommand command) (SamePoll self) := by
  refine Ensures.map ?_
  unfold RaftNode.clientCommand
  split
  · exact Ensures.pure (refl self)
  · rename_i hg
    push Not at hg
    simp only
    split
    · exact Ensures.pure (refl self)
    · obtain ⟨ci, heq⟩ := proposed_eq self command
      have hsame : SamePoll self (self.proposed command) := by
        rw [heq]
        exact Or.inr ⟨rfl, rfl, rfl⟩
      have hrole : (self.proposed command).role = .leader := by
        rw [heq]
        exact hg.1
      exact Ensures.bind (broadcastHeartbeats hrole) fun mid h => Ensures.pure (hsame.trans h)

/-- A proposed configuration counts nothing, or its leader follows. -/
theorem changeConfig (self : RaftNode) (newVoters : List NodeId) :
    Ensures (Prod.fst <$> self.changeConfig newVoters) (SamePoll self) := by
  refine Ensures.map ?_
  unfold RaftNode.changeConfig
  simp only
  split
  · exact Ensures.pure (refl self)
  rename_i hg
  push Not at hg
  split
  · exact Ensures.pure (refl self)
  split
  · exact Ensures.pure (refl self)
  split
  · exact Ensures.pure (refl self)
  split
  · exact Ensures.pure (refl self)
  · refine Ensures.bind (Q := SamePoll (self.reconfigured (sortedSet newVoters))) (broadcastHeartbeats hg.1) fun mid h => ?_
    exact Ensures.pure h

end SamePoll

/-! ## Votes are counted -/

/-- The node has the votes of a majority of its voters. -/
def Outvotes (node : RaftNode) : Prop := node.voters.length < (node.votes.filter (· ∈ node.voters)).card * 2

/-- The node stands for election in a new term, and has told so; it has one vote, its own. -/
structure Stands (node after : RaftNode) : Prop where
  votes : after.votes = {node.id}
  told : .record (.election after.term) ∈ after.out

/-- The node is a candidate and counts a vote that is granted to it in its term. -/
structure Counts (node after : RaftNode) (msg : VoteReply) : Prop where
  granted : msg.granted = true
  role : node.role = .candidate
  current : msg.term = node.term
  term : after.term = node.term
  votes : after.votes = insert msg.voter node.votes

/-- `_maybe_win` counts no vote, and a candidate that leads afterwards has a majority. -/
theorem maybeWin_polls (self : RaftNode) (hr : self.role = .candidate) : Ensures self.maybeWin fun after =>
    (after.term = self.term ∧ after.votes = self.votes ∧ after.voters = self.voters ∧ ∀ e ∈ self.out, e ∈ after.out) ∧
      (after.role = .leader → Outvotes after) := by
  unfold RaftNode.maybeWin
  simp only
  split
  · rename_i hwin
    unfold RaftNode.becomeLeader
    refine Ensures.bind (@Makes.broadcastHeartbeats_calls self.leading rfl) ?_
    rintro mid ⟨es, rfl, -⟩
    refine Ensures.pure ⟨⟨rfl, rfl, rfl, fun e he => ?_⟩, fun _ => hwin.2⟩
    simp [armHeartbeatTimer, emit, leading, rebuildClientIndex, RaftNode.record, he]
  · refine Ensures.pure ⟨⟨rfl, rfl, rfl, fun _ he => he⟩, fun hl => ?_⟩
    rw [hr] at hl
    cases hl

/-- What an operation does to what a node has counted. -/
def Polls (op : NodeOp) (self after : RaftNode) : Prop := SamePoll self after ∨
  ((after.role = .leader → Outvotes after) ∧
    (Stands self after ∨ ∃ msg, op = .handle (.voteReply msg) ∧ Counts self after msg))

namespace Polls

/-- Who stands counts its own vote, and leads only if that is a majority. -/
theorem startElection (self : RaftNode) : Ensures self.startElection fun after =>
    SamePoll self after ∨ (after.role = .leader → Outvotes after) ∧ Stands self after := by
  unfold RaftNode.startElection
  split
  · exact Ensures.pure (Or.inl (SamePoll.refl self))
  · refine Ensures.bind (Ensures.trivial _) fun lastLogTerm _ => ?_
    obtain ⟨es, heq⟩ := requests_eq self.campaigned.otherVoters (fun _ => .requestVote {
      term := self.campaigned.term, candidate := self.id, lastLogIndex := self.campaigned.lastLogIndex, lastLogTerm })
      self.campaigned
    have hpoll := maybeWin_polls { self.campaigned with out := self.campaigned.out ++ es } rfl
    rw [← heq] at hpoll
    refine hpoll.mono ?_
    rintro after ⟨⟨hterm, hvotes, -, hout⟩, hwins⟩
    rw [heq] at hterm hvotes hout
    refine Or.inr ⟨hwins, hvotes, hout _ (List.mem_append_left _ ?_)⟩
    rw [hterm]
    simp [campaigned, armElectionTimer, RaftNode.record, emit]

/-- A candidate counts the vote that it is told of, and leads only with a majority. -/
theorem onVoteReply (self : RaftNode) (msg : VoteReply) : Ensures (self.onVoteReply msg) (Polls (.handle (.voteReply msg)) self) := by
  unfold RaftNode.onVoteReply
  split
  · exact Ensures.pure (Or.inl (SamePoll.becomeFollower self _))
  · split
    · exact Ensures.pure (Or.inl (SamePoll.refl self))
    · rename_i hhigh hg
      push Not at hg
      refine (maybeWin_polls { self with votes := insert msg.voter self.votes } hg.1).mono ?_
      rintro after ⟨⟨hterm, hvotes, -, -⟩, hwins⟩
      exact Or.inr ⟨hwins, Or.inr ⟨msg, rfl, by simpa using hg.2.2, hg.1, le_antisymm (not_lt.1 hhigh) hg.2.1, hterm, hvotes⟩⟩

/-- What each operation does to what a node has counted. -/
theorem perform (self : RaftNode) (op : NodeOp) : Ensures (self.perform op) (Polls op self) := by
  have hsame : ∀ {x : Except PyError RaftNode}, Ensures x (SamePoll self) → Ensures x (Polls op self) :=
    fun hx => hx.mono fun _ h => Or.inl h
  cases op with
  | start => exact hsame (Ensures.pure (SamePoll.refl self))
  | handle msg =>
    unfold RaftNode.perform RaftNode.handle
    simp only
    split
    · exact hsame (Ensures.pure (SamePoll.refl self))
    · cases msg with
      | requestVote msg => exact hsame (SamePoll.onRequestVote self msg)
      | voteReply msg => exact onVoteReply self msg
      | appendEntries msg => exact hsame (SamePoll.onAppendEntries self msg)
      | appendReply msg => exact hsame (SamePoll.onAppendReply self msg)
      | installSnapshot msg => exact hsame (SamePoll.onInstallSnapshot self msg)
      | readHeartbeat msg => exact hsame (Ensures.pure (SamePoll.onReadHeartbeat self msg))
      | readAck msg => exact hsame (Ensures.pure (SamePoll.onReadAck self msg))
  | electionTimeout seq =>
    unfold RaftNode.perform RaftNode.onElectionTimeout
    simp only
    split
    · exact hsame (Ensures.pure (SamePoll.refl self))
    · refine (startElection (self.record (.timer self.term))).mono ?_
      rintro after (hsteady | ⟨hwins, hstands⟩)
      · exact Or.inl hsteady
      · exact Or.inr ⟨hwins, Or.inl ⟨hstands.votes, hstands.told⟩⟩
  | heartbeat seq =>
    unfold RaftNode.perform RaftNode.onHeartbeat
    simp only
    split
    · exact hsame (Ensures.pure (SamePoll.refl self))
    · rename_i hg
      push Not at hg
      exact hsame (Ensures.bind (SamePoll.broadcastHeartbeats hg.2.2) fun mid h => Ensures.pure h)
  | clientCommand command => exact hsame (SamePoll.clientCommand self command)
  | changeConfig newVoters => exact hsame (SamePoll.changeConfig self newVoters)
  | requestRead command => exact hsame (Ensures.pure (SamePoll.requestRead self command))
  | pause =>
    refine hsame (Ensures.pure (Or.inl ?_))
    rw [pause_fields]
  | resume => exact hsame (Ensures.pure (SamePoll.refl self))

end Polls

/-! ## Ballots -/

/-- What backs a candidate does so after any moves. -/
theorem Backs.moved (hm : Moved I self after) (h : Backs self t c) : Backs after t c := by
  induction hm with
  | refl => exact h
  | tail _ hm ih => exact ih.move hm

/-- What some moves tell of the vote in a term names one candidate, the one that the node has stored: afterwards, and before if it was in
that term already. -/
theorem Moved.ballots (hm : Moved I self after) (h : SelfVoted self) : ∃ es, after.out = self.out ++ es ∧
    (∀ e ∈ es, ∀ t c, e.ballot self.id = some (t, c) → Backs after t c ∧ ∀ c', Backs self t c' → c' = c) ∧
    ∀ e ∈ es, ∀ e' ∈ es, ∀ t c c', e.ballot self.id = some (t, c) → e'.ballot self.id = some (t, c') → c = c' := by
  induction hm with
  | refl => exact ⟨[], by simp, by simp, by simp⟩
  | @tail mid after hms hm ih =>
    obtain ⟨es, hout, hback, hsingle⟩ := ih
    obtain ⟨es', hout', hnew⟩ := hm.ballots (h.moved hms)
    rw [(Moved.fixed hms).1] at hnew
    have hold : ∀ e ∈ es, ∀ c, e.ballot self.id = some (after.term, c) → after.votedFor = some c :=
      fun e he c hb => ((hback e he _ c hb).1.move hm).2 rfl
    refine ⟨es ++ es', by rw [hout', hout, List.append_assoc], fun e he t c hb => ?_, fun e he e' he' t c c' hb hb' => ?_⟩
    · rcases List.mem_append.1 he with he | he
      · exact ⟨(hback e he t c hb).1.move hm, (hback e he t c hb).2⟩
      · obtain ⟨rfl, hvote⟩ := hnew e he t c hb
        refine ⟨⟨le_rfl, fun _ => hvote⟩, fun c' hc' => ?_⟩
        have hmine := ((hc'.moved hms).move hm).2 rfl
        exact Option.some.inj (hmine.symm.trans hvote)
    · rcases List.mem_append.1 he with he | he
      · rcases List.mem_append.1 he' with he' | he'
        · exact hsingle e he e' he' t c c' hb hb'
        · obtain ⟨rfl, hvote⟩ := hnew e' he' t c' hb'
          exact Option.some.inj ((hold e he c hb).symm.trans hvote)
      · obtain ⟨rfl, hvote⟩ := hnew e he t c hb
        rcases List.mem_append.1 he' with he' | he'
        · exact Option.some.inj (hvote.symm.trans (hold e' he' c' hb'))
        · exact Option.some.inj (hvote.symm.trans (hnew e' he' _ c' hb').2)

/-- A vote reply of some moves names the node as the voter. -/
theorem Moved.voters (hm : Moved I self after) : ∃ es, after.out = self.out ++ es ∧
    ∀ dst msg, Effect.send dst (.voteReply msg) ∈ es → msg.voter = self.id := by
  induction hm with
  | refl => exact ⟨[], by simp, by simp⟩
  | @tail mid after hms hm ih =>
    obtain ⟨es, hout, hes⟩ := ih
    obtain ⟨es', hcalls⟩ := hm.calls
    refine ⟨es ++ es', by rw [hcalls.out, hout, List.append_assoc], fun dst msg he => ?_⟩
    rcases List.mem_append.1 he with he | he
    · exact hes dst msg he
    · rw [← (Moved.fixed hms).1]
      rcases hcalls.sends dst _ he with h | h | ⟨req, -, -, -, heq⟩
      · exact h.2.1
      · exact h.2.1
      · cases heq
        rfl

end DeterministicRaft
