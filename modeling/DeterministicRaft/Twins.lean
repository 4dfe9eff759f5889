import DeterministicRaft.Theorems.Membership

/-!
# Two nodes side by side, of which one compacts its log

Their logs are the same above the base of the second, and below it nothing is read that could still be answered differently: what is
committed there matches every message. Each operation keeps them side by side.
-/

namespace DeterministicRaft

open RaftNode Refinement

/-- The call is made only where a log is compacted. -/
def Effect.OfCompaction : Effect → Bool
  | .beforeCompact _ => true
  | .record (.snapshot _ _) => true
  | _ => false

/-- The calls that are not made for a compaction. -/
def visible (out : List Effect) : List Effect := out.filter fun e => !e.OfCompaction

/-- The messages sent, each with its destination. -/
def messages (out : List Effect) : List (NodeId × Message) :=
  out.filterMap fun
    | .send dst msg => some (dst, msg)
    | _ => none

/-- Messages are not made for a compaction. -/
theorem messages_visible (out : List Effect) : messages (visible out) = messages out := by
  induction out with
  | nil => rfl
  | cons e out ih =>
    rw [visible, List.filter_cons]
    split
    · rw [messages, List.filterMap_cons, messages, List.filterMap_cons]
      split <;> simp_all [messages, visible]
    · rename_i he
      have hnone : messages (e :: out) = messages out := by
        cases e with
        | send dst msg => exact absurd rfl he
        | _ => rfl
      rw [hnone]
      exact ih

variable {u v : RaftNode} {i : Int}

/-- The message agrees with what the node has committed: the entry before its entries, if there is one, and the entries have the
terms of the log at every index up to the commit index. -/
structure AppendEntries.AgreesWith (msg : AppendEntries) (node : RaftNode) : Prop where
  prev : 1 ≤ msg.prevIndex → msg.prevIndex ≤ node.commitIndex → node.termAt msg.prevIndex = .ok msg.prevTerm
  entries : ∀ (k : ℕ) (e : Entry), msg.entries[k]? = some e → msg.prevIndex + 1 + k ≤ node.commitIndex →
    node.termAt (msg.prevIndex + 1 + k) = .ok e.term

/-- The second node is the first one with a part of its log compacted. -/
structure Twins (u v : RaftNode) : Prop where
  same : v = { u with
    config := v.config, log := v.log, baseIndex := v.baseIndex, baseTerm := v.baseTerm, snapshot := v.snapshot,
    configIndex := v.configIndex, applied := v.applied, logVersion := v.logVersion, out := v.out }
  threshold : u.config.snapshotThreshold ≤ 0
  noRegression : u.bugs.allowCommitRegression = false
  calls : visible v.out = visible u.out
  first : 0 ≤ u.baseIndex
  base : u.baseIndex ≤ v.baseIndex
  applied : v.baseIndex ≤ u.lastApplied
  last : u.lastApplied ≤ u.lastLogIndex
  log : v.log = u.log.drop (v.baseIndex - u.baseIndex).toNat
  baseTerm : u.termAt v.baseIndex = .ok v.baseTerm
  snapshot : ∀ s, u.snapshot = some s → s.lastIndex ≤ u.baseIndex
  snapshot' : ∀ s, v.snapshot = some s → s.lastIndex ≤ v.baseIndex
  fallback : v.fallback = named u.fallback (u.log.take (v.baseIndex - u.baseIndex).toNat)
  index : v.configIndex = u.configIndex ∨ (v.configIndex ≤ v.baseIndex ∧ u.configIndex ≤ v.baseIndex)

/-! ## What both nodes read -/

/-- What follows the first items of a list, read from its start. -/
theorem pyIndex_drop {α : Type} (l : List α) {j : Int} (hj : 0 ≤ j) (d : ℕ) : pyIndex (l.drop d) j = pyIndex l (j + d) := by
  have h1 : ¬ j < 0 := by omega
  have h2 : ¬ j + d < 0 := by omega
  have h3 : (j + d).toNat = d + j.toNat := by omega
  simp only [pyIndex, h1, h2, if_false, List.getElem?_drop, h3]

/-- The first items of a list, read from its start. -/
theorem pyIndex_take {α : Type} (l : List α) {j : Int} {n : ℕ} (hj : 0 ≤ j) (hn : j < n) : pyIndex (l.take n) j = pyIndex l j := by
  have h1 : ¬ j < 0 := by omega
  simp only [pyIndex, h1, if_false]
  rw [List.getElem?_take_of_lt (by omega)]

/-- A list that goes on, read before its end. -/
theorem pyIndex_append {α : Type} (l l' : List α) {j : Int} (hj : 0 ≤ j) (hn : j < l.length) : pyIndex (l ++ l') j = pyIndex l j := by
  have h1 : ¬ j < 0 := by omega
  simp only [pyIndex, h1, if_false]
  rw [List.getElem?_append_left (by omega)]

/-- An entry can be read at every index above the base and up to the last. -/
theorem RaftNode.entryAt_ok (self : RaftNode) (hb : self.baseIndex < i) (hl : i ≤ self.lastLogIndex) : ∃ e, self.entryAt i = .ok e := by
  rw [RaftNode.lastLogIndex] at hl
  have hlt : (self.phys i).toNat < self.log.length := by
    rw [RaftNode.phys]
    omega
  exact ⟨_, pyIndex_ok (n := (self.phys i).toNat) (by rw [RaftNode.phys]; omega) (List.getElem?_eq_getElem hlt)⟩

/-- A term can be read at every index up to the last. -/
theorem RaftNode.termAt_ok (self : RaftNode) (h : i ≤ self.lastLogIndex) : ∃ t, self.termAt i = .ok t := by
  unfold RaftNode.termAt
  split
  · exact ⟨_, rfl⟩
  · obtain ⟨e, he⟩ := self.entryAt_ok (by omega) h
    rw [RaftNode.entryAt] at he
    rw [he]
    exact ⟨_, rfl⟩

/-- A configuration can be read at every index up to the last. -/
theorem RaftNode.configAt_ok (self : RaftNode) (hl : i ≤ self.lastLogIndex) : ∃ c, self.configAt i = .ok c := by
  have hlen : (i - self.baseIndex).toNat ≤ self.log.length := by
    rw [RaftNode.lastLogIndex] at hl
    omega
  obtain ⟨c, hc, -⟩ := Network.configBelow_eq self.log hlen self.fallback
  unfold RaftNode.configAt
  rw [hc]
  cases c with
  | some d => exact ⟨d, rfl⟩
  | none => cases self.snapshot <;> exact ⟨_, rfl⟩

namespace Twins

/-- Both nodes are in the same term. -/
theorem term (h : Twins u v) : v.term = u.term := by rw [h.same]

/-- Both nodes have the same vote. -/
theorem votedFor (h : Twins u v) : v.votedFor = u.votedFor := by rw [h.same]

/-- Both nodes have the same role. -/
theorem role (h : Twins u v) : v.role = u.role := by rw [h.same]

/-- Both nodes are the same server. -/
theorem id (h : Twins u v) : v.id = u.id := by rw [h.same]

/-- Both nodes have the same defects. -/
theorem bugs (h : Twins u v) : v.bugs = u.bugs := by rw [h.same]

/-- Both nodes are alive, or neither is. -/
theorem alive (h : Twins u v) : v.alive = u.alive := by rw [h.same]

/-- Both nodes have the same voters. -/
theorem voters (h : Twins u v) : v.voters = u.voters := by rw [h.same]

/-- Both nodes started with the same voters. -/
theorem initialVoters (h : Twins u v) : v.initialVoters = u.initialVoters := by rw [h.same]

/-- Both nodes have counted the same votes. -/
theorem votes (h : Twins u v) : v.votes = u.votes := by rw [h.same]

/-- Both nodes have armed as many timers. -/
theorem timerSeq (h : Twins u v) : v.timerSeq = u.timerSeq := by rw [h.same]

/-- Both nodes have committed as much. -/
theorem commitIndex (h : Twins u v) : v.commitIndex = u.commitIndex := by rw [h.same]

/-- Both nodes have applied as much. -/
theorem lastApplied (h : Twins u v) : v.lastApplied = u.lastApplied := by rw [h.same]

/-- Both nodes have the same store and sessions. -/
theorem kv (h : Twins u v) : v.kv = u.kv := by rw [h.same]

/-- Both logs end at the same index. -/
theorem lastLogIndex (h : Twins u v) : v.lastLogIndex = u.lastLogIndex := by
  have hb := h.base
  have ha := h.applied
  have hl := h.last
  rw [RaftNode.lastLogIndex] at hl
  rw [RaftNode.lastLogIndex, RaftNode.lastLogIndex, h.log, List.length_drop]
  omega

/-- Both nodes hold the same entries above the base. -/
theorem entryAt (h : Twins u v) (hi : v.baseIndex < i) : v.entryAt i = u.entryAt i := by
  have hb := h.base
  rw [RaftNode.entryAt, RaftNode.entryAt, RaftNode.phys, RaftNode.phys, h.log, pyIndex_drop _ (by omega)]
  congr 1
  omega

/-- Both nodes have the same terms from the base on. -/
theorem termAt (h : Twins u v) (hi : v.baseIndex ≤ i) : v.termAt i = u.termAt i := by
  have hb := h.base
  by_cases heq : i = v.baseIndex
  · subst heq
    rw [h.baseTerm, RaftNode.termAt, if_pos le_rfl]
  · have hentry := h.entryAt (i := i) (by omega)
    rw [RaftNode.entryAt, RaftNode.entryAt] at hentry
    rw [RaftNode.termAt, RaftNode.termAt, if_neg (by omega), if_neg (by omega), hentry]

/-! ## Changes that have nothing to do with the log -/

/-- The calls that are not made for a compaction, one after the other. -/
theorem visible_append (out es : List Effect) : visible (out ++ es) = visible out ++ visible es := List.filter_append _ _

/-- Both nodes change what they share. -/
theorem update (h : Twins u v) (term : Int) (votedFor : Option NodeId) (role : Role) (leaderId : Option NodeId)
    (votes : Finset NodeId) (pendingReads : Dict Int PendingRead) (timerSeq commitIndex : Int) :
    Twins { u with term, votedFor, role, leaderId, votes, pendingReads, timerSeq, commitIndex }
      { v with term, votedFor, role, leaderId, votes, pendingReads, timerSeq, commitIndex } where
  same := congrArg (fun w : RaftNode => { w with term, votedFor, role, leaderId, votes, pendingReads, timerSeq, commitIndex }) h.same
  threshold := h.threshold
  noRegression := h.noRegression
  calls := h.calls
  first := h.first
  base := h.base
  applied := h.applied
  last := h.last
  log := h.log
  baseTerm := h.baseTerm
  snapshot := h.snapshot
  snapshot' := h.snapshot'
  fallback := h.fallback
  index := h.index

/-- Both nodes make the same calls. -/
theorem call (h : Twins u v) (es : List Effect) : Twins { u with out := u.out ++ es } { v with out := v.out ++ es } where
  same := congrArg (fun w : RaftNode => { w with out := v.out ++ es }) h.same
  threshold := h.threshold
  noRegression := h.noRegression
  calls := by rw [visible_append, visible_append, h.calls]
  first := h.first
  base := h.base
  applied := h.applied
  last := h.last
  log := h.log
  baseTerm := h.baseTerm
  snapshot := h.snapshot
  snapshot' := h.snapshot'
  fallback := h.fallback
  index := h.index

/-- Both nodes record the same event. -/
theorem record (h : Twins u v) (event : Event) : Twins (u.record event) (v.record event) := h.call [.record event]

/-- Both nodes send the same message. -/
theorem send (h : Twins u v) (dst : NodeId) (msg : Message) : Twins (u.send dst msg) (v.send dst msg) := h.call [.send dst msg]

/-- Both nodes arm the same timer. -/
theorem armElectionTimer (h : Twins u v) : Twins u.armElectionTimer v.armElectionTimer := by
  have hu := (h.update u.term u.votedFor u.role u.leaderId u.votes u.pendingReads (u.timerSeq + 1) u.commitIndex).call
    [.schedule .election (u.timerSeq + 1)]
  rw [h.same] at hu ⊢
  exact hu

/-- The node's log, what it has applied and committed have not changed. -/
structure Steady (u u' : RaftNode) : Prop where
  log : u'.log = u.log
  baseIndex : u'.baseIndex = u.baseIndex
  baseTerm : u'.baseTerm = u.baseTerm
  lastApplied : u'.lastApplied = u.lastApplied
  commitIndex : u'.commitIndex = u.commitIndex

/-- A node that does nothing is steady. -/
theorem Steady.refl (u : RaftNode) : Steady u u := ⟨rfl, rfl, rfl, rfl, rfl⟩

/-- One part of an operation after the other. -/
theorem Steady.trans {u u' u'' : RaftNode} (h : Steady u u') (h' : Steady u' u'') : Steady u u'' :=
  ⟨h'.log.trans h.log, h'.baseIndex.trans h.baseIndex, h'.baseTerm.trans h.baseTerm, h'.lastApplied.trans h.lastApplied,
    h'.commitIndex.trans h.commitIndex⟩

/-- A steady node has the terms that it had. -/
theorem Steady.termAt {u u' : RaftNode} (h : Steady u u') (i : Int) : u'.termAt i = u.termAt i := by
  simp only [RaftNode.termAt, RaftNode.phys, h.log, h.baseIndex, h.baseTerm]

/-- Both nodes step down. -/
theorem becomeFollower (h : Twins u v) (t : Int) : Twins (u.becomeFollower t) (v.becomeFollower t) := by
  have hu := ((h.update t (if t > u.term then none else u.votedFor) .follower u.leaderId u.votes ∅ (u.timerSeq + 1)
    u.commitIndex).call (steppedDown u t)).call [.schedule .election (u.timerSeq + 1)]
  rw [becomeFollower_eq, becomeFollower_eq]
  rw [h.same] at hu ⊢
  exact hu

/-- A node that steps down is steady. -/
theorem steady_becomeFollower (u : RaftNode) (t : Int) : Steady u (u.becomeFollower t) := by
  rw [becomeFollower_eq]
  exact ⟨rfl, rfl, rfl, rfl, rfl⟩

/-- A node sees a later term, or another leader of its own. -/
theorem observe (h : Twins u v) (c : Prop) [Decidable c] (t : Int) :
    Twins (if c then u.becomeFollower t else u) (if c then v.becomeFollower t else v) ∧
    Steady u (if c then u.becomeFollower t else u) := by
  split
  · exact ⟨h.becomeFollower t, steady_becomeFollower u t⟩
  · exact ⟨h, .refl u⟩

/-- Both nodes hear from a leader. -/
theorem follow (h : Twins u v) (leader : NodeId) :
    Twins ({ u with leaderId := some leader }).armElectionTimer ({ v with leaderId := some leader }).armElectionTimer := by
  refine armElectionTimer ?_
  have hu := h.update u.term u.votedFor u.role (some leader) u.votes u.pendingReads u.timerSeq u.commitIndex
  rw [h.same] at hu ⊢
  exact hu

/-- Both nodes confirm a leader. -/
theorem onReadHeartbeat (h : Twins u v) (msg : ReadHeartbeat) :
    Twins (u.onReadHeartbeat msg) (v.onReadHeartbeat msg) ∧ Steady u (u.onReadHeartbeat msg) := by
  unfold RaftNode.onReadHeartbeat
  simp only [h.term]
  obtain ⟨h1, s1⟩ := h.observe (msg.term > u.term) msg.term
  generalize (if msg.term > u.term then u.becomeFollower msg.term else u) = u₁ at h1 s1 ⊢
  generalize (if msg.term > u.term then v.becomeFollower msg.term else v) = v₁ at h1 ⊢
  by_cases hc : msg.term ≥ u₁.term
  · have h2 := h1.follow msg.leader
    have s2 : Steady u₁ ({ u₁ with leaderId := some msg.leader }).armElectionTimer := ⟨rfl, rfl, rfl, rfl, rfl⟩
    rw [if_pos hc, if_pos (h1.term ▸ hc)]
    generalize ({ u₁ with leaderId := some msg.leader } : RaftNode).armElectionTimer = u₂ at h2 s2 ⊢
    generalize ({ v₁ with leaderId := some msg.leader } : RaftNode).armElectionTimer = v₂ at h2 ⊢
    rw [h2.term, h2.id]
    exact ⟨h2.send _ _, s1.trans ⟨s2.log, s2.baseIndex, s2.baseTerm, s2.lastApplied, s2.commitIndex⟩⟩
  · rw [if_neg hc, if_neg (h1.term ▸ hc), h1.term, h1.id]
    exact ⟨h1.send _ _, s1.trans ⟨rfl, rfl, rfl, rfl, rfl⟩⟩

/-- Both nodes give the same answer to a candidate. -/
theorem onRequestVote (h : Twins u v) (msg : RequestVote) :
    Both (fun u' v' => Twins u' v' ∧ Steady u u') (u.onRequestVote msg) (v.onRequestVote msg) := by
  unfold RaftNode.onRequestVote
  simp only [h.term]
  obtain ⟨h1, s1⟩ := h.observe (msg.term > u.term) msg.term
  generalize (if msg.term > u.term then u.becomeFollower msg.term else u) = u₁ at h1 s1 ⊢
  generalize (if msg.term > u.term then v.becomeFollower msg.term else v) = v₁ at h1 ⊢
  have hrefused := h1.send msg.candidate (.voteReply { term := u₁.term, voter := u₁.id, granted := false })
  simp only [h1.term, h1.votedFor, h1.id]
  split
  · obtain ⟨t, ht⟩ := u₁.termAt_ok le_rfl
    have ht' : v₁.termAt v₁.lastLogIndex = .ok t := by
      rw [h1.lastLogIndex, h1.termAt (h1.applied.trans h1.last), ht]
    refine Both.bind_ok ht ht' ?_
    rw [h1.lastLogIndex, h1.bugs]
    split
    · have h2 := h1.update u₁.term (some msg.candidate) u₁.role u₁.leaderId u₁.votes u₁.pendingReads u₁.timerSeq u₁.commitIndex
      refine Both.pure ⟨?_, s1.trans ⟨rfl, rfl, rfl, rfl, rfl⟩⟩
      have h3 := ((h2.record (.vote msg.candidate u₁.term)).armElectionTimer).send msg.candidate
        (.voteReply { term := u₁.term, voter := u₁.id, granted := true })
      rw [h1.same] at h3 ⊢
      exact h3
    · exact Both.pure ⟨hrefused, s1.trans ⟨rfl, rfl, rfl, rfl, rfl⟩⟩
  · exact Both.pure ⟨hrefused, s1.trans ⟨rfl, rfl, rfl, rfl, rfl⟩⟩

/-- The only vote of a new candidate is its own: it wins if it is the only voter. -/
theorem maybeWin_alone (self : RaftNode) (hr : self.role = .candidate) (hv : self.votes = {self.id}) (hid : self.id ∈ self.voters) :
    (self.voters.length < 2 → ∃ after, self.maybeWin = .ok after ∧ after.role = .leader) ∧
    (2 ≤ self.voters.length → self.maybeWin = .ok self) := by
  have hcard : (self.votes.filter (· ∈ self.voters)).card = 1 := by
    rw [hv, Finset.filter_singleton, if_pos hid, Finset.card_singleton]
  unfold RaftNode.maybeWin
  simp only [hcard]
  refine ⟨fun hlt => ?_, fun hle => if_neg fun h => ?_⟩
  · have hone : self.voters = [self.id] := by
      obtain ⟨x, hx⟩ := List.length_eq_one_iff.1 (le_antisymm (Nat.le_of_lt_succ hlt) (List.length_pos_of_mem hid))
      rw [hx] at hid ⊢
      rw [List.mem_singleton.1 hid]
    have hnone : self.leading.otherVoters = [] := by
      show self.voters.filter (· ≠ self.id) = []
      rw [hone]
      simp
    have hlead : self.becomeLeader = self.leading.broadcastHeartbeats >>= fun after => .ok after.armHeartbeatTimer := rfl
    rw [if_pos ⟨hr, hlt⟩, hlead, RaftNode.broadcastHeartbeats, hnone]
    exact ⟨self.leading.armHeartbeatTimer, rfl, rfl⟩
  · omega

/-- The requests for votes. -/
theorem requests (peers : List NodeId) (msg : Message) (h : Twins u v) :
    Twins (peers.foldl (fun self p => self.send p msg) u) (peers.foldl (fun self p => self.send p msg) v) ∧
    OnlyCalls u (peers.foldl (fun self p => self.send p msg) u) := by
  induction peers generalizing u v with
  | nil => exact ⟨h, .refl u⟩
  | cons p peers ih =>
    obtain ⟨h1, h2⟩ := ih (h.send p msg)
    exact ⟨h1, (OnlyCalls.emit u _).trans h2⟩

/-- A voter that stands asks the others, and then counts its own vote. -/
theorem startElection_eq {self : RaftNode} (hid : self.id ∈ self.voters) : self.startElection =
    self.campaigned.termAt self.campaigned.lastLogIndex >>= fun lastLogTerm =>
      (self.campaigned.otherVoters.foldl (fun self' p => self'.send p (.requestVote {
        term := self.campaigned.term, candidate := self.campaigned.id, lastLogIndex := self.campaigned.lastLogIndex, lastLogTerm }))
        self.campaigned).maybeWin := by
  unfold RaftNode.startElection
  rw [if_neg (not_not.2 hid)]
  rfl

/-- Both nodes stand, as long as standing alone wins no election. -/
theorem startElection (h : Twins u v) (hlead : ∀ after, u.startElection = .ok after → after.role ≠ .leader) :
    Both (fun u' v' => Twins u' v' ∧ Steady u u') u.startElection v.startElection := by
  by_cases hid : u.id ∈ u.voters
  · have hid' : v.id ∈ v.voters := by
      rw [h.id, h.voters]
      exact hid
    have h1 : Twins u.campaigned v.campaigned := by
      have hu := (((h.update (u.term + 1) (some u.id) .candidate none {u.id} u.pendingReads u.timerSeq u.commitIndex).record
        (.election (u.term + 1))).record (.role .candidate (u.term + 1))).armElectionTimer
      rw [h.same] at hu ⊢
      exact hu
    rw [startElection_eq hid] at hlead ⊢
    rw [startElection_eq hid']
    have s1 : Steady u u.campaigned := ⟨rfl, rfl, rfl, rfl, rfl⟩
    have hother : v.campaigned.otherVoters = u.campaigned.otherVoters := by
      rw [RaftNode.otherVoters, RaftNode.otherVoters, h1.voters, h1.id]
    obtain ⟨t, ht⟩ := u.campaigned.termAt_ok le_rfl
    have ht' : v.campaigned.termAt v.campaigned.lastLogIndex = .ok t := by
      rw [h1.lastLogIndex, h1.termAt (h1.applied.trans h1.last), ht]
    rw [ht] at hlead
    rw [hother, h1.term, h1.id]
    refine Both.bind_ok ht ht' ?_
    rw [h1.lastLogIndex]
    obtain ⟨h2, hcalls⟩ := h1.requests u.campaigned.otherVoters (.requestVote {
      term := u.campaigned.term, candidate := u.campaigned.id, lastLogIndex := u.campaigned.lastLogIndex, lastLogTerm := t })
    replace hlead : ∀ after, (u.campaigned.otherVoters.foldl (fun self p => self.send p (.requestVote {
        term := u.campaigned.term, candidate := u.campaigned.id, lastLogIndex := u.campaigned.lastLogIndex, lastLogTerm := t }))
        u.campaigned).maybeWin = .ok after → after.role ≠ .leader := hlead
    generalize u.campaigned.otherVoters.foldl _ u.campaigned = u₂ at h2 hcalls hlead ⊢
    generalize u.campaigned.otherVoters.foldl _ v.campaigned = v₂ at h2 ⊢
    obtain ⟨out, rfl⟩ := hcalls
    obtain ⟨halone, hothers⟩ := maybeWin_alone { u.campaigned with out := u.campaigned.out ++ out } rfl rfl hid
    have hmany : 2 ≤ u.voters.length := by
      by_contra hlt
      obtain ⟨after, hafter, hr⟩ := halone (not_le.1 hlt)
      exact hlead after hafter hr
    obtain ⟨-, hothers'⟩ := maybeWin_alone v₂ h2.role (by rw [h2.votes, h2.id]; rfl) (by rw [h2.id, h2.voters]; exact hid)
    rw [hothers hmany, hothers' (by rw [h2.voters]; exact hmany)]
    exact Both.pure ⟨h2, s1.trans ⟨rfl, rfl, rfl, rfl, rfl⟩⟩
  · have hid' : v.id ∉ v.voters := by
      rw [h.id, h.voters]
      exact hid
    unfold RaftNode.startElection
    rw [if_pos hid, if_pos hid']
    exact Both.pure ⟨h.armElectionTimer, ⟨rfl, rfl, rfl, rfl, rfl⟩⟩

/-! ## Changes of the log -/

/-- Both logs change above what is compacted. -/
theorem relog (h : Twins u v) {d : ℕ} (hd : (v.baseIndex - u.baseIndex).toNat = d) {l : List Entry}
    (hl : l.take d = u.log.take d) (hlast : u.lastApplied ≤ u.baseIndex + l.length) (a b : Int) :
    Twins { u with log := l, logVersion := a } { v with log := l.drop d, logVersion := b } := by
  have hb := h.base
  refine ⟨congrArg (fun w : RaftNode => { w with log := l.drop d, logVersion := b }) h.same, h.threshold, h.noRegression, h.calls,
    h.first, hb, h.applied, hlast, ?_, ?_, h.snapshot, h.snapshot', ?_, h.index⟩
  · subst hd
    rfl
  · have hread := h.baseTerm
    unfold RaftNode.termAt RaftNode.phys at hread ⊢
    simp only
    split
    · rename_i hle
      rw [if_pos hle] at hread
      exact hread
    · rename_i hgt
      rw [if_neg hgt] at hread
      have h0 : 0 ≤ v.baseIndex - u.baseIndex - 1 := by omega
      have h1 : v.baseIndex - u.baseIndex - 1 < d := by omega
      rw [← pyIndex_take l h0 h1, hl, pyIndex_take _ h0 h1]
      exact hread
  · subst hd
    exact h.fallback.trans (congrArg _ hl.symm)

/-- Both logs are cut above what is applied. -/
theorem cut (h : Twins u v) (hi : u.lastApplied < i) : Twins
    { u with log := delFrom u.log (u.phys i), logVersion := u.logVersion + 1 }
    { v with log := delFrom v.log (v.phys i), logVersion := v.logVersion + 1 } := by
  have hb := h.base
  have ha := h.applied
  have hl := h.last
  rw [RaftNode.lastLogIndex] at hl
  have hu : delFrom u.log (u.phys i) = u.log.take (u.phys i).toNat := delFrom_nat _ (by rw [RaftNode.phys]; omega)
  have hv : delFrom v.log (v.phys i) = v.log.take (v.phys i).toNat := delFrom_nat _ (by rw [RaftNode.phys]; omega)
  have hsplit : (u.phys i).toNat = (v.baseIndex - u.baseIndex).toNat + (v.phys i).toNat := by
    rw [RaftNode.phys, RaftNode.phys]
    omega
  rw [hu, hv, h.log, List.take_drop, ← hsplit]
  refine h.relog rfl ?_ ?_ _ _
  · rw [List.take_take, hsplit, Nat.min_eq_left (Nat.le_add_right _ _)]
  · rw [List.length_take, RaftNode.phys]
    omega

/-- Both logs get one more entry. -/
theorem push (h : Twins u v) (entry : Entry) : Twins
    { u with log := u.log ++ [entry], logVersion := u.logVersion + 1 }
    { v with log := v.log ++ [entry], logVersion := v.logVersion + 1 } := by
  have hb := h.base
  have ha := h.applied
  have hl := h.last
  rw [RaftNode.lastLogIndex] at hl
  have hle : (v.baseIndex - u.baseIndex).toNat ≤ u.log.length := by omega
  rw [h.log, ← List.drop_append_of_le_length hle]
  refine h.relog rfl (List.take_append_of_le_length hle) ?_ _ _
  rw [List.length_append]
  push_cast
  omega

/-- Both nodes adopt a configuration, from the same index or from one below the base of the second. -/
theorem adoptConfig (h : Twins u v) (voters : List NodeId) {a b : Int}
    (hab : b = a ∨ (b ≤ v.baseIndex ∧ a ≤ v.baseIndex)) : Twins (u.adoptConfig voters a) (v.adoptConfig voters b) :=
  ⟨congrArg (fun w : RaftNode => { w with voters, configIndex := b }) h.same, h.threshold, h.noRegression, h.calls, h.first, h.base,
    h.applied, h.last, h.log, h.baseTerm, h.snapshot, h.snapshot', h.fallback, hab⟩

/-- What a configuration is recomputed from is the same, or it lies in what is compacted. -/
theorem rebuildConfig (h : Twins u v) : Twins u.rebuildConfig v.rebuildConfig := by
  have hb := h.base
  have h0 := h.first
  have hd : ((v.baseIndex - u.baseIndex).toNat : Int) = v.baseIndex - u.baseIndex := by omega
  obtain ⟨start, hs, hu⟩ := Derived.rebuildConfig_start (fun _ => h0) h.snapshot
  obtain ⟨start', hs', hv⟩ := Derived.rebuildConfig_start (fun _ => h0.trans hb) h.snapshot'
  have hnamed : named v.fallback v.log = named u.fallback u.log := by
    rw [h.fallback, h.log, ← named_append, List.take_append_drop]
  rw [hu, hv, hnamed]
  refine h.adoptConfig _ ?_
  obtain ⟨hl, hn⟩ := lastConfig_index u.fallback start (u.baseIndex + 1) u.log
  obtain ⟨hl', hn'⟩ := lastConfig_index v.fallback start' (v.baseIndex + 1) v.log
  rcases exists_governs v.log with hnone | ⟨k, hk⟩
  · refine Or.inr ⟨(hn' hnone).trans_le hs', ?_⟩
    rcases exists_governs u.log with hnone' | ⟨k, hk⟩
    · exact (hn hnone').trans_le (hs.trans hb)
    · rw [hl k hk]
      obtain ⟨⟨e, he, hdec⟩, -⟩ := hk
      by_contra hgt
      refine hdec (hnone e ?_)
      rw [h.log]
      refine List.mem_of_getElem? (i := k - (v.baseIndex - u.baseIndex).toNat) ?_
      rw [List.getElem?_drop, Nat.add_sub_cancel' (by omega)]
      exact he
  · refine Or.inl ?_
    rw [hl' k hk, hl _ ((Governs.drop _).1 (h.log ▸ hk))]
    push_cast
    omega

/-- Both nodes cut their log above what is applied. -/
theorem truncateFrom (h : Twins u v) (hi : u.lastApplied < i) : Twins (u.truncateFrom i) (v.truncateFrom i) := by
  have hcut := h.cut hi
  have ha := h.applied
  have hidx : v.configIndex ≥ i ↔ u.configIndex ≥ i := by
    rcases h.index with heq | ⟨h1, h2⟩
    · rw [heq]
    · constructor <;> intro <;> omega
  unfold RaftNode.truncateFrom
  simp only
  by_cases hc : u.configIndex ≥ i
  · rw [if_pos hc, if_pos (hidx.2 hc)]
    exact hcut.rebuildConfig
  · rw [if_neg hc, if_neg fun hc' => hc (hidx.1 hc')]
    exact hcut

/-- Both nodes take over an entry. -/
theorem appendReplicated (h : Twins u v) (i : Int) (entry : Entry) :
    Twins (u.appendReplicated i entry) (v.appendReplicated i entry) := by
  have hpush := h.push entry
  unfold RaftNode.appendReplicated
  simp only
  cases decodeConfig entry.command with
  | none => exact hpush
  | some decoded => exact hpush.adoptConfig decoded (Or.inl rfl)

/-- What is applied and committed has not changed. -/
structure Progress (u u' : RaftNode) : Prop where
  lastApplied : u'.lastApplied = u.lastApplied
  commitIndex : u'.commitIndex = u.commitIndex

/-- One part of a merge after the other. -/
theorem Progress.trans {u u' u'' : RaftNode} (h : Progress u u') (h' : Progress u' u'') : Progress u u'' :=
  ⟨h'.lastApplied.trans h.lastApplied, h'.commitIndex.trans h.commitIndex⟩

/-- A cut leaves what is applied alone. -/
theorem progress_truncateFrom (u : RaftNode) (i : Int) : Progress u (u.truncateFrom i) := by
  unfold RaftNode.truncateFrom RaftNode.rebuildConfig RaftNode.adoptConfig
  simp only
  split <;> exact ⟨rfl, rfl⟩

/-- An entry that is taken over leaves what is applied alone. -/
theorem progress_appendReplicated (u : RaftNode) (i : Int) (entry : Entry) : Progress u (u.appendReplicated i entry) := by
  unfold RaftNode.appendReplicated RaftNode.adoptConfig
  simp only
  split <;> exact ⟨rfl, rfl⟩

/-- The entries after an index have the terms of the log, up to what is applied. -/
def Matches (u : RaftNode) (index : Int) (entries : List Entry) : Prop :=
  ∀ (k : ℕ) (e : Entry), entries[k]? = some e → index + 1 + k ≤ u.lastApplied → u.termAt (index + 1 + k) = .ok e.term

/-- What follows the first entry of a message. -/
theorem Matches.tail {index : Int} {entry : Entry} {entries : List Entry} (h : Matches u index (entry :: entries)) :
    Matches u (index + 1) entries := by
  intro k e hk hle
  have hidx : index + 1 + 1 + (k : Int) = index + 1 + ((k + 1 : ℕ) : Int) := by
    push_cast
    omega
  rw [hidx] at hle ⊢
  exact h (k + 1) e hk hle

/-- Entries above what is applied are not compared. -/
theorem Matches.beyond {index : Int} (entries : List Entry) (h : u.lastApplied ≤ index) : Matches u index entries := by
  intro k e _ hle
  omega

/-- A follower's log after a message, on both nodes: it reaches as far as the message. -/
theorem mergeEntries (h : Twins u v) {index : Int} {entries : List Entry} (hb : v.baseIndex ≤ index ∨ entries = [])
    (hl : index ≤ u.lastLogIndex) (hm : Matches u index entries) :
    Both (fun u' v' => Twins u' v' ∧ index + entries.length ≤ u'.lastLogIndex ∧ Progress u u')
      (u.mergeEntries index entries) (v.mergeEntries index entries) := by
  induction entries generalizing u v index with
  | nil => exact Both.pure ⟨h, by simpa using hl, rfl, rfl⟩
  | cons entry entries ih =>
    have hbase : v.baseIndex ≤ index := hb.resolve_right (List.cons_ne_nil _ _)
    have hlen : index + 1 + (entries.length : Int) = index + ((entry :: entries).length : ℕ) := by
      rw [List.length_cons]
      push_cast
      omega
    have hv := h.lastLogIndex
    unfold RaftNode.mergeEntries
    simp only
    rw [hv]
    split
    · rename_i hle
      obtain ⟨t, ht⟩ := u.termAt_ok (i := index + 1) hle
      have ht' : v.termAt (index + 1) = .ok t := by rw [h.termAt (by omega), ht]
      refine Both.bind_ok ht ht' ?_
      split
      · rename_i hne
        have hgt : u.lastApplied < index + 1 := by
          by_contra hle'
          have hread : u.termAt (index + 1) = .ok entry.term := by simpa using hm 0 entry rfl (by simpa using hle')
          exact hne (Except.ok.inj (ht.symm.trans hread))
        have hcut := Makes.truncateFrom_last (show u.baseIndex < index + 1 by have := h.base; omega) hle
        rw [← hlen]
        refine (ih ((h.truncateFrom hgt).appendReplicated (index + 1) entry) (Or.inl ?_) ?_ (.beyond _ ?_)).mono ?_
        · rw [(Makes.appendReplicated_keeps _ _ _).2.2.1, (Makes.truncateFrom_keeps _ _).2.2.1]
          omega
        · rw [Makes.appendReplicated_last, hcut]
          omega
        · rw [(progress_appendReplicated _ _ _).lastApplied, (progress_truncateFrom _ _).lastApplied]
          exact hgt.le
        · rintro u' v' ⟨h', hl', hp⟩
          exact ⟨h', hl', ((progress_truncateFrom u _).trans (progress_appendReplicated _ _ entry)).trans hp⟩
      · rw [← hlen]
        exact ih h (Or.inl (by omega)) hle hm.tail
    · rename_i hgt
      have hla := h.last
      rw [← hlen]
      refine (ih (h.appendReplicated (index + 1) entry) (Or.inl ?_) ?_ (.beyond _ ?_)).mono ?_
      · rw [(Makes.appendReplicated_keeps _ _ _).2.2.1]
        omega
      · rw [Makes.appendReplicated_last]
        omega
      · rw [(progress_appendReplicated _ _ _).lastApplied]
        omega
      · rintro u' v' ⟨h', hl', hp⟩
        exact ⟨h', hl', (progress_appendReplicated u _ entry).trans hp⟩

/-! ## Commits and compaction -/

/-- What applying an entry does. -/
theorem applyEntry_eq (self : RaftNode) (entry : Entry) : self.applyEntry entry = { self with
    lastApplied := self.lastApplied + 1
    applied := self.applied ++ [entry.command]
    kv := (self.kv.apply (Command.decode entry.command)).1
    out := self.out ++ [.record (.apply (self.lastApplied + 1) entry)] ++
      [.onApply entry.command (self.kv.apply (Command.decode entry.command)).2] } := rfl

/-- Both nodes apply the same entry. -/
theorem applyEntry (h : Twins u v) (entry : Entry) (hl : u.lastApplied + 1 ≤ u.lastLogIndex) :
    Twins (u.applyEntry entry) (v.applyEntry entry) := by
  have ha := h.applied
  rw [applyEntry_eq u, applyEntry_eq v, h.lastApplied, h.kv]
  refine ⟨congrArg (fun w : RaftNode => { w with
      lastApplied := u.lastApplied + 1
      applied := v.applied ++ [entry.command]
      kv := (u.kv.apply (Command.decode entry.command)).1
      out := v.out ++ [Effect.record (.apply (u.lastApplied + 1) entry)] ++
        [Effect.onApply entry.command (u.kv.apply (Command.decode entry.command)).2] }) h.same,
    h.threshold, h.noRegression, ?_, h.first, h.base, ?_, hl, h.log, h.baseTerm, h.snapshot, h.snapshot', h.fallback, h.index⟩
  · simp only [visible_append, h.calls]
  · show v.baseIndex ≤ u.lastApplied + 1
    omega

/-- Both nodes apply as many entries. -/
theorem applyLoop (h : Twins u v) (n : ℕ) (hl : u.lastApplied + n ≤ u.lastLogIndex) :
    Both (fun u' v' => Twins u' v' ∧ u'.lastApplied = u.lastApplied + n ∧ u'.commitIndex = u.commitIndex)
      (u.applyLoop n) (v.applyLoop n) := by
  induction n generalizing u v with
  | zero => exact Both.pure ⟨h, by simp, rfl⟩
  | succ n ih =>
    have ha := h.applied
    push_cast at hl
    obtain ⟨e, he⟩ := u.entryAt_ok (i := u.lastApplied + 1) (by have := h.base; omega) (by omega)
    have he' : v.entryAt (v.lastApplied + 1) = .ok e := by rw [h.lastApplied, h.entryAt (by omega), he]
    have hsucc : ∀ self : RaftNode, self.applyLoop (n + 1) =
        self.entryAt (self.lastApplied + 1) >>= fun e => (self.applyEntry e).applyLoop n := fun _ => rfl
    rw [hsucc, hsucc, he, he']
    have hla : (u.applyEntry e).lastApplied = u.lastApplied + 1 := rfl
    refine (ih (h.applyEntry e (by omega)) ?_).mono ?_
    · show u.lastApplied + 1 + (n : Int) ≤ u.lastLogIndex
      omega
    · rintro u' v' ⟨h', hla', hc⟩
      exact ⟨h', by push_cast; omega, hc⟩

/-- The second node compacts its log up to what is applied. -/
theorem compacted (h : Twins u v) {lastTerm : Int} {snapVoters : List NodeId} (ht : v.termAt v.lastApplied = .ok lastTerm)
    (hc : v.configAt v.lastApplied = .ok snapVoters) : Twins u (v.compacted lastTerm snapVoters) := by
  have hla := h.lastApplied
  have hb := h.base
  have ha := h.applied
  have hlast := h.last
  have hd : (v.lastApplied - u.baseIndex).toNat =
      (v.baseIndex - u.baseIndex).toNat + (v.lastApplied - v.baseIndex).toNat := by omega
  have hlog : sliceFrom v.log (v.lastApplied - v.baseIndex) = u.log.drop (v.lastApplied - u.baseIndex).toNat := by
    rw [sliceFrom_nat v.log (n := (v.lastApplied - v.baseIndex).toNat) (by omega), h.log, List.drop_drop, hd]
  have hvoters : snapVoters = named u.fallback (u.log.take (v.lastApplied - u.baseIndex).toNat) := by
    rw [Derived.configAt_eq (by rw [h.lastLogIndex]; omega) hc, h.fallback, h.log, ← named_append, hd, List.take_add]
  refine ⟨congrArg (fun w : RaftNode => { w with
      log := sliceFrom v.log (v.lastApplied - v.baseIndex)
      applied := sliceFrom v.applied (v.lastApplied - v.baseIndex)
      baseIndex := v.lastApplied
      baseTerm := lastTerm
      snapshot := (v.compacted lastTerm snapVoters).snapshot
      logVersion := v.logVersion + 1
      out := v.out ++ [Effect.beforeCompact v.view] ++ [Effect.record (.snapshot v.lastApplied lastTerm)] }) h.same,
    h.threshold, h.noRegression, ?_, h.first, ?_, hla.le, hlast, hlog, ?_, h.snapshot, ?_, hvoters, ?_⟩
  · show visible (v.out ++ [_] ++ [_]) = visible u.out
    rw [visible_append, visible_append, h.calls]
    simp [visible, Effect.OfCompaction]
  · show u.baseIndex ≤ v.lastApplied
    omega
  · exact (h.termAt (i := v.lastApplied) (by omega)).symm.trans ht
  · intro s hs
    cases hs
    exact le_rfl
  · show v.configIndex = u.configIndex ∨ (v.configIndex ≤ v.lastApplied ∧ u.configIndex ≤ v.lastApplied)
    rcases h.index with heq | ⟨h1, h2⟩
    · exact Or.inl heq
    · exact Or.inr ⟨by omega, by omega⟩

/-- Only the second node may compact its log. -/
theorem maybeCompact (h : Twins u v) : Both (fun u' v' => Twins u' v' ∧ u' = u) u.maybeCompact v.maybeCompact := by
  have hu : u.maybeCompact = .ok u := by
    unfold RaftNode.maybeCompact
    exact if_pos (Or.inl h.threshold)
  rw [hu]
  have hlast : v.lastApplied ≤ v.lastLogIndex := by
    rw [h.lastApplied, h.lastLogIndex]
    exact h.last
  unfold RaftNode.maybeCompact
  simp only
  split
  · exact Both.pure ⟨h, rfl⟩
  · obtain ⟨t, ht⟩ := v.termAt_ok hlast
    obtain ⟨c, hc⟩ := v.configAt_ok hlast
    have ht' : (v.emit (.beforeCompact v.view)).termAt (v.emit (.beforeCompact v.view)).lastApplied = .ok t := ht
    have hc' : (v.emit (.beforeCompact v.view)).configAt (v.emit (.beforeCompact v.view)).lastApplied = .ok c := hc
    rw [ht', hc']
    exact Both.pure ⟨h.compacted ht hc, rfl⟩

/-- Both nodes commit as much, and the second one may compact. -/
theorem setCommitIndex (h : Twins u v) (hc : u.lastApplied = u.commitIndex) {index : Int} (hl : index ≤ u.lastLogIndex) :
    Both (fun u' v' => Twins u' v' ∧ u'.lastApplied = u'.commitIndex) (u.setCommitIndex index) (v.setCommitIndex index) := by
  unfold RaftNode.setCommitIndex
  rw [h.commitIndex]
  split
  · exact Both.pure ⟨h, hc⟩
  · rename_i hgt
    have h1 := (h.update u.term u.votedFor u.role u.leaderId u.votes u.pendingReads u.timerSeq index).record (.commit index)
    have hn : u.lastApplied + ((index - u.lastApplied).toNat : Int) = index := by omega
    have hloop := h1.applyLoop (index - u.lastApplied).toNat (hn.trans_le hl)
    rw [h.same] at hloop ⊢
    refine Both.bind hloop ?_
    rintro u' v' ⟨h', hla, hcom⟩
    refine h'.maybeCompact.mono ?_
    rintro u'' v'' ⟨h'', rfl⟩
    exact ⟨h'', hla.trans (hn.trans hcom.symm)⟩

/-! ## AppendEntries -/

/-- How many entries of a message a node skips because they lie below its base. -/
def covered (base : Int) (msg : AppendEntries) : ℕ := min msg.entries.length (base - msg.prevIndex).toNat

/-- The term a node takes for that of the last entry it skips, or of the entry before the message's. -/
structure Skips (base : Int) (msg : AppendEntries) (term : Int) : Prop where
  none : covered base msg = 0 → term = msg.prevTerm
  some : ∀ k, covered base msg = k + 1 → ∃ e, msg.entries[k]? = some e ∧ term = e.term

/-- What a node skips, and the term it then takes for that of the entry before the rest. -/
theorem skipCovered_eq (self : RaftNode) (msg : AppendEntries) : ∃ term,
    self.skipCovered msg = .ok (msg.prevIndex + covered self.baseIndex msg, term, msg.entries.drop (covered self.baseIndex msg)) ∧
    Skips self.baseIndex msg term := by
  unfold RaftNode.skipCovered covered
  split
  · rename_i hlt
    simp only
    split
    · rename_i h0
      have hz : min msg.entries.length (self.baseIndex - msg.prevIndex).toNat = 0 := by omega
      rw [hz]
      exact ⟨msg.prevTerm, by simp; rfl, fun _ => rfl, fun k hk => absurd (hz.symm.trans hk) (Nat.succ_ne_zero k).symm⟩
    · rename_i hne
      obtain ⟨k, hk⟩ : ∃ k, min msg.entries.length (self.baseIndex - msg.prevIndex).toNat = k + 1 :=
        ⟨_, (Nat.succ_pred_eq_of_pos (by omega)).symm⟩
      have hcov : min (msg.entries.length : Int) (self.baseIndex - msg.prevIndex) = ((k + 1 : ℕ) : Int) := by omega
      obtain ⟨e, he⟩ : ∃ e, msg.entries[k]? = some e := ⟨_, List.getElem?_eq_getElem (by omega)⟩
      have hread : pyIndex msg.entries (((k + 1 : ℕ) : Int) - 1) = .ok e := pyIndex_ok (by push_cast; omega) he
      have hk' : covered self.baseIndex msg = k + 1 := hk
      rw [hk, hcov, hread, sliceFrom_nat msg.entries rfl]
      refine ⟨e.term, rfl, fun h0 => absurd (hk'.symm.trans h0) (Nat.succ_ne_zero k), fun j hj => ⟨e, ?_, rfl⟩⟩
      rw [← Nat.succ.inj (hk'.symm.trans hj)]
      exact he
  · rename_i hge
    have hz : min msg.entries.length (self.baseIndex - msg.prevIndex).toNat = 0 := by omega
    rw [hz]
    exact ⟨msg.prevTerm, by simp; rfl, fun _ => rfl, fun k hk => absurd (hz.symm.trans hk) (Nat.succ_ne_zero k).symm⟩

/-- It is that of the log, as far as it is known to be committed. -/
theorem Skips.termAt {base term : Int} {msg : AppendEntries} (h : Skips base msg term) (ha : msg.AgreesWith u)
    (h1 : 1 ≤ msg.prevIndex + covered base msg) (hc : msg.prevIndex + covered base msg ≤ u.commitIndex) :
    u.termAt (msg.prevIndex + covered base msg) = .ok term := by
  cases hk : covered base msg with
  | zero =>
    rw [hk] at h1 hc
    rw [h.none hk, Int.natCast_zero, add_zero]
    exact ha.prev (by simpa using h1) (by simpa using hc)
  | succ k =>
    rw [hk] at hc
    obtain ⟨e, he, rfl⟩ := h.some k hk
    have hidx : msg.prevIndex + ((k + 1 : ℕ) : Int) = msg.prevIndex + 1 + k := by
      push_cast
      omega
    rw [hidx] at hc ⊢
    exact ha.entries k e he hc

/-- A message that starts inside the log, with the log's term, is consistent. -/
theorem consistent {self : RaftNode} {index term : Int} (hl : index ≤ self.lastLogIndex)
    (ht : max 1 self.baseIndex ≤ index → self.termAt index = .ok term) : self.inconsistent index term = .ok false := by
  unfold RaftNode.inconsistent
  rw [if_neg (not_lt.2 hl)]
  obtain ⟨t, hread⟩ := self.termAt_ok hl
  rw [hread]
  refine congrArg Except.ok (decide_eq_false ?_)
  rintro ⟨hge, hne, -⟩
  exact hne (Except.ok.inj (hread.symm.trans (ht hge)))

/-- Both nodes judge a message alike, once they have skipped what they have compacted. -/
theorem inconsistent (h : Twins u v) (hc : u.lastApplied = u.commitIndex) {msg : AppendEntries} (ha : msg.AgreesWith u) {t t' : Int}
    (hs : Skips u.baseIndex msg t) (hs' : Skips v.baseIndex msg t') : ∃ r,
    u.inconsistent (msg.prevIndex + covered u.baseIndex msg) t = .ok r ∧
    v.inconsistent (msg.prevIndex + covered v.baseIndex msg) t' = .ok r ∧
    (r = false → msg.prevIndex + covered v.baseIndex msg ≤ u.lastLogIndex) := by
  have h0 := h.first
  have hb := h.base
  have happ := h.applied
  have hlast := h.last
  by_cases hlt : msg.prevIndex < v.baseIndex
  · have hle : msg.prevIndex + covered v.baseIndex msg ≤ v.baseIndex := by
      rw [covered]
      omega
    have hle' : msg.prevIndex + covered u.baseIndex msg ≤ v.baseIndex := by
      rw [covered]
      omega
    refine ⟨false, consistent (by omega) fun hge => hs.termAt ha (by omega) (by omega),
      consistent (by rw [h.lastLogIndex]; omega) fun hge => ?_, fun _ => by omega⟩
    rw [h.termAt (by omega)]
    exact hs'.termAt ha (by omega) (by omega)
  · have hz : covered u.baseIndex msg = 0 := by
      rw [covered]
      omega
    have hz' : covered v.baseIndex msg = 0 := by
      rw [covered]
      omega
    rw [hz, hz', hs.none hz, hs'.none hz', Int.natCast_zero, add_zero]
    have hmax : msg.prevIndex ≥ max 1 v.baseIndex ↔ msg.prevIndex ≥ max 1 u.baseIndex := by omega
    unfold RaftNode.inconsistent
    rw [h.lastLogIndex, h.termAt (not_lt.1 hlt), h.bugs]
    simp only [hmax]
    split
    · exact ⟨_, rfl, rfl, fun hr => by simp at hr; omega⟩
    · rename_i hle
      obtain ⟨t, ht⟩ := u.termAt_ok (not_lt.1 hle)
      rw [ht]
      exact ⟨_, rfl, rfl, fun _ => not_lt.1 hle⟩

/-- Entries that match the log are passed over. -/
theorem mergeEntries_skip (u : RaftNode) (index : Int) (entries : List Entry) {n : ℕ} (hn : n ≤ entries.length)
    (hs : ∀ k e, k < n → entries[k]? = some e →
      index + 1 + (k : ℕ) ≤ u.lastLogIndex ∧ u.termAt (index + 1 + (k : ℕ)) = .ok e.term) :
    u.mergeEntries index entries = u.mergeEntries (index + n) (entries.drop n) := by
  induction n generalizing index entries with
  | zero => rw [Int.natCast_zero, add_zero, List.drop_zero]
  | succ n ih =>
    cases entries with
    | nil => simp at hn
    | cons entry entries =>
      obtain ⟨hl, ht⟩ := hs 0 entry (Nat.succ_pos n) rfl
      rw [Int.natCast_zero, add_zero] at hl ht
      have hrest := ih (index + 1) entries (Nat.le_of_succ_le_succ hn) fun k e hk he => by
        have hnext := hs (k + 1) e (Nat.succ_lt_succ hk) he
        have hidx : index + 1 + ((k + 1 : ℕ) : Int) = index + 1 + 1 + k := by
          push_cast
          omega
        rwa [hidx] at hnext
      have hidx : index + ((n + 1 : ℕ) : Int) = index + 1 + n := by
        push_cast
        omega
      rw [List.drop_succ_cons, hidx, ← hrest]
      conv_lhs => unfold RaftNode.mergeEntries
      simp only
      rw [if_pos hl, ht]
      exact if_neg (not_not.2 rfl)

/-- The rest of a message, after what either node skips, does the same to both logs. -/
theorem merge_covered (h : Twins u v) (hc : u.lastApplied = u.commitIndex) {msg : AppendEntries} (ha : msg.AgreesWith u)
    (hl : msg.prevIndex + covered v.baseIndex msg ≤ u.lastLogIndex) :
    Both (fun u' v' => Twins u' v' ∧ msg.prevIndex + msg.entries.length ≤ u'.lastLogIndex ∧ Progress u u')
      (u.mergeEntries (msg.prevIndex + covered u.baseIndex msg) (msg.entries.drop (covered u.baseIndex msg)))
      (v.mergeEntries (msg.prevIndex + covered v.baseIndex msg) (msg.entries.drop (covered v.baseIndex msg))) := by
  have hb := h.base
  have happ := h.applied
  have hlast := h.last
  obtain ⟨m, hm⟩ : ∃ m, covered v.baseIndex msg = covered u.baseIndex msg + m := Nat.exists_eq_add_of_le (by
    unfold covered
    omega)
  have hlen : covered v.baseIndex msg ≤ msg.entries.length := Nat.min_le_left _ _
  have hlow : m = 0 ∨ msg.prevIndex + covered v.baseIndex msg ≤ v.baseIndex := by
    unfold covered at hm ⊢
    omega
  have hskip := mergeEntries_skip u (msg.prevIndex + covered u.baseIndex msg)
    (msg.entries.drop (covered u.baseIndex msg)) (n := m) (by rw [List.length_drop]; omega) fun k e hk he => by
      rw [List.getElem?_drop] at he
      have hidx : msg.prevIndex + covered u.baseIndex msg + 1 + (k : Int) =
          msg.prevIndex + 1 + ((covered u.baseIndex msg + k : ℕ) : Int) := by
        push_cast
        omega
      rw [hidx]
      exact ⟨by push_cast; omega, ha.entries _ e he (by push_cast; omega)⟩
  have hidx : msg.prevIndex + covered u.baseIndex msg + (m : Int) = msg.prevIndex + covered v.baseIndex msg := by
    rw [hm]
    push_cast
    omega
  rw [hskip, hidx, List.drop_drop, ← hm]
  refine (h.mergeEntries ?_ hl fun k e he hk => ?_).mono ?_
  · by_cases hcov : v.baseIndex ≤ msg.prevIndex + covered v.baseIndex msg
    · exact Or.inl hcov
    · refine Or.inr (List.drop_eq_nil_of_le ?_)
      unfold covered at hcov ⊢
      omega
  · rw [List.getElem?_drop] at he
    have hidx' : msg.prevIndex + covered v.baseIndex msg + 1 + (k : Int) =
        msg.prevIndex + 1 + ((covered v.baseIndex msg + k : ℕ) : Int) := by
      push_cast
      omega
    rw [hidx'] at hk ⊢
    exact ha.entries _ e he (hc ▸ hk)
  · rintro u' v' ⟨h', hl', hp⟩
    refine ⟨h', ?_, hp⟩
    rw [List.length_drop] at hl'
    omega

/-- Both nodes give the same answer to a leader. -/
theorem onAppendEntries (h : Twins u v) (hc : u.lastApplied = u.commitIndex) (msg : AppendEntries)
    (ha : u.term ≤ msg.term → msg.AgreesWith u) :
    Both (fun u' v' => Twins u' v' ∧ u'.lastApplied = u'.commitIndex) (u.onAppendEntries msg) (v.onAppendEntries msg) := by
  obtain ⟨h1, s1⟩ := h.observe (msg.term > u.term) msg.term
  have hterm : ¬ msg.term < (if msg.term > u.term then u.becomeFollower msg.term else u).term → u.term ≤ msg.term := by
    split <;> omega
  unfold RaftNode.onAppendEntries
  simp only [h.term]
  generalize (if msg.term > u.term then u.becomeFollower msg.term else u) = u₁ at h1 s1 hterm ⊢
  generalize (if msg.term > u.term then v.becomeFollower msg.term else v) = v₁ at h1 ⊢
  rw [h1.term, h1.id]
  split
  · exact Both.pure ⟨h1.send _ _, s1.lastApplied.trans (hc.trans s1.commitIndex.symm)⟩
  · rename_i hge
    obtain ⟨h2, s2⟩ := h1.observe (u₁.role ≠ .follower) msg.term
    rw [h1.role]
    generalize (if u₁.role ≠ .follower then u₁.becomeFollower msg.term else u₁) = u₂ at h2 s2 ⊢
    generalize (if u₁.role ≠ .follower then v₁.becomeFollower msg.term else v₁) = v₂ at h2 ⊢
    have h3 := h2.follow msg.leader
    have s3 : Steady u ({ u₂ with leaderId := some msg.leader }).armElectionTimer :=
      (s1.trans s2).trans ⟨rfl, rfl, rfl, rfl, rfl⟩
    generalize ({ u₂ with leaderId := some msg.leader } : RaftNode).armElectionTimer = u₃ at h3 s3 ⊢
    generalize ({ v₂ with leaderId := some msg.leader } : RaftNode).armElectionTimer = v₃ at h3 ⊢
    have ha3 : msg.AgreesWith u₃ := by
      have hu := ha (hterm hge)
      refine ⟨fun h1 h2 => ?_, fun k e he hk => ?_⟩
      · rw [s3.termAt]
        exact hu.prev h1 (s3.commitIndex ▸ h2)
      · rw [s3.termAt]
        exact hu.entries k e he (s3.commitIndex ▸ hk)
    have hc3 : u₃.lastApplied = u₃.commitIndex := s3.lastApplied.trans (hc.trans s3.commitIndex.symm)
    obtain ⟨t, ht, hskips⟩ := skipCovered_eq u₃ msg
    obtain ⟨t', ht', hskips'⟩ := skipCovered_eq v₃ msg
    obtain ⟨r, hr, hr', hle⟩ := h3.inconsistent hc3 ha3 hskips hskips'
    refine Both.bind_ok ht ht' (Both.bind_ok hr hr' ?_)
    rw [h3.term, h3.id]
    cases r with
    | true => exact Both.pure ⟨h3.send _ _, hc3⟩
    | false =>
      refine Both.bind (h3.merge_covered hc3 ha3 (hle rfl)) ?_
      rintro u₄ v₄ ⟨h4, hl4, hp⟩
      have hc4 : u₄.lastApplied = u₄.commitIndex := hp.lastApplied.trans (hc3.trans hp.commitIndex.symm)
      have hmatch : ∀ base, msg.prevIndex + covered base msg + ((msg.entries.drop (covered base msg)).length : Int) =
          msg.prevIndex + msg.entries.length := by
        intro base
        rw [List.length_drop, covered]
        omega
      simp only [hmatch, h4.bugs, h4.noRegression, Bool.false_eq_true, if_false, h4.commitIndex]
      have hreply : ∀ {u' v' : RaftNode}, Twins u' v' ∧ u'.lastApplied = u'.commitIndex →
          Both (fun u' v' => Twins u' v' ∧ u'.lastApplied = u'.commitIndex)
            (.ok (u'.send msg.leader (.appendReply {
              term := u'.term, follower := u'.id, success := true, matchIndex := msg.prevIndex + msg.entries.length })) :
                Except PyError RaftNode)
            (.ok (v'.send msg.leader (.appendReply {
              term := v'.term, follower := v'.id, success := true, matchIndex := msg.prevIndex + msg.entries.length }))) := by
        rintro u' v' ⟨h', hc'⟩
        rw [h'.term, h'.id]
        exact Both.pure ⟨h'.send _ _, hc'⟩
      split
      · have hlast := h4.last
        exact Both.bind (h4.setCommitIndex hc4 (by omega)) fun _ _ => hreply
      · exact hreply ⟨h4, hc4⟩

/-- The timer is live on both nodes or on neither, and both stand. -/
theorem onElectionTimeout (h : Twins u v) (seq : Int)
    (hlead : ∀ after, u.onElectionTimeout seq = .ok after → after.role = .leader → u.role = .leader) :
    Both (fun u' v' => Twins u' v' ∧ Steady u u') (u.onElectionTimeout seq) (v.onElectionTimeout seq) := by
  unfold RaftNode.onElectionTimeout at hlead ⊢
  rw [h.alive, h.timerSeq, h.role, h.term]
  split
  · exact Both.pure ⟨h, .refl u⟩
  · rename_i hg
    rw [if_neg hg] at hlead
    push Not at hg
    refine ((h.record _).startElection fun after hs hr => hg.2.2 (hlead after hs hr)).mono fun u' v' h' => ⟨h'.1, ?_⟩
    have hrecord : Steady u (u.record (.timer u.term)) := ⟨rfl, rfl, rfl, rfl, rfl⟩
    exact hrecord.trans h'.2

end Twins

end DeterministicRaft
