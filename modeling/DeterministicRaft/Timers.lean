import DeterministicRaft.NodeInvariant

/-!
# The timers that an operation arms

An operation leaves the timer of a node alone, or it ends with a new one whose kind fits the role the node has then. The callbacks
that it schedules on the way are out of date at once.
-/

namespace DeterministicRaft

open RaftNode Refinement

variable {I : Inputs} {self mid after : RaftNode}

/-- The timer callbacks that were scheduled, with their sequence numbers. -/
def schedules (out : List Effect) : List (TimerKind × Int) :=
  out.filterMap fun
    | .schedule kind seq => some (kind, seq)
    | _ => none

/-- Timers are scheduled one after the other. -/
@[simp] theorem schedules_append (out es : List Effect) : schedules (out ++ es) = schedules out ++ schedules es :=
  List.filterMap_append

/-- The kind of timer that a node of the role waits for. -/
def Role.timer : Role → TimerKind
  | .leader => .heartbeat
  | _ => .election

/-- The node's timer and role are as they were, and nothing has been scheduled. -/
def Kept (self after : RaftNode) : Prop :=
  after.alive = self.alive ∧ after.timerSeq = self.timerSeq ∧ after.role = self.role ∧ schedules after.out = schedules self.out

/-- The last callback that has been scheduled is of the node's new timer. -/
def Armed (self after : RaftNode) : Prop :=
  after.alive = self.alive ∧ self.timerSeq < after.timerSeq ∧ ∃ stale : List (TimerKind × Int),
    (∀ cb ∈ stale, self.timerSeq < cb.2 ∧ cb.2 < after.timerSeq) ∧
    schedules after.out = schedules self.out ++ stale ++ [(after.role.timer, after.timerSeq)]

/-- A node that does nothing keeps its timer. -/
theorem Kept.refl (self : RaftNode) : Kept self self := ⟨rfl, rfl, rfl, rfl⟩

/-- What keeps the timer twice keeps it. -/
theorem Kept.trans (h : Kept self mid) (h' : Kept mid after) : Kept self after :=
  ⟨h'.1.trans h.1, h'.2.1.trans h.2.1, h'.2.2.1.trans h.2.2.1, h'.2.2.2.trans h.2.2.2⟩

/-- The timer is kept, and then a new one is armed. -/
theorem Kept.armed (h : Kept self mid) (h' : Armed mid after) : Armed self after := by
  obtain ⟨h1, h2, -, h4⟩ := h
  unfold Armed at h' ⊢
  rwa [h1, h2, h4] at h'

/-- A new timer is armed, and then kept. -/
theorem Armed.kept (h : Armed self mid) (h' : Kept mid after) : Armed self after := by
  obtain ⟨h1, h2, h3, h4⟩ := h'
  unfold Armed at h ⊢
  rwa [h1, h2, h3, h4]

/-- The last of two timers that are armed is the live one. -/
theorem Armed.trans (h : Armed self mid) (h' : Armed mid after) : Armed self after := by
  obtain ⟨ha, hlt, stale, hstale, hout⟩ := h
  obtain ⟨ha', hlt', stale', hstale', hout'⟩ := h'
  refine ⟨ha'.trans ha, hlt.trans hlt', stale ++ [(mid.role.timer, mid.timerSeq)] ++ stale', ?_, ?_⟩
  · intro cb hcb
    simp only [List.mem_append, List.mem_singleton] at hcb
    rcases hcb with (hcb | rfl) | hcb
    · exact ⟨(hstale cb hcb).1, (hstale cb hcb).2.trans hlt'⟩
    · exact ⟨hlt, hlt'⟩
    · exact ⟨hlt.trans (hstale' cb hcb).1, (hstale' cb hcb).2⟩
  · rw [hout', hout]
    simp only [List.append_assoc]

/-- What an operation of a node that is alive may do to its timer. -/
def Timely (self after : RaftNode) : Prop := Kept self after ∨ Armed self after

namespace Timely

/-- A node that does nothing keeps its timer. -/
theorem refl (self : RaftNode) : Timely self self := Or.inl (.refl self)

/-- One part of an operation after the other. -/
theorem trans (h : Timely self mid) (h' : Timely mid after) : Timely self after := by
  rcases h with h | h <;> rcases h' with h' | h'
  · exact Or.inl (h.trans h')
  · exact Or.inr (h.armed h')
  · exact Or.inr (h.kept h')
  · exact Or.inr (h.trans h')

/-- The timer is kept in the second part. -/
theorem kept (h : Timely self mid) (h' : Kept mid after) : Timely self after := h.trans (Or.inl h')

/-- A timer is armed in the second part. -/
theorem armed (h : Timely self mid) (h' : Armed mid after) : Armed self after :=
  h.elim (fun h => h.armed h') fun h => h.trans h'

end Timely

/-- A timer is armed in the first part. -/
theorem Armed.timely (h : Armed self mid) (h' : Timely mid after) : Armed self after := h'.elim h.kept h.trans

/-! ## What arms a timer -/

/-- Who does not lead arms an election timer. -/
theorem armElectionTimer_armed (self : RaftNode) (hr : self.role ≠ .leader) : Armed self self.armElectionTimer := by
  refine ⟨rfl, Int.lt_succ _, [], nofun, ?_⟩
  have hkind : self.role.timer = .election := by
    cases h : self.role with
    | leader => exact absurd h hr
    | _ => rfl
  simp only [RaftNode.armElectionTimer, emit, schedules_append, List.append_nil, hkind]
  rfl

/-- A leader arms a heartbeat timer. -/
theorem armHeartbeatTimer_armed (self : RaftNode) (hr : self.role = .leader) : Armed self self.armHeartbeatTimer := by
  refine ⟨rfl, Int.lt_succ _, [], nofun, ?_⟩
  have hkind : self.role.timer = .heartbeat := by rw [hr]; rfl
  simp only [RaftNode.armHeartbeatTimer, emit, schedules_append, List.append_nil, hkind]
  rfl

/-- Who steps down arms an election timer. -/
theorem becomeFollower_armed (self : RaftNode) (t : Int) : Armed self (self.becomeFollower t) := by
  have hnone : schedules (steppedDown self t) = [] := by
    unfold steppedDown
    split <;> rfl
  rw [becomeFollower_eq]
  refine ⟨rfl, Int.lt_succ _, [], nofun, ?_⟩
  simp only [schedules_append, hnone, List.append_nil]
  rfl

/-- Who stands arms an election timer. -/
theorem campaigned_armed (self : RaftNode) : Armed self self.campaigned := by
  refine ⟨rfl, Int.lt_succ _, [], nofun, ?_⟩
  simp [campaigned, RaftNode.armElectionTimer, RaftNode.record, emit, schedules, Role.timer]

/-! ## What does not -/

/-- Other calls than timers keep the timer. -/
theorem Kept.of_calls (h : Calls self after) : Kept self after := by
  obtain ⟨es, rfl, hes⟩ := h
  refine ⟨rfl, rfl, rfl, ?_⟩
  have hnone : schedules es = [] := List.filterMap_eq_nil_iff.2 fun e he => by
    have hs := hes e he
    cases e with
    | schedule kind seq => exact hs.elim
    | _ => rfl
  simp only [schedules_append, hnone, List.append_nil]

/-- A message is no timer. -/
theorem Kept.send (self : RaftNode) (dst : NodeId) (msg : Message) : Kept self (self.send dst msg) :=
  ⟨rfl, rfl, rfl, by simp only [RaftNode.send, emit, schedules_append]; exact List.append_nil _⟩

/-- A record is no timer. -/
theorem Kept.record (self : RaftNode) (event : Event) : Kept self (self.record event) :=
  ⟨rfl, rfl, rfl, by simp only [RaftNode.record, emit, schedules_append]; exact List.append_nil _⟩

/-- A leader's message keeps its timer. -/
theorem Kept.sendAppendEntries (self : RaftNode) (hr : self.role = .leader) (peer : NodeId) :
    Ensures (self.sendAppendEntries peer) (Kept self) :=
  (Makes.sendAppendEntries_calls hr (Calls.refl self) peer).mono fun _ => Kept.of_calls

/-- A change of the log keeps the timer. -/
theorem Kept.of_onlyLog (h : OnlyLog self after) : Kept self after := by
  rw [h]
  exact ⟨rfl, rfl, rfl, rfl⟩

/-- Applying entries keeps the timer. -/
theorem Kept.of_justApplies (h : JustApplies self after) : Kept self after := by
  obtain ⟨honly, es, hout, hes⟩ := h
  have hnone : schedules es = [] := List.filterMap_eq_nil_iff.2 fun e he => by
    have hs := hes e he
    cases e with
    | schedule kind seq => exact hs.elim
    | _ => rfl
  refine ⟨by rw [honly], by rw [honly], by rw [honly], ?_⟩
  rw [hout, schedules_append, hnone, List.append_nil]

/-- Serving a read keeps the timer. -/
theorem Kept.tryServeRead (self : RaftNode) (i : Int) : Kept self (self.tryServeRead i) := by
  unfold RaftNode.tryServeRead
  split
  · exact .refl self
  · simp only
    split
    · refine ⟨rfl, rfl, rfl, ?_⟩
      simp only [RaftNode.record, emit, schedules_append]
      simp [schedules]
    · exact .refl self

/-- Messages to some peers keep the timer. -/
theorem Kept.requests (peers : List NodeId) (msg : NodeId → RaftNode → Message) (node : RaftNode) :
    Kept node (peers.foldl (fun node p => node.send p (msg p node)) node) := by
  induction peers generalizing node with
  | nil => exact .refl node
  | cons p peers ih => exact (Kept.send node p _).trans (ih (node.send p (msg p node)))

/-- The commit rule keeps the timer. -/
theorem Kept.advanceLoop (self : RaftNode) (n : Int) (k : ℕ) : Ensures (self.advanceLoop n k) (Kept self) := by
  induction k generalizing n with
  | zero => exact Ensures.pure (.refl self)
  | succ k ih =>
    unfold RaftNode.advanceLoop
    refine Ensures.bind (Ensures.trivial _) fun term _ => ?_
    split
    · exact Ensures.pure (.refl self)
    · simp only
      split
      · refine Ensures.bind (JustApplies.setCommitIndex self n) fun mid hm => ?_
        have hcommit := Kept.of_justApplies hm
        exact Ensures.pure hcommit
      · exact ih (n - 1)

/-! ## Elections -/

namespace Timely

/-- A node that may step down first. -/
theorem observe (self : RaftNode) (c : Prop) [Decidable c] (t : Int) : Timely self (if c then self.becomeFollower t else self) := by
  split
  · exact Or.inr (becomeFollower_armed self t)
  · exact refl self

/-- A new leader arms its heartbeat timer. -/
theorem becomeLeader (self : RaftNode) : Ensures self.becomeLeader (Armed self) := by
  unfold RaftNode.becomeLeader
  refine Ensures.bind (@Makes.broadcastHeartbeats_calls self.leading rfl) ?_
  rintro mid ⟨es, rfl, hes⟩
  have hkept := Kept.of_calls ⟨es, rfl, hes⟩
  have harmed := hkept.armed (armHeartbeatTimer_armed _ rfl)
  refine Ensures.pure ⟨harmed.1, harmed.2.1, ?_⟩
  obtain ⟨stale, hstale, hout⟩ := harmed.2.2
  refine ⟨stale, hstale, hout.trans ?_⟩
  have hlead : schedules self.leading.out = schedules self.out := by
    simp [leading, RaftNode.rebuildClientIndex, RaftNode.record, emit, schedules]
  rw [hlead]

/-- A candidate keeps its timer, or leads with a new one. -/
theorem maybeWin (self : RaftNode) : Ensures self.maybeWin (Timely self) := by
  unfold RaftNode.maybeWin
  simp only
  split
  · exact (becomeLeader self).mono fun _ h => Or.inr h
  · exact Ensures.pure (refl self)

/-- An election always ends with a new timer. -/
theorem startElection (self : RaftNode) (hr : self.role ≠ .leader) : Ensures self.startElection (Armed self) := by
  unfold RaftNode.startElection
  split
  · exact Ensures.pure (armElectionTimer_armed self hr)
  · refine Ensures.bind (Ensures.trivial _) fun lastLogTerm _ => ?_
    refine (maybeWin _).mono fun after h => ?_
    exact (campaigned_armed self).timely (trans (Or.inl (Kept.requests _ _ self.campaigned)) h)

/-! ## Messages -/

/-- A vote is granted with a new election timer, or the node keeps the one it has. -/
theorem onRequestVote (msg : RequestVote) (hleads : self.role = .leader → self.votedFor = some self.id)
    (hmsg : msg.candidate ≠ self.id) : Ensures (self.onRequestVote msg) (Timely self) := by
  have hobs := observe self (msg.term > self.term) msg.term
  have hmid : (if msg.term > self.term then self.becomeFollower msg.term else self).role = .leader →
      (if msg.term > self.term then self.becomeFollower msg.term else self).votedFor = some self.id := by
    split
    · rw [becomeFollower_eq]
      exact nofun
    · exact hleads
  unfold RaftNode.onRequestVote
  simp only
  generalize (if msg.term > self.term then self.becomeFollower msg.term else self) = mid at hobs hmid
  split
  · rename_i hg
    have hnot : mid.role ≠ .leader := by
      intro hr
      rw [hmid hr] at hg
      rcases hg.2 with h | h
      · cases h
      · exact hmsg (Option.some.inj h).symm
    refine Ensures.bind (Ensures.trivial _) fun t _ => ?_
    split
    · refine Ensures.pure (Timely.kept (Or.inr (hobs.armed ?_)) (Kept.send _ _ _))
      have hvote := Kept.record { mid with votedFor := some msg.candidate } (.vote msg.candidate mid.term)
      have hkept : Kept mid ({ mid with votedFor := some msg.candidate }.record (.vote msg.candidate mid.term)) := hvote
      exact hkept.armed (armElectionTimer_armed _ hnot)
    · exact Ensures.pure (hobs.kept (Kept.send _ _ _))
  · exact Ensures.pure (hobs.kept (Kept.send _ _ _))

/-- A candidate that is told of a vote keeps its timer, or leads with a new one, or steps down with a new one. -/
theorem onVoteReply (self : RaftNode) (msg : VoteReply) : Ensures (self.onVoteReply msg) (Timely self) := by
  unfold RaftNode.onVoteReply
  split
  · exact Ensures.pure (Or.inr (becomeFollower_armed self _))
  · split
    · exact Ensures.pure (refl self)
    · exact maybeWin { self with votes := insert msg.voter self.votes }

/-- A follower that hears of its leader. -/
theorem followed (hr : self.role ≠ .leader) (leader : NodeId) : Armed self ({ self with leaderId := some leader }).armElectionTimer :=
  armElectionTimer_armed { self with leaderId := some leader } hr

/-- A follower that hears from its leader has a new election timer. -/
theorem onAppendEntries (self : RaftNode) (msg : AppendEntries) : Ensures (self.onAppendEntries msg) (Timely self) := by
  have hobs := observe self (msg.term > self.term) msg.term
  unfold RaftNode.onAppendEntries
  simp only
  generalize (if msg.term > self.term then self.becomeFollower msg.term else self) = mid at hobs
  split
  · exact Ensures.pure (hobs.kept (Kept.send _ _ _))
  · have hobs' := hobs.trans (observe mid (mid.role ≠ .follower) msg.term)
    have hrole : (if mid.role ≠ .follower then mid.becomeFollower msg.term else mid).role ≠ .leader := by
      split
      · rw [becomeFollower_eq]
        exact nofun
      · rename_i hr
        rw [not_not.1 hr]
        exact nofun
    generalize (if mid.role ≠ .follower then mid.becomeFollower msg.term else mid) = low at hobs' hrole
    have hlow := hobs'.armed (followed hrole msg.leader)
    refine Ensures.bind (Ensures.trivial _) fun rest _ => Ensures.bind (Ensures.trivial _) fun bad _ => ?_
    split
    · exact Ensures.pure (Or.inr (hlow.kept (Kept.send _ _ _)))
    · refine Ensures.bind (OnlyLog.mergeEntries _ _ _) fun merged hm => ?_
      have hm := Kept.of_onlyLog hm
      split
      · exact Ensures.pure (Or.inr ((hlow.kept hm).kept (Kept.send _ _ _)))
      · split
        · exact Ensures.bind (JustApplies.setCommitIndex _ _) fun last hl =>
            Ensures.pure (Or.inr (((hlow.kept hm).kept (.of_justApplies hl)).kept (Kept.send _ _ _)))
        · exact Ensures.pure (Or.inr ((hlow.kept hm).kept (Kept.send _ _ _)))

/-- A leader that is answered keeps its timer, or steps down with a new one. -/
theorem onAppendReply (self : RaftNode) (msg : AppendReply) : Ensures (self.onAppendReply msg) (Timely self) := by
  unfold RaftNode.onAppendReply
  split
  · exact Ensures.pure (Or.inr (becomeFollower_armed self _))
  · split
    · exact Ensures.pure (refl self)
    · rename_i hg
      push Not at hg
      split
      · refine (Kept.advanceLoop _ _ _).mono fun after h => Or.inl ?_
        exact h
      · refine (Kept.sendAppendEntries { self with
          nextIndex := self.nextIndex.insert msg.follower (max 1 (self.nextIndex.getD msg.follower 1 - 1)) }
          hg.1 msg.follower).mono fun after h => Or.inl ?_
        exact h

/-- A follower that gets a snapshot has a new election timer. -/
theorem onInstallSnapshot (self : RaftNode) (msg : InstallSnapshot) : Ensures (self.onInstallSnapshot msg) (Timely self) := by
  unfold RaftNode.onInstallSnapshot
  simp only
  split
  · exact Ensures.pure (Or.inl (Kept.send _ _ _))
  · have hobs := observe self (msg.term > self.term ∨ self.role ≠ .follower) msg.term
    have hrole : (if msg.term > self.term ∨ self.role ≠ .follower then self.becomeFollower msg.term else self).role ≠ .leader := by
      split
      · rw [becomeFollower_eq]
        exact nofun
      · rename_i hr
        push Not at hr
        rw [hr.2]
        exact nofun
    generalize (if msg.term > self.term ∨ self.role ≠ .follower then self.becomeFollower msg.term else self) = mid at hobs hrole
    have hmid := hobs.armed (followed hrole msg.leader)
    split
    · exact Ensures.pure (Or.inr (hmid.kept (Kept.send _ _ _)))
    · refine Ensures.bind (Ensures.trivial _) fun keep _ => ?_
      generalize ({ mid with leaderId := some msg.leader } : RaftNode).armElectionTimer = node at hmid
      have hkept : Kept node (node.restored msg keep).rebuildConfig := ⟨rfl, rfl, rfl, rfl⟩
      have hinstalled : Kept node (node.installed msg keep) := hkept.trans (Kept.record _ _)
      exact Ensures.pure (Or.inr ((hmid.kept hinstalled).kept (Kept.send _ _ _)))

/-- A follower that confirms its leader has a new election timer. -/
theorem onReadHeartbeat (msg : ReadHeartbeat) (hmsg : self.role = .leader → msg.term ≠ self.term) :
    Timely self (self.onReadHeartbeat msg) := by
  unfold RaftNode.onReadHeartbeat
  simp only
  refine Timely.kept ?_ (Kept.send _ _ _)
  have hobs := observe self (msg.term > self.term) msg.term
  have hmid : (if msg.term > self.term then self.becomeFollower msg.term else self).role = .leader →
      ¬msg.term ≥ (if msg.term > self.term then self.becomeFollower msg.term else self).term := by
    split
    · rw [becomeFollower_eq]
      exact nofun
    · exact fun hr hge => hmsg hr (by omega)
  generalize (if msg.term > self.term then self.becomeFollower msg.term else self) = mid at hobs hmid
  split
  · rename_i hge
    exact Or.inr (hobs.armed (followed (fun hr => hmid hr hge) msg.leader))
  · exact hobs

/-- A confirmation keeps the timer, or the node steps down with a new one. -/
theorem onReadAck (self : RaftNode) (msg : ReadAck) : Timely self (self.onReadAck msg) := by
  unfold RaftNode.onReadAck
  split
  · exact Or.inr (becomeFollower_armed self _)
  · split
    · exact refl self
    · split
      · exact refl self
      · exact Or.inl (Kept.tryServeRead _ _)

/-! ## Clients, operators and timers -/

/-- A command keeps the leader's timer. -/
theorem clientCommand (self : RaftNode) (command : String) : Ensures (Prod.fst <$> self.clientCommand command) (Timely self) := by
  refine Ensures.map ?_
  unfold RaftNode.clientCommand
  split
  · exact Ensures.pure (refl self)
  · rename_i hg
    push Not at hg
    simp only
    split
    · exact Ensures.pure (Or.inl (Kept.record _ _))
    · obtain ⟨ci, heq⟩ := proposed_eq self command
      have hkept : Kept self (self.proposed command) := by
        rw [heq]
        refine ⟨rfl, rfl, rfl, ?_⟩
        simp [schedules]
      have hcalls := Makes.broadcastHeartbeats_calls (hkept.2.2.1.trans hg.1)
      refine Ensures.bind (Q := Calls (self.proposed command)) hcalls fun mid h => Ensures.pure (Or.inl ?_)
      exact hkept.trans (Kept.of_calls h)

/-- A proposed configuration keeps the leader's timer, unless the leader is not in it and steps down. -/
theorem changeConfig (self : RaftNode) (newVoters : List NodeId) :
    Ensures (Prod.fst <$> self.changeConfig newVoters) (Timely self) := by
  refine Ensures.map ?_
  unfold RaftNode.changeConfig
  simp only
  split
  · exact Ensures.pure (refl self)
  rename_i hg
  push Not at hg
  split
  · exact Ensures.pure (refl self)
  split
  · exact Ensures.pure (refl self)
  split
  · exact Ensures.pure (refl self)
  split
  · exact Ensures.pure (refl self)
  · have hkept : Kept self (self.reconfigured (sortedSet newVoters)) := by
      refine ⟨rfl, rfl, rfl, ?_⟩
      simp [reconfigured, withEntry, RaftNode.adoptConfig, RaftNode.record, emit, schedules]
    refine Ensures.bind (Q := Calls (self.reconfigured (sortedSet newVoters))) (Makes.broadcastHeartbeats_calls hg.1) fun mid h => ?_
    exact Ensures.pure (Or.inl (hkept.trans (Kept.of_calls h)))

/-- A read keeps the leader's timer. -/
theorem requestRead (self : RaftNode) (command : String) : Timely self (self.requestRead command).1 := by
  unfold RaftNode.requestRead
  split
  · exact refl self
  · simp only
    refine Or.inl (Kept.trans ?_ (Kept.tryServeRead _ _))
    refine Kept.trans ?_ (Kept.requests _ (fun p node => .readHeartbeat { term := node.term, leader := node.id, readId := self.nextReadId }) _)
    have hkept : Kept self { self with
        nextReadId := self.nextReadId + 1
        pendingReads := self.pendingReads.insert self.nextReadId ⟨command, self.commitIndex, {self.id}⟩ } := ⟨rfl, rfl, rfl, rfl⟩
    exact hkept.trans (Kept.record _ _)

/-- The election timer fires at a node that does not lead. -/
theorem onElectionTimeout (ha : self.alive = true) (hr : self.role ≠ .leader) :
    Ensures (self.onElectionTimeout self.timerSeq) (Armed self) := by
  unfold RaftNode.onElectionTimeout
  rw [if_neg (by simp [ha, hr])]
  exact (startElection (self.record (.timer self.term)) hr).mono fun _ h => (Kept.record _ _).armed h

/-- The heartbeat timer fires at a leader. -/
theorem onHeartbeat (ha : self.alive = true) (hr : self.role = .leader) :
    Ensures (self.onHeartbeat self.timerSeq) (Armed self) := by
  unfold RaftNode.onHeartbeat
  rw [if_neg (by simp [ha, hr])]
  refine Ensures.bind (Makes.broadcastHeartbeats_calls hr) fun mid h => Ensures.pure ?_
  have hkept := Kept.of_calls h
  exact hkept.armed (armHeartbeatTimer_armed _ (hkept.2.2.1.trans hr))

end Timely

/-- A callback that is out of date does nothing. -/
theorem stale_timer (self : RaftNode) {seq : Int} (h : seq ≠ self.timerSeq) :
    self.onElectionTimeout seq = .ok self ∧ self.onHeartbeat seq = .ok self := by
  unfold RaftNode.onElectionTimeout RaftNode.onHeartbeat
  rw [if_pos (Or.inr (Or.inl h)), if_pos (Or.inr (Or.inl h))]
  exact ⟨rfl, rfl⟩

end DeterministicRaft
