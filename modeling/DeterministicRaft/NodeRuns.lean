import DeterministicRaft.Moves

/-!
# The operations of a node are moves

Each operation, branch by branch, as a sequence of moves; then all operations as one type, and any sequence of them.
-/

namespace DeterministicRaft

open Refinement RaftNode

variable {I : Inputs} {self mid after : RaftNode}

/-! ## Calls -/

/-- What a call says of the node does not depend on the calls made before. -/
theorem Effect.sound_out (e : Effect) (out : List Effect) (h : e.Sound self) : e.Sound { self with out } := by
  cases e with
  | send dst msg => cases msg <;> exact h
  | _ => exact h

/-- The node after has made more calls than the node before, all of them sound, and nothing else differs. -/
def Calls (self after : RaftNode) : Prop := ∃ es, after = { self with out := self.out ++ es } ∧ ∀ e ∈ es, e.Sound self

namespace Calls

/-- No calls. -/
theorem refl (self : RaftNode) : Calls self self := ⟨[], by simp, by simp⟩

/-- One more call. -/
theorem andEmit (h : Calls self after) {e : Effect} (he : e.Sound self) : Calls self (after.emit e) := by
  obtain ⟨es, rfl, hes⟩ := h
  refine ⟨es ++ [e], by simp [emit], ?_⟩
  intro x hx
  rcases List.mem_append.1 hx with hx | hx
  · exact hes x hx
  · rw [List.mem_singleton.1 hx]
    exact he

/-- A record. -/
theorem record (h : Calls self after) (event : Event) (he : event.Aside) : Calls self (after.record event) :=
  h.andEmit (e := .record event) he

/-- An entry is applied. -/
theorem onApply (h : Calls self after) (command result : String) : Calls self (after.emit (.onApply command result)) :=
  h.andEmit (e := .onApply command result) trivial

/-- A message that is true of the node. -/
theorem send (h : Calls self after) (dst : NodeId) (msg : Message) (hs : (Effect.send dst msg).Sound self) :
    Calls self (after.send dst msg) := h.andEmit hs

/-- A node that only calls makes a move, or none. -/
theorem moved (h : Calls self after) : Moved I self after := by
  obtain ⟨es, rfl, hes⟩ := h
  induction es using List.reverseRecOn with
  | nil => simpa using Relation.ReflTransGen.refl
  | append_singleton es e ih =>
    have hcall := Move.call (I := I) { self with out := self.out ++ es } e
      (Effect.sound_out e _ (hes e (List.mem_append_right _ (List.mem_singleton_self e))))
    have hmoved := ih fun x hx => hes x (List.mem_append_left _ hx)
    simpa [emit] using hmoved.tail hcall

end Calls

namespace Makes

/-- A function that does nothing. -/
theorem stay (self : RaftNode) : Makes I self (.ok self) := Ensures.pure Relation.ReflTransGen.refl

/-- A function that makes one move. -/
theorem move (h : Move I self after) : Makes I self (.ok after) := Ensures.pure (Relation.ReflTransGen.single h)

/-- Some moves, and then an operation. -/
theorem next {x : Except PyError RaftNode} (h : Moved I self mid) (hx : Makes I mid x) : Makes I self x :=
  hx.mono fun _ ha => h.trans ha

/-- One operation, and then another. -/
theorem bind {x : Except PyError RaftNode} {f : RaftNode → Except PyError RaftNode} (h : Makes I self x)
    (hf : ∀ mid, Makes I mid (f mid)) : Makes I self (x >>= f) :=
  Ensures.bind h fun mid hm => Makes.next hm (hf mid)

/-! ## Replication -/

/-- A leader's message to a peer is true of it. -/
theorem sendAppendEntries_calls (hr : self.role = .leader) (h : Calls self mid) (peer : NodeId) :
    Ensures (mid.sendAppendEntries peer) (Calls self) := by
  obtain ⟨es, rfl, hes⟩ := h
  have hcalls : Calls self { self with out := self.out ++ es } := ⟨es, rfl, hes⟩
  unfold RaftNode.sendAppendEntries
  refine Ensures.bind (Ensures.trivial _) fun next _ => ?_
  simp only
  split
  · refine Ensures.pure ?_
    unfold RaftNode.sendInstallSnapshot
    simp only
    split
    · exact hcalls
    · rename_i snap hs
      exact hcalls.send _ _ ⟨hr, rfl, rfl, hs⟩
  · rename_i hnext
    refine Ensures.bind (Q := fun t => self.termAt (next - 1) = .ok t) (fun t ht => ht) fun t ht => Ensures.pure ?_
    exact hcalls.send _ _ ⟨hr, rfl, rfl, by simpa using hnext, ht, rfl, rfl⟩

/-- The heartbeats of a leader are true of it. -/
theorem broadcastHeartbeats_calls (hr : self.role = .leader) : Ensures self.broadcastHeartbeats (Calls self) :=
  Ensures.foldlM (fun _ p hm => sendAppendEntries_calls hr hm p) (Calls.refl self)

/-- A leader sends its heartbeats. -/
theorem broadcastHeartbeats (hr : self.role = .leader) : Makes I self self.broadcastHeartbeats :=
  (broadcastHeartbeats_calls hr).mono fun _ ha => ha.moved

/-! ## Commits and compaction -/

/-- The entries the loop applies are those of the log. -/
theorem applyLoop_eq (self : RaftNode) (n : Nat) : Ensures (self.applyLoop n) fun after =>
    ∃ entries : List Entry, entries.length = n ∧
      (∀ (k : ℕ) (e : Entry), entries[k]? = some e → self.entryAt (self.lastApplied + 1 + k) = .ok e) ∧
      after = entries.foldl applyEntry self := by
  induction n generalizing self with
  | zero => exact Ensures.pure ⟨[], rfl, by simp, rfl⟩
  | succ n ih =>
    unfold RaftNode.applyLoop
    refine Ensures.bind (Q := fun e => self.entryAt (self.lastApplied + 1) = .ok e) (fun e he => he) fun e he => ?_
    refine (ih (self.applyEntry e)).mono ?_
    rintro after ⟨entries, hlen, hent, rfl⟩
    refine ⟨e :: entries, by rw [List.length_cons, hlen], ?_, rfl⟩
    intro k x hx
    cases k with
    | zero =>
      cases Option.some.inj hx
      simpa using he
    | succ k =>
      have hk := hent k x hx
      have hidx : (self.applyEntry e).lastApplied + 1 + (k : Int) = self.lastApplied + 1 + ((k + 1 : ℕ) : Int) := by
        show self.lastApplied + 1 + 1 + (k : Int) = _
        omega
      rw [hidx] at hk
      exact hk

/-- Some of the books of a leader change. -/
theorem books (self : RaftNode) (nextIndex matchIndex : Dict NodeId Int) (committedThisTerm : Bool) :
    Moved I self { self with nextIndex, matchIndex, committedThisTerm } :=
  Relation.ReflTransGen.single (.keepBooks self nextIndex matchIndex self.pendingReads self.nextReadId committedThisTerm)

/-! ## Elections -/

/-- A candidate wins with a majority, or goes on. -/
theorem maybeWin (ha : self.alive = true) : Makes I self self.maybeWin := by
  unfold RaftNode.maybeWin
  simp only
  split
  · rename_i hwin
    unfold RaftNode.becomeLeader
    refine Ensures.bind (@broadcastHeartbeats_calls self.leading rfl) ?_
    rintro after ⟨es, rfl, hes⟩
    exact move (.lead self es ha hwin.1 hwin.2 hes)
  · exact stay self

/-- Who does not lead stands. -/
theorem startElection (ha : self.alive = true) (hr : self.role ≠ .leader) : Makes I self self.startElection := by
  unfold RaftNode.startElection
  split
  · exact move (.arm self ha hr)
  · rename_i hv
    refine Ensures.bind (Ensures.trivial _) fun lastLogTerm _ => ?_
    have hsends : ∀ (ps : List NodeId) (req : RequestVote) (mid : RaftNode), req.term = self.campaigned.term →
        req.candidate = self.id → Calls self.campaigned mid →
        Calls self.campaigned (ps.foldl (fun mid p => mid.send p (.requestVote req)) mid) := by
      intro ps req
      induction ps with
      | nil => exact fun _ _ _ h => h
      | cons p ps ih => exact fun mid ht hc h => ih _ ht hc (h.send _ _ ⟨rfl, ht, hc⟩)
    have hcalls := hsends self.campaigned.otherVoters
      { term := self.campaigned.term, candidate := self.id, lastLogIndex := self.campaigned.lastLogIndex, lastLogTerm }
      self.campaigned rfl rfl (Calls.refl _)
    have hmoved : Moved I self _ :=
      (Relation.ReflTransGen.single (Move.campaign self ha hr (not_not.1 hv))).trans hcalls.moved
    refine Makes.next hmoved (maybeWin ?_)
    obtain ⟨es, hes, -⟩ := hcalls
    rw [hes]
    exact ha

/-- A live election timer makes the node stand. -/
theorem onElectionTimeout (self : RaftNode) (seq : Int) : Makes I self (self.onElectionTimeout seq) := by
  unfold RaftNode.onElectionTimeout
  split
  · exact stay self
  · rename_i hg
    push Not at hg
    have ha : self.alive = true := by simpa using hg.1
    refine Makes.next ((Calls.refl self).record (.timer self.term) trivial).moved ?_
    exact startElection ha hg.2.2

/-- A live heartbeat timer makes the leader go on. -/
theorem onHeartbeat (self : RaftNode) (seq : Int) : Makes I self (self.onHeartbeat seq) := by
  unfold RaftNode.onHeartbeat
  split
  · exact stay self
  · rename_i hg
    push Not at hg
    refine Ensures.bind (broadcastHeartbeats_calls hg.2.2) ?_
    rintro after ⟨es, rfl, hes⟩
    refine Makes.next (Calls.moved ⟨es, rfl, hes⟩) (move (.armHeartbeat _ ?_ hg.2.2))
    simpa using hg.1

/-! ## Clients and operators -/

/-- A leader appends a command that it is given. -/
theorem clientCommand (self : RaftNode) (command : String)
    (hc : self.role = .leader → self.alive = true → I.submits command) :
    Makes I self (Prod.fst <$> self.clientCommand command) := by
  refine Ensures.map ?_
  unfold RaftNode.clientCommand
  split
  · exact Ensures.pure Relation.ReflTransGen.refl
  · rename_i hg
    push Not at hg
    have ha : self.alive = true := by simpa using hg.2
    simp only
    split
    · exact Ensures.pure ((Calls.refl self).record (.dedup command) trivial).moved
    · refine Ensures.bind (Q := Moved I self) ?_ fun mid h => Ensures.pure h
      have hpropose := Move.propose self command ha hg.1 (hc hg.1 ha)
      have hrole : (self.proposed command).role = .leader := by
        unfold RaftNode.proposed
        simp only
        split <;> exact hg.1
      exact Makes.next (Relation.ReflTransGen.single hpropose) (broadcastHeartbeats hrole)

/-- A proposal is refused, and nothing changes; or a leader adopts it: it differs by one server, the leader is in it, and the last
configuration is committed. -/
theorem changeConfig_cases {newVoters : List NodeId} {accepted : Bool} (h : self.changeConfig newVoters = .ok (after, accepted)) :
    (accepted = false ∧ after = self) ∨
    (accepted = true ∧ self.role = .leader ∧ self.alive = true ∧
      (symmDiff (sortedSet newVoters).toFinset self.voters.toFinset).card = 1 ∧ self.id ∈ sortedSet newVoters ∧
      self.configIndex ≤ self.commitIndex ∧ Calls (self.reconfigured (sortedSet newVoters)) after) := by
  have hrefuse : ∀ {x : Except PyError (RaftNode × Bool)}, x = .ok (self, false) → x = .ok (after, accepted) →
      accepted = false ∧ after = self := by
    rintro x rfl hx
    cases hx
    exact ⟨rfl, rfl⟩
  unfold RaftNode.changeConfig at h
  simp only at h
  split at h
  · exact Or.inl (hrefuse rfl h)
  rename_i hg
  push Not at hg
  split at h
  · exact Or.inl (hrefuse rfl h)
  rename_i hd
  split at h
  · exact Or.inl (hrefuse rfl h)
  rename_i hs
  split at h
  · exact Or.inl (hrefuse rfl h)
  rename_i hc
  split at h
  · exact Or.inl (hrefuse rfl h)
  · obtain ⟨mid, hmid, hret⟩ := bind_eq_ok.1 h
    cases hret
    have hrole : (self.reconfigured (sortedSet newVoters)).role = .leader := hg.1
    have ha : self.alive = true := by simpa using hg.2
    exact Or.inr ⟨rfl, hg.1, ha, not_not.1 hd, not_not.1 hs, not_lt.1 hc, broadcastHeartbeats_calls hrole after hmid⟩

/-- A leader proposes a configuration that it is given. -/
theorem changeConfig (self : RaftNode) (newVoters : List NodeId) (hp : I.proposes newVoters) :
    Makes I self (Prod.fst <$> self.changeConfig newVoters) := by
  refine Ensures.map ?_
  rintro ⟨after, accepted⟩ h
  rcases changeConfig_cases h with ⟨-, rfl⟩ | ⟨-, hr, ha, hd, hs, hc, hcalls⟩
  · exact Relation.ReflTransGen.refl
  · exact (Relation.ReflTransGen.single (Move.reconfigure self newVoters ha hr hp hd hs hc)).trans hcalls.moved

/-! ## Reads -/

/-- What a leader waits for changes. -/
theorem reads (self : RaftNode) (pendingReads : Dict Int PendingRead) (nextReadId : Int) :
    Moved I self { self with pendingReads, nextReadId } :=
  Relation.ReflTransGen.single (.keepBooks self self.nextIndex self.matchIndex pendingReads nextReadId self.committedThisTerm)

/-- A read is served, or waits. -/
theorem tryServeRead (self : RaftNode) (readId : Int) : Moved I self (self.tryServeRead readId) := by
  unfold RaftNode.tryServeRead
  split
  · exact Relation.ReflTransGen.refl
  · simp only
    split
    · exact (reads self _ self.nextReadId).trans (((Calls.refl _).record (.readserved _ _) trivial).onApply _ _).moved
    · exact Relation.ReflTransGen.refl

/-- A leader notes a read and asks for confirmation. -/
theorem requestRead (self : RaftNode) (command : String) : Moved I self (self.requestRead command).1 := by
  unfold RaftNode.requestRead
  split
  · exact Relation.ReflTransGen.refl
  · rename_i hg
    push Not at hg
    simp only
    have hsends : ∀ (ps : List NodeId) (node mid : RaftNode) (id : Int), node.role = .leader → Calls node mid →
        Calls node (ps.foldl (fun mid p => mid.send p (.readHeartbeat { term := mid.term, leader := mid.id, readId := id })) mid) := by
      intro ps node
      induction ps with
      | nil => exact fun _ _ _ h => h
      | cons p ps ih =>
        rintro mid id hr h
        refine ih _ id hr (h.send _ _ ?_)
        obtain ⟨es, rfl, -⟩ := h
        exact ⟨hr, rfl, rfl⟩
    refine Relation.ReflTransGen.trans ?_ (tryServeRead _ _)
    refine Relation.ReflTransGen.trans
      (reads self (self.pendingReads.insert self.nextReadId ⟨command, self.commitIndex, {self.id}⟩) (self.nextReadId + 1)) ?_
    refine (hsends _ _ _ _ ?_ ((Calls.refl _).record (.read _ _) trivial)).moved
    exact hg.1

/-! ## Messages -/

/-- The node has stepped down, or armed a timer: its log is what it was. -/
structure Keeps (node mid : RaftNode) : Prop where
  alive : mid.alive = node.alive
  log : mid.log = node.log
  baseIndex : mid.baseIndex = node.baseIndex
  baseTerm : mid.baseTerm = node.baseTerm
  commitIndex : mid.commitIndex = node.commitIndex

/-- A node that becomes a follower of a term, or is as it was. -/
theorem observe (ha : self.alive = true) (p : Prop) [Decidable p] (term : Int) (hp : p → self.term ≤ term) :
    Moved I self (if p then self.becomeFollower term else self) ∧
      Keeps self (if p then self.becomeFollower term else self) := by
  split
  · rename_i h
    refine ⟨Relation.ReflTransGen.single (.stepDown self term ha (hp h)), ?_⟩
    rw [becomeFollower_eq]
    exact ⟨rfl, rfl, rfl, rfl, rfl⟩
  · exact ⟨Relation.ReflTransGen.refl, rfl, rfl, rfl, rfl, rfl⟩

/-- A follower that has heard from a leader. -/
theorem followed (ha : self.alive = true) (hr : self.role = .follower) (leader : NodeId) :
    Moved I self ({ self with leaderId := some leader }).armElectionTimer :=
  Relation.ReflTransGen.single (.follow self leader ha fun _ => by simp [hr])

/-- The node answers a candidate. -/
theorem onRequestVote (ha : self.alive = true) (msg : RequestVote) (hi : I.asks msg) : Makes I self (self.onRequestVote msg) := by
  obtain ⟨hobs, hkeeps⟩ := observe (I := I) ha (msg.term > self.term) msg.term (by omega)
  unfold RaftNode.onRequestVote
  simp only
  generalize (if msg.term > self.term then self.becomeFollower msg.term else self) = mid at hobs hkeeps
  have hrefused : Moved I self
      (mid.send msg.candidate (.voteReply { term := mid.term, voter := mid.id, granted := false })) :=
    hobs.trans ((Calls.refl mid).send msg.candidate (.voteReply ⟨mid.term, mid.id, false⟩) ⟨rfl, rfl, rfl⟩).moved
  split
  · rename_i hg
    refine Ensures.bind (Q := fun t => mid.termAt mid.lastLogIndex = .ok t) (fun t ht => ht) fun t ht => ?_
    split
    · rename_i hlog
      exact Ensures.pure (hobs.tail (Move.vote mid msg hi (hkeeps.alive.trans ha) hg.1 hg.2 ⟨t, ht, by tauto⟩))
    · exact Ensures.pure hrefused
  · exact Ensures.pure hrefused

/-- The candidate counts a vote. -/
theorem onVoteReply (ha : self.alive = true) (msg : VoteReply) : Makes I self (self.onVoteReply msg) := by
  unfold RaftNode.onVoteReply
  split
  · rename_i hlt
    exact move (.stepDown self _ ha (by omega))
  · split
    · exact stay self
    · rename_i hg
      push Not at hg
      exact Makes.next (Relation.ReflTransGen.single (.countVote self msg.voter hg.1)) (maybeWin ha)

/-! ### AppendEntries -/

/-- Where a term can be read above the base, there is an entry. -/
theorem le_last_of_termAt {i t : Int} (h : self.termAt i = .ok t) (hb : self.baseIndex < i) : i ≤ self.lastLogIndex := by
  rw [RaftNode.termAt, if_neg (not_le.2 hb)] at h
  by_contra hlt
  rw [RaftNode.lastLogIndex] at hlt
  have hphys : ¬ self.phys i < 0 := by
    rw [RaftNode.phys]
    omega
  have hnone : self.log[(self.phys i).toNat]? = none := by
    rw [RaftNode.phys]
    exact List.getElem?_eq_none (by omega)
  simp [pyIndex, hphys, hnone] at h

/-- What a cut leaves alone. -/
theorem truncateFrom_keeps (self : RaftNode) (index : Int) : (self.truncateFrom index).role = self.role ∧
    (self.truncateFrom index).alive = self.alive ∧ (self.truncateFrom index).baseIndex = self.baseIndex ∧
    (self.truncateFrom index).commitIndex = self.commitIndex ∧
    (self.truncateFrom index).log = delFrom self.log (self.phys index) := by
  unfold RaftNode.truncateFrom RaftNode.rebuildConfig RaftNode.adoptConfig
  simp only
  split <;> exact ⟨rfl, rfl, rfl, rfl, rfl⟩

/-- What an entry that is taken over leaves alone. -/
theorem appendReplicated_keeps (self : RaftNode) (index : Int) (entry : Entry) :
    (self.appendReplicated index entry).role = self.role ∧ (self.appendReplicated index entry).alive = self.alive ∧
    (self.appendReplicated index entry).baseIndex = self.baseIndex ∧
    (self.appendReplicated index entry).commitIndex = self.commitIndex ∧
    (self.appendReplicated index entry).log = self.log ++ [entry] := by
  unfold RaftNode.appendReplicated RaftNode.adoptConfig
  simp only
  split <;> exact ⟨rfl, rfl, rfl, rfl, rfl⟩

/-- A log that was cut at an index ends before it. -/
theorem truncateFrom_last {index : Int} (hb : self.baseIndex < index) (hl : index ≤ self.lastLogIndex) :
    (self.truncateFrom index).lastLogIndex = index - 1 := by
  obtain ⟨-, -, h3, -, h5⟩ := truncateFrom_keeps self index
  rw [RaftNode.lastLogIndex, h3, h5, RaftNode.phys, delFrom_nat self.log (n := (index - self.baseIndex - 1).toNat) (by omega),
    List.length_take]
  rw [RaftNode.lastLogIndex] at hl
  omega

/-- An entry that is taken over comes last. -/
theorem appendReplicated_last (self : RaftNode) (index : Int) (entry : Entry) :
    (self.appendReplicated index entry).lastLogIndex = self.lastLogIndex + 1 := by
  obtain ⟨-, -, h3, -, h5⟩ := appendReplicated_keeps self index entry
  rw [RaftNode.lastLogIndex, h3, h5, List.length_append, List.length_singleton, RaftNode.lastLogIndex]
  omega

/-- The entries that follow logical index `index` have the terms of the node's entries up to its commit index. -/
def AgreeFrom (self : RaftNode) (index : Int) (entries : List Entry) : Prop :=
  ∀ (k : ℕ) (e : Entry), entries[k]? = some e → self.baseIndex < index + 1 + k → index + 1 + k ≤ self.commitIndex →
    self.termAt (index + 1 + k) = .ok e.term

/-- The loop of `_on_append_entries` cuts above the commit index at most, and appends. -/
theorem mergeEntries (self : RaftNode) (index : Int) (entries : List Entry) (hr : self.role = .follower)
    (hi : 0 ≤ self.baseIndex → entries = [] ∨ (self.baseIndex ≤ index ∧ index ≤ self.lastLogIndex))
    (hagree : I.agrees → 0 ≤ self.baseIndex → AgreeFrom self index entries) (hall : ∀ e ∈ entries, I.replicates e) :
    Makes I self (self.mergeEntries index entries) := by
  induction entries generalizing self index with
  | nil => exact stay self
  | cons entry entries ih =>
    have hin : 0 ≤ self.baseIndex → self.baseIndex ≤ index ∧ index ≤ self.lastLogIndex :=
      fun h0 => (hi h0).resolve_left (by simp)
    have hentry : I.replicates entry := hall entry List.mem_cons_self
    have hrest : ∀ e ∈ entries, I.replicates e := fun e he => hall e (List.mem_cons_of_mem _ he)
    unfold RaftNode.mergeEntries
    simp only
    split
    · rename_i hle
      refine Ensures.bind (Q := fun t => self.termAt (index + 1) = .ok t) (fun t ht => ht) fun t ht => ?_
      split
      · rename_i hne
        have hs : I.agrees → 0 ≤ self.baseIndex → self.commitIndex < index + 1 := by
          intro ha h0
          by_contra hcom
          have hsame := hagree ha h0 0 entry rfl (by have := hin h0; omega) (by omega)
          have hok : Except.ok t = (Except.ok entry.term : Except PyError Int) := by
            rw [← ht, ← hsame]
            simp
          exact hne (Except.ok.inj hok)
        obtain ⟨t1, t2, t3, t4, -⟩ := truncateFrom_keeps self (index + 1)
        obtain ⟨a1, a2, a3, a4, -⟩ := appendReplicated_keeps (self.truncateFrom (index + 1)) (index + 1) entry
        have hcut := Move.truncate (I := I) self (index + 1) t entry hr (fun h0 => by have := hin h0; omega) hle ht hne hs
        have hlast : 0 ≤ self.baseIndex → (self.truncateFrom (index + 1)).lastLogIndex = index := fun h0 => by
          rw [truncateFrom_last (by have := hin h0; omega) hle]
          omega
        have hext := Move.extend (I := I) (self.truncateFrom (index + 1)) (index + 1) entry hentry (t1.trans hr)
          (fun h0 => by rw [hlast (t3 ▸ h0)])
        refine next ((Relation.ReflTransGen.single hcut).tail hext) (ih _ _ (a1.trans (t1.trans hr)) ?_ ?_ hrest)
        · intro h0
          rw [a3, t3] at h0
          rw [a3, t3, appendReplicated_last, hlast h0]
          have := hin h0
          omega
        · intro ha h0 k e _ _ hcom
          rw [a3, t3] at h0
          rw [a4, t4] at hcom
          have := hs ha h0
          omega
      · refine ih self _ hr (fun h0 => Or.inr ?_) ?_ hrest
        · have := hin h0
          omega
        · intro ha h0 k e hk hb hcom
          have hsame := hagree ha h0 (k + 1) e hk (by push_cast; omega) (by push_cast; omega)
          have hidx : index + 1 + ((k + 1 : ℕ) : Int) = index + 1 + 1 + k := by omega
          rwa [hidx] at hsame
    · rename_i hgt
      obtain ⟨a1, a2, a3, a4, -⟩ := appendReplicated_keeps self (index + 1) entry
      have hext := Move.extend (I := I) self (index + 1) entry hentry hr (fun h0 => by have := hin h0; omega)
      refine next (Relation.ReflTransGen.single hext) (ih _ _ (a1.trans hr) ?_ ?_ hrest)
      · intro h0
        rw [a3] at h0
        rw [a3, appendReplicated_last]
        have := hin h0
        omega
      · intro ha h0 k e hk hb hcom
        rw [a3] at h0 hb
        rw [a4] at hcom
        have hsame := hagree ha h0 (k + 1) e hk (by push_cast; omega) (by push_cast; omega)
        have := le_last_of_termAt hsame (by push_cast; omega)
        push_cast at this
        omega

/-- What is left of a message that reaches below the base: entries of the message from the base on, at the same indices. -/
theorem skipCovered_rest (self : RaftNode) (msg : AppendEntries) : Ensures (self.skipCovered msg) fun rest =>
    (rest.2.2 = [] ∨ self.baseIndex ≤ rest.1) ∧
    ∃ n : ℕ, rest.1 = msg.prevIndex + n ∧ rest.2.2 = msg.entries.drop n := by
  unfold RaftNode.skipCovered
  simp only
  split
  · rename_i hlt
    split
    · refine Ensures.pure ⟨Or.inl (List.eq_nil_of_length_eq_zero ?_), 0, by simp, by simp⟩
      simp only
      omega
    · refine Ensures.bind (Ensures.trivial _) fun entry _ => Ensures.pure ⟨?_, ?_⟩
      · simp only
        rw [sliceFrom_nat msg.entries (n := (min (msg.entries.length : Int) (self.baseIndex - msg.prevIndex)).toNat) (by omega),
          List.drop_eq_nil_iff]
        omega
      · refine ⟨(min (msg.entries.length : Int) (self.baseIndex - msg.prevIndex)).toNat, ?_, ?_⟩
        · simp only
          omega
        · exact sliceFrom_nat msg.entries (by omega)
  · rename_i hge
    exact Ensures.pure ⟨Or.inr (not_lt.1 hge), 0, by simp, by simp⟩

/-- A consistent message starts inside the log. -/
theorem inconsistent_last {prevIndex prevTerm : Int} (h : self.inconsistent prevIndex prevTerm = .ok false)
    (h0 : 0 ≤ self.baseIndex) (hb : self.baseIndex ≤ prevIndex) : prevIndex ≤ self.lastLogIndex := by
  unfold RaftNode.inconsistent at h
  split at h
  · have hfalse : ¬ prevIndex ≥ max 1 self.baseIndex := of_decide_eq_false (Except.ok.inj h)
    have hlast : self.baseIndex ≤ self.lastLogIndex := by
      rw [RaftNode.lastLogIndex]
      omega
    omega
  · rename_i hge
    exact not_lt.1 hge

/-- What a node knows of a message once it follows its sender. -/
theorem agreeFrom_rest {msg : AppendEntries} (h : msg.Agrees self) (hk : Keeps self mid) {rest : Int × Int × List Entry} {n : ℕ}
    (hn : rest.1 = msg.prevIndex + n) (he : rest.2.2 = msg.entries.drop n) : AgreeFrom mid rest.1 rest.2.2 := by
  intro k e hke hb hcom
  rw [he, List.getElem?_drop] at hke
  have hidx : msg.prevIndex + 1 + ((n + k : ℕ) : Int) = rest.1 + 1 + k := by
    rw [hn]
    omega
  have hsame := h (n + k) e hke (by rw [hidx, ← hk.baseIndex]; exact hb) (by rw [hidx, ← hk.commitIndex]; exact hcom)
  rw [hidx] at hsame
  simpa only [RaftNode.termAt, RaftNode.phys, hk.log, hk.baseIndex, hk.baseTerm] using hsame

end Makes

/-! ### Commits and compaction -/

/-- The node keeps its books of the replication and makes calls, and nothing else. -/
def Aside (self after : RaftNode) : Prop :=
  ∃ nextIndex matchIndex committedThisTerm es, after = { self with
    nextIndex, matchIndex, committedThisTerm, out := self.out ++ es } ∧ ∀ e ∈ es, e.Sound self

namespace Aside

/-- The leader's books as they are. -/
theorem refl (self : RaftNode) : Aside self self := ⟨self.nextIndex, self.matchIndex, self.committedThisTerm, [], by simp, by simp⟩

/-- A node that changes its books and calls makes moves. -/
theorem moved (h : Aside self after) : Moved I self after := by
  obtain ⟨nextIndex, matchIndex, committedThisTerm, es, rfl, hes⟩ := h
  refine (Makes.books self nextIndex matchIndex committedThisTerm).trans (Calls.moved ⟨es, rfl, ?_⟩)
  intro e he
  cases e with
  | send dst msg => cases msg <;> exact hes _ he
  | _ => exact hes _ he

end Aside

/-- The node compacts its log, or not; then it keeps its books and makes calls. -/
def Compacting (self after : RaftNode) : Prop :=
  Aside self after ∨ ∃ lastTerm snapVoters, self.Compacts lastTerm snapVoters ∧ Aside (self.compacted lastTerm snapVoters) after

/-- The node makes quiet moves; then it commits entries and may compact its log, or not; then it keeps its books and makes calls. -/
def CommitsOnce (I : Inputs) (self after : RaftNode) : Prop :=
  ∃ low, Moved I.quiet self low ∧
    (Aside low after ∨ ∃ index entries, low.Commits index entries ∧ Compacting (low.committed index entries) after)

/-- Books and calls after it. -/
theorem Compacting.aside (h : Compacting self mid) (ha : ∀ low, Aside low mid → Aside low after) : Compacting self after := by
  rcases h with hl | ⟨t, vs, hc, hl⟩
  · exact Or.inl (ha _ hl)
  · exact Or.inr ⟨t, vs, hc, ha _ hl⟩

/-- A node that may compact makes moves. -/
theorem Compacting.moved (hq : I.compacts) (h : Compacting self after) : Moved I self after := by
  rcases h with hl | ⟨t, vs, hc, hl⟩
  · exact hl.moved
  · exact (Relation.ReflTransGen.single (Move.compact self t vs hq hc)).trans hl.moved

namespace CommitsOnce

/-- A function that commits nothing. -/
theorem of_moved (h : Moved I.quiet self after) : CommitsOnce I self after := ⟨after, h, Or.inl (Aside.refl after)⟩

/-- What comes before the commit. -/
theorem trans (h : Moved I.quiet self mid) (h' : CommitsOnce I mid after) : CommitsOnce I self after := by
  obtain ⟨low, hm, ha⟩ := h'
  exact ⟨low, h.trans hm, ha⟩

/-- Books and calls after it. -/
theorem aside (h : CommitsOnce I self mid) (ha : ∀ low, Aside low mid → Aside low after) : CommitsOnce I self after := by
  obtain ⟨low, hm, hl | ⟨index, entries, hc, hl⟩⟩ := h
  · exact ⟨low, hm, Or.inl (ha low hl)⟩
  · exact ⟨low, hm, Or.inr ⟨index, entries, hc, hl.aside ha⟩⟩

/-- A function that commits once makes moves. -/
theorem moved (hc : I.commits) (hq : I.compacts) (h : CommitsOnce I self after) : Moved I self after := by
  obtain ⟨low, hm, hl | ⟨index, entries, hcom, hl⟩⟩ := h
  · exact hm.of_quiet.trans hl.moved
  · exact (hm.of_quiet.tail (.commit low index entries hc hcom)).trans (hl.moved hq)

/-- A node answers a leader. -/
theorem reply {leader : NodeId} (success : Bool) (matchIndex : Int) (h : CommitsOnce I self after) :
    Ensures (.ok (after.send leader (.appendReply { term := after.term, follower := after.id, success, matchIndex })) :
      Except PyError RaftNode) (CommitsOnce I self) := by
  refine Ensures.pure (h.aside ?_)
  rintro low ⟨n, m, c, es, rfl, hes⟩
  refine ⟨n, m, c, es ++ [.send leader (.appendReply { term := low.term, follower := low.id, success, matchIndex })],
    by simp [RaftNode.send, emit], ?_⟩
  intro e he
  rcases List.mem_append.1 he with he | he
  · exact hes e he
  · rw [List.mem_singleton.1 he]
    exact ⟨rfl, rfl⟩

/-- The node compacts, or not. -/
theorem maybeCompact (self : RaftNode) : Ensures self.maybeCompact (Compacting self) := by
  unfold RaftNode.maybeCompact
  simp only
  split
  · exact Ensures.pure (Or.inl (Aside.refl self))
  · rename_i hg
    push Not at hg
    refine Ensures.bind (Q := fun t => self.termAt self.lastApplied = .ok t) (fun t ht => ht) fun t ht => ?_
    refine Ensures.bind (Q := fun v => self.configAt self.lastApplied = .ok v) (fun v hv => hv) fun v hv => ?_
    exact Ensures.pure (Or.inr ⟨t, v, ⟨hg.1, hg.2, ht, hv⟩, Aside.refl _⟩)

/-- The node commits up to the index, or not. -/
theorem setCommitIndex (self : RaftNode) (index : Int) : Ensures (self.setCommitIndex index) (CommitsOnce I self) := by
  unfold RaftNode.setCommitIndex
  split
  · exact Ensures.pure (of_moved Relation.ReflTransGen.refl)
  · rename_i hlt
    refine Ensures.bind (Makes.applyLoop_eq _ _) ?_
    rintro mid ⟨entries, hlen, hent, rfl⟩
    refine (maybeCompact _).mono fun after ha => ⟨self, Relation.ReflTransGen.refl, Or.inr ⟨index, entries, ?_, ha⟩⟩
    exact ⟨not_le.1 hlt, hlen, hent⟩

/-- The leader commits once, or not. -/
theorem advanceLoop (self : RaftNode) (n : Int) (k : Nat) : Ensures (self.advanceLoop n k) (CommitsOnce I self) := by
  induction k generalizing n with
  | zero => exact Ensures.pure (of_moved Relation.ReflTransGen.refl)
  | succ k ih =>
    unfold RaftNode.advanceLoop
    refine Ensures.bind (Ensures.trivial _) fun term _ => ?_
    split
    · exact Ensures.pure (of_moved Relation.ReflTransGen.refl)
    · simp only
      split
      · refine Ensures.bind (setCommitIndex self n) fun mid hm => Ensures.pure (hm.aside ?_)
        rintro low ⟨nextIndex, matchIndex, c, es, rfl, hes⟩
        exact ⟨nextIndex, matchIndex, true, es, rfl, hes⟩
      · exact ih (n - 1)

/-- The follower merges the entries and commits once, or refuses. -/
theorem onAppendEntries (ha : self.alive = true) (msg : AppendEntries)
    (hagree : I.agrees → self.term ≤ msg.term → msg.Agrees self) (hall : ∀ e ∈ msg.entries, I.replicates e) :
    Ensures (self.onAppendEntries msg) (CommitsOnce I self) := by
  obtain ⟨hobs, hkeeps⟩ := Makes.observe (I := I.quiet) ha (msg.term > self.term) msg.term (by omega)
  have hterm : ¬ msg.term < (if msg.term > self.term then self.becomeFollower msg.term else self).term → self.term ≤ msg.term := by
    split <;> omega
  unfold RaftNode.onAppendEntries
  simp only
  generalize (if msg.term > self.term then self.becomeFollower msg.term else self) = mid at hobs hkeeps hterm
  split
  · exact reply false 0 (of_moved hobs)
  · rename_i hge
    obtain ⟨hobs', hkeeps'⟩ := Makes.observe (I := I.quiet) (hkeeps.alive.trans ha) (mid.role ≠ .follower) msg.term fun _ => not_lt.1 hge
    have hfollower : (if mid.role ≠ .follower then mid.becomeFollower msg.term else mid).role = .follower := by
      split
      · rw [becomeFollower_eq]
      · rename_i hr
        exact not_not.1 hr
    generalize (if mid.role ≠ .follower then mid.becomeFollower msg.term else mid) = low at hobs' hkeeps' hfollower
    have hlow : Moved I.quiet self ({ low with leaderId := some msg.leader }).armElectionTimer :=
      (hobs.trans hobs').trans (Makes.followed (hkeeps'.alive.trans (hkeeps.alive.trans ha)) hfollower msg.leader)
    have hsame : Makes.Keeps self ({ low with leaderId := some msg.leader }).armElectionTimer :=
      ⟨hkeeps'.alive.trans hkeeps.alive, hkeeps'.log.trans hkeeps.log, hkeeps'.baseIndex.trans hkeeps.baseIndex,
        hkeeps'.baseTerm.trans hkeeps.baseTerm, hkeeps'.commitIndex.trans hkeeps.commitIndex⟩
    have hrole : ({ low with leaderId := some msg.leader }).armElectionTimer.role = .follower := hfollower
    generalize ({ low with leaderId := some msg.leader } : RaftNode).armElectionTimer = node at hlow hsame hrole
    refine Ensures.bind (Makes.skipCovered_rest node msg) fun rest hrest => ?_
    refine Ensures.bind (Q := fun bad => node.inconsistent rest.1 rest.2.1 = .ok bad) (fun bad hbad => hbad) fun bad hbad => ?_
    split
    · exact reply false 0 (of_moved hlow)
    · rename_i hgood
      have hfalse : bad = false := by simpa using hgood
      rw [hfalse] at hbad
      obtain ⟨hbase, n, hn, he⟩ := hrest
      have hmerge : Makes I.quiet self (node.mergeEntries rest.1 rest.2.2) := by
        refine Makes.next hlow (Makes.mergeEntries node rest.1 rest.2.2 hrole ?_ ?_ ?_)
        · intro h0
          rcases hbase with hbase | hbase
          · exact Or.inl hbase
          · exact Or.inr ⟨hbase, Makes.inconsistent_last hbad h0 hbase⟩
        · exact fun ha' _ => Makes.agreeFrom_rest (hagree ha' (hterm hge)) hsame hn he
        · exact fun e hmem => hall e (List.mem_of_mem_drop (he ▸ hmem))
      refine Ensures.bind hmerge fun merged hm => ?_
      split
      · rename_i hbug
        exact reply true _ (of_moved (hm.tail (.regress merged _ hbug)))
      · split
        · refine Ensures.bind (setCommitIndex (I := I) merged _) fun last hl => ?_
          exact reply true _ (trans hm hl)
        · exact reply true _ (of_moved hm)

/-- The leader takes the answer in and commits once, or writes again. -/
theorem onAppendReply (ha : self.alive = true) (msg : AppendReply) :
    Ensures (self.onAppendReply msg) (CommitsOnce I self) := by
  unfold RaftNode.onAppendReply
  split
  · rename_i hlt
    exact Ensures.pure (of_moved (Relation.ReflTransGen.single (.stepDown self _ ha (by omega))))
  · split
    · exact Ensures.pure (of_moved Relation.ReflTransGen.refl)
    · rename_i hg
      push Not at hg
      split
      · exact (advanceLoop _ _ _).mono fun _ h => trans (Makes.books self _ _ self.committedThisTerm) h
      · have hbooks := Makes.books (I := I.quiet) self
          (self.nextIndex.insert msg.follower (max 1 (self.nextIndex.getD msg.follower 1 - 1))) self.matchIndex
          self.committedThisTerm
        refine (Makes.sendAppendEntries_calls ?_ (Calls.refl _) msg.follower).mono fun _ h => of_moved (hbooks.trans h.moved)
        exact hg.1

end CommitsOnce

namespace Makes

/-! ### The other messages -/

/-- A node answers a leader. -/
theorem reply (node : RaftNode) {leader : NodeId} (success : Bool) (matchIndex : Int) (h : Moved I self node) : Makes I self
    (.ok (node.send leader (.appendReply { term := node.term, follower := node.id, success, matchIndex }))) := by
  refine Ensures.pure (h.trans (Calls.moved ?_))
  exact (Calls.refl node).send _ _ ⟨rfl, rfl⟩

/-- The follower installs a snapshot, or refuses. -/
theorem onInstallSnapshot (ha : self.alive = true) (msg : InstallSnapshot) (hq : I.installs msg) : Makes I self (self.onInstallSnapshot msg) := by
  unfold RaftNode.onInstallSnapshot
  split
  · exact reply self false 0 Relation.ReflTransGen.refl
  · rename_i hge
    obtain ⟨hobs, hkeeps⟩ := observe (I := I) ha (msg.term > self.term ∨ self.role ≠ .follower) msg.term
      fun _ => not_lt.1 hge
    have hfollower :
        (if msg.term > self.term ∨ self.role ≠ .follower then self.becomeFollower msg.term else self).role = .follower := by
      split
      · rw [becomeFollower_eq]
      · rename_i hr
        push Not at hr
        exact hr.2
    simp only
    generalize (if msg.term > self.term ∨ self.role ≠ .follower then self.becomeFollower msg.term else self) = low
      at hobs hkeeps hfollower
    have hlow : Moved I self ({ low with leaderId := some msg.leader }).armElectionTimer :=
      hobs.trans (followed (hkeeps.alive.trans ha) hfollower msg.leader)
    have hrole : ({ low with leaderId := some msg.leader }).armElectionTimer.role = .follower := hfollower
    generalize ({ low with leaderId := some msg.leader } : RaftNode).armElectionTimer = node at hlow hrole
    split
    · exact reply node true node.commitIndex hlow
    · rename_i hgt
      refine Ensures.bind (Q := fun keep => node.keepsTail msg = .ok keep) (fun keep hkeep => hkeep) fun keepTail hkeep => ?_
      exact reply _ true msg.lastIndex (hlow.tail (.install node msg keepTail hq hrole hkeep (not_le.1 hgt)))

/-- The node confirms a leader. -/
theorem onReadHeartbeat (ha : self.alive = true) (msg : ReadHeartbeat)
    (hp : I.polite → self.role = .leader → msg.term ≠ self.term) : Moved I self (self.onReadHeartbeat msg) := by
  have hack : ∀ node : RaftNode,
      Calls node (node.send msg.leader (.readAck { term := node.term, follower := node.id, readId := msg.readId })) := by
    intro node
    exact (Calls.refl node).send _ _ ⟨rfl, rfl⟩
  unfold RaftNode.onReadHeartbeat
  simp only
  refine Relation.ReflTransGen.trans ?_ (hack _).moved
  by_cases hlt : msg.term > self.term
  · have hdown := Move.stepDown (I := I) self msg.term ha (by omega)
    rw [if_pos hlt]
    split
    · refine (Relation.ReflTransGen.single hdown).trans (followed ?_ ?_ msg.leader) <;> rw [becomeFollower_eq]
      exact ha
    · exact Relation.ReflTransGen.single hdown
  · rw [if_neg hlt]
    split
    · rename_i hge
      exact Relation.ReflTransGen.single (.follow self msg.leader ha fun h hr => hp h hr (by omega))
    · exact Relation.ReflTransGen.refl

/-- The leader counts a confirmation. -/
theorem onReadAck (ha : self.alive = true) (msg : ReadAck) : Moved I self (self.onReadAck msg) := by
  unfold RaftNode.onReadAck
  split
  · rename_i hlt
    exact Relation.ReflTransGen.single (.stepDown self _ ha (by omega))
  · split
    · exact Relation.ReflTransGen.refl
    · split
      · exact Relation.ReflTransGen.refl
      · exact (reads self _ self.nextReadId).trans (tryServeRead _ _)

end Makes

/-! ## All operations -/

/-- What can be done to a node: its callbacks and the calls of the cluster. -/
inductive NodeOp where
  | start
  | handle (msg : Message)
  | electionTimeout (seq : Int)
  | heartbeat (seq : Int)
  | clientCommand (command : String)
  | changeConfig (newVoters : List NodeId)
  | requestRead (command : String)
  | pause
  | resume
  deriving DecidableEq

/-- The node after an operation, or what the operation raises. -/
def RaftNode.perform (self : RaftNode) : NodeOp → Except PyError RaftNode
  | .start => .ok self.start
  | .handle msg => self.handle msg
  | .electionTimeout seq => self.onElectionTimeout seq
  | .heartbeat seq => self.onHeartbeat seq
  | .clientCommand command => Prod.fst <$> self.clientCommand command
  | .changeConfig newVoters => Prod.fst <$> self.changeConfig newVoters
  | .requestRead command => .ok (self.requestRead command).1
  | .pause => .ok self.pause
  | .resume => .ok self.resume

/-- The operation is one of those that are called. -/
def NodeOp.Admissible (I : Inputs) (self : RaftNode) : NodeOp → Prop
  | .handle (.appendEntries msg) => (I.agrees → self.term ≤ msg.term → msg.Agrees self) ∧ ∀ e ∈ msg.entries, I.replicates e
  | .handle (.requestVote msg) => I.asks msg
  | .handle (.installSnapshot msg) => I.installs msg
  | .handle (.readHeartbeat msg) => I.polite → self.role = .leader → msg.term ≠ self.term
  | .clientCommand command => self.role = .leader → self.alive = true → I.submits command
  | .changeConfig newVoters => I.proposes newVoters
  | _ => True

/-- What an operation does: it commits and compacts at most once, or it installs a snapshot, or it is a crash. -/
theorem perform_cases (self : RaftNode) (op : NodeOp) (h : op.Admissible I self) : Ensures (self.perform op) fun after =>
    CommitsOnce I self after ∨ Moved I.installing self after ∨ (op = .pause ∧ after = self.pause) := by
  have hmoves : ∀ {x : Except PyError RaftNode}, Makes I.quiet self x → Ensures x fun after =>
      CommitsOnce I self after ∨ Moved I.installing self after ∨ (op = .pause ∧ after = self.pause) :=
    fun hx => hx.mono fun _ ha => Or.inl (CommitsOnce.of_moved ha)
  cases op with
  | start => exact hmoves (Makes.move (.start self))
  | handle msg =>
    unfold RaftNode.perform RaftNode.handle
    simp only
    split
    · exact hmoves (Makes.stay self)
    · rename_i hg
      have ha : self.alive = true := by simpa using hg
      cases msg with
      | requestVote msg => exact hmoves (Makes.onRequestVote ha msg h)
      | voteReply msg => exact hmoves (Makes.onVoteReply ha msg)
      | appendEntries msg => exact (CommitsOnce.onAppendEntries ha msg h.1 h.2).mono fun _ ha => Or.inl ha
      | appendReply msg => exact (CommitsOnce.onAppendReply ha msg).mono fun _ ha => Or.inl ha
      | installSnapshot msg =>
        exact (Makes.onInstallSnapshot (I := I.installing) ha msg h).mono fun _ ha => Or.inr (Or.inl ha)
      | readHeartbeat msg => exact hmoves (Ensures.pure (Makes.onReadHeartbeat ha msg h))
      | readAck msg => exact hmoves (Ensures.pure (Makes.onReadAck ha msg))
  | electionTimeout seq => exact hmoves (Makes.onElectionTimeout self seq)
  | heartbeat seq => exact hmoves (Makes.onHeartbeat self seq)
  | clientCommand command => exact hmoves (Makes.clientCommand self command h)
  | changeConfig newVoters => exact hmoves (Makes.changeConfig self newVoters h)
  | requestRead command => exact hmoves (Ensures.pure (Makes.requestRead self command))
  | pause => exact Ensures.pure (Or.inr (Or.inr ⟨rfl, rfl⟩))
  | resume => exact hmoves (Makes.move (.resume self))

/-- The node may commit, compact its log and crash. -/
structure Inputs.Full (J : Inputs) : Prop where
  commits : J.commits
  compacts : J.compacts
  crashes : J.crashes

/-- Every operation is a sequence of moves. -/
theorem perform_makes (hI : I.Full) (self : RaftNode) (op : NodeOp) (h : op.Admissible I self) :
    Makes I self (self.perform op) := by
  refine (perform_cases self op h).mono ?_
  rintro after (ha | ha | ⟨-, rfl⟩)
  · exact ha.moved hI.commits hI.compacts
  · exact ha.of_installing
  · exact Relation.ReflTransGen.single (.pause self hI.crashes)

/-- Some operations, one after the other, none of which raises. -/
inductive Operated (I : Inputs) : RaftNode → List NodeOp → RaftNode → Prop
  | nil (self : RaftNode) : Operated I self [] self
  | cons {self mid after : RaftNode} {op : NodeOp} {ops : List NodeOp} (ha : op.Admissible I self)
      (hp : self.perform op = .ok mid) (hs : Operated I mid ops after) : Operated I self (op :: ops) after

/-- A sequence of operations is a sequence of moves. -/
theorem Operated.moved {ops : List NodeOp} (hI : I.Full) (h : Operated I self ops after) : Moved I self after := by
  induction h with
  | nil self => exact Relation.ReflTransGen.refl
  | cons ha hp _ ih => exact (perform_makes hI _ _ ha _ hp).trans ih

/-! ## Any operations -/

/-- The inputs of any operations. -/
def Inputs.any : Inputs where
  agrees := False
  polite := False
  submits _ := True
  proposes _ := True
  replicates _ := True

/-- Without conditions on what comes in every operation is admissible. -/
theorem NodeOp.admissible_any (op : NodeOp) (self : RaftNode) : op.Admissible .any self := by
  cases op with
  | handle msg =>
    cases msg with
    | appendEntries msg => exact ⟨fun h => h.elim, fun _ _ => trivial⟩
    | readHeartbeat msg => exact fun h => h.elim
    | _ => trivial
  | clientCommand command => exact fun _ _ => trivial
  | _ => trivial

namespace RaftNode

/-- The node after operations that do not raise. -/
def afterOps (self : RaftNode) (ops : List NodeOp) : RaftNode := ((ops.foldlM perform self).toOption).getD self

/-- Operations of which none raises. -/
theorem foldlM_afterOps {ops : List NodeOp} (h : (ops.foldlM perform self).toOption.isSome = true) : ops.foldlM perform self = .ok (self.afterOps ops) := by
  rw [afterOps]
  cases hp : ops.foldlM perform self with
  | error e => rw [hp] at h; cases h
  | ok after => rfl

/-- One operation that does not raise. -/
theorem perform_afterOps {op : NodeOp} (h : (self.perform op).toOption.isSome = true) :
    self.perform op = .ok (self.afterOps [op]) := by
  have hone : [op].foldlM perform self = self.perform op := by
    rw [List.foldlM_cons]
    cases self.perform op <;> rfl
  rw [← hone] at h ⊢
  exact foldlM_afterOps h

end RaftNode

end DeterministicRaft
