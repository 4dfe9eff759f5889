import DeterministicRaft.Commits

/-!
# Crash recovery

The state machine is always the snapshot's image with the applied live entries on top. So nothing committed is lost in a crash: what
is persisted gives the configuration back, and the same commit index the same state machine.
-/

namespace DeterministicRaft

open RaftNode Refinement

variable {I : Inputs} {self mid after : RaftNode} {index : Int} {entries : List Entry}

/-- The state machine that the snapshot holds. -/
def RaftNode.image (self : RaftNode) : KVStateMachine :=
  (self.snapshot.map fun s => { store := s.store, sessions := s.sessions }).getD {}

/-- The commands of the live entries up to an index. -/
def RaftNode.commandsTo (self : RaftNode) (index : Int) : List String :=
  (self.log.take (index - self.baseIndex).toNat).map (·.command)

/-- The state machine is the snapshot's image after the live entries that are applied. -/
def RaftNode.Replayed (self : RaftNode) : Prop := self.kv = self.image.applyAll (self.commandsTo self.lastApplied)

/-! ## The state machine at every moment -/

/-- Nothing is live below the base. -/
theorem RaftNode.commandsTo_base (self : RaftNode) : self.commandsTo self.baseIndex = [] := by
  simp [RaftNode.commandsTo]

/-- What a commit applies follows what is applied. -/
theorem RaftNode.Commits.commandsTo (hc : self.Commits index entries) (hb : self.baseIndex ≤ self.lastApplied)
    (ha : self.lastApplied ≤ index) : self.commandsTo index = self.commandsTo self.lastApplied ++ entries.map (·.command) := by
  have hlen := hc.length
  have hentries : entries = (self.log.drop (self.lastApplied - self.baseIndex).toNat).take entries.length := by
    refine List.ext_getElem? fun k => ?_
    by_cases hk : k < entries.length
    · have hread := hc.entries k _ (List.getElem?_eq_getElem hk)
      rw [List.getElem?_take_of_lt hk, List.getElem?_drop, List.getElem?_eq_getElem hk, ← getElem?_of_entryAt hread (by omega)]
      congr 1
      omega
    · rw [List.getElem?_eq_none (by omega), List.getElem?_eq_none (by rw [List.length_take]; omega)]
  have hsum : (index - self.baseIndex).toNat = (self.lastApplied - self.baseIndex).toNat + entries.length := by omega
  rw [RaftNode.commandsTo, hsum, List.take_add, List.map_append, ← hentries]
  rfl

namespace RaftNode.Replayed

/-- The applied entries, the snapshot and the state machine have not changed. -/
theorem of_eq (h : self.Replayed) (hk : after.kv = self.kv) (hs : after.snapshot = self.snapshot)
    (ha : after.lastApplied = self.lastApplied) (hb : after.baseIndex = self.baseIndex)
    (hl : after.log.take (self.lastApplied - self.baseIndex).toNat = self.log.take (self.lastApplied - self.baseIndex).toNat) :
    after.Replayed := by
  rw [Replayed, RaftNode.image, RaftNode.commandsTo, hk, hs, ha, hb, hl]
  exact h

/-- A log that has become longer. -/
theorem longer (hg : self.Grounded) (h : self.Replayed) {more : List Entry} (hk : after.kv = self.kv)
    (hs : after.snapshot = self.snapshot) (ha : after.lastApplied = self.lastApplied) (hb : after.baseIndex = self.baseIndex)
    (hl : after.log = self.log ++ more) : after.Replayed := by
  refine h.of_eq hk hs ha hb ?_
  have hlast := hg.last
  have happ := hg.applied
  rw [RaftNode.lastLogIndex] at hlast
  rw [hl, List.take_append_of_le_length (by omega)]

/-- A state machine that has gone back to the snapshot. -/
theorem restored (hk : self.kv = self.image) (ha : self.lastApplied = self.baseIndex) : self.Replayed := by
  rw [Replayed, ha, self.commandsTo_base, KVStateMachine.applyAll_nil]
  exact hk

/-- A move keeps the state machine the replay of what is applied, as long as AppendEntries do not contradict it. -/
theorem move (hag : I.agrees) (hm : Move I self after) (hg : self.Grounded) (h : self.Replayed) : after.Replayed := by
  have hla := hg.applied
  have hbc := hg.commit
  cases hm with
  | call | arm | armHeartbeat | campaign | countVote | lead | vote | follow | keepBooks | regress | start | resume =>
    exact h.of_eq rfl rfl rfl rfl rfl
  | stepDown term =>
    rw [becomeFollower_eq]
    exact h.of_eq rfl rfl rfl rfl rfl
  | propose command =>
    obtain ⟨ci, hp⟩ := proposed_eq self command
    rw [hp]
    exact h.longer hg rfl rfl rfl rfl rfl
  | reconfigure newVoters => exact h.longer hg rfl rfl rfl rfl rfl
  | truncate index t entry hr hb hl ht hne hs =>
    have hbase := hb hg.base
    have hcom := hs hag hg.base
    obtain ⟨-, -, h3, -, h5⟩ := Makes.truncateFrom_keeps self index
    have hstill := Still.of_onlyLog (.truncateFrom self index)
    refine h.of_eq hstill.kv hstill.snapshot hstill.lastApplied h3 ?_
    rw [h5, RaftNode.phys, delFrom_nat self.log (n := (index - self.baseIndex - 1).toNat) (by omega), List.take_take,
      min_eq_left (by omega)]
  | extend index entry =>
    obtain ⟨-, -, h3, -, h5⟩ := Makes.appendReplicated_keeps self index entry
    have hstill := Still.of_onlyLog (.appendReplicated self index entry)
    exact h.longer hg hstill.kv hstill.snapshot hstill.lastApplied h3 h5
  | commit index entries hq hc =>
    have hlen := hc.length
    have hlt := hc.lt
    have hcommands := hc.commandsTo (by omega) (by omega)
    obtain ⟨es, -, he⟩ := committed_eq self index entries
    rw [he]
    have hidx : self.lastApplied + entries.length = index := by omega
    show self.kv.applyAll _ = self.image.applyAll (self.commandsTo (self.lastApplied + entries.length))
    rw [hidx, hcommands, KVStateMachine.applyAll_append, ← h]
  | compact lastTerm snapVoters => exact restored rfl rfl
  | install msg keepTail => exact restored rfl rfl
  | pause =>
    rw [pause_fields]
    exact restored rfl hg.snapshot_lastIndex

theorem moved (hag : I.agrees) (hm : Moved I self after) (hg : self.Grounded) (h : self.Replayed) : after.Replayed := by
  induction hm with
  | refl => exact h
  | tail hms hm ih => exact ih.move hag hm (hg.moved hag hms)

theorem new (id : NodeId) (peerIds : List NodeId) (config : RaftConfig) (bugs : Bugs) (initialVoters : Option (List NodeId)) :
    (RaftNode.new id peerIds config bugs initialVoters).Replayed := rfl

end RaftNode.Replayed

/-! ## After the restart -/

/-- The restarted node has the log of the node before the crash, and has replayed it up to some index. -/
structure RaftNode.Recovers (node mid : RaftNode) : Prop where
  base : node.baseIndex ≤ mid.baseIndex
  applied : mid.baseIndex ≤ mid.lastApplied
  commit : mid.lastApplied = mid.commitIndex
  le : mid.commitIndex ≤ node.commitIndex
  last : mid.lastLogIndex = node.lastLogIndex
  live : ∀ i, mid.baseIndex < i → mid.entryAt i = node.entryAt i
  kv : mid.kv = node.image.applyAll (node.commandsTo mid.lastApplied)

/-- What is persisted is what it was, and so is the configuration. -/
theorem RaftNode.restart_fields (self : RaftNode) : self.pause.resume.term = self.term ∧ self.pause.resume.votedFor = self.votedFor ∧
    self.pause.resume.voters = self.rebuildConfig.voters ∧ self.pause.resume.log = self.log ∧
    self.pause.resume.baseIndex = self.baseIndex ∧ self.pause.resume.baseTerm = self.baseTerm ∧
    self.pause.resume.snapshot = self.snapshot := by
  rw [pause_fields]
  exact ⟨rfl, rfl, rfl, rfl, rfl, rfl, rfl⟩

namespace RaftNode.Recovers

/-- A restarted node has replayed the snapshot. -/
theorem restarted (hg : self.Grounded) : self.Recovers self.pause.resume := by
  rw [pause_fields, hg.snapshot_lastIndex]
  refine ⟨le_rfl, le_rfl, rfl, hg.commit, rfl, fun _ _ => rfl, ?_⟩
  show _ = self.image.applyAll (self.commandsTo self.baseIndex)
  rw [self.commandsTo_base]
  rfl

/-- The commit index is set again to an index that was committed: what is applied then was applied before the crash. -/
theorem setCommitIndex (hg : self.Grounded) (h : self.Recovers mid) (hi : index ≤ self.commitIndex) :
    ∃ after, mid.setCommitIndex index = .ok after ∧ self.Recovers after ∧ after.commitIndex = max mid.commitIndex index := by
  obtain ⟨hbase, happ, hcom, hle, hlast, hlive, hkv⟩ := h
  by_cases hc : mid.commitIndex < index
  · obtain ⟨entries, after, hcommits, hset, hfold⟩ := setCommitIndex_ok mid happ (by omega) hc (by have := hg.last; omega)
    obtain ⟨h1, h2, h3, -, -, h4, h5, h6, -⟩ := hcommits.settled happ (by omega) (by have := hg.last; omega) hfold
    have hsame : { self with commitIndex := mid.commitIndex, lastApplied := mid.lastApplied }.Commits index entries := by
      refine ⟨hc, hcommits.length, fun k e he => ?_⟩
      rw [← hcommits.entries k e he, hlive _ (by omega)]
      rfl
    have hcommands := hsame.commandsTo (hbase.trans happ) (hcom.trans_le hc.le)
    refine ⟨after, hset, ⟨by omega, by omega, by omega, by omega, h5.trans hlast, fun i hi => ?_, ?_⟩, by omega⟩
    · rw [h6 i hi, hlive i (by omega)]
    · rw [h3, hkv, h2, ← KVStateMachine.applyAll_append]
      exact congrArg _ hcommands.symm
  · refine ⟨mid, ?_, ⟨hbase, happ, hcom, hle, hlast, hlive, hkv⟩, by omega⟩
    rw [RaftNode.setCommitIndex, if_pos (not_lt.1 hc)]
    rfl

/-- The commit index is set again in some steps. -/
theorem steps (hg : self.Grounded) (h : self.Recovers mid) {indices : List Int} (hi : ∀ i ∈ indices, i ≤ self.commitIndex) :
    ∃ after, indices.foldlM RaftNode.setCommitIndex mid = .ok after ∧ self.Recovers after ∧
      ∀ i ∈ indices, i ≤ after.commitIndex := by
  induction indices using List.reverseRecOn with
  | nil => exact ⟨mid, rfl, h, nofun⟩
  | append_singleton indices i ih =>
    obtain ⟨low, hlow, hrec, hreach⟩ := ih fun j hj => hi j (List.mem_append_left _ hj)
    obtain ⟨after, hafter, hrec', hmax⟩ := hrec.setCommitIndex hg (hi i (by simp))
    refine ⟨after, ?_, hrec', fun j hj => ?_⟩
    · rw [List.foldlM_append, hlow]
      show [i].foldlM RaftNode.setCommitIndex low = _
      rw [List.foldlM_cons, hafter]
      rfl
    · rcases List.mem_append.1 hj with hj | hj
      · have := hreach j hj
        omega
      · rw [List.mem_singleton.1 hj]
        omega

end RaftNode.Recovers

/-- Crash recovery loses nothing committed: over any operations, a restarted node has its term, its vote, its voters and its log, and
when its commit index has been set again up to the one before the crash, in whatever steps and with compactions on the way, its state
machine, with the sessions, and the last applied index are those before the crash. -/
theorem crash_recovery (id : NodeId) (peerIds : List NodeId) (config : RaftConfig) (bugs : Bugs)
    (initialVoters : Option (List NodeId)) (hbugs : bugs.allowCommitRegression = false) (ops : List NodeOp) (self : RaftNode)
    (hops : Operated Inputs.orderly (RaftNode.new id peerIds config bugs initialVoters) ops self) :
    (self.pause.resume.term = self.term ∧ self.pause.resume.votedFor = self.votedFor ∧ self.pause.resume.voters = self.voters ∧
      self.pause.resume.log = self.log ∧ self.pause.resume.baseIndex = self.baseIndex ∧
      self.pause.resume.baseTerm = self.baseTerm ∧ self.pause.resume.snapshot = self.snapshot) ∧
    ∀ indices : List Int, (∀ i ∈ indices, i ≤ self.commitIndex) → self.commitIndex ∈ indices →
      ∃ after, indices.foldlM RaftNode.setCommitIndex self.pause.resume = .ok after ∧ after.kv = self.kv ∧
        after.lastApplied = self.lastApplied ∧ after.commitIndex = self.commitIndex ∧
        after.lastLogIndex = self.lastLogIndex ∧ ∀ i, after.baseIndex < i → after.entryAt i = self.entryAt i := by
  have hmoved : Moved Inputs.orderly _ self := hops.moved ⟨trivial, trivial, trivial⟩
  have hnew := RaftNode.Grounded.new id peerIds config bugs initialVoters hbugs
  have hg : self.Grounded := hnew.moved trivial hmoved
  have hd : self.Derived := (RaftNode.Derived.new id peerIds config bugs initialVoters).moved trivial (fun _ h => h) hmoved hnew
  have hr : self.Replayed := (RaftNode.Replayed.new id peerIds config bugs initialVoters).moved trivial hmoved hnew
  refine ⟨?_, fun indices hle hmem => ?_⟩
  · have hrebuilt : self.rebuildConfig.Derived := Derived.rebuildConfig (fun _ => hg.base) fun s hs => (hg.snapEnds s hs).le
    have hvoters : self.rebuildConfig.voters = self.voters := hrebuilt.voters.trans hd.voters.symm
    rw [← hvoters]
    exact self.restart_fields
  · obtain ⟨after, hafter, hrec, hreach⟩ := (Recovers.restarted hg).steps hg hle
    have hcom : after.commitIndex = self.commitIndex := le_antisymm hrec.le (hreach _ hmem)
    have happ : after.lastApplied = self.lastApplied := hrec.commit.trans (hcom.trans hg.applied.symm)
    refine ⟨after, hafter, ?_, happ, hcom, hrec.last, hrec.live⟩
    rw [hrec.kv, happ]
    exact hr.symm

/-- A server that compacts two entries at a time. -/
def foldingNode : RaftNode := RaftNode.new 1 [2, 3] { snapshotThreshold := 2 } NO_BUGS none

/-- A leader's entries, of which a follower may commit the first two. -/
def threeWrites : AppendEntries :=
  { term := 1, leader := 2, prevIndex := 0, prevTerm := 0, leaderCommit := 2,
    entries := [⟨1, "1:1:put:x:1:"⟩, ⟨1, "1:1:put:x:1:"⟩, ⟨1, "2:1:cas:x:2:1"⟩] }

/-- The leader lets the follower commit the third entry as well. -/
def lastWrite : AppendEntries := { term := 1, leader := 2, prevIndex := 3, prevTerm := 1, leaderCommit := 3, entries := [] }

/-- The server after both messages: the first commit is compacted, the second is in the log. -/
def foldedNode : RaftNode := foldingNode.afterOps [.handle (.appendEntries threeWrites), .handle (.appendEntries lastWrite)]

theorem crash_recovery_folded :
    (foldedNode.pause.resume.term = foldedNode.term ∧ foldedNode.pause.resume.votedFor = foldedNode.votedFor ∧
      foldedNode.pause.resume.voters = foldedNode.voters ∧ foldedNode.pause.resume.log = foldedNode.log ∧
      foldedNode.pause.resume.baseIndex = foldedNode.baseIndex ∧ foldedNode.pause.resume.baseTerm = foldedNode.baseTerm ∧
      foldedNode.pause.resume.snapshot = foldedNode.snapshot) ∧ foldedNode.baseIndex = 2 ∧
    ∃ after, [2, 3].foldlM RaftNode.setCommitIndex foldedNode.pause.resume = .ok after ∧ after.kv = foldedNode.kv ∧
      after.lastApplied = foldedNode.lastApplied ∧ after.commitIndex = foldedNode.commitIndex ∧
      after.lastLogIndex = foldedNode.lastLogIndex ∧ ∀ i, after.baseIndex < i → after.entryAt i = foldedNode.entryAt i := by
  have hfirst : foldingNode.perform (.handle (.appendEntries threeWrites)) =
      .ok (foldingNode.afterOps [.handle (.appendEntries threeWrites)]) := perform_afterOps (by decide +kernel)
  have hboth : [NodeOp.handle (.appendEntries threeWrites), .handle (.appendEntries lastWrite)].foldlM perform foldingNode =
      .ok foldedNode := foldlM_afterOps (by decide +kernel)
  rw [List.foldlM_cons, hfirst] at hboth
  have hops : Operated Inputs.orderly foldingNode [.handle (.appendEntries threeWrites), .handle (.appendEntries lastWrite)]
      foldedNode := by
    refine .cons ⟨fun _ _ k e _ hb hcom => ?_, fun _ _ => trivial⟩ hfirst
      (.cons ⟨fun _ _ k e he => ?_, fun _ _ => trivial⟩ hboth (.nil _))
    · have h0 : foldingNode.baseIndex = 0 := rfl
      have h1 : foldingNode.commitIndex = 0 := rfl
      omega
    · simp [lastWrite] at he
  obtain ⟨hkept, hagain⟩ := crash_recovery 1 [2, 3] { snapshotThreshold := 2 } NO_BUGS none rfl _ foldedNode hops
  have hcom : foldedNode.commitIndex = 3 := by decide +kernel
  refine ⟨hkept, by decide +kernel, hagain [2, 3] ?_ ?_⟩
  · rw [hcom]
    decide
  · rw [hcom]
    decide

end DeterministicRaft
