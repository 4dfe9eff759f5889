import DeterministicRaft.Node

/-!
# The operations of a Raft node (`node.py`)

Every operation takes the node and gives the node after it, or what it raises. The order of the assignments and of the calls
of the injected callables is that of the source.
-/

namespace DeterministicRaft
namespace RaftNode

/-! ## Timers -/

/-- `_arm_election_timer`. -/
def armElectionTimer (self : RaftNode) : RaftNode :=
  let self := { self with timerSeq := self.timerSeq + 1 }
  self.emit (.schedule .election self.timerSeq)

/-- `_arm_heartbeat_timer`. -/
def armHeartbeatTimer (self : RaftNode) : RaftNode :=
  let self := { self with timerSeq := self.timerSeq + 1 }
  self.emit (.schedule .heartbeat self.timerSeq)

/-! ## Lifecycle -/

/-- `start`. -/
def start (self : RaftNode) : RaftNode := self.armElectionTimer

/-- Discard volatile state: the state machine comes back from the persisted snapshot, the configuration from the persisted log
and snapshot. -/
def resetVolatile (self : RaftNode) : RaftNode :=
  let self := { self with role := .follower, kv := {} }
  let self := match self.snapshot with
    | some snapshot =>
      { self with
        kv := self.kv.restore snapshot.store snapshot.sessions
        commitIndex := snapshot.lastIndex
        lastApplied := snapshot.lastIndex }
    | none => { self with commitIndex := 0, lastApplied := 0 }
  let self := { self with
    applied := []
    leaderId := none
    nextIndex := ∅
    matchIndex := ∅
    votes := ∅
    clientIndex := ∅
    pendingReads := ∅
    committedThisTerm := false }
  let self := self.rebuildConfig
  { self with timerSeq := self.timerSeq + 1, incarnation := self.incarnation + 1 }

/-- A crash: all volatile state is lost. -/
def pause (self : RaftNode) : RaftNode := { self with alive := false }.resetVolatile

/-- Restart from stable storage, as a follower. -/
def resume (self : RaftNode) : RaftNode := { self with alive := true }.armElectionTimer

/-! ## Replication -/

/-- `_send_install_snapshot`. -/
def sendInstallSnapshot (self : RaftNode) (peer : NodeId) : RaftNode :=
  match self.snapshot with
  | none => self
  | some snap => self.send peer (.installSnapshot {
      term := self.term, leader := self.id, lastIndex := snap.lastIndex, lastTerm := snap.lastTerm,
      store := snap.store, sessions := snap.sessions, voters := snap.voters })

/-- `_send_append_entries`: the entries from the next index on, or the snapshot if these are compacted. -/
def sendAppendEntries (self : RaftNode) (peer : NodeId) : Except PyError RaftNode := do
  let next ← self.nextIndex.item peer
  let prev := next - 1
  if prev < self.baseIndex then
    return self.sendInstallSnapshot peer
  else
    let entries := self.logSuffix (prev + 1)
    let prevTerm ← self.termAt prev
    return self.send peer (.appendEntries {
      term := self.term, leader := self.id, prevIndex := prev, prevTerm, entries, leaderCommit := self.commitIndex })

/-- `_broadcast_heartbeats`. -/
def broadcastHeartbeats (self : RaftNode) : Except PyError RaftNode :=
  self.otherVoters.foldlM sendAppendEntries self

/-! ## Commits and compaction -/

/-- Fold the applied prefix into a snapshot once enough entries pile up above the base. -/
def maybeCompact (self : RaftNode) : Except PyError RaftNode := do
  let threshold := self.config.snapshotThreshold
  if threshold ≤ 0 ∨ self.lastApplied - self.baseIndex < threshold then
    return self
  else
    let self := self.emit (.beforeCompact self.view)
    let upto := self.lastApplied
    let lastTerm ← self.termAt upto
    let (store, sessions) := self.kv.capture
    let snapVoters ← self.configAt upto
    let self := { self with
      log := sliceFrom self.log (upto - self.baseIndex)
      applied := sliceFrom self.applied (upto - self.baseIndex)
      baseIndex := upto
      baseTerm := lastTerm
      snapshot := some { lastIndex := upto, lastTerm, store, sessions, voters := snapVoters }
      logVersion := self.logVersion + 1 }
    return self.record (.snapshot upto lastTerm)

/-- The `while` loop of `_set_commit_index`: apply the next `n` entries. -/
def applyLoop (self : RaftNode) : Nat → Except PyError RaftNode
  | 0 => .ok self
  | n + 1 => do
    let self := { self with lastApplied := self.lastApplied + 1 }
    let entry ← self.entryAt self.lastApplied
    let self := { self with applied := self.applied ++ [entry.command] }
    let (kv, result) := self.kv.apply (Command.decode entry.command)
    let self := { self with kv }
    let self := self.record (.apply self.lastApplied entry)
    applyLoop (self.emit (.onApply entry.command result)) n

/-- `_set_commit_index`: it never goes back. -/
def setCommitIndex (self : RaftNode) (index : Int) : Except PyError RaftNode := do
  if index ≤ self.commitIndex then
    return self
  else
    let self := { self with commitIndex := index }
    let self := self.record (.commit index)
    let self ← self.applyLoop (self.commitIndex - self.lastApplied).toNat
    self.maybeCompact

/-- The loop of `_advance_commit`: `k` candidates from `n` downwards. -/
def advanceLoop (self : RaftNode) (n : Int) : Nat → Except PyError RaftNode
  | 0 => .ok self
  | k + 1 => do
    let term ← self.termAt n
    if term ≠ self.term ∧ self.bugs.dropCommitTermGuard = false then
      return self
    else
      let votes := self.voters.countP (fun v => n ≤ self.matchIndex.getD v 0)
      if votes * 2 > self.voters.length then
        let self ← self.setCommitIndex n
        return { self with committedThisTerm := true }
      else
        advanceLoop self (n - 1) k

/-- The commit rule: the highest index of the current term replicated on a majority of the current configuration. -/
def advanceCommit (self : RaftNode) : Except PyError RaftNode :=
  self.advanceLoop self.lastLogIndex (self.lastLogIndex - self.commitIndex).toNat

/-! ## Role transitions -/

/-- `_become_follower`. -/
def becomeFollower (self : RaftNode) (term : Int) : RaftNode :=
  let changed := term > self.term
  let self := { self with term }
  let self := if changed then { self with votedFor := none } else self
  let self := if self.role ≠ .follower ∨ changed then ({ self with role := .follower }).record (.role .follower self.term) else self
  ({ self with pendingReads := ∅ }).armElectionTimer

/-- The loop of `_rebuild_client_index`. -/
def clientIndexOf (index : Dict Int Int) : List Entry → Dict Int Int
  | [] => index
  | entry :: entries =>
    let cmd := Command.decode entry.command
    if cmd.isStructured = true ∧ cmd.reqId > index.getD cmd.clientId (-1) then
      clientIndexOf (index.insert cmd.clientId cmd.reqId) entries
    else clientIndexOf index entries

/-- The highest request id of each client in the live log. -/
def rebuildClientIndex (self : RaftNode) : RaftNode := { self with clientIndex := clientIndexOf ∅ self.log }

/-- `_become_leader`. -/
def becomeLeader (self : RaftNode) : Except PyError RaftNode := do
  let self := { self with role := .leader, leaderId := some self.id }
  let self := self.record (.role .leader self.term)
  let last := self.lastLogIndex
  let self := { self with
    nextIndex := Dict.fromKeys self.peers (last + 1)
    matchIndex := (Dict.fromKeys self.peers 0).insert self.id last
    committedThisTerm := false }
  let self := self.rebuildClientIndex
  let self ← self.broadcastHeartbeats
  return self.armHeartbeatTimer

/-- Win with a majority of the current configuration: only voters' votes count. -/
def maybeWin (self : RaftNode) : Except PyError RaftNode :=
  let votes := (self.votes.filter (· ∈ self.voters)).card
  if self.role = .candidate ∧ votes * 2 > self.voters.length then self.becomeLeader else .ok self

/-- `start_election`. -/
def startElection (self : RaftNode) : Except PyError RaftNode := do
  if self.id ∉ self.voters then
    return self.armElectionTimer
  else
    let self := { self with
      term := self.term + 1
      role := .candidate
      votedFor := some self.id
      leaderId := none
      votes := {self.id} }
    let self := (self.record (.election self.term)).record (.role .candidate self.term)
    let self := self.armElectionTimer
    let lastLogTerm ← self.termAt self.lastLogIndex
    let req : RequestVote :=
      { term := self.term, candidate := self.id, lastLogIndex := self.lastLogIndex, lastLogTerm }
    let self := self.otherVoters.foldl (fun self p => self.send p (.requestVote req)) self
    self.maybeWin

/-! ## Timer callbacks -/

/-- `_on_election_timeout`: a timer that was armed again is stale. -/
def onElectionTimeout (self : RaftNode) (seq : Int) : Except PyError RaftNode :=
  if self.alive = false ∨ seq ≠ self.timerSeq ∨ self.role = .leader then .ok self
  else (self.record (.timer self.term)).startElection

/-- `_on_heartbeat`. -/
def onHeartbeat (self : RaftNode) (seq : Int) : Except PyError RaftNode := do
  if self.alive = false ∨ seq ≠ self.timerSeq ∨ self.role ≠ .leader then
    return self
  else
    let self ← self.broadcastHeartbeats
    return self.armHeartbeatTimer

/-! ## Client interface -/

/-- Append a client command if this node believes it is the leader; a structured request already in its log is acknowledged
without a second entry. -/
def clientCommand (self : RaftNode) (command : String) : Except PyError (RaftNode × Bool) := do
  if self.role ≠ .leader ∨ self.alive = false then
    return (self, false)
  else
    let cmd := Command.decode command
    if cmd.isStructured = true ∧ cmd.reqId ≤ self.clientIndex.getD cmd.clientId (-1) then
      return (self.record (.dedup command), true)
    else
      let self :=
        if cmd.isStructured then { self with clientIndex := self.clientIndex.insert cmd.clientId cmd.reqId } else self
      let self := { self with log := self.log ++ [({ term := self.term, command } : Entry)], logVersion := self.logVersion + 1 }
      let self := { self with matchIndex := self.matchIndex.insert self.id self.lastLogIndex }
      let self := self.record (.append self.lastLogIndex self.term command)
      let self ← self.broadcastHeartbeats
      return (self, true)

/-- Append a configuration entry that adds or removes exactly one server, effective at once. -/
def changeConfig (self : RaftNode) (newVoters : List NodeId) : Except PyError (RaftNode × Bool) := do
  let new := sortedSet newVoters
  if self.role ≠ .leader ∨ self.alive = false then return (self, false)
  else if (symmDiff new.toFinset self.voters.toFinset).card ≠ 1 then return (self, false)
  else if self.id ∉ new then return (self, false)
  else if self.configIndex > self.commitIndex then return (self, false)
  else if self.committedThisTerm = false ∧ self.bugs.dropConfigCommitGuard = false then return (self, false)
  else
    let self := { self with log := self.log ++ [({ term := self.term, command := encodeConfig new } : Entry)], logVersion := self.logVersion + 1 }
    let self := self.adoptConfig new self.lastLogIndex
    let self := { self with matchIndex := self.matchIndex.insert self.id self.lastLogIndex }
    let self := self.record (.cfgchange self.lastLogIndex self.term new)
    let self ← self.broadcastHeartbeats
    return (self, true)

/-! ## ReadIndex reads -/

/-- Serve a read once a majority of the configuration has confirmed this node's leadership. -/
def tryServeRead (self : RaftNode) (readId : Int) : RaftNode :=
  match self.pendingReads.lookup readId with
  | none => self
  | some pending =>
    let confirmed := (pending.acks.filter (· ∈ self.voters)).card
    if confirmed * 2 > self.voters.length ∧ self.lastApplied ≥ pending.readIndex then
      let self := { self with pendingReads := self.pendingReads.erase readId }
      let result := self.kv.applyRead (Command.decode pending.command)
      (self.record (.readserved readId pending.command)).emit (.onApply pending.command result)
    else self

/-- Begin a read: record the commit index and ask the configuration to confirm that this node still leads. -/
def requestRead (self : RaftNode) (command : String) : RaftNode × Bool :=
  if self.role ≠ .leader ∨ self.alive = false ∨ self.committedThisTerm = false then (self, false)
  else
    let readId := self.nextReadId
    let self := { self with nextReadId := self.nextReadId + 1 }
    let self := { self with pendingReads := self.pendingReads.insert readId ⟨command, self.commitIndex, {self.id}⟩ }
    let self := self.record (.read readId self.commitIndex)
    let self := self.otherVoters.foldl
      (fun self p => self.send p (.readHeartbeat { term := self.term, leader := self.id, readId })) self
    (self.tryServeRead readId, true)

/-- `_on_read_heartbeat`. -/
def onReadHeartbeat (self : RaftNode) (msg : ReadHeartbeat) : RaftNode :=
  let self := if msg.term > self.term then self.becomeFollower msg.term else self
  let self := if msg.term ≥ self.term then ({ self with leaderId := some msg.leader }).armElectionTimer else self
  self.send msg.leader (.readAck { term := self.term, follower := self.id, readId := msg.readId })

/-- `_on_read_ack`. -/
def onReadAck (self : RaftNode) (msg : ReadAck) : RaftNode :=
  if msg.term > self.term then self.becomeFollower msg.term
  else match self.pendingReads.lookup msg.readId with
    | none => self
    | some pending =>
      if msg.term ≠ self.term ∨ self.role ≠ .leader then self
      else
        let self := { self with
          pendingReads := self.pendingReads.insert msg.readId { pending with acks := insert msg.follower pending.acks } }
        self.tryServeRead msg.readId

/-! ## RequestVote -/

/-- `_on_request_vote`. -/
def onRequestVote (self : RaftNode) (msg : RequestVote) : Except PyError RaftNode := do
  let self := if msg.term > self.term then self.becomeFollower msg.term else self
  let refused := self.send msg.candidate (.voteReply { term := self.term, voter := self.id, granted := false })
  if msg.term = self.term ∧ (self.votedFor = none ∨ self.votedFor = some msg.candidate) then
    let myLastTerm ← self.termAt self.lastLogIndex
    -- the election restriction: only vote for candidates whose log is at least as up to date
    if myLastTerm < msg.lastLogTerm ∨ (myLastTerm = msg.lastLogTerm ∧ self.lastLogIndex ≤ msg.lastLogIndex) ∨
        self.bugs.voteForStaleCandidate = true then
      let self := { self with votedFor := some msg.candidate }
      let self := (self.record (.vote msg.candidate self.term)).armElectionTimer
      return self.send msg.candidate (.voteReply { term := self.term, voter := self.id, granted := true })
    else return refused
  else return refused

/-- `_on_vote_reply`. -/
def onVoteReply (self : RaftNode) (msg : VoteReply) : Except PyError RaftNode :=
  if msg.term > self.term then .ok (self.becomeFollower msg.term)
  else if self.role ≠ .candidate ∨ msg.term < self.term ∨ msg.granted = false then .ok self
  else ({ self with votes := insert msg.voter self.votes }).maybeWin

/-! ## AppendEntries -/

/-- Truncate the log from a logical index on. -/
def truncateFrom (self : RaftNode) (index : Int) : RaftNode :=
  let self := { self with log := delFrom self.log (self.phys index), logVersion := self.logVersion + 1 }
  if self.configIndex ≥ index then self.rebuildConfig else self

/-- Append a replicated entry; a configuration takes effect at once. -/
def appendReplicated (self : RaftNode) (index : Int) (entry : Entry) : RaftNode :=
  let self := { self with log := self.log ++ [entry], logVersion := self.logVersion + 1 }
  match decodeConfig entry.command with
  | some decoded => self.adoptConfig decoded index
  | none => self

/-- The loop of `_on_append_entries` over the entries after logical index `index`: entries that match are kept, a conflicting
suffix is deleted. -/
def mergeEntries (self : RaftNode) (index : Int) : List Entry → Except PyError RaftNode
  | [] => .ok self
  | entry :: entries => do
    let index := index + 1
    if self.lastLogIndex ≥ index then
      let term ← self.termAt index
      if term ≠ entry.term then
        mergeEntries ((self.truncateFrom index).appendReplicated index entry) index entries
      else
        mergeEntries self index entries
    else
      mergeEntries (self.appendReplicated index entry) index entries

/-- What is left of a message that reaches below the base: the covered entries are skipped. -/
def skipCovered (self : RaftNode) (msg : AppendEntries) : Except PyError (Int × Int × List Entry) := do
  if msg.prevIndex < self.baseIndex then
    let covered := min (msg.entries.length : Int) (self.baseIndex - msg.prevIndex)
    if covered = 0 then
      return (msg.prevIndex, msg.prevTerm, msg.entries)
    else
      let entry ← pyIndex msg.entries (covered - 1)
      return (msg.prevIndex + covered, entry.term, sliceFrom msg.entries covered)
  else
    return (msg.prevIndex, msg.prevTerm, msg.entries)

/-- The consistency check at `prevIndex`. -/
def inconsistent (self : RaftNode) (prevIndex prevTerm : Int) : Except PyError Bool := do
  if self.lastLogIndex < prevIndex then
    return decide (prevIndex ≥ max 1 self.baseIndex)
  else
    let term ← self.termAt prevIndex
    return decide (prevIndex ≥ max 1 self.baseIndex ∧ term ≠ prevTerm ∧ self.bugs.skipLogConsistency = false)

/-- `_on_append_entries`. -/
def onAppendEntries (self : RaftNode) (msg : AppendEntries) : Except PyError RaftNode := do
  let self := if msg.term > self.term then self.becomeFollower msg.term else self
  if msg.term < self.term then
    return self.send msg.leader (.appendReply { term := self.term, follower := self.id, success := false, matchIndex := 0 })
  else
    let self := if self.role ≠ .follower then self.becomeFollower msg.term else self
    let self := ({ self with leaderId := some msg.leader }).armElectionTimer
    let (prevIndex, prevTerm, entries) ← self.skipCovered msg
    if ← self.inconsistent prevIndex prevTerm then
      return self.send msg.leader (.appendReply { term := self.term, follower := self.id, success := false, matchIndex := 0 })
    else
      let self ← self.mergeEntries prevIndex entries
      let matched := prevIndex + entries.length
      let self ←
        if self.bugs.allowCommitRegression then .ok { self with commitIndex := min msg.leaderCommit matched }
        else if msg.leaderCommit > self.commitIndex then
          self.setCommitIndex (max self.commitIndex (min msg.leaderCommit matched))
        else .ok self
      return self.send msg.leader
        (.appendReply { term := self.term, follower := self.id, success := true, matchIndex := matched })

/-- `_on_append_reply`. -/
def onAppendReply (self : RaftNode) (msg : AppendReply) : Except PyError RaftNode := do
  if msg.term > self.term then
    return self.becomeFollower msg.term
  else if self.role ≠ .leader ∨ msg.term < self.term then
    return self
  else if msg.success then
    let self := { self with
      matchIndex := self.matchIndex.insert msg.follower (max (self.matchIndex.getD msg.follower 0) msg.matchIndex)
      nextIndex := self.nextIndex.insert msg.follower (max (self.nextIndex.getD msg.follower 1) (msg.matchIndex + 1)) }
    self.advanceCommit
  else
    let self := { self with
      nextIndex := self.nextIndex.insert msg.follower (max 1 (self.nextIndex.getD msg.follower 1 - 1)) }
    self.sendAppendEntries msg.follower

/-! ## InstallSnapshot -/

/-- Whether the entries behind the snapshot are kept: the log holds the snapshot's last entry. -/
def keepsTail (self : RaftNode) (msg : InstallSnapshot) : Except PyError Bool :=
  if self.lastLogIndex ≥ msg.lastIndex then (fun term => decide (term = msg.lastTerm)) <$> self.termAt msg.lastIndex
  else .ok false

/-- `_on_install_snapshot`. -/
def onInstallSnapshot (self : RaftNode) (msg : InstallSnapshot) : Except PyError RaftNode := do
  if msg.term < self.term then
    return self.send msg.leader (.appendReply { term := self.term, follower := self.id, success := false, matchIndex := 0 })
  else
    let self := if msg.term > self.term ∨ self.role ≠ .follower then self.becomeFollower msg.term else self
    let self := ({ self with leaderId := some msg.leader }).armElectionTimer
    if msg.lastIndex ≤ self.commitIndex then
      return self.send msg.leader
        (.appendReply { term := self.term, follower := self.id, success := true, matchIndex := self.commitIndex })
    else
      let keepTail ← self.keepsTail msg
      let self := { self with
        log := if keepTail then sliceFrom self.log (msg.lastIndex - self.baseIndex) else []
        kv := KVStateMachine.restore {} msg.store msg.sessions
        snapshot := some {
          lastIndex := msg.lastIndex, lastTerm := msg.lastTerm, store := msg.store, sessions := msg.sessions,
          voters := msg.voters }
        baseIndex := msg.lastIndex
        baseTerm := msg.lastTerm
        commitIndex := msg.lastIndex
        lastApplied := msg.lastIndex
        applied := []
        logVersion := self.logVersion + 1 }
      let self := self.rebuildConfig.record (.installsnap msg.lastIndex msg.lastTerm)
      return self.send msg.leader
        (.appendReply { term := self.term, follower := self.id, success := true, matchIndex := msg.lastIndex })

/-! ## Message dispatch -/

/-- `handle`: a node that is down handles nothing. -/
def handle (self : RaftNode) (msg : Message) : Except PyError RaftNode :=
  if self.alive = false then .ok self
  else match msg with
    | .requestVote msg => self.onRequestVote msg
    | .voteReply msg => self.onVoteReply msg
    | .appendEntries msg => self.onAppendEntries msg
    | .appendReply msg => self.onAppendReply msg
    | .installSnapshot msg => self.onInstallSnapshot msg
    | .readHeartbeat msg => .ok (self.onReadHeartbeat msg)
    | .readAck msg => .ok (self.onReadAck msg)

end RaftNode

/-! ## What the operations share -/

/-- What `_become_follower` records. -/
def steppedDown (self : RaftNode) (t : Int) : List Effect :=
  if self.role ≠ .follower ∨ t > self.term then [.record (.role .follower t)] else []

/-- `_become_follower`, field by field. -/
theorem becomeFollower_eq (self : RaftNode) (t : Int) : self.becomeFollower t = { self with
    term := t
    votedFor := if t > self.term then none else self.votedFor
    role := .follower
    pendingReads := ∅
    timerSeq := self.timerSeq + 1
    out := self.out ++ steppedDown self t ++ [.schedule .election (self.timerSeq + 1)] } := by
  by_cases hlt : t > self.term <;> by_cases hr : self.role = .follower <;>
    simp [RaftNode.becomeFollower, RaftNode.armElectionTimer, RaftNode.record, RaftNode.emit, steppedDown, hlt, hr]

/-- A node that hears of a later term, and then of a leader, steps down once. -/
theorem RaftNode.observed_follower (self : RaftNode) (t : Int) :
    (if (if t > self.term then self.becomeFollower t else self).role ≠ .follower then
      (if t > self.term then self.becomeFollower t else self).becomeFollower t
      else (if t > self.term then self.becomeFollower t else self)) =
    if t > self.term ∨ self.role ≠ .follower then self.becomeFollower t else self := by
  by_cases hnew : t > self.term
  · have hr : (self.becomeFollower t).role = .follower := by rw [becomeFollower_eq]
    simp [hnew, hr]
  · simp [hnew]

/-- A term that was not old is not old to the node that has heard of it. -/
theorem RaftNode.not_lt_observed (self : RaftNode) {t : Int} (h : self.term ≤ t) :
    ¬t < (if t > self.term then self.becomeFollower t else self).term := by
  by_cases hnew : t > self.term
  · rw [if_pos hnew, becomeFollower_eq]
    exact lt_irrefl _
  · rw [if_neg hnew]
    exact not_lt.2 h

/-- The node after has made more calls than the node before, and nothing else differs. -/
def OnlyCalls (self after : RaftNode) : Prop := ∃ out, after = { self with out := self.out ++ out }

/-- No calls. -/
theorem OnlyCalls.refl (self : RaftNode) : OnlyCalls self self := ⟨[], by simp⟩

/-- Calls one after the other. -/
theorem OnlyCalls.trans {self mid after : RaftNode} (h : OnlyCalls self mid) (h' : OnlyCalls mid after) :
    OnlyCalls self after := by
  obtain ⟨out, rfl⟩ := h
  obtain ⟨out', rfl⟩ := h'
  exact ⟨out ++ out', by simp⟩

/-- One call. -/
theorem OnlyCalls.emit (self : RaftNode) (e : Effect) : OnlyCalls self (self.emit e) := ⟨[e], rfl⟩

end DeterministicRaft
