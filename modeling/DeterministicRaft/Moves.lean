import DeterministicRaft.Handlers
import DeterministicRaft.Refinement
import Mathlib.Logic.Relation

/-!
# What an operation can do to a node

Every operation of a node is a sequence of moves, each of which is one small change with what the node has checked before it. What
holds of a node over any sequence of operations is then shown move by move.
-/

namespace DeterministicRaft

open Refinement

/-- What is known of the operations that are called: whether AppendEntries agree with what the node knows to be committed, whether
no leader is sent a ReadHeartbeat of its own term, which strings clients submit, which voting sets operators propose, which entries
AppendEntries carry, which snapshots are installed and who asks for a vote, and whether the node may commit, compact its log or
crash. -/
structure Inputs where
  agrees : Prop
  polite : Prop
  submits : String → Prop
  proposes : List NodeId → Prop
  replicates : Entry → Prop
  installs : InstallSnapshot → Prop := fun _ => True
  asks : RequestVote → Prop := fun _ => True
  commits : Prop := True
  compacts : Prop := True
  crashes : Prop := True

/-- The inputs of operations that do not commit, compact the log, install a snapshot or crash. -/
def Inputs.quiet (I : Inputs) : Inputs :=
  { I with installs := fun _ => False, commits := False, compacts := False, crashes := False }

/-- The inputs of operations that install some snapshot. -/
def Inputs.installing (I : Inputs) : Inputs := { I with commits := False, compacts := False, crashes := False }

/-- The message's entries have the terms of the node's live entries up to its commit index. -/
def AppendEntries.Agrees (msg : AppendEntries) (self : RaftNode) : Prop :=
  ∀ (k : ℕ) (e : Entry), msg.entries[k]? = some e → self.baseIndex < msg.prevIndex + 1 + k →
    msg.prevIndex + 1 + k ≤ self.commitIndex → self.termAt (msg.prevIndex + 1 + k) = .ok e.term

/-- The event is no part of an election: a node tells of its role and its candidacies in the moves that change them. -/
def Event.Aside : Event → Prop
  | .role _ _ => False
  | .election _ => False
  | _ => True

/-- What is true of a call when the node makes it. Timers, the checker, elections and votes have moves of their own. -/
def Effect.Sound (self : RaftNode) : Effect → Prop
  | .send _ (.requestVote msg) => self.role = .candidate ∧ msg.term = self.term ∧ msg.candidate = self.id
  | .send _ (.voteReply msg) => msg.term = self.term ∧ msg.voter = self.id ∧ msg.granted = false
  | .send _ (.appendEntries msg) => self.role = .leader ∧ msg.term = self.term ∧ msg.leader = self.id ∧
      self.baseIndex ≤ msg.prevIndex ∧ self.termAt msg.prevIndex = .ok msg.prevTerm ∧
      msg.entries = self.logSuffix (msg.prevIndex + 1) ∧ msg.leaderCommit = self.commitIndex
  | .send _ (.appendReply msg) => msg.term = self.term ∧ msg.follower = self.id
  | .send _ (.installSnapshot msg) => self.role = .leader ∧ msg.term = self.term ∧ msg.leader = self.id ∧
      self.snapshot = some ⟨msg.lastIndex, msg.lastTerm, msg.store, msg.sessions, msg.voters⟩
  | .send _ (.readHeartbeat msg) => self.role = .leader ∧ msg.term = self.term ∧ msg.leader = self.id
  | .send _ (.readAck msg) => msg.term = self.term ∧ msg.follower = self.id
  | .schedule _ _ => False
  | .beforeCompact _ => False
  | .record event => event.Aside
  | .onApply _ _ => True

namespace RaftNode

/-! ## The states the moves lead to -/

/-- A candidate of a new term, with a new election timer. -/
def campaigned (self : RaftNode) : RaftNode :=
  let self := { self with
    term := self.term + 1
    role := .candidate
    votedFor := some self.id
    leaderId := none
    votes := {self.id} }
  ((self.record (.election self.term)).record (.role .candidate self.term)).armElectionTimer

/-- A new leader that has not sent its first heartbeats yet. -/
def leading (self : RaftNode) : RaftNode :=
  let self := { self with role := .leader, leaderId := some self.id }
  let self := self.record (.role .leader self.term)
  let last := self.lastLogIndex
  let self := { self with
    nextIndex := Dict.fromKeys self.peers (last + 1)
    matchIndex := (Dict.fromKeys self.peers 0).insert self.id last
    committedThisTerm := false }
  self.rebuildClientIndex

/-- A node that has granted its vote. -/
def voted (self : RaftNode) (candidate : NodeId) : RaftNode :=
  let self := ({ self with votedFor := some candidate }.record (.vote candidate self.term)).armElectionTimer
  self.send candidate (.voteReply { term := self.term, voter := self.id, granted := true })

/-- A leader with one more entry of its own. -/
def withEntry (self : RaftNode) (command : String) : RaftNode :=
  { self with log := self.log ++ [({ term := self.term, command } : Entry)], logVersion := self.logVersion + 1 }

/-- A leader that has appended a client's command. -/
def proposed (self : RaftNode) (command : String) : RaftNode :=
  let cmd := Command.decode command
  let self := if cmd.isStructured then { self with clientIndex := self.clientIndex.insert cmd.clientId cmd.reqId } else self
  let self := self.withEntry command
  let self := { self with matchIndex := self.matchIndex.insert self.id self.lastLogIndex }
  self.record (.append self.lastLogIndex self.term command)

/-- A leader that has appended a configuration. -/
def reconfigured (self : RaftNode) (new : List NodeId) : RaftNode :=
  let self := self.withEntry (encodeConfig new)
  let self := self.adoptConfig new self.lastLogIndex
  let self := { self with matchIndex := self.matchIndex.insert self.id self.lastLogIndex }
  self.record (.cfgchange self.lastLogIndex self.term new)

/-- One entry applied. -/
def applyEntry (self : RaftNode) (entry : Entry) : RaftNode :=
  let self := { self with lastApplied := self.lastApplied + 1 }
  let self := { self with applied := self.applied ++ [entry.command] }
  let (kv, result) := self.kv.apply (Command.decode entry.command)
  let self := { self with kv }
  let self := self.record (.apply self.lastApplied entry)
  self.emit (.onApply entry.command result)

/-- A node that has committed up to an index and applied the entries up to there. -/
def committed (self : RaftNode) (index : Int) (entries : List Entry) : RaftNode :=
  entries.foldl applyEntry ({ self with commitIndex := index }.record (.commit index))

/-- A node that has folded what it has applied into a snapshot. -/
def compacted (self : RaftNode) (lastTerm : Int) (snapVoters : List NodeId) : RaftNode :=
  let self := self.emit (.beforeCompact self.view)
  let upto := self.lastApplied
  let self := { self with
    log := sliceFrom self.log (upto - self.baseIndex)
    applied := sliceFrom self.applied (upto - self.baseIndex)
    baseIndex := upto
    baseTerm := lastTerm
    snapshot := some { lastIndex := upto, lastTerm, store := self.kv.store, sessions := self.kv.sessions, voters := snapVoters }
    logVersion := self.logVersion + 1 }
  self.record (.snapshot upto lastTerm)

/-- A follower with a leader's snapshot in place of what it covers, the configuration still to be recomputed. -/
def restored (self : RaftNode) (msg : InstallSnapshot) (keepTail : Bool) : RaftNode :=
  { self with
    log := if keepTail then sliceFrom self.log (msg.lastIndex - self.baseIndex) else []
    kv := KVStateMachine.restore {} msg.store msg.sessions
    snapshot := some {
      lastIndex := msg.lastIndex, lastTerm := msg.lastTerm, store := msg.store, sessions := msg.sessions,
      voters := msg.voters }
    baseIndex := msg.lastIndex
    baseTerm := msg.lastTerm
    commitIndex := msg.lastIndex
    lastApplied := msg.lastIndex
    applied := []
    logVersion := self.logVersion + 1 }

/-- A follower that has installed a leader's snapshot. -/
def installed (self : RaftNode) (msg : InstallSnapshot) (keepTail : Bool) : RaftNode :=
  (self.restored msg keepTail).rebuildConfig.record (.installsnap msg.lastIndex msg.lastTerm)

end RaftNode

/-- The entries after the last applied one, up to an index above the commit index. -/
structure RaftNode.Commits (node : RaftNode) (index : Int) (entries : List Entry) : Prop where
  lt : node.commitIndex < index
  length : entries.length = (index - node.lastApplied).toNat
  entries : ∀ (k : ℕ) (e : Entry), entries[k]? = some e → node.entryAt (node.lastApplied + 1 + k) = .ok e

/-- Enough applied entries have piled up above the base: the term and the voters the snapshot will have. -/
structure RaftNode.Compacts (node : RaftNode) (lastTerm : Int) (snapVoters : List NodeId) : Prop where
  pos : 0 < node.config.snapshotThreshold
  threshold : node.config.snapshotThreshold ≤ node.lastApplied - node.baseIndex
  term : node.termAt node.lastApplied = .ok lastTerm
  voters : node.configAt node.lastApplied = .ok snapVoters

/-! ## Moves -/

open RaftNode

/-- One small change of a node, and what the node has checked. -/
inductive Move (I : Inputs) : RaftNode → RaftNode → Prop
  | call (self : RaftNode) (e : Effect) (h : e.Sound self) : Move I self (self.emit e)
  | arm (self : RaftNode) (ha : self.alive = true) (hr : self.role ≠ .leader) : Move I self self.armElectionTimer
  | armHeartbeat (self : RaftNode) (ha : self.alive = true) (hr : self.role = .leader) : Move I self self.armHeartbeatTimer
  | stepDown (self : RaftNode) (term : Int) (ha : self.alive = true) (ht : self.term ≤ term) :
      Move I self (self.becomeFollower term)
  | campaign (self : RaftNode) (ha : self.alive = true) (hr : self.role ≠ .leader) (hv : self.id ∈ self.voters) :
      Move I self self.campaigned
  | countVote (self : RaftNode) (voter : NodeId) (hr : self.role = .candidate) :
      Move I self { self with votes := insert voter self.votes }
  | lead (self : RaftNode) (es : List Effect) (ha : self.alive = true) (hr : self.role = .candidate)
      (hq : self.voters.length < (self.votes.filter (· ∈ self.voters)).card * 2) (hes : ∀ e ∈ es, e.Sound self.leading) :
      Move I self { self.leading with out := self.leading.out ++ es }.armHeartbeatTimer
  | vote (self : RaftNode) (msg : RequestVote) (hi : I.asks msg) (ha : self.alive = true) (ht : msg.term = self.term)
      (hv : self.votedFor = none ∨ self.votedFor = some msg.candidate)
      (hlog : ∃ t, self.termAt self.lastLogIndex = .ok t ∧ (t < msg.lastLogTerm ∨
        (t = msg.lastLogTerm ∧ self.lastLogIndex ≤ msg.lastLogIndex) ∨ self.bugs.voteForStaleCandidate = true)) :
      Move I self (self.voted msg.candidate)
  | follow (self : RaftNode) (leader : NodeId) (ha : self.alive = true) (hr : I.polite → self.role ≠ .leader) :
      Move I self { self with leaderId := some leader }.armElectionTimer
  | keepBooks (self : RaftNode) (nextIndex matchIndex : Dict NodeId Int) (pendingReads : Dict Int PendingRead)
      (nextReadId : Int) (committedThisTerm : Bool) :
      Move I self { self with nextIndex, matchIndex, pendingReads, nextReadId, committedThisTerm }
  | propose (self : RaftNode) (command : String) (ha : self.alive = true) (hr : self.role = .leader) (hc : I.submits command) :
      Move I self (self.proposed command)
  | reconfigure (self : RaftNode) (newVoters : List NodeId) (ha : self.alive = true) (hr : self.role = .leader)
      (hp : I.proposes newVoters) (hd : (symmDiff (sortedSet newVoters).toFinset self.voters.toFinset).card = 1)
      (hs : self.id ∈ sortedSet newVoters) (hc : self.configIndex ≤ self.commitIndex) :
      Move I self (self.reconfigured (sortedSet newVoters))
  | truncate (self : RaftNode) (index t : Int) (entry : Entry) (hr : self.role = .follower)
      (hb : 0 ≤ self.baseIndex → self.baseIndex < index) (hl : index ≤ self.lastLogIndex) (ht : self.termAt index = .ok t)
      (hne : t ≠ entry.term) (hs : I.agrees → 0 ≤ self.baseIndex → self.commitIndex < index) : Move I self (self.truncateFrom index)
  | extend (self : RaftNode) (index : Int) (entry : Entry) (he : I.replicates entry) (hr : self.role = .follower)
      (hi : 0 ≤ self.baseIndex → index = self.lastLogIndex + 1) : Move I self (self.appendReplicated index entry)
  | commit (self : RaftNode) (index : Int) (entries : List Entry) (hq : I.commits) (h : self.Commits index entries) :
      Move I self (self.committed index entries)
  | compact (self : RaftNode) (lastTerm : Int) (snapVoters : List NodeId) (hq : I.compacts)
      (h : self.Compacts lastTerm snapVoters) : Move I self (self.compacted lastTerm snapVoters)
  | install (self : RaftNode) (msg : InstallSnapshot) (keepTail : Bool) (hq : I.installs msg) (hr : self.role = .follower)
      (hk : self.keepsTail msg = .ok keepTail) (hc : self.commitIndex < msg.lastIndex) :
      Move I self (self.installed msg keepTail)
  | regress (self : RaftNode) (index : Int) (hb : self.bugs.allowCommitRegression = true) :
      Move I self { self with commitIndex := index }
  | start (self : RaftNode) : Move I self self.start
  | pause (self : RaftNode) (hq : I.crashes) : Move I self self.pause
  | resume (self : RaftNode) : Move I self self.resume

/-- A move of an operation that may do less is a move of one that may do more. -/
theorem Move.allow {I : Inputs} {i : InstallSnapshot → Prop} {o c r : Prop} {self after : RaftNode}
    (hi : ∀ msg, i msg → I.installs msg) (hcom : o → I.commits) (hc : c → I.compacts) (hcr : r → I.crashes)
    (h : Move { I with installs := i, commits := o, compacts := c, crashes := r } self after) : Move I self after := by
  cases h with
  | call e h => exact .call self e h
  | arm ha hr => exact .arm self ha hr
  | armHeartbeat ha hr => exact .armHeartbeat self ha hr
  | stepDown term ha ht => exact .stepDown self term ha ht
  | campaign ha hr hv => exact .campaign self ha hr hv
  | countVote voter hr => exact .countVote self voter hr
  | lead es ha hr hq hes => exact .lead self es ha hr hq hes
  | vote msg hi ha ht hv hlog => exact .vote self msg hi ha ht hv hlog
  | follow leader ha hr => exact .follow self leader ha hr
  | keepBooks n m p r c => exact .keepBooks self n m p r c
  | propose command ha hr hs => exact .propose self command ha hr hs
  | reconfigure newVoters ha hr hp hd hs hg => exact .reconfigure self newVoters ha hr hp hd hs hg
  | truncate index t entry hr hb hl ht hne hs => exact .truncate self index t entry hr hb hl ht hne hs
  | extend index entry he hr hx => exact .extend self index entry he hr hx
  | commit index entries hq h => exact .commit self index entries (hcom hq) h
  | compact t vs hq h => exact .compact self t vs (hc hq) h
  | install msg keep hq hr hk hlt => exact .install self msg keep (hi msg hq) hr hk hlt
  | regress index hb => exact .regress self index hb
  | start => exact .start self
  | pause hq => exact .pause self (hcr hq)
  | resume => exact .resume self

/-- Some moves, one after the other. -/
abbrev Moved (I : Inputs) : RaftNode → RaftNode → Prop := Relation.ReflTransGen (Move I)

theorem Moved.of_quiet {I : Inputs} {self after : RaftNode} (h : Moved I.quiet self after) : Moved I self after :=
  Relation.ReflTransGen.mono
    (fun _ _ => Move.allow (fun _ => False.elim) False.elim False.elim False.elim) _ _ h

theorem Moved.of_installing {I : Inputs} {self after : RaftNode} (h : Moved I.installing self after) : Moved I self after :=
  Relation.ReflTransGen.mono (fun _ _ => Move.allow (fun _ => id) False.elim False.elim False.elim) _ _ h

/-- Every result of the operation is some moves away. -/
abbrev Makes (I : Inputs) (self : RaftNode) (x : Except PyError RaftNode) : Prop := Ensures x (Moved I self)

end DeterministicRaft
