import DeterministicRaft.Kv

/-!
# The data of a Raft node (`node.py`, `bugs.py`)

Entries, messages, configuration entries, the node's state, and what it asks of the outside world. A node does no I/O of its
own: it calls the callables the cluster injected. Here these calls are collected in order in the field `out`, which the cluster
empties after each operation.
-/

namespace DeterministicRaft

/-- A server's number. -/
abbrev NodeId : Type := Int

/-! ## Configuration entries -/

/-- How the string of a configuration entry begins. -/
def CONFIG_PREFIX : String := "cfg:"

/-- The log entry command for a configuration: the sorted voter ids. -/
def encodeConfig (voters : List NodeId) : String :=
  CONFIG_PREFIX ++ pyJoin "," ((voters.insertionSort (· ≤ ·)).map toString)

/-- The voting set a configuration entry names, or none for any other command. -/
def decodeConfig (command : String) : Option (List NodeId) :=
  if CONFIG_PREFIX.toList <+: command.toList then
    (pySplit (String.ofList (command.toList.drop CONFIG_PREFIX.length)) ',').mapM pyInt
  else none

/-! ## Messages -/

/-- An entry of the log. -/
structure Entry where
  term : Int
  command : String
  deriving DecidableEq, Repr

/-- A candidate's request for a vote. -/
structure RequestVote where
  term : Int
  candidate : NodeId
  lastLogIndex : Int
  lastLogTerm : Int
  deriving DecidableEq

/-- The answer to it. -/
structure VoteReply where
  term : Int
  voter : NodeId
  granted : Bool
  deriving DecidableEq

/-- A leader's entries, or its heartbeat. -/
structure AppendEntries where
  term : Int
  leader : NodeId
  prevIndex : Int
  prevTerm : Int
  entries : List Entry
  leaderCommit : Int
  deriving DecidableEq

/-- The answer to it. -/
structure AppendReply where
  term : Int
  follower : NodeId
  success : Bool
  matchIndex : Int
  deriving DecidableEq

/-- Sent to a follower that has fallen behind the leader's compaction point: the whole state-machine image and the
configuration in force at the snapshot index. -/
structure InstallSnapshot where
  term : Int
  leader : NodeId
  lastIndex : Int
  lastTerm : Int
  store : Dict String String
  sessions : Dict Int (Int × String)
  voters : List NodeId
  deriving DecidableEq

/-- A leadership-confirmation ping for a ReadIndex read. -/
structure ReadHeartbeat where
  term : Int
  leader : NodeId
  readId : Int
  deriving DecidableEq

/-- The answer to a leadership confirmation. -/
structure ReadAck where
  term : Int
  follower : NodeId
  readId : Int
  deriving DecidableEq

/-- What nodes send to each other. -/
inductive Message where
  | requestVote (msg : RequestVote)
  | voteReply (msg : VoteReply)
  | appendEntries (msg : AppendEntries)
  | appendReply (msg : AppendReply)
  | installSnapshot (msg : InstallSnapshot)
  | readHeartbeat (msg : ReadHeartbeat)
  | readAck (msg : ReadAck)
  deriving DecidableEq

/-! ## The node -/

/-- `FOLLOWER`, `CANDIDATE` and `LEADER`. -/
inductive Role where
  | follower | candidate | leader
  deriving DecidableEq, Repr

/-- Timers in milliseconds, and the number of applied entries above the base that triggers a compaction (0: never). -/
structure RaftConfig where
  electionTimeoutMin : Int := 150
  electionTimeoutMax : Int := 300
  heartbeatInterval : Int := 50
  snapshotThreshold : Int := 0
  deriving DecidableEq, Repr

/-- The injectable defects, all off by default. -/
structure Bugs where
  dropCommitTermGuard : Bool := false
  voteForStaleCandidate : Bool := false
  skipLogConsistency : Bool := false
  allowCommitRegression : Bool := false
  staleLocalReads : Bool := false
  dropConfigCommitGuard : Bool := false
  deriving DecidableEq, Repr

/-- No defect is on. -/
def NO_BUGS : Bugs := {}

/-- The two timers of a node. -/
inductive TimerKind where
  | election | heartbeat
  deriving DecidableEq, Repr

/-- What a node records in the trace. An `apply` record carries the entry whose command the trace prints. -/
inductive Event where
  | timer (term : Int)
  | role (role : Role) (term : Int)
  | election (term : Int)
  | vote (candidate : NodeId) (term : Int)
  | dedup (command : String)
  | append (index term : Int) (command : String)
  | cfgchange (index term : Int) (voters : List NodeId)
  | read (id index : Int)
  | readserved (id : Int) (command : String)
  | commit (index : Int)
  | apply (index : Int) (entry : Entry)
  | installsnap (index term : Int)
  | snapshot (index term : Int)
  deriving DecidableEq, Repr

/-- What the invariant checker may see of a node (`invariants.py`, `NodeView`). -/
structure NodeView where
  id : NodeId
  role : Role
  term : Int
  log : List Entry
  commitIndex : Int
  applied : List String
  logVersion : Int
  incarnation : Int
  baseIndex : Int
  baseTerm : Int
  voters : List NodeId
  deriving DecidableEq

/-- A call of one of the injected callables: `send`, `sim.schedule` of a timer callback with its sequence number, `record`,
`on_apply`, and `before_compact`, which lets the checker look at the node. -/
inductive Effect where
  | send (dst : NodeId) (msg : Message)
  | schedule (kind : TimerKind) (seq : Int)
  | record (event : Event)
  | onApply (command result : String)
  | beforeCompact (view : NodeView)
  deriving DecidableEq

/-- A read waiting to be confirmed: the encoded command, the read index, the nodes that have acknowledged. -/
structure PendingRead where
  command : String
  readIndex : Int
  acks : Finset NodeId
  deriving DecidableEq

/-- One Raft server. -/
structure RaftNode where
  id : NodeId
  peers : List NodeId
  bugs : Bugs
  config : RaftConfig
  /-- Persistent state. `log` holds the entries at the logical indices above `baseIndex`. -/
  term : Int := 0
  votedFor : Option NodeId := none
  log : List Entry := []
  baseIndex : Int := 0
  baseTerm : Int := 0
  snapshot : Option Snapshot := none
  /-- The configuration is derived from the log and the snapshot; `configIndex` is the index of the entry that governs. -/
  initialVoters : List NodeId
  voters : List NodeId
  configIndex : Int := 0
  /-- Volatile state. -/
  role : Role := .follower
  commitIndex : Int := 0
  lastApplied : Int := 0
  applied : List String := []
  kv : KVStateMachine := {}
  leaderId : Option NodeId := none
  alive : Bool := true
  logVersion : Int := 0
  incarnation : Int := 0
  /-- Leader-only volatile state. -/
  nextIndex : Dict NodeId Int := ∅
  matchIndex : Dict NodeId Int := ∅
  votes : Finset NodeId := ∅
  clientIndex : Dict Int Int := ∅
  pendingReads : Dict Int PendingRead := ∅
  nextReadId : Int := 0
  committedThisTerm : Bool := false
  /-- Invalidates stale timer callbacks. -/
  timerSeq : Int := 0
  /-- The calls of the injected callables, in order. -/
  out : List Effect := []

namespace RaftNode

/-- `RaftNode(node_id, peer_ids, …)`. -/
def new (id : NodeId) (peerIds : List NodeId) (config : RaftConfig) (bugs : Bugs) (initialVoters : Option (List NodeId)) :
    RaftNode :=
  let peers := peerIds.insertionSort (· ≤ ·)
  let voters := ((initialVoters.getD (peers ++ [id])).insertionSort (· ≤ ·))
  { id, peers, bugs, config, initialVoters := voters, voters }

/-- Call one of the injected callables. -/
def emit (self : RaftNode) (e : Effect) : RaftNode := { self with out := self.out ++ [e] }

/-- `send`. -/
def send (self : RaftNode) (dst : NodeId) (msg : Message) : RaftNode := self.emit (.send dst msg)

/-- `_record`. -/
def record (self : RaftNode) (event : Event) : RaftNode := self.emit (.record event)

/-! ## Log helpers: all indexing is logical -/

/-- `last_log_index`. -/
def lastLogIndex (self : RaftNode) : Int := self.baseIndex + self.log.length

/-- The offset into `log` of a logical index above the base. -/
def phys (self : RaftNode) (index : Int) : Int := index - self.baseIndex - 1

/-- The term of the entry at a logical index; the base term at or below the compaction boundary. -/
def termAt (self : RaftNode) (index : Int) : Except PyError Int :=
  if index ≤ self.baseIndex then .ok self.baseTerm else (·.term) <$> pyIndex self.log (self.phys index)

/-- `entry_at`. -/
def entryAt (self : RaftNode) (index : Int) : Except PyError Entry := pyIndex self.log (self.phys index)

/-- The entries at a logical index and above, clamped at the base. -/
def logSuffix (self : RaftNode) (fromIndex : Int) : List Entry := sliceFrom self.log (max 0 (self.phys fromIndex))

/-! ## Membership -/

/-- The current voting set without this node. -/
def otherVoters (self : RaftNode) : List NodeId := self.voters.filter (· ≠ self.id)

/-- `_adopt_config`. -/
def adoptConfig (self : RaftNode) (voters : List NodeId) (index : Int) : RaftNode :=
  { self with voters, configIndex := index }

/-- The loop of `_rebuild_config`: the last configuration entry of the log from logical index `next` on, or the one given. -/
def lastConfig (voters : List NodeId) (index next : Int) : List Entry → List NodeId × Int
  | [] => (voters, index)
  | entry :: entries =>
    match decodeConfig entry.command with
    | some decoded => lastConfig decoded next (next + 1) entries
    | none => lastConfig voters index (next + 1) entries

/-- Recompute the configuration from the log, the snapshot or the initial configuration. -/
def rebuildConfig (self : RaftNode) : RaftNode :=
  let start := match self.snapshot with
    | some snapshot => (snapshot.voters, snapshot.lastIndex)
    | none => (self.initialVoters, 0)
  let governing := lastConfig start.1 start.2 (self.baseIndex + 1) self.log
  self.adoptConfig governing.1 governing.2

/-- The loop of `_config_at`: the last configuration entry among the first `n` of the log. -/
def configBelow (log : List Entry) : Nat → Except PyError (Option (List NodeId))
  | 0 => .ok none
  | i + 1 => do
    let entry ← pyIndex log i
    match decodeConfig entry.command with
    | some decoded => return some decoded
    | none => configBelow log i

/-- The configuration in force at a logical index. -/
def configAt (self : RaftNode) (upto : Int) : Except PyError (List NodeId) := do
  match ← configBelow self.log (upto - self.baseIndex).toNat with
  | some decoded => return decoded
  | none =>
    match self.snapshot with
    | some snapshot => return snapshot.voters
    | none => return self.initialVoters

/-- What the checker may see. -/
def view (self : RaftNode) : NodeView :=
  { id := self.id, role := self.role, term := self.term, log := self.log, commitIndex := self.commitIndex,
    applied := self.applied, logVersion := self.logVersion, incarnation := self.incarnation,
    baseIndex := self.baseIndex, baseTerm := self.baseTerm, voters := self.voters }

end RaftNode

end DeterministicRaft
