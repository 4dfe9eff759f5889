import DeterministicRaft.Actions
import DeterministicRaft.Cluster
import DeterministicRaft.Nemesis
import DeterministicRaft.Simulator

/-!
# The cluster on its simulator (`cluster.py`)

The nodes and their clients, with the queue of events that decides what comes next, the network between the nodes, and the drivers
that inject faults. What a node asks for in an operation (messages, timers, records) is done in the order in which it asked. The
check of the invariants after each event only reads; it is not repeated here.
-/

namespace DeterministicRaft

/-- How often a client acts. -/
def CLIENT_INTERVAL : Int := 100

/-- How often the fault driver acts. -/
def FAULT_INTERVAL : Int := 100

/-- How often the membership driver acts. -/
def MEMBERSHIP_INTERVAL : Int := 100

/-- The arguments of `Cluster(…)`, and what it checks of them. -/
structure Settings where
  numNodes : ℕ := 5
  faults : Faults := .none
  config : RaftConfig := {}
  clientInterval : Option Int := some CLIENT_INTERVAL
  recordHistory : Bool := true
  bugs : Bugs := NO_BUGS
  suppressed : Finset ℕ := ∅
  readIndex : Bool := false
  membership : Bool := false
  initialVoters : Option (List NodeId) := none
  nemesis : Option NemesisSchedule := none
  someNode : 1 ≤ numNodes
  spareNode : membership = true → 3 ≤ numNodes
  knownVoters : ∀ voters, initialVoters = some voters → voters ⊆ pyRange 0 numNodes
  knownNodes : ∀ schedule, nemesis = some schedule → schedule.maxNode < numNodes

/-- What the simulator calls when an event is due. A message is delivered and a timer fires by its place in the trace of calls. -/
inductive Callback where
  | deliver (k : ℕ)
  | fire (k : ℕ)
  | clientTick
  | faultTick
  | membershipTick
  | nemesisFire (injection : Injection)
  | healPartition
  | linkUp (a b : NodeId)
  | clearLossyLink (a b : NodeId)
  | maybeResume (node : NodeId)
  deriving DecidableEq

/-- Why a message is lost. -/
inductive Loss where
  | senderCrashed | lossyLink | lost | dstCrashed | linkDown | partitioned
  deriving DecidableEq

/-- A line of the trace. -/
inductive Line where
  | node (n : NodeId) (event : Event)
  | send (src dst : NodeId) (msg : Message)
  | drop (src dst : NodeId) (why : Loss)
  | dup (src dst : NodeId) (msg : Message)
  | deliver (src dst : NodeId) (msg : Message)
  | client (target : NodeId) (clientId : Int) (encoded : String)
  | retry (target : NodeId) (clientId : Int) (encoded : String)
  | staleread (target : NodeId) (encoded result : String)
  | nemesis (detail : String)
  | linkdown (a b : NodeId)
  | linkup (a b : NodeId)
  | lossy (a b : NodeId) (dropP : ℚ)
  | lossyheal (a b : NodeId)
  | partition (groups : List (Finset NodeId))
  | heal
  | crash (node : NodeId)
  | resume (node : NodeId)
  deriving DecidableEq

namespace Settings

variable (settings : Settings)

/-- The nodes. -/
def ids : List NodeId := pyRange 0 settings.numNodes

/-- The fault profile. -/
def profile : FaultProfile := PROFILES settings.faults

/-- The voters all nodes start with: in membership mode the last node is left out. -/
def voters : List NodeId :=
  settings.initialVoters.getD (if settings.membership then pyRange 0 (settings.numNodes - 1) else settings.ids)

/-- What the schedule injects. -/
def injections : List Injection :=
  match settings.nemesis with
  | some schedule => schedule.injections
  | none => []

/-- The low node ids (rounded up) and the high ones. -/
def halves : Finset NodeId × Finset NodeId :=
  let half := (settings.ids.length + 1) / 2
  ((settings.ids.take half).toFinset, (settings.ids.drop half).toFinset)

/-- Everyone but one. -/
def others (victim : NodeId) : Finset NodeId := (settings.ids.filter (· ≠ victim)).toFinset

/-- The nodes started. -/
def world : World :=
  World.launch settings.ids settings.voters (fun n => settings.ids.filter (· ≠ n)) (fun _ => settings.config)
    (fun _ => settings.bugs)

/-- The first voters are nodes. -/
theorem voters_subset : settings.voters ⊆ settings.ids := by
  unfold voters
  cases h : settings.initialVoters with
  | some voters => exact settings.knownVoters voters h
  | none =>
    simp only [Option.getD_none]
    split
    · intro n hn
      have hn := mem_pyRange.1 hn
      exact mem_pyRange.2 ⟨hn.1, by omega⟩
    · exact List.Subset.refl _

/-- What does not change in a run, as far as the nodes and the clients go. -/
def network : Network where
  ids := settings.ids
  initialVoters := settings.voters.dedup
  config := settings.config
  reconfigurable := settings.membership
  readIndex := settings.readIndex
  recordHistory := settings.recordHistory
  ids_nodup := by
    unfold ids pyRange
    exact List.nodup_range.map fun i j h => by simpa [Int.ofNat_inj] using h
  voters_nodup := List.nodup_dedup _
  voters_subset _ hn := settings.voters_subset (List.mem_dedup.1 hn)

end Settings

/-- The cluster: its nodes and clients, its simulator and network, what the fault drivers count, and the trace. -/
structure Harness (R : RandomSource) where
  cluster : Cluster
  sim : Simulator R Callback
  net : SimNetwork := {}
  memberTurn : ℕ := 0
  faultSeq : ℕ := 0
  trace : List (Int × Line) := []

namespace Harness

variable {R : RandomSource} (settings : Settings)

/-- `record`. -/
def record (self : Harness R) (line : Line) : Harness R := { self with trace := self.trace ++ [(self.sim.clock.now, line)] }

/-- `Simulator.schedule`. -/
def schedule (self : Harness R) (delay : Int) (fn : Callback) : Except SimError (Harness R) := do
  let sim ← self.sim.schedule delay fn
  return { self with sim }

/-- `rng.randint`. -/
def randint (self : Harness R) (lo hi : Int) : Except SimError (Int × Harness R) := do
  let draw ← self.sim.randint lo hi
  return (draw.1, { self with sim := draw.2 })

/-- Whether `rng.random()` is below a probability. -/
def chance (self : Harness R) (p : ℚ) : Bool × Harness R := (self.sim.random.1 < p, { self with sim := self.sim.random.2 })

/-- The same, with no draw if the probability is zero. -/
def risk (self : Harness R) (p : ℚ) : Bool × Harness R := if 0 < p then self.chance p else (false, self)

/-! ## The network -/

/-- `Network._drop`: a message is lost, and the trace says why. -/
def drop (self : Harness R) (src dst : NodeId) (why : Loss) : Harness R :=
  { self with net := { self.net with dropped := self.net.dropped + 1 } }.record (.drop src dst why)

/-- The draw for a lossy link. -/
def lossyDraw (self : Harness R) (src dst : NodeId) : Bool × Harness R :=
  match self.net.lossyLinks.lookup (link src dst) with
  | some dropP => self.chance dropP
  | none => (false, self)

/-- `send`, of the message at place `k` of the trace of calls. -/
def send (self : Harness R) (src dst : NodeId) (msg : Message) (k : ℕ) : Except SimError (Harness R) :=
  let self := { self with net := { self.net with sent := self.net.sent + 1 } }.record (.send src dst msg)
  if src ∈ self.net.crashed then .ok (self.drop src dst .senderCrashed)
  else
    let (lossy, self) := self.lossyDraw src dst
    if lossy then .ok (self.drop src dst .lossyLink)
    else
      let (lost, self) := self.risk settings.profile.dropP
      if lost then .ok (self.drop src dst .lost)
      else do
        let (delay, self) ← self.randint settings.profile.minDelay settings.profile.maxDelay
        let self ← self.schedule delay (.deliver k)
        let (dup, self) := self.risk settings.profile.dupP
        if dup then
          let (dupDelay, self) ← self.randint settings.profile.minDelay settings.profile.maxDelay
          let self := { self with net := { self.net with duplicated := self.net.duplicated + 1 } }.record (.dup src dst msg)
          self.schedule dupDelay (.deliver k)
        else return self

/-! ## The nodes -/

/-- `_arm_election_timer` and `_arm_heartbeat_timer`, as far as the simulator goes. -/
def startTimer (self : Harness R) (n : NodeId) (kind : TimerKind) (k : ℕ) : Except SimError (Harness R) :=
  let config := (self.cluster.world.nodes n).config
  match kind with
  | .election => do
    let (timeout, self) ← self.randint config.electionTimeoutMin config.electionTimeoutMax
    self.schedule timeout (.fire k)
  | .heartbeat => self.schedule config.heartbeatInterval (.fire k)

/-- What a node asks for: the call, and its place in the trace of calls. -/
def hear (self : Harness R) (call : (NodeId × Effect) × ℕ) : Except SimError (Harness R) :=
  match call with
  | ((src, .send dst msg), k) => self.send settings src dst msg k
  | ((n, .schedule kind _), k) => self.startTimer n kind k
  | ((n, .record event), _) => .ok (self.record (.node n event))
  | _ => .ok self

/-- The nodes and their clients have gone on to `cluster`: what the nodes asked for in between is done. -/
def follow (self : Harness R) (cluster : Cluster) : Except SimError (Harness R) :=
  (cluster.world.trace.zipIdx.drop self.cluster.world.trace.length).foldlM (hear settings) { self with cluster }

/-- What the nodes raise. -/
def raising {α : Type} (x : Except PyError α) : Except SimError α := x.mapError .raised

/-- An operation on a node. -/
def act (self : Harness R) (action : Action) : Except SimError (Harness R) := do
  let cluster ← raising (self.cluster.act settings.network action)
  self.follow settings cluster

/-- `_delivery`, of the message at place `k` of the trace of calls. -/
def delivery (self : Harness R) (k : ℕ) : Except SimError (Harness R) :=
  match self.cluster.world.trace[k]? with
  | some (src, .send dst msg) =>
    if dst ∈ self.net.crashed then .ok (self.drop src dst .dstCrashed)
    else if link src dst ∈ self.net.downLinks then .ok (self.drop src dst .linkDown)
    else if self.net.reachable src dst = false then .ok (self.drop src dst .partitioned)
    else
      let self := { self with net := { self.net with delivered := self.net.delivered + 1 } }.record (.deliver src dst msg)
      self.act settings (.deliver k)
  | _ => .ok self

/-- The alive nodes that believe they lead. -/
def leaders (self : Harness R) : List NodeId :=
  settings.ids.filter fun n => (self.cluster.world.nodes n).role = .leader ∧ (self.cluster.world.nodes n).alive = true

/-- The one of the highest term. -/
def leader (self : Harness R) : Option NodeId :=
  let term n := (self.cluster.world.nodes n).term
  (self.leaders settings).foldl (fun best n => if best.any fun m => term n ≤ term m then best else some n) none

/-! ## The drivers -/

/-- What `_client_tick` records of a client's attempt at a node, and of a read answered there at once. -/
def recordAttempt (self : Harness R) (clientId : Int) (target : NodeId) : Harness R :=
  let outstanding := self.cluster.outstanding.lookup clientId
  let encoded := outstanding.getD (clientWorkload clientId (self.cluster.nextReq clientId)).encode
  let node := self.cluster.world.nodes target
  let cmd := Command.decode encoded
  let self := self.record (if outstanding.isNone then .client target clientId encoded else .retry target clientId encoded)
  if node.alive = true ∧ node.role = .leader ∧ node.bugs.staleLocalReads = true ∧ cmd.op = GET then
    self.record (.staleread target encoded (node.kv.store.getD cmd.key ""))
  else self

/-- `_client_tick`. -/
def clientTick (self : Harness R) : Except SimError (Harness R) := do
  let clientId : Int := (self.cluster.clientTurn % WORKLOAD_CLIENTS : ℕ)
  let (target, sim) ← self.sim.choice settings.ids
  let cluster ← raising (self.cluster.clientTick settings.network target)
  let self ← ({ self with sim }.recordAttempt clientId target).follow settings cluster
  match settings.clientInterval with
  | some interval => self.schedule (if interval = 0 then CLIENT_INTERVAL else interval) .clientTick
  | none => self.schedule CLIENT_INTERVAL .clientTick

/-- `_fire_fault`: the next fault gets an ordinal; does it happen? -/
def fireFault (self : Harness R) : Bool × Harness R :=
  (self.faultSeq ∉ settings.suppressed, { self with faultSeq := self.faultSeq + 1 })

/-- `Network.set_partition`. -/
def setPartition (self : Harness R) (groups : List (Finset NodeId)) : Except SimError (Harness R) :=
  match self.net.setPartition settings.ids groups with
  | (net, none) => .ok ({ self with net }.record (.partition groups))
  | (_, some e) => .error e

/-- `Network.heal`. -/
def healPartition (self : Harness R) : Harness R := { self with net := self.net.heal settings.ids }.record .heal

/-- `Cluster.pause`. -/
def pause (self : Harness R) (node : NodeId) : Except SimError (Harness R) := do
  let self := { self with net := { self.net with crashed := insert node self.net.crashed } }
  let self ← self.act settings (.pause node)
  return self.record (.crash node)

/-- `Cluster.resume`. -/
def resume (self : Harness R) (node : NodeId) : Except SimError (Harness R) := do
  let self := { self with net := { self.net with crashed := self.net.crashed.erase node } }
  let self ← self.act settings (.resume node)
  return self.record (.resume node)

/-- `_maybe_resume`. -/
def maybeResume (self : Harness R) (node : NodeId) : Except SimError (Harness R) :=
  if node ∈ self.net.crashed then self.resume settings node else .ok self

/-- `Network.link_down`. -/
def linkDown (self : Harness R) (a b : NodeId) : Harness R :=
  if self.net.linkIsDown a b then self else { self with net := self.net.setLinkDown a b }.record (.linkdown a b)

/-- `Network.link_up`. -/
def linkUp (self : Harness R) (a b : NodeId) : Harness R :=
  if self.net.linkIsDown a b then { self with net := self.net.setLinkUp a b }.record (.linkup a b) else self

/-- `Network.set_lossy_link`. -/
def setLossyLink (self : Harness R) (a b : NodeId) (dropP : ℚ) : Harness R :=
  { self with net := self.net.setLinkLossy a b dropP }.record (.lossy a b dropP)

/-- `Network.clear_lossy_link`. -/
def clearLossyLink (self : Harness R) (a b : NodeId) : Harness R :=
  if self.net.linkIsLossy a b then { self with net := self.net.clearLinkLossy a b }.record (.lossyheal a b) else self

/-- The partitions of `_fault_tick`. -/
def partitionTick (self : Harness R) : Except SimError (Harness R) :=
  if settings.profile.partitions = false then .ok self
  else if self.net.isPartitioned settings.ids then
    let (heals, self) := self.chance (1 / 4)
    .ok (if heals then self.healPartition settings else self)
  else
    let (splits, self) := self.chance (3 / 20)
    if splits then do
      let (sides, self) ← settings.ids.foldlM (fun (sides, self) i => do
        let (side, self) ← randint self 0 1
        return (sides ++ [(i, side)], self)) (([], self) : List (NodeId × Int) × Harness R)
      let groups := [0, 1].map fun side => ((sides.filter (·.2 = side)).map (·.1)).toFinset
      if (∅ : Finset NodeId) ∈ groups then return self
      else
        let (fires, self) := self.fireFault settings
        if fires then self.setPartition settings groups else return self
    else .ok self

/-- The crashes of `_fault_tick`. -/
def crashTick (self : Harness R) : Except SimError (Harness R) :=
  let (crashes, self) := if settings.profile.crashes then self.chance (1 / 10) else (false, self)
  if crashes then
    let candidates :=
      if self.net.crashed.card < (settings.numNodes - 1) / 2 then
        settings.ids.filter fun n => (self.cluster.world.nodes n).alive
      else []
    if candidates = [] then .ok self
    else do
      let (victim, sim) ← self.sim.choice candidates
      let (resumeDelay, self) ← randint { self with sim } 100 400
      let (fires, self) := self.fireFault settings
      if fires then
        let self ← self.pause settings victim
        self.schedule resumeDelay (.maybeResume victim)
      else return self
  else .ok self

/-- `_fault_tick`. -/
def faultTick (self : Harness R) : Except SimError (Harness R) := do
  let self ← self.partitionTick settings
  let self ← self.crashTick settings
  self.schedule FAULT_INTERVAL .faultTick

/-- One leader's turn in `_membership_tick`. -/
def proposeChange (self : Harness R) (leader : NodeId) : Except SimError (Harness R) := do
  let node := self.cluster.world.nodes leader
  let missing := settings.ids.filter (· ∉ node.voters)
  let victim := settings.ids.getD (self.memberTurn % settings.numNodes) 0
  let memberTurn := if missing = [] ∧ victim = leader then self.memberTurn + 1 else self.memberTurn
  let victim := settings.ids.getD (memberTurn % settings.numNodes) 0
  let proposal := match missing with
    | n :: _ => (node.voters ++ [n]).insertionSort (· ≤ ·)
    | [] => node.voters.filter (· ≠ victim)
  let accepted ← raising (Prod.snd <$> node.changeConfig proposal)
  let self ← { self with memberTurn }.act settings (.changeConfig leader proposal)
  return if accepted = true ∧ missing = [] then { self with memberTurn := self.memberTurn + 1 } else self

/-- `_membership_tick`. -/
def membershipTick (self : Harness R) : Except SimError (Harness R) := do
  let self ← (self.leaders settings).foldlM (proposeChange settings) self
  self.schedule MEMBERSHIP_INTERVAL .membershipTick

/-- The partition patterns of `_nemesis_fire`, once it is known whom to cut off from whom. -/
def split (self : Harness R) (groups : List (Finset NodeId)) (duration : Int) : Except SimError (Harness R) :=
  let (fires, self) := self.fireFault settings
  if fires then do
    let self ← self.setPartition settings groups
    self.schedule duration .healPartition
  else .ok self

/-- `_nemesis_fire`. -/
def nemesisFire (self : Harness R) (op : NemesisOp) : Except SimError (Harness R) :=
  match op with
  | .partitionHalves _ duration =>
    if settings.halves.2 = ∅ then .ok (self.record (.nemesis "partition_halves|single-node|skipped"))
    else self.split settings [settings.halves.1, settings.halves.2] duration
  | .isolateLeader _ duration =>
    match self.leader settings with
    | none => .ok (self.record (.nemesis "isolate_leader|no-leader|skipped"))
    | some victim =>
      if settings.ids.length < 2 then .ok (self.record (.nemesis "isolate_leader|no-leader|skipped"))
      else self.split settings [{victim}, settings.others victim] duration
  | .flappingLink a b _ period _ =>
    let (fires, self) := self.fireFault settings
    if fires then (self.linkDown a b).schedule period (.linkUp a b) else .ok self
  | .lossyLink a b _ duration dropP =>
    let (fires, self) := self.fireFault settings
    if fires then (self.setLossyLink a b dropP).schedule duration (.clearLossyLink a b) else .ok self
  | .crashNode node _ duration =>
    if (self.cluster.world.nodes node).alive = false then
      .ok (self.record (.nemesis ("crash_node|n" ++ toString node ++ "|already-down|skipped")))
    else
      let (fires, self) := self.fireFault settings
      if fires then do
        let self ← self.pause settings node
        self.schedule duration (.maybeResume node)
      else .ok self

/-! ## Events -/

/-- What an event does when it is due. -/
def call (self : Harness R) : Callback → Except SimError (Harness R)
  | .deliver k => self.delivery settings k
  | .fire k => self.act settings (.fire k)
  | .clientTick => self.clientTick settings
  | .faultTick => self.faultTick settings
  | .membershipTick => self.membershipTick settings
  | .nemesisFire injection => self.nemesisFire settings injection.op
  | .healPartition => .ok (self.healPartition settings)
  | .linkUp a b => .ok (self.linkUp a b)
  | .clearLossyLink a b => .ok (self.clearLossyLink a b)
  | .maybeResume node => self.maybeResume settings node

/-- One simulator step: the next event happens. There may be none. -/
def step (self : Harness R) : Except SimError (Bool × Harness R) :=
  match self.sim.clock.pop with
  | none => .ok (false, self)
  | some ((_, fn), clock) => do
    let self ← { self with sim := { self.sim with clock }, cluster := self.cluster.tick }.call settings fn
    return (true, self)

/-- Whether a driver runs at all is decided at the start. -/
def startDriver (self : Harness R) (runs : Bool) (delay : Int) (fn : Callback) : Except SimError (Harness R) :=
  if runs then self.schedule delay fn else .ok self

/-- A cluster that has just been made. -/
def init (seed : R.State) : Except SimError (Harness R) := do
  let self : Harness R := { cluster := { world := { settings.world with trace := [] } }, sim := .new seed }
  let self ← self.follow settings { world := settings.world }
  let self ← self.startDriver (settings.clientInterval.getD 0 ≠ 0) (settings.clientInterval.getD 0) .clientTick
  let self ← self.startDriver (settings.profile.partitions || settings.profile.crashes) FAULT_INTERVAL .faultTick
  let self ← self.startDriver settings.membership MEMBERSHIP_INTERVAL .membershipTick
  settings.injections.foldlM (fun self injection => schedule self injection.at_ (.nemesisFire injection)) self

/-- `Cluster.run`: the cluster after so many steps. Once no event is left a step changes nothing. -/
def run (seed : R.State) : ℕ → Except SimError (Harness R)
  | 0 => init settings seed
  | steps + 1 => do
    let self ← run seed steps
    let (_, self) ← self.step settings
    return self

end Harness

/-- A run of a cluster: the cluster at each moment; an event leads from each moment to the next, and none of them raises. -/
structure HarnessRun (settings : Settings) (R : RandomSource) where
  seed : R.State
  length : ℕ
  state : ℕ → Harness R
  start : Harness.init settings seed = .ok (state 0)
  next : ∀ k < length, (state k).step settings = .ok (true, state (k + 1))

/-- Two nodes and their clients, without faults. -/
def undisturbed : Settings where
  numNodes := 2
  someNode := by decide
  spareNode h := by cases h
  knownVoters _ h := by cases h
  knownNodes _ h := by cases h

end DeterministicRaft
