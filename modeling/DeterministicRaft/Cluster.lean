import DeterministicRaft.Linearizability
import DeterministicRaft.Network

/-!
# The cluster and its clients (`cluster.py`)

A cluster is the nodes with the client driver: three clients, each with one operation outstanding at a time, which they retry at
whatever node a tick picks, and the history of what they saw. A node's calls of `on_apply` are heard in the event that makes
them. The queue of events is not modelled: any message that was sent and any timer that was scheduled can come next, as can a
client's tick, a crash or a restart.
-/

namespace DeterministicRaft

def WORKLOAD_CLIENTS : ℕ := 3

def WORKLOAD_KEYS : List String := ["k0", "k1", "k2"]

def WORKLOAD_OPS : List String := [PUT, PUT, GET, CAS]

/-- A client's command, a pure function of the client and the request. -/
def clientWorkload (clientId reqId : Int) : Command :=
  let seq := reqId * WORKLOAD_CLIENTS + clientId
  let key := WORKLOAD_KEYS.getD (seq % WORKLOAD_KEYS.length).toNat ""
  let op := WORKLOAD_OPS.getD (seq % WORKLOAD_OPS.length).toNat ""
  if op = GET then { clientId, reqId, op := GET, key }
  else if op = CAS then
    { clientId, reqId, op := CAS, key, value := "v" ++ toString seq
      expected := if seq ≠ 0 then "v" ++ toString (seq - 1) else "" }
  else { clientId, reqId, op := PUT, key, value := "v" ++ toString seq }

/-- The nodes, the simulator's count of events, and the client driver. A pending operation has its row at a place of the
history. -/
structure Cluster where
  world : World
  steps : Int := 0
  clientTurn : ℕ := 0
  nextReq : Int → ℕ := fun _ => 0
  outstanding : Dict Int String := ∅
  history : List HistoryEntry := []
  pending : Dict String ℕ := ∅

/-- What can come next. -/
inductive SimEvent where
  /-- A copy of the message sent at a place of the trace arrives. -/
  | deliver (k : ℕ)
  /-- The timer scheduled at a place of the trace fires. -/
  | fire (k : ℕ)
  /-- The next client acts, at a node the simulator picks. -/
  | clientTick (target : NodeId)
  /-- An event that reaches no node: a message is lost, the network changes, the fault driver decides. -/
  | other
  /-- A node crashes, or restarts: in the event before, or between two events. -/
  | pause (node : NodeId)
  | resume (node : NodeId)
  deriving DecidableEq

namespace Cluster

variable (net : Network)

/-- The row of a new operation. -/
def newRow (command : Command) (invokeStep : Int) : HistoryEntry where
  clientId := command.clientId
  reqId := command.reqId
  op := command.op
  key := command.key
  value := command.value
  expected := command.expected
  invokeStep := invokeStep

/-- `_invoke`. -/
def invoke (self : Cluster) (command : Command) (encoded : String) : Cluster :=
  if net.recordHistory = false then self
  else { self with
    history := self.history ++ [newRow command self.steps]
    pending := self.pending.insert encoded self.history.length }

/-- `_on_apply`: the first application of an outstanding operation lets its client move on, and completes its row. -/
def onApply (self : Cluster) (encoded result : String) : Cluster :=
  let cmd := Command.decode encoded
  if cmd.isStructured = false then self
  else
    let self :=
      if self.outstanding.lookup cmd.clientId = some encoded then { self with
        outstanding := self.outstanding.erase cmd.clientId
        nextReq := Function.update self.nextReq cmd.clientId (self.nextReq cmd.clientId + 1) }
      else self
    if net.recordHistory = true then
      match self.pending.lookup encoded with
      | none => self
      | some row => { self with
          pending := self.pending.erase encoded
          history := self.history.modify row fun r => { r with returnStep := some self.steps, observed := some result } }
    else self

/-- What the cluster does when a node calls one of the injected callables. -/
def hear (self : Cluster) : Effect → Cluster
  | .onApply command result => self.onApply net command result
  | _ => self

/-- An action on the nodes; the cluster hears the calls they make. -/
def act (self : Cluster) (action : Action) : Except PyError Cluster := do
  let world ← self.world.step action
  return (world.trace.drop self.world.trace.length).foldl (fun self call => self.hear net call.2) { self with world }

/-- A client's attempt at a node. -/
def submit (self : Cluster) (target : NodeId) (encoded : String) : Except PyError Cluster :=
  let node := self.world.nodes target
  if node.alive = true ∧ node.role = .leader then
    let cmd := Command.decode encoded
    if node.bugs.staleLocalReads = true ∧ cmd.op = GET then .ok (self.onApply net encoded (node.kv.store.getD cmd.key ""))
    else if net.readIndex = true ∧ cmd.op = GET then self.act net (.requestRead target encoded)
    else self.act net (.clientCommand target encoded)
  else .ok self

/-- `_client_tick`: an idle client invokes a new operation, another one retries. -/
def clientTick (self : Cluster) (target : NodeId) : Except PyError Cluster :=
  let clientId : Int := (self.clientTurn % WORKLOAD_CLIENTS : ℕ)
  let self := { self with clientTurn := self.clientTurn + 1 }
  match self.outstanding.lookup clientId with
  | none =>
    let command := clientWorkload clientId (self.nextReq clientId)
    let encoded := command.encode
    let self := { self with outstanding := self.outstanding.insert clientId encoded }
    (self.invoke net command encoded).submit net target encoded
  | some encoded => self.submit net target encoded

/-- The simulator takes the next event from its queue. -/
def tick (self : Cluster) : Cluster := { self with steps := self.steps + 1 }

/-- The cluster after an event, or what the event raises. -/
def step (self : Cluster) : SimEvent → Except PyError Cluster
  | .deliver k => self.tick.act net (.deliver k)
  | .fire k => self.tick.act net (.fire k)
  | .clientTick target => self.tick.clientTick net target
  | .other => .ok self.tick
  | .pause n => self.act net (.pause n)
  | .resume n => self.act net (.resume n)

/-- The cluster after some events, or what one of them raises. -/
def exec (self : Cluster) (events : List SimEvent) : Except PyError Cluster := events.foldlM (step net) self

end Cluster

/-- A cluster that has started. -/
def Network.cluster (net : Network) : Cluster where
  world := net.init

/-- A run of a cluster: the cluster at each moment, and the event from each moment to the next. -/
structure ClusterRun (net : Network) where
  state : ℕ → Cluster
  event : ℕ → SimEvent
  start : state 0 = net.cluster
  next : ∀ k, (state k).step net (event k) = .ok (state (k + 1))

end DeterministicRaft
