import DeterministicRaft.Handlers

/-!
# The nodes and the network between them

All nodes, and the trace of every call they made of the injected callables. A message that was sent stays in the trace: it can be
delivered at any time, in any order, any number of times or never. A timer that was scheduled can fire at any time; the node
itself drops a stale one. The client, membership and fault drivers call the node's operations in any order.
-/

namespace DeterministicRaft

/-- What does not change in a run: the servers, the voters all start with, the configuration of the nodes, whether
`change_config` is ever called, whether reads are served by ReadIndex, and whether the clients' history is recorded. -/
structure Network where
  ids : List NodeId
  initialVoters : List NodeId
  config : RaftConfig
  reconfigurable : Bool
  readIndex : Bool
  recordHistory : Bool
  ids_nodup : ids.Nodup
  voters_nodup : initialVoters.Nodup
  voters_subset : initialVoters ⊆ ids

/-- The nodes, and all calls made so far, each with the node that made it. -/
structure World where
  nodes : NodeId → RaftNode
  trace : List (NodeId × Effect)

/-- One thing that happens to a node. -/
inductive Action where
  /-- The network delivers the message sent at a place of the trace. -/
  | deliver (k : Nat)
  /-- The timer scheduled at a place of the trace fires. -/
  | fire (k : Nat)
  | clientCommand (node : NodeId) (command : String)
  | changeConfig (node : NodeId) (newVoters : List NodeId)
  | requestRead (node : NodeId) (command : String)
  | pause (node : NodeId)
  | resume (node : NodeId)
  deriving DecidableEq

namespace World

/-- An operation on one node; the calls it makes go to the trace. -/
def perform (w : World) (n : NodeId) (op : RaftNode → Except PyError RaftNode) : Except PyError World := do
  let self ← op (w.nodes n)
  return {
    nodes := Function.update w.nodes n { self with out := [] }
    trace := w.trace ++ self.out.map (fun e => (n, e)) }

/-- The callback of a timer. -/
def onTimer (kind : TimerKind) (seq : Int) (self : RaftNode) : Except PyError RaftNode :=
  match kind with
  | .election => self.onElectionTimeout seq
  | .heartbeat => self.onHeartbeat seq

/-- The world after an action, or what the action raises. -/
def step (w : World) : Action → Except PyError World
  | .deliver k =>
    match w.trace[k]? with
    | some (_, .send dst msg) => w.perform dst (·.handle msg)
    | _ => .ok w
  | .fire k =>
    match w.trace[k]? with
    | some (n, .schedule kind seq) => w.perform n (onTimer kind seq)
    | _ => .ok w
  | .clientCommand n command => w.perform n (fun self => Prod.fst <$> self.clientCommand command)
  | .changeConfig n newVoters => w.perform n (fun self => Prod.fst <$> self.changeConfig newVoters)
  | .requestRead n command => w.perform n (fun self => .ok (self.requestRead command).1)
  | .pause n => w.perform n (fun self => .ok self.pause)
  | .resume n => w.perform n (fun self => .ok self.resume)

/-- The world after some actions, or what one of them raises. -/
def exec (w : World) (acts : List Action) : Except PyError World := acts.foldlM step w

/-- The entry first applied at an index. -/
def appliedAt (w : World) (i : Int) : Option Entry :=
  w.trace.findSome? fun call =>
    match call.2 with
    | .record (.apply j entry) => if j = i then some entry else none
    | _ => none

/-- A node's whole log: the entries it has compacted, which were applied before, and those it still has. -/
def logicalLog (w : World) (n : NodeId) : List Entry :=
  (List.range (w.nodes n).baseIndex.toNat).filterMap (fun j : Nat => w.appliedAt ((j : Int) + 1)) ++ (w.nodes n).log

/-- Node `n` has applied the command `c` at index `i`: it recorded so, or lists it among its applied commands. -/
def HasApplied (w : World) (n : NodeId) (i : Int) (c : String) : Prop :=
  (∃ entry : Entry, (n, Effect.record (.apply i entry)) ∈ w.trace ∧ entry.command = c) ∨
  ∃ j : ℕ, i = (w.nodes n).baseIndex + j + 1 ∧ (w.nodes n).applied[j]? = some c

end World

namespace Network

variable (net : Network)

/-- A server before it starts. -/
def newNode (n : NodeId) : RaftNode :=
  RaftNode.new n (net.ids.filter (· ≠ n)) net.config NO_BUGS (some net.initialVoters)

/-- All servers started, their first election timers armed. -/
def init : World where
  nodes n := { (net.newNode n).start with out := [] }
  trace := net.ids.flatMap fun n => (net.newNode n).start.out.map fun e => (n, e)

/-- What clients and operators may do: a client's string is no configuration, a proposal names servers only, and `request_read` is
called only where reads are served by ReadIndex. -/
def Admits : Action → Prop
  | .clientCommand _ command => decodeConfig command = none
  | .changeConfig _ newVoters => net.reconfigurable = true ∧ newVoters ⊆ net.ids
  | .requestRead _ _ => net.readIndex = true
  | _ => True

end Network

/-- A run: a world for each moment, and the action from each moment to the next. -/
structure Run (net : Network) where
  state : ℕ → World
  action : ℕ → Action
  start : state 0 = net.init
  admits : ∀ k, net.Admits (action k)
  next : ∀ k, (state k).step (action k) = .ok (state (k + 1))

end DeterministicRaft
