import DeterministicRaft.Node
import Mathlib.Data.Finset.Sort

/-!
# The invariant checker (`invariants.py`)

The checker is shown the cluster after every simulator step, and once more before a node compacts. It keeps what it has seen, and
it raises at the first violation. Three of its checks are skipped where a cache says that nothing they depend on has changed.
-/

namespace DeterministicRaft

/-- What a violation reports: the values its message prints. -/
inductive Violation where
  | electionSafety (term : Int) (prev id : NodeId)
  | leaderAppendOnly (id : NodeId) (term oldTop newTop : Int)
  | logMatching (a b : NodeId) (top idx : Int)
  | commitIndexMonotonic (id : NodeId) (prev commitIndex : Int)
  | committedTwice (idx : Int) (known entry : Entry) (id : NodeId)
  | commitQuorum (id : NodeId) (idx : Int) (holders size : Nat)
  | leaderCompleteness (id : NodeId) (term : Int) (entry : Entry) (idx : Int)
  | appliedTwice (idx : Int) (known cmd : String) (id : NodeId)
  deriving DecidableEq, Repr

/-- The name of the violated invariant. -/
def Violation.invariant : Violation → String
  | electionSafety .. => "ElectionSafety"
  | leaderAppendOnly .. => "LeaderAppendOnly"
  | logMatching .. => "LogMatching"
  | commitIndexMonotonic .. => "CommitIndexMonotonic"
  | committedTwice .. => "StateMachineSafety"
  | commitQuorum .. => "CommitQuorum"
  | leaderCompleteness .. => "LeaderCompleteness"
  | appliedTwice .. => "StateMachineSafety"

/-- `InvariantViolation`: what is violated, and where. -/
structure InvariantViolation where
  detail : Violation
  seed : Int
  step : Int
  replay : String
  deriving DecidableEq

/-- What a check can raise: a violation, or an index out of range. -/
inductive CheckError where
  | violation (v : InvariantViolation)
  | raised (e : PyError)
  deriving DecidableEq

/-- The nodes as the checker sees them, their ids in increasing order. -/
structure ClusterView where
  ids : List NodeId
  node : NodeId → NodeView

namespace NodeView

/-- `last_log_index`. -/
def lastLogIndex (n : NodeView) : Int := n.baseIndex + n.log.length

/-- `entry_at`. -/
def entryAt (n : NodeView) (index : Int) : Except PyError Entry := pyIndex n.log (index - n.baseIndex - 1)

/-- `term_at`. -/
def termAt (n : NodeView) (index : Int) : Except PyError Int :=
  if index ≤ n.baseIndex then .ok n.baseTerm else (·.term) <$> n.entryAt index

end NodeView

/-- The checker's books. -/
structure InvariantChecker where
  seed : Int
  replayHint : String
  checksRun : Nat := 0
  /-- Term to the single node ever seen as its leader. -/
  leadersByTerm : Dict Int NodeId := ∅
  /-- Index to the committed entry and the term in force when its commit was first observed. -/
  committed : Dict Int (Entry × Int) := ∅
  /-- Index to the command first seen applied there. -/
  appliedAt : Dict Int String := ∅
  /-- The highest commit index observed on any node. -/
  maxCommit : Int := 0
  prevCommit : Dict NodeId Int := ∅
  appliedSeen : Dict NodeId Int := ∅
  incarnation : Dict NodeId Int := ∅
  /-- A leader's term, log version, base index and log. -/
  leaderSnapshot : Dict NodeId (Int × Int × Int × List Entry) := ∅
  /-- The log versions at which two nodes were compared. -/
  pairChecked : Dict (NodeId × NodeId) (Int × Int) := ∅
  /-- A leader's term and log version, and the number of committed entries, at which it was scanned. -/
  completenessChecked : Dict NodeId (Int × Int × Nat) := ∅

namespace InvariantChecker

variable (nodes : ClusterView) (step : Int)

/-- `_fail`. -/
def fail {α : Type} (self : InvariantChecker) (detail : Violation) : Except CheckError α :=
  .error (.violation { detail, seed := self.seed, step, replay := self.replayHint })

/-- A read of a node's log inside a check. -/
def reading {α : Type} (x : Except PyError α) : Except CheckError α := x.mapError .raised

/-! ## Crash rebasing -/

/-- The loop body of `_handle_restarts`: what a new incarnation has committed and applied is seen anew. -/
def handleRestart (self : InvariantChecker) (i : NodeId) : InvariantChecker :=
  let n := nodes.node i
  let prev := self.incarnation.lookup i
  let self := { self with incarnation := self.incarnation.insert i n.incarnation }
  if prev ≠ none ∧ prev ≠ some n.incarnation then
    { self with
      prevCommit := self.prevCommit.insert i n.commitIndex
      appliedSeen := self.appliedSeen.insert i (n.baseIndex + n.applied.length) }
  else self

/-- `_handle_restarts`. -/
def handleRestarts (self : InvariantChecker) : InvariantChecker := nodes.ids.foldl (handleRestart nodes) self

/-! ## Election Safety -/

/-- The loop body of `_check_election_safety`. -/
def checkLeader (self : InvariantChecker) (i : NodeId) : Except CheckError InvariantChecker :=
  let n := nodes.node i
  if n.role = .leader then
    match self.leadersByTerm.lookup n.term with
    | none => .ok { self with leadersByTerm := self.leadersByTerm.insert n.term n.id }
    | some prev => if prev ≠ n.id then self.fail step (.electionSafety n.term prev n.id) else .ok self
  else .ok self

/-- `_check_election_safety`. -/
def checkElectionSafety (self : InvariantChecker) : Except CheckError InvariantChecker :=
  nodes.ids.foldlM (checkLeader nodes step) self

/-! ## Leader Append-Only -/

/-- Whether a leader's log has changed in its overlap with an older one, or lost entries at its top. -/
def mutated (oldBase : Int) (oldLog : List Entry) (n : NodeView) : Except PyError Bool :=
  let oldTop := oldBase + oldLog.length
  if n.lastLogIndex < oldTop then .ok true
  else (pyRange (max oldBase n.baseIndex + 1) (oldTop + 1)).anyM fun idx => do
    let old ← pyIndex oldLog (idx - oldBase - 1)
    let new ← n.entryAt idx
    return old ≠ new

/-- Compare a leader with the snapshot of it, and take a new one. -/
def compareLeader (n : NodeView) (i : NodeId) (oldBase : Int) (oldLog : List Entry) (self : InvariantChecker) :
    Except CheckError InvariantChecker := do
  if ← reading (mutated oldBase oldLog n) then
    self.fail step (.leaderAppendOnly n.id n.term (oldBase + oldLog.length) n.lastLogIndex)
  else
    return { self with leaderSnapshot := self.leaderSnapshot.insert i (n.term, n.logVersion, n.baseIndex, n.log) }

/-- The loop body of `_check_leader_append_only`: a leader's log goes on from the snapshot taken of it in the same term. -/
def checkAppendOnly (self : InvariantChecker) (i : NodeId) : Except CheckError InvariantChecker :=
  let n := nodes.node i
  if n.role ≠ .leader then .ok { self with leaderSnapshot := self.leaderSnapshot.erase i }
  else
    let cur := (n.term, n.logVersion, n.baseIndex, n.log)
    match self.leaderSnapshot.lookup i with
    | none => .ok { self with leaderSnapshot := self.leaderSnapshot.insert i cur }
    | some (term, ver, oldBase, oldLog) =>
      if term ≠ n.term then .ok { self with leaderSnapshot := self.leaderSnapshot.insert i cur }
      else if ver = n.logVersion then .ok self
      else compareLeader step n i oldBase oldLog self

/-- `_check_leader_append_only`. -/
def checkLeaderAppendOnly (self : InvariantChecker) : Except CheckError InvariantChecker :=
  nodes.ids.foldlM (checkAppendOnly nodes step) self

/-! ## Log Matching -/

/-- The first of the indices at which the terms agree, or 0. -/
def agreedIndex (a b : NodeView) : List Int → Except PyError Int
  | [] => .ok 0
  | idx :: rest => do
    if (← a.termAt idx) = (← b.termAt idx) then return idx else agreedIndex a b rest

/-- The first of the indices at which the entries differ. -/
def divergence (a b : NodeView) : List Int → Except PyError (Option Int)
  | [] => .ok none
  | idx :: rest => do
    if (← a.entryAt idx) ≠ (← b.entryAt idx) then return some idx else divergence a b rest

/-- Compare two logs over their live overlap: below the highest index of equal terms the entries must be equal. Gives that index
and the first one at which they are not. -/
def mismatch (a b : NodeView) : Except PyError (Option (Int × Int)) := do
  let lo := max a.baseIndex b.baseIndex + 1
  let hi := min a.lastLogIndex b.lastLogIndex
  let top ← agreedIndex a b (pyRange lo (hi + 1)).reverse
  match ← divergence a b (pyRange lo (top + 1)) with
  | some idx => return some (top, idx)
  | none => return none

/-- `_compare_pair`. -/
def comparePair (a b : NodeView) (self : InvariantChecker) : Except CheckError InvariantChecker := do
  match ← reading (mismatch a b) with
  | some (top, idx) => self.fail step (.logMatching a.id b.id top idx)
  | none => return { self with pairChecked := self.pairChecked.insert (a.id, b.id) (a.logVersion, b.logVersion) }

/-- The loop body of `_check_log_matching`: logs whose versions were compared before are not compared again. -/
def checkPair (self : InvariantChecker) (ids : NodeId × NodeId) : Except CheckError InvariantChecker :=
  let a := nodes.node ids.1
  let b := nodes.node ids.2
  if self.pairChecked.lookup (a.id, b.id) = some (a.logVersion, b.logVersion) then .ok self
  else comparePair step a b self

/-- The pairs of two nested loops over a list, the second from the first one's place on. -/
def pairs {α : Type} : List α → List (α × α)
  | [] => []
  | x :: xs => xs.map (fun y => (x, y)) ++ pairs xs

/-- `_check_log_matching`. -/
def checkLogMatching (self : InvariantChecker) : Except CheckError InvariantChecker :=
  (pairs nodes.ids).foldlM (checkPair nodes step) self

/-! ## Commits -/

/-- A node holds a committed entry, live or folded into its snapshot. -/
def holds (n : NodeView) (idx : Int) (entry : Entry) : Except PyError Bool :=
  if idx ≤ n.baseIndex then .ok true
  else if n.lastLogIndex ≥ idx then (fun e => decide (e = entry)) <$> n.entryAt idx
  else .ok false

/-- How many of the voters are nodes that hold the entry. -/
def holders (idx : Int) (entry : Entry) : List NodeId → Except PyError Nat
  | [] => .ok 0
  | v :: voters => do
    let held ← if v ∈ nodes.ids then holds (nodes.node v) idx entry else .ok false
    let rest ← holders idx entry voters
    return (if held then 1 else 0) + rest

/-- Record a committed entry, or compare it with the one recorded. -/
def recordCommit (n : NodeView) (idx : Int) (entry : Entry) (self : InvariantChecker) : Except CheckError InvariantChecker :=
  match self.committed.lookup idx with
  | none => .ok { self with committed := self.committed.insert idx (entry, n.term) }
  | some known => if known.1 ≠ entry then self.fail step (.committedTwice idx known.1 entry n.id) else .ok self

/-- A commit that is new to the whole cluster must be held by a majority of the committing node's configuration. -/
def checkQuorum (n : NodeView) (idx : Int) (entry : Entry) (self : InvariantChecker) : Except CheckError InvariantChecker :=
  if idx > self.maxCommit then do
    let holders ← reading (holders nodes idx entry n.voters)
    if holders * 2 ≤ n.voters.length then self.fail step (.commitQuorum n.id idx holders n.voters.length) else return self
  else .ok self

/-- The inner loop body of `_observe_commits`. -/
def observeCommit (n : NodeView) (self : InvariantChecker) (idx : Int) : Except CheckError InvariantChecker := do
  let entry ← reading (n.entryAt idx)
  let self ← self.recordCommit step n idx entry
  self.checkQuorum nodes step n idx entry

/-- The loop body of `_observe_commits`. -/
def observeNode (self : InvariantChecker) (i : NodeId) : Except CheckError InvariantChecker := do
  let n := nodes.node i
  let prev := self.prevCommit.getD i 0
  if n.commitIndex < prev then self.fail step (.commitIndexMonotonic n.id prev n.commitIndex)
  else
    let self ← (pyRange (max prev n.baseIndex + 1) (n.commitIndex + 1)).foldlM (observeCommit nodes step n) self
    return { self with
      maxCommit := max self.maxCommit n.commitIndex
      prevCommit := self.prevCommit.insert i n.commitIndex }

/-- `_observe_commits`. -/
def observeCommits (self : InvariantChecker) : Except CheckError InvariantChecker :=
  nodes.ids.foldlM (observeNode nodes step) self

/-! ## Leader Completeness -/

/-- The first of the committed indices whose entry a leader misses. -/
def missing (committed : Dict Int (Entry × Int)) (n : NodeView) : List Int → Except PyError (Option (Int × Entry))
  | [] => .ok none
  | idx :: rest => do
    let (entry, commitTerm) ← committed.item idx
    if n.term < commitTerm ∨ idx ≤ n.baseIndex then missing committed n rest
    else if n.lastLogIndex < idx then return some (idx, entry)
    else if (← n.entryAt idx) ≠ entry then return some (idx, entry)
    else missing committed n rest

/-- `sorted(committed)`. -/
def sortedIndices (committed : Dict Int (Entry × Int)) : List Int := committed.keys.sort (· ≤ ·)

/-- What `_check_leader_completeness` does for a leader that it has not scanned yet. -/
def scanLeader (n : NodeView) (i : NodeId) (self : InvariantChecker) : Except CheckError InvariantChecker := do
  match ← reading (missing self.committed n (sortedIndices self.committed)) with
  | some (idx, entry) => self.fail step (.leaderCompleteness n.id n.term entry idx)
  | none =>
    return { self with
      completenessChecked := self.completenessChecked.insert i (n.term, n.logVersion, self.committed.keys.card) }

/-- The loop body of `_check_leader_completeness`. -/
def checkCompleteness (self : InvariantChecker) (i : NodeId) : Except CheckError InvariantChecker :=
  let n := nodes.node i
  if n.role ≠ .leader then .ok { self with completenessChecked := self.completenessChecked.erase i }
  else if self.completenessChecked.lookup i = some (n.term, n.logVersion, self.committed.keys.card) then .ok self
  else scanLeader step n i self

/-- `_check_leader_completeness`. -/
def checkLeaderCompleteness (self : InvariantChecker) : Except CheckError InvariantChecker :=
  nodes.ids.foldlM (checkCompleteness nodes step) self

/-! ## State Machine Safety -/

/-- The inner loop body of `_check_state_machine_safety`. -/
def observeApplied (n : NodeView) (self : InvariantChecker) (logical : Int) : Except CheckError InvariantChecker := do
  let cmd ← reading (pyIndex n.applied (logical - n.baseIndex - 1))
  match self.appliedAt.lookup logical with
  | none => return { self with appliedAt := self.appliedAt.insert logical cmd }
  | some known => if known ≠ cmd then self.fail step (.appliedTwice logical known cmd n.id) else return self

/-- The loop body of `_check_state_machine_safety`. -/
def checkApplied (self : InvariantChecker) (i : NodeId) : Except CheckError InvariantChecker := do
  let n := nodes.node i
  let seen := self.appliedSeen.getD i 0
  let top := n.baseIndex + n.applied.length
  let self ← (pyRange (max seen n.baseIndex + 1) (top + 1)).foldlM (observeApplied step n) self
  return { self with appliedSeen := self.appliedSeen.insert i (max seen top) }

/-- `_check_state_machine_safety`. -/
def checkStateMachineSafety (self : InvariantChecker) : Except CheckError InvariantChecker :=
  nodes.ids.foldlM (checkApplied nodes step) self

/-! ## The check -/

/-- Run all checks; `count` is false for an extra check inside a step. -/
def check (count : Bool) (self : InvariantChecker) : Except CheckError InvariantChecker := do
  let self := if count then { self with checksRun := self.checksRun + 1 } else self
  let self := self.handleRestarts nodes
  let self ← self.checkElectionSafety nodes step
  let self ← self.checkLeaderAppendOnly nodes step
  let self ← self.checkLogMatching nodes step
  let self ← self.observeCommits nodes step
  let self ← self.checkLeaderCompleteness nodes step
  self.checkStateMachineSafety nodes step

/-! ## The checks without their caches -/

/-- `checkAppendOnly`, comparing the logs at each call. -/
def checkAppendOnlyAfresh (self : InvariantChecker) (i : NodeId) : Except CheckError InvariantChecker :=
  let n := nodes.node i
  if n.role ≠ .leader then .ok { self with leaderSnapshot := self.leaderSnapshot.erase i }
  else
    let cur := (n.term, n.logVersion, n.baseIndex, n.log)
    match self.leaderSnapshot.lookup i with
    | none => .ok { self with leaderSnapshot := self.leaderSnapshot.insert i cur }
    | some (term, _, oldBase, oldLog) =>
      if term ≠ n.term then .ok { self with leaderSnapshot := self.leaderSnapshot.insert i cur }
      else compareLeader step n i oldBase oldLog self

/-- `checkPair`, comparing the logs at each call. -/
def checkPairAfresh (self : InvariantChecker) (ids : NodeId × NodeId) : Except CheckError InvariantChecker :=
  comparePair step (nodes.node ids.1) (nodes.node ids.2) self

/-- `checkCompleteness`, scanning the leader at each call. -/
def checkCompletenessAfresh (self : InvariantChecker) (i : NodeId) : Except CheckError InvariantChecker :=
  let n := nodes.node i
  if n.role ≠ .leader then .ok { self with completenessChecked := self.completenessChecked.erase i }
  else scanLeader step n i self

/-- `check` with no cache. -/
def checkAfresh (count : Bool) (self : InvariantChecker) : Except CheckError InvariantChecker := do
  let self := if count then { self with checksRun := self.checksRun + 1 } else self
  let self := self.handleRestarts nodes
  let self ← self.checkElectionSafety nodes step
  let self ← nodes.ids.foldlM (checkAppendOnlyAfresh nodes step) self
  let self ← (pairs nodes.ids).foldlM (checkPairAfresh nodes step) self
  let self ← self.observeCommits nodes step
  let self ← nodes.ids.foldlM (checkCompletenessAfresh nodes step) self
  self.checkStateMachineSafety nodes step

end InvariantChecker

/-- One call of the checker. -/
structure CheckCall where
  nodes : ClusterView
  step : Int
  count : Bool

/-- The first of some calls that raises, and what. -/
def firstFailure (check : ClusterView → Int → Bool → InvariantChecker → Except CheckError InvariantChecker) :
    InvariantChecker → List CheckCall → Option (Nat × CheckError)
  | _, [] => none
  | self, call :: calls =>
    match check call.nodes call.step call.count self with
    | .error e => some (0, e)
    | .ok self => (firstFailure check self calls).map fun (k, e) => (k + 1, e)

end DeterministicRaft
