import DeterministicRaft.Twins

/-!
# Compaction is transparent

Of two nodes that are fed the same, one compacts its log and the other never does. From the outside they cannot be told apart.
-/

namespace DeterministicRaft

open RaftNode Refinement

variable {u v : RaftNode}

/-- The node with another snapshot threshold. -/
def RaftNode.withThreshold (node : RaftNode) (threshold : Int) : RaftNode :=
  { node with config := { node.config with snapshotThreshold := threshold } }

/-- Nothing that the outside can see of a node changes if it compacts its log. -/
structure RaftNode.Alike (node compacting : RaftNode) : Prop where
  sent : messages compacting.out = messages node.out
  term : compacting.term = node.term
  votedFor : compacting.votedFor = node.votedFor
  role : compacting.role = node.role
  commitIndex : compacting.commitIndex = node.commitIndex
  lastApplied : compacting.lastApplied = node.lastApplied
  lastLogIndex : compacting.lastLogIndex = node.lastLogIndex
  voters : compacting.voters = node.voters
  store : compacting.kv.store = node.kv.store
  sessions : compacting.kv.sessions = node.kv.sessions
  entries : ∀ i, compacting.baseIndex < i → compacting.entryAt i = node.entryAt i

/-- The operation is one of those that a node is fed: a request for a vote, a ping, an election timeout, or AppendEntries that agree
with what the node has committed, if it accepts their term. -/
def NodeOp.Fed (node : RaftNode) : NodeOp → Prop
  | .handle (.requestVote _) => True
  | .handle (.appendEntries msg) => node.term ≤ msg.term → msg.AgreesWith node
  | .handle (.readHeartbeat _) => True
  | .electionTimeout _ => True
  | _ => False

/-- The operations are fed to a node that does not become a leader. -/
def Feeds : RaftNode → List NodeOp → Prop
  | _, [] => True
  | node, op :: ops => op.Fed node ∧ ∀ after, node.perform op = .ok after →
      (after.role = .leader → node.role = .leader) ∧ Feeds after ops

theorem Feeds.take {node : RaftNode} {ops : List NodeOp} (h : Feeds node ops) (k : ℕ) : Feeds node (ops.take k) := by
  induction ops generalizing node k with
  | nil => simpa using h
  | cons op ops ih =>
    cases k with
    | zero => trivial
    | succ k => exact ⟨h.1, fun after ha => ⟨(h.2 after ha).1, ih (h.2 after ha).2 k⟩⟩

namespace Twins

theorem alike (h : Twins u v) : u.Alike v where
  sent := by rw [← messages_visible, h.calls, messages_visible]
  term := h.term
  votedFor := h.votedFor
  role := h.role
  commitIndex := h.commitIndex
  lastApplied := h.lastApplied
  lastLogIndex := h.lastLogIndex
  voters := h.voters
  store := by rw [h.kv]
  sessions := by rw [h.kv]
  entries _ hi := h.entryAt hi

/-- Before anything has been compacted. -/
theorem start {node : RaftNode} (hn : node.Grounded) (threshold : Int) : Twins (node.withThreshold 0) (node.withThreshold threshold) where
  same := rfl
  threshold := le_rfl
  noRegression := hn.noRegression
  calls := rfl
  first := hn.base
  base := le_rfl
  applied := hn.commit.trans hn.applied.ge
  last := hn.applied.trans_le hn.last
  log := by simp [RaftNode.withThreshold]
  baseTerm := if_pos le_rfl
  snapshot s hs := (hn.snapEnds s hs).le
  snapshot' s hs := (hn.snapEnds s hs).le
  fallback := by
    show node.fallback = named node.fallback (node.log.take (node.baseIndex - node.baseIndex).toNat)
    rw [Int.sub_self]
    rfl
  index := Or.inl rfl

/-- One operation. -/
theorem perform (h : Twins u v) (hc : u.lastApplied = u.commitIndex) {op : NodeOp} (hop : op.Fed u)
    (hlead : ∀ after, u.perform op = .ok after → after.role = .leader → u.role = .leader) :
    Both (fun u' v' => Twins u' v' ∧ u'.lastApplied = u'.commitIndex) (u.perform op) (v.perform op) := by
  have hsteady : ∀ u' v', Twins u' v' ∧ Steady u u' → Twins u' v' ∧ u'.lastApplied = u'.commitIndex :=
    fun u' v' h' => ⟨h'.1, h'.2.lastApplied.trans (hc.trans h'.2.commitIndex.symm)⟩
  cases op with
  | handle msg =>
    unfold RaftNode.perform RaftNode.handle
    simp only [h.alive]
    split
    · exact Both.pure ⟨h, hc⟩
    · cases msg with
      | requestVote msg => exact (h.onRequestVote msg).mono hsteady
      | appendEntries msg => exact h.onAppendEntries hc msg hop
      | readHeartbeat msg => exact Both.pure (hsteady _ _ (h.onReadHeartbeat msg))
      | _ => exact hop.elim
  | electionTimeout seq => exact (h.onElectionTimeout seq hlead).mono hsteady
  | _ => exact hop.elim

/-- A sequence of operations. -/
theorem run (h : Twins u v) (hc : u.lastApplied = u.commitIndex) {ops : List NodeOp} (hops : Feeds u ops) :
    Both RaftNode.Alike (ops.foldlM RaftNode.perform u) (ops.foldlM RaftNode.perform v) := by
  induction ops generalizing u v with
  | nil => exact Both.pure h.alike
  | cons op ops ih =>
    rw [List.foldlM_cons, List.foldlM_cons]
    obtain ⟨u', v', hu, hv, h', hc'⟩ := h.perform hc hops.1 fun after ha => (hops.2 after ha).1
    exact Both.bind_ok hu hv (ih h' hc' (hops.2 u' hu).2)

end Twins

/-- Compaction is transparent: of two nodes that differ only in the snapshot threshold and are fed the same, none becoming a leader,
after every step both have sent the same messages, and nothing else that can be seen of them differs. -/
theorem compaction_transparent (node : RaftNode) (hn : node.Grounded) (threshold : Int) (ops : List NodeOp)
    (hops : Feeds (node.withThreshold 0) ops) (k : ℕ) :
    Both RaftNode.Alike ((ops.take k).foldlM RaftNode.perform (node.withThreshold 0))
      ((ops.take k).foldlM RaftNode.perform (node.withThreshold threshold)) :=
  (Twins.start hn threshold).run hn.applied (hops.take k)

/-- A follower that has just been made. -/
def follower : RaftNode := RaftNode.new 1 [2, 3] {} NO_BUGS none

/-- Two entries, of which one is committed. -/
def firstAppend : NodeOp := .handle (.appendEntries
  { term := 1, leader := 2, prevIndex := 0, prevTerm := 0, entries := [⟨1, "a"⟩, ⟨1, "b"⟩], leaderCommit := 1 })

/-- The same entries again and one more, from below what has been compacted by then. -/
def secondAppend : NodeOp := .handle (.appendEntries
  { term := 1, leader := 2, prevIndex := 0, prevTerm := 0, entries := [⟨1, "a"⟩, ⟨1, "b"⟩, ⟨1, "c"⟩], leaderCommit := 3 })

theorem feeds_overlapping : Feeds (follower.withThreshold 0) [firstAppend, secondAppend] := by
  have hfirst : Ensures ((follower.withThreshold 0).perform firstAppend) fun after =>
      after.role = .follower ∧ after.commitIndex = 1 ∧ after.termAt 1 = .ok 1 := by decide +kernel
  have hsecond : Ensures ((follower.withThreshold 0).perform firstAppend >>= fun mid => mid.perform secondAppend) fun after =>
      after.role = .follower := by decide +kernel
  have hprev : ∀ node : RaftNode, (1 : Int) ≤ 0 → (0 : Int) ≤ node.commitIndex → node.termAt 0 = .ok 0 := by omega
  refine ⟨fun _ => ⟨hprev _, fun k e he hk => ?_⟩, fun mid hmid => ?_⟩
  · have hk' : (0 : Int) + 1 + k ≤ 0 := hk
    omega
  obtain ⟨hr, hc, ht⟩ := hfirst mid hmid
  refine ⟨fun hl => ?_, fun _ => ⟨hprev _, fun k e he hk => ?_⟩, fun after hafter => ⟨fun hl => ?_, trivial⟩⟩
  · rw [hr] at hl
    cases hl
  · have hk' : (0 : Int) + 1 + k ≤ mid.commitIndex := hk
    obtain rfl : k = 0 := by omega
    cases he
    exact ht
  · rw [hsecond after (by rw [hmid]; exact hafter)] at hl
    cases hl

theorem compaction_transparent_overlapping :
    Both RaftNode.Alike ([firstAppend, secondAppend].foldlM RaftNode.perform (follower.withThreshold 0))
      ([firstAppend, secondAppend].foldlM RaftNode.perform (follower.withThreshold 1)) :=
  compaction_transparent follower (.new 1 [2, 3] {} NO_BUGS none rfl) 1 [firstAppend, secondAppend] feeds_overlapping 2

end DeterministicRaft
