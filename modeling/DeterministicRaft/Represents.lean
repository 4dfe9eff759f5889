import DeterministicRaft.Stored

/-!
# How a node and the trace stand for the protocol

`Represents net a tr n self` says that `self` is node `n` of the protocol state `a`, after the calls `tr` and its own pending
calls. `Traced` says that every call made so far is justified by the history of `a`: a message vouches for a ballot, for entries
of a leader's log, for an acknowledgement; an application is of a committed entry, after all the entries below it.
-/

namespace DeterministicRaft

open Consensus

/-- The calls made so far, each with the node that made it. -/
abbrev Trace : Type := List (NodeId × Effect)

/-- The calls of one node, in the trace. -/
def calls (n : NodeId) (out : List Effect) : Trace := out.map fun e => (n, e)

@[simp] theorem calls_nil (n : NodeId) : calls n [] = [] := rfl

@[simp] theorem calls_concat (n : NodeId) (out : List Effect) (e : Effect) : calls n (out ++ [e]) = calls n out ++ [(n, e)] := by
  simp [calls]

/-- The protocol's name for a role. -/
def Role.abs : Role → Consensus.Role
  | .follower => .follower
  | .candidate => .candidate
  | .leader => .leader

@[simp] theorem Role.abs_inj {r r' : Role} : r.abs = r'.abs ↔ r = r' := by
  cases r <;> cases r' <;> simp [Role.abs]

/-- The result of applying a command to the state machine after a log. -/
def resultAfter (P : List Entry) (command : String) : String := ((replay P).apply (Command.decode command)).2

/-- Every entry of `P` was applied at its place, with the result it has after the entries below it. -/
def Recorded (tr : Trace) (P : List Entry) : Prop :=
  ∀ (j : ℕ) (e : Entry), P[j]? = some e →
    ∃ m, (m, Effect.record (.apply (j + 1) e)) ∈ tr ∧ (m, Effect.onApply e.command (resultAfter (P.take j) e.command)) ∈ tr

theorem Recorded.mono {tr tr' : Trace} {P : List Entry} (h : Recorded tr P) (ht : tr ⊆ tr') : Recorded tr' P := by
  intro j e hj
  obtain ⟨m, h1, h2⟩ := h j e hj
  exact ⟨m, ht h1, ht h2⟩

theorem Recorded.nil (tr : Trace) : Recorded tr [] := fun j e h => by simp at h

/-- Fewer entries are recorded when more are. -/
theorem Recorded.shorter {tr : Trace} {P P' : List Entry} (h : Recorded tr P) (hp : P' <+: P) : Recorded tr P' := by
  intro j e hj
  obtain ⟨m, h1, h2⟩ := h j e (getElem?_extends hp hj)
  have hl := (List.getElem?_eq_some_iff.1 hj).1
  exact ⟨m, h1, take_extends hp hl.le ▸ h2⟩

/-- What an `AppendEntries` vouches for: it carries a stretch of the log of its term's leader, and names entries that are
committed. -/
structure AppendVouched (net : Network) (a : State NodeId Entry) (n : NodeId) (msg : AppendEntries) : Prop where
  leader : msg.leader = n
  leads : a.leader msg.term = some n
  stretch : ∃ p : ℕ, msg.prevIndex = p ∧ p + msg.entries.length ≤ (a.llog msg.term).length ∧
    msg.prevTerm = net.scheme.lastTerm ((a.llog msg.term).take p) ∧
    msg.entries = ((a.llog msg.term).take (p + msg.entries.length)).drop p
  known : ∃ c : ℕ, msg.leaderCommit = c ∧ c ≤ (a.llog msg.term).length ∧ a.Committed msg.term ((a.llog msg.term).take c)

/-- What an `InstallSnapshot` vouches for: it is the snapshot of entries that are committed and applied. -/
structure SnapshotVouched (net : Network) (a : State NodeId Entry) (tr : Trace) (n : NodeId) (msg : InstallSnapshot) :
    Prop where
  leader : msg.leader = n
  leads : a.leader msg.term = some n
  covers : ∃ P : List Entry, P ≠ [] ∧ P <+: a.llog msg.term ∧ a.Committed msg.term P ∧ Recorded tr P ∧
    net.snapshotOf P = some {
      lastIndex := msg.lastIndex, lastTerm := msg.lastTerm, store := msg.store, sessions := msg.sessions,
      voters := msg.voters }

/-- What a message from `n` to `dst` vouches for. -/
def Vouched (net : Network) (a : State NodeId Entry) (tr : Trace) (n dst : NodeId) : Message → Prop
  | .requestVote msg => msg.candidate = n ∧ ∃ E, a.stood msg.term n = some E ∧ msg.lastLogIndex = E.length ∧
      msg.lastLogTerm = net.scheme.lastTerm E
  | .voteReply msg => msg.voter = n ∧ (msg.granted = true → ∃ V, a.ballot msg.term n = some (dst, V))
  | .appendEntries msg => AppendVouched net a n msg
  | .appendReply msg => msg.follower = n ∧ (msg.success = true → ∃ m : ℕ, msg.matchIndex = m ∧ a.acked n msg.term m)
  | .installSnapshot msg => SnapshotVouched net a tr n msg
  | .readHeartbeat msg => msg.leader = n
  | .readAck msg => msg.follower = n

/-- What justifies a call of `n` after the calls `tr`. -/
def Justified (net : Network) (a : State NodeId Entry) (tr : Trace) (n : NodeId) : Effect → Prop
  | .send dst msg => Vouched net a tr n dst msg
  | .record (.role .leader t) => a.leader t = some n
  | .record (.apply i e) => ∃ (t : Int) (P : List Entry) (j : ℕ), i = j + 1 ∧ a.Committed t P ∧ P[j]? = some e ∧
      Recorded tr (P.take j)
  | .onApply command result =>
    (∃ (t : Int) (P : List Entry) (j : ℕ) (e : Entry), a.Committed t P ∧ P[j]? = some e ∧ e.command = command ∧
      result = resultAfter (P.take j) command ∧ Recorded tr (P.take j)) ∨
    (net.readIndex = true ∧
      ∃ (t : Int) (P : List Entry), a.Committed t P ∧ Recorded tr P ∧ result = (replay P).applyRead (Command.decode command))
  | _ => True

/-- Every call in the trace is justified after the calls before it. -/
inductive Traced (net : Network) (a : State NodeId Entry) : Trace → Prop where
  | nil : Traced net a []
  | snoc {tr : Trace} {n : NodeId} {e : Effect} : Traced net a tr → Justified net a tr n e → Traced net a (tr ++ [(n, e)])

/-- A leader's records of its followers, against the history. -/
structure Leads (net : Network) (a : State NodeId Entry) (n : NodeId) (nextIndex matchIndex : Dict NodeId Int)
    (committedThisTerm : Bool) : Prop where
  next_some : ∀ p ∈ net.ids, p ≠ n → ∃ x, nextIndex.lookup p = some x
  next_range : ∀ p x, nextIndex.lookup p = some x → 1 ≤ x ∧ x ≤ (a.log n).length + 1
  matched : ∀ v x, matchIndex.lookup v = some x → 0 < x → ∃ m : ℕ, x ≤ m ∧ a.acked v (a.term n) m
  own : committedThisTerm = true → ∃ Y, a.committed (a.term n) (a.commit n) Y ∧ Y <+: a.log n
  max : ∀ c Y, a.committed (a.term n) c Y → c ≤ a.commit n

/-- The node `node` is node `n` of the protocol state `a`, after the calls `tr` and its own pending calls. -/
structure Represents (net : Network) (a : State NodeId Entry) (tr : Trace) (n : NodeId) (node : RaftNode) : Prop where
  id : node.id = n
  peers : ∀ p, p ∈ node.peers ↔ p ∈ net.ids ∧ p ≠ n
  bugs : node.bugs = NO_BUGS
  stored : Stored net (a.log n) node.disk
  term : node.term = a.term n
  votedFor : node.votedFor = a.vote n
  role : node.role.abs = a.role n
  base_le : node.baseIndex ≤ a.commit n
  commitIndex : node.commitIndex = a.commit n
  lastApplied : node.lastApplied = a.commit n
  applied : node.applied = (((a.log n).take (a.commit n)).drop node.baseIndex.toNat).map (·.command)
  kv : node.kv = replay ((a.log n).take (a.commit n))
  recorded : Recorded (tr ++ calls n node.out) ((a.log n).take (a.commit n))
  votes : node.role = .candidate → ∀ v ∈ node.votes, ∃ V, a.ballot (a.term n) v = some (n, V)
  leads : node.role = .leader → Leads net a n node.nextIndex node.matchIndex node.committedThisTerm
  reads : net.readIndex = true ∨ node.pendingReads = ∅
  traced : Traced net a (tr ++ calls n node.out)

/-! ## The history grows -/

variable {net : Network} {a a' : State NodeId Entry} {tr : Trace} {n : NodeId} {self : RaftNode}

/-- What a message vouches for stays true as the history grows. -/
theorem Vouched.grow (x : a.Extends a') {dst : NodeId} {msg : Message} (h : Vouched net a tr n dst msg) :
    Vouched net a' tr n dst msg := by
  cases msg with
  | requestVote msg =>
    obtain ⟨h1, E, h2, h3⟩ := h
    exact ⟨h1, E, x.stood h2, h3⟩
  | voteReply msg =>
    obtain ⟨h1, h2⟩ := h
    refine ⟨h1, fun hg => ?_⟩
    obtain ⟨V, hV⟩ := h2 hg
    exact ⟨V, x.ballot hV⟩
  | appendEntries msg =>
    have hl : a.Led msg.term := ⟨n, h.leads⟩
    refine ⟨h.leader, x.leader h.leads, ?_, ?_⟩
    · obtain ⟨p, h1, h2, h3, h4⟩ := h.stretch
      have hp : p ≤ (a.llog msg.term).length := by omega
      refine ⟨p, h1, h2.trans (x.llog hl).length_le, ?_, ?_⟩
      · rw [x.llog_take hl hp]
        exact h3
      · rw [x.llog_take hl h2]
        exact h4
    · obtain ⟨c, h1, h2, h3⟩ := h.known
      refine ⟨c, h1, h2.trans (x.llog hl).length_le, ?_⟩
      rw [x.llog_take hl h2]
      exact x.known h3
  | appendReply msg =>
    obtain ⟨h1, h2⟩ := h
    refine ⟨h1, fun hs => ?_⟩
    obtain ⟨m, hm, ha⟩ := h2 hs
    exact ⟨m, hm, x.acked ha⟩
  | installSnapshot msg =>
    obtain ⟨P, h1, h2, h3, h4⟩ := h.covers
    exact ⟨h.leader, x.leader h.leads, P, h1, h2.trans (x.llog ⟨n, h.leads⟩), x.known h3, h4⟩
  | readHeartbeat msg => exact h
  | readAck msg => exact h

/-- What justifies a call stays true as the history grows. -/
theorem Justified.grow (x : a.Extends a') {e : Effect} (h : Justified net a tr n e) : Justified net a' tr n e := by
  cases e with
  | send dst msg => exact Vouched.grow x h
  | record event =>
    cases event with
    | role r t =>
      cases r with
      | leader => exact x.leader h
      | _ => exact h
    | apply i e =>
      obtain ⟨t, P, j, h1, h2, h3⟩ := h
      exact ⟨t, P, j, h1, x.known h2, h3⟩
    | _ => exact h
  | onApply command result =>
    rcases h with ⟨t, P, j, e, h1, h2⟩ | ⟨hr, t, P, h1, h2⟩
    · exact Or.inl ⟨t, P, j, e, x.known h1, h2⟩
    · exact Or.inr ⟨hr, t, P, x.known h1, h2⟩
  | _ => exact h

namespace Traced

theorem grow (x : a.Extends a') (h : Traced net a tr) : Traced net a' tr := by
  induction h with
  | nil => exact .nil
  | snoc _ hj ih => exact ih.snoc (hj.grow x)

/-- The last call is justified by the calls before it. -/
theorem last {e : Effect} (h : Traced net a (tr ++ [(n, e)])) : Traced net a tr ∧ Justified net a tr n e := by
  generalize htr : tr ++ [(n, e)] = tr' at h
  cases h with
  | nil => simp at htr
  | snoc h hj =>
    obtain ⟨rfl, hc⟩ := List.append_inj' htr rfl
    obtain ⟨rfl, rfl⟩ : n = _ ∧ e = _ := by simpa using hc
    exact ⟨h, hj⟩

/-- Every call in the trace is justified by some calls before it. -/
theorem mem (h : Traced net a tr) {e : Effect} (he : (n, e) ∈ tr) : ∃ tr', tr' <+: tr ∧ Justified net a tr' n e := by
  induction h with
  | nil => simp at he
  | @snoc tr m e' _ hj ih =>
    rcases List.mem_append.1 he with he | he
    · obtain ⟨tr', hp, hj'⟩ := ih he
      exact ⟨tr', hp.trans (List.prefix_append _ _), hj'⟩
    · simp only [List.mem_singleton, Prod.mk.injEq] at he
      obtain ⟨rfl, rfl⟩ := he
      exact ⟨tr, List.prefix_append _ _, hj⟩

end Traced

/-- A leader's records stay right as the history grows, while it stays in its term with its log and nobody commits in it. -/
theorem Leads.grow (x : a.Extends a') {nextIndex matchIndex : Dict NodeId Int} {c : Bool}
    (h : Leads net a n nextIndex matchIndex c) (ht : a'.term n = a.term n) (hl : a'.log n = a.log n)
    (hc : a'.commit n = a.commit n) (hcom : ∀ c Y, a'.committed (a.term n) c Y → a.committed (a.term n) c Y) :
    Leads net a' n nextIndex matchIndex c where
  next_some := h.next_some
  next_range := by
    rw [hl]
    exact h.next_range
  matched v y hv hy := by
    obtain ⟨m, hm, ha⟩ := h.matched v y hv hy
    exact ⟨m, hm, ht ▸ x.acked ha⟩
  own ho := by
    obtain ⟨Y, h1, h2⟩ := h.own ho
    exact ⟨Y, by rw [ht, hc]; exact x.committed h1, by rwa [hl]⟩
  max k Y hk := by
    rw [hc]
    rw [ht] at hk
    exact h.max k Y (hcom k Y hk)

end DeterministicRaft
