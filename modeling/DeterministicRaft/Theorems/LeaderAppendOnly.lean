import DeterministicRaft.Leadership

/-!
# Leader Append-Only

From its election on, as long as it leads, a node's logical log only grows, whatever it is sent and asked; and it acknowledges a
request without appending it only if its log already has a request of the client that is no older.
-/

namespace DeterministicRaft

open RaftNode Refinement

variable {self mid after elected : RaftNode} {ops ops' : List NodeOp}

/-- What holds after the operations of a leadership, with the moments at which the entries it has had were live. -/
theorem Elected.led (h : Elected elected) (hb : elected.Bounded) (hs : Led elected ops after) :
    ∃ whole, Reigns elected.term elected.baseIndex whole after ∧
      ∀ e ∈ whole, ∃ ops₁ ops₂ m, ops = ops₁ ++ ops₂ ∧ Led elected ops₁ m ∧ e ∈ m.log := by
  induction hs with
  | nil => exact ⟨elected.log, h.reigns hb, fun e he => ⟨[], [], elected, rfl, .nil _, he⟩⟩
  | @concat mid after ops op hs hp hr ht ih =>
    obtain ⟨whole, hmid, hlive⟩ := ih
    obtain ⟨added, hafter, hnew⟩ := hmid.perform hp hr (ht.trans hmid.term)
    refine ⟨whole ++ added, hafter, fun e he => ?_⟩
    rcases List.mem_append.1 he with he | he
    · obtain ⟨ops₁, ops₂, m, rfl, hm, hem⟩ := hlive e he
      exact ⟨ops₁, ops₂ ++ [op], m, List.append_assoc .., hm, hem⟩
    · exact ⟨ops ++ [op], [], after, (List.append_nil _).symm, hs.concat hp hr ht, hnew e he⟩

/-- The entries that a leader has had are a prefix of those it will have had. -/
theorem Reigns.grows {T base : Int} {whole : List Entry} (h : Reigns T base whole self) (hs : Led self ops after) :
    ∃ added, Reigns T base (whole ++ added) after := by
  induction hs with
  | nil => exact ⟨[], by rwa [List.append_nil]⟩
  | concat hs hp hr ht ih =>
    obtain ⟨added, hmid⟩ := ih
    obtain ⟨more, hafter, -⟩ := hmid.perform hp hr (ht.trans hmid.term)
    exact ⟨added ++ more, by rwa [← List.append_assoc]⟩

/-- A request that a leader acknowledges without an entry is known to its index. -/
theorem Reigns.dedup {T base : Int} {whole : List Entry} (h : Reigns T base whole self) {command : String} {next : RaftNode}
    (hcom : self.clientCommand command = .ok (next, true)) (hlog : next.log = self.log) (hr : 0 ≤ (Command.decode command).reqId) :
    ∃ e ∈ whole, ∃ r, e.Requests (Command.decode command).clientId r ∧ (Command.decode command).reqId ≤ r := by
  rcases clientCommand_taken h.role command _ hcom with heq | ⟨-, htaken⟩
  · cases heq
  · cases htaken with
    | known hs hold =>
      rw [Dict.getD] at hold
      cases hl : self.clientIndex.lookup (Command.decode command).clientId with
      | none =>
        rw [hl] at hold
        simp only [Option.getD_none] at hold
        omega
      | some q =>
        rw [hl] at hold
        obtain ⟨e, he, hreq⟩ := h.index.sound _ _ hl
        exact ⟨e, he, q, hreq, hold⟩
    | appended _ hnew hcalls =>
      obtain ⟨es, hes, -⟩ := hcalls
      obtain ⟨ci, heq⟩ := proposed_eq self command
      simp only at hes
      have hlen := congrArg List.length hlog
      rw [hes] at hlen
      simp only [heq, List.length_append, List.length_singleton] at hlen
      omega

/-- Leader Append-Only. From its election on, while it leads its term, a node keeps every entry that is not compacted at its logical
index, its log does not get shorter, and it compacts only what is committed. A client's request is acknowledged without being appended
only if the log held, at some moment of the leadership, a request of the client that is no older; and the index of the requests covers
those of the live log. -/
theorem leader_append_only (id : NodeId) (peerIds : List NodeId) (config : RaftConfig) (bugs : Bugs)
    (initialVoters : Option (List NodeId)) (hbug : bugs.allowCommitRegression = false) (before : List NodeOp) (op : NodeOp)
    (node : RaftNode) (hrun : before.foldlM RaftNode.perform (RaftNode.new id peerIds config bugs initialVoters) = .ok node)
    (hnot : node.role ≠ .leader) (hop : node.perform op = .ok elected) (hlead : elected.role = .leader)
    (hmid : Led elected ops mid) (hafter : Led mid ops' after) :
    (∀ i e, mid.baseIndex < i → after.baseIndex < i → mid.entryAt i = .ok e → after.entryAt i = .ok e) ∧
    mid.lastLogIndex ≤ after.lastLogIndex ∧ after.baseIndex ≤ after.commitIndex ∧
    (∀ command next, mid.clientCommand command = .ok (next, true) → next.log = mid.log → 0 ≤ (Command.decode command).reqId →
      ∃ ops₁ ops₂ m, ops = ops₁ ++ ops₂ ∧ Led elected ops₁ m ∧
        ∃ e ∈ m.log, ∃ r, e.Requests (Command.decode command).clientId r ∧ (Command.decode command).reqId ≤ r) ∧
    ∀ e ∈ mid.log, ∀ cid r, e.Requests cid r → 0 ≤ r → ∃ q, mid.clientIndex.lookup cid = some q ∧ r ≤ q := by
  have hnode : node.Bounded := (RaftNode.Bounded.new id peerIds config bugs initialVoters hbug).performed hrun
  have hbounded : elected.Bounded := hnode.moved (perform_makes ⟨trivial, trivial, trivial⟩ node op (op.admissible_any node) elected hop)
  have helected : Elected elected := by
    rcases NoGain.perform node op elected hop with (h | h) | ⟨msg, -, hr, -⟩
    · exact absurd (h.1 hlead) hnot
    · exact h
    · exact absurd hr hnot
  obtain ⟨whole, hm, hlive⟩ := helected.led hbounded hmid
  obtain ⟨added, ha⟩ := hm.grows hafter
  refine ⟨fun i e hi hi' he => ?_, ?_, ha.bounded.commit, fun command next hcom hlog hr => ?_, fun e he cid r hreq hr => ?_⟩
  · have hlt := (List.getElem?_eq_some_iff.1 (getElem?_of_entryAt he hi)).1
    have hlast := hm.lastLogIndex
    rw [RaftNode.lastLogIndex] at hlast
    obtain ⟨k, -, -, hbase⟩ := hm.log
    rw [hm.entryAt hi] at he
    rw [ha.entryAt hi', ← he]
    exact pyIndex_append _ _ (by omega) (by omega)
  · rw [hm.lastLogIndex, ha.lastLogIndex, List.length_append]
    push_cast
    omega
  · obtain ⟨e, he, r, hreq, hle⟩ := hm.dedup hcom hlog hr
    obtain ⟨ops₁, ops₂, m, hops, hm, hem⟩ := hlive e he
    exact ⟨ops₁, ops₂, m, hops, hm, e, hem, r, hreq, hle⟩
  · obtain ⟨k, -, hlog, -⟩ := hm.log
    rw [hlog] at he
    exact hm.index.covers e (List.mem_of_mem_drop he) cid r hreq hr

/-- A server whose election timer has fired. -/
def campaigner : RaftNode := (RaftNode.new 1 [2, 3] {} NO_BUGS none).afterOps [.start, .electionTimeout 1]

/-- It is elected by one of the others. -/
def winner : RaftNode := campaigner.afterOps [.handle (.voteReply { term := 1, voter := 2, granted := true })]

/-- It has appended a client's fourth request. -/
def busy : RaftNode := winner.afterOps [.clientCommand "7:3:put:k:v:"]

/-- The request is acknowledged again because it is in the log. -/
theorem leader_append_only_busy :
    ∃ ops₁ ops₂ m, [.clientCommand "7:3:put:k:v:"] = ops₁ ++ ops₂ ∧ Led winner ops₁ m ∧
      ∃ e ∈ m.log, ∃ r, e.Requests 7 r ∧ 3 ≤ r := by
  have hcmd : Command.decode "7:3:put:k:v:" = ⟨7, 3, PUT, "k", "v", ""⟩ := by decide +kernel
  have hbusy : winner.perform (.clientCommand "7:3:put:k:v:") = .ok busy := perform_afterOps (by decide +kernel)
  have hled : Led winner [.clientCommand "7:3:put:k:v:"] busy :=
    .concat (.nil winner) hbusy (by decide +kernel) (by decide +kernel)
  have hknown : busy.clientCommand "7:3:put:k:v:" = .ok (busy.record (.dedup "7:3:put:k:v:"), true) := by
    unfold RaftNode.clientCommand
    rw [if_neg (by decide +kernel)]
    simp only
    rw [if_pos (by decide +kernel)]
    rfl
  have hlog : ∀ node : RaftNode, (node.record (.dedup "7:3:put:k:v:")).log = node.log := fun _ => rfl
  have h := (leader_append_only 1 [2, 3] {} NO_BUGS none rfl [.start, .electionTimeout 1]
    (.handle (.voteReply { term := 1, voter := 2, granted := true })) campaigner (foldlM_afterOps (by decide +kernel))
    (by decide +kernel) (perform_afterOps (by decide +kernel)) (by decide +kernel) hled (.nil busy)).2.2.2.1
    "7:3:put:k:v:" _ hknown (hlog busy)
  rw [hcmd] at h
  exact h (by decide)

end DeterministicRaft
