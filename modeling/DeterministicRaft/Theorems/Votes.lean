import DeterministicRaft.Votes
import Mathlib.Data.Prod.Lex

/-!
# One vote in a term

Whatever a node is sent and however often it crashes, its term never decreases, and in one term everything that it has ever told of its
vote names the same candidate: the votes it has granted and its own candidacy. A vote is granted only to a candidate whose log is at
least as up to date as the node's own.
-/

namespace DeterministicRaft

open RaftNode Refinement

variable {I : Inputs} {self after : RaftNode}

/-! ## Terms -/

theorem Move.term_le (hm : Move I self after) : self.term ≤ after.term := by
  cases hm with
  | stepDown t ha ht =>
    rw [becomeFollower_eq]
    exact ht
  | campaign => exact (Int.lt_succ self.term).le
  | propose command =>
    obtain ⟨ci, hp⟩ := proposed_eq self command
    rw [hp]
  | truncate index => rw [OnlyLog.truncateFrom self index]
  | extend index entry => rw [OnlyLog.appendReplicated self index entry]
  | commit index entries =>
    obtain ⟨es, -, he⟩ := committed_eq self index entries
    rw [he]
  | pause => rw [pause_fields]
  | _ => exact le_rfl

theorem Moved.term_le (hm : Moved I self after) : self.term ≤ after.term := by
  induction hm with
  | refl => exact le_rfl
  | tail _ hm ih => exact ih.trans hm.term_le

/-! ## Grants -/

/-- The votes that some moves grant are asked for. -/
theorem Moved.grants (hm : Moved I self after) : ∃ es, after.out = self.out ++ es ∧
    ∀ dst reply, Effect.send dst (.voteReply reply) ∈ es → reply.granted = true → ∃ req, I.asks req ∧ dst = req.candidate := by
  induction hm with
  | refl => exact ⟨[], by simp, by simp⟩
  | tail _ hm ih =>
    obtain ⟨es, hout, hgrants⟩ := ih
    obtain ⟨es', hes⟩ := hm.calls
    refine ⟨es ++ es', by rw [hes.out, hout, List.append_assoc], fun dst reply he hg => ?_⟩
    rcases List.mem_append.1 he with he | he
    · exact hgrants dst reply he hg
    · rcases hes.sends dst _ he with hs | hs | ⟨req, hreq, -, hdst, -⟩
      · rw [hs.2.2] at hg
        cases hg
      · rw [hs.2.2] at hg
        cases hg
      · exact ⟨req, hreq, hdst⟩

/-- The inputs of one operation, whatever it is. -/
def NodeOp.inputs (op : NodeOp) : Inputs := { Inputs.any with asks := fun req => op = .handle (.requestVote req) }

theorem NodeOp.admissible_inputs (op : NodeOp) (self : RaftNode) : op.Admissible op.inputs self := by
  cases op with
  | handle msg =>
    cases msg with
    | appendEntries msg => exact ⟨fun h => h.elim, fun _ _ => trivial⟩
    | readHeartbeat msg => exact fun h => h.elim
    | requestVote msg => exact rfl
    | _ => trivial
  | clientCommand command => exact fun _ _ => trivial
  | _ => trivial

/-- An operation grants votes only to the candidate of the RequestVote that it handles. -/
theorem perform_grants {op : NodeOp} (h : self.perform op = .ok after) {dst : NodeId} {reply : VoteReply}
    (hs : Effect.send dst (.voteReply reply) ∈ after.out.drop self.out.length) (hg : reply.granted = true) :
    ∃ req, op = .handle (.requestVote req) ∧ dst = req.candidate := by
  have hm := perform_makes (I := op.inputs) ⟨trivial, trivial, trivial⟩ self op (op.admissible_inputs self) after h
  obtain ⟨es, hout, hgrants⟩ := hm.grants
  rw [hout, List.drop_left] at hs
  exact hgrants dst reply hs hg

/-- The log ends for a node that has heard of a later term where it ended before. -/
theorem observed_log (self : RaftNode) (p : Prop) [Decidable p] (t : Int) :
    let mid := if p then self.becomeFollower t else self
    mid.termAt mid.lastLogIndex = self.termAt self.lastLogIndex ∧ mid.lastLogIndex = self.lastLogIndex ∧ mid.bugs = self.bugs ∧
      ∃ es, mid.out = self.out ++ es ∧ ∀ dst msg, Effect.send dst msg ∉ es := by
  split
  · rw [becomeFollower_eq]
    refine ⟨rfl, rfl, rfl, steppedDown self t ++ [.schedule .election (self.timerSeq + 1)], by simp, fun dst msg hs => ?_⟩
    unfold steppedDown at hs
    split at hs <;> simp at hs
  · exact ⟨rfl, rfl, rfl, [], by simp, by simp⟩

/-- `_on_request_vote` grants the vote to a candidate whose log is at least as up to date. -/
theorem onRequestVote_grants {msg : RequestVote} (h : self.onRequestVote msg = .ok after) (hb : self.bugs.voteForStaleCandidate = false)
    {dst : NodeId} {reply : VoteReply} (hs : Effect.send dst (.voteReply reply) ∈ after.out.drop self.out.length)
    (hg : reply.granted = true) : ∃ t, self.termAt self.lastLogIndex = .ok t ∧
      toLex (t, self.lastLogIndex) ≤ toLex (msg.lastLogTerm, msg.lastLogIndex) := by
  obtain ⟨hterm, hlast, hbugs, es, hout, hnone⟩ := observed_log self (msg.term > self.term) msg.term
  unfold RaftNode.onRequestVote at h
  simp only at h
  generalize (if msg.term > self.term then self.becomeFollower msg.term else self) = mid at h hterm hlast hbugs hout
  have hrefused : (Except.ok (mid.send msg.candidate (.voteReply { term := mid.term, voter := mid.id, granted := false })) :
      Except PyError RaftNode) = .ok after → False := by
    intro h
    cases h
    have hmem : Effect.send dst (.voteReply reply) ∈ es ++ [.send msg.candidate (.voteReply ⟨mid.term, mid.id, false⟩)] := by
      simpa [RaftNode.send, emit, hout, List.append_assoc] using hs
    rcases List.mem_append.1 hmem with hmem | hmem
    · exact hnone _ _ hmem
    · cases List.mem_singleton.1 hmem
      cases hg
  split at h
  · obtain ⟨t, ht, h⟩ := bind_eq_ok.1 h
    split at h
    · rename_i hlog
      rw [hlast, hbugs, hb] at hlog
      refine ⟨t, by rw [← hterm, ht], Prod.Lex.toLex_le_toLex.2 ?_⟩
      simpa using hlog
    · exact (hrefused h).elim
  · exact (hrefused h).elim

/-! ## Runs -/

theorem Honest.ops {ops : List NodeOp} (h : Honest self) (hrun : ops.foldlM perform self = .ok after) :
    Honest after ∧ after.id = self.id ∧ after.bugs = self.bugs := by
  induction ops generalizing self with
  | nil =>
    cases hrun
    exact ⟨h, rfl, rfl⟩
  | cons op ops ih =>
    rw [List.foldlM_cons] at hrun
    obtain ⟨mid, hmid, hrest⟩ := bind_eq_ok.1 hrun
    have hm := perform_makes (I := .any) ⟨trivial, trivial, trivial⟩ self op (op.admissible_any self) mid hmid
    obtain ⟨hafter, hid, hbugs⟩ := ih (h.moved hm) hrest
    exact ⟨hafter, hid.trans hm.fixed.1, hbugs.trans hm.fixed.2⟩

/-- After any operations on a new node: its term does not decrease with the next one; all that it has told of its vote in one term, from
its launch and across its crashes, names one candidate; if it is no follower it has told of its own candidacy in its term; and a vote
that the next operation grants goes to the candidate that asks for it, whose log is at least as up to date. -/
theorem one_vote_per_term (id : NodeId) (peerIds : List NodeId) (config : RaftConfig) (bugs : Bugs)
    (initialVoters : Option (List NodeId)) (ops : List NodeOp) (node : RaftNode)
    (hrun : ops.foldlM perform (RaftNode.new id peerIds config bugs initialVoters) = .ok node) :
    (∀ op after, node.perform op = .ok after → node.term ≤ after.term) ∧
    (∀ e ∈ node.out, ∀ e' ∈ node.out, ∀ t c c', e.ballot id = some (t, c) → e'.ballot id = some (t, c') → c = c') ∧
    (node.role ≠ .follower → .record (.election node.term) ∈ node.out) ∧
    (bugs.voteForStaleCandidate = false → ∀ op after, node.perform op = .ok after → ∀ dst reply,
      Effect.send dst (.voteReply reply) ∈ after.out.drop node.out.length → reply.granted = true →
        ∃ req t, op = .handle (.requestVote req) ∧ dst = req.candidate ∧ node.termAt node.lastLogIndex = .ok t ∧
          toLex (t, node.lastLogIndex) ≤ toLex (req.lastLogTerm, req.lastLogIndex)) := by
  obtain ⟨hnode, hid, hbugs⟩ := (Honest.new id peerIds config bugs initialVoters).ops hrun
  have hid : node.id = id := hid
  have hbugs : node.bugs = bugs := hbugs
  refine ⟨fun op after hp => ?_, ?_, hnode.declared, fun hb op after hp dst reply hs hg => ?_⟩
  · exact (perform_makes (I := .any) ⟨trivial, trivial, trivial⟩ node op (op.admissible_any node) after hp).term_le
  · rw [← hid]
    exact hnode.single
  · obtain ⟨req, rfl, rfl⟩ := perform_grants hp hs hg
    have hp : node.handle (.requestVote req) = .ok after := hp
    rw [RaftNode.handle] at hp
    split at hp
    · cases hp
      rw [List.drop_length] at hs
      exact nomatch hs
    · obtain ⟨t, ht, hle⟩ := onRequestVote_grants hp (hbugs ▸ hb) hs hg
      exact ⟨req, t, rfl, rfl, ht, hle⟩

/-- A server that has granted its vote, has crashed, and is asked for it by another candidate of the same term. -/
def voterOps : List NodeOp :=
  [.start, .handle (.requestVote { term := 1, candidate := 2, lastLogIndex := 0, lastLogTerm := 0 }), .pause, .resume,
    .handle (.requestVote { term := 1, candidate := 3, lastLogIndex := 0, lastLogTerm := 0 })]

/-- It granted its vote before the crash, and that is its only one. -/
theorem one_vote_per_term_restart :
    Effect.send 2 (.voteReply ⟨1, 1, true⟩) ∈ ((RaftNode.new 1 [2, 3] {} NO_BUGS none).afterOps voterOps).out ∧
    ∀ c, Effect.send c (.voteReply ⟨1, 1, true⟩) ∈ ((RaftNode.new 1 [2, 3] {} NO_BUGS none).afterOps voterOps).out → c = 2 := by
  have hgranted : Effect.send 2 (.voteReply ⟨1, 1, true⟩) ∈ ((RaftNode.new 1 [2, 3] {} NO_BUGS none).afterOps voterOps).out := by
    decide +kernel
  refine ⟨hgranted, fun c h => ?_⟩
  exact (one_vote_per_term 1 [2, 3] {} NO_BUGS none voterOps _ (foldlM_afterOps (by decide +kernel))).2.1
    _ h _ hgranted 1 c 2 rfl rfl

end DeterministicRaft
