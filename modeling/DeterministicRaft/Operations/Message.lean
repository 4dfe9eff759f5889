import DeterministicRaft.Moves
import DeterministicRaft.Operations.Election
import DeterministicRaft.Operations.Client

/-!
# Message handlers, as steps of the protocol

One theorem for each kind of message. A message vouches for something in the history; with it, what the handler does is what the
protocol allows.
-/

namespace DeterministicRaft

open Consensus Refinement

variable {net : Network} {a a' : State NodeId Entry} {tr : Trace} {n : NodeId} {self : RaftNode} {A : Set Entry}

/-- A later term makes a node a follower of it; its own term and older ones change nothing. -/
theorem Fits.observe (h : Fits net tr n a self) (t : Int) :
    ∃ a', (yieldsAt net.scheme n).rel a a' ∧ Fits net tr n a' (if t > self.term then self.becomeFollower t else self) ∧
      t ≤ (if t > self.term then self.becomeFollower t else self).term := by
  split
  · rename_i hlt
    obtain ⟨a', hm, hf⟩ := h.becomeFollower (t := t) (by omega)
    refine ⟨a', hm, hf, ?_⟩
    rw [becomeFollower_eq]
  · exact ⟨a, (yieldsAt net.scheme n).refl a, h, by omega⟩

/-- A node that hears from the leader of a term not older than its own is a follower in that term. -/
theorem Fits.follow (h : Fits net tr n a self) {t : Int} (ht : self.term ≤ t) :
    ∃ a', (yieldsAt net.scheme n).rel a a' ∧
      Fits net tr n a' (if t > self.term ∨ self.role ≠ .follower then self.becomeFollower t else self) ∧
      (if t > self.term ∨ self.role ≠ .follower then self.becomeFollower t else self).role = .follower ∧
      (if t > self.term ∨ self.role ≠ .follower then self.becomeFollower t else self).term = t := by
  split
  · obtain ⟨a', hm, hf⟩ := h.becomeFollower ht
    refine ⟨a', hm, hf, ?_⟩
    rw [becomeFollower_eq]
    exact ⟨rfl, rfl⟩
  · rename_i hc
    have hr : self.role = .follower := by
      by_contra hne
      exact hc (Or.inr hne)
    exact ⟨a, (yieldsAt net.scheme n).refl a, h, hr, by omega⟩

/-! ## Reads -/

/-- `_on_read_heartbeat`. -/
theorem Fits.onReadHeartbeat (h : Fits net tr n a self) (msg : ReadHeartbeat) :
    ∃ a', (yieldsAt net.scheme n).rel a a' ∧ Fits net tr n a' (self.onReadHeartbeat msg) := by
  obtain ⟨a', hm, hf, -⟩ := h.observe msg.term
  refine ⟨a', hm, ?_⟩
  simp only [RaftNode.onReadHeartbeat]
  generalize (if msg.term > self.term then self.becomeFollower msg.term else self) = mid at hf
  split
  · have h1 : Fits net tr n a' { mid with leaderId := some msg.leader } := ⟨hf.1, { hf.2 with }⟩
    have h2 := h1.armElectionTimer
    exact h2.send h2.2.id
  · exact hf.send hf.2.id

/-- `_on_read_ack`. -/
theorem Fits.onReadAck (h : Fits net tr n a self) (msg : ReadAck) :
    ∃ a', (yieldsAt net.scheme n).rel a a' ∧ Fits net tr n a' (self.onReadAck msg) := by
  simp only [RaftNode.onReadAck]
  split
  · exact h.becomeFollower (by omega)
  · refine ⟨a, (yieldsAt net.scheme n).refl a, ?_⟩
    split
    · exact h
    · rename_i pending hp
      have hread : net.readIndex = true := by
        rcases h.2.reads with hr | hr
        · exact hr
        · rw [hr, Finmap.lookup_empty] at hp
          cases hp
      have hreads : ∀ reads, Fits net tr n a { self with pendingReads := reads } :=
        fun _ => ⟨h.1, { h.2 with reads := Or.inl hread }⟩
      split
      · exact h
      · exact (hreads _).tryServeRead _

/-! ## RequestVote -/

/-- A node that gives its vote, or gives it again. -/
theorem Fits.vote (h : Fits net tr n a self) {c : NodeId} {E : List Entry} (hst : a.stood self.term c = some E)
    (hup : net.scheme.UpToDate E (a.log n)) (hv : self.votedFor = none ∨ self.votedFor = some c) :
    ∃ a', (actsAt net.scheme n A).rel a a' ∧ Fits net tr n a' { self with votedFor := some c } ∧
      ∃ V, a'.ballot self.term n = some (c, V) := by
  have hvote := h.2.votedFor
  rcases hv with hv | hv
  · rw [h.2.term] at hst
    have hm := actsAt.grant (S := net.scheme) (A := A) (s := a) (v := n) (by rw [← hvote, hv]) hst hup
    have x := actsAt.extends_of h.1 hm
    refine ⟨_, hm, ⟨actsAt.inv h.1 hm, { h.2 with votedFor := ?_, votes := ?_, leads := ?_, traced := h.2.traced.grow x }⟩,
      a.log n, ?_⟩
    · simp [State.grant]
    · intro hr v hm
      obtain ⟨V, hV⟩ := h.2.votes hr v hm
      exact ⟨V, x.ballot hV⟩
    · exact fun hr => (h.2.leads hr).grow x rfl rfl rfl fun _ _ => id
    · simp [State.grant, h.2.term]
  · have heq : { self with votedFor := some c } = self := by rw [← hv]
    rw [heq]
    obtain ⟨V, hV⟩ := h.1.vote_ballot (v := n) (a := c) (by rw [← hvote, hv])
    exact ⟨a, (actsAt net.scheme n A).refl a, h, V, h.2.term ▸ hV⟩

/-- `_on_request_vote`. -/
theorem Fits.onRequestVote (h : Fits net tr n a self) {src : NodeId} {tr' : Trace} {msg : RequestVote}
    (hv : Vouched net a tr' src n (.requestVote msg)) :
    Handles net A tr n a (self.onRequestVote msg) := by
  obtain ⟨a1, hm1, hf, -⟩ := h.observe msg.term
  obtain ⟨hc, E, hE, hlen, hlast⟩ := Vouched.grow (yieldsAt.extends_of h.1 hm1) hv
  refine ⟨_, hm1, ?_⟩
  simp only [RaftNode.onRequestVote]
  generalize (if msg.term > self.term then self.becomeFollower msg.term else self) = mid at hf
  have hrefused : Fits net tr n a1 (mid.send msg.candidate (.voteReply {
      term := mid.term, voter := mid.id, granted := false })) := hf.send ⟨hf.2.id, fun hg => absurd hg (by simp)⟩
  split
  · rename_i hcond
    have htat := hf.2.stored.termAt (by have := hf.2.base_le; have := hf.commit_le; omega) le_rfl
    rw [← hf.lastLogIndex, List.take_length] at htat
    simp only [htat, bind, Except.bind]
    split
    · rename_i hup
      have hup' : net.scheme.UpToDate E (a1.log n) := by
        rw [hf.2.bugs] at hup
        rcases hup with h1 | ⟨h1, h2⟩ | h1
        · exact Or.inl (hlast ▸ h1)
        · rw [hf.lastLogIndex, hlen] at h2
          exact Or.inr ⟨hlast ▸ h1, by omega⟩
        · exact absurd h1 (by decide)
      rw [← hc, hcond.1] at hE
      obtain ⟨a2, hm2, hf2, V, hV⟩ := hf.vote hE hup' hcond.2
      have h3 := (hf2.record (e := .vote msg.candidate mid.term) fun _ => trivial).armElectionTimer
      exact Ends.move hm2 (h3.send ⟨h3.2.id, fun _ => ⟨V, hV⟩⟩)
    · exact Ends.pure hrefused
  · exact Ends.pure hrefused

/-- `_on_vote_reply`. -/
theorem Fits.onVoteReply (h : Fits net tr n a self) {src : NodeId} {tr' : Trace} {msg : VoteReply}
    (hv : Vouched net a tr' src n (.voteReply msg)) :
    Handles net A tr n a (self.onVoteReply msg) := by
  obtain ⟨hsrc, hballot⟩ := hv
  unfold RaftNode.onVoteReply
  split
  · obtain ⟨a', hm, hf⟩ := h.becomeFollower (t := msg.term) (by omega)
    exact Handles.of_yields hm hf
  · rename_i hnew
    refine Handles.of_acts ?_
    split
    · exact Ends.pure h
    · rename_i hold
      simp only [not_or, not_not, Bool.not_eq_false] at hold
      obtain ⟨V, hV⟩ := hballot hold.2.2
      have hterm : msg.term = a.term n := by
        have := h.2.term
        omega
      have hvotes : ∀ v ∈ insert msg.voter self.votes, ∃ V, a.ballot (a.term n) v = some (n, V) := by
        intro v hv
        rcases Finset.mem_insert.1 hv with rfl | hv
        · exact ⟨V, by rw [hsrc, ← hterm]; exact hV⟩
        · exact h.2.votes hold.1 v hv
      have hf : Fits net tr n a { self with votes := insert msg.voter self.votes } :=
        ⟨h.1, { h.2 with votes := fun _ => hvotes }⟩
      exact hf.maybeWin.mono fun _ _ _ h => h.1

/-! ## AppendEntries -/

/-- What is left of a message after the covered entries: a stretch of the leader's log up to the same place, from the base on or
empty. -/
theorem Fits.skipCovered (h : Fits net tr n a self) {msg : AppendEntries} {B : List Entry} {p : ℕ}
    (hp : msg.prevIndex = p) (hpt : msg.prevTerm = net.scheme.lastTerm (B.take p))
    (hes : msg.entries = (B.take (p + msg.entries.length)).drop p) :
    ∃ i : ℕ, i ≤ p + msg.entries.length ∧ (self.baseIndex ≤ i ∨ i = p + msg.entries.length) ∧
      self.skipCovered msg = .ok ((i : Int), net.scheme.lastTerm (B.take i), (B.take (p + msg.entries.length)).drop i) := by
  obtain ⟨i, -, hi, hbi, -, hskip⟩ := h.2.stored.holds.skipCovered hp hpt hes
  exact ⟨i, hi, hbi, hskip⟩

/-- What passes the consistency check: the logs agree at the place from which entries are taken over. -/
theorem Fits.inconsistent (h : Fits net tr n a self) {B : List Entry} (hwf : a.WellFormed net.scheme B)
    (hknown : (a.log n).take (a.commit n) <+: B) {i m : ℕ} (hm : m ≤ B.length) (hi : i ≤ m) :
    ∃ c, self.inconsistent i (net.scheme.lastTerm (B.take i)) = .ok c ∧
      (c = false → i ≤ (a.log n).length ∧ (a.log n).take i = B.take i) := by
  have hcl := h.commit_le
  have hbc := h.2.base_le
  refine h.2.stored.holds.inconsistent (by rw [h.2.bugs]; rfl) hm hi (fun hib => ?_)
    fun k e e' he he' ht => (h.1.log_wf n).agree hwf he he' ht
  have h1 : ((a.log n).take (a.commit n)).take i = (a.log n).take i := by
    rw [List.take_take, Nat.min_eq_left (by omega)]
  rw [← h1, take_extends hknown (by rw [List.length_take_of_le hcl]; omega)]

/-- Taking over a leader's entries, and acknowledging them. -/
theorem Fits.accepted (h : Fits net tr n a self) (hr : self.role = .follower) {m : ℕ} (hl : a.Led (a.term n))
    (hm : m ≤ (a.llog (a.term n)).length) {after : RaftNode} (honly : OnlyLog self after)
    (hst : Stored net (merge (a.log n) ((a.llog (a.term n)).take m)) after.disk) :
    ∃ a', (actsAt net.scheme n A).rel a a' ∧ Fits net tr n a' after ∧ a'.acked n (a.term n) m ∧
      a'.llog (a.term n) = a.llog (a.term n) ∧ a'.term n = a.term n ∧ a'.role n = .follower ∧
      a'.log n = merge (a.log n) ((a.llog (a.term n)).take m) ∧ a'.commit n = a.commit n := by
  have habs : a.role n = .follower := by
    rw [← h.2.role, hr]
    rfl
  have hm1 := actsAt.accept (S := net.scheme) (A := A) habs hl hm
  have hlog : (a.accept n m).log n = merge (a.log n) ((a.llog (a.term n)).take m) := by simp [State.accept]
  have hm2 := actsAt.ack (S := net.scheme) (A := A) (s := a.accept n m) (f := n) hl hm (by
    rw [hlog]
    exact prefix_merge _ _)
  have hmv := (actsAt net.scheme n A).trans hm1 hm2
  have x := actsAt.extends_of h.1 hmv
  have hinv := actsAt.inv h.1 hmv
  have hknown : (a.log n).take (a.commit n) <+: a.llog (a.term n) := h.1.known_prefix_llog (h.1.commit_known n) hl le_rfl
  have hkeep : (merge (a.log n) ((a.llog (a.term n)).take m)).take (a.commit n) = (a.log n).take (a.commit n) := by
    have hp := prefix_merge_both (m := m) (List.take_prefix (a.commit n) (a.log n)) hknown
    have hlen := List.length_take_of_le h.commit_le
    rw [take_extends hp hlen.ge, List.take_take, Nat.min_self]
  refine ⟨_, hmv, ⟨hinv, ?_⟩, by simp [State.ack, State.accept], rfl, rfl, habs, hlog, rfl⟩
  rw [honly] at hst ⊢
  have hlog' : ((a.accept n m).ack n m).log n = merge (a.log n) ((a.llog (a.term n)).take m) := hlog
  exact { h.2 with
    stored := by
      rw [hlog']
      exact hst
    applied := by
      rw [hlog']
      show self.applied = _
      rw [h.2.applied]
      exact congrArg (fun l => (List.drop self.baseIndex.toNat l).map (·.command)) hkeep.symm
    kv := by
      rw [hlog']
      show self.kv = _
      rw [h.2.kv]
      exact congrArg replay hkeep.symm
    recorded := by
      rw [hlog']
      show Recorded _ (List.take (a.commit n) _)
      rw [hkeep]
      exact h.2.recorded
    votes := fun hc => absurd (hr.symm.trans hc) (by simp)
    leads := fun hc => absurd (hr.symm.trans hc) (by simp)
    traced := h.2.traced.grow x }

/-- A follower that learns that its first `k` entries are committed. -/
theorem Fits.learned (h : Fits net tr n a self) (hr : self.role = .follower) {k : ℕ} (hk : a.commit n ≤ k)
    (hkl : k ≤ (a.log n).length) (hcom : a.Committed (a.term n) ((a.log n).take k)) :
    Ends (actsAt net.scheme n A) a (self.setCommitIndex k) fun a' after => Fits net tr n a' after ∧ OnlyApplied self after := by
  rcases hk.eq_or_lt with rfl | hlt
  · have hle : ((a.commit n : ℕ) : Int) ≤ self.commitIndex := h.2.commitIndex.ge
    unfold RaftNode.setCommitIndex
    rw [if_pos hle]
    exact Ends.pure ⟨h, rfl⟩
  · have hm := actsAt.learn (S := net.scheme) (A := A) hkl hcom
    obtain ⟨after, h1, h2, h3⟩ := h.setCommitIndex hlt hkl hm rfl rfl rfl rfl (by simp [State.learn])
      fun hc => absurd (hr.symm.trans hc) (by simp)
    rw [h1]
    exact Ends.move hm ⟨h2, h3⟩

/-- The entries of a message are taken over: the follower's log becomes the merge with the leader's first `m` entries. -/
theorem Fits.mergeEntries (h : Fits net tr n a self) (hl : a.Led (a.term n)) {i m : ℕ} (hm : m ≤ (a.llog (a.term n)).length) (hi : i ≤ m)
    (hb : self.baseIndex ≤ i ∨ i = m) (hil : i ≤ (a.log n).length) (hagree : (a.log n).take i = (a.llog (a.term n)).take i) :
    ∃ after, self.mergeEntries i (((a.llog (a.term n)).take m).drop i) = .ok after ∧ OnlyLog self after ∧
      Stored net (merge (a.log n) ((a.llog (a.term n)).take m)) after.disk := by
  rcases hb with hb | rfl
  · exact Stored.mergeEntries hm (m - i) h.2.stored rfl hi hb hil hagree
      fun k e e' he he' ht => (h.1.log_wf n).agree (h.1.llog_wf hl) he he' ht
  · have hnil : ((a.llog (a.term n)).take i).drop i = [] := by simp
    rw [hnil]
    refine ⟨self, rfl, OnlyLog.refl self, ?_⟩
    rw [merge_eq_left (hagree ▸ List.take_prefix i (a.log n))]
    exact h.2.stored

/-- What a message that carries entries up to `m` says of commits: the merged log is committed as far as the leader's, up to there. -/
theorem committed_merge (h : Inv net.scheme a) {L B : List Entry} {m c : ℕ} (hm : m ≤ B.length) (hlog : a.log n = merge L (B.take m))
    (hc : a.Committed (a.term n) (B.take c)) : a.Committed (a.term n) ((a.log n).take (max (a.commit n) (min c m))) := by
  rcases Nat.le_total (min c m) (a.commit n) with hle | hle
  · rw [Nat.max_eq_left hle]
    exact h.commit_known n
  · have hcut : (merge L (B.take m)).take (min c m) = B.take (min c m) := by
      rw [take_extends (prefix_merge _ _) (by rw [List.length_take_of_le hm]; omega), List.take_take, Nat.min_eq_left (by omega)]
    rw [Nat.max_eq_right hle, hlog, hcut]
    exact hc.shorter (List.take_prefix_take_left (by omega))

/-- `_on_append_entries`. -/
theorem Fits.onAppendEntries (h : Fits net tr n a self) {src : NodeId} {tr' : Trace} {msg : AppendEntries}
    (hv : Vouched net a tr' src n (.appendEntries msg)) :
    Handles net A tr n a (self.onAppendEntries msg) := by
  have hrefused : ∀ {a : State NodeId Entry} {node : RaftNode}, Fits net tr n a node → Fits net tr n a (node.send msg.leader
      (.appendReply { term := node.term, follower := node.id, success := false, matchIndex := 0 })) :=
    fun hf => hf.send ⟨hf.2.id, fun hs => absurd hs (by simp)⟩
  simp only [RaftNode.onAppendEntries]
  by_cases hold : msg.term < self.term
  · have hnot : ¬msg.term > self.term := by omega
    simp only [if_neg hnot, if_pos hold]
    exact Handles.of_acts (Ends.pure (hrefused h))
  obtain ⟨a1, hm1, hf1, hr1, ht1⟩ := h.follow (t := msg.term) (by omega)
  simp only [if_neg (self.not_lt_observed (not_lt.1 hold)), self.observed_follower]
  generalize (if msg.term > self.term ∨ self.role ≠ .follower then self.becomeFollower msg.term else self) = mid at hf1 hr1 ht1
  have x1 := yieldsAt.extends_of h.1 hm1
  obtain ⟨-, hlead, ⟨p, hp, hlen, hpt, hes⟩, c, hc, hcl, hcom⟩ : AppendVouched net a1 src msg := Vouched.grow x1 hv
  have hled : a1.Led (a1.term n) := by
    rw [← hf1.2.term, ht1]
    exact ⟨src, hlead⟩
  have hB : a1.llog msg.term = a1.llog (a1.term n) := by rw [← hf1.2.term, ht1]
  rw [hB] at hlen hpt hes hcl hcom
  have hf2 : Fits net tr n a1 (RaftNode.armElectionTimer { mid with leaderId := some msg.leader }) :=
    (⟨hf1.1, { hf1.2 with }⟩ : Fits net tr n a1 { mid with leaderId := some msg.leader }).armElectionTimer
  have hr2 : (RaftNode.armElectionTimer { mid with leaderId := some msg.leader }).role = .follower := hr1
  have ht2 : (RaftNode.armElectionTimer { mid with leaderId := some msg.leader }).term = msg.term := ht1
  refine ⟨_, hm1, ?_⟩
  generalize RaftNode.armElectionTimer { mid with leaderId := some msg.leader } = node at hf2 hr2 ht2
  have hknown : (a1.log n).take (a1.commit n) <+: a1.llog (a1.term n) :=
    hf2.1.known_prefix_llog (hf2.1.commit_known n) hled le_rfl
  have hwf := hf2.1.llog_wf hled
  obtain ⟨i, hi, hbi, hskip⟩ := hf2.skipCovered hp hpt hes
  simp only [hskip, bind, Except.bind]
  generalize hm : p + msg.entries.length = m at hlen hes hi hbi
  obtain ⟨bad, hbad, hok⟩ := hf2.inconsistent hwf hknown hlen hi
  simp only [hbad]
  cases bad with
  | true => exact Ends.pure (hrefused hf2)
  | false =>
    obtain ⟨hil, hagree⟩ := hok rfl
    obtain ⟨after, hmerge, honly, hst⟩ := hf2.mergeEntries hled hlen hi hbi hil hagree
    simp only [hmerge]
    obtain ⟨a2, hm2, hf3, hack, hll, hta, hra, hla, hca⟩ := hf2.accepted hr2 hled hlen honly hst
    refine Ends.after hm2 ?_
    have hr3 : after.role = .follower := by
      rw [honly]
      exact hr2
    have ht3 : after.term = msg.term := by
      rw [honly]
      exact ht2
    have hmatch : (i : Int) + (((a1.llog (a1.term n)).take m).drop i).length = m := by
      rw [List.length_drop, List.length_take_of_le hlen]
      omega
    have hbugs : after.bugs.allowCommitRegression = false := by rw [hf3.2.bugs]; rfl
    simp only [hmatch, hbugs, Bool.false_eq_true, if_false]
    have hreply : ∀ {a' : State NodeId Entry} {node' : RaftNode}, a2.Extends a' → node'.term = msg.term →
        Fits net tr n a' node' → Fits net tr n a' (node'.send msg.leader
          (.appendReply { term := node'.term, follower := node'.id, success := true, matchIndex := m })) := by
      intro a' node' x ht hf
      refine hf.send ⟨hf.2.id, fun _ => ⟨m, rfl, ?_⟩⟩
      show a'.acked n node'.term m
      rw [ht, ← ht1, hf1.2.term]
      exact x.acked hack
    split
    · rename_i hlt
      have hci := hf3.2.commitIndex
      have hk : max after.commitIndex (min msg.leaderCommit (m : Int)) = ((max (a2.commit n) (min c m) : ℕ) : Int) := by
        omega
      rw [hk]
      have hlast : m ≤ (a2.log n).length := by
        have := (prefix_merge (a1.log n) ((a1.llog (a1.term n)).take m)).length_le
        rw [List.length_take_of_le hlen] at this
        rwa [hla]
      have hcom' : a2.Committed (a2.term n) ((a1.llog (a1.term n)).take c) := by
        rw [hta.trans (ht1.symm.trans hf1.2.term).symm]
        exact (actsAt.extends_of hf2.1 hm2).known hcom
      have hlearn := committed_merge hf3.1 hlen hla hcom'
      have hcl2 := hf3.commit_le
      refine Ends.bind (hf3.learned hr3 (by omega) (by omega) hlearn) fun node' a' hm' hQ => ?_
      refine Ends.pure (hreply (actsAt.extends_of hf3.1 hm') ?_ hQ.1)
      rw [hQ.2]
      exact ht3
    · exact Ends.pure (hreply (State.Extends.refl _) ht3 hf3)

/-- `_on_append_reply`. -/
theorem Fits.onAppendReply (h : Fits net tr n a self) {src : NodeId} {tr' : Trace} {msg : AppendReply}
    (hv : Vouched net a tr' src n (.appendReply msg)) :
    Handles net A tr n a (self.onAppendReply msg) := by
  obtain ⟨hsrc, hack⟩ := hv
  unfold RaftNode.onAppendReply
  split
  · obtain ⟨a', hm, hf⟩ := h.becomeFollower (t := msg.term) (by omega)
    exact Handles.of_yields hm hf
  · rename_i hnew
    refine Handles.of_acts ?_
    split
    · exact Ends.pure h
    · rename_i hcur
      simp only [not_or, not_not] at hcur
      have hr := hcur.1
      have hL := h.2.leads hr
      have hterm : msg.term = a.term n := by
        have := h.2.term
        omega
      have hset : ∀ {next matched : Dict NodeId Int}, Leads net a n next matched self.committedThisTerm →
          Fits net tr n a { self with nextIndex := next, matchIndex := matched } :=
        fun hl => ⟨h.1, { h.2 with leads := fun _ => hl }⟩
      have hsome : ∀ x, ∀ p ∈ net.ids, p ≠ n → ∃ y, (self.nextIndex.insert msg.follower x).lookup p = some y := by
        intro x p hp hpn
        by_cases hpf : p = msg.follower
        · subst hpf
          exact ⟨x, Finmap.lookup_insert _⟩
        · rw [Finmap.lookup_insert_of_ne _ hpf]
          exact hL.next_some p hp hpn
      have hdefault : 1 ≤ self.nextIndex.getD msg.follower 1 ∧
          self.nextIndex.getD msg.follower 1 ≤ (a.log n).length + 1 := by
        unfold Dict.getD
        cases hx : self.nextIndex.lookup msg.follower with
        | none =>
          simp only [Option.getD_none]
          omega
        | some x => exact hL.next_range _ x hx
      have hrange : ∀ x : Int, 1 ≤ x → x ≤ (a.log n).length + 1 → ∀ p y,
          (self.nextIndex.insert msg.follower x).lookup p = some y → 1 ≤ y ∧ y ≤ (a.log n).length + 1 := by
        intro x h1 h2 p y hy
        by_cases hpf : p = msg.follower
        · subst hpf
          rw [Finmap.lookup_insert, Option.some.injEq] at hy
          omega
        · rw [Finmap.lookup_insert_of_ne _ hpf] at hy
          exact hL.next_range p y hy
      split
      · rename_i hs
        obtain ⟨m, hm, ha⟩ := hack hs
        rw [hterm] at ha
        have hmle : m ≤ (a.log n).length := by
          rw [(h.leader hr).2]
          exact (h.1.acked_led ha).2.2
        refine ((hset ⟨hsome _, hrange _ (by omega) (by omega), ?_, hL.own, hL.max⟩).advanceCommit hr).mono
          fun _ _ _ hQ => hQ.1
        intro v y hy hpos
        by_cases hvf : v = msg.follower
        · subst hvf
          rw [Finmap.lookup_insert, Option.some.injEq] at hy
          rcases le_or_gt msg.matchIndex (self.matchIndex.getD msg.follower 0) with hle | hle
          · rw [max_eq_left hle] at hy
            unfold Dict.getD at hy
            cases hx : self.matchIndex.lookup msg.follower with
            | none =>
              rw [hx, Option.getD_none] at hy
              omega
            | some x =>
              rw [hx, Option.getD_some] at hy
              subst hy
              exact hL.matched _ x hx hpos
          · rw [max_eq_right hle.le] at hy
            exact ⟨m, by omega, hsrc ▸ ha⟩
        · rw [Finmap.lookup_insert_of_ne _ hvf] at hy
          exact hL.matched v y hy hpos
      · have hf := hset ⟨hsome (max 1 (self.nextIndex.getD msg.follower 1 - 1)), hrange _ (by omega) (by omega), hL.matched,
          hL.own, hL.max⟩
        obtain ⟨after, h1, h2, -⟩ := hf.sendAppendEntries hr (Finmap.lookup_insert _)
        exact Ends.of_ok h1 h2

/-! ## InstallSnapshot -/

/-- The message carries the snapshot of the entries `P`. -/
structure InstallSnapshot.Covers (net : Network) (msg : InstallSnapshot) (P : List Entry) : Prop where
  nonempty : P ≠ []
  snapshot : net.snapshotOf P = some {
    lastIndex := msg.lastIndex, lastTerm := msg.lastTerm, store := msg.store, sessions := msg.sessions, voters := msg.voters }

namespace InstallSnapshot.Covers

variable {msg : InstallSnapshot} {P : List Entry}

/-- What the fields of the snapshot say of the entries. -/
theorem fields (h : msg.Covers net P) : (P.length : Int) = msg.lastIndex ∧ net.scheme.lastTerm P = msg.lastTerm ∧
    KVStateMachine.restore {} msg.store msg.sessions = replay P := by
  have hfields := h.snapshot
  rw [Network.snapshotOf, if_neg h.nonempty, Option.some.injEq, Snapshot.mk.injEq] at hfields
  obtain ⟨hidx, hlt, hstore, hsess, -⟩ := hfields
  refine ⟨hidx, hlt, ?_⟩
  rw [← hstore, ← hsess]
  rfl

theorem lastIndex (h : msg.Covers net P) : msg.lastIndex.toNat = P.length := by
  have := h.fields.1
  omega

end InstallSnapshot.Covers

/-- A follower acknowledges what it has committed: its leader holds that too. -/
theorem Fits.ackCommitted (h : Fits net tr n a self) (hr : self.role = .follower) (hl : a.Led (a.term n)) :
    ∃ a', (actsAt net.scheme n A).rel a a' ∧ Fits net tr n a' self ∧ a'.acked n (a.term n) (a.commit n) := by
  have hcl := h.commit_le
  have hknown : (a.log n).take (a.commit n) <+: a.llog (a.term n) := h.1.known_prefix_llog (h.1.commit_known n) hl le_rfl
  have hklen : a.commit n ≤ (a.llog (a.term n)).length := by
    have := hknown.length_le
    rwa [List.length_take_of_le hcl] at this
  have hcut : (a.llog (a.term n)).take (a.commit n) = (a.log n).take (a.commit n) := by
    rw [take_extends hknown (by rw [List.length_take_of_le hcl]), List.take_take, Nat.min_self]
  have hm := actsAt.ack (S := net.scheme) (A := A) hl hklen (hcut ▸ List.take_prefix _ _)
  exact ⟨a.ack n (a.commit n), hm, ⟨actsAt.inv h.1 hm, { h.2 with
    votes := fun hc => absurd (hr.symm.trans hc) (by simp)
    leads := fun hc => absurd (hr.symm.trans hc) (by simp)
    reads := h.2.reads
    traced := h.2.traced.grow (actsAt.extends_of h.1 hm) }⟩, Or.inr ⟨rfl, rfl, rfl⟩⟩

section Installing

variable {msg : InstallSnapshot} {P : List Entry} {keep : Bool}

/-- `_on_install_snapshot` keeps the entries behind the snapshot if its own log holds what the snapshot covers. -/
theorem Fits.keepsTail (h : Fits net tr n a self) (hl : a.Led (a.term n)) (hP : msg.Covers net P) (hPB : P <+: a.llog (a.term n))
    (hclt : a.commit n < P.length) : ∃ keep, self.keepsTail msg = .ok keep ∧ (keep = true ↔ P <+: a.log n) := by
  obtain ⟨hidx, hlt, -⟩ := hP.fields
  have hbc := h.2.base_le
  have hlast := h.lastLogIndex
  obtain ⟨k, hk⟩ : ∃ k, P.length = k + 1 := ⟨P.length - 1, by omega⟩
  obtain ⟨e, he⟩ : ∃ e, P[k]? = some e := ⟨_, List.getElem?_eq_getElem (by omega)⟩
  have hPt : net.scheme.lastTerm P = e.term := by
    have := lastTerm_take (S := net.scheme) he
    rwa [← hk, List.take_length] at this
  unfold RaftNode.keepsTail
  split
  · rename_i hge
    have hlen : k < (a.log n).length := by omega
    obtain ⟨y, hy⟩ : ∃ y, (a.log n)[k]? = some y := ⟨_, List.getElem?_eq_getElem hlen⟩
    have hterm := h.2.stored.termAt (i := k + 1) (by omega) (by omega)
    rw [lastTerm_take hy, ← hk, hidx] at hterm
    rw [hterm]
    refine ⟨_, rfl, ?_⟩
    rw [decide_eq_true_iff, ← hlt, hPt]
    constructor
    · intro heq
      have := (h.1.log_wf n).agree (h.1.llog_wf hl) hy (getElem?_extends hPB he) heq
      rw [← hk, ← List.prefix_iff_eq_take.1 hPB] at this
      exact this ▸ List.take_prefix _ _
    · intro hp
      have := getElem?_extends hp he
      rw [hy, Option.some.injEq] at this
      rw [this]
      rfl
  · rename_i hlt'
    refine ⟨false, rfl, ?_⟩
    constructor
    · intro hc
      exact absurd hc (by simp)
    · intro hp
      have := hp.length_le
      omega

/-- The kept tail: what the merge of the log with the covered entries has behind these. -/
theorem Fits.keptTail (h : Fits net tr n a self) (hP : msg.Covers net P) (hclt : a.commit n < P.length)
    (hiff : keep = true ↔ P <+: a.log n) : (self.restored msg keep).log = (merge (a.log n) P).drop P.length := by
  obtain ⟨b, hb, hbn, hle⟩ := h.2.stored.exists_base
  have hbc := h.2.base_le
  have hl : self.log = (a.log n).drop self.baseIndex.toNat := h.2.stored.live
  show (if keep = true then sliceFrom self.log (msg.lastIndex - self.baseIndex) else []) = _
  by_cases hk : keep = true
  · have hp := hiff.1 hk
    rw [if_pos hk, merge_eq_left hp, hl, hbn, ← hP.fields.1, hb]
    rw [sliceFrom_nat _ (show (P.length : Int) - b = ((P.length - b : ℕ) : Int) by omega), List.drop_drop]
    congr 1
    omega
  · have hp : ¬P <+: a.log n := fun hp => hk (hiff.2 hp)
    rw [if_neg hk, merge_eq_right hp, List.drop_length]

/-- What the node holds with the snapshot in place: the merge of its log with the covered entries. -/
theorem Fits.storedInstalled (h : Fits net tr n a self) (hP : msg.Covers net P) (hclt : a.commit n < P.length)
    (hiff : keep = true ↔ P <+: a.log n) : Stored net (merge (a.log n) P) (self.installed msg keep).disk := by
  have hpm : P <+: merge (a.log n) P := prefix_merge _ _
  have hcutm : (merge (a.log n) P).take P.length = P := (List.prefix_iff_eq_take.1 hpm).symm
  obtain ⟨hidx, hlt, -⟩ := hP.fields
  have hst : Stored net (merge (a.log n) P) (self.restored msg keep).rebuildConfig.disk := by
    refine Stored.rebuildConfig ?_ ?_ ?_ ?_ ?_ h.2.stored.initialVoters
    · show 0 ≤ msg.lastIndex
      omega
    · show msg.lastIndex ≤ _
      have := hpm.length_le
      omega
    · show _ = (merge (a.log n) P).drop msg.lastIndex.toNat
      rw [hP.lastIndex]
      exact h.keptTail hP hclt hiff
    · show msg.lastTerm = net.scheme.lastTerm ((merge (a.log n) P).take msg.lastIndex.toNat)
      rw [hP.lastIndex, hcutm, hlt]
    · show _ = net.snapshotOf ((merge (a.log n) P).take msg.lastIndex.toNat)
      rw [hP.lastIndex, hcutm, hP.snapshot]
      rfl
  exact hst

/-- Installing a snapshot takes over the covered entries, learns that they are committed and acknowledges them. -/
theorem Fits.install (h : Fits net tr n a self) (hr : self.role = .follower) (hl : a.Led (a.term n)) (hP : msg.Covers net P)
    (hPB : P <+: a.llog (a.term n)) (hcom : a.Committed (a.term n) P) (hrec : Recorded tr P) (hclt : a.commit n < P.length)
    (hiff : keep = true ↔ P <+: a.log n) : ∃ a', (actsAt net.scheme n A).rel a a' ∧ Fits net tr n a' (self.installed msg keep) ∧
      a'.acked n (a.term n) P.length := by
  have hBlen := hPB.length_le
  have hcutB : (a.llog (a.term n)).take P.length = P := (List.prefix_iff_eq_take.1 hPB).symm
  have hpm : P <+: merge (a.log n) P := prefix_merge _ _
  have hcutm : (merge (a.log n) P).take P.length = P := (List.prefix_iff_eq_take.1 hpm).symm
  have habs : a.role n = .follower := by
    rw [← h.2.role, hr]
    rfl
  have hma := actsAt.accept (S := net.scheme) (A := A) habs hl hBlen
  have hlog : (a.accept n P.length).log n = merge (a.log n) P := by simp [State.accept, hcutB]
  have hml := actsAt.learn (S := net.scheme) (A := A) (s := a.accept n P.length) (f := n) (n := P.length)
    (hlog ▸ hpm.length_le) (by
      rw [hlog, hcutm]
      exact hcom)
  have hmk := actsAt.ack (S := net.scheme) (A := A) (s := (a.accept n P.length).learn n P.length) (f := n) hl hBlen (by
    show (a.llog (a.term n)).take P.length <+: (a.accept n P.length).log n
    rw [hlog, hcutB]
    exact hpm)
  have hmv := (actsAt net.scheme n A).trans ((actsAt net.scheme n A).trans hma hml) hmk
  have hlog' : (((a.accept n P.length).learn n P.length).ack n P.length).log n = merge (a.log n) P := hlog
  have hcommit : (((a.accept n P.length).learn n P.length).ack n P.length).commit n = P.length := by
    simp [State.ack, State.learn]
  obtain ⟨hidx, -, hkv⟩ := hP.fields
  have hf : Fits net tr n _ (self.restored msg keep).rebuildConfig := ⟨actsAt.inv h.1 hmv, {
    id := h.2.id
    peers := h.2.peers
    bugs := h.2.bugs
    stored := by
      rw [hlog']
      exact h.storedInstalled hP hclt hiff
    term := h.2.term
    votedFor := h.2.votedFor
    role := h.2.role
    base_le := by
      rw [hcommit]
      exact hidx.ge
    commitIndex := by
      rw [hcommit]
      exact hidx.symm
    lastApplied := by
      rw [hcommit]
      exact hidx.symm
    applied := by
      rw [hcommit, hlog', hcutm]
      show [] = (P.drop msg.lastIndex.toNat).map (·.command)
      rw [hP.lastIndex, List.drop_length]
      rfl
    kv := by
      rw [hcommit, hlog', hcutm]
      exact hkv
    recorded := by
      rw [hcommit, hlog', hcutm]
      exact hrec.mono fun _ hx => List.mem_append_left _ hx
    votes := fun hc => absurd (hr.symm.trans hc) (by simp)
    leads := fun hc => absurd (hr.symm.trans hc) (by simp)
    reads := h.2.reads
    traced := h.2.traced.grow (actsAt.extends_of h.1 hmv) }⟩
  exact ⟨_, hmv, hf.record (e := .installsnap msg.lastIndex msg.lastTerm) fun _ => trivial, Or.inr ⟨rfl, rfl, rfl⟩⟩

end Installing

/-- `_on_install_snapshot`. -/
theorem Fits.onInstallSnapshot (h : Fits net tr n a self) {src : NodeId} {tr' : Trace} {msg : InstallSnapshot}
    (ht : tr' ⊆ tr) (hv : Vouched net a tr' src n (.installSnapshot msg)) :
    Handles net A tr n a (self.onInstallSnapshot msg) := by
  simp only [RaftNode.onInstallSnapshot]
  split
  · exact Handles.of_acts (Ends.pure (h.send ⟨h.2.id, fun hs => absurd hs (by simp)⟩))
  rename_i hold
  obtain ⟨a1, hm1, hf1, hr1, ht1⟩ := h.follow (t := msg.term) (by omega)
  refine ⟨_, hm1, ?_⟩
  generalize (if msg.term > self.term ∨ self.role ≠ .follower then self.becomeFollower msg.term else self) = mid at hf1 hr1 ht1
  have x1 := yieldsAt.extends_of h.1 hm1
  obtain ⟨-, hlead, P, hne, hPB, hcom, hrec, hsnap⟩ : SnapshotVouched net a1 tr' src msg := Vouched.grow x1 hv
  have hled : a1.Led (a1.term n) := by
    rw [← hf1.2.term, ht1]
    exact ⟨src, hlead⟩
  have hterm : msg.term = a1.term n := ht1.symm.trans hf1.2.term
  rw [hterm] at hPB hcom
  have hP : msg.Covers net P := ⟨hne, hsnap⟩
  have hidx := hP.fields.1
  have hf2 : Fits net tr n a1 (RaftNode.armElectionTimer { mid with leaderId := some msg.leader }) :=
    (⟨hf1.1, { hf1.2 with }⟩ : Fits net tr n a1 { mid with leaderId := some msg.leader }).armElectionTimer
  have hr2 : (RaftNode.armElectionTimer { mid with leaderId := some msg.leader }).role = .follower := hr1
  have ht2 : (RaftNode.armElectionTimer { mid with leaderId := some msg.leader }).term = a1.term n := ht1.trans hterm
  generalize RaftNode.armElectionTimer { mid with leaderId := some msg.leader } = node at hf2 hr2 ht2
  have hci := hf2.2.commitIndex
  split
  · obtain ⟨a2, hm2, hf3, hacked⟩ := hf2.ackCommitted (A := A) hr2 hled
    exact Ends.move hm2 (hf3.send ⟨hf3.2.id, fun _ => ⟨a1.commit n, hci, ht2 ▸ hacked⟩⟩)
  · rename_i hnew
    have hclt : a1.commit n < P.length := by omega
    obtain ⟨keep, hkeep, hiff⟩ := hf2.keepsTail hled hP hPB hclt
    obtain ⟨a2, hm2, hf3, hacked⟩ := hf2.install (A := A) hr2 hled hP hPB hcom (hrec.mono ht) hclt hiff
    simp only [hkeep, bind, Except.bind]
    exact Ends.move hm2 (hf3.send ⟨hf3.2.id, fun _ => ⟨P.length, hidx.symm, ht2 ▸ hacked⟩⟩)

/-! ## Dispatch -/

/-- `handle`, of a message that was sent to the node. -/
theorem Fits.handle (h : Fits net tr n a self) {src : NodeId} {tr' : Trace} {msg : Message} (ht : tr' ⊆ tr)
    (hv : Vouched net a tr' src n msg) :
    Handles net A tr n a (self.handle msg) := by
  unfold RaftNode.handle
  split
  · exact Handles.of_acts (Ends.pure h)
  · cases msg with
    | requestVote msg => exact h.onRequestVote hv
    | voteReply msg => exact h.onVoteReply hv
    | appendEntries msg => exact h.onAppendEntries hv
    | appendReply msg => exact h.onAppendReply hv
    | installSnapshot msg => exact h.onInstallSnapshot ht hv
    | readHeartbeat msg =>
      obtain ⟨a', hm, hf⟩ := h.onReadHeartbeat msg
      exact Handles.of_yields hm hf
    | readAck msg =>
      obtain ⟨a', hm, hf⟩ := h.onReadAck msg
      exact Handles.of_yields hm hf

end DeterministicRaft
