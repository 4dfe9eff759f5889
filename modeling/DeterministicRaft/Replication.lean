import DeterministicRaft.LogicalLog
import DeterministicRaft.Commits

/-!
# What a follower does with a stretch of a leader's log

A message that carries a stretch of the leader's log is refused, and nothing has changed, or the stretch is merged into the follower's
log and what it allows is committed. A message whose stretch the follower already has changes nothing.
-/

namespace DeterministicRaft

open RaftNode Refinement Consensus

variable {self node mid after : RaftNode} {F B : List Entry} {index : Int} {msg : AppendEntries} {p : ℕ}

/-- The message carries the entries of the leader's log `B` behind its first `p`, and the term of the last of these. -/
structure AppendEntries.Segment (msg : AppendEntries) (B : List Entry) (p : ℕ) : Prop where
  prevIndex : msg.prevIndex = p
  le : p + msg.entries.length ≤ B.length
  prevTerm : msg.prevTerm = lastTermOf (B.take p)
  entries : msg.entries = (B.take (p + msg.entries.length)).drop p

/-! ## Messages sent -/

@[simp] theorem messages_append (out es : List Effect) : messages (out ++ es) = messages out ++ messages es :=
  List.filterMap_append

theorem messages_send (node : RaftNode) (dst : NodeId) (msg : Message) :
    messages (node.send dst msg).out = messages node.out ++ [(dst, msg)] := messages_append _ _

/-- What is told of something that happened is no message. -/
theorem messages_of_tells {es : List Effect} (h : ∀ e ∈ es, e.Tells) : messages es = [] := by
  refine List.filterMap_eq_nil_iff.2 fun e he => ?_
  have htell := h e he
  cases e with
  | send dst msg => exact htell.elim
  | _ => rfl

/-! ## A commit -/

/-- What folding leaves of the logical log: all of it. -/
theorem Folded.holds (h : mid.Holds F) (hb : mid.baseIndex ≤ mid.lastApplied) (hl : mid.lastApplied ≤ mid.lastLogIndex)
    (hf : Folded mid after) : after.Holds F ∧ OnlyApplied mid after ∧ messages after.out = messages mid.out ∧
      (after.baseIndex = mid.baseIndex ∨ after.baseIndex = mid.lastApplied) := by
  rcases hf with rfl | ⟨t, vs, hc, rfl⟩
  · exact ⟨h, rfl, rfl, Or.inl rfl⟩
  obtain ⟨b, hb', hbn, hle⟩ := h.exists_base
  obtain ⟨i, hi⟩ := Int.eq_ofNat_of_zero_le (show 0 ≤ mid.lastApplied by omega)
  have hi : mid.lastApplied = i := hi
  rw [h.lastLogIndex] at hl
  refine ⟨⟨?_, ?_, ?_, ?_⟩, rfl, ?_, Or.inr rfl⟩
  · show 0 ≤ mid.lastApplied
    omega
  · show mid.lastApplied ≤ F.length
    omega
  · show sliceFrom mid.log (mid.lastApplied - mid.baseIndex) = F.drop mid.lastApplied.toNat
    have hd : mid.lastApplied - mid.baseIndex = ((i - b : ℕ) : Int) := by omega
    rw [hd, sliceFrom_nat mid.log rfl, h.live, hbn, List.drop_drop, hi]
    congr 1
    omega
  · show t = lastTermOf (F.take mid.lastApplied.toNat)
    have hterm := h.termAt (i := i) (by omega) (by omega)
    have hread := hc.term
    rw [hi] at hread ⊢
    exact Except.ok.inj (hread.symm.trans hterm)
  · simp [compacted, RaftNode.record, emit, messages]

/-- What setting the commit index does to a node whose indices are in order. -/
structure RaftNode.Advanced (node : RaftNode) (F : List Entry) (index : Int) (after : RaftNode) : Prop where
  grounded : after.Grounded
  holds : after.Holds F
  commitIndex : after.commitIndex = max node.commitIndex index
  only : OnlyApplied node after
  silent : messages after.out = messages node.out
  base : after.baseIndex = node.baseIndex ∨ after.baseIndex = after.commitIndex
  snapTerm : (∀ s, node.snapshot = some s → s.lastTerm = node.baseTerm) → ∀ s, after.snapshot = some s → s.lastTerm = after.baseTerm

theorem RaftNode.Grounded.setCommitIndex (hg : self.Grounded) (hF : self.Holds F) (hl : index ≤ self.lastLogIndex) :
    ∃ after, self.setCommitIndex index = .ok after ∧ self.Advanced F index after := by
  have hbc := hg.commit
  have hla := hg.applied
  by_cases hc : self.commitIndex < index
  · obtain ⟨entries, after, hcommits, hset, hfold⟩ := setCommitIndex_ok self (by omega) (by omega) hc hl
    obtain ⟨es, htell, heq⟩ := committed_eq self index entries
    have hmid := hg.committed hcommits
    have hlen := hcommits.length
    have hholds : (self.committed index entries).Holds F := hF.of_eq (by rw [heq]) (by rw [heq]) (by rw [heq])
    have hcom : (self.committed index entries).commitIndex = index := by rw [heq]
    have honly : OnlyApplied self (self.committed index entries) := by
      rw [heq]
      rfl
    have hsilent : messages (self.committed index entries).out = messages self.out := by
      rw [heq]
      show messages (self.out ++ es) = _
      rw [messages_append, messages_of_tells htell, List.append_nil]
    have hbase : (self.committed index entries).baseIndex = self.baseIndex ∧
        (self.committed index entries).snapshot = self.snapshot ∧ (self.committed index entries).baseTerm = self.baseTerm := by
      rw [heq]
      exact ⟨rfl, rfl, rfl⟩
    generalize self.committed index entries = mid at hfold hmid hholds hcom honly hsilent hbase
    obtain ⟨h1, h2, h3, h4⟩ := hfold.holds hholds (by have := hmid.commit; have := hmid.applied; omega)
      (by have := hmid.last; have := hmid.applied; omega)
    have hafter : after.Grounded ∧ after.commitIndex = mid.commitIndex := by
      rcases hfold with rfl | ⟨t, vs, hcmp, rfl⟩
      · exact ⟨hmid, rfl⟩
      · exact ⟨hmid.move (I := Inputs.orderly) trivial (.compact mid t vs trivial hcmp), rfl⟩
    have hma := hmid.applied
    refine ⟨after, hset, hafter.1, h1, by rw [hafter.2, hcom, max_eq_right hc.le], honly.trans h2, h3.trans hsilent,
      h4.imp (·.trans hbase.1) fun h => by rw [h, hma, hafter.2], fun hterm s hs => ?_⟩
    rcases hfold with rfl | ⟨t, vs, -, rfl⟩
    · rw [hbase.2.2]
      exact hterm s (hbase.2.1 ▸ hs)
    · cases hs
      rfl
  · refine ⟨self, ?_, hg, hF, (max_eq_left (not_lt.1 hc)).symm, rfl, rfl, Or.inl rfl, fun h => h⟩
    rw [RaftNode.setCommitIndex, if_pos (not_lt.1 hc)]
    rfl

/-! ## Hearing from a leader -/

/-- A node that has heard from a leader: a follower of it, with a new election timer. -/
def RaftNode.heard (self : RaftNode) (term : Int) (leader : NodeId) : RaftNode :=
  let self := if term > self.term ∨ self.role ≠ .follower then self.becomeFollower term else self
  ({ self with leaderId := some leader }).armElectionTimer

theorem RaftNode.heard_eq (self : RaftNode) {term : Int} (leader : NodeId) (ht : self.term ≤ term) :
    ∃ (votedFor : Option NodeId) (pendingReads : Dict Int PendingRead) (timerSeq : Int) (es : List Effect), messages es = [] ∧
      self.heard term leader = { self with
        term, votedFor, role := .follower, leaderId := some leader, pendingReads, timerSeq, out := self.out ++ es } := by
  unfold RaftNode.heard
  simp only
  split
  · rw [becomeFollower_eq]
    refine ⟨if term > self.term then none else self.votedFor, ∅, self.timerSeq + 1 + 1, (steppedDown self term ++ [.schedule .election (self.timerSeq + 1)]) ++
      [.schedule .election (self.timerSeq + 1 + 1)], ?_, ?_⟩
    · unfold steppedDown
      split <;> rfl
    · simp only [RaftNode.armElectionTimer, emit, List.append_assoc]
  · rename_i hno
    push Not at hno
    refine ⟨self.votedFor, self.pendingReads, self.timerSeq + 1, [.schedule .election (self.timerSeq + 1)], rfl, ?_⟩
    rw [← hno.2, le_antisymm hno.1 ht]
    rfl

/-- The node after is a follower in a term, with the log and the indices of the node before. -/
structure RaftNode.Hears (node : RaftNode) (term : Int) (after : RaftNode) : Prop where
  term : after.term = term
  role : after.role = .follower
  id : after.id = node.id
  bugs : after.bugs = node.bugs
  alive : after.alive = node.alive
  log : after.log = node.log
  logVersion : after.logVersion = node.logVersion
  baseIndex : after.baseIndex = node.baseIndex
  baseTerm : after.baseTerm = node.baseTerm
  voters : after.voters = node.voters
  commitIndex : after.commitIndex = node.commitIndex
  kv : after.kv = node.kv
  silent : messages after.out = messages node.out

theorem RaftNode.heard_hears (self : RaftNode) {term : Int} (leader : NodeId) (ht : self.term ≤ term) :
    self.Hears term (self.heard term leader) := by
  obtain ⟨votedFor, pendingReads, timerSeq, es, hes, heq⟩ := self.heard_eq leader ht
  rw [heq]
  refine ⟨rfl, rfl, rfl, rfl, rfl, rfl, rfl, rfl, rfl, rfl, rfl, rfl, ?_⟩
  show messages (self.out ++ es) = _
  rw [messages_append, hes, List.append_nil]

theorem RaftNode.Hears.holds {term : Int} (h : self.Hears term after) (hF : self.Holds F) : after.Holds F :=
  hF.of_eq h.log h.baseIndex h.baseTerm

/-- Hearing from a leader keeps the indices in order. -/
theorem RaftNode.Grounded.heard (hg : self.Grounded) {term : Int} (leader : NodeId) (ht : self.term ≤ term) :
    (self.heard term leader).Grounded := by
  obtain ⟨votedFor, pendingReads, timerSeq, es, -, heq⟩ := self.heard_eq leader ht
  rw [heq]
  exact ⟨hg.toBounded.still ⟨rfl, rfl, rfl, rfl, rfl, rfl, rfl, rfl, rfl, rfl⟩, hg.last⟩

/-- The rest of `_on_append_entries`, once the node has heard from the leader. -/
def RaftNode.takeOver (self : RaftNode) (msg : AppendEntries) : Except PyError RaftNode := do
  let (prevIndex, prevTerm, entries) ← self.skipCovered msg
  if ← self.inconsistent prevIndex prevTerm then
    return self.send msg.leader (.appendReply { term := self.term, follower := self.id, success := false, matchIndex := 0 })
  else
    let self ← self.mergeEntries prevIndex entries
    let matched := prevIndex + entries.length
    let self ←
      if self.bugs.allowCommitRegression then .ok { self with commitIndex := min msg.leaderCommit matched }
      else if msg.leaderCommit > self.commitIndex then
        self.setCommitIndex (max self.commitIndex (min msg.leaderCommit matched))
      else .ok self
    return self.send msg.leader
      (.appendReply { term := self.term, follower := self.id, success := true, matchIndex := matched })

/-- The two steps a node takes down when it hears of a later term and of a leader are one. -/
theorem RaftNode.onAppendEntries_eq (ht : self.term ≤ msg.term) :
    self.onAppendEntries msg = (self.heard msg.term msg.leader).takeOver msg := by
  simp only [RaftNode.onAppendEntries, if_neg (self.not_lt_observed ht), self.observed_follower]
  rfl

/-! ## Taking over a stretch of the leader's log -/

namespace RaftNode.Holds

/-- A message that starts where the logs agree is consistent. -/
theorem consistent (h : self.Holds F) {i : ℕ} (hi : i ≤ F.length) (heq : F.take i = B.take i) :
    self.inconsistent i (lastTermOf (B.take i)) = .ok false := by
  refine Twins.consistent (by rw [h.lastLogIndex]; omega) fun hge => ?_
  rw [h.termAt (by omega) hi, heq]

/-- Entries that the node has are passed over. -/
theorem mergeEntries_again (h : self.Holds F) {i m : ℕ} (hm : m ≤ B.length) (him : i ≤ m) (hb : self.baseIndex ≤ i ∨ i = m)
    (hp : B.take m <+: F) : self.mergeEntries i ((B.take m).drop i) = .ok self := by
  rcases hb with hb | rfl
  · have hlen : ((B.take m).drop i).length = m - i := by rw [List.length_drop, List.length_take_of_le hm]
    rw [Twins.mergeEntries_skip self i _ (n := ((B.take m).drop i).length) le_rfl fun k e hk he => ?_, List.drop_length]
    · rfl
    · rw [List.getElem?_drop] at he
      have hF := getElem?_extends hp he
      have hlt := (List.getElem?_eq_some_iff.1 hF).1
      have hread := h.termAt (i := i + k + 1) (by push_cast; omega) hlt
      rw [lastTermOf_take hF] at hread
      have hidx : (i : Int) + 1 + k = ((i + k + 1 : ℕ) : Int) := by
        push_cast
        omega
      rw [hidx, h.lastLogIndex]
      exact ⟨by omega, hread⟩
  · have hnil : (B.take i).drop i = [] := by simp
    rw [hnil]
    rfl

/-- A message whose entries the node has, and which lets it commit nothing more, is answered again, and nothing changes. -/
theorem takeOver_again (h : self.Holds F) (hreg : self.bugs.allowCommitRegression = false) (hs : msg.Segment B p)
    (hp : B.take (p + msg.entries.length) <+: F)
    (hc : min msg.leaderCommit ((p + msg.entries.length : ℕ) : Int) ≤ self.commitIndex) :
    self.takeOver msg = .ok (self.send msg.leader (.appendReply {
      term := self.term, follower := self.id, success := true, matchIndex := ((p + msg.entries.length : ℕ) : Int) })) := by
  obtain ⟨i, -, hi, hbi, -, hskip⟩ := h.skipCovered hs.prevIndex hs.prevTerm hs.entries
  have hle := hs.le
  generalize p + msg.entries.length = m at hi hbi hskip hp hc hle ⊢
  have hFlen := hp.length_le
  rw [List.length_take_of_le hle] at hFlen
  have heq : F.take i = B.take i := by
    rw [take_extends hp (by rw [List.length_take_of_le hle]; exact hi), List.take_take, Nat.min_eq_left hi]
  have hmatched : (i : Int) + ((B.take m).drop i).length = m := by
    rw [List.length_drop, List.length_take_of_le hle]
    omega
  rw [RaftNode.takeOver, hskip]
  simp only [bind, Except.bind]
  rw [h.consistent (by omega) heq]
  simp only [h.mergeEntries_again hle hi hbi hp, hmatched, hreg, Bool.false_eq_true, if_false]
  split
  · rw [RaftNode.setCommitIndex, if_pos (max_le le_rfl hc)]
    rfl
  · rfl

/-- A message that carries a stretch of the leader's log is refused, by any node with this log; or it is merged, and what it allows is
committed. -/
theorem takeOver (hg : self.Grounded) (h : self.Holds F) (hbug : self.bugs.skipLogConsistency = false) (hs : msg.Segment B p)
    (hknown : B.take self.commitIndex.toNat <+: F) (hmatch : Matching F B) :
    ((∀ node : RaftNode, node.log = self.log → node.baseIndex = self.baseIndex → node.baseTerm = self.baseTerm →
        node.bugs = self.bugs → node.takeOver msg = .ok (node.send msg.leader (.appendReply {
          term := node.term, follower := node.id, success := false, matchIndex := 0 }))) ∧
      ¬(p ≤ F.length ∧ F.take p = B.take p)) ∨
    ∃ (i : ℕ) (merged after : RaftNode), p ≤ i ∧ i ≤ p + msg.entries.length ∧ (self.baseIndex ≤ i ∨ i = p + msg.entries.length) ∧
      i ≤ F.length ∧ F.take i = B.take i ∧ OnlyLog self merged ∧
      merged.Advanced (merge F (B.take (p + msg.entries.length))) (min msg.leaderCommit ((p + msg.entries.length : ℕ) : Int)) after ∧
      self.takeOver msg = .ok (after.send msg.leader (.appendReply {
        term := after.term, follower := after.id, success := true, matchIndex := ((p + msg.entries.length : ℕ) : Int) })) := by
  obtain ⟨i, hpi, hi, hbi, hip, hskip⟩ := h.skipCovered hs.prevIndex hs.prevTerm hs.entries
  have hle := hs.le
  have hbc := hg.commit
  have h0 := hg.base
  have hcF : self.commitIndex.toNat ≤ F.length := by
    have := hg.last
    rw [h.lastLogIndex] at this
    omega
  generalize p + msg.entries.length = m at hi hbi hskip hle ⊢
  have hcompacted : (i : Int) ≤ self.baseIndex → F.take i = B.take i := by
    intro hib
    have hB : (B.take self.commitIndex.toNat).take i = B.take i := by
      rw [List.take_take, Nat.min_eq_left (by omega)]
    rw [← hB, take_extends hknown (by rw [List.length_take]; omega)]
  obtain ⟨c, hc, hgood⟩ := h.inconsistent hbug hle hi hcompacted hmatch
  cases c with
  | true =>
    refine Or.inl ⟨fun node hl hb ht hbugs => ?_, fun hp => ?_⟩
    · have hskip' : node.skipCovered msg = self.skipCovered msg := by
        simp only [RaftNode.skipCovered, hb]
      have hbad : node.inconsistent i (lastTermOf (B.take i)) = self.inconsistent i (lastTermOf (B.take i)) := by
        simp only [RaftNode.inconsistent, RaftNode.lastLogIndex, RaftNode.termAt, RaftNode.phys, hl, hb, ht, hbugs]
        rfl
      rw [RaftNode.takeOver, hskip', hskip]
      simp only [bind, Except.bind]
      rw [hbad, hc]
      rfl
    · have hFi : i ≤ F.length ∧ F.take i = B.take i := by
        rcases hip with rfl | hib
        · exact hp
        · have := h.le
          exact ⟨by omega, hcompacted hib⟩
      rw [h.consistent hFi.1 hFi.2] at hc
      cases hc
  | false =>
    obtain ⟨hiF, heq⟩ := hgood rfl
    obtain ⟨merged, hmerge, honly, hholds⟩ : ∃ merged, self.mergeEntries i ((B.take m).drop i) = .ok merged ∧ OnlyLog self merged ∧
        merged.Holds (merge F (B.take m)) := by
      rcases hbi with hbi | rfl
      · exact mergeEntries (P := fun L node => node.Holds L) (fun h => h) (fun h => h.truncateFrom) (fun e h => h.appendReplicated _ e) hle
          (m - i) h rfl hi hbi hiF heq hmatch
      · have hnil : (B.take i).drop i = [] := by simp
        rw [hnil]
        refine ⟨self, rfl, .refl self, ?_⟩
        rwa [merge_eq_left (heq ▸ List.take_prefix i F)]
    have hmatched : (i : Int) + ((B.take m).drop i).length = m := by
      rw [List.length_drop, List.length_take_of_le hle]
      omega
    have hmerged : merged.Grounded := by
      have hstill : self.Still merged := by
        rw [honly]
        exact ⟨rfl, rfl, rfl, rfl, rfl, rfl, rfl, rfl, rfl, rfl⟩
      refine ⟨hg.toBounded.still hstill, ?_⟩
      have hlen := (prefix_merge_known (m := m) hknown).length_le
      rw [List.length_take_of_le hcF] at hlen
      rw [hholds.lastLogIndex, hstill.commitIndex]
      omega
    have hlast : (m : Int) ≤ merged.lastLogIndex := by
      have hlen := (prefix_merge F (B.take m)).length_le
      rw [List.length_take_of_le hle] at hlen
      rw [hholds.lastLogIndex]
      omega
    rw [RaftNode.takeOver, hskip]
    simp only [bind, Except.bind]
    rw [hc]
    simp only [hmerge, hmatched, hmerged.noRegression, Bool.false_eq_true, if_false]
    split
    · have hcom := hmerged.last
      have hindex : max merged.commitIndex (min msg.leaderCommit (m : Int)) ≤ merged.lastLogIndex := by omega
      obtain ⟨after, hset, hadv⟩ := hmerged.setCommitIndex hholds hindex
      rw [hset]
      exact Or.inr ⟨i, merged, after, hpi, hi, hbi, hiF, heq, honly,
        { hadv with commitIndex := by rw [hadv.commitIndex, ← max_assoc, max_self] }, rfl⟩
    · exact Or.inr ⟨i, merged, merged, hpi, hi, hbi, hiF, heq, honly, ⟨hmerged, hholds, by omega, rfl, rfl, Or.inl rfl, fun h => h⟩, rfl⟩

end RaftNode.Holds

/-! ## Taking over a leader's snapshot -/

/-- The rest of `_on_install_snapshot`, once the node has heard from the leader. -/
def RaftNode.install (self : RaftNode) (msg : InstallSnapshot) : Except PyError RaftNode := do
  if msg.lastIndex ≤ self.commitIndex then
    return self.send msg.leader
      (.appendReply { term := self.term, follower := self.id, success := true, matchIndex := self.commitIndex })
  else
    let keepTail ← self.keepsTail msg
    return (self.installed msg keepTail).send msg.leader
      (.appendReply { term := self.term, follower := self.id, success := true, matchIndex := msg.lastIndex })

theorem RaftNode.onInstallSnapshot_eq {msg : InstallSnapshot} (ht : self.term ≤ msg.term) :
    self.onInstallSnapshot msg = (self.heard msg.term msg.leader).install msg := by
  rw [RaftNode.onInstallSnapshot, if_neg (not_lt.2 ht)]
  rfl

/-- What a follower has after a snapshot of the leader's first `b` entries: it reports the index up to which it agrees with the leader
and has committed. -/
structure RaftNode.Reports (node : RaftNode) (L F : List Entry) (r : ℕ) (after : RaftNode) : Prop where
  grounded : after.Grounded
  holds : after.Holds F
  commitIndex : after.commitIndex = r
  le : r ≤ F.length
  agrees : F.take r = L.take r
  same : after.term = node.term ∧ after.id = node.id ∧ after.bugs = node.bugs ∧ after.alive = node.alive ∧
    messages after.out = messages node.out

/-- A snapshot of the leader's first `b` entries is refused, as the follower has committed as much, or it takes the place of what it
covers. -/
theorem RaftNode.Holds.install (hg : self.Grounded) (h : self.Holds F) (hr : self.role = .follower) {msg : InstallSnapshot} {b : ℕ}
    (hidx : msg.lastIndex = b) (hterm : msg.lastTerm = lastTermOf (B.take b)) (hb : b ≤ B.length)
    (hknown : F.take self.commitIndex.toNat <+: B) (hmatch : Matching F B) :
    ∃ (after : RaftNode) (F' : List Entry) (r : ℕ), (r : Int) = max self.commitIndex b ∧ (F' = F ∨ F' = B.take b) ∧
      self.Reports B F' r after ∧ self.install msg = .ok (after.send msg.leader (.appendReply {
        term := self.term, follower := self.id, success := true, matchIndex := r })) := by
  have h0 := hg.base
  have hbc := hg.commit
  have hlast := hg.last
  rw [h.lastLogIndex] at hlast
  unfold RaftNode.install
  rw [hidx]
  split
  · rename_i hle
    refine ⟨self, F, self.commitIndex.toNat, by omega, Or.inl rfl, ⟨hg, h, by omega, by omega, ?_, rfl, rfl, rfl, rfl, rfl⟩, ?_⟩
    · have htake := List.prefix_iff_eq_take.1 hknown
      rwa [List.length_take_of_le (by omega)] at htake
    · rw [Int.toNat_of_nonneg (by omega)]
      rfl
  · rename_i hgt
    have hgt : self.commitIndex < msg.lastIndex := by omega
    obtain ⟨keep, hkeep, hcase⟩ : ∃ keep, self.keepsTail msg = .ok keep ∧
        ((keep = true ∧ b ≤ F.length ∧ F.take b = B.take b) ∨ keep = false) := by
      unfold RaftNode.keepsTail
      split
      · rename_i hge
        rw [h.lastLogIndex, hidx] at hge
        rw [hidx, h.termAt (i := b) (by omega) (by omega), hterm]
        refine ⟨_, rfl, ?_⟩
        by_cases heq : lastTermOf (F.take b) = lastTermOf (B.take b)
        · refine Or.inl ⟨decide_eq_true heq, by omega, ?_⟩
          obtain ⟨k, rfl⟩ : ∃ k, b = k + 1 := ⟨b - 1, by omega⟩
          obtain ⟨e, he⟩ : ∃ e, F[k]? = some e := ⟨_, List.getElem?_eq_getElem (by omega)⟩
          obtain ⟨e', he'⟩ : ∃ e', B[k]? = some e' := ⟨_, List.getElem?_eq_getElem (by omega)⟩
          rw [lastTermOf_take he, lastTermOf_take he'] at heq
          exact hmatch k e e' he he' heq
        · exact Or.inr (decide_eq_false heq)
      · exact ⟨false, rfl, Or.inr rfl⟩
    have hinst : (self.installed msg keep).Grounded :=
      hg.move (I := Inputs.orderly) trivial (.install self msg keep trivial hr hkeep hgt)
    have hlog : (self.installed msg keep).log = if keep then sliceFrom self.log (msg.lastIndex - self.baseIndex) else [] := rfl
    have hfields : (self.installed msg keep).baseIndex = b ∧ (self.installed msg keep).baseTerm = lastTermOf (B.take b) ∧
        (self.installed msg keep).commitIndex = b := ⟨hidx, hterm, hidx⟩
    have hsame : (self.installed msg keep).term = self.term ∧ (self.installed msg keep).id = self.id ∧
        (self.installed msg keep).bugs = self.bugs ∧ (self.installed msg keep).alive = self.alive ∧
        messages (self.installed msg keep).out = messages self.out := by
      refine ⟨rfl, rfl, rfl, rfl, ?_⟩
      show messages (self.out ++ [_]) = _
      rw [messages_append]
      simp [messages]
    have hanswer : (do
        let keepTail ← self.keepsTail msg
        return (self.installed msg keepTail).send msg.leader (.appendReply {
          term := self.term, follower := self.id, success := true, matchIndex := b }) : Except PyError RaftNode) =
        .ok ((self.installed msg keep).send msg.leader (.appendReply {
          term := self.term, follower := self.id, success := true, matchIndex := b })) := by
      rw [hkeep]
      rfl
    generalize self.installed msg keep = after at hinst hlog hfields hsame hanswer
    rcases hcase with ⟨rfl, hbF, heq⟩ | rfl
    · obtain ⟨d, hd, hdn, hdl⟩ := h.exists_base
      have hslice : msg.lastIndex - self.baseIndex = ((b - d : ℕ) : Int) := by omega
      refine ⟨after, F, b, by omega, Or.inl rfl, ⟨hinst, ⟨?_, ?_, ?_, ?_⟩, hfields.2.2, hbF, heq, hsame⟩, hanswer⟩
      · omega
      · omega
      · rw [hlog, if_pos rfl, hslice, sliceFrom_nat self.log rfl, h.live, hdn, List.drop_drop, hfields.1, Int.toNat_natCast]
        congr 1
        omega
      · rw [hfields.2.1, hfields.1, Int.toNat_natCast, heq]
    · have hlen : (B.take b).length = b := List.length_take_of_le hb
      refine ⟨after, B.take b, b, by omega, Or.inr rfl, ⟨hinst, ⟨?_, ?_, ?_, ?_⟩, hfields.2.2, hlen.ge, ?_, hsame⟩, hanswer⟩
      · omega
      · omega
      · rw [hlog, hfields.1, Int.toNat_natCast, List.drop_eq_nil_of_le hlen.le]
        rfl
      · rw [hfields.2.1, hfields.1, Int.toNat_natCast, List.take_take, Nat.min_self]
      · rw [List.take_take, Nat.min_self]

end DeterministicRaft
