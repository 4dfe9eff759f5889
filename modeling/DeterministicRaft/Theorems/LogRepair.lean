import DeterministicRaft.Theorems.AppendEntries
import DeterministicRaft.Theorems.CommitRule

/-!
# Log repair

A leader goes back through its log until it finds an entry that the follower has, or sends its snapshot when it has compacted that far.
A refusal costs one entry. Once the follower has taken a snapshot or refused one, it agrees with the leader up to what it reports, and
the leader can be ahead of that by a compaction only once: it has then committed all that it can. So the repair ends after at most two
snapshots, and one more message.
-/

namespace DeterministicRaft

open RaftNode Consensus

variable {leader follower self mid after : RaftNode} {F L : List Entry} {f : NodeId} {next r : ℕ}

/-! ## The exchange -/

/-- The messages to one server, of those that were sent. -/
def messagesTo (dst : NodeId) (out : List Effect) : List Message :=
  (messages out).filterMap fun sent => if sent.1 = dst then some sent.2 else none

/-- The node before an operation: the calls of the last one have been carried out. -/
def RaftNode.rested (self : RaftNode) : RaftNode := { self with out := [] }

/-- One round of log repair: the leader sends the follower what it chooses, the follower handles it, and the leader handles the answer.
What the leader sends when it handles a refusal is what it sends in the next round. -/
def exchange (leader follower : RaftNode) : Except PyError (RaftNode × RaftNode) := do
  let leader ← leader.rested.sendAppendEntries follower.id
  let follower ← (messagesTo follower.id leader.out).foldlM RaftNode.handle follower.rested
  let leader ← (messagesTo leader.id follower.out).foldlM RaftNode.handle leader.rested
  return (leader, follower)

/-- Some rounds. -/
def exchanges : ℕ → RaftNode → RaftNode → Except PyError (RaftNode × RaftNode)
  | 0, leader, follower => .ok (leader, follower)
  | n + 1, leader, follower => do
    let (leader, follower) ← exchange leader follower
    exchanges n leader follower

/-- A round in which each side sends the other one message. -/
theorem exchange_eq {sent answered : RaftNode} {msg reply : Message} (hs : leader.rested.sendAppendEntries follower.id = .ok sent)
    (hm : messagesTo follower.id sent.out = [msg]) (ha : follower.rested.handle msg = .ok answered)
    (hr : messagesTo sent.id answered.out = [reply]) (hh : sent.rested.handle reply = .ok after) :
    exchange leader follower = .ok (after, answered) := by
  unfold exchange
  rw [hs]
  simp only [bind, Except.bind]
  rw [hm, List.foldlM_cons, ha]
  simp only [bind, Except.bind, List.foldlM_nil, pure, Except.pure]
  rw [hr, List.foldlM_cons, hh]
  rfl

theorem messagesTo_of_messages {dst : NodeId} {out : List Effect} {msg : Message} (h : messages out = [(dst, msg)]) :
    messagesTo dst out = [msg] := by
  simp [messagesTo, h]

/-! ## The leader -/

/-- A leader of the log `L` that knows of the follower `f` where to go on. -/
structure RaftNode.Replicates (node : RaftNode) (L : List Entry) (f : NodeId) (next : ℕ) : Prop where
  alive : node.alive = true
  role : node.role = .leader
  bugs : node.bugs = NO_BUGS
  grounded : node.Grounded
  holds : node.Holds L
  snapTerm : ∀ s, node.snapshot = some s → s.lastTerm = node.baseTerm
  ordered : node.Ordered
  nextIndex : node.nextIndex.lookup f = some (next : Int)
  range : 1 ≤ next ∧ next ≤ L.length + 1
  matched : node.matchIndex.getD f 0 ≤ L.length

/-- A leader scans for a commit: then there is nothing left that it could commit, and if there was nothing it compacts nothing. -/
theorem RaftNode.Grounded.advanceCommit (hg : self.Grounded) (hL : self.Holds L) (ho : self.Ordered)
    (hguard : self.bugs.dropCommitTermGuard = false) :
    ∃ (mid : RaftNode) (index : Int) (c : Bool), self.advanceCommit = .ok { mid with committedThisTerm := c } ∧
      self.Advanced L index mid ∧ (∀ i, ¬mid.Counts i) ∧ ((∀ i, ¬self.Counts i) → mid.baseIndex = self.baseIndex) := by
  have hl := hg.last
  have hn : self.lastLogIndex = self.commitIndex + ((self.lastLogIndex - self.commitIndex).toNat : Int) := by omega
  rcases advanceLoop_spec ho hguard hg.commit _ hn le_rfl with ⟨hnone, heq⟩ | ⟨N, hN, hc, hmax, heq⟩
  · have hno : ∀ i, ¬self.Counts i := fun i hi => hnone i hi.last hi
    exact ⟨self, self.commitIndex, self.committedThisTerm, heq, ⟨hg, hL, by simp, rfl, rfl, Or.inl rfl, fun h => h⟩, hno, fun _ => rfl⟩
  · obtain ⟨mid, hset, hadv⟩ := hg.setCommitIndex hL hc.last
    refine ⟨mid, N, true, by rw [RaftNode.advanceCommit, heq, hset]; rfl, hadv, fun i hi => ?_, fun hno => absurd hc (hno N)⟩
    have hcom := hadv.commitIndex
    have habove := hi.above
    have hlast := hi.last
    have hbase := hadv.grounded.commit
    have hself := hg.commit
    have h0 := hg.base
    rw [hadv.holds.lastLogIndex] at hlast
    obtain ⟨n, rfl⟩ : ∃ n : ℕ, i = n := ⟨i.toNat, by omega⟩
    have hown := hi.own
    have hmaj := hi.majority
    rw [hadv.holds.termAt (by omega) (by omega), ← hL.termAt (by omega) (by omega)] at hown
    have hsame : mid.term = self.term ∧ mid.voters = self.voters ∧ mid.matchIndex = self.matchIndex := by
      rw [hadv.only]
      exact ⟨rfl, rfl, rfl⟩
    rw [hsame.1] at hown
    rw [hsame.2.1, hsame.2.2] at hmaj
    have := hmax n (by rw [hL.lastLogIndex]; omega) ⟨by omega, by rw [hL.lastLogIndex]; omega, hown, hmaj⟩
    omega

/-- The calls of the last operation do not matter. -/
theorem RaftNode.Replicates.rest (h : leader.Replicates L f next) (out : List Effect) :
    { leader with out }.Replicates L f next :=
  ⟨h.alive, h.role, h.bugs, ⟨h.grounded.toBounded.still ⟨rfl, rfl, rfl, rfl, rfl, rfl, rfl, rfl, rfl, rfl⟩, h.grounded.last⟩,
    h.holds.of_eq rfl rfl rfl, h.snapTerm, ⟨h.ordered.mono, h.ordered.bound⟩, h.nextIndex, h.range, h.matched⟩

/-- What a leader sends: the rest of its log, or its snapshot when it has compacted as far as the follower lags behind. -/
theorem RaftNode.Replicates.send (h : leader.Replicates L f next) :
    ∃ msg : Message, leader.sendAppendEntries f = .ok (leader.send f msg) ∧
      ((∃ m, msg = .appendEntries m ∧ leader.baseIndex < next ∧ m.term = leader.term ∧ m.leader = leader.id ∧
          m.Segment L (next - 1) ∧ next - 1 + m.entries.length = L.length) ∨
        ∃ m, msg = .installSnapshot m ∧ (next : Int) ≤ leader.baseIndex ∧ m.term = leader.term ∧ m.leader = leader.id ∧
          m.lastIndex = leader.baseIndex ∧ m.lastTerm = leader.baseTerm) := by
  have hrange := h.range
  have hitem : leader.nextIndex.item f = .ok (next : Int) := by
    rw [Dict.item, h.nextIndex]
  have hprev : (next : Int) - 1 = ((next - 1 : ℕ) : Int) := by omega
  unfold RaftNode.sendAppendEntries
  rw [hitem]
  simp only [bind, Except.bind]
  split
  · rename_i hlt
    obtain ⟨s, hs⟩ : ∃ s, leader.snapshot = some s := by
      cases hs : leader.snapshot with
      | none =>
        have := h.grounded.snapNone hs
        omega
      | some s => exact ⟨s, rfl⟩
    refine ⟨.installSnapshot ⟨leader.term, leader.id, s.lastIndex, s.lastTerm, s.store, s.sessions, s.voters⟩, ?_,
      Or.inr ⟨_, rfl, by omega, rfl, rfl, h.grounded.snapEnds s hs, h.snapTerm s hs⟩⟩
    rw [RaftNode.sendInstallSnapshot, hs]
    rfl
  · rename_i hge
    have hterm : leader.termAt ((next : Int) - 1) = .ok (lastTermOf (L.take (next - 1))) := by
      rw [hprev]
      exact h.holds.termAt (by omega) (by omega)
    have hsuffix : leader.logSuffix ((next : Int) - 1 + 1) = L.drop (next - 1) := by
      rw [hprev]
      exact h.holds.logSuffix (by omega)
    rw [hterm, hsuffix]
    have hlen : next - 1 + (L.drop (next - 1)).length = L.length := by
      rw [List.length_drop]
      omega
    refine ⟨.appendEntries ⟨leader.term, leader.id, (next : Int) - 1, lastTermOf (L.take (next - 1)), L.drop (next - 1),
      leader.commitIndex⟩, rfl, Or.inl ⟨_, rfl, by omega, rfl, rfl, ⟨hprev, hlen.le, rfl, ?_⟩, hlen⟩⟩
    rw [hlen, List.take_length]

/-- A leader that hears of a refusal goes back by one entry. -/
theorem RaftNode.Replicates.refused (h : leader.Replicates L f next) (h2 : 2 ≤ next) :
    ∃ after, leader.handle (.appendReply ⟨leader.term, f, false, 0⟩) = .ok after ∧ after.Replicates L f (next - 1) ∧
      after.term = leader.term ∧ after.id = leader.id := by
  have hnext : max 1 (leader.nextIndex.getD f 1 - 1) = ((next - 1 : ℕ) : Int) := by
    rw [Dict.getD, h.nextIndex, Option.getD_some]
    omega
  have hrange := h.range
  have hback : { leader with nextIndex := leader.nextIndex.insert f ((next - 1 : ℕ) : Int) }.Replicates L f (next - 1) := by
    refine ⟨h.alive, h.role, h.bugs, ⟨h.grounded.toBounded.still ⟨rfl, rfl, rfl, rfl, rfl, rfl, rfl, rfl, rfl, rfl⟩, h.grounded.last⟩,
      h.holds.of_eq rfl rfl rfl, h.snapTerm, ⟨h.ordered.mono, h.ordered.bound⟩, Finmap.lookup_insert _, by omega, h.matched⟩
  have hhandle : leader.handle (.appendReply ⟨leader.term, f, false, 0⟩) =
      { leader with nextIndex := leader.nextIndex.insert f ((next - 1 : ℕ) : Int) }.sendAppendEntries f := by
    rw [← hnext]
    simp [RaftNode.handle, RaftNode.onAppendReply, h.alive, h.role]
  obtain ⟨msg, hsend, -⟩ := hback.send
  exact ⟨_, hhandle.trans hsend, hback.rest _, rfl, rfl⟩

/-- Fewer live entries are in order when more are. -/
theorem RaftNode.Ordered.drop (h : self.Ordered) {d : ℕ} (hl : after.log = self.log.drop d) (ht : after.term = self.term) :
    after.Ordered := by
  refine ⟨?_, fun e he => ?_⟩
  · rw [hl]
    exact h.mono.sublist (List.drop_sublist d _)
  · rw [hl] at he
    rw [ht]
    exact h.bound e (List.mem_of_mem_drop he)

/-- A leader that hears up to which index the follower agrees goes on behind it. It has then committed all that it can; if it had
before, and the index is committed, it compacts nothing. -/
theorem RaftNode.Replicates.acknowledged (h : leader.Replicates L f next) (hr : r ≤ L.length) :
    ∃ after, leader.handle (.appendReply ⟨leader.term, f, true, r⟩) = .ok after ∧ after.Replicates L f (max next (r + 1)) ∧
      after.term = leader.term ∧ after.id = leader.id ∧ after.matchIndex.getD f 0 = max (leader.matchIndex.getD f 0) r ∧
      (∀ i, ¬after.Counts i) ∧
      ((∀ i, ¬leader.Counts i) → (r : Int) ≤ leader.commitIndex → after.baseIndex = leader.baseIndex) := by
  have hrange := h.range
  have hmatched := h.matched
  have hget : ∀ x, Dict.getD (leader.matchIndex.insert f x) f 0 = x := fun x => by rw [Dict.getD, Finmap.lookup_insert, Option.getD_some]
  obtain ⟨booked, hbooked⟩ : ∃ booked : RaftNode, booked = { leader with
      matchIndex := leader.matchIndex.insert f (max (leader.matchIndex.getD f 0) (r : Int))
      nextIndex := leader.nextIndex.insert f (max (leader.nextIndex.getD f 1) ((r : Int) + 1)) } := ⟨_, rfl⟩
  have hhandle : leader.handle (.appendReply ⟨leader.term, f, true, r⟩) = booked.advanceCommit := by
    rw [hbooked]
    simp [RaftNode.handle, RaftNode.onAppendReply, h.alive, h.role]
  have hground : booked.Grounded := by
    rw [hbooked]
    exact ⟨h.grounded.toBounded.still ⟨rfl, rfl, rfl, rfl, rfl, rfl, rfl, rfl, rfl, rfl⟩, h.grounded.last⟩
  have hholds : booked.Holds L := by
    rw [hbooked]
    exact h.holds.of_eq rfl rfl rfl
  have hordered : booked.Ordered := by
    rw [hbooked]
    exact ⟨h.ordered.mono, h.ordered.bound⟩
  have hguard : booked.bugs.dropCommitTermGuard = false := by
    rw [hbooked]
    exact congrArg Bugs.dropCommitTermGuard h.bugs
  obtain ⟨mid, index, c, hadvance, hadv, hnone, hbase⟩ := hground.advanceCommit hholds hordered hguard
  have hsame : mid.alive = leader.alive ∧ mid.role = leader.role ∧ mid.bugs = leader.bugs ∧ mid.term = leader.term ∧
      mid.id = leader.id ∧ mid.nextIndex = leader.nextIndex.insert f (max (leader.nextIndex.getD f 1) ((r : Int) + 1)) ∧
      mid.matchIndex = leader.matchIndex.insert f (max (leader.matchIndex.getD f 0) (r : Int)) := by
    rw [hadv.only, hbooked]
    exact ⟨rfl, rfl, rfl, rfl, rfl, rfl, rfl⟩
  obtain ⟨halive, hrole, hbugs, hterm, hid, hnext, hmatch⟩ := hsame
  have hlog : mid.log = booked.log.drop (mid.baseIndex - booked.baseIndex).toNat := by
    have hle : booked.baseIndex ≤ mid.baseIndex := by
      have := hadv.base
      have := hadv.commitIndex
      have := hground.commit
      omega
    have h0 := hground.base
    rw [hadv.holds.live, hholds.live, List.drop_drop]
    congr 1
    omega
  have hsnap : ∀ s, booked.snapshot = some s → s.lastTerm = booked.baseTerm := by
    rw [hbooked]
    exact h.snapTerm
  refine ⟨_, hhandle.trans hadvance, ⟨halive.trans h.alive, hrole.trans h.role, hbugs.trans h.bugs,
    ⟨hadv.grounded.toBounded.still ⟨rfl, rfl, rfl, rfl, rfl, rfl, rfl, rfl, rfl, rfl⟩, hadv.grounded.last⟩,
    hadv.holds.of_eq rfl rfl rfl, hadv.snapTerm hsnap, ?_, ?_, by omega, ?_⟩, hterm, hid, ?_, ?_, fun hno hrc => ?_⟩
  · have := hordered.drop hlog (hterm.trans (by rw [hbooked]))
    exact ⟨this.mono, this.bound⟩
  · show mid.nextIndex.lookup f = _
    rw [hnext, Finmap.lookup_insert, Dict.getD, h.nextIndex, Option.getD_some]
    congr 1
    omega
  · show mid.matchIndex.getD f 0 ≤ _
    rw [hmatch, hget]
    omega
  · show mid.matchIndex.getD f 0 = _
    rw [hmatch, hget]
  · exact fun i hi => hnone i ⟨hi.above, hi.last, hi.own, hi.majority⟩
  · have hsameBase : mid.baseIndex = booked.baseIndex := hbase fun i hi => ?_
    · show mid.baseIndex = _
      rw [hsameBase, hbooked]
    have hcount : booked.voters.countP (fun v => i ≤ booked.matchIndex.getD v 0) =
        leader.voters.countP (fun v => i ≤ leader.matchIndex.getD v 0) := by
      have habove := hi.above
      rw [hbooked] at habove ⊢
      refine List.countP_congr fun v _ => ?_
      simp only [decide_eq_true_eq]
      by_cases hv : v = f
      · subst hv
        rw [hget]
        have habove : leader.commitIndex < i := habove
        omega
      · rw [Dict.getD, Finmap.lookup_insert_of_ne _ hv]
        rfl
    have hmaj := hi.majority
    rw [hcount] at hmaj
    have habove := hi.above
    have hlast := hi.last
    have hown := hi.own
    rw [hbooked] at habove hlast hown hmaj
    exact hno i ⟨habove, hlast, hown, hmaj⟩

/-! ## The follower -/

/-- A follower with the log `F`, of which the leader of the log `L` has what is committed. -/
structure RaftNode.Repairs (node : RaftNode) (F L : List Entry) (term : Int) : Prop where
  alive : node.alive = true
  bugs : node.bugs = NO_BUGS
  grounded : node.Grounded
  holds : node.Holds F
  known : F.take node.commitIndex.toNat <+: L
  matching : Matching F L
  term_le : node.term ≤ term

namespace RaftNode.Repairs

variable {term : Int}

/-- What is committed is in the log. -/
theorem commit_le (h : self.Repairs F L term) : self.commitIndex.toNat ≤ F.length := by
  have hlast := h.grounded.last
  rw [h.holds.lastLogIndex] at hlast
  omega

/-- The leader has as much. -/
theorem agrees (h : self.Repairs F L term) :
    self.commitIndex.toNat ≤ L.length ∧ F.take self.commitIndex.toNat = L.take self.commitIndex.toNat := by
  have hlen := List.length_take_of_le h.commit_le
  refine ⟨hlen ▸ h.known.length_le, ?_⟩
  have htake := List.prefix_iff_eq_take.1 h.known
  rwa [hlen] at htake

/-- The calls of the last operation do not matter. -/
theorem rest (h : self.Repairs F L term) (out : List Effect) : { self with out }.Repairs F L term :=
  ⟨h.alive, h.bugs, ⟨h.grounded.toBounded.still ⟨rfl, rfl, rfl, rfl, rfl, rfl, rfl, rfl, rfl, rfl⟩, h.grounded.last⟩,
    h.holds.of_eq rfl rfl rfl, h.known, h.matching, h.term_le⟩

/-- A node that has heard from the leader is still one that the leader repairs. -/
theorem heard (h : self.Repairs F L term) (leader : NodeId) : (self.heard term leader).Repairs F L term := by
  have hears := self.heard_hears leader h.term_le
  exact ⟨hears.alive.trans h.alive, hears.bugs.trans h.bugs, h.grounded.heard leader h.term_le, hears.holds h.holds,
    hears.commitIndex ▸ h.known, h.matching, hears.term.le⟩

/-- The rest of the leader's log: it is refused, as the logs do not agree where it starts, or the follower has all of it after. -/
theorem onAppendEntries (h : self.Repairs F L term) {msg : AppendEntries} {p : ℕ} (ht : msg.term = term) (hs : msg.Segment L p)
    (hend : p + msg.entries.length = L.length) :
    ∃ after, after.id = self.id ∧ self.handle (.appendEntries msg) = .ok after ∧
      ((¬(p ≤ F.length ∧ F.take p = L.take p) ∧ after.Repairs F L term ∧
          messages after.out = messages self.out ++ [(msg.leader, .appendReply ⟨term, self.id, false, 0⟩)]) ∨
        ∃ F', L <+: F' ∧ after.Repairs F' L term ∧
          messages after.out = messages self.out ++ [(msg.leader, .appendReply ⟨term, self.id, true, L.length⟩)]) := by
  subst ht
  have hears := self.heard_hears msg.leader h.term_le
  have hhandle : self.handle (.appendEntries msg) = (self.heard msg.term msg.leader).takeOver msg := by
    rw [← onAppendEntries_eq h.term_le]
    simp [RaftNode.handle, h.alive]
  have hnode := h.heard msg.leader
  rw [hhandle]
  generalize self.heard msg.term msg.leader = node at hears hnode
  have hknown : L.take node.commitIndex.toNat <+: F := by
    rw [← hnode.agrees.2]
    exact List.take_prefix _ F
  rcases hnode.holds.takeOver hnode.grounded (by rw [hnode.bugs]; rfl) hs hknown hnode.matching
    with ⟨hrefused, hno⟩ | ⟨i, merged, after, -, -, -, -, -, honly, hadv, htake⟩
  · have hafter := hrefused node rfl rfl rfl rfl
    rw [hears.term, hears.id] at hafter
    exact ⟨node.send _ _, hears.id, hafter, Or.inl ⟨hno, hnode.rest _, by rw [messages_send, hears.silent]⟩⟩
  · have hsame : after.term = node.term ∧ after.id = node.id ∧ after.bugs = node.bugs ∧ after.alive = node.alive := by
      rw [hadv.only, honly]
      exact ⟨rfl, rfl, rfl, rfl⟩
    have hmerged : merged.commitIndex = node.commitIndex ∧ merged.out = node.out := by
      rw [honly]
      exact ⟨rfl, rfl⟩
    rw [hend, List.take_length] at hadv
    have hprefix := prefix_merge F L
    have hcom : after.commitIndex.toNat ≤ L.length := by
      have := hadv.commitIndex
      have := hnode.agrees.1
      omega
    rw [hend, hsame.1, hsame.2.1, hears.term, hears.id] at htake
    refine ⟨after.send _ _, hsame.2.1.trans hears.id, htake, Or.inr ⟨merge F L, hprefix, RaftNode.Repairs.rest ⟨hsame.2.2.2.trans hnode.alive,
      hsame.2.2.1.trans hnode.bugs, hadv.grounded, hadv.holds, ?_, ?_, (hsame.1.trans hears.term).le⟩ _, ?_⟩⟩
    · rw [take_extends hprefix hcom]
      exact List.take_prefix _ L
    · by_cases hpre : L <+: F
      · rw [merge_eq_left hpre]
        exact hnode.matching
      · rw [merge_eq_right hpre]
        exact fun _ _ _ _ _ _ => rfl
    · rw [messages_send, hadv.silent, hmerged.2, hears.silent]

/-- The leader's snapshot: after it the follower reports the index up to which it has committed. -/
theorem onInstallSnapshot (h : self.Repairs F L term) {msg : InstallSnapshot} {b : ℕ} (ht : msg.term = term) (hidx : msg.lastIndex = b)
    (hterm : msg.lastTerm = lastTermOf (L.take b)) (hb : b ≤ L.length) :
    ∃ (after : RaftNode) (F' : List Entry) (r : ℕ), after.id = self.id ∧ self.handle (.installSnapshot msg) = .ok after ∧
      (r : Int) = max self.commitIndex b ∧ r ≤ L.length ∧ after.Repairs F' L term ∧ after.commitIndex = r ∧
      messages after.out = messages self.out ++ [(msg.leader, .appendReply ⟨term, self.id, true, r⟩)] := by
  subst ht
  have hears := self.heard_hears msg.leader h.term_le
  have hhandle : self.handle (.installSnapshot msg) = (self.heard msg.term msg.leader).install msg := by
    rw [← onInstallSnapshot_eq h.term_le]
    simp [RaftNode.handle, h.alive]
  have hnode := h.heard msg.leader
  rw [hhandle]
  generalize self.heard msg.term msg.leader = node at hears hnode
  obtain ⟨after, F', r, hr, hF', hrep, hinst⟩ := hnode.holds.install hnode.grounded hears.role hidx hterm hb hnode.known hnode.matching
  obtain ⟨hsterm, hsid, hsbugs, hsalive, hsout⟩ := hrep.same
  have hrL : r ≤ L.length := by
    have := hnode.agrees.1
    omega
  rw [hears.term, hears.id] at hinst
  refine ⟨after.send _ _, F', r, hsid.trans hears.id, hinst, by rw [hr, hears.commitIndex], hrL, RaftNode.Repairs.rest ⟨hsalive.trans hnode.alive,
    hsbugs.trans hnode.bugs, hrep.grounded, hrep.holds, ?_, ?_, (hsterm.trans hears.term).le⟩ _, hrep.commitIndex, ?_⟩
  · rw [hrep.commitIndex, Int.toNat_natCast, hrep.agrees]
    exact List.take_prefix r L
  · rcases hF' with rfl | rfl
    · exact hnode.matching
    · intro k e e' he he' _
      have hk := (List.getElem?_eq_some_iff.1 he).1
      rw [List.length_take_of_le hb] at hk
      rw [List.take_take, Nat.min_eq_left hk]
  · rw [messages_send, hsout, hears.silent]

end RaftNode.Repairs

/-! ## Rounds -/

/-- The two sides between two rounds. -/
structure Repairing (leader follower : RaftNode) (L F : List Entry) (next : ℕ) : Prop where
  leads : leader.Replicates L follower.id next
  follows : follower.Repairs F L leader.term

/-- What a leader can commit does not depend on what it has sent. -/
theorem RaftNode.Counts.of_sent {dst : NodeId} {msg : Message} {i : Int} (h : (leader.rested.send dst msg).rested.Counts i) :
    leader.Counts i := by
  obtain ⟨above, last, own, majority⟩ := h
  cases leader
  exact ⟨above, last, own, majority⟩

/-- The two go on in the leader's term. -/
theorem Repairing.of_answered {leader' answered : RaftNode} {id : NodeId} {term : Int} (hlead : leader'.Replicates L id next)
    (hfollow : answered.Repairs F L term) (hid : answered.id = id) (ht : leader'.term = term) : Repairing leader' answered L F next := by
  subst hid ht
  exact ⟨hlead, hfollow⟩

/-- One round: the follower has the leader's log and the leader knows; or the logs do not agree before the next index, and the leader
goes back by one; or the leader has compacted so far that it sends a snapshot, and goes on behind what the follower has committed. -/
theorem Repairing.round (h : Repairing leader follower L F next) :
    ∃ (leader' follower' : RaftNode) (F' : List Entry) (next' : ℕ), exchange leader follower = .ok (leader', follower') ∧
      Repairing leader' follower' L F' next' ∧ follower'.id = follower.id ∧
      ((L <+: F' ∧ leader'.matchIndex.getD follower.id 0 = L.length) ∨
        (next' + 1 = next ∧ ¬(next - 1 ≤ F.length ∧ F.take (next - 1) = L.take (next - 1)) ∧ leader.baseIndex < next) ∨
        (next ≤ leader.baseIndex ∧ follower'.commitIndex + 1 = next' ∧ (∀ i, ¬leader'.Counts i) ∧
          ((∀ i, ¬leader.Counts i) → follower.commitIndex < leader.baseIndex → leader'.baseIndex < next'))) := by
  obtain ⟨hlead, hfollow⟩ := h
  have hrested : leader.rested.Replicates L follower.id next := hlead.rest []
  obtain ⟨msg, hsend, hmsg⟩ := hrested.send
  have hsent : (leader.rested.send follower.id msg).rested.Replicates L follower.id next := hlead.rest []
  have hto : messagesTo follower.id (leader.rested.send follower.id msg).out = [msg] := messagesTo_of_messages rfl
  rcases hmsg with ⟨m, rfl, hbase, ht, hid, hseg, hend⟩ | ⟨m, rfl, hbase, ht, hid, hidx, hterm⟩
  · obtain ⟨answered, haid, hhandle, hcase⟩ := (hfollow.rest []).onAppendEntries ht hseg hend
    rw [hid] at hcase
    rcases hcase with ⟨hno, hrep, hout⟩ | ⟨F', hpre, hrep, hout⟩
    · have h2 : 2 ≤ next := by
        by_contra hlt
        have h0 : next - 1 = 0 := by omega
        exact hno (by rw [h0]; simp)
      obtain ⟨leader', hreply, hlead', ht', hid'⟩ := hsent.refused h2
      have hround : exchange leader follower = .ok (leader', answered) :=
        exchange_eq hsend hto hhandle (messagesTo_of_messages hout) hreply
      exact ⟨leader', answered, F, next - 1, hround, .of_answered hlead' hrep haid ht', haid, Or.inr (Or.inl ⟨by omega, hno, hbase⟩)⟩
    · obtain ⟨leader', hreply, hlead', ht', hid', hmi, -⟩ := hsent.acknowledged le_rfl
      have hround : exchange leader follower = .ok (leader', answered) :=
        exchange_eq hsend hto hhandle (messagesTo_of_messages hout) hreply
      refine ⟨leader', answered, F', _, hround, .of_answered hlead' hrep haid ht', haid, Or.inl ⟨hpre, ?_⟩⟩
      have hle := hlead.matched
      rw [hmi]
      exact max_eq_right hle
  · obtain ⟨b, hb, hbn, hbL⟩ := hlead.holds.exists_base
    have hidx : m.lastIndex = b := hidx.trans hb
    have hlast : m.lastTerm = lastTermOf (L.take b) := by
      rw [← hbn, ← hlead.holds.baseTerm]
      exact hterm
    obtain ⟨answered, F', r, haid, hhandle, hr, hrL, hrep, hcom, hout⟩ := (hfollow.rest []).onInstallSnapshot ht hidx hlast hbL
    rw [hid] at hout
    obtain ⟨leader', hreply, hlead', ht', hid', hmi, hno, hkeep⟩ := hsent.acknowledged hrL
    have hround : exchange leader follower = .ok (leader', answered) :=
      exchange_eq hsend hto hhandle (messagesTo_of_messages hout) hreply
    have hr : (r : Int) = max follower.commitIndex b := hr
    have hbase : (next : Int) ≤ leader.baseIndex := hbase
    refine ⟨leader', answered, F', _, hround, .of_answered hlead' hrep haid ht', haid, Or.inr (Or.inr ⟨hbase, ?_, hno, fun hidle hlt => ?_⟩)⟩
    · rw [hcom]
      omega
    · have hcommit := hlead.grounded.commit
      have hsame : leader'.baseIndex = leader.baseIndex :=
        hkeep (fun i hi => hidle i hi.of_sent) (by rw [hr, max_eq_right (by omega), ← hb]; exact hcommit)
      rw [hsame]
      omega

/-- However many rounds there are, none of them raises, and both sides stay as they must be. -/
theorem Repairing.rounds (h : Repairing leader follower L F next) (k : ℕ) :
    ∃ (leader' follower' : RaftNode) (F' : List Entry) (next' : ℕ), exchanges k leader follower = .ok (leader', follower') ∧
      Repairing leader' follower' L F' next' ∧ follower'.id = follower.id := by
  induction k generalizing leader follower F next with
  | zero => exact ⟨leader, follower, F, next, rfl, h, rfl⟩
  | succ k ih =>
    obtain ⟨leader₁, follower₁, F₁, next₁, hround, h₁, hid, -⟩ := h.round
    obtain ⟨leader₂, follower₂, F₂, next₂, hrounds, h₂, hid₂⟩ := ih h₁
    refine ⟨leader₂, follower₂, F₂, next₂, ?_, h₂, hid₂.trans hid⟩
    rw [exchanges, hround]
    exact hrounds

/-- After `n` rounds the follower has all of the leader's log, and the leader knows. -/
def RepairedAfter (n : ℕ) (leader follower : RaftNode) (L : List Entry) : Prop :=
  ∃ (leader' follower' : RaftNode) (F' : List Entry), exchanges n leader follower = .ok (leader', follower') ∧ leader'.Holds L ∧
    follower'.Holds F' ∧ L <+: F' ∧ leader'.matchIndex.getD follower.id 0 = L.length

theorem RepairedAfter.succ {leader' follower' : RaftNode} {n : ℕ} (hround : exchange leader follower = .ok (leader', follower'))
    (hid : follower'.id = follower.id) (h : RepairedAfter n leader' follower' L) : RepairedAfter (n + 1) leader follower L := by
  obtain ⟨leader₂, follower₂, F₂, hrounds, hL, hF, hpre, hmi⟩ := h
  refine ⟨leader₂, follower₂, F₂, ?_, hL, hF, hpre, hid ▸ hmi⟩
  rw [exchanges, hround]
  exact hrounds

namespace Repairing

/-- A round after which the follower has all of the leader's log. -/
theorem repairedAfter_one {leader' follower' : RaftNode} {F' : List Entry} {next' : ℕ}
    (hround : exchange leader follower = .ok (leader', follower')) (h : Repairing leader' follower' L F' next')
    (hid : follower'.id = follower.id) (hpre : L <+: F') (hmi : leader'.matchIndex.getD follower.id 0 = L.length) :
    RepairedAfter 1 leader follower L :=
  .succ hround hid ⟨leader', follower', F', rfl, h.leads.holds, h.follows.holds, hpre, hid.symm ▸ hmi⟩

/-- What the follower has committed agrees with the leader's log, so that one message is enough behind it. -/
theorem of_commit (h : Repairing leader follower L F next) (hcom : follower.commitIndex + 1 = next) (hb : leader.baseIndex < next) :
    RepairedAfter 1 leader follower L := by
  obtain ⟨leader', follower', F', next', hround, h', hid, hcase⟩ := h.round
  rcases hcase with ⟨hpre, hmi⟩ | ⟨-, hno, -⟩ | ⟨hle, -⟩
  · exact repairedAfter_one hround h' hid hpre hmi
  · refine absurd ⟨?_, ?_⟩ hno
    · have := h.follows.commit_le
      omega
    · have htake := h.follows.agrees.2
      have hnext : follower.commitIndex.toNat = next - 1 := by omega
      rwa [hnext] at htake
  · omega

/-- A leader that can commit nothing more goes on behind what the follower has committed, after one more snapshot if it has compacted
that far. -/
theorem of_idle (h : Repairing leader follower L F next) (hcom : follower.commitIndex + 1 = next) (hidle : ∀ i, ¬leader.Counts i) :
    ∃ n ≤ 2, RepairedAfter n leader follower L := by
  by_cases hb : leader.baseIndex < next
  · exact ⟨1, by omega, h.of_commit hcom hb⟩
  obtain ⟨leader', follower', F', next', hround, h', hid, hcase⟩ := h.round
  rcases hcase with ⟨hpre, hmi⟩ | ⟨-, -, hlt⟩ | ⟨hle, hcom', -, hbase⟩
  · exact ⟨1, by omega, repairedAfter_one hround h' hid hpre hmi⟩
  · exact absurd hlt hb
  · exact ⟨2, le_rfl, .succ hround hid (h'.of_commit hcom' (hbase hidle (by omega)))⟩

/-- The repair ends: the leader goes back at most to its first entry, sends at most two snapshots, and then the rest of its log. -/
theorem repairedAfter (h : Repairing leader follower L F next) : ∃ n ≤ next + 2, RepairedAfter n leader follower L := by
  induction next generalizing leader follower F with
  | zero =>
    have := h.leads.range
    omega
  | succ next ih =>
    obtain ⟨leader', follower', F', next', hround, h', hid, hcase⟩ := h.round
    rcases hcase with ⟨hpre, hmi⟩ | ⟨hback, -, -⟩ | ⟨hle, hcom', hidle, -⟩
    · exact ⟨1, by omega, repairedAfter_one hround h' hid hpre hmi⟩
    · obtain rfl : next' = next := by omega
      obtain ⟨n, hn, hrep⟩ := ih h'
      exact ⟨n + 1, by omega, hrep.succ hround hid⟩
    · obtain ⟨n, hn, hrep⟩ := h'.of_idle hcom' hidle
      exact ⟨n + 1, by omega, hrep.succ hround hid⟩

end Repairing

/-- Log repair ends, and the follower then has the leader's log. Let a leader of the log `L` know the next index of a follower of no later
term, which holds the log `F`, in which what is committed is the leader's. However many rounds they go through, none raises and the next
index is in the leader's log or just behind it; and after at most two rounds more than the first next index the follower agrees with the
leader up to the leader's last entry, and the leader knows. -/
theorem logRepair (leader follower : RaftNode) (hlw : leader.WellFormed) (hfw : follower.WellFormed) (hlb : leader.bugs = NO_BUGS)
    (hfb : follower.bugs = NO_BUGS) (hla : leader.alive = true) (hfa : follower.alive = true) (hrole : leader.role = .leader)
    (hterm : follower.term ≤ leader.term) (L F : List Entry) (hL : leader.Holds L) (hF : follower.Holds F) (hmatch : Matching F L)
    (hknown : F.take follower.commitIndex.toNat <+: L) (next : Int) (hnext : leader.nextIndex.lookup follower.id = some next)
    (hmatched : leader.matchIndex.getD follower.id 0 ≤ leader.lastLogIndex) :
    (∀ k, ∃ (leader' follower' : RaftNode) (next' : Int), exchanges k leader follower = .ok (leader', follower') ∧ leader'.Holds L ∧
      leader'.nextIndex.lookup follower.id = some next' ∧ 1 ≤ next' ∧ next' ≤ leader'.lastLogIndex + 1) ∧
    ∃ (n : ℕ) (leader' follower' : RaftNode) (F' : List Entry), (n : Int) ≤ next + 2 ∧
      exchanges n leader follower = .ok (leader', follower') ∧ leader'.Holds L ∧ follower'.Holds F' ∧
      F'.take leader'.lastLogIndex.toNat = L ∧ leader'.matchIndex.getD follower.id 0 = leader'.lastLogIndex := by
  have hlg := hlw.grounded (congrArg Bugs.allowCommitRegression hlb)
  have hfg := hfw.grounded (congrArg Bugs.allowCommitRegression hfb)
  obtain ⟨-, -, -, -, -, -, hsnap, hsorted, -, hterms, hrange, -⟩ := hlw
  have hr := hrange hrole _ _ hnext
  rw [hL.lastLogIndex] at hr hmatched
  obtain ⟨m, rfl⟩ := Int.eq_ofNat_of_zero_le (show 0 ≤ next by omega)
  have h : Repairing leader follower L F m :=
    ⟨⟨hla, hrole, hlb, hlg, hL, fun s hs => (hsnap s hs).2, ⟨hsorted, hterms⟩, hnext, ⟨by omega, by omega⟩, hmatched⟩,
      ⟨hfa, hfb, hfg, hF, hknown, hmatch, hterm⟩⟩
  refine ⟨fun k => ?_, ?_⟩
  · obtain ⟨leader', follower', F', next', hrounds, h', hid⟩ := h.rounds k
    have hrange' := h'.leads.range
    refine ⟨leader', follower', next', hrounds, h'.leads.holds, hid ▸ h'.leads.nextIndex, by omega, ?_⟩
    rw [h'.leads.holds.lastLogIndex]
    omega
  · obtain ⟨n, hn, leader', follower', F', hrounds, hL', hF', hpre, hmi⟩ := h.repairedAfter
    refine ⟨n, leader', follower', F', by omega, hrounds, hL', hF', ?_, by rw [hL'.lastLogIndex, hmi]⟩
    rw [hL'.lastLogIndex, Int.toNat_natCast, take_extends hpre le_rfl, List.take_length]

/-- In a run, a leader knows of no more entries on a follower than it has itself. -/
theorem matched_le_lastLogIndex {net : Network} (r : Run net) (k : ℕ) {n : NodeId} (p : NodeId)
    (hr : ((r.state k).nodes n).role = .leader) :
    ((r.state k).nodes n).matchIndex.getD p 0 ≤ ((r.state k).nodes n).lastLogIndex := by
  obtain ⟨s, hs⟩ := r.exists_shadow
  have h := (hs.sim k).fits n
  rw [h.lastLogIndex, Dict.getD]
  cases hx : ((r.state k).nodes n).matchIndex.lookup p with
  | none =>
    rw [Option.getD_none]
    omega
  | some x =>
    rw [Option.getD_some]
    by_contra hlt
    obtain ⟨m, hm, hack⟩ := (h.2.leads hr).matched p x hx (by omega)
    have hrole := h.2.role
    rw [hr] at hrole
    have hlen := (h.1.acked_led hack).2.2
    rw [← (h.1.role_leader hrole.symm).2] at hlen
    omega

/-- A leader that has compacted its first entry, and has yet to count the third, which node 3 has. -/
def aheadLeader : RaftNode :=
  { RaftNode.new 1 [2, 3] { snapshotThreshold := 1 } NO_BUGS none with
    role := .leader
    term := 2
    log := [⟨2, "b"⟩, ⟨2, "c"⟩, ⟨2, "d"⟩]
    baseIndex := 1
    baseTerm := 1
    snapshot := some ⟨1, 1, ∅, ∅, [1, 2, 3]⟩
    commitIndex := 1
    lastApplied := 1
    nextIndex := Finmap.insert 2 1 (Finmap.singleton 3 4)
    matchIndex := Finmap.insert 1 4 (Finmap.singleton 3 3) }

/-- A follower that knows of the first two entries that they are committed. -/
def behindFollower : RaftNode :=
  { RaftNode.new 2 [1, 3] { snapshotThreshold := 9 } NO_BUGS none with
    term := 2
    log := [⟨1, "a"⟩, ⟨2, "b"⟩]
    commitIndex := 2
    lastApplied := 2
    applied := ["a", "b"] }

/-- The follower refuses the first snapshot, and needs the second one, as the leader compacts when it counts the third entry. The fourth
comes with the third round, the last that there can be. -/
theorem logRepair_aheadLeader :
    (∃ (leader' follower' : RaftNode) (F' : List Entry) (n : ℕ), n ≤ 3 ∧ exchanges n aheadLeader behindFollower = .ok (leader', follower') ∧
      follower'.Holds F' ∧ F'.take 4 = [⟨1, "a"⟩, ⟨2, "b"⟩, ⟨2, "c"⟩, ⟨2, "d"⟩] ∧ leader'.matchIndex.getD 2 0 = 4) ∧
    (exchanges 2 aheadLeader behindFollower).toOption.map (fun s => (s.1.matchIndex.getD 2 0, s.2.lastLogIndex)) = some (3, 3) := by
  have hlw : aheadLeader.WellFormed := by
    refine ⟨by decide, by decide, rfl, by decide, rfl, ⟨fun _ => by decide, fun _ => ⟨_, rfl⟩⟩, ?_, by decide, by decide, by decide,
      fun _ p i hi => ?_, fun _ p hp => ?_⟩
    · rintro snap hs
      cases hs
      exact ⟨rfl, rfl⟩
    · have hi : (Finmap.insert 2 1 (Finmap.singleton 3 4) : Dict NodeId Int).lookup p = some i := hi
      by_cases h2 : p = 2
      · rw [h2, Finmap.lookup_insert, Option.some.injEq] at hi
        exact ⟨hi.le, by rw [← hi]; decide⟩
      · rw [Finmap.lookup_insert_of_ne _ h2] at hi
        obtain rfl : p = 3 := by
          by_contra h3
          rw [Finmap.lookup_eq_none.2 (by rwa [Finmap.mem_singleton])] at hi
          cases hi
        rw [Finmap.lookup_singleton_eq, Option.some.injEq] at hi
        exact ⟨by omega, by rw [← hi]; decide⟩
    · have hp : p = 2 ∨ p = 3 := by simpa [aheadLeader, RaftNode.new] using hp
      rcases hp with rfl | rfl
      · exact ⟨1, by decide⟩
      · exact ⟨4, by decide⟩
  have hfw : behindFollower.WellFormed := by
    refine ⟨by decide, by decide, rfl, by decide, rfl, ⟨fun h => ?_, fun h => ?_⟩, ?_, by decide, by decide, by decide, ?_, ?_⟩
    · obtain ⟨snap, hs⟩ := h
      cases hs
    · cases h
    · intro snap hs
      cases hs
    · intro hr
      cases hr
    · intro hr
      cases hr
  have hmatch : Matching [⟨1, "a"⟩, ⟨2, "b"⟩] [⟨1, "a"⟩, ⟨2, "b"⟩, ⟨2, "c"⟩, ⟨2, "d"⟩] := by
    intro k e e' he _ _
    rcases k with _ | _ | k
    · rfl
    · rfl
    · cases he
  obtain ⟨-, n, leader', follower', F', hn, hrounds, hL, hF, hpre, hmi⟩ := logRepair aheadLeader behindFollower hlw hfw rfl rfl rfl rfl rfl
    (by decide) [⟨1, "a"⟩, ⟨2, "b"⟩, ⟨2, "c"⟩, ⟨2, "d"⟩] [⟨1, "a"⟩, ⟨2, "b"⟩] ⟨by decide, by decide, rfl, rfl⟩
    ⟨by decide, by decide, rfl, rfl⟩ hmatch (by decide) 1 (by decide) (by decide)
  have hlast : leader'.lastLogIndex = 4 := hL.lastLogIndex
  rw [hlast] at hpre hmi
  exact ⟨⟨leader', follower', F', n, by omega, hrounds, hF, hpre, hmi⟩, by decide +kernel⟩

end DeterministicRaft
