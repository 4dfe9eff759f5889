import DeterministicRaft.Replication
import DeterministicRaft.Theorems.Representation

/-!
# AppendEntries merges exactly

A follower that accepts a stretch of its leader's log agrees with the leader up to the end of the stretch. What it had behind it stays
if nothing in the stretch contradicts its live log, and goes otherwise. The same message again changes nothing, wherever the snapshot
ends by then.
-/

namespace DeterministicRaft

open RaftNode Consensus

variable {self : RaftNode} {F L : List Entry} {msg : AppendEntries} {p : ℕ}

/-- The indices of a well formed node are in order. -/
theorem RaftNode.WellFormed.grounded (h : self.WellFormed) (hreg : self.bugs.allowCommitRegression = false) : self.Grounded := by
  obtain ⟨hbase, hle, happ, hcom, hcmds, hiff, hat, -⟩ := h
  refine ⟨⟨hbase, happ ▸ hle, happ, ?_, fun hn => ?_, fun s hs => (hat s hs).1, hreg⟩, hcom⟩
  · rw [RaftNode.lastLogIndex] at hcom
    rw [hcmds, List.length_map, List.length_take]
    omega
  · by_contra hne
    obtain ⟨s, hs⟩ := hiff.2 (by omega)
    rw [hn] at hs
    cases hs

/-- The node's live log holds an entry of another term where the message has one. -/
def AppendEntries.Conflicts (msg : AppendEntries) (node : RaftNode) : Prop :=
  ∃ (k : ℕ) (e x : Entry), msg.entries[k]? = some e ∧ node.baseIndex < msg.prevIndex + 1 + k ∧
    node.entryAt (msg.prevIndex + 1 + k) = .ok x ∧ x.term ≠ e.term

/-- The entry of a stretch at an offset is that of the leader's log. -/
theorem AppendEntries.Segment.getElem? (hs : msg.Segment L p) {k : ℕ} {e : Entry} :
    msg.entries[k]? = some e ↔ L[p + k]? = some e ∧ k < msg.entries.length := by
  have hle := hs.le
  constructor
  · intro he
    have hlt := (List.getElem?_eq_some_iff.1 he).1
    rw [hs.entries, List.getElem?_drop, List.getElem?_take_of_lt (by omega)] at he
    exact ⟨he, hlt⟩
  · rintro ⟨he, hlt⟩
    rw [hs.entries, List.getElem?_drop, List.getElem?_take_of_lt (by omega)]
    exact he

/-- A log that has the stretch does not conflict with it. -/
theorem AppendEntries.Segment.not_conflicts (hs : msg.Segment L p) (h : self.Holds F) (hp : L.take (p + msg.entries.length) <+: F) :
    ¬msg.Conflicts self := by
  rintro ⟨k, e, x, he, hb, hx, hne⟩
  obtain ⟨heL, hk⟩ := hs.getElem?.1 he
  have heF := getElem?_extends hp (k := p + k) (e := e) (by rwa [List.getElem?_take_of_lt (by omega)])
  rw [hs.prevIndex] at hb hx
  have hread := h.entryAt (i := p + k) (by push_cast; omega) heF
  have hidx : ((p + k : ℕ) : Int) + 1 = (p : Int) + 1 + k := by
    push_cast
    omega
  rw [hidx, hx] at hread
  exact hne (congrArg Entry.term (Except.ok.inj hread))

/-- A log that agrees with the leader's up to some place of the stretch, and does not conflict with the rest of it, has the stretch or
ends in it. -/
theorem AppendEntries.Segment.of_not_conflicts (hs : msg.Segment L p) (h : self.Holds F) (hmatch : Matching F L) {i : ℕ}
    (hpi : p ≤ i) (him : i ≤ p + msg.entries.length) (hb : self.baseIndex ≤ i ∨ i = p + msg.entries.length)
    (heq : F.take i = L.take i) (hno : ¬msg.Conflicts self) (hlen : p + msg.entries.length ≤ F.length) :
    L.take (p + msg.entries.length) <+: F := by
  have hle := hs.le
  rcases him.eq_or_lt with rfl | hlt
  · rw [← heq]
    exact List.take_prefix _ F
  obtain ⟨k, hk⟩ : ∃ k, msg.entries.length = k + 1 := ⟨msg.entries.length - 1, by omega⟩
  obtain ⟨e, he⟩ : ∃ e, L[p + k]? = some e := ⟨_, List.getElem?_eq_getElem (by omega)⟩
  obtain ⟨x, hx⟩ : ∃ x, F[p + k]? = some x := ⟨_, List.getElem?_eq_getElem (by omega)⟩
  have hbase : self.baseIndex ≤ ((p + k : ℕ) : Int) := by omega
  have hread := h.entryAt hbase hx
  have hidx : ((p + k : ℕ) : Int) + 1 = msg.prevIndex + 1 + k := by
    rw [hs.prevIndex]
    push_cast
    omega
  rw [hidx] at hread
  have hterm : x.term = e.term := by
    by_contra hne
    exact hno ⟨k, e, x, hs.getElem?.2 ⟨he, by omega⟩, by omega, hread, hne⟩
  have htake := hmatch (p + k) x e hx he hterm
  rw [hk, ← Nat.add_assoc, ← htake]
  exact List.take_prefix _ F

/-- AppendEntries merges exactly and is idempotent. Let a follower hold the log `F`, in which it has what the leader's log `L` has up to
its commit index, and let a message of a term that is not older carry a stretch of `L` up to index `m`. If it is accepted, the follower's
log is `L` up to `m`, behind `m` it is what it was or, if the stretch conflicts with a live entry, ends there; what was committed has not
changed, and the commit index follows the leader's up to `m`. If it is refused, log, voters and commit index are what they were. The same
message again has the same answer, and changes nothing. -/
theorem appendEntries_exact (self : RaftNode) (hw : self.WellFormed) (hskip : self.bugs.skipLogConsistency = false)
    (hreg : self.bugs.allowCommitRegression = false) (F L : List Entry) (hF : self.Holds F) (hmatch : Matching F L)
    (hknown : L.take self.commitIndex.toNat <+: F) (msg : AppendEntries) (hterm : self.term ≤ msg.term) (p : ℕ)
    (hseg : msg.Segment L p) :
    ∃ (after again : RaftNode) (reply : AppendReply), self.onAppendEntries msg = .ok after ∧
      messages after.out = messages self.out ++ [(msg.leader, .appendReply reply)] ∧
      (reply.success = true → ∃ (m : ℕ) (F' : List Entry), reply.matchIndex = m ∧ m = p + msg.entries.length ∧ after.Holds F' ∧
        F'.take m = L.take m ∧ (¬msg.Conflicts self → F'.drop m = F.drop m) ∧ (msg.Conflicts self → F'.drop m = []) ∧
        F'.take self.commitIndex.toNat = F.take self.commitIndex.toNat ∧
        after.commitIndex = max self.commitIndex (min msg.leaderCommit m)) ∧
      (reply.success = false → after.log = self.log ∧ after.baseIndex = self.baseIndex ∧ after.voters = self.voters ∧
        after.commitIndex = self.commitIndex) ∧
      after.onAppendEntries msg = .ok again ∧ messages again.out = messages after.out ++ [(msg.leader, .appendReply reply)] ∧
      again.log = after.log ∧ again.baseIndex = after.baseIndex ∧ again.logVersion = after.logVersion ∧
      again.voters = after.voters ∧ again.commitIndex = after.commitIndex ∧ again.kv = after.kv := by
  have hg := hw.grounded hreg
  have hears := self.heard_hears msg.leader hterm
  have hgrounded := hg.heard msg.leader hterm
  rw [onAppendEntries_eq hterm]
  generalize self.heard msg.term msg.leader = node at hears hgrounded
  rcases (hears.holds hF).takeOver hgrounded (by rw [hears.bugs]; exact hskip) hseg (by rw [hears.commitIndex]; exact hknown) hmatch
    with ⟨hrefused, -⟩ | ⟨i, merged, after, hpi, him, hbi, hiF, heq, honly, hadv, htake⟩
  · have hafter := hrefused node rfl rfl rfl rfl
    have hterm' : (node.send msg.leader (.appendReply ⟨node.term, node.id, false, 0⟩)).term ≤ msg.term := hears.term.le
    have hagain := RaftNode.heard_hears _ msg.leader hterm'
    have hrefusedAgain := hrefused _ hagain.log hagain.baseIndex hagain.baseTerm hagain.bugs
    rw [hagain.term.trans hears.term.symm, hagain.id] at hrefusedAgain
    refine ⟨_, _, ⟨node.term, node.id, false, 0⟩, hafter, ?_, nofun,
      fun _ => ⟨hears.log, hears.baseIndex, hears.voters, hears.commitIndex⟩, (onAppendEntries_eq hterm').trans hrefusedAgain, ?_,
      hagain.log, hagain.baseIndex, hagain.logVersion, hagain.voters, hagain.commitIndex, hagain.kv⟩
    · rw [messages_send, hears.silent]
    · rw [messages_send, hagain.silent]
      rfl
  · have hreply : ∀ q : RaftNode, q.term = msg.term → q.id = node.id →
        ({ term := q.term, follower := q.id, success := true, matchIndex := ((p + msg.entries.length : ℕ) : Int) } : AppendReply) =
          ⟨msg.term, node.id, true, ((p + msg.entries.length : ℕ) : Int)⟩ := fun q ht hid => by rw [ht, hid]
    have hsame : after.term = node.term ∧ after.id = node.id ∧ after.bugs = node.bugs := by
      rw [hadv.only, honly]
      exact ⟨rfl, rfl, rfl⟩
    have hmerged : merged.commitIndex = node.commitIndex ∧ merged.out = node.out := by
      rw [honly]
      exact ⟨rfl, rfl⟩
    have hcom : after.commitIndex = max self.commitIndex (min msg.leaderCommit ((p + msg.entries.length : ℕ) : Int)) := by
      rw [hadv.commitIndex, hmerged.1, hears.commitIndex]
    rw [hreply after (hsame.1.trans hears.term) hsame.2.1] at htake
    have hterm' : (after.send msg.leader (.appendReply ⟨msg.term, node.id, true, ((p + msg.entries.length : ℕ) : Int)⟩)).term ≤
        msg.term := (hsame.1.trans hears.term).le
    have hagain := RaftNode.heard_hears _ msg.leader hterm'
    have hdone := (hagain.holds (hadv.holds.of_eq rfl rfl rfl)).takeOver_again
      ((congrArg _ (hagain.bugs.trans (hsame.2.2.trans hears.bugs))).trans hreg) hseg (prefix_merge F _)
      (by rw [hagain.commitIndex]; exact (le_max_right _ _).trans hcom.ge)
    rw [hreply _ hagain.term (hagain.id.trans hsame.2.1)] at hdone
    refine ⟨_, _, ⟨msg.term, node.id, true, ((p + msg.entries.length : ℕ) : Int)⟩, htake, ?_, fun _ => ?_, nofun,
      (onAppendEntries_eq hterm').trans hdone, ?_, hagain.log, hagain.baseIndex, hagain.logVersion, hagain.voters, hagain.commitIndex,
      hagain.kv⟩
    · rw [messages_send, hadv.silent, hmerged.2, hears.silent]
    · have hle := hseg.le
      refine ⟨_, merge F (L.take (p + msg.entries.length)), rfl, rfl, hadv.holds.of_eq rfl rfl rfl, ?_, fun hno => ?_, fun hyes => ?_, ?_,
        hcom⟩
      · rw [take_extends (prefix_merge F _) (by rw [List.length_take_of_le hle]), List.take_take, Nat.min_self]
      · by_cases hpre : L.take (p + msg.entries.length) <+: F
        · rw [merge_eq_left hpre]
        · have hend : F.length ≤ p + msg.entries.length := by
            by_contra hlt
            exact hpre (hseg.of_not_conflicts hF hmatch hpi him (hears.baseIndex ▸ hbi) heq hno (not_le.1 hlt).le)
          rw [merge_eq_right hpre, List.drop_eq_nil_of_le hend, List.drop_eq_nil_of_le (List.length_take_le _ _)]
      · rw [merge_eq_right fun hpre => hseg.not_conflicts hF hpre hyes, List.drop_eq_nil_of_le (List.length_take_le _ _)]
      · have hlen : self.commitIndex.toNat ≤ F.length := by
          have := hg.last
          rw [hF.lastLogIndex] at this
          omega
        rw [take_extends (prefix_merge_known hknown) (by rw [List.length_take_of_le hlen]), List.take_take, Nat.min_self]
    · rw [messages_send, hagain.silent]

/-- A follower that has compacted its first entry, and whose third entry no leader committed. -/
def forkedNode : RaftNode :=
  { RaftNode.new 1 [2, 3] { snapshotThreshold := 2 } NO_BUGS none with
    term := 1
    log := [⟨1, "b"⟩, ⟨1, "x"⟩]
    baseIndex := 1
    baseTerm := 1
    snapshot := some ⟨1, 1, ∅, ∅, [1, 2, 3]⟩
    commitIndex := 1
    lastApplied := 1 }

/-- All of the leader's log, from below the follower's snapshot, of which three entries are committed. -/
def wholeLog : AppendEntries :=
  { term := 2, leader := 2, prevIndex := 0, prevTerm := 0, leaderCommit := 3,
    entries := [⟨1, "a"⟩, ⟨1, "b"⟩, ⟨2, "c"⟩, ⟨2, "d"⟩] }

/-- The follower compacts as it commits, so that the second message starts further below its snapshot. -/
theorem appendEntries_exact_forkedNode : ∃ (after again : RaftNode) (reply : AppendReply),
    forkedNode.onAppendEntries wholeLog = .ok after ∧ after.baseIndex = 3 ∧ after.log = [⟨2, "d"⟩] ∧
      after.onAppendEntries wholeLog = .ok again ∧ messages again.out = messages after.out ++ [(2, .appendReply reply)] ∧
      again.log = after.log ∧ again.kv = after.kv := by
  have hw : forkedNode.WellFormed := by
    refine ⟨by decide, by decide, rfl, by decide, rfl, ⟨fun _ => by decide, fun _ => ⟨_, rfl⟩⟩, ?_, by decide, by decide, by decide,
      nofun, nofun⟩
    rintro snap hs
    cases hs
    exact ⟨rfl, rfl⟩
  have hmatch : Matching [⟨1, "a"⟩, ⟨1, "b"⟩, ⟨1, "x"⟩] wholeLog.entries := by
    intro k e e' he he' hterm
    rcases k with _ | _ | _ | k
    · rfl
    · rfl
    · cases he
      cases he'
      cases hterm
    · cases he
  obtain ⟨after, again, reply, hafter, -, -, -, hagain, hout, hlog, -, -, -, -, hkv⟩ :=
    appendEntries_exact forkedNode hw rfl rfl [⟨1, "a"⟩, ⟨1, "b"⟩, ⟨1, "x"⟩] wholeLog.entries ⟨by decide, by decide, rfl, rfl⟩ hmatch
      (by decide) wholeLog (by decide) 0 ⟨rfl, by decide, rfl, rfl⟩
  have hrun : ((forkedNode.onAppendEntries wholeLog).toOption.map fun node => (node.baseIndex, node.log)) = some (3, [⟨2, "d"⟩]) := by
    decide +kernel
  rw [hafter] at hrun
  have hpair : (after.baseIndex, after.log) = (3, [⟨2, "d"⟩]) := Option.some.inj hrun
  rw [Prod.mk.injEq] at hpair
  exact ⟨after, again, reply, hafter, hpair.1, hpair.2, hagain, hout, hlog, hkv⟩

end DeterministicRaft
