import DeterministicRaft.Gains
import DeterministicRaft.Simulation
import DeterministicRaft.Theorems.CheckerCoverage

/-!
# How far a node commits

A follower commits what a leader or a snapshot tells it, and both tell of what a leader has committed. So the highest commit index
of a cluster is only ever passed by a leader, and a majority of the leader's voters has acknowledged what it commits then.
-/

namespace DeterministicRaft

open Consensus RaftNode Refinement

variable {C D : Int} {I : Inputs} {self mid after : RaftNode}

/-! ## What messages tell of commits -/

/-- The message tells of no commit above `C`. -/
def Message.Capped (C : Int) : Message → Prop
  | .appendEntries msg => msg.leaderCommit ≤ C
  | .installSnapshot msg => msg.lastIndex ≤ C
  | _ => True

/-- What is capped at one index is so at a higher one. -/
theorem Message.Capped.mono {msg : Message} (h : msg.Capped C) (hle : C ≤ D) : msg.Capped D := by
  cases msg with
  | appendEntries msg => exact le_trans h hle
  | installSnapshot msg => exact le_trans h hle
  | _ => trivial

/-- A message that is true of the node tells of no more than the node has committed. -/
theorem Effect.Sound.capped {dst : NodeId} {msg : Message} (h : (Effect.send dst msg).Sound self) (hw : self.Within C) :
    msg.Capped C := by
  cases msg with
  | appendEntries msg =>
    obtain ⟨-, -, -, -, -, -, hcommit⟩ := h
    exact hcommit.trans_le hw.commit
  | installSnapshot msg =>
    have hbase : msg.lastIndex = self.baseIndex := hw.bounded.snapEnds _ h.2.2.2
    exact hbase.trans_le (hw.bounded.commit.trans hw.commit)
  | _ => trivial

/-- From the one state to the other the node has told of no commit above `C`. -/
def Caps (C : Int) (self after : RaftNode) : Prop :=
  ∃ es, after.out = self.out ++ es ∧ ∀ dst msg, Effect.send dst msg ∈ es → msg.Capped C

namespace Caps

/-- One part of an operation after the other. -/
theorem trans (h : Caps C self mid) (h' : Caps C mid after) : Caps C self after := by
  obtain ⟨es, hout, hes⟩ := h
  obtain ⟨es', hout', hes'⟩ := h'
  refine ⟨es ++ es', by rw [hout', hout, List.append_assoc], fun dst msg hm => ?_⟩
  rcases List.mem_append.1 hm with hm | hm
  · exact hes dst msg hm
  · exact hes' dst msg hm

/-- A higher cap. -/
theorem mono (h : Caps C self after) (hle : C ≤ D) : Caps D self after := by
  obtain ⟨es, hout, hes⟩ := h
  exact ⟨es, hout, fun dst msg hm => (hes dst msg hm).mono hle⟩

/-- Calls that are no messages. -/
theorem silent {es : List Effect} (hout : after.out = self.out ++ es) (hes : ∀ dst msg, Effect.send dst msg ∉ es) :
    Caps C self after := ⟨es, hout, fun dst msg hm => absurd hm (hes dst msg)⟩

/-- One move. -/
theorem move (hm : Move I self after) (h : self.Within C) : Caps C self after := by
  obtain ⟨es, hes⟩ := hm.calls
  refine ⟨es, hes.out, fun dst msg he => ?_⟩
  rcases hes.sends dst msg he with hs | hs | ⟨req, -, -, -, rfl⟩
  · exact hs.capped h
  · exact hs.capped ⟨h.bounded.still self.leading_still, h.commit⟩
  · trivial

/-- Some moves. -/
theorem moved (hI : I.Upto C) (hm : Moved I self after) (h : self.Within C) : Caps C self after := by
  induction hm with
  | refl => exact silent (List.append_nil _).symm fun _ _ => List.not_mem_nil
  | tail hms hm ih => exact ih.trans (move hm (Moved.stays hI hms h).within)

/-- The leader's books change. -/
theorem aside (h : Aside self after) (hw : self.Within C) : Caps C self after := by
  obtain ⟨n, m, c, es, rfl, hes⟩ := h
  exact ⟨es, rfl, fun dst msg he => (hes _ he).capped hw⟩

/-- Entries are committed, and no message is sent. -/
theorem committed (self : RaftNode) (index : Int) (entries : List Entry) : Caps C self (self.committed index entries) := by
  obtain ⟨es, htell, heq⟩ := committed_eq self index entries
  rw [heq]
  exact silent rfl fun dst msg hm => htell _ hm

/-- The node may compact. -/
theorem compacting (h : Compacting self after) (hb : self.Bounded) : Caps self.commitIndex self after := by
  rcases h with ha | ⟨t, vs, -, ha⟩
  · exact aside ha ⟨hb, le_rfl⟩
  · have hout : (self.compacted t vs).out = self.out ++ [.beforeCompact self.view, .record (.snapshot self.lastApplied t)] :=
      List.append_assoc _ _ _
    have hsilent : Caps self.commitIndex self (self.compacted t vs) := silent hout (by simp)
    exact hsilent.trans (aside ha ⟨hb.compacted t vs, le_rfl⟩)

end Caps

/-- Compacting commits nothing. -/
theorem Compacting.commitIndex (h : Compacting self after) : after.commitIndex = self.commitIndex := by
  rcases h with ⟨n, m, c, es, rfl, -⟩ | ⟨t, vs, -, n, m, c, es, rfl, -⟩ <;> rfl

/-- No operation tells of a commit above all that has been committed, and what the node has committed after it. -/
theorem RaftNode.Within.caps (h : self.Within C) (hq : I.quiet.Upto C) (hi : I.installing.Upto C) (op : NodeOp)
    (ha : op.Admissible I self) : Ensures (self.perform op) fun after => Caps (max C after.commitIndex) self after := by
  refine (perform_cases self op ha).mono ?_
  rintro after (⟨low, hm, hl⟩ | hm | ⟨-, rfl⟩)
  · have hlow := (hm.stays hq h).within
    have hcaps := Caps.moved hq hm h
    rcases hl with ha | ⟨index, entries, hc, hl⟩
    · exact (hcaps.trans (Caps.aside ha hlow)).mono (le_max_left _ _)
    · have hb := hlow.bounded.committed hc
      have hcompact := (Caps.compacting hl hb).mono (le_max_right C _)
      rw [← hl.commitIndex] at hcompact
      exact ((hcaps.mono (le_max_left _ _)).trans (Caps.committed low index entries)).trans hcompact
  · exact (Caps.moved hi hm h).mono (le_max_left _ _)
  · rw [pause_fields]
    exact Caps.silent (List.append_nil _).symm fun _ _ => List.not_mem_nil

/-! ## Who commits -/

/-- The node leads, and a majority of its voters has acknowledged what it has committed. -/
def RaftNode.Confirmed (node : RaftNode) : Prop :=
  node.role = .leader ∧ node.voters.length < node.voters.countP (fun v => node.commitIndex ≤ node.matchIndex.getD v 0) * 2

/-- A commit index is set, or it was as high before. -/
theorem setCommitIndex_max (self : RaftNode) (index : Int) : Ensures (self.setCommitIndex index) fun after =>
    JustApplies self after ∧ after.commitIndex = max self.commitIndex index := by
  intro after hset
  refine ⟨JustApplies.setCommitIndex self index after hset, ?_⟩
  revert hset
  revert after
  unfold RaftNode.setCommitIndex
  split
  · rename_i hle
    exact Ensures.pure (max_eq_left hle).symm
  · rename_i hlt
    refine Ensures.bind (Makes.applyLoop_eq _ _) ?_
    rintro mid ⟨entries, -, -, rfl⟩
    refine (CommitsOnce.maybeCompact _).mono fun after ha => ?_
    obtain ⟨es, -, heq⟩ := foldl_applyEntry ({ self with commitIndex := index }.record (.commit index)) entries
    rw [ha.commitIndex, heq, max_eq_right (not_le.1 hlt).le]
    rfl

/-- The commit rule: what it commits, a majority has acknowledged. -/
theorem advanceLoop_confirmed (hr : self.role = .leader) (n : Int) (k : ℕ) : Ensures (self.advanceLoop n k) fun after =>
    after.commitIndex ≤ self.commitIndex ∨ after.Confirmed := by
  induction k generalizing n with
  | zero => exact Ensures.pure (Or.inl le_rfl)
  | succ k ih =>
    unfold RaftNode.advanceLoop
    refine Ensures.bind (Ensures.trivial _) fun term _ => ?_
    split
    · exact Ensures.pure (Or.inl le_rfl)
    · simp only
      split
      · rename_i hmajority
        refine Ensures.bind (setCommitIndex_max self n) ?_
        rintro mid ⟨⟨honly, -⟩, hcommit⟩
        refine Ensures.pure ?_
        by_cases hn : n ≤ self.commitIndex
        · left
          show mid.commitIndex ≤ self.commitIndex
          rw [hcommit, max_eq_left hn]
        · right
          rw [max_eq_right (not_le.1 hn).le] at hcommit
          unfold RaftNode.Confirmed
          rw [honly] at hcommit ⊢
          simp only at hcommit ⊢
          rw [hcommit]
          exact ⟨hr, hmajority⟩
      · exact ih (n - 1)

/-- Stepping down commits nothing. -/
theorem observed_commitIndex (self : RaftNode) (c : Prop) [Decidable c] (t : Int) :
    (if c then self.becomeFollower t else self).commitIndex = self.commitIndex := by
  split
  · rw [becomeFollower_eq]
  · rfl

/-- A follower commits no more than the leader tells it. -/
theorem onAppendEntries_commitIndex (hb : self.bugs.allowCommitRegression = false) (msg : AppendEntries) :
    Ensures (self.onAppendEntries msg) fun after => after.commitIndex ≤ max self.commitIndex msg.leaderCommit := by
  have hfirst := observed_commitIndex self (msg.term > self.term) msg.term
  have hbugs : (if msg.term > self.term then self.becomeFollower msg.term else self).bugs = self.bugs := by
    split
    · rw [becomeFollower_eq]
    · rfl
  unfold RaftNode.onAppendEntries
  simp only
  generalize (if msg.term > self.term then self.becomeFollower msg.term else self) = low at hfirst hbugs
  split
  · exact Ensures.pure (hfirst.trans_le (le_max_left _ _))
  · have hsecond := observed_commitIndex low (low.role ≠ .follower) msg.term
    have hbugs' : (if low.role ≠ .follower then low.becomeFollower msg.term else low).bugs = low.bugs := by
      split
      · rw [becomeFollower_eq]
      · rfl
    generalize (if low.role ≠ .follower then low.becomeFollower msg.term else low) = node at hsecond hbugs'
    refine Ensures.bind (Ensures.trivial _) fun rest _ => Ensures.bind (Ensures.trivial _) fun bad _ => ?_
    split
    · exact Ensures.pure ((hsecond.trans hfirst).trans_le (le_max_left _ _))
    · refine Ensures.bind (OnlyLog.mergeEntries _ _ _) fun merged hm => ?_
      have hmc : merged.commitIndex = self.commitIndex := by
        rw [hm]
        exact hsecond.trans hfirst
      have hmb : merged.bugs.allowCommitRegression = false := by
        rw [hm]
        show node.bugs.allowCommitRegression = false
        rw [hbugs', hbugs, hb]
      rw [hmb, if_neg Bool.false_ne_true]
      split
      · refine Ensures.bind (setCommitIndex_max merged _) fun last hl => Ensures.pure ?_
        show last.commitIndex ≤ max self.commitIndex msg.leaderCommit
        rw [hl.2, hmc]
        omega
      · exact Ensures.pure (hmc.trans_le (le_max_left _ _))

/-- Above all that is told of commits only a leader commits, and a majority has acknowledged it. -/
theorem RaftNode.Within.commits (h : self.Within C) (op : NodeOp) (hop : ∀ msg, op = .handle msg → msg.Capped C) :
    Ensures (self.perform op) fun after => after.commitIndex ≤ C ∨ after.Confirmed := by
  have hquiet : ∀ {x : Except PyError RaftNode}, Makes (Inputs.upTo C).quiet self x → Ensures x fun after =>
      after.commitIndex ≤ C ∨ after.Confirmed :=
    fun hx => hx.mono fun _ hm => Or.inl (hm.stays (Inputs.upTo_quiet C) h).within.commit
  cases op with
  | start => exact hquiet (Makes.move (.start self))
  | handle msg =>
    have hcap := hop msg rfl
    unfold RaftNode.perform RaftNode.handle
    simp only
    split
    · exact hquiet (Makes.stay self)
    · rename_i hg
      have ha : self.alive = true := by simpa using hg
      cases msg with
      | requestVote msg => exact hquiet (Makes.onRequestVote ha msg trivial)
      | voteReply msg => exact hquiet (Makes.onVoteReply ha msg)
      | appendEntries msg =>
        refine (onAppendEntries_commitIndex h.bounded.noRegression msg).mono fun after hle => Or.inl ?_
        exact hle.trans (max_le h.commit hcap)
      | appendReply msg =>
        simp only
        unfold RaftNode.onAppendReply
        split
        · rw [becomeFollower_eq]
          exact Ensures.pure (Or.inl h.commit)
        · split
          · exact Ensures.pure (Or.inl h.commit)
          · rename_i hg
            push Not at hg
            split
            · let heard : RaftNode := { self with
                matchIndex := self.matchIndex.insert msg.follower (max (self.matchIndex.getD msg.follower 0) msg.matchIndex)
                nextIndex := self.nextIndex.insert msg.follower (max (self.nextIndex.getD msg.follower 1) (msg.matchIndex + 1)) }
              have hleads : heard.role = .leader := hg.1
              exact (advanceLoop_confirmed hleads _ _).mono fun after ha => ha.imp_left fun hle => hle.trans h.commit
            · let backed : RaftNode := { self with
                nextIndex := self.nextIndex.insert msg.follower (max 1 (self.nextIndex.getD msg.follower 1 - 1)) }
              have hleads : backed.role = .leader := hg.1
              refine (Makes.sendAppendEntries_calls hleads (Calls.refl backed) msg.follower).mono ?_
              rintro after ⟨es, rfl, -⟩
              exact Or.inl h.commit
      | installSnapshot msg =>
        refine (Makes.onInstallSnapshot (I := (Inputs.upTo C).installing) ha msg hcap).mono fun after hm => Or.inl ?_
        exact (hm.stays (Inputs.upTo_installing C) h).within.commit
      | readHeartbeat msg => exact hquiet (Ensures.pure (Makes.onReadHeartbeat ha msg False.elim))
      | readAck msg => exact hquiet (Ensures.pure (Makes.onReadAck ha msg))
  | electionTimeout seq => exact hquiet (Makes.onElectionTimeout self seq)
  | heartbeat seq => exact hquiet (Makes.onHeartbeat self seq)
  | clientCommand command => exact hquiet (Makes.clientCommand self command fun _ _ => trivial)
  | changeConfig newVoters => exact hquiet (Makes.changeConfig self newVoters trivial)
  | requestRead command => exact hquiet (Ensures.pure (Makes.requestRead self command))
  | pause =>
    refine Ensures.pure (Or.inl ?_)
    rw [pause_fields]
    show (self.snapshot.map (·.lastIndex)).getD 0 ≤ C
    rw [h.bounded.snapshot_lastIndex]
    exact h.bounded.commit.trans h.commit
  | resume => exact hquiet (Makes.move (.resume self))

/-! ## What a node never takes back -/

/-- The node has not gone back: in the same incarnation its commit index is no lower. -/
def RaftNode.Ages (node after : RaftNode) : Prop :=
  node.incarnation ≤ after.incarnation ∧ (node.incarnation = after.incarnation → node.commitIndex ≤ after.commitIndex)

/-- One part of an operation after the other. -/
theorem RaftNode.Ages.trans (h : self.Ages mid) (h' : mid.Ages after) : self.Ages after := by
  refine ⟨h.1.trans h'.1, fun heq => ?_⟩
  have h1 := h.1
  have h2 := h'.1
  exact (h.2 (by omega)).trans (h'.2 (by omega))

/-- No move takes back what the node has committed, but for a crash. -/
theorem Move.ages (hm : Move I self after) (hb : self.bugs.allowCommitRegression = false) :
    self.Ages after ∧ after.bugs = self.bugs := by
  rcases hm.still_or with hs | ⟨-, index, entries, hc, rfl⟩ | ⟨-, t, vs, -, rfl⟩ | ⟨msg, keep, -, -, hlt, rfl⟩ | ⟨-, rfl⟩ | ⟨hbug, -⟩
  · exact ⟨⟨hs.incarnation.ge, fun _ => hs.commitIndex.ge⟩, hs.bugs⟩
  · obtain ⟨es, -, heq⟩ := committed_eq self index entries
    rw [heq]
    exact ⟨⟨le_rfl, fun _ => hc.lt.le⟩, rfl⟩
  · exact ⟨⟨le_rfl, fun _ => le_rfl⟩, rfl⟩
  · exact ⟨⟨le_rfl, fun _ => hlt.le⟩, rfl⟩
  · rw [pause_fields]
    refine ⟨⟨?_, fun heq => ?_⟩, rfl⟩
    · show self.incarnation ≤ self.incarnation + 1
      omega
    · have : self.incarnation = self.incarnation + 1 := heq
      omega
  · rw [hb] at hbug
    cases hbug

/-- No moves take back what the node has committed, but for crashes. -/
theorem Moved.ages (hm : Moved I self after) (hb : self.bugs.allowCommitRegression = false) : self.Ages after := by
  suffices key : self.Ages after ∧ after.bugs = self.bugs from key.1
  induction hm with
  | refl => exact ⟨⟨le_rfl, fun _ => le_rfl⟩, rfl⟩
  | tail _ hm ih =>
    obtain ⟨hages, hbugs⟩ := hm.ages (by rw [ih.2, hb])
    exact ⟨ih.1.trans hages, hbugs.trans ih.2⟩

/-- No operation takes back what the node has committed, but for a crash. -/
theorem RaftNode.Within.ages (h : self.Within C) (op : NodeOp) : Ensures (self.perform op) self.Ages :=
  (perform_makes (I := .any) ⟨trivial, trivial, trivial⟩ self op (op.admissible_any self)).mono fun _ hm =>
    hm.ages h.bounded.noRegression

/-! ## The highest commit of a cluster -/

/-- Nothing is committed in the cluster or told of above `C`. -/
structure World.Capped (C : Int) (w : World) : Prop where
  within : ∀ n, (w.nodes n).Within C
  sent : ∀ n dst msg, (n, Effect.send dst msg) ∈ w.trace → msg.Capped C

namespace World

variable {w : World} {n : NodeId} {node : RaftNode} {op : NodeOp} {action : Action}

/-- A message that arrives tells of nothing above. -/
theorem Capped.handled (h : w.Capped C) (hop : w.operation action = some (n, op)) : ∀ msg, op = .handle msg → msg.Capped C := by
  rcases operation_cases hop with ⟨src, msg, hm, rfl⟩ | ⟨kind, seq, -, rfl⟩ | ⟨command, -, rfl⟩ | ⟨newVoters, -, rfl⟩ |
    ⟨command, -, rfl⟩ | ⟨-, rfl⟩ | ⟨-, rfl⟩
  · intro msg' he
    cases he
    exact h.sent src n _ hm
  · intro msg he
    cases kind <;> cases he
  all_goals exact fun msg he => NodeOp.noConfusion he

/-- Such operations are those of a cluster in which no snapshot of more has been sent. -/
theorem admissible_upTo (hmsg : ∀ msg, op = .handle msg → msg.Capped C) : op.Admissible (Inputs.upTo C) node := by
  cases op with
  | handle msg =>
    have hcap := hmsg msg rfl
    cases msg with
    | appendEntries msg => exact ⟨fun hf => False.elim hf, fun _ _ => trivial⟩
    | installSnapshot msg => exact hcap
    | readHeartbeat msg => exact fun hf => False.elim hf
    | _ => trivial
  | clientCommand command => exact fun _ _ => trivial
  | _ => trivial

/-- After an operation the highest commit is the one before, or the node's. -/
theorem Capped.put (h : w.Capped C) (hout : (w.nodes n).out = []) (hmsg : ∀ msg, op = .handle msg → msg.Capped C)
    (hp : (w.nodes n).perform op = .ok node) : (w.put n node).Capped (max C node.commitIndex) := by
  have hself : (w.put n node).nodes n = { node with out := [] } := Function.update_self _ _ _
  have hbounded : node.Bounded := (h.within n).bounded.moved
    (perform_makes (I := .any) ⟨trivial, trivial, trivial⟩ _ op (op.admissible_any _) node hp)
  obtain ⟨es, hes, hcaps⟩ := (h.within n).caps (Inputs.upTo_quiet C) (Inputs.upTo_installing C) op (admissible_upTo hmsg) node hp
  rw [hout, List.nil_append] at hes
  refine ⟨fun i => ?_, fun i dst msg hm => ?_⟩
  · by_cases hin : i = n
    · subst hin
      rw [hself]
      exact ⟨hbounded.still ⟨rfl, rfl, rfl, rfl, rfl, rfl, rfl, rfl, rfl, rfl⟩, le_max_right _ _⟩
    · rw [show (w.put n node).nodes i = w.nodes i from Function.update_of_ne hin _ _]
      exact ⟨(h.within i).bounded, (h.within i).commit.trans (le_max_left _ _)⟩
  · rcases List.mem_append.1 hm with hm | hm
    · exact (h.sent i dst msg hm).mono (le_max_left _ _)
    · obtain ⟨e, he, heq⟩ := List.mem_map.1 hm
      rw [hes] at he
      obtain ⟨-, rfl⟩ := Prod.mk.inj heq
      exact hcaps dst msg he

/-- Only a leader passes the highest commit, and a majority has acknowledged what it commits then. -/
theorem Capped.step (h : w.Capped C) (hout : ∀ i, (w.nodes i).out = []) {after : World} (hstep : w.step action = .ok after) :
    after.Capped C ∨ ∃ n, after.Capped (after.nodes n).commitIndex ∧ (after.nodes n).Confirmed := by
  rcases step_put hstep with rfl | ⟨n, op, node, hop, hp, rfl⟩
  · exact Or.inl h
  · have hmsg := h.handled hop
    have hput := h.put (hout n) hmsg hp
    have hself : (w.put n node).nodes n = { node with out := [] } := Function.update_self _ _ _
    rcases le_total node.commitIndex C with hle | hle
    · rw [max_eq_left hle] at hput
      exact Or.inl hput
    · rw [max_eq_right hle] at hput
      rcases (h.within n).commits op hmsg node hp with hle' | hconfirmed
      · rw [le_antisymm hle' hle] at hput
        exact Or.inl hput
      · refine Or.inr ⟨n, ?_⟩
        rw [hself]
        exact ⟨hput, hconfirmed⟩

end World

/-! ## What a majority has acknowledged is held by it -/

variable {net : Network} {a : State NodeId Entry} {tr : Trace} {n : NodeId}

/-- A node that has acknowledged committed entries of a leader has them from then on. -/
theorem acked_holds (hI : Inv net.scheme a) {v : NodeId} {t : Int} {m k : ℕ} (hack : a.acked v t m) (hk : k ≤ m)
    (hcom : a.Committed t ((a.llog t).take k)) {a' : State NodeId Entry} (x : a.Extends a') (hI' : Inv net.scheme a') :
    (a.llog t).take k <+: a'.log v := by
  obtain ⟨⟨l, hl⟩, -, hm⟩ := hI.acked_led hack
  have hcom' := x.known hcom
  have htake : (a'.llog t).take k = (a.llog t).take k := x.llog_take ⟨l, hl⟩ (hk.trans hm)
  rw [← htake] at hcom' ⊢
  obtain ⟨-, ht, -⟩ := hI'.acked_led (x.acked hack)
  rcases hI'.acked_keeps v t m k (x.acked hack) (by omega) hk with hp | ⟨r, htr, -, hled, hno⟩
  · exact hp
  · exact absurd (hI'.known_prefix_elog hcom' hled htr) hno

/-- What a confirmed leader has committed is in the logs of a majority of its voters, from then on. -/
theorem Fits.majority_on (h : Fits net tr n a self) (hc : self.Confirmed) :
    Majority (net.scheme.cfg (a.log n))
      {w | ∀ a', a.Extends a' → Inv net.scheme a' → (a.log n).take (a.commit n) <+: a'.log w} := by
  obtain ⟨hr, hcount⟩ := hc
  obtain ⟨-, hlog⟩ := h.leader hr
  rw [← h.voters]
  refine majority_of_countP (fun v => decide (self.commitIndex ≤ self.matchIndex.getD v 0)) (fun v hv => ?_) (by omega)
  intro a' x hI'
  have hv : self.commitIndex ≤ self.matchIndex.getD v 0 := of_decide_eq_true hv
  rw [h.2.commitIndex] at hv
  rcases Nat.eq_zero_or_pos (a.commit n) with h0 | hpos
  · rw [h0]
    exact List.nil_prefix
  · cases hx : self.matchIndex.lookup v with
    | none =>
      rw [Dict.getD, hx, Option.getD_none] at hv
      omega
    | some y =>
      rw [Dict.getD, hx, Option.getD_some] at hv
      obtain ⟨m, hm, hack⟩ := (h.2.leads hr).matched v y hx (by omega)
      have hknown := h.1.commit_known n
      rw [hlog] at hknown ⊢
      exact acked_holds h.1 hack (by omega) hknown x hI'

/-- What a confirmed leader has committed is in the logs of a majority of its voters. -/
theorem Fits.majority (h : Fits net tr n a self) (hc : self.Confirmed) :
    Majority (net.scheme.cfg (a.log n)) {w | (a.log n).take (a.commit n) <+: a.log w} :=
  Majority.mono (h.majority_on hc) fun _ hw => hw a (.refl a) h.1

end DeterministicRaft
