import DeterministicRaft.Commits
import DeterministicRaft.Gains

/-!
# The leader's commit rule

The leader scans its log downwards for an entry of its own term that a majority of the voters hold, and stops at the first entry of
another term. As the terms do not decrease along the log, nothing below that entry could be counted either: what the scan finds is the
greatest index of that kind.
-/

namespace DeterministicRaft

open RaftNode Refinement

variable {I : Inputs} {self mid after : RaftNode} {index : Int} {entries : List Entry}

/-- An index that the leader may count to: its entry is of the current term, and more than half of the voters hold it. -/
structure RaftNode.Counts (node : RaftNode) (n : Int) : Prop where
  above : node.commitIndex < n
  last : n ≤ node.lastLogIndex
  own : node.termAt n = .ok node.term
  majority : node.voters.length < node.voters.countP (fun v => n ≤ node.matchIndex.getD v 0) * 2

/-- The terms of the log do not decrease, and none is above the node's term. -/
structure RaftNode.Ordered (node : RaftNode) : Prop where
  mono : node.log.Pairwise fun e e' => e.term ≤ e'.term
  bound : ∀ e ∈ node.log, e.term ≤ node.term

/-- Below an entry of another term there is none of the node's term. -/
theorem RaftNode.Ordered.termAt_ne (h : self.Ordered) {i n t : Int} (hb : self.baseIndex < i) (hin : i ≤ n)
    (hn : self.termAt n = .ok t) (ht : t ≠ self.term) : self.termAt i ≠ .ok self.term := by
  intro hi
  rw [RaftNode.termAt, if_neg (by omega)] at hi hn
  obtain ⟨x, hx, hxt⟩ : ∃ x, self.entryAt i = .ok x ∧ x.term = self.term := by
    rw [RaftNode.entryAt]
    cases hp : pyIndex self.log (self.phys i) with
    | error e => rw [hp] at hi; cases hi
    | ok x => rw [hp] at hi; exact ⟨x, rfl, Except.ok.inj hi⟩
  obtain ⟨y, hy, hyt⟩ : ∃ y, self.entryAt n = .ok y ∧ y.term = t := by
    rw [RaftNode.entryAt]
    cases hp : pyIndex self.log (self.phys n) with
    | error e => rw [hp] at hn; cases hn
    | ok y => rw [hp] at hn; exact ⟨y, rfl, Except.ok.inj hn⟩
  have hx := getElem?_of_entryAt hx hb
  have hy := getElem?_of_entryAt hy (by omega)
  have hbound := h.bound y (List.mem_of_getElem? hy)
  rcases hin.eq_or_lt with rfl | hlt
  · rw [hx] at hy
    cases hy
    exact ht (hyt.symm.trans hxt)
  · obtain ⟨hxl, rfl⟩ := List.getElem?_eq_some_iff.1 hx
    obtain ⟨hyl, rfl⟩ := List.getElem?_eq_some_iff.1 hy
    have := List.pairwise_iff_getElem.1 h.mono _ _ hxl hyl (by omega)
    omega

/-- The scan finds the greatest index that the leader may count to. -/
theorem advanceLoop_spec (h : self.Ordered) (hguard : self.bugs.dropCommitTermGuard = false) (hb : self.baseIndex ≤ self.commitIndex)
    (k : ℕ) {n : Int} (hn : n = self.commitIndex + k) (hl : n ≤ self.lastLogIndex) :
    ((∀ i ≤ n, ¬self.Counts i) ∧ self.advanceLoop n k = .ok self) ∨
    ∃ N ≤ n, self.Counts N ∧ (∀ i ≤ n, self.Counts i → i ≤ N) ∧
      self.advanceLoop n k = (fun after : RaftNode => { after with committedThisTerm := true }) <$> self.setCommitIndex N := by
  induction k generalizing n with
  | zero => exact Or.inl ⟨fun i hi hc => by have := hc.above; omega, rfl⟩
  | succ k ih =>
    push_cast at hn
    obtain ⟨t, ht⟩ := self.termAt_ok hl
    unfold RaftNode.advanceLoop
    simp only [ht, bind, Except.bind, hguard, and_true]
    split
    · rename_i hne
      refine Or.inl ⟨fun i hi hc => ?_, rfl⟩
      exact h.termAt_ne (by have := hc.above; omega) hi ht hne hc.own
    · rename_i heq
      have heq : t = self.term := not_not.1 heq
      split
      · rename_i hmaj
        refine Or.inr ⟨n, le_rfl, ⟨by omega, hl, heq ▸ ht, hmaj⟩, fun i hi _ => hi, ?_⟩
        cases self.setCommitIndex n <;> rfl
      · rename_i hmin
        have hno : ¬self.Counts n := fun hc => hmin hc.majority
        rcases ih (n := n - 1) (by omega) (by omega) with ⟨hnone, heq⟩ | ⟨N, hN, hc, hmax, heq⟩
        · refine Or.inl ⟨fun i hi hc => ?_, heq⟩
          rcases hi.eq_or_lt with rfl | hlt
          · exact hno hc
          · exact hnone i (by omega) hc
        · refine Or.inr ⟨N, by omega, hc, fun i hi hci => ?_, heq⟩
          rcases hi.eq_or_lt with rfl | hlt
          · exact absurd hci hno
          · exact hmax i (by omega) hci

/-- The leader commits up to the greatest index that it may count to, or does nothing. -/
theorem advanceCommit_spec (h : self.Ordered) (hguard : self.bugs.dropCommitTermGuard = false)
    (hb : self.baseIndex ≤ self.lastApplied) (ha : self.lastApplied = self.commitIndex) (hl : self.commitIndex ≤ self.lastLogIndex) :
    ((∀ i, ¬self.Counts i) ∧ self.advanceCommit = .ok self) ∨
    ∃ N entries after, self.Counts N ∧ (∀ i, self.Counts i → i ≤ N) ∧ self.advanceCommit = .ok after ∧
      self.Commits N entries ∧ self.Settled N entries after ∧ after.committedThisTerm = true := by
  have hn : self.lastLogIndex = self.commitIndex + ((self.lastLogIndex - self.commitIndex).toNat : Int) := by omega
  rcases advanceLoop_spec h hguard (by omega) _ hn le_rfl with ⟨hnone, heq⟩ | ⟨N, hN, hc, hmax, heq⟩
  · exact Or.inl ⟨fun i hi => hnone i hi.last hi, heq⟩
  · obtain ⟨entries, after, hcom, hset, hfold⟩ := setCommitIndex_ok self hb (by have := hc.above; omega) hc.above hc.last
    refine Or.inr ⟨N, entries, { after with committedThisTerm := true }, hc, fun i hi => hmax i hi.last hi, ?_, hcom, ?_, rfl⟩
    · rw [RaftNode.advanceCommit, heq, hset]
      rfl
    · exact { hcom.settled hb (by have := hc.above; omega) hc.last hfold with }

/-- The leader's commit rule. The commit index moves to the greatest index above it whose entry is of the current term and that more
than half of the voters hold, the entries in between are applied once each and in order, and the leadership is marked as one that has
committed; without such an index nothing changes. No other operation marks a leadership, and it begins without the mark. -/
theorem advanceCommit_exact (self : RaftNode) (hguard : self.bugs.dropCommitTermGuard = false)
    (hb : self.baseIndex ≤ self.lastApplied) (ha : self.lastApplied = self.commitIndex) (hl : self.commitIndex ≤ self.lastLogIndex)
    (hmono : self.log.Pairwise fun e e' => e.term ≤ e'.term) (hterms : ∀ e ∈ self.log, self.baseTerm ≤ e.term ∧ e.term ≤ self.term) :
    (∀ N, IsGreatest {n | self.Counts n} N → ∃ entries after, self.advanceCommit = .ok after ∧ self.Commits N entries ∧
      self.Settled N entries after ∧ after.committedThisTerm = true) ∧
    ((∀ n, ¬self.Counts n) → self.advanceCommit = .ok self) ∧
    ((∃ n, self.Counts n) → ∃ N, IsGreatest {n | self.Counts n} N) ∧
    (∀ (node : RaftNode) (op : NodeOp) (after : RaftNode), node.perform op = .ok after → node.committedThisTerm = false →
      after.committedThisTerm = true → ∃ msg, op = .handle (.appendReply msg) ∧ node.role = .leader ∧ msg.success = true ∧
        ∃ matchIndex nextIndex, { node with matchIndex, nextIndex }.advanceCommit = .ok after ∧
          node.commitIndex < after.commitIndex) ∧
    ∀ (node after : RaftNode), node.becomeLeader = .ok after → after.committedThisTerm = false := by
  have hspec := advanceCommit_spec ⟨hmono, fun e he => (hterms e he).2⟩ hguard hb ha hl
  refine ⟨fun N hN => ?_, fun hno => ?_, ?_, fun node op after hp hf ht => ?_, fun node after hlead => ?_⟩
  · rcases hspec with ⟨hno, -⟩ | ⟨N', entries, after, hc, hmax, hafter, hcom, hset, hmark⟩
    · exact absurd hN.1 (hno N)
    · cases (hmax N hN.1).antisymm (hN.2 hc)
      exact ⟨entries, after, hafter, hcom, hset, hmark⟩
  · rcases hspec with ⟨-, heq⟩ | ⟨N, -, -, hc, -⟩
    · exact heq
    · exact absurd hc (hno N)
  · rintro ⟨n, hn⟩
    rcases hspec with ⟨hno, -⟩ | ⟨N, -, -, hc, hmax, -⟩
    · exact absurd hn (hno n)
    · exact ⟨N, hc, fun i hi => hmax i hi⟩
  · rcases NoGain.perform node op after hp with (h | h) | h
    · rw [h.2 ht] at hf
      cases hf
    · rw [h.fields.2.1] at ht
      cases ht
    · exact h
  · exact (Elected.fields ⟨node, hlead⟩).2.1

/-- A leader of term 2 that has compacted an entry of term 1; one of the two others holds all of its log. -/
def replicated : RaftNode :=
  { RaftNode.new 1 [2, 3] {} {} none with
    term := 2
    role := .leader
    log := [⟨1, "a"⟩, ⟨2, "b"⟩]
    baseIndex := 1
    baseTerm := 1
    commitIndex := 1
    lastApplied := 1
    matchIndex := ((∅ : Dict NodeId Int).insert 1 3).insert 2 3 }

/-- The entry of term 1 is committed with the one of term 2. -/
theorem advanceCommit_exact_replicated : ∃ entries after, replicated.advanceCommit = .ok after ∧ replicated.Commits 3 entries ∧
    replicated.Settled 3 entries after ∧ after.committedThisTerm = true :=
  (advanceCommit_exact replicated rfl (by decide) rfl (by decide) (by decide) (by decide)).1 3
    ⟨⟨by decide, by decide, by decide, by decide⟩, fun _ hn => hn.last⟩

end DeterministicRaft
