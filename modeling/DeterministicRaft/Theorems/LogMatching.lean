import DeterministicRaft.Checker

/-!
# The comparison of two logs

Two logs are compared over the indices that both still hold. The comparison takes the highest index at which the terms are equal, and
below it the entries must be. That it finds every pair of indices of which Log Matching fails needs no order of the terms: each such
pair lies at or below that index.
-/

namespace DeterministicRaft

namespace NodeView

variable {n a b : NodeView} {i : Int}

/-- The entry that a node holds at a logical index above its snapshot. -/
def Live (n : NodeView) (i : Int) (entry : Entry) : Prop := n.baseIndex < i ∧ n.entryAt i = .ok entry

theorem exists_live (hb : n.baseIndex < i) (hl : i ≤ n.lastLogIndex) : ∃ entry, n.Live i entry := by
  obtain ⟨k, hk⟩ : ∃ k : Nat, i - n.baseIndex - 1 = k := ⟨(i - n.baseIndex - 1).toNat, by omega⟩
  have hlt : k < n.log.length := by
    rw [lastLogIndex] at hl
    omega
  exact ⟨n.log[k], hb, pyIndex_ok hk (List.getElem?_eq_getElem hlt)⟩

theorem Live.termAt {entry : Entry} (h : n.Live i entry) : n.termAt i = .ok entry.term := by
  rw [NodeView.termAt, if_neg (by have := h.1; omega), h.2]
  rfl

/-- The logical indices that both logs hold. -/
def Overlap (a b : NodeView) (i : Int) : Prop := max a.baseIndex b.baseIndex < i ∧ i ≤ min a.lastLogIndex b.lastLogIndex

/-- The terms of the two entries at an index are equal. -/
def Agree (a b : NodeView) (i : Int) : Prop := ∃ x y, a.Live i x ∧ b.Live i y ∧ x.term = y.term

/-- The two entries at an index differ. -/
def Differ (a b : NodeView) (i : Int) : Prop := ∃ x y, a.Live i x ∧ b.Live i y ∧ x ≠ y

theorem Overlap.live (h : Overlap a b i) : ∃ x y, a.Live i x ∧ b.Live i y := by
  obtain ⟨hlo, hhi⟩ := h
  obtain ⟨x, hx⟩ := a.exists_live (i := i) (by omega) (by omega)
  obtain ⟨y, hy⟩ := b.exists_live (i := i) (by omega) (by omega)
  exact ⟨x, y, hx, hy⟩

theorem Live.agree {x y : Entry} (hx : a.Live i x) (hy : b.Live i y) : Agree a b i ↔ x.term = y.term := by
  refine ⟨?_, fun h => ⟨x, y, hx, hy, h⟩⟩
  rintro ⟨x', y', hx', hy', h⟩
  cases hx.2.symm.trans hx'.2
  cases hy.2.symm.trans hy'.2
  exact h

theorem Live.differ {x y : Entry} (hx : a.Live i x) (hy : b.Live i y) : Differ a b i ↔ x ≠ y := by
  refine ⟨?_, fun h => ⟨x, y, hx, hy, h⟩⟩
  rintro ⟨x', y', hx', hy', h⟩
  cases hx.2.symm.trans hx'.2
  cases hy.2.symm.trans hy'.2
  exact h

end NodeView

namespace InvariantChecker

open NodeView

variable {a b : NodeView}

/-- The scan for an index of equal terms finds the first one in the list. -/
theorem agreedIndex_spec (l : List Int) (hl : ∀ i ∈ l, Overlap a b i) (hs : l.Pairwise (· > ·)) :
    ∃ top, agreedIndex a b l = .ok top ∧
      ((top ∈ l ∧ Agree a b top ∧ ∀ i ∈ l, Agree a b i → i ≤ top) ∨ (top = 0 ∧ ∀ i ∈ l, ¬Agree a b i)) := by
  induction l with
  | nil => exact ⟨0, rfl, Or.inr ⟨rfl, fun _ hi => absurd hi List.not_mem_nil⟩⟩
  | cons i l ih =>
    obtain ⟨x, y, hx, hy⟩ := (hl i List.mem_cons_self).live
    obtain ⟨hlt, hs⟩ := List.pairwise_cons.1 hs
    rw [agreedIndex, hx.termAt, hy.termAt]
    simp only [bind, Except.bind]
    by_cases hxy : x.term = y.term
    · rw [if_pos hxy]
      refine ⟨i, rfl, Or.inl ⟨List.mem_cons_self, (hx.agree hy).2 hxy, fun j hj _ => ?_⟩⟩
      rcases List.mem_cons.1 hj with rfl | hj
      · exact le_rfl
      · exact (hlt j hj).le
    · rw [if_neg hxy]
      have hi : ¬Agree a b i := fun h => hxy ((hx.agree hy).1 h)
      obtain ⟨top, htop, hcase⟩ := ih (fun j hj => hl j (List.mem_cons_of_mem _ hj)) hs
      refine ⟨top, htop, hcase.imp ?_ ?_⟩
      · rintro ⟨hmem, hagree, hmax⟩
        exact ⟨List.mem_cons_of_mem _ hmem, hagree, List.forall_mem_cons.2 ⟨fun h => absurd h hi, hmax⟩⟩
      · rintro ⟨rfl, hnone⟩
        exact ⟨rfl, List.forall_mem_cons.2 ⟨hi, hnone⟩⟩

/-- The scan for an index of different entries finds one if there is any. -/
theorem divergence_spec (l : List Int) (hl : ∀ i ∈ l, Overlap a b i) :
    (divergence a b l = .ok none ∧ ∀ i ∈ l, ¬Differ a b i) ∨
    ∃ idx ∈ l, divergence a b l = .ok (some idx) ∧ Differ a b idx := by
  induction l with
  | nil => exact Or.inl ⟨rfl, fun _ hi => absurd hi List.not_mem_nil⟩
  | cons i l ih =>
    obtain ⟨x, y, hx, hy⟩ := (hl i List.mem_cons_self).live
    rw [divergence, hx.2, hy.2]
    simp only [bind, Except.bind]
    by_cases hxy : x = y
    · rw [if_neg (not_not.2 hxy)]
      have hi : ¬Differ a b i := fun h => (hx.differ hy).1 h hxy
      refine (ih fun j hj => hl j (List.mem_cons_of_mem _ hj)).imp ?_ ?_
      · exact fun h => ⟨h.1, List.forall_mem_cons.2 ⟨hi, h.2⟩⟩
      · rintro ⟨idx, hidx, hrest⟩
        exact ⟨idx, List.mem_cons_of_mem _ hidx, hrest⟩
    · rw [if_pos hxy]
      exact Or.inr ⟨i, List.mem_cons_self, rfl, (hx.differ hy).2 hxy⟩

/-- Two logs of which Log Matching fails: the entries at an index have equal terms, and those at an index that is no higher differ. -/
def Mismatched (a b : NodeView) : Prop := ∃ j i, j ≤ i ∧ Overlap a b j ∧ Overlap a b i ∧ Agree a b i ∧ Differ a b j

/-- The comparison of two logs reads both only where they overlap, and it finds a mismatch exactly if there is one. -/
theorem mismatch_spec (hbase : 0 ≤ max a.baseIndex b.baseIndex) :
    (mismatch a b = .ok none ∧ ¬Mismatched a b) ∨ ∃ top idx, mismatch a b = .ok (some (top, idx)) ∧ Mismatched a b := by
  have hrange : ∀ i, i ∈ (pyRange (max a.baseIndex b.baseIndex + 1) (min a.lastLogIndex b.lastLogIndex + 1)).reverse ↔
      Overlap a b i := by
    intro i
    rw [List.mem_reverse, mem_pyRange, Overlap]
    omega
  obtain ⟨top, htop, hcase⟩ := agreedIndex_spec (a := a) (b := b) _ (fun i hi => (hrange i).1 hi)
    (List.pairwise_reverse.2 (pyRange_pairwise _ _))
  have hbelow : ∀ i ∈ pyRange (max a.baseIndex b.baseIndex + 1) (top + 1), Overlap a b i ∧ i ≤ top ∧ Agree a b top := by
    intro i hi
    rw [mem_pyRange] at hi
    rcases hcase with ⟨hmem, hagree, -⟩ | ⟨rfl, -⟩
    · have := ((hrange top).1 hmem).2
      exact ⟨⟨by omega, by omega⟩, by omega, hagree⟩
    · omega
  rcases divergence_spec _ fun i hi => (hbelow i hi).1 with ⟨hdiv, hnone⟩ | ⟨idx, hidx, hdiv, hdiff⟩
  · refine Or.inl ⟨?_, ?_⟩
    · simp only [mismatch, htop, bind, Except.bind, hdiv]
      rfl
    · rintro ⟨j, i, hji, hj, hi, hagree, hdiff⟩
      rcases hcase with ⟨-, -, hmax⟩ | ⟨-, hno⟩
      · have := hmax i ((hrange i).2 hi) hagree
        exact hnone j (mem_pyRange.2 ⟨by have := hj.1; omega, by omega⟩) hdiff
      · exact hno i ((hrange i).2 hi) hagree
  · refine Or.inr ⟨top, idx, ?_, ?_⟩
    · simp only [mismatch, htop, bind, Except.bind, hdiv]
      rfl
    · obtain ⟨hover, hle, hagree⟩ := hbelow idx hidx
      obtain ⟨x, y, hx, hy, hxy⟩ := hagree
      have htopover : Overlap a b top := by
        rcases hcase with ⟨hmem, -, -⟩ | ⟨rfl, hno⟩
        · exact (hrange top).1 hmem
        · have := hover.1
          omega
      exact ⟨idx, top, hle, hover, htopover, ⟨x, y, hx, hy, hxy⟩, hdiff⟩

end InvariantChecker

open NodeView InvariantChecker in
/-- The comparison of two nodes' logs raises a Log Matching violation exactly if two entries at a logical index that both hold have
equal terms and two at one no higher differ. Otherwise it only records that the logs were compared. -/
theorem comparePair_fails_iff (a b : NodeView) (hbase : 0 ≤ max a.baseIndex b.baseIndex) (step : Int) (self : InvariantChecker) :
    ((∃ top idx, comparePair step a b self = self.fail step (.logMatching a.id b.id top idx)) ↔
      ∃ j i : Int, j ≤ i ∧ max a.baseIndex b.baseIndex < j ∧ i ≤ a.lastLogIndex ∧ i ≤ b.lastLogIndex ∧
        (∃ x y, a.entryAt i = .ok x ∧ b.entryAt i = .ok y ∧ x.term = y.term) ∧
        ∃ x y, a.entryAt j = .ok x ∧ b.entryAt j = .ok y ∧ x ≠ y) ∧
    ((∀ top idx, comparePair step a b self ≠ self.fail step (.logMatching a.id b.id top idx)) →
      comparePair step a b self =
        .ok { self with pairChecked := self.pairChecked.insert (a.id, b.id) (a.logVersion, b.logVersion) }) := by
  have hiff : Mismatched a b ↔ ∃ j i : Int, j ≤ i ∧ max a.baseIndex b.baseIndex < j ∧ i ≤ a.lastLogIndex ∧ i ≤ b.lastLogIndex ∧
      (∃ x y, a.entryAt i = .ok x ∧ b.entryAt i = .ok y ∧ x.term = y.term) ∧
      ∃ x y, a.entryAt j = .ok x ∧ b.entryAt j = .ok y ∧ x ≠ y := by
    constructor
    · rintro ⟨j, i, hji, hj, hi, ⟨x, y, hx, hy, hxy⟩, x', y', hx', hy', hne⟩
      exact ⟨j, i, hji, hj.1, by have := hi.2; omega, by have := hi.2; omega, ⟨x, y, hx.2, hy.2, hxy⟩, x', y', hx'.2, hy'.2, hne⟩
    · rintro ⟨j, i, hji, hj, hia, hib, ⟨x, y, hx, hy, hxy⟩, x', y', hx', hy', hne⟩
      exact ⟨j, i, hji, ⟨hj, by omega⟩, ⟨by omega, by omega⟩, ⟨x, y, ⟨by omega, hx⟩, ⟨by omega, hy⟩, hxy⟩,
        x', y', ⟨by omega, hx'⟩, ⟨by omega, hy'⟩, hne⟩
  rw [← hiff]
  rcases mismatch_spec hbase with ⟨hm, hno⟩ | ⟨top, idx, hm, hyes⟩
  · have hok : comparePair step a b self =
        .ok { self with pairChecked := self.pairChecked.insert (a.id, b.id) (a.logVersion, b.logVersion) } := by
      rw [comparePair, hm]
      rfl
    refine ⟨⟨?_, fun h => absurd h hno⟩, fun _ => hok⟩
    rintro ⟨top, idx, hfail⟩
    rw [hok] at hfail
    cases hfail
  · have hfail : comparePair step a b self = self.fail step (.logMatching a.id b.id top idx) := by
      rw [comparePair, hm]
      rfl
    exact ⟨⟨fun _ => hyes, fun _ => ⟨top, idx, hfail⟩⟩, fun h => absurd hfail (h top idx)⟩

/-- A node that has compacted its first entries. -/
def compactedView (id : NodeId) (baseIndex : Int) (log : List Entry) : NodeView where
  id
  role := .follower
  term := 4
  log
  commitIndex := 2
  applied := []
  logVersion := 0
  incarnation := 0
  baseIndex
  baseTerm := 1
  voters := [1, 2]

/-- The terms of these logs decrease, and they agree again above the index at which they differ. -/
theorem comparePair_fails_iff_diverged : ∃ top idx, InvariantChecker.comparePair 9 (compactedView 1 1 [⟨3, "x"⟩, ⟨4, "y"⟩, ⟨2, "z"⟩])
    (compactedView 2 2 [⟨1, "w"⟩, ⟨2, "z"⟩, ⟨4, "v"⟩]) { seed := 0, replayHint := "" } =
      InvariantChecker.fail 9 { seed := 0, replayHint := "" } (.logMatching 1 2 top idx) :=
  (comparePair_fails_iff (compactedView 1 1 [⟨3, "x"⟩, ⟨4, "y"⟩, ⟨2, "z"⟩]) (compactedView 2 2 [⟨1, "w"⟩, ⟨2, "z"⟩, ⟨4, "v"⟩])
    (by decide) 9 { seed := 0, replayHint := "" }).1.2
    ⟨3, 4, by decide, by decide, by decide, by decide, ⟨⟨2, "z"⟩, ⟨2, "z"⟩, by decide, by decide, rfl⟩,
      ⟨4, "y"⟩, ⟨1, "w"⟩, by decide, by decide, by decide⟩

end DeterministicRaft
