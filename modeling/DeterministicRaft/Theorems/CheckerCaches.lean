import DeterministicRaft.Checker
import DeterministicRaft.NodeRuns

/-!
# The checker's caches

The checker and the checker without caches are run side by side. What a cache entry says was seen at some earlier call; a node whose
log version is still the same has the same log, so the comparison that is skipped would pass again.
-/

namespace DeterministicRaft

open Refinement

/-- The part of a node that its log version is about. -/
def NodeView.SameContent (n m : NodeView) : Prop := n.log = m.log ∧ n.baseIndex = m.baseIndex ∧ n.baseTerm = m.baseTerm

/-- The views of a cluster: a node is seen under its own id, and its log, base index and base term differ at a later call only if
its log version is greater. -/
structure Versioned (views : List ClusterView) : Prop where
  own : ∀ v ∈ views, ∀ i ∈ v.ids, (v.node i).id = i
  version : views.Pairwise fun v v' => ∀ i ∈ v.ids, i ∈ v'.ids →
    (v.node i).SameContent (v'.node i) ∨ (v.node i).logVersion < (v'.node i).logVersion

/-! ## What the comparisons depend on -/

namespace NodeView.SameContent

variable {n m a b a' b' : NodeView}

/-- The same content, the other way round. -/
theorem symm (h : n.SameContent m) : m.SameContent n := ⟨h.1.symm, h.2.1.symm, h.2.2.symm⟩

/-- The same content ends at the same index. -/
theorem lastLogIndex (h : n.SameContent m) : n.lastLogIndex = m.lastLogIndex := by
  rw [NodeView.lastLogIndex, NodeView.lastLogIndex, h.1, h.2.1]

/-- The same content has the same entries. -/
theorem entryAt (h : n.SameContent m) (i : Int) : n.entryAt i = m.entryAt i := by
  rw [NodeView.entryAt, NodeView.entryAt, h.1, h.2.1]

/-- The same content has the same terms. -/
theorem termAt (h : n.SameContent m) (i : Int) : n.termAt i = m.termAt i := by
  rw [NodeView.termAt, NodeView.termAt, h.entryAt, h.2.1, h.2.2]

/-- Two logs of the same contents agree at the same index. -/
theorem agreedIndex (ha : a.SameContent a') (hb : b.SameContent b') (l : List Int) :
    InvariantChecker.agreedIndex a b l = InvariantChecker.agreedIndex a' b' l := by
  induction l with
  | nil => rfl
  | cons i l ih => rw [InvariantChecker.agreedIndex, InvariantChecker.agreedIndex, ha.termAt, hb.termAt, ih]

/-- Two logs of the same contents diverge at the same index. -/
theorem divergence (ha : a.SameContent a') (hb : b.SameContent b') (l : List Int) :
    InvariantChecker.divergence a b l = InvariantChecker.divergence a' b' l := by
  induction l with
  | nil => rfl
  | cons i l ih => rw [InvariantChecker.divergence, InvariantChecker.divergence, ha.entryAt, hb.entryAt, ih]

/-- The comparison of two logs is one of their contents. -/
theorem mismatch (ha : a.SameContent a') (hb : b.SameContent b') :
    InvariantChecker.mismatch a b = InvariantChecker.mismatch a' b' := by
  simp only [InvariantChecker.mismatch, ha.agreedIndex hb, ha.divergence hb, ha.lastLogIndex, hb.lastLogIndex, ha.2.1, hb.2.1]

/-- The scan of a leader is one of its content and its term. -/
theorem missing (h : n.SameContent m) (ht : n.term = m.term) (committed : Dict Int (Entry × Int)) (l : List Int) :
    InvariantChecker.missing committed n l = InvariantChecker.missing committed m l := by
  induction l with
  | nil => rfl
  | cons i l ih =>
    rw [InvariantChecker.missing, InvariantChecker.missing, h.lastLogIndex, h.entryAt, ih, h.2.1, ht]

end NodeView.SameContent

namespace InvariantChecker

/-- A log that is compared with itself has not changed. -/
theorem mutated_self (n : NodeView) : mutated n.baseIndex n.log n = .ok false := by
  have hany : ∀ l : List Int, (∀ i ∈ l, ∃ entry, n.entryAt i = .ok entry) →
      l.anyM (fun idx => do
        let old ← pyIndex n.log (idx - n.baseIndex - 1)
        let new ← n.entryAt idx
        return decide (old ≠ new)) = (.ok false : Except PyError Bool) := by
    intro l hl
    induction l with
    | nil => rfl
    | cons i l ih =>
      obtain ⟨entry, he⟩ := hl i List.mem_cons_self
      have he' : pyIndex n.log (i - n.baseIndex - 1) = .ok entry := he
      have hi : (do
          let old ← pyIndex n.log (i - n.baseIndex - 1)
          let new ← n.entryAt i
          return decide (old ≠ new)) = (.ok false : Except PyError Bool) := by
        rw [he', he]
        simp [pure, Except.pure, bind, Except.bind]
      rw [List.anyM, hi]
      exact ih fun j hj => hl j (List.mem_cons_of_mem _ hj)
  unfold mutated
  rw [if_neg (by simp [NodeView.lastLogIndex])]
  refine hany _ fun i hi => ?_
  rw [mem_pyRange] at hi
  obtain ⟨k, hk⟩ : ∃ k : Nat, i - n.baseIndex - 1 = k := ⟨(i - n.baseIndex - 1).toNat, by omega⟩
  have hlt : k < n.log.length := by omega
  exact ⟨n.log[k], pyIndex_ok hk (List.getElem?_eq_getElem hlt)⟩

/-! ## What the caches say -/

/-- Each cache entry is about a view that was seen: a leader's snapshot is its log there, two compared logs matched there, a scanned
leader missed no entry that was committed then. -/
structure CachesValid (past : List ClusterView) (c : InvariantChecker) : Prop where
  snapshot : ∀ i term ver base log, c.leaderSnapshot.lookup i = some (term, ver, base, log) →
    ∃ v ∈ past, i ∈ v.ids ∧ (v.node i).logVersion = ver ∧ (v.node i).baseIndex = base ∧ (v.node i).log = log
  pair : ∀ a b va vb, c.pairChecked.lookup (a, b) = some (va, vb) →
    ∃ v ∈ past, a ∈ v.ids ∧ b ∈ v.ids ∧ (v.node a).logVersion = va ∧ (v.node b).logVersion = vb ∧
      mismatch (v.node a) (v.node b) = .ok none
  scan : ∀ i term ver len, c.completenessChecked.lookup i = some (term, ver, len) →
    ∃ v ∈ past, i ∈ v.ids ∧ (v.node i).term = term ∧ (v.node i).logVersion = ver ∧
      ∃ d : Dict Int (Entry × Int), (∀ k x, d.lookup k = some x → c.committed.lookup k = some x) ∧ d.keys.card = len ∧
        missing d (v.node i) (sortedIndices d) = .ok none

/-- The checker and the one without caches: all but two caches are equal, and the caches are valid. -/
def Beside (past : List ClusterView) (c r : InvariantChecker) : Prop :=
  (∃ p q, r = { c with pairChecked := p, completenessChecked := q }) ∧ CachesValid past c

/-- Caches that are valid stay so as more is seen. -/
theorem CachesValid.mono {past past' : List ClusterView} {c : InvariantChecker} (h : CachesValid past c) (hp : past ⊆ past') :
    CachesValid past' c where
  snapshot i term ver base log hl := by
    obtain ⟨v, hv, hrest⟩ := h.snapshot i term ver base log hl
    exact ⟨v, hp hv, hrest⟩
  pair a b va vb hl := by
    obtain ⟨v, hv, hrest⟩ := h.pair a b va vb hl
    exact ⟨v, hp hv, hrest⟩
  scan i term ver len hl := by
    obtain ⟨v, hv, hrest⟩ := h.scan i term ver len hl
    exact ⟨v, hp hv, hrest⟩

/-- Caches are valid whatever else the checker notes. -/
theorem CachesValid.congr {past : List ClusterView} {c c' : InvariantChecker} (h : CachesValid past c)
    (hs : c'.leaderSnapshot = c.leaderSnapshot) (hp : c'.pairChecked = c.pairChecked)
    (hq : c'.completenessChecked = c.completenessChecked)
    (hc : ∀ k x, c.committed.lookup k = some x → c'.committed.lookup k = some x) : CachesValid past c' where
  snapshot i term ver base log hl := h.snapshot i term ver base log (hs ▸ hl)
  pair a b va vb hl := h.pair a b va vb (hp ▸ hl)
  scan i term ver len hl := by
    obtain ⟨v, hv, hi, ht, hver, d, hd, hrest⟩ := h.scan i term ver len (hq ▸ hl)
    exact ⟨v, hv, hi, ht, hver, d, fun k x hk => hc k x (hd k x hk), hrest⟩

/-- An update of both that leaves the caches alone, and under which what is committed only grows. -/
theorem Beside.update {past : List ClusterView} {c : InvariantChecker} {p : Dict (NodeId × NodeId) (Int × Int)}
    {q : Dict NodeId (Int × Int × Nat)} (hv : CachesValid past c) {c' : InvariantChecker}
    (hs : c'.leaderSnapshot = c.leaderSnapshot) (hp : c'.pairChecked = c.pairChecked)
    (hq : c'.completenessChecked = c.completenessChecked)
    (hc : ∀ k x, c.committed.lookup k = some x → c'.committed.lookup k = some x) :
    Beside past c' { c' with pairChecked := p, completenessChecked := q } :=
  ⟨⟨p, q, rfl⟩, hv.congr hs hp hq hc⟩

/-! ## The checks that have no cache -/

variable {past : List ClusterView} {c r : InvariantChecker} (nodes : ClusterView) (step : Int)

/-- What the two checkers do alike for one item they do alike for many. -/
theorem Beside.foldlM {ι : Type} {f : InvariantChecker → ι → Except CheckError InvariantChecker}
    (hf : ∀ i c r, Beside past c r → Agree (Beside past) (f c i) (f r i)) (l : List ι) (h : Beside past c r) :
    Agree (Beside past) (l.foldlM f c) (l.foldlM f r) := Agree.foldlM (fun i _ => hf i) h

/-- The two checkers forget the same nodes. -/
theorem Beside.handleRestarts (h : Beside past c r) : Beside past (c.handleRestarts nodes) (r.handleRestarts nodes) := by
  unfold InvariantChecker.handleRestarts
  generalize nodes.ids = ids
  induction ids generalizing c r with
  | nil => exact h
  | cons i ids ih =>
    refine ih ?_
    obtain ⟨⟨p, q, rfl⟩, hv⟩ := h
    unfold handleRestart
    simp only
    split
    · exact Beside.update hv rfl rfl rfl fun _ _ hk => hk
    · exact Beside.update hv rfl rfl rfl fun _ _ hk => hk

/-- The two checkers note a leader alike. -/
theorem Beside.checkLeader (h : Beside past c r) (i : NodeId) :
    Agree (Beside past) (c.checkLeader nodes step i) (r.checkLeader nodes step i) := by
  obtain ⟨⟨p, q, rfl⟩, hv⟩ := h
  unfold InvariantChecker.checkLeader
  simp only
  split
  · split
    · exact .ok (Beside.update hv rfl rfl rfl fun _ _ hk => hk)
    · split
      · exact .error _
      · exact .ok (Beside.update hv rfl rfl rfl fun _ _ hk => hk)
  · exact .ok (Beside.update hv rfl rfl rfl fun _ _ hk => hk)

/-- The two checkers record a commit alike. -/
theorem Beside.recordCommit (h : Beside past c r) (n : NodeView) (idx : Int) (entry : Entry) :
    Agree (Beside past) (c.recordCommit step n idx entry) (r.recordCommit step n idx entry) := by
  obtain ⟨⟨p, q, rfl⟩, hv⟩ := h
  unfold InvariantChecker.recordCommit
  simp only
  split
  · rename_i hnone
    refine .ok (Beside.update hv rfl rfl rfl fun k x hk => ?_)
    have hne : k ≠ idx := by
      rintro rfl
      rw [hnone] at hk
      cases hk
    exact (Finmap.lookup_insert_of_ne _ hne).trans hk
  · split
    · exact .error _
    · exact .ok ⟨⟨p, q, rfl⟩, hv⟩

/-- The two checkers look for a majority alike. -/
theorem Beside.checkQuorum (h : Beside past c r) (n : NodeView) (idx : Int) (entry : Entry) :
    Agree (Beside past) (c.checkQuorum nodes step n idx entry) (r.checkQuorum nodes step n idx entry) := by
  obtain ⟨⟨p, q, rfl⟩, hv⟩ := h
  unfold InvariantChecker.checkQuorum
  simp only
  split
  · refine Agree.bind (Agree.self _) fun k _ hk => ?_
    subst hk
    split
    · exact .error _
    · exact .ok ⟨⟨p, q, rfl⟩, hv⟩
  · exact .ok ⟨⟨p, q, rfl⟩, hv⟩

/-- The two checkers observe a commit alike. -/
theorem Beside.observeCommit (h : Beside past c r) (n : NodeView) (idx : Int) :
    Agree (Beside past) (c.observeCommit nodes step n idx) (r.observeCommit nodes step n idx) := by
  unfold InvariantChecker.observeCommit
  refine Agree.bind (Agree.self _) fun entry _ he => ?_
  subst he
  exact Agree.bind (h.recordCommit step n idx entry) fun c' r' h' => h'.checkQuorum nodes step n idx entry

/-- The two checkers observe the commits of a node alike. -/
theorem Beside.observeNode (h : Beside past c r) (i : NodeId) :
    Agree (Beside past) (c.observeNode nodes step i) (r.observeNode nodes step i) := by
  obtain ⟨⟨p, q, rfl⟩, hv⟩ := h
  unfold InvariantChecker.observeNode
  simp only
  split
  · exact .error _
  · refine Agree.bind (Beside.foldlM (fun idx c r hb => hb.observeCommit nodes step (nodes.node i) idx) _
      (Beside.update hv rfl rfl rfl fun _ _ hk => hk)) fun c' r' h' => ?_
    obtain ⟨⟨p', q', rfl⟩, hv'⟩ := h'
    exact .ok (Beside.update hv' rfl rfl rfl fun _ _ hk => hk)

/-- The two checkers observe an applied command alike. -/
theorem Beside.observeApplied (h : Beside past c r) (n : NodeView) (logical : Int) :
    Agree (Beside past) (c.observeApplied step n logical) (r.observeApplied step n logical) := by
  obtain ⟨⟨p, q, rfl⟩, hv⟩ := h
  unfold InvariantChecker.observeApplied
  refine Agree.bind (Agree.self _) fun cmd _ hc => ?_
  subst hc
  simp only
  split
  · exact .ok (Beside.update hv rfl rfl rfl fun _ _ hk => hk)
  · split
    · exact .error _
    · exact .ok ⟨⟨p, q, rfl⟩, hv⟩

/-- The two checkers observe the commands of a node alike. -/
theorem Beside.checkApplied (h : Beside past c r) (i : NodeId) :
    Agree (Beside past) (c.checkApplied nodes step i) (r.checkApplied nodes step i) := by
  obtain ⟨⟨p, q, rfl⟩, hv⟩ := h
  unfold InvariantChecker.checkApplied
  simp only
  refine Agree.bind (Beside.foldlM (fun idx c r hb => hb.observeApplied step (nodes.node i) idx) _
    (Beside.update hv rfl rfl rfl fun _ _ hk => hk)) fun c' r' h' => ?_
  obtain ⟨⟨p', q', rfl⟩, hv'⟩ := h'
  exact .ok (Beside.update hv' rfl rfl rfl fun _ _ hk => hk)

/-! ## The checks that have one -/

/-- The view that is checked, the last of those seen. -/
structure Present (past : List ClusterView) (nodes : ClusterView) : Prop where
  mem : nodes ∈ past
  own : ∀ i ∈ nodes.ids, (nodes.node i).id = i
  same : ∀ v ∈ past, ∀ i ∈ v.ids, i ∈ nodes.ids →
    (v.node i).SameContent (nodes.node i) ∨ (v.node i).logVersion < (nodes.node i).logVersion

/-- A node of the same version is the same. -/
theorem Present.sameContent {nodes v : ClusterView} {i : NodeId} (h : Present past nodes) (hv : v ∈ past) (hi : i ∈ v.ids)
    (hn : i ∈ nodes.ids) (hver : (v.node i).logVersion = (nodes.node i).logVersion) : (v.node i).SameContent (nodes.node i) :=
  (h.same v hv i hi hn).resolve_right (by omega)

variable {nodes}

/-- A new snapshot of a leader. -/
theorem CachesValid.snapshotted (hv : CachesValid past c) (hp : Present past nodes) {i : NodeId} (hi : i ∈ nodes.ids) :
    let n := nodes.node i
    CachesValid past { c with leaderSnapshot := c.leaderSnapshot.insert i (n.term, n.logVersion, n.baseIndex, n.log) } where
  snapshot j term ver base log hl := by
    by_cases hj : j = i
    · subst hj
      rw [Finmap.lookup_insert, Option.some.injEq, Prod.mk.injEq, Prod.mk.injEq, Prod.mk.injEq] at hl
      exact ⟨nodes, hp.mem, hi, hl.2.1, hl.2.2.1, hl.2.2.2⟩
    · rw [Finmap.lookup_insert_of_ne _ hj] at hl
      exact hv.snapshot j term ver base log hl
  pair := hv.pair
  scan := hv.scan

/-- The comparison of a leader with its snapshot, in both. -/
theorem Beside.compareLeader (hb : Beside past c r) (hp : Present past nodes) {i : NodeId} (hi : i ∈ nodes.ids) (base : Int)
    (log : List Entry) :
    Agree (Beside past) (c.compareLeader step (nodes.node i) i base log) (r.compareLeader step (nodes.node i) i base log) := by
  obtain ⟨⟨p, q, rfl⟩, hv⟩ := hb
  unfold InvariantChecker.compareLeader
  refine Agree.bind (Agree.self _) fun b _ he => ?_
  subst he
  split
  · exact .error _
  · exact .ok ⟨⟨p, q, rfl⟩, hv.snapshotted hp hi⟩

/-- The two checkers compare a node's log with its snapshot alike. Where the version is that of the snapshot the cached comparison is one
that passes. -/
theorem Beside.checkAppendOnly (hb : Beside past c r) (hp : Present past nodes) {i : NodeId} (hi : i ∈ nodes.ids) :
    Agree (Beside past) (c.checkAppendOnly nodes step i) (r.checkAppendOnlyAfresh nodes step i) := by
  have hcompare := fun base log => hb.compareLeader step hp hi base log
  obtain ⟨⟨p, q, rfl⟩, hv⟩ := hb
  unfold InvariantChecker.checkAppendOnly checkAppendOnlyAfresh
  simp only
  split
  · refine .ok ⟨⟨p, q, rfl⟩, ?_, hv.pair, hv.scan⟩
    intro j term ver base log hl
    by_cases hj : j = i
    · subst hj
      rw [Finmap.lookup_erase] at hl
      cases hl
    · rw [Finmap.lookup_erase_ne hj] at hl
      exact hv.snapshot j term ver base log hl
  · split
    · exact .ok ⟨⟨p, q, rfl⟩, hv.snapshotted hp hi⟩
    · rename_i term ver base log hsnap
      split
      · exact .ok ⟨⟨p, q, rfl⟩, hv.snapshotted hp hi⟩
      · rename_i hterm
        split
        · rename_i hver
          obtain ⟨v, hvp, hvi, hv1, hv2, hv3⟩ := hv.snapshot i term ver base log hsnap
          have hsame := hp.sameContent hvp hvi hi (hv1.trans hver)
          have hbase : base = (nodes.node i).baseIndex := hv2.symm.trans hsame.2.1
          have hlog : log = (nodes.node i).log := hv3.symm.trans hsame.1
          have hkept : c.leaderSnapshot.insert i
              ((nodes.node i).term, (nodes.node i).logVersion, (nodes.node i).baseIndex, (nodes.node i).log) = c.leaderSnapshot := by
            refine Finmap.ext_lookup fun j => ?_
            by_cases hj : j = i
            · subst hj
              rw [Finmap.lookup_insert, hsnap, not_not.1 hterm, hver, hbase, hlog]
            · rw [Finmap.lookup_insert_of_ne _ hj]
          unfold InvariantChecker.compareLeader
          rw [hbase, hlog, mutated_self]
          exact .ok ⟨⟨p, q, by rw [hkept]⟩, hv⟩
        · exact hcompare base log

/-- The two checkers compare two logs alike. Where the cache skips a pair, an earlier comparison of the same logs has passed. -/
theorem Beside.checkPair (hb : Beside past c r) (hp : Present past nodes) {ids : NodeId × NodeId} (h1 : ids.1 ∈ nodes.ids)
    (h2 : ids.2 ∈ nodes.ids) : Agree (Beside past) (c.checkPair nodes step ids) (r.checkPairAfresh nodes step ids) := by
  obtain ⟨⟨p, q, rfl⟩, hv⟩ := hb
  unfold InvariantChecker.checkPair checkPairAfresh InvariantChecker.comparePair
  simp only [hp.own _ h1, hp.own _ h2]
  split
  · rename_i hhit
    rw [hp.own _ h1, hp.own _ h2] at hhit
    obtain ⟨v, hvp, hv1, hv2, hver1, hver2, hok⟩ := hv.pair ids.1 ids.2 _ _ hhit
    have hs1 := hp.sameContent hvp hv1 h1 hver1
    have hs2 := hp.sameContent hvp hv2 h2 hver2
    rw [hs1.mismatch hs2] at hok
    rw [hok]
    exact .ok ⟨⟨_, q, rfl⟩, hv⟩
  · cases hm : mismatch (nodes.node ids.1) (nodes.node ids.2) with
    | error e => exact .error _
    | ok found =>
      cases found with
      | some found => exact .error _
      | none =>
        refine .ok ⟨⟨_, q, rfl⟩, hv.snapshot, ?_, hv.scan⟩
        intro a b va vb hl
        by_cases hab : (a, b) = ids
        · subst hab
          rw [Finmap.lookup_insert, Option.some.injEq, Prod.mk.injEq] at hl
          exact ⟨nodes, hp.mem, h1, h2, hl.1, hl.2, hm⟩
        · rw [Finmap.lookup_insert_of_ne _ hab] at hl
          exact hv.pair a b va vb hl

/-- Two dictionaries of which the second holds the first, and is no larger, are equal. -/
theorem eq_of_extends {κ α : Type} [DecidableEq κ] {d d' : Dict κ α} (h : ∀ k x, d.lookup k = some x → d'.lookup k = some x)
    (hc : d.keys.card = d'.keys.card) : d = d' := by
  have hsub : d.keys ⊆ d'.keys := by
    intro k hk
    obtain ⟨x, hx⟩ := Option.isSome_iff_exists.1 (Finmap.lookup_isSome.2 (Finmap.mem_keys.1 hk))
    exact Finmap.mem_keys.2 (Finmap.mem_of_lookup_eq_some (h k x hx))
  have hkeys := Finset.eq_of_subset_of_card_le hsub hc.ge
  refine Finmap.ext_lookup fun k => ?_
  cases hk : d.lookup k with
  | some x => exact (h k x hk).symm
  | none =>
    have hnot : k ∉ d'.keys := by
      rw [← hkeys, Finmap.mem_keys]
      exact Finmap.lookup_eq_none.1 hk
    rw [Finmap.mem_keys] at hnot
    exact (Finmap.lookup_eq_none.2 hnot).symm

/-- The two checkers scan a leader's log alike. Where the cache skips the scan, an earlier one of the same leader has passed and nothing
was committed since. -/
theorem Beside.checkCompleteness (hb : Beside past c r) (hp : Present past nodes) {i : NodeId} (hi : i ∈ nodes.ids) :
    Agree (Beside past) (c.checkCompleteness nodes step i) (r.checkCompletenessAfresh nodes step i) := by
  obtain ⟨⟨p, q, rfl⟩, hv⟩ := hb
  unfold InvariantChecker.checkCompleteness checkCompletenessAfresh scanLeader
  simp only
  split
  · refine .ok ⟨⟨p, _, rfl⟩, hv.snapshot, hv.pair, ?_⟩
    intro j term ver len hl
    by_cases hj : j = i
    · subst hj
      rw [Finmap.lookup_erase] at hl
      cases hl
    · rw [Finmap.lookup_erase_ne hj] at hl
      exact hv.scan j term ver len hl
  · split
    · rename_i hhit
      obtain ⟨v, hvp, hvi, hterm, hver, d, hd, hcard, hok⟩ := hv.scan _ _ _ _ hhit
      have hsame := hp.sameContent hvp hvi hi hver
      rw [eq_of_extends hd hcard, hsame.missing hterm] at hok
      rw [hok]
      exact .ok ⟨⟨p, _, rfl⟩, hv⟩
    · cases hm : missing c.committed (nodes.node i) (sortedIndices c.committed) with
      | error e => exact .error _
      | ok found =>
        cases found with
        | some found => exact .error _
        | none =>
          refine .ok ⟨⟨p, _, rfl⟩, hv.snapshot, hv.pair, ?_⟩
          intro j term ver len hl
          by_cases hj : j = i
          · subst hj
            rw [Finmap.lookup_insert, Option.some.injEq, Prod.mk.injEq, Prod.mk.injEq] at hl
            exact ⟨nodes, hp.mem, hi, hl.1, hl.2.1, c.committed, fun _ _ hk => hk, hl.2.2, hm⟩
          · rw [Finmap.lookup_insert_of_ne _ hj] at hl
            exact hv.scan j term ver len hl

/-! ## A whole check -/

/-- The two of a pair are of the list. -/
theorem mem_of_mem_pairs {α : Type} {l : List α} {x y : α} (h : (x, y) ∈ pairs l) : x ∈ l ∧ y ∈ l := by
  induction l with
  | nil => cases h
  | cons z l ih =>
    rcases List.mem_append.1 h with h | h
    · obtain ⟨w, hw, he⟩ := List.mem_map.1 h
      cases he
      exact ⟨List.mem_cons_self, List.mem_cons_of_mem _ hw⟩
    · exact ⟨List.mem_cons_of_mem _ (ih h).1, List.mem_cons_of_mem _ (ih h).2⟩

/-- One call of the checker and of the one without caches. -/
theorem Beside.check (hb : Beside past c r) (hp : Present past nodes) (count : Bool) :
    Agree (Beside past) (c.check nodes step count) (r.checkAfresh nodes step count) := by
  have hcount : Beside past (if count then { c with checksRun := c.checksRun + 1 } else c)
      (if count then { r with checksRun := r.checksRun + 1 } else r) := by
    obtain ⟨⟨p, q, rfl⟩, hv⟩ := hb
    split
    · exact Beside.update hv rfl rfl rfl fun _ _ hk => hk
    · exact ⟨⟨p, q, rfl⟩, hv⟩
  unfold InvariantChecker.check checkAfresh checkElectionSafety checkLeaderAppendOnly checkLogMatching observeCommits
    checkLeaderCompleteness checkStateMachineSafety
  refine Agree.bind (Beside.foldlM (fun i c r h => h.checkLeader nodes step i) _ (hcount.handleRestarts nodes)) fun c r h => ?_
  refine Agree.bind (Agree.foldlM (fun i hi c r h => h.checkAppendOnly step hp hi) h) fun c r h => ?_
  refine Agree.bind (Agree.foldlM (fun ids hi c r h =>
    h.checkPair step hp (mem_of_mem_pairs hi).1 (mem_of_mem_pairs hi).2) h) fun c r h => ?_
  refine Agree.bind (Beside.foldlM (fun i c r h => h.observeNode nodes step i) _ h) fun c r h => ?_
  refine Agree.bind (Agree.foldlM (fun i hi c r h => h.checkCompleteness step hp hi) h) fun c r h => ?_
  exact Beside.foldlM (fun i c r h => h.checkApplied nodes step i) _ h

end InvariantChecker

open InvariantChecker

/-- From states side by side the two checkers fail at the same call, in the same way. -/
theorem firstFailure_eq {past : List ClusterView} {calls : List CheckCall} {c r : InvariantChecker} (hb : Beside past c r)
    (hv : Versioned (past ++ calls.map CheckCall.nodes)) : firstFailure check c calls = firstFailure checkAfresh r calls := by
  induction calls generalizing past c r with
  | nil => rfl
  | cons call calls ih =>
    have hpresent : Present (past ++ [call.nodes]) call.nodes := by
      refine ⟨by simp, fun i hi => hv.own call.nodes (by simp) i hi, fun v hvp i hvi hi => ?_⟩
      rcases List.mem_append.1 hvp with hvp | hvp
      · exact (List.pairwise_append.1 hv.version).2.2 v hvp call.nodes (by simp) i hvi hi
      · rw [List.mem_singleton.1 hvp]
        exact Or.inl ⟨rfl, rfl, rfl⟩
    have hbeside : Beside (past ++ [call.nodes]) c r := ⟨hb.1, hb.2.mono (List.subset_append_left _ _)⟩
    have hcheck := hbeside.check call.step hpresent call.count
    rw [firstFailure, firstFailure]
    generalize check call.nodes call.step call.count c = x at hcheck ⊢
    generalize checkAfresh call.nodes call.step call.count r = y at hcheck ⊢
    cases hcheck with
    | error e => rfl
    | ok hb' => simp only [ih hb' (by simpa using hv)]

/-- A checker with empty books next to another one. -/
theorem beside_new (seed : Int) (replayHint : String) : Beside [] { seed, replayHint } { seed, replayHint } :=
  ⟨⟨_, _, rfl⟩, ⟨nofun, nofun, nofun⟩⟩

/-! ## The log versions of a node -/

/-- A node keeps the content of its log and its log version, or its log version grows. -/
def RaftNode.Bumps (self after : RaftNode) : Prop :=
  (self.view.SameContent after.view ∧ after.logVersion = self.logVersion) ∨ self.logVersion < after.logVersion

namespace RaftNode.Bumps

variable {self mid after : RaftNode}

/-- A node that does nothing bumps nothing. -/
theorem refl (self : RaftNode) : self.Bumps self := Or.inl ⟨⟨rfl, rfl, rfl⟩, rfl⟩

/-- One part of an operation after the other. -/
theorem trans (h : self.Bumps mid) (h' : mid.Bumps after) : self.Bumps after := by
  rcases h with ⟨hc, hv⟩ | hv
  · rcases h' with ⟨hc', hv'⟩ | hv'
    · exact Or.inl ⟨⟨hc.1.trans hc'.1, hc.2.1.trans hc'.2.1, hc.2.2.trans hc'.2.2⟩, hv'.trans hv⟩
    · exact Or.inr (hv ▸ hv')
  · rcases h' with ⟨-, hv'⟩ | hv'
    · exact Or.inr (hv' ▸ hv)
    · exact Or.inr (hv.trans hv')

/-- The node changes elsewhere. -/
theorem of_eq (hl : after.log = self.log) (hb : after.baseIndex = self.baseIndex) (ht : after.baseTerm = self.baseTerm)
    (hv : after.logVersion = self.logVersion) : self.Bumps after := Or.inl ⟨⟨hl.symm, hb.symm, ht.symm⟩, hv⟩

/-- A version that is one higher. -/
theorem of_succ (hv : after.logVersion = self.logVersion + 1) : self.Bumps after := Or.inr (by omega)

/-- Applying entries leaves the log alone. -/
theorem applied (self : RaftNode) (entries : List Entry) : self.Bumps (entries.foldl RaftNode.applyEntry self) := by
  induction entries generalizing self with
  | nil => exact refl self
  | cons entry entries ih => exact (of_eq rfl rfl rfl rfl : self.Bumps (self.applyEntry entry)).trans (ih _)

/-- A crash leaves the log alone. -/
theorem pause (self : RaftNode) : self.Bumps self.pause := by
  unfold RaftNode.pause RaftNode.resetVolatile RaftNode.rebuildConfig RaftNode.adoptConfig
  simp only
  cases self.snapshot <;> exact of_eq rfl rfl rfl rfl

/-- Every move that changes the log, the base index or the base term counts the log version up. -/
theorem move {I : Inputs} (h : Move I self after) : self.Bumps after := by
  cases h with
  | call e => exact of_eq rfl rfl rfl rfl
  | arm | armHeartbeat => exact of_eq rfl rfl rfl rfl
  | stepDown term =>
    rw [becomeFollower_eq]
    exact of_eq rfl rfl rfl rfl
  | campaign | countVote | lead | vote | follow | keepBooks | regress | start | resume => exact of_eq rfl rfl rfl rfl
  | propose command =>
    refine of_succ ?_
    unfold RaftNode.proposed
    simp only
    split <;> rfl
  | reconfigure => exact of_succ rfl
  | truncate index =>
    refine of_succ ?_
    unfold RaftNode.truncateFrom
    simp only
    split <;> rfl
  | extend index entry =>
    refine of_succ ?_
    unfold RaftNode.appendReplicated
    simp only
    split <;> rfl
  | commit index entries =>
    exact (of_eq rfl rfl rfl rfl : self.Bumps ({ self with commitIndex := index }.record (.commit index))).trans
      (applied _ entries)
  | compact | install => exact of_succ rfl
  | pause => exact pause self

/-- Moves that change the log make its version higher. -/
theorem moved {I : Inputs} (h : Moved I self after) : self.Bumps after := by
  induction h with
  | refl => exact refl self
  | tail _ hm ih => exact ih.trans (move hm)

end RaftNode.Bumps

/-- The caches never change a verdict: while a node's log, base index and base term change only with a greater log version, the
checker raises at the same call and the same as one that redoes every comparison; and every operation of a node that changes them
makes its log version greater. -/
theorem check_caches_transparent (seed : Int) (replayHint : String) (calls : List CheckCall)
    (hv : Versioned (calls.map CheckCall.nodes)) :
    firstFailure check { seed, replayHint } calls = firstFailure checkAfresh { seed, replayHint } calls ∧
    ∀ (self after : RaftNode) (op : NodeOp), self.perform op = .ok after →
      (self.view.SameContent after.view ∧ after.logVersion = self.logVersion) ∨ self.logVersion < after.logVersion :=
  ⟨firstFailure_eq (beside_new seed replayHint) (by simpa using hv), fun self after op hop =>
    RaftNode.Bumps.moved (perform_makes ⟨trivial, trivial, trivial⟩ self op (op.admissible_any self) after hop)⟩

/-- A node that leads in term 1 with the given log. -/
def leadingView (logVersion : Int) (log : List Entry) (id : NodeId) : NodeView :=
  { id, role := if id = 1 then .leader else .follower, term := 1, log, commitIndex := 0, applied := [], logVersion,
    incarnation := 0, baseIndex := 0, baseTerm := 0, voters := [1, 2] }

/-- A leader that has cut its log between the second call and the third. -/
def cutCalls : List CheckCall :=
  [⟨⟨[1, 2], leadingView 0 []⟩, 1, true⟩, ⟨⟨[1, 2], leadingView 1 [⟨1, "a"⟩]⟩, 2, true⟩, ⟨⟨[1, 2], leadingView 2 []⟩, 3, true⟩]

/-- Both checkers report the cut at the third call. -/
theorem check_caches_transparent_cutCalls :
    (firstFailure check { seed := 7, replayHint := "" } cutCalls =
        firstFailure checkAfresh { seed := 7, replayHint := "" } cutCalls ∧
      firstFailure check { seed := 7, replayHint := "" } cutCalls =
        some (2, .violation { detail := .leaderAppendOnly 1 1 1 0, seed := 7, step := 3, replay := "" })) ∧
    ∀ (self after : RaftNode) (op : NodeOp), self.perform op = .ok after →
      (self.view.SameContent after.view ∧ after.logVersion = self.logVersion) ∨ self.logVersion < after.logVersion := by
  have hv : Versioned (cutCalls.map CheckCall.nodes) := by
    refine ⟨?_, ?_⟩
    · intro v hv i _
      simp only [cutCalls, List.map_cons, List.map_nil, List.mem_cons, List.not_mem_nil, or_false] at hv
      rcases hv with rfl | rfl | rfl <;> rfl
    · simp [cutCalls, leadingView]
  have h := check_caches_transparent 7 "" cutCalls hv
  exact ⟨⟨h.1, by decide +kernel⟩, h.2⟩

end DeterministicRaft
