import DeterministicRaft.Books
import DeterministicRaft.Simulation
import DeterministicRaft.Theorems.CheckerCaches
import DeterministicRaft.Theorems.LogMatching

/-!
# What the checker writes down is true

A check sees of every node its part of a protocol state: its log from some committed place on, and the commands it has applied from
there on. `Truthful` says that the books of the checker agree with the history of that state. Then no check fails, and the books
agree with the history afterwards.
-/

namespace DeterministicRaft

open Consensus Refinement

variable {net : Network} {a a' : State NodeId Entry} {n i : NodeId} {v : NodeView} {self : RaftNode} {tr : Trace}

/-! ## Committed places -/

/-- The entry stands at the place in every log that was committed so far in a term up to `t`. -/
def CommittedAt (a : State NodeId Entry) (t : Int) (j : ℕ) (e : Entry) : Prop := ∃ P, a.Committed t P ∧ P[j]? = some e

namespace CommittedAt

variable {t u : Int} {j : ℕ} {e e' : Entry}

/-- What was committed at a place stays committed there. -/
theorem grow (x : a.Extends a') (h : CommittedAt a t j e) : CommittedAt a' t j e := by
  obtain ⟨P, hP, he⟩ := h
  exact ⟨P, x.known hP, he⟩

/-- One place has one entry. -/
theorem unique (hI : Inv net.scheme a) (h : CommittedAt a t j e) (h' : CommittedAt a u j e') : e = e' := by
  obtain ⟨P, hP, he⟩ := h
  obtain ⟨Q, hQ, he'⟩ := h'
  exact Simulates.known_agree hI hP hQ he he'

/-- What a node knows to be committed. -/
theorem of_log (hI : Inv net.scheme a) (hj : j < a.commit n) (he : (a.log n)[j]? = some e) : CommittedAt a (a.term n) j e := by
  refine ⟨_, hI.commit_known n, ?_⟩
  rwa [List.getElem?_take_of_lt hj]

/-- The leader of a later term has it. -/
theorem led (hI : Inv net.scheme a) (h : CommittedAt a t j e) (hu : a.Led u) (htu : t ≤ u) : (a.llog u)[j]? = some e := by
  obtain ⟨P, hP, he⟩ := h
  exact getElem?_extends (hI.known_prefix_llog hP hu htu) he

end CommittedAt

/-! ## A node as the checker sees it -/

/-- The view is of node `n` of the protocol state. -/
structure NodeView.Portrays (net : Network) (a : State NodeId Entry) (n : NodeId) (v : NodeView) : Prop where
  id : v.id = n
  role : v.role.abs = a.role n
  term : v.term = a.term n
  voters : v.voters = net.scheme.cfg (a.log n)
  commitIndex : v.commitIndex = a.commit n
  kept : ∃ b : ℕ, v.baseIndex = b ∧ b ≤ a.commit n ∧ v.log = (a.log n).drop b ∧
    v.applied = (((a.log n).take (a.commit n)).drop b).map (·.command)

/-- A node that stands for its part is seen as its part. -/
theorem Represents.portrays (h : Represents net a tr n self) : self.view.Portrays net a n := by
  obtain ⟨b, hb, hbn, -⟩ := h.stored.exists_base
  have hle := h.base_le
  rw [hb] at hle
  refine ⟨h.id, h.role, h.term, h.stored.voters, h.commitIndex, b, hb, by exact_mod_cast hle, ?_, ?_⟩
  · rw [← hbn]
    exact h.stored.live
  · rw [← hbn]
    exact h.applied

namespace NodeView.Portrays

/-- The base is an index. -/
theorem base_nonneg (h : v.Portrays net a n) : 0 ≤ v.baseIndex := by
  obtain ⟨b, hb, -⟩ := h.kept
  omega

/-- What is compacted is committed. -/
theorem base_le (h : v.Portrays net a n) : v.baseIndex ≤ v.commitIndex := by
  obtain ⟨b, hb, hle, -⟩ := h.kept
  rw [h.commitIndex, hb]
  exact_mod_cast hle

/-- The view ends where the protocol's log does. -/
theorem lastLogIndex (h : v.Portrays net a n) (hI : Inv net.scheme a) : v.lastLogIndex = (a.log n).length := by
  obtain ⟨b, hb, hle, hlog, -⟩ := h.kept
  have := hI.commit_le n
  rw [NodeView.lastLogIndex, hb, hlog, List.length_drop]
  omega

/-- The entries above the base can be read. -/
theorem entryAt (h : v.Portrays net a n) {j : ℕ} {e : Entry} (hj : v.baseIndex ≤ j) (he : (a.log n)[j]? = some e) :
    v.entryAt (j + 1) = .ok e := by
  obtain ⟨b, hb, -, hlog, -⟩ := h.kept
  refine pyIndex_ok (n := j - b) (by omega) ?_
  rw [hlog, List.getElem?_drop]
  rwa [Nat.add_sub_cancel' (by omega)]

/-- What is read above the base is the entry of the whole log. -/
theorem of_live (h : v.Portrays net a n) (hI : Inv net.scheme a) {idx : Int} {e : Entry} (hl : v.Live idx e)
    (hle : idx ≤ v.lastLogIndex) : ∃ j : ℕ, idx = j + 1 ∧ (a.log n)[j]? = some e := by
  rw [h.lastLogIndex hI] at hle
  have hbase := hl.1
  have h0 := h.base_nonneg
  obtain ⟨j, hj⟩ : ∃ j : ℕ, idx = j + 1 := ⟨(idx - 1).toNat, by omega⟩
  obtain ⟨e', he'⟩ : ∃ e', (a.log n)[j]? = some e' := ⟨_, List.getElem?_eq_getElem (by omega)⟩
  have hread := h.entryAt (by omega) he'
  rw [← hj, hl.2] at hread
  cases hread
  exact ⟨j, hj, he'⟩

/-- The applied commands above the base can be read. -/
theorem appliedAt (h : v.Portrays net a n) {j : ℕ} {e : Entry} (hj : v.baseIndex ≤ j) (hc : j < a.commit n)
    (he : (a.log n)[j]? = some e) : pyIndex v.applied (j + 1 - v.baseIndex - 1) = .ok e.command := by
  obtain ⟨b, hb, -, -, happ⟩ := h.kept
  refine pyIndex_ok (n := j - b) (by omega) ?_
  rw [happ, List.getElem?_map, List.getElem?_drop, Nat.add_sub_cancel' (by omega), List.getElem?_take_of_lt hc, he]
  rfl

/-- The node has applied what it has committed. -/
theorem count (h : v.Portrays net a n) (hI : Inv net.scheme a) : v.baseIndex + v.applied.length = v.commitIndex := by
  obtain ⟨b, hb, hle, -, happ⟩ := h.kept
  have := hI.commit_le n
  rw [h.commitIndex, hb, happ, List.length_map, List.length_drop, List.length_take]
  omega

/-- A node that leads is the leader of its term, and its log is what the leader has built. -/
theorem leads (h : v.Portrays net a n) (hI : Inv net.scheme a) (hr : v.role = .leader) :
    a.leader v.term = some n ∧ a.log n = a.llog v.term := by
  have habs : a.role n = .leader := by
    rw [← h.role, hr]
    rfl
  rw [h.term]
  exact hI.role_leader habs

/-- A place that the node knows to be committed. -/
theorem committedAt (h : v.Portrays net a n) (hI : Inv net.scheme a) {j : ℕ} {e : Entry} (hj : (j : Int) + 1 ≤ v.commitIndex)
    (he : (a.log n)[j]? = some e) : CommittedAt a v.term j e := by
  rw [h.commitIndex] at hj
  rw [h.term]
  exact .of_log hI (by omega) he

/-- The voters are nodes of the cluster. -/
theorem legal (h : v.Portrays net a n) (hI : Inv net.scheme a) : net.Legal v.voters := by
  rw [h.voters]
  exact Network.legal_cfg hI (hI.log_wf n)

end NodeView.Portrays

/-! ## The books -/

/-- What is looked up after an insertion is the value inserted, or it was there before. -/
theorem Dict.lookup_insert_cases {κ α : Type} [DecidableEq κ] {d : Dict κ α} {k k' : κ} {x y : α}
    (h : (d.insert k x).lookup k' = some y) : (k' = k ∧ y = x) ∨ d.lookup k' = some y := by
  by_cases hk : k' = k
  · subst hk
    rw [Finmap.lookup_insert, Option.some.injEq] at h
    exact Or.inl ⟨rfl, h.symm⟩
  · rw [Finmap.lookup_insert_of_ne _ hk] at h
    exact Or.inr h

/-- A search that no item ends finds nothing. -/
theorem anyM_false {ι ε : Type} {f : ι → Except ε Bool} {l : List ι} (h : ∀ i ∈ l, f i = .ok false) : l.anyM f = .ok false := by
  induction l with
  | nil => rfl
  | cons i l ih =>
    rw [List.anyM, h i List.mem_cons_self]
    exact ih fun j hj => h j (List.mem_cons_of_mem _ hj)

namespace InvariantChecker

variable {c : InvariantChecker} {nodes : ClusterView} {step : Int}

/-- The books agree with the history: who led a term, what a leader's log was, what was committed and what was applied. -/
structure Truthful (a : State NodeId Entry) (c : InvariantChecker) : Prop where
  leaders : ∀ t i, c.leadersByTerm.lookup t = some i → a.leader t = some i
  snapshots : ∀ i t ver base log, c.leaderSnapshot.lookup i = some (t, ver, base, log) → a.leader t = some i ∧
    ∃ (L : List Entry) (b : ℕ), L <+: a.llog t ∧ base = b ∧ b ≤ L.length ∧ log = L.drop b
  commits : ∀ idx e t, c.committed.lookup idx = some (e, t) → ∃ j : ℕ, idx = j + 1 ∧ CommittedAt a t j e
  applies : ∀ idx cmd, c.appliedAt.lookup idx = some cmd →
    ∃ (j : ℕ) (t : Int) (e : Entry), idx = j + 1 ∧ CommittedAt a t j e ∧ e.command = cmd

/-- What is true of the history stays true as it grows. -/
theorem Truthful.grow (x : a.Extends a') (h : c.Truthful a) : c.Truthful a' := by
  refine ⟨fun t i hi => x.leader (h.leaders t i hi), fun i t ver base log hs => ?_, fun idx e t he => ?_, fun idx cmd hc => ?_⟩
  · obtain ⟨hl, L, b, hL, hrest⟩ := h.snapshots i t ver base log hs
    exact ⟨x.leader hl, L, b, hL.trans (x.llog ⟨i, hl⟩), hrest⟩
  · obtain ⟨j, hj, hc⟩ := h.commits idx e t he
    exact ⟨j, hj, hc.grow x⟩
  · obtain ⟨j, t, e, hj, he, hcmd⟩ := h.applies idx cmd hc
    exact ⟨j, t, e, hj, he.grow x, hcmd⟩

/-- The marks at which a check goes on, and the number of checks. -/
def marks (c : InvariantChecker) : Dict NodeId Int × Dict NodeId Int × Int × Nat :=
  (c.incarnation, c.prevCommit, c.maxCommit, c.checksRun)

/-! ## Leaders -/

/-- A leader is the only one of its term. -/
theorem checkLeader_truthful (hI : Inv net.scheme a) (h : c.Truthful a) (hp : (nodes.node i).Portrays net a i) :
    Returns (c.checkLeader nodes step i) fun c' => c'.Truthful a ∧ c'.marks = c.marks := by
  unfold checkLeader
  simp only
  split
  · rename_i hr
    obtain ⟨hl, -⟩ := hp.leads hI hr
    split
    · refine Returns.pure ⟨{ h with leaders := fun t j hj => ?_ }, rfl⟩
      rcases Dict.lookup_insert_cases hj with ⟨rfl, rfl⟩ | hj
      · rw [hp.id]
        exact hl
      · exact h.leaders t j hj
    · rename_i prev hprev
      have hsame : prev = (nodes.node i).id := by
        rw [hp.id]
        exact Option.some.inj ((h.leaders _ _ hprev).symm.trans hl)
      rw [if_neg (not_not.2 hsame)]
      exact Returns.pure ⟨h, rfl⟩
  · exact Returns.pure ⟨h, rfl⟩

/-- A leader's log has not changed where an older log of its term ends. -/
theorem mutated_false (hI : Inv net.scheme a) (hp : v.Portrays net a n) (hr : v.role = .leader) {L : List Entry} {b : ℕ}
    (hL : L <+: a.llog v.term) (hb : b ≤ L.length) : mutated b (L.drop b) v = .ok false := by
  obtain ⟨-, hlog⟩ := hp.leads hI hr
  rw [← hlog] at hL
  have hlen := hL.length_le
  have htop : (b : Int) + (L.drop b).length = L.length := by
    rw [List.length_drop]
    omega
  unfold mutated
  simp only [htop]
  rw [if_neg (by rw [hp.lastLogIndex hI]; omega)]
  refine anyM_false fun idx hidx => ?_
  rw [mem_pyRange] at hidx
  have h0 := hp.base_nonneg
  obtain ⟨j, rfl⟩ : ∃ j : ℕ, idx = j + 1 := ⟨(idx - 1).toNat, by omega⟩
  obtain ⟨e, he⟩ : ∃ e, L[j]? = some e := ⟨_, List.getElem?_eq_getElem (by omega)⟩
  have hold : pyIndex (L.drop b) ((j : Int) + 1 - b - 1) = .ok e := by
    refine pyIndex_ok (n := j - b) (by omega) ?_
    rw [List.getElem?_drop]
    rwa [Nat.add_sub_cancel' (by omega)]
  rw [hold, hp.entryAt (by omega) (getElem?_extends hL he)]
  simp [bind, Except.bind, pure, Except.pure]

/-- The snapshot that is taken of a leader. -/
theorem Truthful.snapshot (h : c.Truthful a) (hI : Inv net.scheme a) (hp : v.Portrays net a i) (hr : v.role = .leader) :
    Truthful a { c with leaderSnapshot := c.leaderSnapshot.insert i (v.term, v.logVersion, v.baseIndex, v.log) } := by
  obtain ⟨hl, hlog⟩ := hp.leads hI hr
  obtain ⟨b, hb, hle, hlive, -⟩ := hp.kept
  refine { h with snapshots := fun j t ver base log hs => ?_ }
  rcases Dict.lookup_insert_cases hs with ⟨rfl, heq⟩ | hs
  · cases heq
    exact ⟨hl, a.log j, b, hlog ▸ List.prefix_rfl, hb, hle.trans (hI.commit_le j), hlive⟩
  · exact h.snapshots j t ver base log hs

/-- A leader's log goes on from its snapshot. -/
theorem checkAppendOnly_truthful (hI : Inv net.scheme a) (h : c.Truthful a) (hp : (nodes.node i).Portrays net a i) :
    Returns (c.checkAppendOnly nodes step i) fun c' => c'.Truthful a ∧ c'.marks = c.marks := by
  unfold checkAppendOnly
  simp only
  split
  · refine Returns.pure ⟨{ h with snapshots := fun j t ver base log hs => ?_ }, rfl⟩
    by_cases hj : j = i
    · subst hj
      rw [Finmap.lookup_erase] at hs
      cases hs
    · rw [Finmap.lookup_erase_ne hj] at hs
      exact h.snapshots j t ver base log hs
  · rename_i hr
    have hr := not_not.1 hr
    split
    · exact Returns.pure ⟨h.snapshot hI hp hr, rfl⟩
    · rename_i term ver oldBase oldLog hs
      split
      · exact Returns.pure ⟨h.snapshot hI hp hr, rfl⟩
      · rename_i hterm
        split
        · exact Returns.pure ⟨h, rfl⟩
        · obtain ⟨-, L, b, hL, rfl, hb, rfl⟩ := h.snapshots i _ _ _ _ hs
          rw [not_not.1 hterm] at hL
          unfold compareLeader
          rw [mutated_false hI hp hr hL hb]
          exact Returns.pure ⟨h.snapshot hI hp hr, rfl⟩

/-! ## Pairs of logs -/

/-- Log Matching: two logs of the protocol are not mismatched. -/
theorem not_mismatched {v' : NodeView} {m : NodeId} (hI : Inv net.scheme a) (hp : v.Portrays net a n) (hp' : v'.Portrays net a m) :
    ¬Mismatched v v' := by
  rintro ⟨j, k, hjk, hj, hk, ⟨x, y, hx, hy, hxy⟩, x', y', hx', hy', hne⟩
  obtain ⟨k₁, hk₁, hxk⟩ := hp.of_live hI hx (hk.2.trans (min_le_left _ _))
  obtain ⟨k₂, hk₂, hyk⟩ := hp'.of_live hI hy (hk.2.trans (min_le_right _ _))
  obtain ⟨j₁, hj₁, hxj⟩ := hp.of_live hI hx' (hj.2.trans (min_le_left _ _))
  obtain ⟨j₂, hj₂, hyj⟩ := hp'.of_live hI hy' (hj.2.trans (min_le_right _ _))
  obtain rfl : k₂ = k₁ := by omega
  obtain rfl : j₂ = j₁ := by omega
  have hsame := (hI.log_wf n).agree (hI.log_wf m) hxk hyk hxy
  have hlt : j₂ < k₂ + 1 := by omega
  have h1 : ((a.log n).take (k₂ + 1))[j₂]? = some x' := by rwa [List.getElem?_take_of_lt hlt]
  have h2 : ((a.log m).take (k₂ + 1))[j₂]? = some y' := by rwa [List.getElem?_take_of_lt hlt]
  rw [hsame, h2, Option.some.injEq] at h1
  exact hne h1.symm

/-- Two logs match. -/
theorem checkPair_truthful (hI : Inv net.scheme a) (h : c.Truthful a) {ids : NodeId × NodeId}
    (hp : (nodes.node ids.1).Portrays net a ids.1) (hp' : (nodes.node ids.2).Portrays net a ids.2) :
    Returns (c.checkPair nodes step ids) fun c' => c'.Truthful a ∧ c'.marks = c.marks := by
  unfold checkPair
  simp only
  split
  · exact Returns.pure ⟨h, rfl⟩
  · rcases mismatch_spec (hp.base_nonneg.trans (le_max_left _ (nodes.node ids.2).baseIndex)) with ⟨hm, -⟩ | ⟨top, idx, -, hbad⟩
    · unfold comparePair
      rw [hm]
      exact Returns.pure ⟨{ h with }, rfl⟩
    · exact absurd hbad (not_mismatched hI hp hp')

/-! ## Commits -/

/-- Whether a node holds an entry can be told, and where the whole log has it the node holds it. -/
theorem holds_ok (hI : Inv net.scheme a) (hp : v.Portrays net a n) (j : ℕ) (e : Entry) :
    ∃ b, InvariantChecker.holds v (j + 1) e = .ok b ∧ ((a.log n)[j]? = some e → b = true) := by
  unfold InvariantChecker.holds
  split
  · exact ⟨true, rfl, fun _ => rfl⟩
  · rename_i hbase
    rw [hp.lastLogIndex hI]
    split
    · rename_i hlast
      obtain ⟨x, hx⟩ : ∃ x, (a.log n)[j]? = some x := ⟨_, List.getElem?_eq_getElem (by omega)⟩
      rw [hp.entryAt (by omega) hx]
      refine ⟨decide (x = e), rfl, fun he => ?_⟩
      rw [hx, Option.some.injEq] at he
      exact decide_eq_true he
    · rename_i hlast
      refine ⟨false, rfl, fun he => ?_⟩
      have hlt := (List.getElem?_eq_some_iff.1 he).1
      omega

/-- The voters whose whole logs have an entry are counted. -/
theorem holders_ok (hI : Inv net.scheme a) (hp : ∀ i ∈ nodes.ids, (nodes.node i).Portrays net a i) (j : ℕ) (e : Entry)
    {voters : List NodeId} (hv : voters ⊆ nodes.ids) :
    Returns (holders nodes (j + 1) e voters) fun k => voters.countP (fun w => decide ((a.log w)[j]? = some e)) ≤ k := by
  induction voters with
  | nil => exact Returns.pure le_rfl
  | cons w voters ih =>
    obtain ⟨hw, hrest⟩ := List.cons_subset.1 hv
    obtain ⟨b, hb, htrue⟩ := holds_ok hI (hp w hw) j e
    rw [holders, if_pos hw, hb]
    refine Returns.bind (Returns.pure rfl) fun b' hb' => Returns.bind (ih hrest) fun k hk => Returns.pure ?_
    subst hb'
    rw [List.countP_cons]
    by_cases he : (a.log w)[j]? = some e
    · rw [htrue he, if_pos (decide_eq_true he), if_pos rfl]
      omega
    · rw [if_neg (by simpa using he)]
      omega

/-- What a check of a commit rests on: the commits that are new to the checker are held by a majority of the node's voters. -/
def Backed (net : Network) (a : State NodeId Entry) (n : NodeId) : Prop :=
  Majority (net.scheme.cfg (a.log n)) {w | (a.log n).take (a.commit n) <+: a.log w}

/-- A commit is recorded, or is what was recorded. -/
theorem recordCommit_truthful (hI : Inv net.scheme a) (h : c.Truthful a) (hp : v.Portrays net a n) {j : ℕ} {e : Entry}
    (hj : (j : Int) + 1 ≤ v.commitIndex) (he : (a.log n)[j]? = some e) :
    Returns (c.recordCommit step v (j + 1) e) fun c' => c'.Truthful a ∧ c'.marks = c.marks := by
  have hat := hp.committedAt hI hj he
  unfold recordCommit
  split
  · refine Returns.pure ⟨{ h with commits := fun idx e' t ht => ?_ }, rfl⟩
    rcases Dict.lookup_insert_cases ht with ⟨rfl, heq⟩ | ht
    · cases heq
      exact ⟨j, rfl, hat⟩
    · exact h.commits idx e' t ht
  · rename_i known hknown
    obtain ⟨k, hk, hkat⟩ := h.commits _ known.1 known.2 hknown
    obtain rfl : k = j := by omega
    rw [if_neg (not_not.2 (hkat.unique hI hat))]
    exact Returns.pure ⟨h, rfl⟩

/-- A majority holds what is committed. -/
theorem checkQuorum_ok (hI : Inv net.scheme a) (hp : ∀ i ∈ nodes.ids, (nodes.node i).Portrays net a i) (hids : net.ids ⊆ nodes.ids)
    (hv : v.Portrays net a n) {j : ℕ} {e : Entry} (hj : (j : Int) + 1 ≤ v.commitIndex) (he : (a.log n)[j]? = some e)
    (hb : c.maxCommit < v.commitIndex → Backed net a n) :
    c.checkQuorum nodes step v (j + 1) e = .ok c := by
  unfold checkQuorum
  split
  · rename_i hnew
    obtain ⟨k, hk, hle⟩ := holders_ok hI hp j e (List.Subset.trans (hv.legal hI).2 hids)
    have hmajority := hb (by omega)
    rw [hv.commitIndex] at hj
    have hsub : {w | (a.log n).take (a.commit n) <+: a.log w} ⊆ {w | (a.log w)[j]? = some e} := by
      intro w hw
      refine getElem?_extends hw ?_
      rwa [List.getElem?_take_of_lt (by omega)]
    have hcount := hmajority.mono hsub
    unfold Majority at hcount
    simp only [Set.mem_ofPred_eq] at hcount
    rw [← hv.voters] at hcount
    have hsame : v.voters.countP (fun w => @decide _ (Classical.propDecidable ((a.log w)[j]? = some e))) =
        v.voters.countP (fun w => decide ((a.log w)[j]? = some e)) :=
      List.countP_congr fun w _ => by simp
    rw [hk]
    simp only [reading, Except.mapError, bind, Except.bind]
    rw [if_neg (by omega)]
    rfl
  · rfl

/-- A commit that is observed is true. -/
theorem observeCommit_truthful (hI : Inv net.scheme a) (hp : ∀ i ∈ nodes.ids, (nodes.node i).Portrays net a i)
    (hids : net.ids ⊆ nodes.ids) (h : c.Truthful a) (hv : v.Portrays net a n) {idx : Int} (hbase : v.baseIndex < idx)
    (htop : idx ≤ v.commitIndex) (hb : c.maxCommit < v.commitIndex → Backed net a n) :
    Returns (c.observeCommit nodes step v idx) fun c' => c'.Truthful a ∧ c'.marks = c.marks := by
  have h0 := hv.base_nonneg
  obtain ⟨j, rfl⟩ : ∃ j : ℕ, idx = j + 1 := ⟨(idx - 1).toNat, by omega⟩
  have hlen := hI.commit_le n
  have hcommit := hv.commitIndex
  obtain ⟨e, he⟩ : ∃ e, (a.log n)[j]? = some e := ⟨_, List.getElem?_eq_getElem (by omega)⟩
  unfold observeCommit
  rw [hv.entryAt (by omega) he]
  refine Returns.bind (Returns.pure (Q := fun e' => e' = e) rfl) fun e' he' => ?_
  subst he'
  refine Returns.bind (recordCommit_truthful hI h hv htop he) fun c' hc' => ?_
  have hmax : c'.maxCommit = c.maxCommit := congrArg (·.2.2.1) hc'.2
  rw [checkQuorum_ok hI hp hids hv htop he (by rw [hmax]; exact hb)]
  exact Returns.pure hc'

/-- The commits of a node are true. -/
theorem observeNode_truthful (hI : Inv net.scheme a) (hp : ∀ i ∈ nodes.ids, (nodes.node i).Portrays net a i)
    (hids : net.ids ⊆ nodes.ids) (h : c.Truthful a) (hi : i ∈ nodes.ids)
    (hprev : c.prevCommit.getD i 0 ≤ (nodes.node i).commitIndex)
    (hb : c.maxCommit < (nodes.node i).commitIndex → Backed net a i) :
    Returns (c.observeNode nodes step i) fun c' => c'.Truthful a ∧ c'.marks = (c.incarnation,
      c.prevCommit.insert i (nodes.node i).commitIndex, max c.maxCommit (nodes.node i).commitIndex, c.checksRun) := by
  have hv := hp i hi
  unfold observeNode
  simp only
  rw [if_neg (not_lt.2 hprev)]
  refine Returns.bind (Q := fun c' => c'.Truthful a ∧ c'.marks = c.marks) ?_ fun c' hc' => Returns.pure ?_
  · refine Returns.foldlM (fun idx hidx c' hc' => ?_) ⟨h, rfl⟩
    rw [mem_pyRange] at hidx
    have hmax : c'.maxCommit = c.maxCommit := congrArg (·.2.2.1) hc'.2
    refine (observeCommit_truthful hI hp hids hc'.1 hv (by omega) (by omega) (by rw [hmax]; exact hb)).mono fun c'' hc'' => ?_
    exact ⟨hc''.1, hc''.2.trans hc'.2⟩
  · obtain ⟨htrue, hmarks⟩ := hc'
    refine ⟨{ htrue with }, ?_⟩
    simp only [marks, Prod.mk.injEq] at hmarks ⊢
    obtain ⟨h1, h2, h3, h4⟩ := hmarks
    exact ⟨h1, by rw [h2], by rw [h3], h4⟩

/-! ## Leader Completeness -/

/-- The indices of the book are in it. -/
theorem mem_sortedIndices {committed : Dict Int (Entry × Int)} {idx : Int} (h : idx ∈ sortedIndices committed) :
    ∃ x, committed.lookup idx = some x := by
  have hk : idx ∈ committed.keys := (Finset.mem_sort _).1 h
  exact Option.isSome_iff_exists.1 (Finmap.lookup_isSome.2 (Finmap.mem_keys.1 hk))

/-- A leader misses no committed entry of a term up to its own. -/
theorem missing_none (hI : Inv net.scheme a) (h : c.Truthful a) (hp : v.Portrays net a n) (hr : v.role = .leader) {l : List Int}
    (hl : ∀ idx ∈ l, ∃ x, c.committed.lookup idx = some x) : missing c.committed v l = .ok none := by
  obtain ⟨hlead, hlog⟩ := hp.leads hI hr
  induction l with
  | nil => rfl
  | cons idx l ih =>
    obtain ⟨⟨e, t⟩, hx⟩ := hl idx List.mem_cons_self
    obtain ⟨j, rfl, hat⟩ := h.commits idx e t hx
    have hrest := ih fun j' hj' => hl j' (List.mem_cons_of_mem _ hj')
    rw [missing, Dict.item, hx]
    simp only [bind, Except.bind]
    split
    · exact hrest
    · rename_i hg
      push Not at hg
      have he := hat.led hI ⟨n, hlead⟩ hg.1
      rw [← hlog] at he
      have hlt := (List.getElem?_eq_some_iff.1 he).1
      rw [if_neg (by rw [hp.lastLogIndex hI]; omega), hp.entryAt (by omega) he]
      simpa using hrest

/-- A leader has what was committed before its term. -/
theorem checkCompleteness_truthful (hI : Inv net.scheme a) (h : c.Truthful a) (hp : (nodes.node i).Portrays net a i) :
    Returns (c.checkCompleteness nodes step i) fun c' => c'.Truthful a ∧ c'.marks = c.marks := by
  unfold checkCompleteness
  simp only
  split
  · exact Returns.pure ⟨{ h with }, rfl⟩
  · rename_i hr
    split
    · exact Returns.pure ⟨h, rfl⟩
    · unfold scanLeader
      rw [missing_none hI h hp (not_not.1 hr) fun idx hidx => mem_sortedIndices hidx]
      exact Returns.pure ⟨{ h with }, rfl⟩

/-! ## State Machine Safety -/

/-- A command that is observed is that of the commit. -/
theorem observeApplied_truthful (hI : Inv net.scheme a) (h : c.Truthful a) (hv : v.Portrays net a n) {idx : Int}
    (hbase : v.baseIndex < idx) (htop : idx ≤ v.commitIndex) :
    Returns (c.observeApplied step v idx) fun c' => c'.Truthful a ∧ c'.marks = c.marks := by
  have h0 := hv.base_nonneg
  obtain ⟨j, rfl⟩ : ∃ j : ℕ, idx = j + 1 := ⟨(idx - 1).toNat, by omega⟩
  have hlen := hI.commit_le n
  have hcommit := hv.commitIndex
  obtain ⟨e, he⟩ : ∃ e, (a.log n)[j]? = some e := ⟨_, List.getElem?_eq_getElem (by omega)⟩
  have hat := hv.committedAt hI htop he
  unfold observeApplied
  rw [hv.appliedAt (by omega) (by omega) he]
  refine Returns.bind (Returns.pure (Q := fun cmd => cmd = e.command) rfl) fun cmd hcmd => ?_
  subst hcmd
  split
  · refine Returns.pure ⟨{ h with applies := fun idx' cmd' hc => ?_ }, rfl⟩
    rcases Dict.lookup_insert_cases hc with ⟨rfl, rfl⟩ | hc
    · exact ⟨j, v.term, e, rfl, hat, rfl⟩
    · exact h.applies idx' cmd' hc
  · rename_i known hknown
    obtain ⟨k, t, e', hk, hkat, rfl⟩ := h.applies _ known hknown
    obtain rfl : k = j := by omega
    rw [hkat.unique hI hat, if_neg (not_not.2 rfl)]
    exact Returns.pure ⟨h, rfl⟩

/-- The commands of a node are those of the commits. -/
theorem checkApplied_truthful (hI : Inv net.scheme a) (h : c.Truthful a) (hp : (nodes.node i).Portrays net a i) :
    Returns (c.checkApplied nodes step i) fun c' => c'.Truthful a ∧ c'.marks = c.marks := by
  unfold checkApplied
  simp only
  refine Returns.bind (Q := fun c' => c'.Truthful a ∧ c'.marks = c.marks) ?_ fun c' hc' => Returns.pure ⟨{ hc'.1 with }, hc'.2⟩
  refine Returns.foldlM (fun idx hidx c' hc' => ?_) ⟨h, rfl⟩
  rw [mem_pyRange, hp.count hI] at hidx
  refine (observeApplied_truthful hI hc'.1 hp (by omega) (by omega)).mono fun c'' hc'' => ?_
  exact ⟨hc''.1, hc''.2.trans hc'.2⟩

/-! ## The check -/

/-- What the checker remembers of a node is no more than the node shows, if it was not restarted since. -/
structure Remembers (c : InvariantChecker) (i : NodeId) (v : NodeView) : Prop where
  unseen : c.incarnation.lookup i = none → c.prevCommit.getD i 0 = 0
  seen : ∀ x, c.incarnation.lookup i = some x → x ≤ v.incarnation ∧ (x = v.incarnation → c.prevCommit.getD i 0 ≤ v.commitIndex)

/-- A node that is shown later, with no lower incarnation and in the same one with no lower commit index. -/
theorem Remembers.later {v' : NodeView} (h : c.Remembers i v) (hinc : v.incarnation ≤ v'.incarnation)
    (hcommit : v.incarnation = v'.incarnation → v.commitIndex ≤ v'.commitIndex) : c.Remembers i v' := by
  refine ⟨h.unseen, fun x hx => ?_⟩
  obtain ⟨hle, hprev⟩ := h.seen x hx
  refine ⟨hle.trans hinc, fun heq => ?_⟩
  subst heq
  have hsame : v.incarnation = v'.incarnation := le_antisymm hinc hle
  exact (hprev hsame.symm).trans (hcommit hsame)

/-- What the checker remembers of the nodes after it has looked for restarts. -/
theorem handleRestart_remembers (h : ∀ j ∈ nodes.ids, c.Remembers j (nodes.node j)) (h0 : 0 ≤ (nodes.node i).commitIndex) :
    (∀ j ∈ nodes.ids, (c.handleRestart nodes i).Remembers j (nodes.node j)) ∧
    (i ∈ nodes.ids → (c.handleRestart nodes i).incarnation.lookup i = some (nodes.node i).incarnation) ∧
    ∀ j, c.incarnation.lookup j = some (nodes.node j).incarnation →
      (c.handleRestart nodes i).incarnation.lookup j = some (nodes.node j).incarnation := by
  have hinc : ∀ j, (c.handleRestart nodes i).incarnation.lookup j =
      if j = i then some (nodes.node i).incarnation else c.incarnation.lookup j := by
    intro j
    have hlook : (c.incarnation.insert i (nodes.node i).incarnation).lookup j =
        if j = i then some (nodes.node i).incarnation else c.incarnation.lookup j := by
      split
      · rename_i hj
        rw [hj, Finmap.lookup_insert]
      · rename_i hj
        rw [Finmap.lookup_insert_of_ne _ hj]
    unfold handleRestart
    simp only
    split <;> exact hlook
  refine ⟨fun j hj => ?_, fun _ => by rw [hinc, if_pos rfl], fun j hj => ?_⟩
  · obtain ⟨hunseen, hseen⟩ := h j hj
    by_cases hji : j = i
    · subst hji
      refine ⟨fun hnone => ?_, fun x hx => ?_⟩
      · rw [hinc, if_pos rfl] at hnone
        cases hnone
      · rw [hinc, if_pos rfl, Option.some.injEq] at hx
        refine ⟨hx.ge, fun _ => ?_⟩
        unfold handleRestart
        simp only
        split
        · simp only [Dict.getD, Finmap.lookup_insert]
          exact le_rfl
        · rename_i hno
          cases hprev : c.incarnation.lookup j with
          | none =>
            show c.prevCommit.getD j 0 ≤ _
            rw [hunseen hprev]
            exact h0
          | some y =>
            rw [hprev] at hno
            have hy : y = (nodes.node j).incarnation := by
              by_contra hne
              exact hno ⟨by simp, by simpa using hne⟩
            exact (hseen y hprev).2 hy
    · have hmark : (c.handleRestart nodes i).prevCommit.getD j 0 = c.prevCommit.getD j 0 := by
        unfold handleRestart
        simp only
        split
        · simp only [Dict.getD, Finmap.lookup_insert_of_ne _ hji]
        · rfl
      refine ⟨fun hnone => ?_, fun x hx => ?_⟩
      · rw [hinc, if_neg hji] at hnone
        rw [hmark]
        exact hunseen hnone
      · rw [hinc, if_neg hji] at hx
        rw [hmark]
        exact hseen x hx
  · rw [hinc]
    split
    · rename_i hji
      rw [hji]
    · exact hj

/-- Looking for restarts changes nothing but the marks of the nodes. -/
theorem handleRestart_rest (c : InvariantChecker) (nodes : ClusterView) (i : NodeId) :
    ∃ incarnation prevCommit appliedSeen, c.handleRestart nodes i = { c with incarnation, prevCommit, appliedSeen } := by
  unfold handleRestart
  simp only
  split <;> exact ⟨_, _, _, rfl⟩

/-- After a restart the checker remembers the new incarnation. -/
theorem handleRestarts_remembers (h : ∀ j ∈ nodes.ids, c.Remembers j (nodes.node j))
    (h0 : ∀ j ∈ nodes.ids, 0 ≤ (nodes.node j).commitIndex) (ht : c.Truthful a) :
    (∀ j ∈ nodes.ids, (c.handleRestarts nodes).incarnation.lookup j = some (nodes.node j).incarnation ∧
      (c.handleRestarts nodes).prevCommit.getD j 0 ≤ (nodes.node j).commitIndex) ∧
    (c.handleRestarts nodes).Truthful a ∧ (c.handleRestarts nodes).maxCommit = c.maxCommit ∧
      (c.handleRestarts nodes).checksRun = c.checksRun := by
  unfold handleRestarts
  suffices key : ∀ (ids : List NodeId) (c : InvariantChecker), ids ⊆ nodes.ids → (∀ j ∈ nodes.ids, c.Remembers j (nodes.node j)) →
      c.Truthful a →
      (∀ j ∈ nodes.ids, (ids.foldl (handleRestart nodes) c).Remembers j (nodes.node j)) ∧
      (∀ j, j ∈ ids ∨ c.incarnation.lookup j = some (nodes.node j).incarnation →
        (ids.foldl (handleRestart nodes) c).incarnation.lookup j = some (nodes.node j).incarnation) ∧
      (ids.foldl (handleRestart nodes) c).Truthful a ∧ (ids.foldl (handleRestart nodes) c).maxCommit = c.maxCommit ∧
        (ids.foldl (handleRestart nodes) c).checksRun = c.checksRun by
    obtain ⟨h1, h2, h3⟩ := key nodes.ids c (fun _ hj => hj) h ht
    exact ⟨fun j hj => ⟨h2 j (Or.inl hj), ((h1 j hj).seen _ (h2 j (Or.inl hj))).2 rfl⟩, h3⟩
  intro ids
  induction ids with
  | nil => exact fun c _ h ht => ⟨h, fun j hj => hj.resolve_left List.not_mem_nil, ht, rfl, rfl⟩
  | cons i ids ih =>
    intro c hsub h ht
    obtain ⟨hi, hrest⟩ := List.cons_subset.1 hsub
    obtain ⟨g1, g2, g3⟩ := handleRestart_remembers (i := i) h (h0 i hi)
    obtain ⟨incarnation, prevCommit, appliedSeen, heq⟩ := handleRestart_rest c nodes i
    obtain ⟨k1, k2, k3, k4, k5⟩ := ih (c.handleRestart nodes i) hrest g1 (by rw [heq]; exact { ht with })
    rw [List.foldl_cons]
    refine ⟨k1, fun j hj => k2 j ?_, k3, k4.trans (by rw [heq]), k5.trans (by rw [heq])⟩
    rcases hj with hj | hj
    · rcases List.mem_cons.1 hj with rfl | hj
      · exact Or.inr (g2 hi)
      · exact Or.inl hj
    · exact Or.inr (g3 j hj)

/-- A cluster that a check passes: every node shows its part of a protocol state, the books agree with its history, and what is new
to the checker is held by a majority. -/
structure Ready (net : Network) (a : State NodeId Entry) (nodes : ClusterView) (c : InvariantChecker) : Prop where
  inv : Inv net.scheme a
  portrays : ∀ i ∈ nodes.ids, (nodes.node i).Portrays net a i
  ids : net.ids ⊆ nodes.ids
  truthful : c.Truthful a
  remembers : ∀ i ∈ nodes.ids, c.Remembers i (nodes.node i)
  backed : ∀ i ∈ nodes.ids, c.maxCommit < (nodes.node i).commitIndex → Backed net a i

/-- What a check leaves: books that agree with the history, and marks that are those of the nodes. -/
structure Passed (a : State NodeId Entry) (nodes : ClusterView) (count : Bool) (c after : InvariantChecker) : Prop where
  truthful : after.Truthful a
  incarnation : ∀ i ∈ nodes.ids, after.incarnation.lookup i = some (nodes.node i).incarnation
  prevCommit : ∀ i ∈ nodes.ids, after.prevCommit.getD i 0 ≤ (nodes.node i).commitIndex
  maxCommit : ∀ i ∈ nodes.ids, (nodes.node i).commitIndex ≤ after.maxCommit
  grows : c.maxCommit ≤ after.maxCommit
  checksRun : after.checksRun = c.checksRun + if count then 1 else 0

/-- The loop over the nodes for what they have committed. -/
theorem observeCommits_truthful (h : Ready net a nodes c)
    (hprev : ∀ i ∈ nodes.ids, c.prevCommit.getD i 0 ≤ (nodes.node i).commitIndex) :
    Returns (c.observeCommits nodes step) fun c' => c'.Truthful a ∧ c'.incarnation = c.incarnation ∧ c'.checksRun = c.checksRun ∧
      (∀ i ∈ nodes.ids, c'.prevCommit.getD i 0 ≤ (nodes.node i).commitIndex) ∧
      (∀ i ∈ nodes.ids, (nodes.node i).commitIndex ≤ c'.maxCommit) ∧ c.maxCommit ≤ c'.maxCommit := by
  refine (Returns.foldlM_each (P := fun i c' => (nodes.node i).commitIndex ≤ c'.maxCommit)
    (Q := fun c' => (c'.Truthful a ∧ c'.incarnation = c.incarnation ∧ c'.checksRun = c.checksRun) ∧
      (∀ i ∈ nodes.ids, c'.prevCommit.getD i 0 ≤ (nodes.node i).commitIndex) ∧ c.maxCommit ≤ c'.maxCommit)
    (fun i hi c' hc' => ?_) ⟨⟨h.truthful, rfl, rfl⟩, hprev, le_rfl⟩).mono ?_
  · obtain ⟨⟨htrue, hinc, hcount⟩, hmarks, hmax⟩ := hc'
    refine (observeNode_truthful h.inv h.portrays h.ids htrue hi (hmarks i hi)
      (fun hlt => h.backed i hi (lt_of_le_of_lt hmax hlt))).mono fun c'' hc'' => ?_
    obtain ⟨htrue', hm⟩ := hc''
    simp only [marks, Prod.mk.injEq] at hm
    obtain ⟨e1, e2, e3, e4⟩ := hm
    refine ⟨⟨⟨htrue', e1.trans hinc, e4.trans hcount⟩, fun j hj => ?_, hmax.trans (by rw [e3]; exact le_max_left _ _)⟩,
      by rw [e3]; exact le_max_right _ _, fun j hj => hj.trans (by rw [e3]; exact le_max_left _ _)⟩
    rw [e2]
    by_cases hji : j = i
    · rw [hji, Dict.getD, Finmap.lookup_insert]
      exact le_rfl
    · rw [Dict.getD, Finmap.lookup_insert_of_ne _ hji]
      exact hmarks j hj
  · rintro c' ⟨⟨⟨h1, h2, h3⟩, h4, h5⟩, h6, -⟩
    exact ⟨h1, h2, h3, h4, h6, h5⟩

/-- The checks that leave the marks alone, over some nodes or pairs of nodes. -/
theorem loop_truthful {ι : Type} {f : InvariantChecker → ι → Except CheckError InvariantChecker} {l : List ι}
    (hf : ∀ i ∈ l, ∀ c : InvariantChecker, c.Truthful a → Returns (f c i) fun c' => c'.Truthful a ∧ c'.marks = c.marks)
    (h : c.Truthful a) : Returns (l.foldlM f c) fun c' => c'.Truthful a ∧ c'.marks = c.marks :=
  Returns.foldlM (fun i hi c' hc' => (hf i hi c' hc'.1).mono fun _ hc'' => ⟨hc''.1, hc''.2.trans hc'.2⟩) ⟨h, rfl⟩

/-- A check of a cluster that shows a protocol state fails nothing. -/
theorem check_passes (h : Ready net a nodes c) (count : Bool) : Returns (c.check nodes step count) (Passed a nodes count c) := by
  unfold check
  simp only
  generalize hk : (if count = true then { c with checksRun := c.checksRun + 1 } else c) = c₀
  have h₀ : c₀.Truthful a ∧ (∀ i ∈ nodes.ids, c₀.Remembers i (nodes.node i)) ∧ c₀.maxCommit = c.maxCommit ∧
      c₀.checksRun = c.checksRun + if count then 1 else 0 := by
    subst hk
    cases count with
    | false => exact ⟨h.truthful, h.remembers, rfl, rfl⟩
    | true => exact ⟨{ h.truthful with }, fun i hi => ⟨(h.remembers i hi).unseen, (h.remembers i hi).seen⟩, rfl, rfl⟩
  obtain ⟨ht₀, hrem, hmax, hcount⟩ := h₀
  have hnonneg : ∀ j ∈ nodes.ids, 0 ≤ (nodes.node j).commitIndex := fun j hj =>
    (h.portrays j hj).base_nonneg.trans (h.portrays j hj).base_le
  obtain ⟨hmarks, ht₁, hmax₁, hcount₁⟩ := handleRestarts_remembers hrem hnonneg ht₀
  generalize c₀.handleRestarts nodes = c₁ at hmarks ht₁ hmax₁ hcount₁
  refine Returns.bind (loop_truthful (fun i hi c' hc' => checkLeader_truthful h.inv hc' (h.portrays i hi)) ht₁) fun c₂ h₂ => ?_
  refine Returns.bind (loop_truthful (fun i hi c' hc' => checkAppendOnly_truthful h.inv hc' (h.portrays i hi)) h₂.1) fun c₃ h₃ => ?_
  refine Returns.bind (loop_truthful (fun ids hids c' hc' => ?_) h₃.1) fun c₄ h₄ => ?_
  · obtain ⟨hi, hj⟩ := mem_of_mem_pairs (x := ids.1) (y := ids.2) hids
    exact checkPair_truthful h.inv hc' (h.portrays _ hi) (h.portrays _ hj)
  have hm := h₄.2.trans (h₃.2.trans h₂.2)
  simp only [marks, Prod.mk.injEq] at hm
  obtain ⟨e1, e2, e3, e4⟩ := hm
  have hready : Ready net a nodes c₄ := by
    refine ⟨h.inv, h.portrays, h.ids, h₄.1, fun i hi => ⟨fun hnone => ?_, fun x hx => ?_⟩, fun i hi hlt => h.backed i hi ?_⟩
    · rw [e1, (hmarks i hi).1] at hnone
      cases hnone
    · rw [e1, (hmarks i hi).1, Option.some.injEq] at hx
      exact ⟨hx.ge, fun _ => by rw [e2]; exact (hmarks i hi).2⟩
    · rw [e3, hmax₁, hmax] at hlt
      exact hlt
  refine Returns.bind (observeCommits_truthful hready (fun i hi => by rw [e2]; exact (hmarks i hi).2)) fun c₅ h₅ => ?_
  obtain ⟨ht₅, hinc₅, hcount₅, hprev₅, htop₅, hgrow₅⟩ := h₅
  refine Returns.bind (loop_truthful (fun i hi c' hc' => checkCompleteness_truthful h.inv hc' (h.portrays i hi)) ht₅) fun c₆ h₆ => ?_
  refine (loop_truthful (fun i hi c' hc' => checkApplied_truthful h.inv hc' (h.portrays i hi)) h₆.1).mono fun c₇ h₇ => ?_
  have hm' := h₇.2.trans h₆.2
  simp only [marks, Prod.mk.injEq] at hm'
  obtain ⟨f1, f2, f3, f4⟩ := hm'
  refine ⟨h₇.1, fun i hi => ?_, fun i hi => by rw [f2]; exact hprev₅ i hi, fun i hi => by rw [f3]; exact htop₅ i hi, ?_, ?_⟩
  · rw [f1, hinc₅, e1]
    exact (hmarks i hi).1
  · rw [f3]
    rw [e3, hmax₁, hmax] at hgrow₅
    exact hgrow₅
  · rw [f4, hcount₅, e4, hcount₁, hcount]

end InvariantChecker

end DeterministicRaft
