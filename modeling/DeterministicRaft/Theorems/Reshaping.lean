import DeterministicRaft.Theorems.Progress

/-!
# Any membership can be reached

A configuration changes by one server at a time, only while the last one is committed, only by a leader that has committed an entry of
its own term and that stays. None of this keeps a cluster from any membership: a leader adds the servers that are missing, hands over to
one that is to stay, and that one removes the others.
-/

namespace DeterministicRaft

open RaftNode Refinement Possibility Consensus

variable {net : Network} {c p q : NodeId} {V W target : List NodeId} {self : RaftNode}

/-! ## One server more, or one less -/

/-- Two sets that differ by one element. -/
theorem card_add_card_of_symmDiff {A B : Finset NodeId} (h : (symmDiff A B).card = 1) : A.card + B.card = 2 * (A ∩ B).card + 1 := by
  have hunion := Finset.card_union_add_card_inter A B
  have hle : A ∩ B ⊆ A ∪ B := Finset.inter_subset_left.trans Finset.subset_union_left
  have hsplit := Finset.card_sdiff_add_card_eq_card hle
  have hdiff : symmDiff A B = (A ∪ B) \ (A ∩ B) := symmDiff_eq_sup_sdiff_inf A B
  rw [← hdiff] at hsplit
  omega

/-- The voters that stay are a majority of the new ones. -/
theorem Moment.Most.of_symmDiff (hV : V.Nodup) (hW : W.Nodup) (htwo : 2 ≤ V.length)
    (hd : (symmDiff W.toFinset V.toFinset).card = 1) : Moment.Most W (W.filter (· ∈ V)) := by
  refine ⟨hW.filter _, fun p hp => (List.mem_filter.1 hp).1, ?_⟩
  have hcard := card_add_card_of_symmDiff hd
  have hstay : (W.filter (· ∈ V)).toFinset = W.toFinset ∩ V.toFinset := by
    ext p
    simp
  rw [← hstay, List.toFinset_card_of_nodup hW, List.toFinset_card_of_nodup hV, List.toFinset_card_of_nodup (hW.filter _)] at hcard
  omega

/-- One server is added. -/
theorem symmDiff_added (hp : p ∉ V) : (symmDiff (sortedSet (p :: V)).toFinset V.toFinset).card = 1 := by
  have hone : symmDiff (sortedSet (p :: V)).toFinset V.toFinset = {p} := by
    ext q
    simp only [Finset.mem_symmDiff, List.mem_toFinset, mem_sortedSet, List.mem_cons, Finset.mem_singleton]
    by_cases hqp : q = p
    · simp [hqp, hp]
    · simp [hqp]
  rw [hone, Finset.card_singleton]

/-- One server is removed. -/
theorem symmDiff_removed (hp : p ∈ V) : (symmDiff (sortedSet (V.filter (· ≠ p))).toFinset V.toFinset).card = 1 := by
  have hone : symmDiff (sortedSet (V.filter (· ≠ p))).toFinset V.toFinset = {p} := by
    ext q
    simp only [Finset.mem_symmDiff, List.mem_toFinset, mem_sortedSet, List.mem_filter, Finset.mem_singleton, decide_eq_true_eq]
    by_cases hqp : q = p
    · simp [hqp, hp]
    · simp [hqp]
  rw [hone, Finset.card_singleton]

/-- A set has at least as many members as distinct ones are listed. -/
theorem length_le_sortedSet (hV : V.Nodup) (hsub : V ⊆ W) : V.length ≤ (sortedSet W).length :=
  (hV.subperm fun _ hp => mem_sortedSet.2 (hsub hp)).length_le

/-! ## A proposal -/

/-- A leader that has committed its last configuration, and an entry of its own term, adopts a proposal that differs by one server, and
that it is in. -/
theorem RaftNode.reshapes (ha : self.alive = true) (hr : self.role = .leader) {newVoters : List NodeId}
    (hd : (symmDiff (sortedSet newVoters).toFinset self.voters.toFinset).card = 1) (hid : self.id ∈ newVoters)
    (hc : self.configIndex ≤ self.commitIndex) (hown : self.committedThisTerm = true) :
    Ensures (Prod.fst <$> self.changeConfig newVoters) fun after =>
      after.role = .leader ∧ after.term = self.term ∧ after.voters = sortedSet newVoters := by
  unfold changeConfig
  simp only
  rw [if_neg (by simp [ha, hr]), if_neg (not_not.2 hd), if_neg (not_not.2 (mem_sortedSet.2 hid)), if_neg (not_lt.2 hc),
    if_neg (by simp [hown])]
  refine Ensures.map (Ensures.bind (Q := Calls (self.reconfigured (sortedSet newVoters))) (Makes.broadcastHeartbeats_calls hr)
    fun mid hcalls => ?_)
  obtain ⟨es, rfl, -⟩ := hcalls
  exact Ensures.pure ⟨hr, rfl, rfl⟩

namespace Moment

variable {m : Moment net}

/-- A command that is no request of a client. -/
theorem fresh_noop (m : Moment net) : m.world.Fresh "noop" := by
  have hplain : (Command.decode "noop").isStructured = false := by decide
  intro hs
  rw [hplain] at hs
  cases hs

/-- A server that is among its voters, and is ahead of a majority of them, can get ready. -/
theorem can_ready (m : Moment net) (hV : (m.node c).voters = V) (hc : c ∈ V) (htwo : 2 ≤ V.length) {G : List NodeId} (hG : Most V G)
    (hup : ∀ p ∈ G, (m.node p).Behind (m.node c)) : Can Next (fun m' => m'.Ready c V) m := by
  subst hV
  exact (m.can_recover hc htwo hG hup (by decide) m.fresh_noop).mono fun _ h => h.1

/-- Servers with the same log have the same voters. -/
theorem voters_eq (m : Moment net) (h : m.log p = m.log q) : (m.node p).voters = (m.node q).voters := by
  obtain ⟨a, hs⟩ := m.simulated
  have hlog : a.log p = a.log q := (hs.logicalLog_eq p).symm.trans (h.trans (hs.logicalLog_eq q))
  have hvoters : ∀ n, (m.node n).voters = net.scheme.cfg (a.log n) := fun n => (hs.fits n).voters
  rw [hvoters, hvoters, hlog]

/-- A leader that is ready can hand over to any of its voters. -/
theorem Ready.can_transfer (h : m.Ready c V) (htwo : 2 ≤ V.length) (hq : q ∈ V) : Can Next (fun m' => m'.Ready q V) m := by
  have hvoters : (m.node q).voters = V := (m.voters_eq (h.same q hq)).trans h.serves.presides.voters
  have hnodup : V.Nodup := hvoters ▸ (m.node_voters q).1
  refine m.can_ready hvoters hq htwo ⟨hnodup, fun _ => id, by omega⟩ fun p hp => ?_
  have hholds := m.node_holds p
  rw [h.same p hp, ← h.same q hq] at hholds
  exact hholds.behind (m.node_holds q) (Or.inr ⟨rfl, le_rfl⟩)

/-- A leader that is ready can get its voters changed by one server. Who was a voter before has the log to which the proposal is appended.
-/
theorem Ready.can_change (h : m.Ready c V) (hrec : net.reconfigurable = true) (htwo : 2 ≤ V.length) {newVoters : List NodeId}
    (hservers : newVoters ⊆ net.ids) (hd : (symmDiff (sortedSet newVoters).toFinset V.toFinset).card = 1) (hc : c ∈ newVoters)
    (htwo' : 2 ≤ (sortedSet newVoters).length) : Can Next (fun m' => m'.Ready c (sortedSet newVoters)) m := by
  have hlead := h.serves.presides
  have hid := m.node_id c
  have hindex : (m.node c).configIndex ≤ (m.node c).commitIndex := by
    have hle := (m.derived c).configIndex_le
    have hlast := (m.node_holds c).lastLogIndex
    have hall := h.serves.committed
    have hle : (m.node c).configIndex ≤ (m.node c).lastLogIndex := hle
    omega
  refine can_perform (.changeConfig c newVoters) c (.changeConfig newVoters) ⟨hrec, hservers⟩ rfl fun after m₁ hafter hm => ?_
  obtain ⟨hrole, hterm, hvoters⟩ := RaftNode.reshapes hlead.alive hlead.role (by rw [hlead.voters]; exact hd) (by rw [hid]; exact hc)
    hindex h.own after hafter
  have hnode := hm.here
  have hpre : m.log c <+: m₁.log c := hm.log_prefix hlead.role (by rw [hnode]; exact hrole) (by rw [hnode]; exact hterm)
  have hvoters₁ : (m₁.node c).voters = sortedSet newVoters := by
    rw [hnode]
    exact hvoters
  have hnodup : V.Nodup := hlead.voters ▸ (m.node_voters c).1
  refine m₁.can_ready hvoters₁ (mem_sortedSet.2 hc) htwo' (Most.of_symmDiff hnodup (nodup_sortedSet _) htwo hd) fun p hp => ?_
  obtain ⟨-, hp⟩ := List.mem_filter.1 hp
  have hp : p ∈ V := by simpa using hp
  by_cases hpc : p = c
  · rw [hpc]
    exact (m₁.node_holds c).behind (m₁.node_holds c) (Or.inr ⟨rfl, le_rfl⟩)
  · have hholds := m.node_holds p
    rw [h.same p hp, ← hm.elsewhere p hpc] at hholds
    obtain ⟨a₁, hs₁⟩ := m₁.simulated
    have hlog₁ : m₁.log c = a₁.log c := hs₁.logicalLog_eq c
    refine hholds.behind (m₁.node_holds c) ?_
    rw [hlog₁] at hpre ⊢
    exact hs₁.inv.upToDate_of_prefix (hs₁.inv.log_wf c) hpre

/-! ## One server after the other -/

/-- A leader that is ready can get servers added. -/
theorem Ready.can_add (h : m.Ready c V) (hrec : net.reconfigurable = true) (htwo : 2 ≤ V.length) (hservers : target ⊆ net.ids) :
    Can Next (fun m' => ∃ W, m'.Ready c W ∧ 2 ≤ W.length ∧ target ⊆ W) m := by
  refine Can.each (P := fun rest m' => ∃ W, m'.Ready c W ∧ 2 ≤ W.length ∧ rest ⊆ net.ids ∧ ∀ p ∈ target, p ∈ W ∨ p ∈ rest) ?_ ?_
    ⟨V, h, htwo, hservers, fun p hp => Or.inr hp⟩
  · rintro m' ⟨W, hready, hlen, -, hall⟩
    exact Can.now ⟨W, hready, hlen, fun p hp => (hall p hp).resolve_right List.not_mem_nil⟩
  · rintro i rest m' ⟨W, hready, hlen, hrest, hall⟩
    obtain ⟨hi, hrest⟩ := List.cons_subset.1 hrest
    by_cases hiW : i ∈ W
    · refine Can.now (Or.inr ⟨W, hready, hlen, hrest, fun p hp => ?_⟩)
      rcases hall p hp with hpW | hpr
      · exact Or.inl hpW
      · rcases List.mem_cons.1 hpr with rfl | hpr
        · exact Or.inl hiW
        · exact Or.inr hpr
    · have hvoters : (m'.node c).voters = W := hready.serves.presides.voters
      obtain ⟨hnodup, hids⟩ := hvoters ▸ m'.node_voters c
      have hmore : W.length ≤ (sortedSet (i :: W)).length := length_le_sortedSet hnodup (List.subset_cons_self i W)
      refine (hready.can_change hrec hlen (List.cons_subset.2 ⟨hi, hids⟩) (symmDiff_added hiW)
        (List.mem_cons_of_mem _ hready.member) (by omega)).mono fun m'' hready' => ?_
      refine Or.inr ⟨_, hready', by omega, hrest, fun p hp => ?_⟩
      rcases hall p hp with hpW | hpr
      · exact Or.inl (mem_sortedSet.2 (List.mem_cons_of_mem _ hpW))
      · rcases List.mem_cons.1 hpr with rfl | hpr
        · exact Or.inl (mem_sortedSet.2 List.mem_cons_self)
        · exact Or.inr hpr

/-- A leader that is ready can get servers removed, as long as it stays, and another. -/
theorem Ready.can_remove (h : m.Ready c V) (hrec : net.reconfigurable = true) (hnodup : target.Nodup) (htwo : 2 ≤ target.length)
    (hc : c ∈ target) (hsub : target ⊆ V) : Can Next (fun m' => ∃ W, m'.Ready c W ∧ ∀ p, p ∈ W ↔ p ∈ target) m := by
  refine Can.each (P := fun rest m' => ∃ W, m'.Ready c W ∧ target ⊆ W ∧ ∀ p ∈ W, p ∈ target ∨ p ∈ rest) ?_ ?_
    ⟨V, h, hsub, fun p hp => Or.inr hp⟩
  · rintro m' ⟨W, hready, hkept, hall⟩
    exact Can.now ⟨W, hready, fun p => ⟨fun hp => (hall p hp).resolve_right List.not_mem_nil, fun hp => hkept hp⟩⟩
  · rintro i rest m' ⟨W, hready, hkept, hall⟩
    by_cases hi : i ∈ W ∧ i ∉ target
    · obtain ⟨hiW, hit⟩ := hi
      have hvoters : (m'.node c).voters = W := hready.serves.presides.voters
      have hids : W ⊆ net.ids := hvoters ▸ (m'.node_voters c).2
      have hstay : target ⊆ W.filter (· ≠ i) := by
        intro p hp
        refine List.mem_filter.2 ⟨hkept hp, ?_⟩
        rw [decide_eq_true_eq]
        rintro rfl
        exact hit hp
      have hlen : target.length ≤ W.length := (hnodup.subperm hkept).length_le
      have hfew := length_le_sortedSet hnodup hstay
      refine (hready.can_change hrec (by omega) (fun p hp => hids (List.mem_filter.1 hp).1) (symmDiff_removed hiW) (hstay hc)
        (htwo.trans hfew)).mono fun m'' hready' => ?_
      refine Or.inr ⟨_, hready', fun p hp => mem_sortedSet.2 (hstay hp), fun p hp => ?_⟩
      obtain ⟨hpW, hpi⟩ := List.mem_filter.1 (mem_sortedSet.1 hp)
      have hpi : p ≠ i := by simpa using hpi
      exact (hall p hpW).imp id fun hpr => (List.mem_cons.1 hpr).resolve_left hpi
    · refine Can.now (Or.inr ⟨W, hready, hkept, fun p hp => ?_⟩)
      rcases hall p hp with hpt | hpr
      · exact Or.inl hpt
      · rcases List.mem_cons.1 hpr with rfl | hpr
        · exact Or.inl (by_contra fun hpt => hi ⟨hp, hpt⟩)
        · exact Or.inr hpr

/-- A leader that is ready can be replaced by one of any two or more servers, whose voters are these. -/
theorem Ready.can_reshape (h : m.Ready c V) (hrec : net.reconfigurable = true) (htwo : 2 ≤ V.length) (hservers : target ⊆ net.ids)
    (hnodup : target.Nodup) (hsize : 2 ≤ target.length) : Can Next (fun m' => ∃ q W, m'.Ready q W ∧ ∀ p, p ∈ W ↔ p ∈ target) m := by
  obtain ⟨q, hq⟩ := List.exists_mem_of_length_pos (show 0 < target.length by omega)
  refine (h.can_add hrec htwo hservers).bind fun m₁ hadded => ?_
  obtain ⟨W, hready, hlen, hsub⟩ := hadded
  refine (hready.can_transfer hlen (hsub hq)).bind fun m₂ hready₂ => ?_
  exact (hready₂.can_remove hrec hnodup hsize hq hsub).mono fun m₃ hremoved => ⟨q, hremoved⟩

end Moment

/-- From every moment of every run of a cluster that may be reconfigured, in which no configuration has fewer than two voters, any two or
more servers can be made the voters: there are actions, all of them admissible, after which one of them leads, its voters are these, and
they are live and have its log, all of which it has committed. -/
theorem any_membership_reachable (r : Run net) (hrec : net.reconfigurable = true) (htwo : 2 ≤ net.initialVoters.length) (k : ℕ)
    (hproposals : ∀ j < k, ∀ n newVoters, r.action j = .changeConfig n newVoters → 2 ≤ (sortedSet newVoters).length)
    (target : List NodeId) (hservers : target ⊆ net.ids) (hnodup : target.Nodup) (hsize : 2 ≤ target.length) :
    ∃ (acts : List Action) (w : World), (∀ act ∈ acts, net.Admits act) ∧ (r.state k).exec acts = .ok w ∧
      ∃ c, w.United c ∧ ∀ p, p ∈ (w.nodes c).voters ↔ p ∈ target := by
  obtain ⟨s, hs⟩ := r.exists_shadow
  have hne : net.initialVoters ≠ [] := List.ne_nil_of_length_pos (by omega)
  obtain ⟨c, G, hc, hG, hup⟩ := hs.exists_electable hne k
  have hlen := r.two_voters htwo k hproposals c
  have hcan := ((r.moment k).can_ready rfl hc hlen hG hup).bind fun m₁ hready =>
    hready.can_reshape hrec hlen hservers hnodup hsize
  obtain ⟨m', hreach, q, W, hready, hall⟩ := hcan
  obtain ⟨acts, hacts, hexec⟩ := Moment.exists_exec hreach
  have hvoters : (m'.world.nodes q).voters = W := hready.serves.presides.voters
  refine ⟨acts, m'.world, hacts, hexec, q, hready.united, ?_⟩
  rw [hvoters]
  exact hall

/-- While server 0 leads and is making server 2 a voter, the growing cluster can still come to do without server 0. -/
theorem any_membership_reachable_growing : ∃ (acts : List Action) (w : World), (∀ act ∈ acts, growing.Admits act) ∧
    (growingRun.state 7).exec acts = .ok w ∧ ∃ c, w.United c ∧ ∀ p, p ∈ (w.nodes c).voters ↔ p ∈ [1, 2] :=
  any_membership_reachable growingRun rfl (by decide) 7 growing_proposals [1, 2] (by decide) (by decide) (by decide)

end DeterministicRaft
