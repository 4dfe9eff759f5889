import DeterministicRaft.Crashes

/-!
# Crashes and restarts pair up

Under the random driver and any fault schedule, whatever is suppressed, every node that is down has exactly one restart that is due, and
nobody else has one. So each comes back when the time of its own crash is over, and the random driver alone leaves a majority alive.
-/

namespace DeterministicRaft

open Refinement RaftNode

namespace Harness

variable {R : RandomSource} {settings : Settings} {self before mid after : Harness R} {fn : Callback} {n : NodeId}

/-! ## The invariant -/

/-- The network takes for crashed who is not alive, and exactly these nodes have a restart that is due, each of them one. -/
structure Paired (h : Harness R) : Prop where
  agreed : h.Agreed
  restarts : ∀ n, (h.restarts n).length = if n ∈ h.net.crashed then 1 else 0

/-- A restart that is due is taken when its time has come; nothing else changes what is due for a node. -/
theorem Due.restarts (h : Due fn before mid) (n : NodeId) :
    before.restarts n = if fn = .maybeResume n then mid.sim.clock.now :: mid.restarts n else mid.restarts n := by
  rw [Harness.restarts, h.pending, List.filterMap_cons]
  split
  · rename_i hnone
    rw [if_neg fun hfn => by simp [hfn] at hnone]
    rfl
  · rename_i time hsome
    by_cases hfn : fn = .maybeResume n
    · rw [if_pos hfn] at hsome ⊢
      cases hsome
      rfl
    · rw [if_neg hfn] at hsome
      cases hsome

/-- A node that nothing happens to keeps its restart. -/
theorem Paired.spared (h : Paired before) (hd : Due fn before mid) (hfn : fn ≠ .maybeResume n)
    (hs : (n ∈ after.net.crashed ↔ n ∈ mid.net.crashed) ∧
      (after.cluster.world.nodes n).alive = (mid.cluster.world.nodes n).alive ∧ (after.restarts n).Perm (mid.restarts n)) :
    (n ∈ after.net.crashed ↔ (after.cluster.world.nodes n).alive = false) ∧
      (after.restarts n).length = if n ∈ after.net.crashed then 1 else 0 := by
  obtain ⟨hc, ha, hp⟩ := hs
  have hdue := hd.restarts n
  rw [if_neg hfn] at hdue
  have hlen := h.restarts n
  rw [hd.net] at hc
  rw [hd.world] at ha
  refine ⟨by rw [hc, ha]; exact h.agreed n, ?_⟩
  rw [hp.length_eq, ← hdue, hlen]
  simp only [hc]

/-- Every event keeps crashes and restarts paired. -/
theorem Paired.step (h : Paired before) (hd : Due fn before mid) (hp : Passes settings fn mid after) : Paired after := by
  have hall : ∀ n, (n ∈ after.net.crashed ↔ (after.cluster.world.nodes n).alive = false) ∧
      (after.restarts n).length = if n ∈ after.net.crashed then 1 else 0 := by
    intro n
    by_cases hfn : fn = .maybeResume n
    · have hdue := hd.restarts n
      rw [if_pos hfn] at hdue
      have hlen := h.restarts n
      rw [hdue, List.length_cons] at hlen
      have hn : n ∈ before.net.crashed := by
        by_contra hn
        rw [if_neg hn] at hlen
        omega
      rw [if_pos hn] at hlen
      cases hp with
      | steady hs hnot =>
        rw [← hd.net] at hn
        exact absurd hn (hnot n hfn)
      | down m d hl =>
        rw [hfn] at hl
        rcases hl with ⟨_, _, hl⟩ | ⟨hl, -⟩ <;> cases hl
      | back m hm hmem hb =>
        rw [hfn] at hm
        cases hm
        refine ⟨by simp [hb.crashed, hb.up], ?_⟩
        rw [if_neg hb.crashed, hb.restarts.length_eq]
        omega
    · cases hp with
      | steady hs => exact h.spared hd hfn ⟨by rw [hs.crashed], hs.alive n, hs.restarts n⟩
      | down m d hl ha hcard hdown =>
        by_cases hnm : n = m
        · subst hnm
          refine ⟨by simp [hdown.crashed, hdown.down], ?_⟩
          have hn : n ∉ before.net.crashed := by
            rw [hd.world] at ha
            exact fun hn => by simp [(h.agreed n).1 hn] at ha
          have hlen := h.restarts n
          rw [if_neg hn, hd.restarts n, if_neg hfn] at hlen
          rw [if_pos hdown.crashed, hdown.restarts.length_eq, List.length_cons, hlen]
        · exact h.spared hd hfn (hdown.others n hnm)
      | back m hm hmem hb => exact h.spared hd hfn (hb.others n fun hnm => hfn (hnm ▸ hm))
  exact ⟨fun n => (hall n).1, fun n => (hall n).2⟩

/-- Few are down. -/
def Few (settings : Settings) (self : Harness R) : Prop := self.net.crashed.card ≤ (settings.numNodes - 1) / 2

theorem Few.step (h : Few settings before) (hd : Due fn before mid) (hp : Passes settings fn mid after)
    (hfn : ∀ y, fn ≠ .nemesisFire y) : Few settings after := by
  rw [Few, ← hd.net] at h
  cases hp with
  | steady hs =>
    rw [Few, hs.crashed]
    exact h
  | down n d hl ha hcard hdown =>
    have hsub : after.net.crashed ⊆ insert n mid.net.crashed := by
      intro m hm
      by_cases hmn : m = n
      · exact Finset.mem_insert.2 (Or.inl hmn)
      · exact Finset.mem_insert_of_mem ((hdown.others m hmn).1.1 hm)
    have hle := (Finset.card_le_card hsub).trans (Finset.card_insert_le _ _)
    exact hle.trans (hcard hfn)
  | back n hn hmem hb =>
    refine le_trans (Finset.card_le_card fun m hm => ?_) h
    by_cases hmn : m = n
    · rw [hmn]
      exact hmem
    · exact (hb.others m hmn).1.1 hm

/-- A majority is alive. -/
theorem Few.majority (h : Few settings self) (ha : self.Agreed) :
    settings.numNodes < 2 * (settings.ids.filter fun n => (self.cluster.world.nodes n).alive).length := by
  have hsplit := List.length_eq_length_filter_add (l := settings.ids) fun n => (self.cluster.world.nodes n).alive
  have hdown : (settings.ids.filter fun n => !(self.cluster.world.nodes n).alive).length ≤ self.net.crashed.card := by
    have hnodup : settings.ids.Nodup := settings.network.ids_nodup
    rw [← List.toFinset_card_of_nodup (hnodup.filter _)]
    refine Finset.card_le_card fun n hn => ?_
    have hn := (List.mem_filter.1 (List.mem_toFinset.1 hn)).2
    exact (ha n).2 (by simpa using hn)
  have hpos := settings.someNode
  rw [length_ids] at hsplit
  rw [Few] at h
  omega

/-! ## The start -/

/-- Nobody is down at the start, and the injections of the schedule are due. -/
theorem init_paired (seed : R.State) : Ensures (init settings seed) fun h =>
    h.Paired ∧ h.net.crashed = ∅ ∧ h.awaiting ⊆ settings.injections := by
  unfold init
  refine Ensures.bind (Steady.frame.follow _ _) fun s1 h1 => ?_
  refine Ensures.bind (Steady.frame.startDriver s1 _ _ trivial) fun s2 h2 => ?_
  have hdriver : Ensures (s2.startDriver (settings.profile.partitions || settings.profile.crashes) FAULT_INTERVAL .faultTick)
      (Steady s2) := by
    unfold startDriver
    split
    · exact Steady.schedule s2 _ (by simp) rfl
    · exact Ensures.pure (Steady.refl s2)
  refine Ensures.bind hdriver fun s3 h3 => ?_
  refine Ensures.bind (Steady.frame.startDriver s3 _ _ trivial) fun s4 h4 => ?_
  have h := ((h1.trans h2).trans h3).trans h4
  refine (schedule_injections s4 settings.injections).mono fun after ⟨_, hnet, hcluster, hp⟩ => ?_
  have hnone : after.net.crashed = ∅ := by
    rw [hnet]
    exact h.crashed
  refine ⟨⟨fun n => ?_, fun n => ?_⟩, hnone, ?_⟩
  · rw [hnone, hcluster, h.alive n]
    simp [Settings.world, World.launch, RaftNode.start, RaftNode.armElectionTimer, emit, RaftNode.new]
  · have hperm := restarts_perm hp (n := n) fun x hx => by
      obtain ⟨y, -, rfl⟩ := List.mem_map.1 hx
      intro he
      cases he
    rw [hnone, (hperm.trans (h.restarts n)).length_eq]
    rfl
  · have hwait := hp.filterMap fun x => x.2.injection
    rw [List.filterMap_append, List.filterMap_map] at hwait
    intro y hy
    rcases List.mem_append.1 (hwait.subset hy) with hy | hy
    · obtain ⟨z, hz, he⟩ := List.mem_filterMap.1 hy
      cases he
      exact hz
    · cases h.awaiting hy

end Harness

/-! ## Runs -/

namespace HarnessRun

variable {settings : Settings} {R : RandomSource} (run : HarnessRun settings R)

/-- The node goes down with the event from moment `k` on. -/
def GoesDown (k : ℕ) (n : NodeId) : Prop := n ∉ (run.state k).net.crashed ∧ n ∈ (run.state (k + 1)).net.crashed

/-- The node is down after moment `k` and up to moment `m`. -/
def DownUntil (k m : ℕ) (n : NodeId) : Prop := ∀ i, k < i → i ≤ m → n ∈ (run.state i).net.crashed

/-- At every moment the network takes for crashed who is not alive, and exactly these nodes have a restart that is due, each of them
one. The event with which a node goes down says for how long: as long as the node is down, its restart is due when that time is over,
no event comes after it, and if the node comes back it does so then. Without a schedule few are down, and a majority is alive. -/
structure CrashesPaired : Prop where
  agreed : ∀ k ≤ run.length, ∀ n, n ∈ (run.state k).net.crashed ↔ ((run.state k).cluster.world.nodes n).alive = false
  restarts : ∀ k ≤ run.length, ∀ n, ((run.state k).restarts n).length = if n ∈ (run.state k).net.crashed then 1 else 0
  lasts : ∀ k < run.length, ∀ n, run.GoesDown k n → ∃ fn d, (run.state k).next? = some fn ∧ Harness.Lasts R fn n d ∧
    ∀ m ≤ run.length, k < m → run.DownUntil k m n →
      (run.state m).restarts n = [run.now (k + 1) + d] ∧ run.now m ≤ run.now (k + 1) + d ∧
      (m < run.length → n ∉ (run.state (m + 1)).net.crashed → run.now (m + 1) = run.now (k + 1) + d)
  majority : settings.nemesis = none → ∀ k ≤ run.length,
    (run.state k).net.crashed.card ≤ (settings.numNodes - 1) / 2 ∧
      settings.numNodes < 2 * (settings.ids.filter fun n => ((run.state k).cluster.world.nodes n).alive).length

/-- The event from moment `k` on, and what it does to the nodes. -/
theorem passes {k : ℕ} (hk : k < run.length) : ∃ fn mid, Harness.Due fn (run.state k) mid ∧
    Harness.Passes settings fn mid (run.state (k + 1)) := by
  obtain ⟨fn, mid, hd, hcall⟩ := Harness.due_of_step (run.next k hk)
  exact ⟨fn, mid, hd, Harness.call_passes mid fn _ hcall⟩

theorem paired {k : ℕ} (hk : k ≤ run.length) : (run.state k).Paired := by
  induction k with
  | zero => exact (Harness.init_paired run.seed _ run.start).1
  | succ k ih =>
    obtain ⟨fn, mid, hd, hp⟩ := run.passes (show k < run.length by omega)
    exact (ih (by omega)).step hd hp

/-- A node that is down has one restart that is due, until it comes back with it. -/
theorem restart_step {k : ℕ} (hk : k < run.length) {n : NodeId} {t : Int} (hn : n ∈ (run.state k).net.crashed)
    (ht : (run.state k).restarts n = [t]) :
    (n ∈ (run.state (k + 1)).net.crashed ∧ (run.state (k + 1)).restarts n = [t]) ∨
      (n ∉ (run.state (k + 1)).net.crashed ∧ run.now (k + 1) = t) := by
  obtain ⟨fn, mid, hd, hp⟩ := run.passes hk
  have hdue := hd.restarts n
  rw [ht] at hdue
  have hkeep : fn ≠ .maybeResume n → (n ∈ (run.state (k + 1)).net.crashed ↔ n ∈ mid.net.crashed) →
      ((run.state (k + 1)).restarts n).Perm (mid.restarts n) →
      n ∈ (run.state (k + 1)).net.crashed ∧ (run.state (k + 1)).restarts n = [t] := by
    intro hfn hc hperm
    rw [if_neg hfn] at hdue
    rw [← hdue] at hperm
    rw [hd.net] at hc
    exact ⟨hc.2 hn, List.perm_singleton.1 hperm⟩
  cases hp with
  | steady hs hnot =>
    refine Or.inl (hkeep (fun hfn => ?_) (by rw [hs.crashed]) (hs.restarts n))
    rw [← hd.net] at hn
    exact hnot n hfn hn
  | down m d hl ha hcard hdown =>
    have hm : n ≠ m := by
      rintro rfl
      rw [hd.world] at ha
      have hdead := ((run.paired hk.le).agreed n).1 hn
      rw [ha] at hdead
      cases hdead
    obtain ⟨hc, -, hperm⟩ := hdown.others n hm
    refine Or.inl (hkeep (fun hfn => ?_) hc hperm)
    rw [hfn] at hl
    rcases hl with ⟨_, _, hl⟩ | ⟨hl, -⟩ <;> cases hl
  | back m hm hmem hb =>
    by_cases hnm : n = m
    · subst hnm
      rw [if_pos hm] at hdue
      refine Or.inr ⟨hb.crashed, ?_⟩
      rw [now, hb.now]
      exact (List.cons.inj hdue).1.symm
    · obtain ⟨hc, -, hperm⟩ := hb.others n hnm
      exact Or.inl (hkeep (fun hfn => hnm (Callback.maybeResume.inj (hfn.symm.trans hm))) hc hperm)

/-- A node that goes down has its restart due after the time that its crash lasts. -/
theorem restart_due {k : ℕ} (hk : k < run.length) {n : NodeId} (hn : run.GoesDown k n) :
    ∃ fn d, (run.state k).next? = some fn ∧ Harness.Lasts R fn n d ∧ (run.state (k + 1)).restarts n = [run.now (k + 1) + d] := by
  obtain ⟨hup, hdown⟩ := hn
  obtain ⟨fn, mid, hd, hp⟩ := run.passes hk
  have hnext : (run.state k).next? = some fn := by
    rw [Harness.next?, hd.pending]
    rfl
  have hlen := (run.paired hk.le).restarts n
  rw [if_neg hup] at hlen
  rw [← hd.net] at hup
  cases hp with
  | steady hs =>
    rw [hs.crashed] at hdown
    exact absurd hdown hup
  | down m d hl ha hcard hcrash =>
    by_cases hnm : n = m
    · subst hnm
      have hnone : mid.restarts n = [] := by
        have hdue := hd.restarts n
        split at hdue
        · rw [hdue] at hlen
          cases hlen
        · rw [← hdue]
          exact List.length_eq_zero_iff.1 hlen
      refine ⟨fn, d, hnext, hl, ?_⟩
      have hperm := hcrash.restarts
      rw [hnone] at hperm
      rw [now, hcrash.now]
      exact List.perm_singleton.1 hperm
    · exact absurd ((hcrash.others n hnm).1.1 hdown) hup
  | back m hm hmem hb =>
    by_cases hnm : n = m
    · exact absurd (hnm ▸ hdown) hb.crashed
    · exact absurd ((hb.others n hnm).1.1 hdown) hup

/-- The restart of a node that stays down stays due. -/
theorem restart_stays {k : ℕ} {n : NodeId} {t : Int} (ht : (run.state (k + 1)).restarts n = [t]) {m : ℕ} (hkm : k + 1 ≤ m)
    (hm : m ≤ run.length) (hdown : run.DownUntil k m n) : (run.state m).restarts n = [t] := by
  induction m, hkm using Nat.le_induction with
  | base => exact ht
  | succ m hkm ih =>
    have hbefore := ih (by omega) fun i hi hle => hdown i hi (by omega)
    rcases run.restart_step (show m < run.length by omega) (hdown m (by omega) (by omega)) hbefore with h | h
    · exact h.2
    · exact absurd (hdown (m + 1) (by omega) le_rfl) h.1

/-- Without a schedule no injection is ever due. -/
theorem awaiting (hs : settings.nemesis = none) {k : ℕ} (hk : k ≤ run.length) : (run.state k).awaiting = [] := by
  induction k with
  | zero =>
    have hsub := (Harness.init_paired run.seed _ run.start).2.2
    rw [Settings.injections, hs] at hsub
    exact List.subset_nil.1 hsub
  | succ k ih =>
    obtain ⟨fn, mid, hd, hp⟩ := run.passes (show k < run.length by omega)
    have hmid : mid.awaiting ⊆ (run.state k).awaiting := by
      rw [Harness.awaiting, Harness.awaiting, hd.pending]
      exact List.filterMap_subset _ (List.subset_cons_self _ _)
    have hsub := List.Subset.trans hp.awaiting hmid
    rw [ih (by omega)] at hsub
    exact List.subset_nil.1 hsub

/-- Without a schedule few are down. -/
theorem few (hs : settings.nemesis = none) {k : ℕ} (hk : k ≤ run.length) : Harness.Few settings (run.state k) := by
  induction k with
  | zero =>
    rw [Harness.Few, (Harness.init_paired run.seed _ run.start).2.1]
    exact Nat.zero_le _
  | succ k ih =>
    obtain ⟨fn, mid, hd, hp⟩ := run.passes (show k < run.length by omega)
    refine (ih (by omega)).step hd hp ?_
    rintro y rfl
    have hwait : y ∈ (run.state k).awaiting := by
      rw [Harness.awaiting, hd.pending]
      exact List.mem_cons_self
    rw [run.awaiting hs (by omega)] at hwait
    cases hwait

end HarnessRun

/-- In every run crashes and restarts pair up. -/
theorem crashes_and_restarts_pair_up {settings : Settings} {R : RandomSource} (run : HarnessRun settings R) : run.CrashesPaired where
  agreed k hk := (run.paired hk).agreed
  restarts k hk := (run.paired hk).restarts
  lasts k hk n hn := by
    obtain ⟨fn, d, hnext, hl, hdue⟩ := run.restart_due hk hn
    refine ⟨fn, d, hnext, hl, fun m hm hkm hdown => ?_⟩
    have hstays := run.restart_stays hdue hkm hm hdown
    refine ⟨hstays, ?_, fun hlt hback => ?_⟩
    · have hmem : run.now (k + 1) + d ∈ (run.state m).restarts n := by
        rw [hstays]
        exact List.mem_singleton_self _
      obtain ⟨x, hx, htime⟩ := List.mem_filterMap.1 hmem
      split at htime
      · rw [← Option.some.inj htime]
        exact Clock.timely_pending (c := (run.state m).sim.clock) hx
      · cases htime
    · rcases run.restart_step hlt (hdown m hkm le_rfl) hstays with h | h
      · exact absurd h.1 hback
      · exact h.2
  majority hs k hk := ⟨run.few hs hk, (run.few hs hk).majority (run.paired hk).agreed⟩

end DeterministicRaft
