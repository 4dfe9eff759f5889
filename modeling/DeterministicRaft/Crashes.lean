import DeterministicRaft.FaultWindows
import DeterministicRaft.Windows

/-!
# What the fault drivers do to the nodes

A node crashes only as the victim of one of the two drivers, which chooses it among the nodes that are alive and schedules its restart;
it comes back only with a restart that is due. Everything else leaves the nodes alive or down, and schedules no restart.
-/

namespace DeterministicRaft

open Refinement RaftNode

namespace Harness

variable {R : RandomSource} {settings : Settings} {self before mid after : Harness R} {n : NodeId} {d : Int}

/-- The times at which a restart of the node is due. -/
def restarts (self : Harness R) (n : NodeId) : List Int :=
  self.pending.filterMap fun x => if x.2 = .maybeResume n then some x.1 else none

/-- What is scheduled is no restart. -/
theorem restarts_perm {new : List (Int × Callback)} (h : after.pending.Perm (new ++ self.pending))
    (hnew : ∀ x ∈ new, x.2 ≠ .maybeResume n) : (after.restarts n).Perm (self.restarts n) := by
  have hnone : new.filterMap (fun x => if x.2 = .maybeResume n then some x.1 else none) = [] :=
    List.filterMap_eq_nil_iff.2 fun x hx => if_neg (hnew x hx)
  have hp := h.filterMap fun x => if x.2 = .maybeResume n then some x.1 else none
  rw [List.filterMap_append, hnone, List.nil_append] at hp
  exact hp

/-- What is scheduled is no injection. -/
theorem awaiting_subset {new : List (Int × Callback)} (h : after.pending.Perm (new ++ self.pending))
    (hnew : ∀ x ∈ new, x.2.injection = none) : after.awaiting ⊆ self.awaiting := by
  have hp := h.filterMap fun x => x.2.injection
  rw [List.filterMap_append, List.filterMap_eq_nil_iff.2 hnew, List.nil_append] at hp
  exact hp.subset

/-- A plain callback is no restart. -/
theorem plain_ne_maybeResume {fn : Callback} (h : fn.Plain) : fn ≠ .maybeResume n := by
  rintro rfl
  exact h

/-! ## Nothing crashes and nothing comes back -/

/-- From the one moment to the other no node has crashed or come back, and no restart and no injection was scheduled. -/
structure Steady (before after : Harness R) : Prop where
  now : after.sim.clock.now = before.sim.clock.now
  crashed : after.net.crashed = before.net.crashed
  alive : SameAlive before.cluster.world after.cluster.world
  restarts : ∀ n, (after.restarts n).Perm (before.restarts n)
  awaiting : after.awaiting ⊆ before.awaiting

namespace Steady

/-- What leaves the clock, the crashes and the nodes alone. -/
theorem of_clock (hc : after.sim.clock = self.sim.clock) (hf : after.net.crashed = self.net.crashed)
    (ha : SameAlive self.cluster.world after.cluster.world) : Steady self after where
  now := by rw [hc]
  crashed := hf
  alive := ha
  restarts n := by rw [Harness.restarts, Harness.restarts, Harness.pending, Harness.pending, hc]
  awaiting := by
    rw [Harness.awaiting, Harness.awaiting, Harness.pending, Harness.pending, hc]
    exact List.Subset.refl _

/-- Nothing happens. -/
theorem refl (self : Harness R) : Steady self self := of_clock rfl rfl fun _ => rfl

/-- One part after the other. -/
theorem trans (h : Steady self mid) (h' : Steady mid after) : Steady self after where
  now := h'.now.trans h.now
  crashed := h'.crashed.trans h.crashed
  alive n := (h'.alive n).trans (h.alive n)
  restarts n := (h'.restarts n).trans (h.restarts n)
  awaiting := List.Subset.trans h'.awaiting h.awaiting

/-- A callback that is no restart is scheduled. -/
theorem schedule (self : Harness R) (delay : Int) {fn : Callback} (hfn : ∀ n, fn ≠ .maybeResume n) (hi : fn.injection = none) :
    Ensures (self.schedule delay fn) (Steady self) := by
  refine (schedule_pending self delay fn).mono ?_
  rintro after ⟨-, hnow, hnet, hcluster, hp⟩
  have hp : after.pending.Perm ([(self.sim.clock.now + delay, fn)] ++ self.pending) := hp
  refine ⟨hnow, by rw [hnet], by rw [hcluster]; exact fun _ => rfl, fun n => restarts_perm hp ?_, awaiting_subset hp ?_⟩
  · intro x hx
    rw [List.mem_singleton.1 hx]
    exact hfn n
  · intro x hx
    rw [List.mem_singleton.1 hx]
    exact hi

/-- What is no fault crashes nobody. -/
theorem frame : Frame (Steady (R := R)) where
  trans h h' := h.trans h'
  unchanged hc hf ha _ := of_clock hc hf.crashed ha
  schedule self delay _ hfn := schedule self delay (fun _ => plain_ne_maybeResume hfn) hfn.injection

/-- A step that keeps everyone as it is, and then an operation that does. -/
theorem next {x : Except SimError (Harness R)} (h : Steady self mid) (hx : Ensures x (Steady mid)) : Ensures x (Steady self) :=
  hx.mono fun _ => h.trans

/-- A partition is set, or raises. -/
theorem setPartition (self : Harness R) (groups : List (Finset NodeId)) :
    Ensures (self.setPartition settings groups) (Steady self) := by
  unfold Harness.setPartition SimNetwork.setPartition
  simp only
  split
  · rename_i net hn
    split at hn
    · cases hn
    · cases hn
      exact Ensures.pure (of_clock rfl rfl fun _ => rfl)
  · exact fun _ h => nomatch h

/-- The partition heals. -/
theorem healPartition (self : Harness R) : Steady self (self.healPartition settings) := of_clock rfl rfl fun _ => rfl

/-- A link goes down. -/
theorem linkDown (self : Harness R) (a b : NodeId) : Steady self (self.linkDown a b) := by
  unfold Harness.linkDown
  split
  · exact refl self
  · exact of_clock rfl rfl fun _ => rfl

/-- A link comes up. -/
theorem linkUp (self : Harness R) (a b : NodeId) : Steady self (self.linkUp a b) := by
  unfold Harness.linkUp
  split
  · exact of_clock rfl rfl fun _ => rfl
  · exact refl self

/-- A link is cleared. -/
theorem clearLossyLink (self : Harness R) (a b : NodeId) : Steady self (self.clearLossyLink a b) := by
  unfold Harness.clearLossyLink
  split
  · exact of_clock rfl rfl fun _ => rfl
  · exact refl self

/-- A fault gets its ordinal. -/
theorem fireFault (self : Harness R) : Steady self (self.fireFault settings).2 := of_clock rfl rfl fun _ => rfl

/-- What an injection does once it has its ordinal: nothing if it is suppressed. -/
theorem fires (self : Harness R) {x : Harness R → Except SimError (Harness R)} {Q : Harness R → Prop}
    (hskip : ∀ s, Steady self s → Q s) (hx : ∀ s, Steady self s → Ensures (x s) Q) :
    Ensures (if (self.fireFault settings).1 then x (self.fireFault settings).2 else .ok (self.fireFault settings).2) Q := by
  have hfire : Steady self (self.fireFault settings).2 := fireFault self
  split
  · exact hx _ hfire
  · exact Ensures.pure (hskip _ hfire)

/-- The partition patterns. -/
theorem split (self : Harness R) (groups : List (Finset NodeId)) (duration : Int) :
    Ensures (self.split settings groups duration) (Steady self) := by
  have hsplit : ∀ s, Steady self s → Ensures (do
      let s' ← s.setPartition settings groups
      s'.schedule duration .healPartition) (Steady self) := fun s h =>
    Ensures.bind (next h (setPartition s groups)) fun s' hs => next hs (schedule s' _ (by simp) rfl)
  exact fires self (fun _ h => h) hsplit

/-- The random partitions. -/
theorem partitionTick (self : Harness R) : Ensures (self.partitionTick settings) (Steady self) := by
  unfold Harness.partitionTick
  split
  · exact Ensures.pure (refl self)
  split
  · have h := frame.chance self (1 / 4)
    refine Ensures.pure ?_
    split
    · exact h.trans (healPartition (self.chance (1 / 4)).2)
    · exact h
  · have h := frame.chance self (3 / 20)
    simp only
    split
    · refine Ensures.bind (Q := fun draws => Steady self draws.2)
        (Ensures.foldlM (fun draws i hd => ?_) h) fun draws hd => ?_
      · refine Ensures.bind (frame.randint draws.2 0 1) fun draw hdraw => ?_
        exact Ensures.pure (hd.trans hdraw)
      · split
        · exact Ensures.pure hd
        · exact next hd (fires draws.2 (fun _ h => h) fun s hs => next hs (setPartition s _))
    · exact Ensures.pure h

end Steady

/-! ## A crash, and a restart -/

/-- Nothing has happened to the other nodes. -/
def Spares (n : NodeId) (before after : Harness R) : Prop := ∀ m ≠ n, (m ∈ after.net.crashed ↔ m ∈ before.net.crashed) ∧
  (after.cluster.world.nodes m).alive = (before.cluster.world.nodes m).alive ∧ (after.restarts m).Perm (before.restarts m)

/-- The node has crashed, and its restart is due after the time `d`. -/
structure Downed (n : NodeId) (d : Int) (before after : Harness R) : Prop where
  now : after.sim.clock.now = before.sim.clock.now
  others : Spares n before after
  crashed : n ∈ after.net.crashed
  down : (after.cluster.world.nodes n).alive = false
  restarts : (after.restarts n).Perm ((before.sim.clock.now + d) :: before.restarts n)
  awaiting : after.awaiting ⊆ before.awaiting

/-- The node has come back. -/
structure Back (n : NodeId) (before after : Harness R) : Prop where
  now : after.sim.clock.now = before.sim.clock.now
  others : Spares n before after
  crashed : n ∉ after.net.crashed
  up : (after.cluster.world.nodes n).alive = true
  restarts : (after.restarts n).Perm (before.restarts n)
  awaiting : after.awaiting ⊆ before.awaiting

/-- What leaves the nodes alone spares each of them. -/
theorem Steady.spares (h : Steady before after) (n : NodeId) : Spares n before after :=
  fun m _ => ⟨by rw [h.crashed], h.alive m, h.restarts m⟩

/-- One part after the other. -/
theorem Spares.trans (h : Spares n before mid) (h' : Spares n mid after) : Spares n before after :=
  fun m hm => ⟨(h' m hm).1.trans (h m hm).1, (h' m hm).2.1.trans (h m hm).2.1, (h' m hm).2.2.trans (h m hm).2.2⟩

/-- A change of a node's state alone schedules no restart. -/
theorem Changed.restarts {t : Target} (h : Changed t before after) (m : NodeId) : (after.restarts m).Perm (before.restarts m) := by
  obtain ⟨new, hp, hnew⟩ := h.pending
  exact restarts_perm hp fun x hx => plain_ne_maybeResume (hnew x hx)

/-- A strike lets nothing new wait. -/
theorem Changed.awaiting {t : Target} (h : Changed t before after) : after.awaiting ⊆ before.awaiting := by
  obtain ⟨new, hp, hnew⟩ := h.pending
  exact awaiting_subset hp fun x hx => (hnew x hx).injection

/-- A crash spares the others. -/
theorem Changed.spares (h : Changed (.crash n) before after) : Spares n before after := by
  intro m hm
  have hu := h.others (.crash m) fun he => hm (Target.crash.inj he)
  exact ⟨hu.1, hu.2, h.restarts m⟩

/-- A crash, and the restart scheduled. -/
theorem pause_downed (self : Harness R) (n : NodeId) (d : Int) :
    Ensures (do
      let mid ← self.pause settings n
      mid.schedule d (.maybeResume n)) (Downed n d self) := by
  refine Ensures.bind (pause_changed self n) fun mid ⟨h, hc, ha⟩ => ?_
  refine (schedule_pending mid d (.maybeResume n)).mono ?_
  rintro after ⟨-, hnow, hnet, hcluster, hp⟩
  have hp : after.pending.Perm ([(mid.sim.clock.now + d, .maybeResume n)] ++ mid.pending) := hp
  refine ⟨hnow.trans h.now, h.spares.trans fun m hm => ⟨by rw [hnet], by rw [hcluster], ?_⟩, by rwa [hnet], by rwa [hcluster],
    ?_, ?_⟩
  · refine restarts_perm hp fun x hx => ?_
    rw [List.mem_singleton.1 hx]
    exact fun he => hm (Callback.maybeResume.inj he).symm
  · have hq := hp.filterMap fun x => if x.2 = .maybeResume n then some x.1 else none
    rw [List.singleton_append, List.filterMap_cons, if_pos rfl, h.now] at hq
    exact hq.trans ((h.restarts n).cons _)
  · have hnone : after.awaiting ⊆ mid.awaiting := by
      refine awaiting_subset hp fun x hx => ?_
      rw [List.mem_singleton.1 hx]
      rfl
    exact List.Subset.trans hnone h.awaiting

/-- Steps that keep everyone as it is, before a crash and after it. -/
theorem Downed.between (h : Steady before self) (hd : Downed n d self mid) (h' : Steady mid after) : Downed n d before after where
  now := h'.now.trans (hd.now.trans h.now)
  others := (h.spares n).trans (hd.others.trans (h'.spares n))
  crashed := by
    rw [h'.crashed]
    exact hd.crashed
  down := (h'.alive n).trans hd.down
  restarts := by
    rw [← h.now]
    exact (h'.restarts n).trans (hd.restarts.trans ((h.restarts n).cons _))
  awaiting := List.Subset.trans h'.awaiting (List.Subset.trans hd.awaiting h.awaiting)

/-! ## The drivers -/

/-- How long a crash of the node lasts that the event brings about: as the injection says, or as it was drawn. -/
def Lasts (R : RandomSource) (fn : Callback) (n : NodeId) (d : Int) : Prop :=
  (∃ time start, fn = .nemesisFire ⟨time, .crashNode n start d⟩) ∨ (fn = .faultTick ∧ ∃ rng : R.State, d = (R.randint 100 400 rng).1)

/-- What an event does to the nodes: nothing; or one that was alive crashes, the random driver's victim only while few others are down;
or one that was down comes back. -/
inductive Passes (settings : Settings) (fn : Callback) (before after : Harness R) : Prop
  | steady (h : Steady before after) (hfn : ∀ n, fn = .maybeResume n → n ∉ before.net.crashed)
  | down (n : NodeId) (d : Int) (hl : Lasts R fn n d) (ha : (before.cluster.world.nodes n).alive = true)
      (hcard : (∀ y, fn ≠ .nemesisFire y) → before.net.crashed.card < (settings.numNodes - 1) / 2) (h : Downed n d before after)
  | back (n : NodeId) (hfn : fn = .maybeResume n) (hn : n ∈ before.net.crashed) (h : Back n before after)

/-- No event schedules an injection. -/
theorem Passes.awaiting {fn : Callback} (h : Passes settings fn before after) : after.awaiting ⊆ before.awaiting := by
  cases h with
  | steady h => exact h.awaiting
  | down n d hl ha hcard h => exact h.awaiting
  | back n hfn hn h => exact h.awaiting

/-- What a drawn delay is. -/
theorem randint_drawn (self : Harness R) (lo hi : Int) : Ensures (self.randint lo hi) fun draw =>
    Steady self draw.2 ∧ ∃ rng : R.State, draw.1 = (R.randint lo hi rng).1 := by
  intro draw hdraw
  refine ⟨Steady.frame.randint self lo hi draw hdraw, ?_⟩
  obtain ⟨d, hd, hret⟩ := bind_eq_ok.1 hdraw
  cases hret
  unfold Simulator.randint at hd
  split at hd
  · cases hd
  · cases hd
    exact ⟨self.sim.rng, rfl⟩

/-- The random crashes: nobody crashes, or a node that was alive does, while few others are down. -/
theorem crashTick_cases (self : Harness R) : Ensures (self.crashTick settings) fun after => Steady self after ∨
    ∃ n d, (∃ rng : R.State, d = (R.randint 100 400 rng).1) ∧ (self.cluster.world.nodes n).alive = true ∧
      self.net.crashed.card < (settings.numNodes - 1) / 2 ∧ Downed n d self after := by
  unfold Harness.crashTick
  have h : Steady self (if settings.profile.crashes then self.chance (1 / 10) else (false, self)).2 := by
    split
    · exact Steady.frame.chance self _
    · exact Steady.refl self
  generalize (if settings.profile.crashes then self.chance (1 / 10) else (false, self)) = draw at h ⊢
  obtain ⟨crashes, s⟩ := draw
  simp only at h ⊢
  split
  · generalize hcand : (if s.net.crashed.card < (settings.numNodes - 1) / 2 then
        settings.ids.filter fun n => (s.cluster.world.nodes n).alive else []) = candidates
    split
    · exact Ensures.pure (Or.inl h)
    · refine Ensures.bind (Q := fun draw => draw.1 ∈ candidates ∧ Steady s { s with sim := draw.2 })
        (fun draw hd => ⟨choice_mem s candidates draw hd, Steady.frame.choice s candidates draw hd⟩) ?_
      rintro ⟨victim, sim⟩ ⟨hmem, hs⟩
      have hs' : Steady self { s with sim } := h.trans hs
      rw [← hcand] at hmem
      split at hmem
      · rename_i hfew
        have halive : (s.cluster.world.nodes victim).alive = true := (List.mem_filter.1 hmem).2
        rw [h.alive] at halive
        rw [h.crashed] at hfew
        refine Ensures.bind (randint_drawn { s with sim } 100 400) ?_
        rintro ⟨resumeDelay, s1⟩ ⟨h1, rng, hrng⟩
        have h1 : Steady self s1 := hs'.trans h1
        refine Steady.fires s1 (fun s2 h2 => Or.inl (h1.trans h2)) fun s2 h2 =>
          (pause_downed s2 victim resumeDelay).mono fun after hd => Or.inr ?_
        exact ⟨victim, resumeDelay, ⟨rng, hrng⟩, halive, hfew, hd.between (h1.trans h2) (Steady.refl after)⟩
      · cases hmem
  · exact Ensures.pure (Or.inl h)

/-- The random driver. -/
theorem faultTick_passes (self : Harness R) : Ensures (self.faultTick settings) (Passes settings .faultTick self) := by
  unfold Harness.faultTick
  refine Ensures.bind (Steady.partitionTick self) fun s1 h1 => ?_
  refine Ensures.bind (crashTick_cases s1) fun s2 h2 => ?_
  refine (Steady.schedule s2 FAULT_INTERVAL (by simp) rfl).mono fun after h3 => ?_
  rcases h2 with h2 | ⟨n, d, hd, ha, hcard, h2⟩
  · exact .steady ((h1.trans h2).trans h3) nofun
  · rw [h1.alive] at ha
    rw [h1.crashed] at hcard
    exact .down n d (Or.inr ⟨rfl, hd⟩) ha (fun _ => hcard) (h2.between h1 h3)

/-- The injections of a schedule. -/
theorem nemesisFire_passes (self : Harness R) (y : Injection) :
    Ensures (self.nemesisFire settings y.op) (Passes settings (.nemesisFire y) self) := by
  have hsteady : ∀ {x : Except SimError (Harness R)}, Ensures x (Steady self) →
      Ensures x (Passes settings (.nemesisFire y) self) := fun hx => hx.mono fun _ h => .steady h nofun
  obtain ⟨time, op⟩ := y
  unfold Harness.nemesisFire
  cases op with
  | partitionHalves start duration =>
    simp only
    split
    · exact hsteady (Ensures.pure (Steady.frame.record self _))
    · exact hsteady (Steady.split self _ duration)
  | isolateLeader start duration =>
    simp only
    split
    · exact hsteady (Ensures.pure (Steady.frame.record self _))
    · split
      · exact hsteady (Ensures.pure (Steady.frame.record self _))
      · exact hsteady (Steady.split self _ duration)
  | flappingLink a b start period cycles =>
    exact hsteady (Steady.fires self (fun _ h => h) fun s hs =>
      Steady.next (hs.trans (Steady.linkDown s a b)) (Steady.schedule _ _ (by simp) rfl))
  | lossyLink a b start duration dropP =>
    have hset : ∀ s : Harness R, Steady s (s.setLossyLink a b dropP) := fun _ => Steady.of_clock rfl rfl fun _ => rfl
    exact hsteady (Steady.fires self (fun _ h => h) fun s hs =>
      Steady.next (hs.trans (hset s)) (Steady.schedule _ _ (by simp) rfl))
  | crashNode n start duration =>
    simp only
    split
    · exact hsteady (Ensures.pure (Steady.frame.record self _))
    · rename_i ha
      refine Steady.fires self (fun _ h => Passes.steady h fun m hm => by cases hm) fun s hs =>
        (pause_downed s n duration).mono fun after hd => ?_
      refine .down n duration (Or.inl ⟨time, start, rfl⟩) (Bool.of_not_eq_false ha) (fun h => absurd rfl (h _)) ?_
      exact hd.between hs (Steady.refl after)

/-- A restart that is due. -/
theorem maybeResume_passes (self : Harness R) (n : NodeId) :
    Ensures (self.maybeResume settings n) (Passes settings (.maybeResume n) self) := by
  unfold Harness.maybeResume
  split
  · rename_i hn
    refine (resume_changed self n).mono fun after h => .back n rfl hn ?_
    exact ⟨h.now, h.spares, h.lifted.1, h.lifted.2, h.restarts n, h.awaiting⟩
  · rename_i hn
    refine Ensures.pure (.steady (Steady.refl self) fun m hm => ?_)
    rwa [← Callback.maybeResume.inj hm]

/-- What any event does to the nodes. -/
theorem call_passes (self : Harness R) (fn : Callback) : Ensures (self.call settings fn) (Passes settings fn self) := by
  cases fn with
  | nemesisFire y => exact nemesisFire_passes self y
  | faultTick => exact faultTick_passes self
  | maybeResume n => exact maybeResume_passes self n
  | healPartition => exact Ensures.pure (.steady (Steady.healPartition self) nofun)
  | linkUp a b => exact Ensures.pure (.steady (Steady.linkUp self a b) nofun)
  | clearLossyLink a b => exact Ensures.pure (.steady (Steady.clearLossyLink self a b) nofun)
  | _ =>
    refine Ensures.mono (Steady.frame.call self ?_) fun _ h => .steady h nofun
    all_goals trivial

end Harness

end DeterministicRaft
