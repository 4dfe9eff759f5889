import DeterministicRaft.Calm

/-!
# What an injection does, and what a recovery does

A fault has a target: the one partition, a link, or a node. An injection changes the state of its own target and schedules the
recovery; a recovery changes the state of its own target back. Nothing else changes the state of a target.
-/

namespace DeterministicRaft

open Refinement RaftNode

/-- What a fault acts on. -/
inductive Target where
  | partition
  | down (link : Finset NodeId)
  | lossy (link : Finset NodeId)
  | crash (node : NodeId)
  deriving DecidableEq

namespace NemesisOp

/-- What the pattern strikes. -/
def target : NemesisOp → Target
  | partitionHalves _ _ => .partition
  | isolateLeader _ _ => .partition
  | flappingLink a b _ _ _ => .down (link a b)
  | lossyLink a b _ _ _ => .lossy (link a b)
  | crashNode node _ _ => .crash node

/-- The recovery that is scheduled with the fault. -/
def recovery : NemesisOp → Callback
  | partitionHalves _ _ => .healPartition
  | isolateLeader _ _ => .healPartition
  | flappingLink a b _ _ _ => .linkUp a b
  | lossyLink a b _ _ _ => .clearLossyLink a b
  | crashNode node _ _ => .maybeResume node

end NemesisOp

/-- The target whose fault the callback ends. -/
def Callback.ends : Callback → Option Target
  | .healPartition => some .partition
  | .linkUp a b => some (.down (link a b))
  | .clearLossyLink a b => some (.lossy (link a b))
  | .maybeResume node => some (.crash node)
  | _ => none

/-- The recovery of a pattern ends what it strikes. -/
@[simp] theorem NemesisOp.ends_recovery (op : NemesisOp) : op.recovery.ends = some op.target := by cases op <;> rfl

/-- Plain callbacks end no window. -/
theorem Callback.Plain.ends {fn : Callback} (h : fn.Plain) : fn.ends = none := by
  cases fn <;> first | rfl | exact h.elim

/-- The injection the callback fires. -/
def Callback.injection : Callback → Option Injection
  | .nemesisFire injection => some injection
  | _ => none

/-- Only the schedule's callbacks are injections. -/
theorem Callback.injection_eq {fn : Callback} {injection : Injection} :
    fn.injection = some injection ↔ fn = .nemesisFire injection := by
  cases fn <;> simp [Callback.injection]

/-- Plain callbacks are no injections. -/
theorem Callback.Plain.injection {fn : Callback} (h : fn.Plain) : fn.injection = none := by
  cases fn <;> first | rfl | exact h.elim

/-- What ends a window is no injection. -/
theorem Callback.injection_of_ends {fn : Callback} {t : Target} (h : fn.ends = some t) : fn.injection = none := by
  cases fn <;> first | rfl | exact nomatch h

/-- The recovery of a pattern is no injection. -/
theorem NemesisOp.recovery_ne (op : NemesisOp) (injection : Injection) : op.recovery ≠ .nemesisFire injection := by
  cases op <;> exact nofun

namespace Harness

variable {R : RandomSource} {settings : Settings} {self before mid after : Harness R}

/-! ## The state of a target -/

/-- The state of the target has not changed. -/
def Unchanged (before after : Harness R) : Target → Prop
  | .partition => after.net.group = before.net.group
  | .down l => l ∈ after.net.downLinks ↔ l ∈ before.net.downLinks
  | .lossy l => after.net.lossyLinks.lookup l = before.net.lossyLinks.lookup l
  | .crash n => (n ∈ after.net.crashed ↔ n ∈ before.net.crashed) ∧
    (after.cluster.world.nodes n).alive = (before.cluster.world.nodes n).alive

/-- What leaves a target alone, in two parts. -/
theorem Unchanged.trans {t : Target} (h : Unchanged before mid t) (h' : Unchanged mid after t) : Unchanged before after t := by
  cases t with
  | partition => exact Eq.trans h' h
  | down l => exact Iff.trans h' h
  | lossy l => exact Eq.trans h' h
  | crash n => exact ⟨h'.1.trans h.1, h'.2.trans h.2⟩

/-- What leaves all faults alone leaves a target alone. -/
theorem Calm.unchanged (h : Calm before after) (t : Target) : Unchanged before after t := by
  cases t with
  | partition => exact h.faults.group
  | down l =>
    unfold Unchanged
    rw [h.faults.downLinks]
  | lossy l =>
    unfold Unchanged
    rw [h.faults.lossyLinks]
  | crash n => exact ⟨by rw [h.faults.crashed], h.alive n⟩

/-- The nodes of the one set are in the first group, those of the other in the second. -/
def Split (self : Harness R) (low high : Finset NodeId) : Prop :=
  (∀ a ∈ low, self.net.group a = 0) ∧ ∀ b ∈ high, self.net.group b = 1

/-- The fault of an injection that fired at the moment `origin` is in force. -/
def Held (settings : Settings) (origin self : Harness R) : NemesisOp → Prop
  | .partitionHalves _ _ => self.Split settings.halves.1 settings.halves.2
  | .isolateLeader _ _ => ∀ victim, origin.leader settings = some victim → self.Split {victim} (settings.others victim)
  | .flappingLink a b _ _ _ => link a b ∈ self.net.downLinks
  | .lossyLink a b _ _ dropP => self.net.lossyLinks.lookup (link a b) = some dropP
  | .crashNode n _ _ => n ∈ self.net.crashed ∧ (self.cluster.world.nodes n).alive = false

/-- A window that is held stays so while its target is left alone. -/
theorem Held.of_unchanged {origin : Harness R} {op : NemesisOp} (h : Held settings origin before op)
    (hu : Unchanged before after op.target) : Held settings origin after op := by
  cases op with
  | partitionHalves =>
    have hg : after.net.group = before.net.group := hu
    unfold Held Split
    rw [hg]
    exact h
  | isolateLeader =>
    have hg : after.net.group = before.net.group := hu
    unfold Held Split
    rw [hg]
    exact h
  | flappingLink => exact hu.2 h
  | lossyLink => exact Eq.trans hu h
  | crashNode => exact ⟨hu.1.2 h.1, hu.2.trans h.2⟩

/-- No fault of the target is in force. -/
def Lifted (settings : Settings) (self : Harness R) : Target → Prop
  | .partition => ∀ a ∈ settings.ids, ∀ b ∈ settings.ids, self.net.group a = self.net.group b
  | .down l => l ∉ self.net.downLinks
  | .lossy l => self.net.lossyLinks.lookup l = none
  | .crash n => n ∉ self.net.crashed ∧ (self.cluster.world.nodes n).alive = true

/-- The network takes for crashed who is not alive. -/
def Agreed (self : Harness R) : Prop := ∀ n, n ∈ self.net.crashed ↔ (self.cluster.world.nodes n).alive = false

/-- The injection has a target: a second half; a believed leader, and others to cut it off from; a node that is not down. -/
def Ready (settings : Settings) (self : Harness R) : NemesisOp → Prop
  | .partitionHalves _ _ => 2 ≤ settings.numNodes
  | .isolateLeader _ _ => 2 ≤ settings.numNodes ∧ (self.leader settings).isSome
  | .crashNode n _ _ => (self.cluster.world.nodes n).alive = true
  | _ => True

/-! ## What can happen -/

/-- The injection has taken effect, its recovery is due in time, and no other target is touched. -/
structure Injected (settings : Settings) (op : NemesisOp) (before after : Harness R) : Prop where
  now : after.sim.clock.now = before.sim.clock.now
  held : Held settings before after op
  others : ∀ t ≠ op.target, Unchanged before after t
  pending : ∃ new, after.pending.Perm ((before.sim.clock.now + op.length, op.recovery) :: (new ++ before.pending)) ∧
    ∀ x ∈ new, x.2.Plain

/-- Only the state of the target has changed, and only plain events were scheduled. -/
structure Changed (target : Target) (before after : Harness R) : Prop where
  now : after.sim.clock.now = before.sim.clock.now
  others : ∀ t ≠ target, Unchanged before after t
  pending : ∃ new, after.pending.Perm (new ++ before.pending) ∧ ∀ x ∈ new, x.2.Plain

/-- The fault of the target has ended. -/
structure Ended (settings : Settings) (target : Target) (before after : Harness R) : Prop extends Changed target before after where
  lifted : Lifted settings after target

/-- The injection has taken effect, or it had no target and nothing has happened. -/
def Fired (settings : Settings) (op : NemesisOp) (before after : Harness R) : Prop :=
  (Ready settings before op ∧ Injected settings op before after) ∨ (¬Ready settings before op ∧ Calm before after)

/-- What an event does. -/
inductive Happens (settings : Settings) (before after : Harness R) : Callback → Prop
  | plain {fn : Callback} (hfn : fn.Plain) (h : Calm before after) : Happens settings before after fn
  | fired {injection : Injection} (h : Fired settings injection.op before after) :
      Happens settings before after (.nemesisFire injection)
  | ended {fn : Callback} {target : Target} (hfn : fn.ends = some target) (h : Ended settings target before after) :
      Happens settings before after fn

/-! ## Injections -/

/-- A change of a target, and the recovery scheduled. -/
theorem Injected.of_changed (op : NemesisOp) (h : Changed op.target before mid) (hh : Held settings before mid op) :
    Ensures (mid.schedule op.length op.recovery) (Injected settings op before) := by
  refine (schedule_pending mid _ _).mono ?_
  rintro after ⟨-, hnow, hnet, hcluster, hp⟩
  have hsame : ∀ t, Unchanged mid after t := by
    intro t
    cases t <;> simp only [Unchanged, hnet, hcluster, and_self]
  obtain ⟨new, hq, hnew⟩ := h.pending
  refine ⟨hnow.trans h.now, hh.of_unchanged (hsame _), fun t ht => (h.others t ht).trans (hsame t), new, ?_, hnew⟩
  rw [h.now] at hp
  exact hp.trans (hq.cons _)

/-- A change of the network alone. -/
theorem Changed.of_clock {t : Target} (hc : after.sim.clock = before.sim.clock) (ho : ∀ t' ≠ t, Unchanged before after t') :
    Changed t before after where
  now := by rw [hc]
  others := ho
  pending := ⟨[], by rw [Harness.pending, hc]; exact .refl _, by simp⟩

/-- Without suppressed ordinals every fault fires. -/
theorem fireFault_eq (hs : settings.suppressed = ∅) (self : Harness R) :
    self.fireFault settings = (true, { self with faultSeq := self.faultSeq + 1 }) := by
  simp [fireFault, hs]

/-- The partition patterns. -/
theorem split_injected (hs : settings.suppressed = ∅) (self : Harness R) (low high : Finset NodeId) (hd : Disjoint low high)
    (op : NemesisOp) (ht : op.target = .partition) (hrec : op.recovery = .healPartition)
    (hh : ∀ after : Harness R, after.Split low high → Held settings self after op) :
    Ensures (self.split settings [low, high] op.length) (Injected settings op self) := by
  unfold split
  rw [fireFault_eq hs]
  simp only [if_true]
  refine Ensures.bind (Q := fun mid => Changed op.target self mid ∧ Held settings self mid op) ?_ fun mid h => ?_
  · unfold Harness.setPartition SimNetwork.setPartition
    simp only
    split
    · rename_i net hn
      split at hn
      · cases hn
      · cases hn
        refine Ensures.pure ⟨.of_clock rfl ?_, hh _ ?_⟩
        · intro t hne
          rw [ht] at hne
          cases t with
          | partition => exact absurd rfl hne
          | down l => exact Iff.rfl
          | lossy l => rfl
          | crash n => exact ⟨Iff.rfl, rfl⟩
        · refine ⟨fun a ha => ?_, fun b hb => ?_⟩
          · have hna : a ∉ high := Finset.disjoint_left.1 hd ha
            simp [Harness.record, SimNetwork.writeGroups, ha, hna]
          · simp [Harness.record, SimNetwork.writeGroups, hb]
    · exact fun _ h => nomatch h
  · rw [← hrec]
    exact Injected.of_changed op h.1 h.2

/-- After a crash or a restart of a node, the other nodes are as alive as before. -/
def Brings (n : NodeId) (alive : Bool) (w w' : World) : Prop :=
  (w'.nodes n).alive = alive ∧ ∀ m ≠ n, (w'.nodes m).alive = (w.nodes m).alive

/-- An operation after which the node is alive, or is not. -/
theorem perform_brings (alive : Bool) {w : World} {n : NodeId} {op : RaftNode → RaftNode} (h : (op (w.nodes n)).alive = alive) :
    Ensures (w.perform n fun self => .ok (op self)) (Brings n alive w) := by
  refine Ensures.pure ⟨?_, fun m hm => ?_⟩
  · simp only [Function.update_self]
    exact h
  · simp only [Function.update_of_ne hm]

/-- An action on a node that has gone down in the network's books, or come back. -/
theorem act_changed (self : Harness R) (net : SimNetwork) {n : NodeId} {alive : Bool} {action : Action}
    (hw : Ensures (self.cluster.world.step action) (Brings n alive self.cluster.world))
    (ho : ∀ t ≠ Target.crash n, Unchanged self { self with net } t) :
    Ensures (act settings { self with net } action) fun after => Changed (.crash n) self after ∧
      (n ∈ after.net.crashed ↔ n ∈ net.crashed) ∧ (after.cluster.world.nodes n).alive = alive := by
  unfold act
  refine Ensures.bind (Ensures.raising ((Cluster.act_world _ self.cluster action).mono fun c hc => hw _ hc)) fun c hc => ?_
  refine (Calm.frame.follow { self with net } c).mono fun after h => ⟨⟨h.now, ?_, h.pending⟩, (h.unchanged (.crash n)).1, ?_⟩
  · intro t ht
    have hc' : Unchanged self { self with net, cluster := c } t := by
      cases t with
      | crash m => exact ⟨(ho _ ht).1, hc.2 m fun hm => ht (by rw [hm])⟩
      | _ => exact ho _ ht
    exact hc'.trans (h.unchanged t)
  · exact (h.alive n).trans hc.1

/-- A crash. -/
theorem pause_changed (self : Harness R) (n : NodeId) : Ensures (self.pause settings n) fun after =>
    Changed (.crash n) self after ∧ n ∈ after.net.crashed ∧ (after.cluster.world.nodes n).alive = false := by
  unfold Harness.pause
  refine Ensures.bind (act_changed self { self.net with crashed := insert n self.net.crashed }
    (perform_brings false (by rw [pause_fields])) ?_) ?_
  · intro t ht
    cases t with
    | crash m =>
      have hm : m ≠ n := fun hm => ht (by rw [hm])
      exact ⟨by simp [hm], rfl⟩
    | down l => exact Iff.rfl
    | _ => rfl
  · intro after ⟨h, hc, ha⟩
    exact Ensures.pure ⟨⟨h.now, h.others, h.pending⟩, hc.2 (Finset.mem_insert_self _ _), ha⟩

/-- A restart. -/
theorem resume_changed (self : Harness R) (n : NodeId) : Ensures (self.resume settings n) (Ended settings (.crash n) self) := by
  unfold Harness.resume
  refine Ensures.bind (act_changed self { self.net with crashed := self.net.crashed.erase n }
    (perform_brings true rfl) ?_) ?_
  · intro t ht
    cases t with
    | crash m =>
      have hm : m ≠ n := fun hm => ht (by rw [hm])
      exact ⟨by simp [hm], rfl⟩
    | down l => exact Iff.rfl
    | _ => rfl
  · intro after ⟨h, hc, ha⟩
    exact Ensures.pure ⟨⟨h.now, h.others, h.pending⟩, fun hn => Finset.notMem_erase n _ (hc.1 hn), ha⟩

/-- The two halves have no node in common. -/
theorem disjoint_halves (settings : Settings) : Disjoint settings.halves.1 settings.halves.2 := by
  have hd : settings.ids.Nodup := settings.network.ids_nodup
  rw [← List.take_append_drop ((settings.ids.length + 1) / 2) settings.ids] at hd
  rw [Settings.halves, Finset.disjoint_left]
  intro a ha hb
  exact (List.disjoint_of_nodup_append hd) (List.mem_toFinset.1 ha) (List.mem_toFinset.1 hb)

/-- A node is not among the others. -/
theorem disjoint_others (settings : Settings) (victim : NodeId) : Disjoint {victim} (settings.others victim) := by
  rw [Finset.disjoint_singleton_left]
  simp [Settings.others]

/-- The nodes are as many as the settings say. -/
theorem length_ids (settings : Settings) : settings.ids.length = settings.numNodes := by
  simp [Settings.ids, pyRange]

/-- A link that goes down is down, and nothing else is. -/
theorem linkDown_changed (self : Harness R) (faultSeq : ℕ) (a b : NodeId) :
    Changed (.down (link a b)) self (linkDown { self with faultSeq } a b) ∧
    link a b ∈ (linkDown { self with faultSeq } a b).net.downLinks := by
  unfold linkDown
  split
  · rename_i hd
    exact ⟨.of_clock rfl fun t _ => by cases t <;> simp [Unchanged], of_decide_eq_true hd⟩
  · refine ⟨.of_clock rfl fun t ht => ?_, Finset.mem_insert_self _ _⟩
    cases t with
    | down l =>
      have hl : l ≠ link a b := fun hl => ht (by rw [hl])
      exact ⟨fun h => Finset.mem_of_mem_insert_of_ne h hl, Finset.mem_insert_of_mem⟩
    | crash n => exact ⟨Iff.rfl, rfl⟩
    | _ => rfl

/-- A link that becomes lossy is lossy, and nothing else is. -/
theorem setLossyLink_changed (self : Harness R) (faultSeq : ℕ) (a b : NodeId) (dropP : ℚ) :
    Changed (.lossy (link a b)) self (setLossyLink { self with faultSeq } a b dropP) ∧
    (setLossyLink { self with faultSeq } a b dropP).net.lossyLinks.lookup (link a b) = some dropP := by
  refine ⟨.of_clock rfl fun t ht => ?_, Finmap.lookup_insert _⟩
  cases t with
  | lossy l =>
    have hl : l ≠ link a b := fun hl => ht (by rw [hl])
    exact Finmap.lookup_insert_of_ne _ hl
  | crash n => exact ⟨Iff.rfl, rfl⟩
  | down l => exact Iff.rfl
  | _ => rfl

/-- An injection that has a target takes effect, and one that has none is skipped. -/
theorem nemesisFire_fired (hs : settings.suppressed = ∅) (self : Harness R) (op : NemesisOp) :
    Ensures (self.nemesisFire settings op) (Fired settings op self) := by
  have hinj : ∀ {x : Except SimError (Harness R)}, Ready settings self op → Ensures x (Injected settings op self) →
      Ensures x (Fired settings op self) := fun hr hx => hx.mono fun _ h => Or.inl ⟨hr, h⟩
  have hskip : ∀ line, ¬Ready settings self op →
      Ensures (.ok (self.record line) : Except SimError (Harness R)) (Fired settings op self) := fun line hr =>
    Ensures.pure (Or.inr ⟨hr, Calm.frame.record self line⟩)
  unfold nemesisFire
  cases op with
  | partitionHalves start duration =>
    simp only
    have hhigh : settings.halves.2 = ∅ ↔ settings.numNodes < 2 := by
      rw [Settings.halves, List.toFinset_eq_empty_iff, List.drop_eq_nil_iff, length_ids]
      omega
    by_cases h2 : settings.numNodes < 2
    · rw [if_pos (hhigh.2 h2)]
      exact hskip _ (Nat.not_le.2 h2)
    · rw [if_neg fun h => h2 (hhigh.1 h)]
      exact hinj (Nat.not_lt.1 h2) 
        (split_injected hs self _ _ (disjoint_halves settings) (.partitionHalves start duration) rfl rfl fun _ h => h)
  | isolateLeader start duration =>
    simp only
    rw [length_ids]
    cases hl : self.leader settings with
    | none =>
      refine hskip _ fun hr => ?_
      rw [Ready, hl] at hr
      exact absurd hr.2 (by simp)
    | some victim =>
      simp only
      by_cases h2 : settings.numNodes < 2
      · rw [if_pos h2]
        exact hskip _ fun hr => absurd hr.1 (Nat.not_le.2 h2)
      · rw [if_neg h2]
        refine hinj ⟨Nat.not_lt.1 h2, by rw [hl]; rfl⟩
          (split_injected hs self _ _ (disjoint_others settings victim) (.isolateLeader start duration) rfl rfl fun after h => ?_)
        intro v hv
        rw [hl] at hv
        cases hv
        exact h
  | flappingLink a b start period cycles =>
    simp only [fireFault_eq hs, if_true]
    obtain ⟨h, hh⟩ := linkDown_changed self (self.faultSeq + 1) a b
    exact hinj trivial (Injected.of_changed (.flappingLink a b start period cycles) h hh)
  | lossyLink a b start duration dropP =>
    simp only [fireFault_eq hs, if_true]
    obtain ⟨h, hh⟩ := setLossyLink_changed self (self.faultSeq + 1) a b dropP
    exact hinj trivial (Injected.of_changed (.lossyLink a b start duration dropP) h hh)
  | crashNode n start duration =>
    simp only [fireFault_eq hs, if_true]
    by_cases ha : (self.cluster.world.nodes n).alive = false
    · rw [if_pos ha]
      exact hskip _ (by rw [Ready, ha]; decide)
    · rw [if_neg ha]
      refine hinj (Bool.of_not_eq_false ha) (Ensures.bind (pause_changed _ n) fun mid h => ?_)
      exact Injected.of_changed (.crashNode n start duration) ⟨h.1.now, h.1.others, h.1.pending⟩ h.2

/-! ## Recoveries -/

/-- Healing ends the partition. -/
theorem healPartition_ended (self : Harness R) : Ended settings .partition self (self.healPartition settings) := by
  refine ⟨.of_clock rfl fun t ht => ?_, fun a ha b hb => ?_⟩
  · cases t with
    | partition => exact absurd rfl ht
    | down l => exact Iff.rfl
    | lossy l => rfl
    | crash n => exact ⟨Iff.rfl, rfl⟩
  · simp [healPartition, Harness.record, SimNetwork.heal, ha, hb]

/-- A link that comes up is not down. -/
theorem linkUp_ended (self : Harness R) (a b : NodeId) : Ended settings (.down (link a b)) self (self.linkUp a b) := by
  unfold linkUp
  split
  · refine ⟨.of_clock rfl fun t ht => ?_, Finset.notMem_erase _ _⟩
    cases t with
    | down l =>
      have hl : l ≠ link a b := fun hl => ht (by rw [hl])
      exact ⟨Finset.mem_of_mem_erase, fun h => Finset.mem_erase.2 ⟨hl, h⟩⟩
    | crash n => exact ⟨Iff.rfl, rfl⟩
    | _ => rfl
  · rename_i hd
    exact ⟨.of_clock rfl fun t _ => by cases t <;> simp [Unchanged], fun h => hd (decide_eq_true h)⟩

/-- A link that is cleared loses nothing. -/
theorem clearLossyLink_ended (self : Harness R) (a b : NodeId) :
    Ended settings (.lossy (link a b)) self (self.clearLossyLink a b) := by
  unfold clearLossyLink
  split
  · refine ⟨.of_clock rfl fun t ht => ?_, Finmap.lookup_erase _ _⟩
    cases t with
    | lossy l =>
      have hl : l ≠ link a b := fun hl => ht (by rw [hl])
      exact Finmap.lookup_erase_ne hl
    | crash n => exact ⟨Iff.rfl, rfl⟩
    | down l => exact Iff.rfl
    | _ => rfl
  · rename_i hd
    refine ⟨.of_clock rfl fun t _ => by cases t <;> simp [Unchanged], ?_⟩
    show self.net.lossyLinks.lookup (link a b) = none
    simpa [SimNetwork.linkIsLossy] using hd

/-- A node that comes back is not down. -/
theorem maybeResume_ended (ha : self.Agreed) (n : NodeId) :
    Ensures (self.maybeResume settings n) (Ended settings (.crash n) self) := by
  unfold maybeResume
  split
  · exact resume_changed self n
  · rename_i hn
    refine Ensures.pure ⟨.of_clock rfl fun t _ => by cases t <;> simp [Unchanged], hn, ?_⟩
    exact Bool.of_not_eq_false fun h => hn ((ha n).2 h)

/-- An event is plain, or fires an injection, or ends a fault. -/
theorem call_happens (hs : settings.suppressed = ∅) (self : Harness R) (ha : self.Agreed) (fn : Callback) (hfn : fn ≠ .faultTick) :
    Ensures (self.call settings fn) fun after => Happens settings self after fn := by
  cases fn with
  | nemesisFire injection => exact (nemesisFire_fired hs self injection.op).mono fun _ h => .fired h
  | healPartition => exact Ensures.pure (.ended rfl (healPartition_ended self))
  | linkUp a b => exact Ensures.pure (.ended rfl (linkUp_ended self a b))
  | clearLossyLink a b => exact Ensures.pure (.ended rfl (clearLossyLink_ended self a b))
  | maybeResume n => exact (maybeResume_ended ha n).mono fun _ h => .ended rfl h
  | faultTick => exact absurd rfl hfn
  | _ =>
    refine Ensures.mono (Calm.frame.call self ?_) fun _ h => .plain ?_ h
    all_goals trivial

end Harness

end DeterministicRaft
