import DeterministicRaft.Frames

/-!
# What every event keeps

An event draws, records, schedules, changes the network and lets the nodes act, in whatever order its code says. A relation between
moments that each of these keeps is kept by the event, faults and recoveries included.
-/

namespace DeterministicRaft

open Refinement

namespace Harness

variable {R : RandomSource} {settings : Settings}

/-! ## What the nodes ask for -/

/-- From the one moment to the other the nodes and their clients did nothing, no time passed, and what was recorded tells of neither. -/
structure Apart (before after : Harness R) : Prop where
  cluster : after.cluster = before.cluster
  now : after.sim.clock.now = before.sim.clock.now
  trace : ∃ lines, after.trace = before.trace ++ lines ∧ ∀ line ∈ lines, line.1 = before.sim.clock.now ∧ line.2.Aside

/-- A callback is scheduled, and nothing else changes. -/
theorem Apart.schedule (self : Harness R) (delay : Int) (fn : Callback) : Ensures (self.schedule delay fn) (Apart self) := by
  unfold Harness.schedule Simulator.schedule
  split
  · exact fun _ h => nomatch h
  · exact Ensures.pure ⟨rfl, rfl, [], (List.append_nil _).symm, fun _ hm => absurd hm List.not_mem_nil⟩

/-- Messages and timers leave the nodes as they are. -/
theorem Apart.talk : Talk (Apart (R := R)) where
  trans h h' := by
    obtain ⟨lines, ht, hl⟩ := h.trace
    obtain ⟨lines', ht', hl'⟩ := h'.trace
    refine ⟨h'.cluster.trans h.cluster, h'.now.trans h.now, lines ++ lines', by rw [ht', ht, List.append_assoc], fun line hm => ?_⟩
    rcases List.mem_append.1 hm with hm | hm
    · exact hl line hm
    · exact ⟨(hl' line hm).1.trans h.now, (hl' line hm).2⟩
  still hc hcl ht _ _ := ⟨hcl, by rw [hc], [], by rw [ht, List.append_nil], fun _ hm => absurd hm List.not_mem_nil⟩
  schedule self delay fn _ := Apart.schedule self delay fn
  record self line hl := by
    refine ⟨rfl, rfl, [_], rfl, fun x hx => ?_⟩
    rw [List.mem_singleton.1 hx]
    exact ⟨rfl, hl⟩

/-- A call of a node that is no record of an event leaves the nodes as they are. -/
theorem Apart.hear (self : Harness R) {call : (NodeId × Effect) × ℕ} (hc : ∀ event, call.1.2 ≠ .record event) :
    Ensures (self.hear settings call) (Apart self) := by
  obtain ⟨⟨n, e⟩, k⟩ := call
  cases e with
  | send dst msg => exact Apart.talk.send self n dst msg k
  | schedule kind seq => exact Apart.talk.startTimer self n kind k
  | record event => exact absurd rfl (hc event)
  | _ => exact Ensures.pure (Apart.talk.refl self)

/-- What the nodes ask for is done with the nodes as they are by then. -/
theorem follow_cluster (self : Harness R) (cluster : Cluster) :
    Ensures (self.follow settings cluster) fun after => after.cluster = cluster := by
  refine Ensures.foldlM (fun s call hs => ?_) rfl
  by_cases hc : ∀ event, call.1.2 ≠ .record event
  · exact (Apart.hear s hc).mono fun _ h => h.cluster.trans hs
  · push Not at hc
    obtain ⟨event, he⟩ := hc
    obtain ⟨⟨n, e⟩, k⟩ := call
    cases he
    exact Ensures.pure hs

/-- An operation on the nodes, as far as they and their clients go. -/
theorem act_cluster (self : Harness R) {action : Action} {Q : Cluster → Prop} (h : Ensures (self.cluster.act settings.network action) Q) :
    Ensures (self.act settings action) fun after => Q after.cluster := by
  unfold Harness.act
  refine Ensures.bind (Ensures.raising h) fun c hc => ?_
  exact (follow_cluster self c).mono fun _ he => he ▸ hc

/-! ## The start -/

/-- What holds when the nodes have started holds at the start of a run, if scheduling keeps it. -/
theorem init_ensures {Q : Harness R → Prop} (hQ : ∀ before after, Apart before after → Q before → Q after) (seed : R.State)
    (hstart : Ensures (({ cluster := { world := { settings.world with trace := [] } }, sim := .new seed } : Harness R).follow settings
      { world := settings.world }) Q) : Ensures (init settings seed) Q := by
  have hdriver : ∀ (s : Harness R) (runs : Bool) (delay : Int) (fn : Callback), Q s → Ensures (s.startDriver runs delay fn) Q := by
    intro s runs delay fn hs
    unfold startDriver
    split
    · exact (Apart.schedule s delay fn).mono fun after ha => hQ s after ha hs
    · exact Ensures.pure hs
  unfold init
  refine Ensures.bind hstart fun s1 h1 => ?_
  refine Ensures.bind (hdriver s1 _ _ _ h1) fun s2 h2 => ?_
  refine Ensures.bind (hdriver s2 _ _ _ h2) fun s3 h3 => ?_
  refine Ensures.bind (hdriver s3 _ _ _ h3) fun s4 h4 => ?_
  exact Ensures.foldlM (fun s injection hs => (Apart.schedule s _ _).mono fun after ha => hQ s after ha hs) h4

/-! ## Events -/

/-- A relation between moments that holds as long as the queue, the nodes and their clients, and the trace are the same, and across what
is scheduled, and what is recorded of the network and the drivers. -/
structure Idle (P : Harness R → Harness R → Prop) : Prop where
  trans : ∀ {before mid after}, P before mid → P mid after → P before after
  aside : ∀ {before after : Harness R}, after.sim.clock = before.sim.clock → after.cluster = before.cluster →
    after.trace = before.trace → P before after
  schedule : ∀ (self : Harness R) (delay : Int) (fn : Callback), Ensures (self.schedule delay fn) (P self)
  record : ∀ (self : Harness R) (line : Line), line.Aside → P self (self.record line)

/-- The same, and across messages that are handled and timers that fire. -/
structure Serve (settings : Settings) (P : Harness R → Harness R → Prop) : Prop extends Idle P where
  deliver : ∀ (self : Harness R) (k : ℕ), Ensures (self.act settings (.deliver k)) (P self)
  fire : ∀ (self : Harness R) (k : ℕ), Ensures (self.act settings (.fire k)) (P self)

/-- The same, and across all that the nodes do. -/
structure Work (settings : Settings) (P : Harness R → Harness R → Prop) : Prop extends Idle P where
  act : ∀ (self : Harness R) (action : Action), action.Ordinary → Ensures (self.act settings action) (P self)

/-- The same, and across crashes of nodes that are alive and as `V` says. -/
structure Drive (settings : Settings) (V : NodeId → Prop) (P : Harness R → Harness R → Prop) : Prop extends Idle P where
  pause : ∀ (self : Harness R) (n : NodeId), V n → (self.cluster.world.nodes n).alive = true →
    Ensures (self.pause settings n) (P self)

/-- The same, and across all of these and restarts. -/
structure Walk (settings : Settings) (P : Harness R → Harness R → Prop) : Prop extends Work settings P,
    Drive settings (fun _ => True) P where
  resume : ∀ (self : Harness R) (n : NodeId), Ensures (self.resume settings n) (P self)

namespace Idle

variable {P : Harness R → Harness R → Prop} (hP : Idle P) (self : Harness R)

include hP

/-- Nothing happens. -/
theorem refl : P self self := hP.aside rfl rfl rfl

/-- An operation after one that keeps the relation. -/
theorem next {mid : Harness R} {x : Except SimError (Harness R)} (h : P self mid) (hx : Ensures x (P mid)) : Ensures x (P self) :=
  hx.mono fun _ => hP.trans h

/-- Talking leaves the nodes alone. -/
theorem talk : Talk P where
  trans := hP.trans
  still hc hcl ht _ _ := hP.aside hc hcl ht
  schedule self delay fn _ := hP.schedule self delay fn
  record := hP.record

/-- A fault gets its ordinal. -/
theorem fireFault : P self (self.fireFault settings).2 := hP.aside rfl rfl rfl

/-- A change of the network, and what is recorded of it. -/
theorem change (net : SimNetwork) (line : Line) (hl : line.Aside) : P self ({ self with net }.record line) := by
  have h : P self { self with net } := hP.aside rfl rfl rfl
  exact hP.trans h (hP.record _ line hl)

/-- A partition is set, or raises. -/
theorem setPartition (groups : List (Finset NodeId)) : Ensures (self.setPartition settings groups) (P self) := by
  unfold Harness.setPartition
  split
  · exact Ensures.pure (hP.change self _ (.partition groups) trivial)
  · exact fun _ h => nomatch h

/-- A link goes down. -/
theorem linkDown (a b : NodeId) : P self (self.linkDown a b) := by
  unfold Harness.linkDown
  split
  · exact hP.refl self
  · exact hP.change self _ (.linkdown a b) trivial

/-- A link comes up. -/
theorem linkUp (a b : NodeId) : P self (self.linkUp a b) := by
  unfold Harness.linkUp
  split
  · exact hP.change self _ (.linkup a b) trivial
  · exact hP.refl self

/-- A link is cleared. -/
theorem clearLossyLink (a b : NodeId) : P self (self.clearLossyLink a b) := by
  unfold Harness.clearLossyLink
  split
  · exact hP.change self _ (.lossyheal a b) trivial
  · exact hP.refl self

/-- What an injection does once it has its ordinal, if it is not suppressed. -/
theorem fires {x : Harness R → Except SimError (Harness R)} (hx : ∀ s, s.cluster = self.cluster → Ensures (x s) (P s)) :
    Ensures (if (self.fireFault settings).1 then x (self.fireFault settings).2 else .ok (self.fireFault settings).2) (P self) := by
  split
  · exact hP.next self (hP.fireFault self) (hx _ rfl)
  · exact Ensures.pure (hP.fireFault self)

/-- The random partitions. -/
theorem partitionTick : Ensures (self.partitionTick settings) (P self) := by
  unfold Harness.partitionTick
  split
  · exact Ensures.pure (hP.refl self)
  split
  · refine Ensures.pure ?_
    split
    · exact hP.trans (hP.talk.chance self (1 / 4)) (hP.change (self.chance (1 / 4)).2 _ .heal trivial)
    · exact hP.talk.chance self (1 / 4)
  · simp only
    split
    · refine Ensures.bind (Q := fun draws => P self draws.2)
        (Ensures.foldlM (fun draws i hd => ?_) (hP.talk.chance self (3 / 20))) fun draws hd => ?_
      · refine Ensures.bind (hP.talk.randint draws.2 0 1) fun draw hdraw => ?_
        exact Ensures.pure (hP.trans hd hdraw)
      · split
        · exact Ensures.pure hd
        · exact hP.next self hd (hP.fires draws.2 fun s _ => hP.setPartition s _)
    · exact Ensures.pure (hP.talk.chance self (3 / 20))

/-- A split, and its healing later. -/
theorem split (groups : List (Finset NodeId)) (duration : Int) : Ensures (self.split settings groups duration) (P self) :=
  hP.fires self fun s _ => Ensures.bind (hP.setPartition s groups) fun s' hs => hP.next s hs (hP.schedule s' _ _)

end Idle

/-! ## What the nodes do in an event -/

namespace Serve

variable {P : Harness R → Harness R → Prop} (hP : Serve settings P) (self : Harness R)

include hP

/-- A message arrives, or is lost on arrival. -/
theorem delivery (k : ℕ) : Ensures (self.delivery settings k) (P self) := by
  unfold Harness.delivery
  split
  · rename_i src dst msg _
    split
    · exact Ensures.pure (hP.change self _ (.drop src dst .dstCrashed) trivial)
    · split
      · exact Ensures.pure (hP.change self _ (.drop src dst .linkDown) trivial)
      · split
        · exact Ensures.pure (hP.change self _ (.drop src dst .partitioned) trivial)
        · exact hP.next self (hP.change self _ (.deliver src dst msg) trivial) (hP.deliver _ k)
  · exact Ensures.pure (hP.refl self)

end Serve

namespace Work

variable {P : Harness R → Harness R → Prop} (hP : Work settings P) (self : Harness R)

include hP

/-- Drivers that act can serve messages and timers. -/
theorem serve : Serve settings P where
  toIdle := hP.toIdle
  deliver s k := hP.act s (.deliver k) trivial
  fire s k := hP.act s (.fire k) trivial

/-- A leader is asked for a configuration. -/
theorem proposeChange (leader : NodeId) : Ensures (self.proposeChange settings leader) (P self) := by
  unfold Harness.proposeChange
  simp only
  refine Ensures.bind (Ensures.trivial _) fun accepted _ => ?_
  have hturn : ∀ (s : Harness R) (memberTurn : ℕ), P s { s with memberTurn } := fun s _ => hP.aside rfl rfl rfl
  refine Ensures.bind (hP.next self (hturn self _) (hP.act _ (.changeConfig leader _) trivial)) fun s hs => ?_
  split
  · exact Ensures.pure (hP.trans hs (hturn s _))
  · exact Ensures.pure hs

/-- A tick of the membership driver. -/
theorem membershipTick : Ensures (self.membershipTick settings) (P self) := by
  unfold Harness.membershipTick
  refine Ensures.bind (Ensures.foldlM (fun s n hs => hP.next self hs (hP.proposeChange s n)) (hP.refl self)) fun s hs => ?_
  exact hP.next self hs (hP.schedule s _ _)

/-- A message, a timer and a membership change keep the relation. -/
theorem call {fn : Callback} (hfn : fn.Plain) (hc : fn ≠ .clientTick) : Ensures (self.call settings fn) (P self) := by
  cases fn with
  | deliver k => exact hP.serve.delivery self k
  | fire k => exact hP.serve.fire self k
  | clientTick => exact absurd rfl hc
  | membershipTick => exact hP.membershipTick self
  | _ => exact hfn.elim

end Work

/-! ## What the fault drivers do in an event -/

namespace Drive

variable {V : NodeId → Prop} {P : Harness R → Harness R → Prop} (hP : Drive settings V P) (self : Harness R)

include hP

/-- A crash, and the restart scheduled. -/
theorem crash {n : NodeId} (hn : V n) (ha : (self.cluster.world.nodes n).alive = true) (delay : Int) : Ensures (do
    let mid ← self.pause settings n
    mid.schedule delay (.maybeResume n)) (P self) :=
  Ensures.bind (hP.pause self n hn ha) fun mid h => hP.next self h (hP.schedule mid _ _)

/-- The random crashes. -/
theorem crashTick (hV : ∀ n ∈ settings.ids, V n) : Ensures (self.crashTick settings) (P self) := by
  unfold Harness.crashTick
  have h : P self (if settings.profile.crashes then self.chance (1 / 10) else (false, self)).2 := by
    split
    · exact hP.talk.chance self _
    · exact hP.refl self
  generalize (if settings.profile.crashes then self.chance (1 / 10) else (false, self)) = draw at h ⊢
  obtain ⟨crashes, s⟩ := draw
  simp only at h ⊢
  have halive : ∀ n ∈ (if s.net.crashed.card < (settings.numNodes - 1) / 2 then
      settings.ids.filter fun n => (s.cluster.world.nodes n).alive else []), n ∈ settings.ids ∧ (s.cluster.world.nodes n).alive = true := by
    intro n hn
    split at hn
    · exact List.mem_filter.1 hn
    · cases hn
  generalize (if s.net.crashed.card < (settings.numNodes - 1) / 2 then
    settings.ids.filter fun n => (s.cluster.world.nodes n).alive else []) = candidates at halive ⊢
  split
  · split
    · exact Ensures.pure h
    · refine Ensures.bind (Q := fun draw => draw.1 ∈ candidates ∧ P s { s with sim := draw.2 })
        (fun draw hd => ⟨choice_mem s candidates draw hd, hP.talk.choice s candidates draw hd⟩) ?_
      rintro ⟨victim, sim⟩ ⟨hmem, hd⟩
      refine Ensures.bind (Q := fun draw => Apart { s with sim } draw.2 ∧ P { s with sim } draw.2)
        (fun draw hd => ⟨Apart.talk.randint _ 100 400 draw hd, hP.talk.randint _ 100 400 draw hd⟩) ?_
      rintro ⟨resumeDelay, mid⟩ ⟨hapart, hd'⟩
      have hup : ∀ s' : Harness R, s'.cluster = mid.cluster → (s'.cluster.world.nodes victim).alive = true := by
        intro s' hs
        rw [hs, hapart.cluster]
        exact (halive victim hmem).2
      have hfall := fun s' hs => hP.crash s' (hV victim (halive victim hmem).1) (hup s' hs) resumeDelay
      exact hP.next self (hP.trans (hP.trans h hd) hd') (hP.fires mid hfall)
  · exact Ensures.pure h

/-- A tick of the fault driver. -/
theorem faultTick (hV : ∀ n ∈ settings.ids, V n) : Ensures (self.faultTick settings) (P self) := by
  unfold Harness.faultTick
  refine Ensures.bind (hP.partitionTick self) fun s hs => ?_
  refine Ensures.bind (hP.next self hs (hP.crashTick s hV)) fun s hs => ?_
  exact hP.next self hs (hP.schedule s _ _)

/-- A pattern of the schedule strikes. -/
theorem nemesisFire (op : NemesisOp) (hV : ∀ n start duration, op = .crashNode n start duration → V n) :
    Ensures (self.nemesisFire settings op) (P self) := by
  unfold Harness.nemesisFire
  cases op with
  | partitionHalves start duration =>
    simp only
    split
    · exact Ensures.pure (hP.record self (.nemesis _) trivial)
    · exact hP.split self _ duration
  | isolateLeader start duration =>
    simp only
    split
    · exact Ensures.pure (hP.record self (.nemesis _) trivial)
    · split
      · exact Ensures.pure (hP.record self (.nemesis _) trivial)
      · exact hP.split self _ duration
  | flappingLink a b start period cycles => exact hP.fires self fun s _ => hP.next s (hP.linkDown s a b) (hP.schedule _ _ _)
  | lossyLink a b start duration dropP =>
    exact hP.fires self fun s _ => hP.next s (hP.change s _ (.lossy a b dropP) trivial) (hP.schedule _ _ _)
  | crashNode n start duration =>
    simp only
    split
    · exact Ensures.pure (hP.record self (.nemesis _) trivial)
    · rename_i ha
      refine hP.fires self fun s hs => hP.crash s (hV n start duration rfl) ?_ duration
      rw [hs]
      exact Bool.of_not_eq_false ha

/-- The drivers, and the end of a fault of the network, keep the relation. -/
theorem call {fn : Callback} (hfn : ¬fn.Plain) (hr : ∀ n, fn ≠ .maybeResume n) (hids : ∀ n ∈ settings.ids, V n)
    (hop : ∀ injection n start duration, fn = .nemesisFire injection → injection.op = .crashNode n start duration → V n) :
    Ensures (self.call settings fn) (P self) := by
  cases fn with
  | faultTick => exact hP.faultTick self hids
  | nemesisFire injection => exact hP.nemesisFire self injection.op fun n start duration he => hop injection n start duration rfl he
  | healPartition => exact Ensures.pure (hP.change self _ .heal trivial)
  | linkUp a b => exact Ensures.pure (hP.linkUp self a b)
  | clearLossyLink a b => exact Ensures.pure (hP.clearLossyLink self a b)
  | maybeResume n => exact absurd rfl (hr n)
  | _ => exact absurd trivial hfn

end Drive

namespace Walk

variable {P : Harness R → Harness R → Prop} (hP : Walk settings P) (self : Harness R)

include hP

/-- An event keeps the relation; a client's tick is looked at by itself. -/
theorem call {fn : Callback} (hfn : fn ≠ .clientTick) : Ensures (self.call settings fn) (P self) := by
  by_cases hr : ∃ n, fn = .maybeResume n
  · obtain ⟨n, rfl⟩ := hr
    show Ensures (self.maybeResume settings n) (P self)
    unfold Harness.maybeResume
    split
    · exact hP.resume self n
    · exact Ensures.pure (hP.refl self)
  · push Not at hr
    by_cases hplain : fn.Plain
    · exact hP.toWork.call self hplain hfn
    · exact hP.toDrive.call self hplain hr (fun _ _ => trivial) fun _ _ _ _ _ _ => trivial

end Walk
end Harness

end DeterministicRaft
