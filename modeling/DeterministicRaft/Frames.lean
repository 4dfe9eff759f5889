import DeterministicRaft.Lifecycle

/-!
# What an event keeps

A message, a timer, a client's tick and a membership change draw, record, count, schedule events of the same kinds and let the nodes
act. A relation that each of these keeps is kept by the event.
-/

namespace DeterministicRaft

open Refinement

/-- The callback neither injects nor ends a fault. -/
def Callback.Plain : Callback → Prop
  | .deliver _ | .fire _ | .clientTick | .membershipTick => True
  | _ => False

/-- The same faults are in force. -/
structure SimNetwork.SameFaults (net net' : SimNetwork) : Prop where
  group : net'.group = net.group
  crashed : net'.crashed = net.crashed
  downLinks : net'.downLinks = net.downLinks
  lossyLinks : net'.lossyLinks = net.lossyLinks

/-- The network's faults as they are. -/
theorem SimNetwork.SameFaults.refl (net : SimNetwork) : net.SameFaults net := ⟨rfl, rfl, rfl, rfl⟩

/-- The line tells of no event of a node, no crash and no restart. -/
def Line.Aside : Line → Prop
  | .node _ _ | .crash _ | .resume _ => False
  | _ => True

namespace Harness

variable {R : RandomSource} {settings : Settings}

/-- A relation between moments that holds as long as only draws are made and messages counted, and across what is scheduled for them and
for timers, and recorded of them. -/
structure Talk (P : Harness R → Harness R → Prop) : Prop where
  trans : ∀ {before mid after}, P before mid → P mid after → P before after
  still : ∀ {before after : Harness R}, after.sim.clock = before.sim.clock → after.cluster = before.cluster →
    after.trace = before.trace → before.net.SameFaults after.net → after.faultSeq = before.faultSeq → P before after
  schedule : ∀ (self : Harness R) (delay : Int) (fn : Callback), fn.Plain → Ensures (self.schedule delay fn) (P self)
  record : ∀ (self : Harness R) (line : Line), line.Aside → P self (self.record line)

/-- A relation between moments that holds as long as nothing is scheduled and no fault begins, ends or gets an ordinal, and while what is
no fault is scheduled. -/
structure Frame (P : Harness R → Harness R → Prop) : Prop where
  trans : ∀ {before mid after}, P before mid → P mid after → P before after
  unchanged : ∀ {before after : Harness R}, after.sim.clock = before.sim.clock → before.net.SameFaults after.net →
    SameAlive before.cluster.world after.cluster.world → after.faultSeq = before.faultSeq → P before after
  schedule : ∀ (self : Harness R) (delay : Int) (fn : Callback), fn.Plain → Ensures (self.schedule delay fn) (P self)

/-- What the nodes do not raise. -/
theorem Ensures.raising {α : Type} {x : Except PyError α} {Q : α → Prop} (h : Ensures x Q) : Ensures (Harness.raising x) Q := by
  intro b hb
  cases x with
  | error e => cases hb
  | ok a =>
    cases hb
    exact h _ rfl

/-- What a drawn element is. -/
theorem choice_mem (self : Harness R) (seq : List NodeId) : Ensures (self.sim.choice seq) fun draw => draw.1 ∈ seq := by
  unfold Simulator.choice
  simp only
  split
  · rename_i x hx
    refine Ensures.pure ?_
    exact mem_of_pyIndex hx
  · exact fun _ h => nomatch h

namespace Talk

variable {P : Harness R → Harness R → Prop} (hP : Talk P) (self : Harness R)

include hP

/-- Nothing happens. -/
theorem refl : P self self := hP.still rfl rfl rfl (.refl _) rfl

/-- An operation after one that keeps the relation. -/
theorem next {mid : Harness R} {x : Except SimError (Harness R)} (h : P self mid) (hx : Ensures x (P mid)) : Ensures x (P self) :=
  hx.mono fun _ => hP.trans h

/-- What the network counts, and what is recorded of it. -/
theorem count (net : SimNetwork) (hn : self.net.SameFaults net) (line : Line) (hl : line.Aside) :
    P self ({ self with net }.record line) := by
  have h : P self { self with net } := hP.still rfl rfl rfl hn rfl
  exact hP.trans h (hP.record _ line hl)

/-- A message is lost. -/
theorem drop (src dst : NodeId) (why : Loss) : P self (self.drop src dst why) :=
  hP.count self { self.net with dropped := self.net.dropped + 1 } ⟨rfl, rfl, rfl, rfl⟩ (.drop src dst why) trivial

/-- Chance is drawn. -/
theorem chance (p : ℚ) : P self (self.chance p).2 := hP.still rfl rfl rfl (.refl _) rfl

/-- Chance is drawn where there is a risk. -/
theorem risk (p : ℚ) : P self (self.risk p).2 := by
  unfold Harness.risk
  split
  · exact hP.chance self p
  · exact hP.refl self

/-- A lossy link draws. -/
theorem lossyDraw (src dst : NodeId) : P self (self.lossyDraw src dst).2 := by
  unfold Harness.lossyDraw
  split
  · exact hP.chance self _
  · exact hP.refl self

/-- An integer is drawn. -/
theorem randint (lo hi : Int) : Ensures (self.randint lo hi) fun draw => P self draw.2 := by
  unfold Harness.randint
  refine Ensures.bind (Q := fun draw => draw.2.clock = self.sim.clock) ?_ fun draw hd =>
    Ensures.pure (hP.still hd rfl rfl (.refl _) rfl)
  unfold Simulator.randint
  split
  · exact fun _ h => nomatch h
  · exact Ensures.pure rfl

/-- A choice is made. -/
theorem choice (seq : List NodeId) : Ensures (self.sim.choice seq) fun draw => P self { self with sim := draw.2 } := by
  unfold Simulator.choice
  simp only
  split
  · exact Ensures.pure (hP.still rfl rfl rfl (.refl _) rfl)
  · exact fun _ h => nomatch h

/-- A message is sent. -/
theorem send (src dst : NodeId) (msg : Message) (k : ℕ) : Ensures (self.send settings src dst msg k) (P self) := by
  unfold Harness.send
  simp only
  have h0 : P self ({ self with net := { self.net with sent := self.net.sent + 1 } }.record (.send src dst msg)) :=
    hP.count self { self.net with sent := self.net.sent + 1 } ⟨rfl, rfl, rfl, rfl⟩ (.send src dst msg) trivial
  generalize ({ self with net := { self.net with sent := self.net.sent + 1 } }.record (.send src dst msg)) = s0 at h0 ⊢
  split
  · exact Ensures.pure (hP.trans h0 (hP.drop s0 src dst _))
  · have h1 := hP.trans h0 (hP.lossyDraw s0 src dst)
    generalize s0.lossyDraw src dst = draw at h1 ⊢
    obtain ⟨lossy, s1⟩ := draw
    simp only at h1 ⊢
    split
    · exact Ensures.pure (hP.trans h1 (hP.drop s1 src dst _))
    · have h2 := hP.trans h1 (hP.risk s1 settings.profile.dropP)
      generalize s1.risk settings.profile.dropP = draw at h2 ⊢
      obtain ⟨lost, s2⟩ := draw
      simp only at h2 ⊢
      split
      · exact Ensures.pure (hP.trans h2 (hP.drop s2 src dst _))
      · refine Ensures.bind (hP.randint s2 _ _) fun draw h3 => ?_
        obtain ⟨delay, s3⟩ := draw
        refine Ensures.bind (hP.schedule s3 delay (.deliver k) trivial) fun s4 h4 => ?_
        have h5 := hP.trans (hP.trans (hP.trans h2 h3) h4) (hP.risk s4 settings.profile.dupP)
        generalize s4.risk settings.profile.dupP = draw at h5 ⊢
        obtain ⟨dup, s5⟩ := draw
        simp only at h5 ⊢
        split
        · refine Ensures.bind (hP.randint s5 _ _) fun draw h6 => ?_
          obtain ⟨dupDelay, s6⟩ := draw
          have h7 : P s6 ({ s6 with net := { s6.net with duplicated := s6.net.duplicated + 1 } }.record (.dup src dst msg)) :=
            hP.count s6 { s6.net with duplicated := s6.net.duplicated + 1 } ⟨rfl, rfl, rfl, rfl⟩ (.dup src dst msg) trivial
          exact hP.next self (hP.trans (hP.trans h5 h6) h7) (hP.schedule _ dupDelay _ trivial)
        · exact Ensures.pure h5

/-- A timer is drawn and scheduled. -/
theorem startTimer (n : NodeId) (kind : TimerKind) (k : ℕ) : Ensures (self.startTimer n kind k) (P self) := by
  unfold Harness.startTimer
  cases kind with
  | election =>
    refine Ensures.bind (hP.randint self _ _) fun draw h => ?_
    obtain ⟨timeout, mid⟩ := draw
    exact hP.next self h (hP.schedule mid timeout _ trivial)
  | heartbeat => exact hP.schedule self _ _ trivial

/-- An attempt is recorded. -/
theorem recordAttempt (clientId : Int) (target : NodeId) : P self (self.recordAttempt clientId target) := by
  unfold Harness.recordAttempt
  have hline : ∀ encoded (outstanding : Option String), (if outstanding.isNone then Line.client target clientId encoded
      else Line.retry target clientId encoded).Aside := by
    intro encoded outstanding
    split <;> trivial
  simp only
  split
  · exact hP.trans (hP.record self _ (hline _ _)) (hP.record _ (.staleread target _ _) trivial)
  · exact hP.record self _ (hline _ _)

end Talk

namespace Frame

variable {P : Harness R → Harness R → Prop} (hP : Frame P) (self : Harness R)

include hP

/-- Nothing happens. -/
theorem refl : P self self := hP.unchanged rfl (.refl _) (fun _ => rfl) rfl

/-- An operation after one that keeps the relation. -/
theorem next {mid : Harness R} {x : Except SimError (Harness R)} (h : P self mid) (hx : Ensures x (P mid)) : Ensures x (P self) :=
  hx.mono fun _ => hP.trans h

/-- A relation that is kept while no fault begins or ends is kept by what the network and the timers do. -/
theorem talk : Talk P where
  trans := hP.trans
  still hc hcl _ hf hs := hP.unchanged hc hf (by rw [hcl]; exact fun _ => rfl) hs
  schedule := hP.schedule
  record self _ _ := hP.unchanged rfl (.refl _) (fun _ => rfl) rfl

/-- A line of the trace. -/
theorem record (line : Line) : P self (self.record line) := hP.unchanged rfl (.refl _) (fun _ => rfl) rfl

/-- Chance is drawn. -/
theorem chance (p : ℚ) : P self (self.chance p).2 := hP.talk.chance self p

/-- An integer is drawn. -/
theorem randint (lo hi : Int) : Ensures (self.randint lo hi) fun draw => P self draw.2 := hP.talk.randint self lo hi

/-- A choice is made. -/
theorem choice (seq : List NodeId) : Ensures (self.sim.choice seq) fun draw => P self { self with sim := draw.2 } :=
  hP.talk.choice self seq

/-- A driver is started, or is not there. -/
theorem startDriver (runs : Bool) (delay : Int) {fn : Callback} (hfn : fn.Plain) :
    Ensures (self.startDriver runs delay fn) (P self) := by
  unfold Harness.startDriver
  split
  · exact hP.schedule self delay _ hfn
  · exact Ensures.pure (hP.refl self)

/-! ## What the nodes ask for -/

/-- What a node calls. -/
theorem hear (call : (NodeId × Effect) × ℕ) : Ensures (self.hear settings call) (P self) := by
  obtain ⟨⟨n, e⟩, k⟩ := call
  cases e with
  | send dst msg => exact hP.talk.send self n dst msg k
  | schedule kind seq => exact hP.talk.startTimer self n kind k
  | record event => exact Ensures.pure (hP.record self (.node n event))
  | _ => exact Ensures.pure (hP.refl self)

/-- A loop of which each turn keeps the relation. -/
theorem loop {ι : Type} {l : List ι} {f : Harness R → ι → Except SimError (Harness R)} (hf : ∀ s i, Ensures (f s i) (P s)) :
    Ensures (l.foldlM f self) (P self) :=
  Ensures.foldlM (fun s i hs => hP.next self hs (hf s i)) (hP.refl self)

/-- What the nodes ask for is no fault, whoever has crashed or restarted. -/
theorem follow (cluster : Cluster) : Ensures (self.follow settings cluster) (P { self with cluster }) := hP.loop _ fun s => hP.hear s

/-- The nodes have gone on, and no other is alive. -/
theorem cluster {cluster : Cluster} (h : SameAlive self.cluster.world cluster.world) : P self { self with cluster } :=
  hP.unchanged rfl (.refl _) h rfl

/-- An action that is no crash and no restart. -/
theorem act (action : Action) (ha : action.Ordinary) : Ensures (self.act settings action) (P self) := by
  unfold Harness.act
  refine Ensures.bind (Ensures.raising (Cluster.act_alive _ self.cluster ha)) fun c hc => ?_
  exact hP.next self (hP.cluster self hc) (hP.follow self c)

/-! ## Events -/

/-- A message arrives, or is lost on arrival. -/
theorem delivery (k : ℕ) : Ensures (self.delivery settings k) (P self) := by
  unfold Harness.delivery
  split
  · rename_i src dst msg _
    split
    · exact Ensures.pure (hP.talk.drop self src dst _)
    · split
      · exact Ensures.pure (hP.talk.drop self src dst _)
      · split
        · exact Ensures.pure (hP.talk.drop self src dst _)
        · have h : P self ({ self with net := { self.net with delivered := self.net.delivered + 1 } }.record
              (.deliver src dst msg)) := hP.unchanged rfl ⟨rfl, rfl, rfl, rfl⟩ (fun _ => rfl) rfl
          exact hP.next self h (hP.act _ (.deliver k) trivial)
  · exact Ensures.pure (hP.refl self)

/-- An attempt is recorded. -/
theorem recordAttempt (clientId : Int) (target : NodeId) : P self (self.recordAttempt clientId target) :=
  hP.talk.recordAttempt self clientId target

/-- A client's tick. -/
theorem clientTick : Ensures (self.clientTick settings) (P self) := by
  unfold Harness.clientTick
  simp only
  refine Ensures.bind (hP.choice self settings.ids) fun draw h => ?_
  obtain ⟨target, sim⟩ := draw
  refine Ensures.bind (Ensures.raising (Cluster.clientTick_alive _ self.cluster target)) fun c hc => ?_
  have h1 := hP.trans h (hP.recordAttempt { self with sim } (self.cluster.clientTurn % WORKLOAD_CLIENTS : ℕ) target)
  have h2 : SameAlive (Harness.recordAttempt { self with sim } (self.cluster.clientTurn % WORKLOAD_CLIENTS : ℕ) target).cluster.world
      c.world := by
    intro n
    rw [hc n]
    unfold Harness.recordAttempt
    simp only
    split <;> rfl
  refine Ensures.bind (hP.next self (hP.trans h1 (hP.cluster _ h2)) (hP.follow _ c)) fun s hs => ?_
  split
  · exact hP.next self hs (hP.schedule s _ _ trivial)
  · exact hP.next self hs (hP.schedule s _ _ trivial)

/-- The membership driver's turn. -/
theorem memberTurn (memberTurn : ℕ) : P self { self with memberTurn } := hP.unchanged rfl (.refl _) (fun _ => rfl) rfl

/-- A leader is asked for a configuration. -/
theorem proposeChange (leader : NodeId) : Ensures (self.proposeChange settings leader) (P self) := by
  unfold Harness.proposeChange
  simp only
  refine Ensures.bind (Ensures.trivial _) fun accepted _ => ?_
  refine Ensures.bind (hP.next self (hP.memberTurn self _) (hP.act _ (.changeConfig leader _) trivial)) fun s hs => ?_
  split
  · exact Ensures.pure (hP.trans hs (hP.memberTurn s _))
  · exact Ensures.pure hs

/-- A tick of the membership driver. -/
theorem membershipTick : Ensures (self.membershipTick settings) (P self) := by
  unfold Harness.membershipTick
  refine Ensures.bind (hP.loop self fun s => hP.proposeChange s) fun s hs => ?_
  exact hP.next self hs (hP.schedule s _ _ trivial)

/-- An event that is no fault keeps the relation. -/
theorem call {fn : Callback} (hfn : fn.Plain) : Ensures (self.call settings fn) (P self) := by
  cases fn with
  | deliver k => exact hP.delivery self k
  | fire k => exact hP.act self (.fire k) trivial
  | clientTick => exact hP.clientTick self
  | membershipTick => exact hP.membershipTick self
  | _ => exact hfn.elim

end Frame
end Harness

end DeterministicRaft
