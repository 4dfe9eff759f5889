import DeterministicRaft.Clients
import DeterministicRaft.Frames

/-!
# Runs with and without a history

The history and its table of rows are written when a client invokes an operation and when an operation is applied, and never read by
anything else: whether they are written at all makes no difference to the rest of the cluster.
-/

namespace DeterministicRaft

open Refinement

/-- The same cluster, with its history recorded or not. -/
def Settings.recording (settings : Settings) (recordHistory : Bool) : Settings := { settings with recordHistory }

/-- The same nodes and clients, with their history recorded or not. -/
def Network.recording (net : Network) (recordHistory : Bool) : Network := { net with recordHistory }

variable {recordHistory : Bool}

/-! ## The nodes and their clients -/

namespace Cluster

/-- The same cluster with another history. -/
def noting (c : Cluster) (history : List HistoryEntry) (pending : Dict String ℕ) : Cluster := { c with history, pending }

/-- Two clusters differ in what is recorded of them, and in nothing else. -/
def Same (c c' : Cluster) : Prop := ∃ history pending, c' = c.noting history pending

/-- A cluster and itself differ in nothing. -/
theorem Same.refl (c : Cluster) : Same c c := ⟨c.history, c.pending, rfl⟩

variable {net : Network} {c c' c'' : Cluster}

/-- What is recorded is left out on both sides. -/
theorem Same.symm (h : Same c c') : Same c' c := by
  obtain ⟨history, pending, rfl⟩ := h
  exact ⟨c.history, c.pending, rfl⟩

/-- Three clusters, each with another history than the one before. -/
theorem Same.trans (h : Same c c') (h' : Same c' c'') : Same c c'' := by
  obtain ⟨history, pending, rfl⟩ := h
  obtain ⟨history', pending', rfl⟩ := h'
  exact ⟨history', pending', rfl⟩

/-- A row that is completed is all that `note` changes. -/
theorem Same.of_note (net : Network) (c : Cluster) (encoded result : String) : Same c (c.note net encoded result) := by
  unfold Cluster.note
  split
  · split
    · exact .refl c
    · exact ⟨_, _, rfl⟩
  · exact .refl c

/-- A completed row is written into a history, or into none. -/
theorem Same.note (h : Same c c') (encoded result : String) :
    Same (c.note net encoded result) (c'.note (net.recording recordHistory) encoded result) :=
  (Same.of_note net c encoded result).symm.trans (h.trans (Same.of_note _ c' encoded result))

/-- The first application of an operation lets its client move on, recorded or not. -/
theorem Same.onApply (h : Same c c') (encoded result : String) :
    Same (c.onApply net encoded result) (c'.onApply (net.recording recordHistory) encoded result) := by
  rw [onApply_eq, onApply_eq]
  have hout : c'.outstanding = c.outstanding := by
    obtain ⟨history, pending, rfl⟩ := h
    rfl
  rw [hout]
  split
  · exact h
  · refine Same.note ?_ encoded result
    split
    · obtain ⟨history, pending, rfl⟩ := h
      exact ⟨history, pending, rfl⟩
    · exact h

/-- What a node calls reaches the clients alike, recorded or not. -/
theorem Same.hear (h : Same c c') (e : Effect) : Same (c.hear net e) (c'.hear (net.recording recordHistory) e) := by
  cases e with
  | onApply encoded result => exact h.onApply encoded result
  | _ => exact h

/-- A row of a new operation is all that `_invoke` writes. -/
theorem Same.invoke (h : Same c c') (command : Command) (encoded : String) :
    Same (c.invoke net command encoded) (c'.invoke (net.recording recordHistory) command encoded) := by
  obtain ⟨history, pending, rfl⟩ := h
  unfold Cluster.invoke
  split <;> split <;> exact ⟨_, _, rfl⟩

/-- An action reaches the same node with the same operation, and the clients hear the same. -/
theorem Same.act (h : Same c c') (action : Action) : Agree Same (c.act net action) (c'.act (net.recording recordHistory) action) := by
  obtain ⟨history, pending, rfl⟩ := h
  unfold Cluster.act
  refine Agree.bind (Agree.self (c.world.step action)) ?_
  rintro world _ rfl
  refine .ok ?_
  have hfold : ∀ (calls : Trace) (c c' : Cluster), Same c c' → Same (calls.foldl (fun c call => c.hear net call.2) c)
      (calls.foldl (fun c call => c.hear (net.recording recordHistory) call.2) c') := by
    intro calls
    induction calls with
    | nil => exact fun _ _ h => h
    | cons call calls ih => exact fun _ _ h => ih _ _ (h.hear call.2)
  exact hfold _ _ _ ⟨history, pending, rfl⟩

/-- A leader gets the command, or its store is read, whatever is recorded. -/
theorem Same.submit (h : Same c c') (target : NodeId) (encoded : String) :
    Agree Same (c.submit net target encoded) (c'.submit (net.recording recordHistory) target encoded) := by
  have hworld : c'.world = c.world := by
    obtain ⟨history, pending, rfl⟩ := h
    rfl
  unfold Cluster.submit
  simp only
  rw [hworld]
  split
  · split
    · exact .ok (h.onApply encoded _)
    · have hread : (net.recording recordHistory).readIndex = net.readIndex := rfl
      rw [hread]
      split
      · exact h.act (.requestRead target encoded)
      · exact h.act (.clientCommand target encoded)
  · exact .ok h

/-- The client whose turn it is goes on with the same operation. -/
theorem Same.clientTick (h : Same c c') (target : NodeId) :
    Agree Same (c.clientTick net target) (c'.clientTick (net.recording recordHistory) target) := by
  obtain ⟨history, pending, rfl⟩ := h
  unfold Cluster.clientTick
  simp only
  have hout : (c.noting history pending).outstanding = c.outstanding := rfl
  have hturn : (c.noting history pending).clientTurn = c.clientTurn := rfl
  have hreq : (c.noting history pending).nextReq = c.nextReq := rfl
  rw [hout, hturn, hreq]
  split
  · refine Same.submit (Same.invoke ?_ _ _) target _
    exact ⟨history, pending, rfl⟩
  · refine Same.submit ?_ target _
    exact ⟨history, pending, rfl⟩

end Cluster

/-! ## The simulator -/

namespace Harness

variable {R : RandomSource} {settings : Settings} {h h' : Harness R}

/-- Two moments differ in what is recorded of the clients, and in nothing else. -/
def Same (h h' : Harness R) : Prop := ∃ cluster, Cluster.Same h.cluster cluster ∧ h' = { h with cluster }

/-- Draws of the same, at the same moments. -/
abbrev SameDraw {α : Type} (draw draw' : α × Harness R) : Prop := draw.1 = draw'.1 ∧ Same draw.2 draw'.2

namespace Same

/-- A run and itself differ in nothing. -/
theorem refl (h : Harness R) : Same h h := ⟨h.cluster, .refl _, rfl⟩

/-- A callback is scheduled for the same moment, under the same number. -/
theorem schedule (hs : Same h h') (delay : Int) (fn : Callback) : Agree Same (h.schedule delay fn) (h'.schedule delay fn) := by
  obtain ⟨c, hc, rfl⟩ := hs
  unfold Harness.schedule
  refine Agree.bind (Agree.self (h.sim.schedule delay fn)) ?_
  rintro sim _ rfl
  exact .ok ⟨c, hc, rfl⟩

/-- Both runs draw the same integer. -/
theorem randint (hs : Same h h') (lo hi : Int) : Agree SameDraw (h.randint lo hi) (h'.randint lo hi) := by
  obtain ⟨c, hc, rfl⟩ := hs
  unfold Harness.randint
  refine Agree.bind (Agree.self (h.sim.randint lo hi)) ?_
  rintro draw _ rfl
  exact .ok ⟨rfl, c, hc, rfl⟩

/-- Chance decides the same in both runs. -/
theorem chance (hs : Same h h') (p : ℚ) : SameDraw (h.chance p) (h'.chance p) := by
  obtain ⟨c, hc, rfl⟩ := hs
  exact ⟨rfl, c, hc, rfl⟩

/-- Where nothing is at risk neither run draws. -/
theorem risk (hs : Same h h') (p : ℚ) : SameDraw (h.risk p) (h'.risk p) := by
  unfold Harness.risk
  split
  · exact hs.chance p
  · exact ⟨rfl, hs⟩

/-- A lossy link loses the same message in both runs. -/
theorem lossyDraw (hs : Same h h') (src dst : NodeId) : SameDraw (h.lossyDraw src dst) (h'.lossyDraw src dst) := by
  have hnet : h'.net = h.net := by
    obtain ⟨c, hc, rfl⟩ := hs
    rfl
  unfold Harness.lossyDraw
  rw [hnet]
  split
  · exact hs.chance _
  · exact ⟨rfl, hs⟩

/-- A line of the trace. -/
theorem record (hs : Same h h') (line : Line) : Same (h.record line) (h'.record line) := by
  obtain ⟨c, hc, rfl⟩ := hs
  exact ⟨c, hc, rfl⟩

/-- The same change of the network. -/
theorem change (hs : Same h h') (f : SimNetwork → SimNetwork) (line : Line) :
    Same ({ h with net := f h.net }.record line) ({ h' with net := f h'.net }.record line) := by
  obtain ⟨c, hc, rfl⟩ := hs
  exact ⟨c, hc, rfl⟩

/-- A message is lost, for the same reason. -/
theorem drop (hs : Same h h') (src dst : NodeId) (why : Loss) : Same (h.drop src dst why) (h'.drop src dst why) :=
  hs.change (fun net => { net with dropped := net.dropped + 1 }) _

/-- The network is the same. -/
theorem net (hs : Same h h') : h'.net = h.net := by
  obtain ⟨c, hc, rfl⟩ := hs
  rfl

/-- The nodes are the same. -/
theorem world (hs : Same h h') : h'.cluster.world = h.cluster.world := by
  obtain ⟨c, ⟨history, pending, rfl⟩, rfl⟩ := hs
  rfl

/-- A message takes the same way through the network. -/
theorem send (hs : Same h h') (src dst : NodeId) (msg : Message) (k : ℕ) :
    Agree Same (h.send settings src dst msg k) (h'.send (settings.recording recordHistory) src dst msg k) := by
  have h0 := hs.change (fun net => { net with sent := net.sent + 1 }) (.send src dst msg)
  unfold Harness.send
  simp only
  generalize { h with net := { h.net with sent := h.net.sent + 1 } }.record (.send src dst msg) = s at h0 ⊢
  generalize { h' with net := { h'.net with sent := h'.net.sent + 1 } }.record (.send src dst msg) = s' at h0 ⊢
  rw [h0.net]
  split
  · exact .ok (h0.drop src dst _)
  obtain ⟨hlossy, h1⟩ := h0.lossyDraw src dst
  rw [← hlossy]
  split
  · exact .ok (h1.drop src dst _)
  obtain ⟨hlost, h2⟩ := h1.risk settings.profile.dropP
  have hprofile : (settings.recording recordHistory).profile = settings.profile := rfl
  rw [hprofile, ← hlost]
  split
  · exact .ok (h2.drop src dst _)
  refine Agree.bind (h2.randint _ _) ?_
  rintro ⟨delay, s3⟩ ⟨_, s3'⟩ ⟨rfl, h3⟩
  refine Agree.bind (h3.schedule delay (.deliver k)) fun s4 s4' h4 => ?_
  obtain ⟨hdup, h5⟩ := h4.risk settings.profile.dupP
  rw [← hdup]
  split
  · refine Agree.bind (h5.randint _ _) ?_
    rintro ⟨dupDelay, s6⟩ ⟨_, s6'⟩ ⟨rfl, h6⟩
    exact (h6.change (fun net => { net with duplicated := net.duplicated + 1 }) (.dup src dst msg)).schedule dupDelay (.deliver k)
  · exact .ok h5

/-- A timer is drawn and scheduled alike. -/
theorem startTimer (hs : Same h h') (n : NodeId) (kind : TimerKind) (k : ℕ) : Agree Same (h.startTimer n kind k) (h'.startTimer n kind k) := by
  unfold Harness.startTimer
  rw [hs.world]
  cases kind with
  | election =>
    refine Agree.bind (hs.randint _ _) ?_
    rintro ⟨timeout, s⟩ ⟨_, s'⟩ ⟨rfl, h1⟩
    exact h1.schedule timeout _
  | heartbeat => exact hs.schedule _ _

/-- What a node calls is carried out alike. -/
theorem hear (hs : Same h h') (call : (NodeId × Effect) × ℕ) :
    Agree Same (h.hear settings call) (h'.hear (settings.recording recordHistory) call) := by
  obtain ⟨⟨n, e⟩, k⟩ := call
  cases e with
  | send dst msg => exact hs.send n dst msg k
  | schedule kind seq => exact hs.startTimer n kind k
  | record event => exact .ok (hs.record (.node n event))
  | _ => exact .ok hs

/-- What the nodes ask for does not depend on what is recorded of the clients. -/
theorem follow (hs : Same h h') {c c' : Cluster} (hc : Cluster.Same c c') :
    Agree Same (h.follow settings c) (h'.follow (settings.recording recordHistory) c') := by
  obtain ⟨history, pending, rfl⟩ := hc
  unfold Harness.follow
  rw [hs.world]
  refine Agree.foldlM (fun call _ s s' hs => hs.hear call) ?_
  obtain ⟨c₀, hc₀, rfl⟩ := hs
  exact ⟨c.noting history pending, ⟨history, pending, rfl⟩, rfl⟩

/-- What a node raises the run raises. -/
theorem raising {x y : Except PyError Cluster} (hxy : Agree Cluster.Same x y) :
    Agree Cluster.Same (Harness.raising x) (Harness.raising y) := by
  cases hxy with
  | ok hc => exact .ok hc
  | error e => exact .error _

/-- What else is in the cluster is the same. -/
theorem cluster (hs : Same h h') : Cluster.Same h.cluster h'.cluster := by
  obtain ⟨c, hc, rfl⟩ := hs
  exact hc

/-- An action on the nodes, and all that they call. -/
theorem act (hs : Same h h') (action : Action) :
    Agree Same (h.act settings action) (h'.act (settings.recording recordHistory) action) :=
  Agree.bind (raising (hs.cluster.act action)) fun _ _ hc => hs.follow hc

/-- A message arrives, or is lost on arrival. -/
theorem delivery (hs : Same h h') (k : ℕ) :
    Agree Same (h.delivery settings k) (h'.delivery (settings.recording recordHistory) k) := by
  unfold Harness.delivery
  rw [hs.world, hs.net]
  split
  · rename_i src dst msg _
    split
    · exact .ok (hs.drop src dst _)
    · split
      · exact .ok (hs.drop src dst _)
      · split
        · exact .ok (hs.drop src dst _)
        · have h1 := hs.change (fun net => { net with delivered := net.delivered + 1 }) (.deliver src dst msg)
          rw [hs.net] at h1
          exact h1.act (.deliver k)
  · exact .ok hs

/-! ### The drivers -/

/-- The clock and the source of random numbers are the same. -/
theorem sim (hs : Same h h') : h'.sim = h.sim := by
  obtain ⟨c, hc, rfl⟩ := hs
  rfl

/-- The draw of an element, and the moments after it. -/
theorem choice (hs : Same h h') (seq : List NodeId) : Agree (fun draw draw' => draw.1 = draw'.1 ∧
    Same { h with sim := draw.2 } { h' with sim := draw'.2 }) (h.sim.choice seq) (h'.sim.choice seq) := by
  rw [hs.sim]
  refine Agree.mono (Agree.self _) ?_
  rintro draw _ rfl
  obtain ⟨c, hc, rfl⟩ := hs
  exact ⟨rfl, c, hc, rfl⟩

/-- The same nodes believe to lead. -/
theorem leaders (hs : Same h h') : h'.leaders (settings.recording recordHistory) = h.leaders settings := by
  unfold Harness.leaders
  rw [hs.world]
  rfl

/-- And so does the first of them. -/
theorem leader (hs : Same h h') : h'.leader (settings.recording recordHistory) = h.leader settings := by
  unfold Harness.leader
  rw [hs.world, hs.leaders]

/-- An attempt is recorded as that of a new operation, or as a retry. -/
theorem recordAttempt (hs : Same h h') (clientId : Int) (target : NodeId) :
    Same (h.recordAttempt clientId target) (h'.recordAttempt clientId target) := by
  have hout : h'.cluster.outstanding = h.cluster.outstanding := by
    obtain ⟨c, ⟨history, pending, rfl⟩, rfl⟩ := hs
    rfl
  have hreq : h'.cluster.nextReq = h.cluster.nextReq := by
    obtain ⟨c, ⟨history, pending, rfl⟩, rfl⟩ := hs
    rfl
  unfold Harness.recordAttempt
  simp only
  rw [hout, hreq, hs.world]
  split
  · exact (hs.record _).record _
  · exact hs.record _

/-- A client's tick goes to the same node and is followed by the next one. -/
theorem clientTick (hs : Same h h') : Agree Same (h.clientTick settings) (h'.clientTick (settings.recording recordHistory)) := by
  have hturn : h'.cluster.clientTurn = h.cluster.clientTurn := by
    obtain ⟨c, ⟨history, pending, rfl⟩, rfl⟩ := hs
    rfl
  unfold Harness.clientTick
  simp only
  refine Agree.bind (hs.choice settings.ids) ?_
  rintro ⟨target, sim⟩ ⟨_, sim'⟩ ⟨rfl, h1⟩
  refine Agree.bind (raising (hs.cluster.clientTick target)) fun c c' hc => ?_
  rw [hturn]
  refine Agree.bind ((h1.recordAttempt _ target).follow hc) fun s s' h2 => ?_
  have hinterval : (settings.recording recordHistory).clientInterval = settings.clientInterval := rfl
  rw [hinterval]
  split
  · exact h2.schedule _ _
  · exact h2.schedule _ _

/-- A fault gets the same ordinal, and is suppressed in both runs or in none. -/
theorem fireFault (hs : Same h h') : SameDraw (h.fireFault settings) (h'.fireFault (settings.recording recordHistory)) := by
  obtain ⟨c, hc, rfl⟩ := hs
  exact ⟨rfl, c, hc, rfl⟩

/-- What an injection does once it has its ordinal, if it is not suppressed. -/
theorem fires (hs : Same h h') {x y : Harness R → Except SimError (Harness R)} (hxy : ∀ s s', Same s s' → Agree Same (x s) (y s')) :
    Agree Same (if (h.fireFault settings).1 then x (h.fireFault settings).2 else .ok (h.fireFault settings).2)
      (if (h'.fireFault (settings.recording recordHistory)).1 then y (h'.fireFault (settings.recording recordHistory)).2
        else .ok (h'.fireFault (settings.recording recordHistory)).2) := by
  obtain ⟨hfires, h1⟩ := @fireFault recordHistory R settings h h' hs
  rw [← hfires]
  split
  · exact hxy _ _ h1
  · exact .ok h1

/-- A partition is accepted in both runs, or raises in both. -/
theorem setPartition (hs : Same h h') (groups : List (Finset NodeId)) :
    Agree Same (h.setPartition settings groups) (h'.setPartition (settings.recording recordHistory) groups) := by
  unfold Harness.setPartition
  rw [hs.net]
  have hids : (settings.recording recordHistory).ids = settings.ids := rfl
  rw [hids]
  split
  · rename_i net _
    exact .ok (hs.change (fun _ => net) (.partition groups))
  · exact .error _

/-- The partition heals. -/
theorem healPartition (hs : Same h h') :
    Same (h.healPartition settings) (h'.healPartition (settings.recording recordHistory)) :=
  hs.change (fun net => net.heal settings.ids) .heal

/-- A node crashes. -/
theorem pause (hs : Same h h') (n : NodeId) :
    Agree Same (h.pause settings n) (h'.pause (settings.recording recordHistory) n) := by
  have h1 : Same { h with net := { h.net with crashed := insert n h.net.crashed } }
      { h' with net := { h'.net with crashed := insert n h'.net.crashed } } := by
    obtain ⟨c, hc, rfl⟩ := hs
    exact ⟨c, hc, rfl⟩
  exact Agree.bind (h1.act (.pause n)) fun _ _ h2 => .ok (h2.record (.crash n))

/-- A node comes back. -/
theorem resume (hs : Same h h') (n : NodeId) :
    Agree Same (h.resume settings n) (h'.resume (settings.recording recordHistory) n) := by
  have h1 : Same { h with net := { h.net with crashed := h.net.crashed.erase n } }
      { h' with net := { h'.net with crashed := h'.net.crashed.erase n } } := by
    obtain ⟨c, hc, rfl⟩ := hs
    exact ⟨c, hc, rfl⟩
  exact Agree.bind (h1.act (.resume n)) fun _ _ h2 => .ok (h2.record (.resume n))

/-- A link goes down. -/
theorem linkDown (hs : Same h h') (a b : NodeId) : Same (h.linkDown a b) (h'.linkDown a b) := by
  unfold Harness.linkDown
  rw [hs.net]
  split
  · exact hs
  · exact hs.change (fun _ => h.net.setLinkDown a b) _

/-- A link comes up again. -/
theorem linkUp (hs : Same h h') (a b : NodeId) : Same (h.linkUp a b) (h'.linkUp a b) := by
  unfold Harness.linkUp
  rw [hs.net]
  split
  · exact hs.change (fun _ => h.net.setLinkUp a b) _
  · exact hs

/-- A link becomes lossy. -/
theorem setLossyLink (hs : Same h h') (a b : NodeId) (dropP : ℚ) : Same (h.setLossyLink a b dropP) (h'.setLossyLink a b dropP) :=
  hs.change (fun net => net.setLinkLossy a b dropP) _

/-- A link loses nothing any more. -/
theorem clearLossyLink (hs : Same h h') (a b : NodeId) : Same (h.clearLossyLink a b) (h'.clearLossyLink a b) := by
  unfold Harness.clearLossyLink
  rw [hs.net]
  split
  · exact hs.change (fun _ => h.net.clearLinkLossy a b) _
  · exact hs

/-- The random partitions come and go alike. -/
theorem partitionTick (hs : Same h h') :
    Agree Same (h.partitionTick settings) (h'.partitionTick (settings.recording recordHistory)) := by
  have hprofile : (settings.recording recordHistory).profile = settings.profile := rfl
  have hids : (settings.recording recordHistory).ids = settings.ids := rfl
  unfold Harness.partitionTick
  rw [hprofile, hids, hs.net]
  split
  · exact .ok hs
  split
  · obtain ⟨hheals, h1⟩ := hs.chance (1 / 4)
    simp only
    rw [← hheals]
    split
    · exact .ok h1.healPartition
    · exact .ok h1
  · obtain ⟨hsplits, h1⟩ := hs.chance (3 / 20)
    simp only
    rw [← hsplits]
    split
    · refine Agree.bind (Agree.foldlM (R := SameDraw) (fun i _ draws draws' hd => ?_) ⟨rfl, h1⟩) ?_
      · obtain ⟨sides, s⟩ := draws
        obtain ⟨_, s'⟩ := draws'
        obtain ⟨rfl, hd⟩ := hd
        refine Agree.bind (hd.randint 0 1) ?_
        rintro ⟨side, s⟩ ⟨_, s'⟩ ⟨rfl, h2⟩
        exact .ok ⟨rfl, h2⟩
      · rintro ⟨sides, s⟩ ⟨_, s'⟩ ⟨rfl, h2⟩
        simp only
        split
        · exact .ok h2
        · exact h2.fires fun _ _ h3 => h3.setPartition _
    · exact .ok h1

/-- A crash, and the restart scheduled. -/
theorem crash (hs : Same h h') (n : NodeId) (delay : Int) : Agree Same (do
    let mid ← h.pause settings n
    mid.schedule delay (.maybeResume n)) (do
    let mid ← h'.pause (settings.recording recordHistory) n
    mid.schedule delay (.maybeResume n)) :=
  Agree.bind (hs.pause n) fun _ _ h1 => h1.schedule _ _

/-- The same node crashes by chance, for as long. -/
theorem crashTick (hs : Same h h') : Agree Same (h.crashTick settings) (h'.crashTick (settings.recording recordHistory)) := by
  have hprofile : (settings.recording recordHistory).profile = settings.profile := rfl
  have hids : (settings.recording recordHistory).ids = settings.ids := rfl
  have hnodes : (settings.recording recordHistory).numNodes = settings.numNodes := rfl
  unfold Harness.crashTick
  rw [hprofile]
  have h1 : SameDraw (if settings.profile.crashes then h.chance (1 / 10) else (false, h))
      (if settings.profile.crashes then h'.chance (1 / 10) else (false, h')) := by
    split
    · exact hs.chance _
    · exact ⟨rfl, hs⟩
  generalize (if settings.profile.crashes then h.chance (1 / 10) else (false, h)) = draw at h1 ⊢
  generalize (if settings.profile.crashes then h'.chance (1 / 10) else (false, h')) = draw' at h1 ⊢
  obtain ⟨crashes, s⟩ := draw
  obtain ⟨_, s'⟩ := draw'
  obtain ⟨rfl, h1⟩ := h1
  simp only at h1 ⊢
  have hcand : (if s'.net.crashed.card < (settings.numNodes - 1) / 2 then
      settings.ids.filter fun n => (s'.cluster.world.nodes n).alive else []) =
      if s.net.crashed.card < (settings.numNodes - 1) / 2 then
        settings.ids.filter fun n => (s.cluster.world.nodes n).alive else [] := by
    rw [h1.net, h1.world]
  rw [hids, hnodes, hcand]
  generalize (if s.net.crashed.card < (settings.numNodes - 1) / 2 then
    settings.ids.filter fun n => (s.cluster.world.nodes n).alive else []) = candidates
  split
  · split
    · exact .ok h1
    · refine Agree.bind (h1.choice candidates) ?_
      rintro ⟨victim, sim⟩ ⟨_, sim'⟩ ⟨rfl, h2⟩
      refine Agree.bind (h2.randint 100 400) ?_
      rintro ⟨resumeDelay, s⟩ ⟨_, s'⟩ ⟨rfl, h3⟩
      exact h3.fires fun _ _ h4 => h4.crash victim resumeDelay
  · exact .ok h1

/-- A tick of the fault driver. -/
theorem faultTick (hs : Same h h') : Agree Same (h.faultTick settings) (h'.faultTick (settings.recording recordHistory)) :=
  Agree.bind hs.partitionTick fun _ _ h1 => Agree.bind h1.crashTick fun _ _ h2 => h2.schedule _ _

/-- A leader is asked for the same configuration. -/
theorem proposeChange (hs : Same h h') (leader : NodeId) :
    Agree Same (h.proposeChange settings leader) (h'.proposeChange (settings.recording recordHistory) leader) := by
  have hids : (settings.recording recordHistory).ids = settings.ids := rfl
  have hnodes : (settings.recording recordHistory).numNodes = settings.numNodes := rfl
  have hturn : h'.memberTurn = h.memberTurn := by
    obtain ⟨c, hc, rfl⟩ := hs
    rfl
  have hset : ∀ {s s' : Harness R} (memberTurn : ℕ), Same s s' → Same { s with memberTurn } { s' with memberTurn } := by
    rintro s _ memberTurn ⟨c, hc, rfl⟩
    exact ⟨c, hc, rfl⟩
  unfold Harness.proposeChange
  simp only
  rw [hids, hnodes, hturn, hs.world]
  refine Agree.bind (Agree.self _) ?_
  rintro accepted _ rfl
  refine Agree.bind ((hset _ hs).act (.changeConfig leader _)) fun s s' h1 => ?_
  have hturn' : s'.memberTurn = s.memberTurn := by
    obtain ⟨c, hc, rfl⟩ := h1
    rfl
  rw [hturn']
  split
  · exact .ok (hset _ h1)
  · exact .ok h1

/-- A tick of the membership driver. -/
theorem membershipTick (hs : Same h h') :
    Agree Same (h.membershipTick settings) (h'.membershipTick (settings.recording recordHistory)) := by
  unfold Harness.membershipTick
  rw [@leaders recordHistory R settings h h' hs]
  exact Agree.bind (Agree.foldlM (fun n _ _ _ h1 => h1.proposeChange n) hs) fun _ _ h1 => h1.schedule _ _

/-- The nodes are split, and will be healed at the same moment. -/
theorem split (hs : Same h h') (groups : List (Finset NodeId)) (duration : Int) :
    Agree Same (h.split settings groups duration) (h'.split (settings.recording recordHistory) groups duration) :=
  hs.fires fun _ _ h1 => Agree.bind (h1.setPartition groups) fun _ _ h2 => h2.schedule _ _

/-- A pattern of the schedule strikes alike. -/
theorem nemesisFire (hs : Same h h') (op : NemesisOp) :
    Agree Same (h.nemesisFire settings op) (h'.nemesisFire (settings.recording recordHistory) op) := by
  unfold Harness.nemesisFire
  cases op with
  | partitionHalves start duration =>
    have hhalves : (settings.recording recordHistory).halves = settings.halves := rfl
    simp only
    rw [hhalves]
    split
    · exact .ok (hs.record _)
    · exact hs.split _ duration
  | isolateLeader start duration =>
    have hids : (settings.recording recordHistory).ids = settings.ids := rfl
    simp only
    rw [@leader recordHistory R settings h h' hs, hids]
    split
    · exact .ok (hs.record _)
    · split
      · exact .ok (hs.record _)
      · exact hs.split _ duration
  | flappingLink a b start period cycles => exact hs.fires fun _ _ h1 => (h1.linkDown a b).schedule _ _
  | lossyLink a b start duration dropP => exact hs.fires fun _ _ h1 => (h1.setLossyLink a b dropP).schedule _ _
  | crashNode n start duration =>
    simp only
    rw [hs.world]
    split
    · exact .ok (hs.record _)
    · exact hs.fires fun _ _ h1 => h1.crash n duration

/-! ### Events -/

/-- An event is the same, whether or not the clients' history is recorded. -/
theorem call (hs : Same h h') (fn : Callback) :
    Agree Same (h.call settings fn) (h'.call (settings.recording recordHistory) fn) := by
  cases fn with
  | deliver k => exact hs.delivery k
  | fire k => exact hs.act (.fire k)
  | clientTick => exact hs.clientTick
  | faultTick => exact hs.faultTick
  | membershipTick => exact hs.membershipTick
  | nemesisFire injection => exact hs.nemesisFire injection.op
  | healPartition => exact .ok hs.healPartition
  | linkUp a b => exact .ok (hs.linkUp a b)
  | clearLossyLink a b => exact .ok (hs.clearLossyLink a b)
  | maybeResume n =>
    show Agree Same (h.maybeResume settings n) (h'.maybeResume (settings.recording recordHistory) n)
    unfold Harness.maybeResume
    rw [hs.net]
    split
    · exact hs.resume n
    · exact .ok hs

/-- One event is the same event in both runs. -/
theorem step (hs : Same h h') : Agree SameDraw (h.step settings) (h'.step (settings.recording recordHistory)) := by
  unfold Harness.step
  rw [hs.sim]
  split
  · exact .ok ⟨rfl, hs⟩
  · rename_i due fn clock _
    have h1 : Same { h with sim := { h.sim with clock }, cluster := h.cluster.tick }
        { h' with sim := { h.sim with clock }, cluster := h'.cluster.tick } := by
      obtain ⟨c, ⟨history, pending, rfl⟩, rfl⟩ := hs
      exact ⟨_, ⟨history, pending, rfl⟩, rfl⟩
    exact Agree.bind (h1.call fn) fun _ _ h2 => .ok ⟨rfl, h2⟩

/-- A driver is started, or is not there. -/
theorem startDriver (hs : Same h h') (runs : Bool) (delay : Int) (fn : Callback) :
    Agree Same (h.startDriver runs delay fn) (h'.startDriver runs delay fn) := by
  unfold Harness.startDriver
  split
  · exact hs.schedule delay fn
  · exact .ok hs

/-- Both runs start from the same state. -/
theorem init (settings : Settings) (recordHistory : Bool) (seed : R.State) :
    Agree Same (Harness.init settings seed) (Harness.init (settings.recording recordHistory) seed) := by
  unfold Harness.init
  refine Agree.bind ((Same.refl _).follow (Cluster.Same.refl _)) fun _ _ h1 => ?_
  refine Agree.bind (h1.startDriver _ _ .clientTick) fun _ _ h2 => ?_
  refine Agree.bind (h2.startDriver _ _ .faultTick) fun _ _ h3 => ?_
  refine Agree.bind (h3.startDriver _ _ .membershipTick) fun _ _ h4 => ?_
  exact Agree.foldlM (fun _ _ _ _ h5 => h5.schedule _ _) h4

/-- A run is the same after every step, whether or not the clients' history is recorded. -/
theorem run (settings : Settings) (recordHistory : Bool) (seed : R.State) (steps : ℕ) :
    Agree Same (Harness.run settings seed steps) (Harness.run (settings.recording recordHistory) seed steps) := by
  induction steps with
  | zero => exact init settings recordHistory seed
  | succ steps ih =>
    refine Agree.bind ih fun _ _ h1 => Agree.bind h1.step ?_
    rintro ⟨more, s⟩ ⟨_, s'⟩ ⟨rfl, h2⟩
    exact .ok h2

end Same
end Harness

end DeterministicRaft
