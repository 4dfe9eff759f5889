import DeterministicRaft.Roster
import DeterministicRaft.Simulation
import DeterministicRaft.StaleReads
import DeterministicRaft.Traffic
import DeterministicRaft.Watched

/-!
# Events that raise nothing

The nodes of a cluster without defects do not raise, whatever they are made to do, with or without stale reads. The simulator raises on a negative delay, on an empty
range and on an empty choice, the network on groups that leave a node out. With sensible settings no event comes to any of these.
-/

namespace DeterministicRaft

open Consensus RaftNode Refinement

/-! ## The configuration of a node -/

section Config

variable {I : Inputs} {self after : RaftNode}

/-- No move changes the configuration of a node. -/
theorem Move.config (hm : Move I self after) : after.config = self.config := by
  cases hm with
  | stepDown term => rw [becomeFollower_eq]
  | propose command =>
    obtain ⟨ci, hp⟩ := proposed_eq self command
    rw [hp]
  | truncate index t entry => rw [OnlyLog.truncateFrom self index]
  | extend index entry => rw [OnlyLog.appendReplicated self index entry]
  | commit index entries =>
    obtain ⟨es, -, hc⟩ := committed_eq self index entries
    rw [hc]
  | pause => rw [pause_fields]
  | _ => rfl

/-- No moves change the configuration of a node. -/
theorem Moved.config (hm : Moved I self after) : after.config = self.config := by
  induction hm with
  | refl => rfl
  | tail _ hm ih => exact hm.config.trans ih

/-- No operation changes the configuration of a node. -/
theorem perform_config (self : RaftNode) (op : NodeOp) : Ensures (self.perform op) fun after => after.config = self.config :=
  (perform_makes (I := .any) ⟨trivial, trivial, trivial⟩ self op (op.admissible_any self)).mono fun _ hm => hm.config

/-- No action changes the configuration of a node. -/
theorem World.step_config {w w' : World} {action : Action} (h : w.step action = .ok w') (n : NodeId) :
    (w'.nodes n).config = (w.nodes n).config := by
  rcases World.step_cases h with rfl | ⟨m, op, node, -, hp, rfl⟩
  · rfl
  · by_cases hn : n = m
    · subst hn
      simp only [Function.update_self]
      exact perform_config _ op node hp
    · simp only [Function.update_of_ne hn]

end Config

/-! ## Clusters -/

/-- The event, as far as the nodes go. -/
def World.happen (self : World) : WatchedEvent → Except PyError World
  | .idle => .ok self
  | .act action => self.step action
  | .propose proposals => proposals.foldlM (fun self p => self.step (.changeConfig p.1 p.2)) self

/-- The event is one that clients, operators, the network and the fault drivers can cause. -/
def WatchedEvent.Admitted (net : Network) : WatchedEvent → Prop
  | .idle => True
  | .act action => net.Admits action ∧ action.Within net.ids
  | .propose proposals => ∀ p ∈ proposals, net.reconfigurable = true ∧ p.1 ∈ net.ids ∧ p.2 ⊆ net.ids

/-- An event that can be caused leads from the one state of the nodes to the other. -/
def Network.Leads (net : Network) (w w' : World) : Prop := ∃ event, event.Admitted net ∧ w.happen event = .ok w'

/-- What the nodes do does not depend on the flag. -/
theorem World.happen_withStale {w w' : World} (b : Bool) {event : WatchedEvent} (h : w.happen event = .ok w') :
    (w.withStale b).happen event = .ok (w'.withStale b) := by
  cases event with
  | idle =>
    cases h
    rfl
  | act action => exact World.withStale_step b h
  | propose proposals =>
    unfold World.happen at h ⊢
    simp only at h ⊢
    induction proposals generalizing w with
    | nil =>
      cases h
      rfl
    | cons p proposals ih =>
      rw [List.foldlM_cons] at h ⊢
      obtain ⟨mid, hmid, hrest⟩ := bind_eq_ok.1 h
      rw [World.withStale_step b hmid]
      exact ih hrest

/-- What an action leads to, with the flag set on both sides. -/
theorem Network.Leads.withStale {net : Network} {w w' : World} (h : net.Leads w w') (b : Bool) :
    net.Leads (w.withStale b) (w'.withStale b) := by
  obtain ⟨event, he, hevent⟩ := h
  exact ⟨event, he, World.happen_withStale b hevent⟩

/-- An action that reaches no node. -/
theorem Network.Leads.refl (net : Network) (w : World) : net.Leads w w := ⟨.idle, trivial, rfl⟩

section Launch

variable {ids initialVoters : List NodeId} {peers : NodeId → List NodeId} {config : NodeId → RaftConfig} {bugs : NodeId → Bugs}

/-- The calls of a start are the nodes' first timers. -/
theorem World.mem_launch_trace {call : NodeId × Effect} (h : call ∈ (World.launch ids initialVoters peers config bugs).trace) :
    ∃ n ∈ ids, call = (n, .schedule .election 1) := by
  obtain ⟨n, hn, hc⟩ := List.mem_flatMap.1 h
  obtain ⟨e, he, rfl⟩ := List.mem_map.1 hc
  rw [List.mem_singleton.1 he]
  exact ⟨n, hn, rfl⟩

/-- Nodes that have started. -/
theorem World.sited_launch (h : initialVoters ⊆ ids) : (World.launch ids initialVoters peers config bugs).Sited ids := by
  refine ⟨World.Adopts.launch ids initialVoters peers config bugs fun v hv => h ((List.mem_insertionSort _).1 hv), fun _ => rfl,
    fun call hc => ?_, fun n dst msg hm => ?_, fun n hn => ?_⟩
  · obtain ⟨n, hn, rfl⟩ := World.mem_launch_trace hc
    exact hn
  · obtain ⟨m, -, heq⟩ := World.mem_launch_trace hm
    cases heq
  · cases hn

end Launch

namespace Cluster

variable {net : Network} {c c' : Cluster}

/-- The nodes follow the protocol, under one configuration, and only nodes of the cluster take part. -/
structure Fit (net : Network) (c : Cluster) : Prop where
  follows : ∃ a, Simulates net a (c.world.withStale false)
  config : ∀ n, (c.world.nodes n).config = net.config
  sited : c.Sited net.ids

/-- What clients and operators, the network and the fault drivers cause raises nothing. -/
theorem Fit.act (h : c.Fit net) {action : Action} (hadm : net.Admits action) (hin : action.Within net.ids) :
    Returns (c.act net action) fun c' => c'.Fit net ∧ c.world.step action = .ok c'.world := by
  obtain ⟨a, hsim⟩ := h.follows
  obtain ⟨v, a', hv, -, -, -, hsim'⟩ := hsim.step hadm
  obtain ⟨w, hstep, rfl⟩ := World.step_of_withStale hv
  have hreturns : Returns (c.act net action) fun _ => True := by
    unfold Cluster.act
    rw [hstep]
    exact Returns.pure trivial
  refine ((hreturns.and (act_world net c action)).and (h.sited.act net hin)).mono ?_
  rintro c' ⟨⟨-, hworld⟩, hsited⟩
  have hw : c'.world = w := Except.ok.inj (hworld.symm.trans hstep)
  exact ⟨⟨⟨a', hw ▸ hsim'⟩, fun n => (World.step_config hworld n).trans (h.config n), hsited⟩, hworld⟩

/-- A leader among the nodes gets the command, or its store is read. -/
theorem Fit.submit (h : c.Fit net) {target : NodeId} (ht : target ∈ net.ids) {encoded : String} (he : decodeConfig encoded = none) :
    Returns (c.submit net target encoded) fun c' => c'.Fit net ∧ net.Leads c.world c'.world := by
  have hact : ∀ action : Action, net.Admits action → action.Within net.ids →
      Returns (c.act net action) fun c' => c'.Fit net ∧ net.Leads c.world c'.world := fun action hadm hin =>
    (h.act hadm hin).mono fun c' hc => ⟨hc.1, .act action, ⟨hadm, hin⟩, hc.2⟩
  unfold Cluster.submit
  simp only
  split
  · split
    · refine Returns.pure ⟨⟨?_, ?_, h.sited.onApply net encoded _⟩, ?_⟩
      · rw [onApply_world]
        exact h.follows
      · rw [onApply_world]
        exact h.config
      · rw [onApply_world]
        exact .refl net _
    · split
      · rename_i hread
        exact hact (.requestRead target encoded) hread.1 ht
      · exact hact (.clientCommand target encoded) he ⟨ht, he⟩
  · exact Returns.pure ⟨h, .refl net _⟩

/-- The client whose turn it is goes on. -/
theorem Fit.clientTick (h : c.Fit net) {target : NodeId} (ht : target ∈ net.ids) :
    Returns (c.clientTick net target) fun c' => c'.Fit net ∧ net.Leads c.world c'.world := by
  unfold Cluster.clientTick
  simp only
  split
  · refine (Fit.submit ⟨?_, ?_, ?_, fun cid encoded hl => ?_⟩ ht (decodeConfig_encode _)).mono fun c' hc => ⟨hc.1, ?_⟩
    · rw [invoke_world]
      exact h.follows
    · rw [invoke_world]
      exact h.config
    · rw [invoke_world]
      exact h.sited.world
    · rw [invoke_outstanding] at hl
      by_cases hcid : cid = ((c.clientTurn % WORKLOAD_CLIENTS : ℕ) : Int)
      · rw [hcid, Finmap.lookup_insert] at hl
        rw [← Option.some.inj hl]
        exact decodeConfig_encode _
      · rw [Finmap.lookup_insert_of_ne _ hcid] at hl
        exact h.sited.asked cid encoded hl
    · have hleads := hc.2
      rwa [invoke_world] at hleads
  · rename_i encoded hl
    have hturn : ({ c with clientTurn := c.clientTurn + 1 } : Cluster).Fit net := ⟨h.follows, h.config, ⟨h.sited.world, h.sited.asked⟩⟩
    exact hturn.submit ht (h.sited.asked _ encoded hl)

end Cluster

/-! ## The simulator -/

/-- Settings without defects that a node could show, with voters that are told apart, and with what scheduling and drawing need. -/
structure Settings.Workable (settings : Settings) : Prop where
  bugs : settings.bugs.Unseen
  voters : settings.voters.Nodup
  timeouts : 0 ≤ settings.config.electionTimeoutMin ∧ settings.config.electionTimeoutMin ≤ settings.config.electionTimeoutMax
  heartbeats : 0 ≤ settings.config.heartbeatInterval
  ticks : 0 ≤ settings.clientInterval.getD 0

/-- A fault that is due is one of a schedule for the cluster, a restart is one of a node of the cluster, and the membership driver runs in
membership mode only. -/
def Callback.Sensible (settings : Settings) : Callback → Prop
  | .membershipTick => settings.membership = true
  | .nemesisFire injection =>
    injection.op.Valid ∧ ∀ n start duration, injection.op = .crashNode n start duration → n ∈ settings.ids
  | .maybeResume n => n ∈ settings.ids
  | _ => True

namespace Harness

variable {R : RandomSource} {settings : Settings} {self before mid after : Harness R}

/-- What is due stays due, and what becomes due is sensible. -/
structure Adds (settings : Settings) (before after : Harness R) : Prop where
  sensible : ∀ x ∈ after.pending, x ∈ before.pending ∨ x.2.Sensible settings
  kept : ∀ x ∈ before.pending, x ∈ after.pending

/-- The same, and the nodes and their clients are as they were. -/
structure Beside (settings : Settings) (before after : Harness R) : Prop extends Adds settings before after where
  cluster : after.cluster = before.cluster

/-- What is added to the queue, in two parts. -/
theorem Adds.trans (h : Adds settings before mid) (h' : Adds settings mid after) : Adds settings before after where
  sensible x hx := by
    rcases h'.sensible x hx with hx | hx
    · exact h.sensible x hx
    · exact Or.inr hx
  kept x hx := h'.kept x (h.kept x hx)

/-- What leaves the nodes alone, in two parts. -/
theorem Beside.trans (h : Beside settings before mid) (h' : Beside settings mid after) : Beside settings before after :=
  ⟨h.toAdds.trans h'.toAdds, h'.cluster.trans h.cluster⟩

/-- Nothing was scheduled. -/
theorem Beside.still (hc : after.sim.clock = before.sim.clock) (hcl : after.cluster = before.cluster) : Beside settings before after := by
  have hp : after.pending = before.pending := by
    unfold Harness.pending
    rw [hc]
  exact ⟨⟨fun x hx => Or.inl (hp ▸ hx), fun x hx => hp ▸ hx⟩, hcl⟩

/-- Nothing happens. -/
theorem Beside.refl (self : Harness R) : Beside settings self self := .still rfl rfl

/-- A callback can be scheduled after any delay that is not negative. -/
theorem schedule_returns (settings : Settings) (self : Harness R) {delay : Int} (hd : 0 ≤ delay) (fn : Callback) (hfn : fn.Sensible settings) :
    Returns (self.schedule delay fn) fun after => Beside settings self after ∧ ∃ t, (t, fn) ∈ after.pending := by
  unfold Harness.schedule Simulator.schedule
  rw [dif_neg (not_lt.2 hd)]
  have hperm : (self.sim.clock.schedule delay fn hd).pending.Perm ((self.sim.clock.now + delay, fn) :: self.sim.clock.pending) :=
    Clock.pending_schedule self.sim.clock hd
  refine Returns.pure ⟨⟨⟨fun x hx => ?_, fun x hx => ?_⟩, rfl⟩, self.sim.clock.now + delay, ?_⟩
  · rcases List.mem_cons.1 (hperm.mem_iff.1 hx) with rfl | hx
    · exact Or.inr hfn
    · exact Or.inl hx
  · exact hperm.mem_iff.2 (List.mem_cons_of_mem _ hx)
  · exact hperm.mem_iff.2 List.mem_cons_self

/-- An integer can be drawn from a range that is not empty. -/
theorem randint_returns (settings : Settings) (self : Harness R) {lo hi : Int} (h : lo ≤ hi) :
    Returns (self.randint lo hi) fun draw => (lo ≤ draw.1 ∧ draw.1 ≤ hi) ∧ Beside settings self draw.2 := by
  unfold Harness.randint Simulator.randint
  rw [if_neg (not_lt.2 h)]
  exact Returns.pure ⟨R.randint_mem lo hi self.sim.rng h, .still rfl rfl⟩

/-- A choice can be made from a list that is not empty. -/
theorem choice_returns (settings : Settings) (self : Harness R) {seq : List NodeId} (h : seq ≠ []) :
    Returns (self.sim.choice seq) fun draw => draw.1 ∈ seq ∧ Beside settings self { self with sim := draw.2 } := by
  have hlen := List.length_pos_of_ne_nil h
  obtain ⟨hlo, hhi⟩ := R.randint_mem 0 (seq.length - 1) self.sim.rng (by omega)
  refine Returns.mono (Q := fun draw => draw.1 ∈ seq ∧ draw.2.clock = self.sim.clock) ?_ fun draw hd => ⟨hd.1, .still hd.2 rfl⟩
  unfold Simulator.choice
  generalize R.randint 0 (seq.length - 1) self.sim.rng = draw at hlo hhi ⊢
  obtain ⟨i, rng⟩ := draw
  simp only at hlo hhi ⊢
  obtain ⟨n, hn⟩ := Int.eq_ofNat_of_zero_le hlo
  have hlt : n < seq.length := by omega
  rw [pyIndex_ok hn (List.getElem?_eq_getElem hlt)]
  exact Returns.pure ⟨List.getElem_mem hlt, rfl⟩

/-! ## What the nodes ask for -/

/-- A chance is taken where there is a risk. -/
theorem risk_beside (self : Harness R) (p : ℚ) : Beside settings self (self.risk p).2 := by
  unfold Harness.risk
  split
  · exact .still rfl rfl
  · exact .refl self

/-- A lossy link draws. -/
theorem lossyDraw_beside (self : Harness R) (src dst : NodeId) : Beside settings self (self.lossyDraw src dst).2 := by
  unfold Harness.lossyDraw
  split
  · exact .still rfl rfl
  · exact .refl self

/-- A message can be sent. -/
theorem send_returns (self : Harness R) (src dst : NodeId) (msg : Message) (k : ℕ) :
    Returns (self.send settings src dst msg k) (Beside settings self) := by
  obtain ⟨hmin, hmax⟩ : Post.Delays settings.profile := Post.delays_profiles settings.faults
  have hdrop : ∀ (s : Harness R) (why : Loss), Beside settings s (s.drop src dst why) := fun _ _ => .still rfl rfl
  unfold Harness.send
  simp only
  have h0 : Beside settings self ({ self with net := { self.net with sent := self.net.sent + 1 } }.record (.send src dst msg)) :=
    .still rfl rfl
  generalize ({ self with net := { self.net with sent := self.net.sent + 1 } }.record (.send src dst msg)) = s0 at h0 ⊢
  split
  · exact Returns.pure (h0.trans (hdrop s0 _))
  have h1 := h0.trans (lossyDraw_beside s0 src dst)
  split
  · exact Returns.pure (h1.trans (hdrop _ _))
  have h2 := h1.trans (risk_beside (s0.lossyDraw src dst).2 settings.profile.dropP)
  split
  · exact Returns.pure (h2.trans (hdrop _ _))
  refine Returns.bind (randint_returns settings _ hmax) ?_
  rintro ⟨delay, s3⟩ ⟨hdelay, h3⟩
  refine Returns.bind (schedule_returns settings s3 (hmin.trans hdelay.1) (.deliver k) trivial) fun s4 h4 => ?_
  have h5 := ((h2.trans h3).trans h4.1).trans (risk_beside s4 settings.profile.dupP)
  split
  · refine Returns.bind (randint_returns settings (s4.risk settings.profile.dupP).2 hmax) ?_
    rintro ⟨dupDelay, s6⟩ ⟨hdelay', h6⟩
    refine (schedule_returns settings _ (hmin.trans hdelay'.1) (.deliver k) trivial).mono fun _ h => (h5.trans h6).trans (.trans ?_ h.1)
    exact .still rfl rfl
  · exact Returns.pure h5

/-- A timer of a workable cluster can be drawn and scheduled. -/
theorem startTimer_returns (hw : settings.Workable) (self : Harness R) {n : NodeId}
    (hc : (self.cluster.world.nodes n).config = settings.config) (kind : TimerKind) (k : ℕ) :
    Returns (self.startTimer n kind k) (Beside settings self) := by
  unfold Harness.startTimer
  simp only [hc]
  cases kind with
  | election =>
    refine Returns.bind (randint_returns settings self hw.timeouts.2) ?_
    rintro ⟨timeout, mid⟩ ⟨hdraw, hb⟩
    exact (schedule_returns settings mid (hw.timeouts.1.trans hdraw.1) (.fire k) trivial).mono fun _ h => hb.trans h.1
  | heartbeat => exact (schedule_returns settings self hw.heartbeats (.fire k) trivial).mono fun _ h => h.1

/-- What the nodes ask for. -/
theorem follow_returns (hw : settings.Workable) (self : Harness R) {c : Cluster}
    (hc : ∀ n, (c.world.nodes n).config = settings.config) :
    Returns (self.follow settings c) fun after => Adds settings self after ∧ after.cluster = c := by
  have hstart : Adds settings self { self with cluster := c } ∧ ({ self with cluster := c } : Harness R).cluster = c :=
    ⟨⟨fun _ hx => Or.inl hx, fun _ hx => hx⟩, rfl⟩
  refine Returns.foldlM (Q := fun mid : Harness R => Adds settings self mid ∧ mid.cluster = c) (fun call _ mid hmid => ?_) hstart
  obtain ⟨hadds, hcl⟩ := hmid
  have hnext : ∀ {x : Except SimError (Harness R)}, Returns x (Beside settings mid) →
      Returns x fun after => Adds settings self after ∧ after.cluster = c := fun hx =>
    hx.mono fun _ h => ⟨hadds.trans h.toAdds, h.cluster.trans hcl⟩
  obtain ⟨⟨n, e⟩, k⟩ := call
  cases e with
  | send dst msg => exact hnext (send_returns mid n dst msg k)
  | schedule kind seq => exact hnext (startTimer_returns hw mid (hcl ▸ hc n) kind k)
  | record event => exact hnext (Returns.pure (.still rfl rfl))
  | _ => exact hnext (Returns.pure (.refl mid))

/-! ## Events -/

/-- An event that raises nothing: what it leads to is fit again, and the nodes have done what can be caused. -/
structure Goes (settings : Settings) (before after : Harness R) : Prop extends Adds settings before after where
  fit : after.cluster.Fit settings.network
  leads : settings.network.Leads before.cluster.world after.cluster.world

/-- What leaves the nodes alone is what no action leads to. -/
theorem Beside.goes (h : Beside settings before after) (hf : before.cluster.Fit settings.network) : Goes settings before after where
  toAdds := h.toAdds
  fit := h.cluster ▸ hf
  leads := h.cluster ▸ .refl _ _

/-- First what leaves the nodes alone. -/
theorem Beside.goes_on (h : Beside settings before mid) (h' : Goes settings mid after) : Goes settings before after where
  toAdds := h.toAdds.trans h'.toAdds
  fit := h'.fit
  leads := h.cluster ▸ h'.leads

/-- Then what leaves the nodes alone. -/
theorem Goes.beside (h : Goes settings before mid) (h' : Beside settings mid after) : Goes settings before after where
  toAdds := h.toAdds.trans h'.toAdds
  fit := h'.cluster ▸ h.fit
  leads := h'.cluster ▸ h.leads

/-- A node that raises nothing. -/
theorem raising_returns {α : Type} {x : Except PyError α} {Q : α → Prop} (h : Returns x Q) : Returns (raising x) Q := by
  obtain ⟨a, rfl, ha⟩ := h
  exact Returns.pure ha

/-- An operation on a node. -/
theorem act_returns (hw : settings.Workable) (hf : self.cluster.Fit settings.network) {action : Action}
    (hadm : settings.network.Admits action) (hin : action.Within settings.ids) :
    Returns (self.act settings action) fun after => (Adds settings self after ∧ after.cluster.Fit settings.network) ∧
      self.cluster.world.step action = .ok after.cluster.world := by
  unfold Harness.act
  refine Returns.bind (raising_returns (hf.act hadm hin)) fun c hc => ?_
  refine (follow_returns hw self hc.1.config).mono fun after ha => ?_
  rw [ha.2]
  exact ⟨⟨ha.1, hc.1⟩, hc.2⟩

/-- An action raises nothing, nor does what the nodes call. -/
theorem act_goes (hw : settings.Workable) (hf : self.cluster.Fit settings.network) {action : Action}
    (hadm : settings.network.Admits action) (hin : action.Within settings.ids) :
    Returns (self.act settings action) (Goes settings self) :=
  (act_returns hw hf hadm hin).mono fun _ h => ⟨h.1.1, h.1.2, .act action, ⟨hadm, hin⟩, h.2⟩

/-- A message can be delivered. -/
theorem delivery_goes (hw : settings.Workable) (hf : self.cluster.Fit settings.network) (k : ℕ) :
    Returns (self.delivery settings k) (Goes settings self) := by
  have hdrop : ∀ src dst why, Goes settings self (self.drop src dst why) := fun src dst why =>
    (Beside.still rfl rfl : Beside settings self (self.drop src dst why)).goes hf
  unfold Harness.delivery
  split
  · rename_i src dst msg _
    split
    · exact Returns.pure (hdrop src dst _)
    split
    · exact Returns.pure (hdrop src dst _)
    split
    · exact Returns.pure (hdrop src dst _)
    · have hcount : Beside settings self
          ({ self with net := { self.net with delivered := self.net.delivered + 1 } }.record (.deliver src dst msg)) := .still rfl rfl
      have hadm : settings.network.Admits (.deliver k) := trivial
      exact (act_goes hw (hcount.goes hf).fit hadm trivial).mono fun _ h => hcount.goes_on h
  · exact Returns.pure ((Beside.refl self).goes hf)

/-- An attempt is recorded. -/
theorem recordAttempt_beside (self : Harness R) (clientId : Int) (target : NodeId) :
    Beside settings self (self.recordAttempt clientId target) := by
  unfold Harness.recordAttempt
  simp only
  split
  · exact .still rfl rfl
  · exact .still rfl rfl

/-- A client's tick raises nothing and is followed by the next one. -/
theorem clientTick_goes (hw : settings.Workable) (hf : self.cluster.Fit settings.network) :
    Returns (self.clientTick settings) fun after => Goes settings self after ∧ ∃ t, (t, .clientTick) ∈ after.pending := by
  have hids : settings.ids ≠ [] := List.ne_nil_of_length_pos (by rw [length_ids]; exact settings.someNode)
  unfold Harness.clientTick
  simp only
  refine Returns.bind (choice_returns settings self hids) ?_
  rintro ⟨target, sim⟩ ⟨htarget, hdraw⟩
  refine Returns.bind (raising_returns (hf.clientTick htarget)) fun c hc => ?_
  have hattempt := hdraw.trans (recordAttempt_beside { self with sim } (self.cluster.clientTurn % WORKLOAD_CLIENTS : ℕ) target)
  refine Returns.bind (follow_returns hw _ hc.1.config) fun s hs => ?_
  have hgoes : Goes settings self s := ⟨hattempt.toAdds.trans hs.1, hs.2 ▸ hc.1, hs.2 ▸ hc.2⟩
  have hsched : ∀ delay, 0 ≤ delay → Returns (s.schedule delay .clientTick) fun after =>
      Goes settings self after ∧ ∃ t, (t, .clientTick) ∈ after.pending := fun delay hd =>
    (schedule_returns settings s hd .clientTick trivial).mono fun _ h => ⟨hgoes.beside h.1, h.2⟩
  have hticks := hw.ticks
  split
  · rename_i interval hinterval
    rw [hinterval] at hticks
    split
    · exact hsched _ (by decide)
    · exact hsched _ hticks
  · exact hsched _ (by decide)

/-! ## The drivers -/

/-- A partition that covers the nodes is accepted. -/
theorem setPartition_returns (self : Harness R) {groups : List (Finset NodeId)}
    (h : groups.foldl (· ∪ ·) ∅ = settings.ids.toFinset) : Returns (self.setPartition settings groups) (Beside settings self) := by
  unfold Harness.setPartition SimNetwork.setPartition
  rw [if_neg (not_not.2 h)]
  exact Returns.pure (.still rfl rfl)

/-- Two groups that split the nodes in two name each of them. -/
theorem cover_two {ids : List NodeId} {low high : Finset NodeId} (h : ∀ n, n ∈ low ∨ n ∈ high ↔ n ∈ ids) :
    [low, high].foldl (· ∪ ·) ∅ = ids.toFinset := by
  ext n
  simp [h n]

/-- The two halves cover the nodes. -/
theorem cover_halves (settings : Settings) :
    [settings.halves.1, settings.halves.2].foldl (· ∪ ·) ∅ = settings.ids.toFinset := by
  refine cover_two fun n => ?_
  unfold Settings.halves
  simp only [List.mem_toFinset]
  rw [← List.mem_append, List.take_append_drop]

/-- A node and the others cover the nodes. -/
theorem cover_others (settings : Settings) {victim : NodeId} (h : victim ∈ settings.ids) :
    [{victim}, settings.others victim].foldl (· ∪ ·) ∅ = settings.ids.toFinset := by
  refine cover_two fun n => ?_
  unfold Settings.others
  simp only [Finset.mem_singleton, List.mem_toFinset, List.mem_filter, decide_eq_true_eq]
  by_cases hn : n = victim
  · subst hn
    simp [h]
  · simp [hn]

/-- What an injection does once it has its ordinal, if it is not suppressed. -/
theorem fires_returns (self : Harness R) {Q : Harness R → Prop} {x : Except SimError (Harness R)}
    (hstay : Q (self.fireFault settings).2) (hx : Returns x Q) :
    Returns (if (self.fireFault settings).1 then x else .ok (self.fireFault settings).2) Q := by
  split
  · exact hx
  · exact Returns.pure hstay

/-- A fault gets its ordinal. -/
theorem fireFault_beside (self : Harness R) : Beside settings self (self.fireFault settings).2 := .still rfl rfl

/-- The draws of the sides of a partition: each node is on one of two. -/
theorem sides_returns (settings : Settings) (self : Harness R) (ids : List NodeId) :
    Returns (ids.foldlM (fun (sides, self) i => do
      let (side, self) ← randint self 0 1
      return (sides ++ [(i, side)], self)) (([], self) : List (NodeId × Int) × Harness R)) fun draws =>
      Beside settings self draws.2 ∧ (∀ x ∈ draws.1, x.1 ∈ ids ∧ (x.2 = 0 ∨ x.2 = 1)) ∧ ∀ i ∈ ids, ∃ x ∈ draws.1, x.1 = i := by
  refine (Returns.foldlM_each (Q := fun draws : List (NodeId × Int) × Harness R => Beside settings self draws.2 ∧
      ∀ x ∈ draws.1, x.1 ∈ ids ∧ (x.2 = 0 ∨ x.2 = 1)) (P := fun i draws => ∃ x ∈ draws.1, x.1 = i) ?_ ⟨.refl self, fun x hx => ?_⟩).mono
    fun draws hd => ⟨hd.1.1, hd.1.2, hd.2.1⟩
  · rintro i hi ⟨sides, mid⟩ ⟨hmid, hsides⟩
    refine Returns.bind (randint_returns settings mid (show (0 : Int) ≤ 1 by decide)) ?_
    rintro ⟨side, mid'⟩ ⟨hdraw, hmid'⟩
    refine Returns.pure ⟨⟨hmid.trans hmid', fun x hx => ?_⟩, ⟨(i, side), by simp, rfl⟩, ?_⟩
    · rcases List.mem_append.1 hx with hx | hx
      · exact hsides x hx
      · rw [List.mem_singleton.1 hx]
        refine ⟨hi, ?_⟩
        simp only at hdraw ⊢
        omega
    · rintro j ⟨x, hx, rfl⟩
      exact ⟨x, List.mem_append_left _ hx, rfl⟩
  · cases hx

/-- The random partitions raise nothing. -/
theorem partitionTick_returns (self : Harness R) : Returns (self.partitionTick settings) (Beside settings self) := by
  unfold Harness.partitionTick
  split
  · exact Returns.pure (.refl self)
  split
  · refine Returns.pure ?_
    split
    · exact .still rfl rfl
    · exact .still rfl rfl
  · have hchance : Beside settings self (self.chance (3 / 20)).2 := .still rfl rfl
    simp only
    split
    · refine Returns.bind (sides_returns settings (self.chance (3 / 20)).2 settings.ids) ?_
      rintro ⟨sides, mid⟩ ⟨hmid, hsides, hall⟩
      have hb := hchance.trans hmid
      simp only
      split
      · exact Returns.pure hb
      · refine fires_returns mid (hb.trans (fireFault_beside mid)) ?_
        refine (setPartition_returns _ (cover_two fun n => ?_)).mono fun _ h => (hb.trans (fireFault_beside mid)).trans h
        simp only [List.mem_toFinset, List.mem_map, List.mem_filter, decide_eq_true_eq]
        constructor
        · rintro (⟨x, ⟨hx, -⟩, rfl⟩ | ⟨x, ⟨hx, -⟩, rfl⟩)
          · exact (hsides x hx).1
          · exact (hsides x hx).1
        · intro hn
          obtain ⟨x, hx, rfl⟩ := hall n hn
          rcases (hsides x hx).2 with h0 | h1
          · exact Or.inl ⟨x, ⟨hx, h0⟩, rfl⟩
          · exact Or.inr ⟨x, ⟨hx, h1⟩, rfl⟩
    · exact Returns.pure hchance

/-- A crash, or a restart, of a node of the cluster. -/
theorem lifecycle_goes (hw : settings.Workable) (hf : self.cluster.Fit settings.network) (net : SimNetwork) {action : Action}
    (hadm : settings.network.Admits action) (hin : action.Within settings.ids) (line : Line) : Returns (do
      let mid ← ({ self with net } : Harness R).act settings action
      return mid.record line) (Goes settings self) := by
  have hnet : Beside settings self { self with net } := .still rfl rfl
  refine Returns.bind (act_goes hw (hnet.goes hf).fit hadm hin) fun mid hmid => Returns.pure ?_
  exact (hnet.goes_on hmid).beside (.still rfl rfl)

/-- A crash raises nothing. -/
theorem pause_goes (hw : settings.Workable) (hf : self.cluster.Fit settings.network) {n : NodeId} (hn : n ∈ settings.ids) :
    Returns (self.pause settings n) (Goes settings self) :=
  lifecycle_goes hw hf { self.net with crashed := insert n self.net.crashed } (by exact trivial) (by exact hn) (.crash n)

/-- A restart raises nothing. -/
theorem maybeResume_goes (hw : settings.Workable) (hf : self.cluster.Fit settings.network) {n : NodeId} (hn : n ∈ settings.ids) :
    Returns (self.maybeResume settings n) (Goes settings self) := by
  unfold Harness.maybeResume
  split
  · exact lifecycle_goes hw hf { self.net with crashed := self.net.crashed.erase n } (by exact trivial) (by exact hn) (.resume n)
  · exact Returns.pure ((Beside.refl self).goes hf)

/-- A crash, and the restart scheduled. -/
theorem crash_goes (hw : settings.Workable) (hf : self.cluster.Fit settings.network) {n : NodeId} (hn : n ∈ settings.ids) {delay : Int}
    (hd : 0 ≤ delay) : Returns (do
      let mid ← self.pause settings n
      mid.schedule delay (.maybeResume n)) (Goes settings self) :=
  Returns.bind (pause_goes hw hf hn) fun mid hmid => (schedule_returns settings mid hd (.maybeResume n) hn).mono fun _ h => hmid.beside h.1

/-- The random crashes raise nothing. -/
theorem crashTick_goes (hw : settings.Workable) (hf : self.cluster.Fit settings.network) :
    Returns (self.crashTick settings) (Goes settings self) := by
  unfold Harness.crashTick
  have h : Beside settings self (if settings.profile.crashes then self.chance (1 / 10) else (false, self)).2 := by
    split
    · exact .still rfl rfl
    · exact .refl self
  generalize (if settings.profile.crashes then self.chance (1 / 10) else (false, self)) = draw at h ⊢
  obtain ⟨crashes, s⟩ := draw
  simp only at h ⊢
  have hknown : ∀ n ∈ (if s.net.crashed.card < (settings.numNodes - 1) / 2 then
      settings.ids.filter fun n => (s.cluster.world.nodes n).alive else []), n ∈ settings.ids := by
    intro n hn
    split at hn
    · exact (List.mem_filter.1 hn).1
    · cases hn
  generalize (if s.net.crashed.card < (settings.numNodes - 1) / 2 then
    settings.ids.filter fun n => (s.cluster.world.nodes n).alive else []) = candidates at hknown ⊢
  split
  · split
    · exact Returns.pure (h.goes hf)
    · rename_i hne
      refine Returns.bind (choice_returns settings s hne) ?_
      rintro ⟨victim, sim⟩ ⟨hvictim, hdraw⟩
      refine Returns.bind (randint_returns settings { s with sim } (show (100 : Int) ≤ 400 by decide)) ?_
      rintro ⟨resumeDelay, mid⟩ ⟨hdelay, hdraw'⟩
      have hb := ((h.trans hdraw).trans hdraw').trans (fireFault_beside mid)
      have hdelay : (0 : Int) ≤ resumeDelay := (show (0 : Int) ≤ 100 by decide).trans hdelay.1
      refine fires_returns mid (hb.goes hf) ?_
      exact (crash_goes hw (hb.goes hf).fit (hknown victim hvictim) hdelay).mono fun _ hg => hb.goes_on hg
  · exact Returns.pure (h.goes hf)

/-- A tick of the fault driver raises nothing. -/
theorem faultTick_goes (hw : settings.Workable) (hf : self.cluster.Fit settings.network) :
    Returns (self.faultTick settings) (Goes settings self) := by
  unfold Harness.faultTick
  refine Returns.bind (partitionTick_returns self) fun s hs => ?_
  refine Returns.bind (crashTick_goes hw (hs.goes hf).fit) fun mid hmid => ?_
  exact (schedule_returns settings mid (by decide) .faultTick trivial).mono fun _ h => hs.goes_on (hmid.beside h.1)

/-- A leader's proposal names nodes of the cluster. -/
theorem proposal_within (hf : self.cluster.Fit settings.network) (leader victim : NodeId) :
    (match settings.ids.filter (· ∉ (self.cluster.world.nodes leader).voters) with
      | n :: _ => ((self.cluster.world.nodes leader).voters ++ [n]).insertionSort (· ≤ ·)
      | [] => (self.cluster.world.nodes leader).voters.filter (· ≠ victim)) ⊆ settings.ids := by
  have hvoters : (self.cluster.world.nodes leader).voters ⊆ settings.ids := (hf.sited.world.adopts.nodes leader).current
  intro v hv
  split at hv
  · rename_i n rest hmissing
    rcases List.mem_append.1 ((List.mem_insertionSort _).1 hv) with hv | hv
    · exact hvoters hv
    · have hn : n ∈ settings.ids.filter (· ∉ (self.cluster.world.nodes leader).voters) := by
        rw [hmissing]
        exact List.mem_cons_self
      rw [List.mem_singleton.1 hv]
      exact (List.mem_filter.1 hn).1
  · exact hvoters (List.mem_filter.1 hv).1

/-- A leader is asked for a configuration of the cluster, and the turn goes on or not. -/
theorem propose_returns (hw : settings.Workable) (hm : settings.membership = true) (hf : self.cluster.Fit settings.network)
    {leader : NodeId} (hl : leader ∈ settings.ids) {proposal : List NodeId} (hsub : proposal ⊆ settings.ids) (turn : ℕ) (c : Prop)
    [Decidable c] : Returns (do
      let accepted ← raising (Prod.snd <$> (self.cluster.world.nodes leader).changeConfig proposal)
      let mid ← ({ self with memberTurn := turn } : Harness R).act settings (.changeConfig leader proposal)
      return if accepted = true ∧ c then { mid with memberTurn := mid.memberTurn + 1 } else mid) fun after =>
      (Adds settings self after ∧ after.cluster.Fit settings.network) ∧
        self.cluster.world.step (.changeConfig leader proposal) = .ok after.cluster.world := by
  have hturn : Beside settings self { self with memberTurn := turn } := .still rfl rfl
  have hadm : settings.network.Admits (.changeConfig leader proposal) := ⟨hm, hsub⟩
  have hin : (Action.changeConfig leader proposal).Within settings.ids := ⟨hl, hsub⟩
  refine Returns.bind (Q := fun _ => True) (raising_returns ?_) fun accepted _ =>
    Returns.bind (act_returns hw (hturn.goes hf).fit hadm hin) fun mid hmid => ?_
  · obtain ⟨a, hsim⟩ := hf.follows
    obtain ⟨v, -, hv, -⟩ := hsim.step hadm
    obtain ⟨w, hstep, -⟩ := World.step_of_withStale hv
    obtain ⟨node, hnode, -⟩ := bind_eq_ok.1 hstep
    simp only at hnode
    cases hchange : (self.cluster.world.nodes leader).changeConfig proposal with
    | error e =>
      rw [hchange] at hnode
      cases hnode
    | ok changed => exact Returns.pure trivial
  · have hadds := hturn.toAdds.trans hmid.1.1
    split
    · have hnext : Beside settings mid { mid with memberTurn := mid.memberTurn + 1 } := .still rfl rfl
      exact Returns.pure ⟨⟨hadds.trans hnext.toAdds, hmid.1.2⟩, hmid.2⟩
    · exact Returns.pure ⟨⟨hadds, hmid.1.2⟩, hmid.2⟩

/-- One leader's turn. -/
theorem proposeChange_returns (hw : settings.Workable) (hm : settings.membership = true) (hf : self.cluster.Fit settings.network)
    {leader : NodeId} (hl : leader ∈ settings.ids) : Returns (self.proposeChange settings leader) fun after =>
      (Adds settings self after ∧ after.cluster.Fit settings.network) ∧ ∃ proposal ⊆ settings.ids,
        self.cluster.world.step (.changeConfig leader proposal) = .ok after.cluster.world := by
  unfold Harness.proposeChange
  exact (propose_returns hw hm hf hl (proposal_within hf leader _) _ _).mono fun _ h => ⟨h.1, _, proposal_within hf leader _, h.2⟩

/-- A tick of the membership driver raises nothing. -/
theorem membershipTick_goes (hw : settings.Workable) (hm : settings.membership = true) (hf : self.cluster.Fit settings.network) :
    Returns (self.membershipTick settings) (Goes settings self) := by
  unfold Harness.membershipTick
  refine Returns.bind (Q := Goes settings self) ?_ fun s hs =>
    (schedule_returns settings s (by decide) .membershipTick hm).mono fun _ h => hs.beside h.1
  have hloop := Returns.foldlM (l := self.leaders settings) (f := proposeChange settings) (b := self) (Q := fun mid : Harness R =>
    (Adds settings self mid ∧ mid.cluster.Fit settings.network) ∧ ∃ proposals : List (NodeId × List NodeId),
      (∀ p ∈ proposals, p.1 ∈ settings.ids ∧ p.2 ⊆ settings.ids) ∧
        self.cluster.world.happen (.propose proposals) = .ok mid.cluster.world) ?_ ?_
  · refine hloop.mono ?_
    rintro mid ⟨⟨hadds, hfit⟩, proposals, hin, hleads⟩
    exact ⟨hadds, hfit, .propose proposals, fun p hp => ⟨hm, hin p hp⟩, hleads⟩
  · rintro leader hl mid ⟨⟨hadds, hfit⟩, proposals, hin, hleads⟩
    have hmem : leader ∈ settings.ids := (List.mem_filter.1 hl).1
    refine (proposeChange_returns hw hm hfit hmem).mono ?_
    rintro after ⟨⟨hadds', hfit'⟩, proposal, hsub, hstep⟩
    refine ⟨⟨hadds.trans hadds', hfit'⟩, proposals ++ [(leader, proposal)], fun p hp => ?_, ?_⟩
    · rcases List.mem_append.1 hp with hp | hp
      · exact hin p hp
      · rw [List.mem_singleton.1 hp]
        exact ⟨hmem, hsub⟩
    · have hleads : proposals.foldlM (fun self p => self.step (.changeConfig p.1 p.2)) self.cluster.world = .ok mid.cluster.world := hleads
      show (proposals ++ [(leader, proposal)]).foldlM (fun self p => self.step (.changeConfig p.1 p.2)) self.cluster.world = _
      rw [List.foldlM_append, hleads]
      show [(leader, proposal)].foldlM (fun self p => self.step (.changeConfig p.1 p.2)) mid.cluster.world = _
      rw [List.foldlM_cons, hstep]
      rfl
  · exact ⟨⟨⟨fun _ hx => Or.inl hx, fun _ hx => hx⟩, hf⟩, [], fun _ hp => absurd hp List.not_mem_nil, rfl⟩

/-- A split and its healing raise nothing. -/
theorem split_goes (hf : self.cluster.Fit settings.network) {groups : List (Finset NodeId)}
    (hcover : groups.foldl (· ∪ ·) ∅ = settings.ids.toFinset) {duration : Int} (hd : 0 ≤ duration) :
    Returns (self.split settings groups duration) (Goes settings self) := by
  unfold Harness.split
  have hb : Beside settings self (self.fireFault settings).2 := fireFault_beside self
  refine fires_returns self (hb.goes hf) ?_
  refine Returns.bind (setPartition_returns _ hcover) fun mid hmid => ?_
  exact (schedule_returns settings mid hd .healPartition trivial).mono fun _ h => ((hb.trans hmid).trans h.1).goes hf

/-- Who is believed to lead is a node. -/
theorem leader_mem {n : NodeId} (h : self.leader settings = some n) : n ∈ settings.ids := by
  have hbest : ∀ (ns : List NodeId) (best : Option NodeId), (∀ m, best = some m → m ∈ settings.ids) → (∀ m ∈ ns, m ∈ settings.ids) →
      ∀ m, ns.foldl (fun best n => if best.any fun m => (self.cluster.world.nodes n).term ≤ (self.cluster.world.nodes m).term
        then best else some n) best = some m → m ∈ settings.ids := by
    intro ns
    induction ns with
    | nil => exact fun best hbest _ m hm => hbest m hm
    | cons n ns ih =>
      intro best hbest hns m hm
      refine ih _ ?_ (fun m hm => hns m (List.mem_cons_of_mem _ hm)) m hm
      intro m hm
      simp only at hm
      split at hm
      · exact hbest m hm
      · cases hm
        exact hns _ List.mem_cons_self
  exact hbest _ none (fun _ hm => by cases hm) (fun m hm => (List.mem_filter.1 hm).1) n h

/-- A pattern of the schedule strikes without raising anything. -/
theorem nemesisFire_goes (hw : settings.Workable) (hf : self.cluster.Fit settings.network) {op : NemesisOp} (hop : op.Valid)
    (hids : ∀ n start duration, op = .crashNode n start duration → n ∈ settings.ids) :
    Returns (self.nemesisFire settings op) (Goes settings self) := by
  have hb : Beside settings self (self.fireFault settings).2 := fireFault_beside self
  have hskip : ∀ detail, Goes settings self (self.record (.nemesis detail)) := fun detail =>
    (Beside.still rfl rfl : Beside settings self (self.record (.nemesis detail))).goes hf
  unfold Harness.nemesisFire
  cases op with
  | partitionHalves start duration =>
    simp only
    split
    · exact Returns.pure (hskip _)
    · exact split_goes hf (cover_halves settings) (zero_le_one.trans hop.2)
  | isolateLeader start duration =>
    simp only
    split
    · exact Returns.pure (hskip _)
    · rename_i victim hvictim
      split
      · exact Returns.pure (hskip _)
      · exact split_goes hf (cover_others settings (leader_mem hvictim)) (zero_le_one.trans hop.2)
  | flappingLink a b start period cycles =>
    refine fires_returns self (hb.goes hf) ?_
    have hdown : Beside settings (self.fireFault settings).2 ((self.fireFault settings).2.linkDown a b) := by
      unfold Harness.linkDown
      split
      · exact .refl _
      · exact .still rfl rfl
    refine (schedule_returns settings _ (zero_le_one.trans hop.2.2.1) (.linkUp a b) trivial).mono fun _ h => ?_
    exact ((hb.trans hdown).trans h.1).goes hf
  | lossyLink a b start duration dropP =>
    refine fires_returns self (hb.goes hf) ?_
    have hlossy : Beside settings (self.fireFault settings).2 ((self.fireFault settings).2.setLossyLink a b dropP) := .still rfl rfl
    refine (schedule_returns settings _ (zero_le_one.trans hop.2.1.2) (.clearLossyLink a b) trivial).mono fun _ h => ?_
    exact ((hb.trans hlossy).trans h.1).goes hf
  | crashNode n start duration =>
    simp only
    split
    · exact Returns.pure (hskip _)
    · refine fires_returns self (hb.goes hf) ?_
      exact (crash_goes hw (hb.goes hf).fit (hids n start duration rfl) (zero_le_one.trans hop.2.2)).mono fun _ h => hb.goes_on h

/-! ## Steps and runs -/

/-- An event raises nothing. -/
theorem call_goes (hw : settings.Workable) (hf : self.cluster.Fit settings.network) {fn : Callback} (hfn : fn.Sensible settings) :
    Returns (self.call settings fn) (Goes settings self) := by
  have hstill : ∀ {after : Harness R}, after.sim.clock = self.sim.clock → after.cluster = self.cluster →
      Returns (.ok after : Except SimError (Harness R)) (Goes settings self) := fun hc hcl =>
    Returns.pure ((Beside.still hc hcl : Beside settings self _).goes hf)
  cases fn with
  | deliver k => exact delivery_goes hw hf k
  | fire k =>
    have hadm : settings.network.Admits (.fire k) := trivial
    exact act_goes hw hf hadm trivial
  | clientTick => exact (clientTick_goes hw hf).mono fun _ h => h.1
  | faultTick => exact faultTick_goes hw hf
  | membershipTick => exact membershipTick_goes hw hfn hf
  | nemesisFire injection => exact nemesisFire_goes hw hf hfn.1 hfn.2
  | healPartition => exact hstill rfl rfl
  | linkUp a b =>
    show Returns (.ok (self.linkUp a b)) _
    unfold Harness.linkUp
    split
    · exact hstill rfl rfl
    · exact hstill rfl rfl
  | clearLossyLink a b =>
    show Returns (.ok (self.clearLossyLink a b)) _
    unfold Harness.clearLossyLink
    split
    · exact hstill rfl rfl
    · exact hstill rfl rfl
  | maybeResume n => exact maybeResume_goes hw hf hfn

/-- What a moment of a run is like: the cluster is fit, what is due is sensible, and a client's tick is, if there are any. -/
structure Safe (settings : Settings) (moment : Harness R) : Prop where
  fit : moment.cluster.Fit settings.network
  sensible : ∀ x ∈ moment.pending, x.2.Sensible settings
  ticks : settings.clientInterval.getD 0 ≠ 0 → ∃ t, (t, .clientTick) ∈ moment.pending

/-- What is safe stays so. -/
theorem Safe.goes (h : self.Safe settings) (hg : Goes settings self after) : after.Safe settings where
  fit := hg.fit
  sensible x hx := (hg.sensible x hx).elim (h.sensible x) id
  ticks hne := by
    obtain ⟨t, ht⟩ := h.ticks hne
    exact ⟨t, hg.kept _ ht⟩

/-- A step raises nothing. It finds no event only if there are no clients. -/
theorem step_returns (hw : settings.Workable) (h : self.Safe settings) : Returns (self.step settings) fun done =>
    (done.2.Safe settings ∧ settings.network.Leads self.cluster.world done.2.cluster.world) ∧
      (done.1 = false → settings.clientInterval.getD 0 = 0 ∧ done.2 = self) := by
  unfold Harness.step
  cases hp : self.sim.clock.pop with
  | none =>
    refine Returns.pure ⟨⟨h, .refl _ _⟩, fun _ => ⟨?_, rfl⟩⟩
    by_contra hne
    obtain ⟨t, ht⟩ := h.ticks hne
    have hnone : self.pending = [] := Clock.pending_of_pop_none hp
    rw [hnone] at ht
    cases ht
  | some next =>
    obtain ⟨⟨due, fn⟩, clock⟩ := next
    have hpending : self.pending = (clock.now, fn) :: clock.pending := Clock.pending_of_pop hp
    have hfit : self.cluster.tick.Fit settings.network := ⟨h.fit.follows, h.fit.config, ⟨h.fit.sited.world, h.fit.sited.asked⟩⟩
    have hfn : fn.Sensible settings := h.sensible (clock.now, fn) (hpending ▸ List.mem_cons_self)
    have hrest : ∀ x ∈ clock.pending, x ∈ self.pending := fun x hx => hpending ▸ List.mem_cons_of_mem _ hx
    refine Returns.bind (Q := fun after : Harness R => after.Safe settings ∧
      settings.network.Leads self.cluster.world after.cluster.world) ?_ fun after ha => Returns.pure ⟨ha, fun hf => by cases hf⟩
    have hgoes : ∀ {after : Harness R}, Goes settings { self with sim := { self.sim with clock }, cluster := self.cluster.tick } after →
        ∀ x ∈ after.pending, x.2.Sensible settings := fun hg x hx => (hg.sensible x hx).elim (fun hx => h.sensible x (hrest x hx)) id
    by_cases htick : fn = .clientTick
    · subst htick
      refine (clientTick_goes hw hfit).mono fun after ha => ⟨⟨ha.1.fit, hgoes ha.1, fun _ => ha.2⟩, ha.1.leads⟩
    · refine (call_goes hw hfit hfn).mono fun after hg => ⟨⟨hg.fit, hgoes hg, fun hne => ?_⟩, hg.leads⟩
      obtain ⟨t, ht⟩ := h.ticks hne
      rw [hpending] at ht
      rcases List.mem_cons.1 ht with heq | ht
      · exact absurd (congrArg Prod.snd heq).symm htick
      · exact ⟨t, hg.kept _ ht⟩

/-- The injections of a schedule are sensible, and not in the past. -/
theorem sensible_injection (settings : Settings) {injection : Injection} (h : injection ∈ settings.injections) :
    0 ≤ injection.at_ ∧ (Callback.nemesisFire injection).Sensible settings := by
  have hknown : ∀ n start duration, injection.op = .crashNode n start duration → n ∈ settings.ids := fun _ _ _ hop =>
    settings.crashNode_mem h hop
  unfold Settings.injections at h
  split at h
  · rename_i schedule _
    have hvalid := schedule.valid _ (schedule.op_mem h)
    refine ⟨?_, hvalid, hknown⟩
    obtain ⟨op, hop, hin⟩ := List.mem_flatMap.1 ((List.mem_insertionSort _).1 h)
    have hop := schedule.valid op hop
    cases op with
    | flappingLink a b start period cycles =>
      obtain ⟨i, hi, rfl⟩ := List.mem_map.1 hin
      obtain ⟨-, hstart, hperiod, -⟩ := hop
      have hi := (mem_pyRange.1 hi).1
      exact add_nonneg hstart (Int.mul_nonneg (by omega) hi)
    | lossyLink =>
      rw [List.mem_singleton.1 hin]
      exact hop.2.1.1
    | crashNode =>
      rw [List.mem_singleton.1 hin]
      exact hop.2.1
    | partitionHalves | isolateLeader =>
      rw [List.mem_singleton.1 hin]
      exact hop.1
  · cases h

/-- A start raises nothing. -/
theorem init_returns (hw : settings.Workable) (seed : R.State) : Returns (init settings seed) fun self =>
    self.Safe settings ∧ self.cluster.world.withStale false = settings.network.init := by
  have hworld : settings.world.withStale false = settings.network.init := by
    unfold Settings.world World.launch Network.init Network.newNode
    rw [hw.bugs]
    simp only [Settings.network, hw.voters.dedup]
    rfl
  have hfit : ({ world := settings.world } : Cluster).Fit settings.network := by
    refine ⟨⟨_, hworld ▸ simulates_init settings.network⟩, fun _ => rfl, ⟨World.sited_launch settings.voters_subset, fun _ _ hl => ?_⟩⟩
    rw [Finmap.lookup_empty] at hl
    cases hl
  have hempty : ∀ x ∈ ({ cluster := { world := { settings.world with trace := [] } }, sim := .new seed } : Harness R).pending,
      x.2.Sensible settings := fun x hx => by cases hx
  have hdriver : ∀ (s : Harness R) (runs : Bool) (delay : Int) (fn : Callback), (runs = true → 0 ≤ delay ∧ fn.Sensible settings) →
      Returns (s.startDriver runs delay fn) fun after => Beside settings s after ∧ (runs = true → ∃ t, (t, fn) ∈ after.pending) := by
    intro s runs delay fn hr
    unfold startDriver
    split
    · rename_i hruns
      exact (schedule_returns settings s (hr hruns).1 fn (hr hruns).2).mono fun _ h => ⟨h.1, fun _ => h.2⟩
    · rename_i hruns
      exact Returns.pure ⟨.refl s, fun hr => absurd hr hruns⟩
  unfold init
  refine Returns.bind (follow_returns hw _ hfit.config) fun s1 h1 => ?_
  refine Returns.bind (hdriver s1 _ _ .clientTick fun _ => ⟨hw.ticks, trivial⟩) fun s2 h2 => ?_
  refine Returns.bind (hdriver s2 _ _ .faultTick fun _ => ⟨by decide, trivial⟩) fun s3 h3 => ?_
  refine Returns.bind (hdriver s3 _ _ .membershipTick fun hm => ⟨by decide, hm⟩) fun s4 h4 => ?_
  refine (Returns.foldlM (Q := Beside settings s4) (fun injection hi s hs => ?_) (.refl s4)).mono fun after h5 => ?_
  · obtain ⟨hat, hsensible⟩ := sensible_injection settings hi
    exact (schedule_returns settings s hat (.nemesisFire injection) hsensible).mono fun _ h => hs.trans h.1
  · have hafter := ((h2.1.trans h3.1).trans h4.1).trans h5
    have hcluster : after.cluster = { world := settings.world } := hafter.cluster.trans h1.2
    have hadds := h1.1.trans hafter.toAdds
    refine ⟨⟨hcluster ▸ hfit, fun x hx => (hadds.sensible x hx).elim (hempty x) id, fun hne => ?_⟩, by rw [hcluster]; exact hworld⟩
    obtain ⟨t, ht⟩ := h2.2 (decide_eq_true hne)
    exact ⟨t, ((h3.1.trans h4.1).trans h5).kept _ ht⟩

end Harness

end DeterministicRaft
