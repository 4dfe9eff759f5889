import DeterministicRaft.Commands
import DeterministicRaft.Supervised
import DeterministicRaft.Theorems.FalseAlarms
import DeterministicRaft.Theorems.NemesisWindows
import DeterministicRaft.Theorems.StepBudget

/-!
# Simulated runs raise nothing and violate nothing

Whatever the source of random numbers, the fault profile, the schedule and the mask are, the events of a simulated run are events that
clients, operators, the network and the fault drivers can cause. So a cluster without defects goes on for as many steps as it is asked
for, and passes every check. The same goes for one whose leaders answer reads from their own stores: no check of the checker finds that.
-/

namespace DeterministicRaft

open Consensus Refinement

variable {net : Network} {a : State NodeId Entry} {C : Int}

namespace Watched

variable {w w' : Watched}

/-- The checker only looks: the nodes go on as they do without it. -/
theorem act_world {action : Action} : Ensures (w.act net action) fun w' => w.world.step action = .ok w'.world := by
  unfold Watched.act
  split
  · exact fun _ h => by cases h
  · refine Ensures.bind (Q := fun world => w.world.step action = .ok world) (fun world hw => ?_) fun world hw =>
      Ensures.bind (Ensures.trivial _) fun c _ => Ensures.pure hw
    cases hstep : w.world.step action with
    | error e =>
      rw [hstep] at hw
      cases hw
    | ok world' =>
      rw [hstep] at hw
      cases hw
      rfl

theorem happen_world (w : Watched) (event : WatchedEvent) :
    Ensures (w.happen net event) fun w' => w.world.happen event = .ok w'.world := by
  cases event with
  | idle => exact Ensures.pure rfl
  | act action => exact act_world
  | propose proposals =>
    show Ensures (proposals.foldlM (fun self p => self.act net (.changeConfig p.1 p.2)) w) _
    induction proposals generalizing w with
    | nil => exact Ensures.pure rfl
    | cons p proposals ih =>
      rw [List.foldlM_cons]
      refine Ensures.bind act_world fun mid hmid => (ih mid).mono fun after ha => ?_
      show (p :: proposals).foldlM (fun self p => self.step (.changeConfig p.1 p.2)) w.world = _
      rw [List.foldlM_cons, hmid]
      exact ha

theorem steps_world (w : Watched) (events : List WatchedEvent) :
    Ensures (events.foldlM (Watched.step net) w) fun w' => events.foldlM World.happen w.world = .ok w'.world := by
  induction events generalizing w with
  | nil => exact Ensures.pure rfl
  | cons event events ih =>
    rw [List.foldlM_cons]
    refine Ensures.bind (Q := fun mid => w.world.happen event = .ok mid.world) ?_ fun mid hmid => (ih mid).mono fun after ha => ?_
    · unfold Watched.step
      exact Ensures.bind (happen_world _ event) fun mid hmid => Ensures.bind (Ensures.trivial _) fun c _ => Ensures.pure hmid
    · rw [List.foldlM_cons, hmid]
      exact ha

/-- An event that can be caused, as far as the nodes go. -/
theorem Sound.leads (h : w.Sound net a C) (hC : C ≤ w.checker.maxCommit) {world : World} (hl : net.Leads w.world world) :
    ∃ a' D, Sound net a' D { w with world } := by
  obtain ⟨event, he, hevent⟩ := hl
  cases event with
  | idle =>
    cases hevent
    exact ⟨a, C, h⟩
  | act action =>
    obtain ⟨world', a', hstep, -, hcases⟩ := h.step_put hC he.1 he.2
    cases hstep.symm.trans hevent
    rcases hcases with ⟨rfl, hsame⟩ | ⟨n, op, node, -, -, -, -, rfl, hput, -⟩
    · exact ⟨a', C, hsame⟩
    · exact ⟨a', _, hput⟩
  | propose proposals =>
    have key : ∀ (proposals : List (NodeId × List NodeId)) (w : Watched) (a : State NodeId Entry) (C : Int), w.Sound net a C →
        C ≤ w.checker.maxCommit → (WatchedEvent.propose proposals).Admitted net →
        w.world.happen (.propose proposals) = .ok world → ∃ a' D, Sound net a' D { w with world } := by
      intro proposals
      induction proposals with
      | nil =>
        intro w a C h hC he hevent
        cases hevent
        exact ⟨a, C, h⟩
      | cons p proposals ih =>
        intro w a C h hC he hevent
        obtain ⟨hr, hn, hv⟩ := he p List.mem_cons_self
        have hadm : net.Admits (.changeConfig p.1 p.2) := ⟨hr, hv⟩
        have hact : (Action.changeConfig p.1 p.2).Within net.ids := ⟨hn, hv⟩
        obtain ⟨world', a', hstep, -, hcases⟩ := h.step_put hC hadm hact
        have hrest : { w with world := world' }.world.happen (.propose proposals) = .ok world := by
          have hevent : (p :: proposals).foldlM (fun self p => self.step (.changeConfig p.1 p.2)) w.world = .ok world := hevent
          rw [List.foldlM_cons, hstep] at hevent
          exact hevent
        have hadm' : (WatchedEvent.propose proposals).Admitted net := fun q hq => he q (List.mem_cons_of_mem _ hq)
        rcases hcases with ⟨rfl, hsame⟩ | ⟨n, op, node, -, -, -, -, rfl, hput, hcommit⟩
        · exact ih _ a' C hsame hC hadm' hrest
        · exact ih { w with world := w.world.put n node } a' _ hput (hcommit.resolve_left fun hne => hne p.1 p.2 rfl) hadm' hrest
    exact key proposals w a C h hC he hevent

end Watched

namespace Harness

variable {R : RandomSource} {settings : Settings}

/-- A run of some steps raises nothing. The nodes do what can be caused, step by step; only without clients there may be no event left. -/
theorem run_returns (hw : settings.Workable) (seed : R.State) (steps : ℕ) : Returns (run settings seed steps) fun self =>
    self.Safe settings ∧ ∃ events : List WatchedEvent, (∀ event ∈ events, event.Admitted settings.network) ∧
      events.foldlM World.happen settings.network.init = .ok (self.cluster.world.withStale false) ∧ events.length ≤ steps ∧
      (settings.clientInterval.getD 0 ≠ 0 → events.length = steps) := by
  induction steps with
  | zero =>
    refine (init_returns hw seed).mono fun self h => ⟨h.1, [], fun _ he => absurd he List.not_mem_nil, ?_, le_rfl, fun _ => rfl⟩
    rw [h.2]
    rfl
  | succ steps ih =>
    refine Returns.bind ih ?_
    rintro self ⟨hsafe, events, hadm, hrun, hle, heq⟩
    refine Returns.bind (step_returns hw hsafe) ?_
    rintro ⟨more, after⟩ ⟨⟨hafter, event, he, hevent⟩, hidle⟩
    refine Returns.pure ⟨hafter, ?_⟩
    cases more with
    | false =>
      obtain ⟨hnone, rfl⟩ := hidle rfl
      exact ⟨events, hadm, hrun, Nat.le_succ_of_le hle, fun hne => absurd hnone hne⟩
    | true =>
      refine ⟨events ++ [event], fun e hm => ?_, ?_, ?_, fun hne => ?_⟩
      · rcases List.mem_append.1 hm with hm | hm
        · exact hadm e hm
        · rw [List.mem_singleton.1 hm]
          exact he
      · rw [List.foldlM_append, hrun]
        show [event].foldlM World.happen (self.cluster.world.withStale false) = _
        rw [List.foldlM_cons, World.happen_withStale false hevent]
        rfl
      · rw [List.length_append, List.length_singleton]
        omega
      · rw [List.length_append, List.length_singleton, heq hne]

end Harness

/-- In a cluster without defects, or with stale reads as its only one, every simulated run raises nothing and violates nothing: whatever
the source of random numbers, its seed, the fault profile, the schedule, the mask and the configuration, the nodes come to what some
events that can be caused lead to, one for each step, and under the checker these events pass every check, after each of them and before
each compaction. Only without clients a run may end early. -/
theorem simulated_runs_pass (settings : Settings) (hw : settings.Workable) (R : RandomSource) (seed : R.State) (steps : ℕ)
    (checkerSeed : Int) (replayHint : String) : ∃ (after : Harness R) (events : List WatchedEvent) (w : Watched),
      Harness.run settings seed steps = .ok after ∧ (∀ event ∈ events, event.Admitted settings.network) ∧
      events.foldlM (Watched.step settings.network) (Watched.init settings.network checkerSeed replayHint) = .ok w ∧
      w.world = after.cluster.world.withStale false ∧ w.checker.checksRun = events.length ∧ events.length ≤ steps ∧
      (settings.clientInterval.getD 0 ≠ 0 → events.length = steps) := by
  obtain ⟨after, hafter, -, events, hadm, hrun, hle, heq⟩ := Harness.run_returns hw seed steps
  obtain ⟨w, hsteps, -, hcount⟩ := (Watched.sound_init settings.network checkerSeed replayHint).steps hadm
  refine ⟨after, events, w, hafter, hadm, hsteps, ?_, hcount.trans (Nat.zero_add _), hle, heq⟩
  exact Except.ok.inj ((Watched.steps_world _ events w hsteps).symm.trans hrun)

/-- Three nodes that compact their logs and answer reads from their own stores, under chaos and a schedule, in membership mode. -/
def compactingChaos : Settings :=
  { threeNodes [.crashNode 0 200 100, .isolateLeader 500 200] (by decide) (by decide) with
    faults := .chaos
    config := { snapshotThreshold := 2 }
    bugs := { staleLocalReads := true }
    clientInterval := some CLIENT_INTERVAL
    membership := true
    spareNode := fun _ => le_rfl }

theorem simulated_runs_pass_compacting : ∃ (after : Harness congruential) (events : List WatchedEvent) (w : Watched),
    Harness.run compactingChaos (631 : Int) 500 = .ok after ∧ (∀ event ∈ events, event.Admitted compactingChaos.network) ∧
      events.foldlM (Watched.step compactingChaos.network) (Watched.init compactingChaos.network 631 "") = .ok w ∧
      w.world = after.cluster.world.withStale false ∧ w.checker.checksRun = events.length ∧ events.length ≤ 500 ∧
      (compactingChaos.clientInterval.getD 0 ≠ 0 → events.length = 500) :=
  simulated_runs_pass compactingChaos ⟨rfl, by decide, by decide, by decide, by decide⟩ congruential (631 : Int) 500 631 ""

/-! ## Runs of a command line or a scenario -/

/-- Settings that arguments without defects give, or with the one that nodes do not show. -/
theorem ClusterArgs.workable {self : ClusterArgs} (hb : self.bugs.Unseen) {settings : Settings} (h : self.settings = .ok settings) :
    settings.Workable ∧ settings.clientInterval.getD 0 ≠ 0 := by
  unfold ClusterArgs.settings at h
  split at h
  · cases h
  split at h
  · cases h
  split at h
  · cases h
  split at h
  · cases h
  cases h
  have hnodup : ∀ hi : Int, (pyRange 0 hi).Nodup := fun hi => (pyRange_pairwise 0 hi).imp fun hlt => ne_of_lt hlt
  have hconfig : (0 ≤ ({} : RaftConfig).electionTimeoutMin ∧ ({} : RaftConfig).electionTimeoutMin ≤ ({} : RaftConfig).electionTimeoutMax) ∧
      0 ≤ ({} : RaftConfig).heartbeatInterval := by decide
  have hclient : 0 ≤ (some CLIENT_INTERVAL).getD 0 ∧ (some CLIENT_INTERVAL).getD 0 ≠ 0 := by decide
  refine ⟨⟨hb, ?_, hconfig.1, hconfig.2, hclient.1⟩, hclient.2⟩
  unfold Settings.voters
  simp only [Option.getD_none]
  split
  · exact hnodup _
  · exact hnodup _

/-- What a cluster raises of its arguments is a `ValueError`. -/
theorem ClusterArgs.refuses (self : ClusterArgs) : Raises self.settings fun e => ∃ message, e = .valueError message := by
  unfold ClusterArgs.settings
  split
  · exact Raises.error ⟨_, rfl⟩
  split
  · exact Raises.error ⟨_, rfl⟩
  split
  · exact Raises.error ⟨_, rfl⟩
  split
  · exact Raises.error ⟨_, rfl⟩
  · exact Raises.ok _

namespace Supervised

variable {R : RandomSource} {settings : Settings} {self : Supervised R}

/-- What a moment of a run under the checker is like. -/
structure Clean (settings : Settings) (moment : Supervised R) : Prop where
  safe : moment.harness.Safe settings
  sound : ∃ a, Watched.Sound settings.network a moment.checker.maxCommit
    { world := moment.harness.cluster.world.withStale false, checker := moment.checker }

/-- A step finds an event, and passes the check after it. -/
theorem Clean.step (hw : settings.Workable) (ht : settings.clientInterval.getD 0 ≠ 0) (h : self.Clean settings) :
    ∃ after, self.step settings = .next after ∧ after.Clean settings ∧ after.checker.checksRun = self.checker.checksRun + 1 := by
  obtain ⟨⟨more, harness⟩, hstep, ⟨hsafe, hleads⟩, hidle⟩ := Harness.step_returns hw h.safe
  obtain ⟨a, hsound⟩ := h.sound
  obtain ⟨a', D, hs⟩ := hsound.leads le_rfl (hleads.withStale false)
  obtain ⟨checker, hcheck, hs', hcount⟩ := hs.check harness.cluster.steps
  have hmore : more = true := by
    by_contra hm
    exact ht (hidle (Bool.eq_false_of_not_eq_true hm)).1
  subst hmore
  refine ⟨{ harness, checker }, ?_, ⟨hsafe, a', hs'⟩, hcount⟩
  have hlook : self.checker.check (Watched.view settings.network harness.cluster.world) harness.cluster.steps true = .ok checker := hcheck
  unfold Supervised.step
  rw [hstep]
  simp only [hlook]

end Supervised

section Runs

variable {json : JsonText} {R : RandomSource} {random : Int → R.State} {a : ClusterArgs} {settings : Settings}

/-- Some steps of a run. -/
theorem runFor_clean (hs : a.settings = .ok settings) (hw : settings.Workable) (ht : settings.clientInterval.getD 0 ≠ 0) (n : ℕ) :
    ∀ self : Supervised R, self.Clean settings → ∃ r, (supervisedSystem json R random).runFor a n self = .ok r ∧ r.violation = none ∧
      r.steps = n ∧ r.state.checker.checksRun = self.checker.checksRun + n := by
  induction n with
  | zero => exact fun self _ => ⟨_, rfl, rfl, rfl, rfl⟩
  | succ n ih =>
    intro self h
    obtain ⟨after, hstep, hafter, hcount⟩ := h.step hw ht
    obtain ⟨r, hr, hnone, hsteps, hcount'⟩ := ih after hafter
    have hnext : (supervisedSystem json R random).step a self = .next after := by
      simp only [supervisedSystem, hs]
      exact hstep
    refine ⟨{ r with steps := r.steps + 1 }, ClusterSystem.runFor_next hnext hr, hnone, ?_, ?_⟩
    · simp only [hsteps]
    · simp only
      omega

/-- The run of arguments without defects. -/
theorem run_clean (json : JsonText) (R : RandomSource) (random : Int → R.State) (hb : a.bugs.Unseen) (hs : a.settings = .ok settings) (steps : Int) :
    ∃ r, (supervisedSystem json R random).run a steps = .ok r ∧ r.violation = none ∧ r.steps = steps.toNat ∧
      r.state.checker.checksRun = steps.toNat := by
  obtain ⟨hw, ht⟩ := ClusterArgs.workable hb hs
  obtain ⟨harness, hinit, hsafe, hworld⟩ := Harness.init_returns hw (random a.seed)
  have hclean : Supervised.Clean settings ({ harness, checker := { seed := a.seed, replayHint := a.replayHint json } } : Supervised R) := by
    refine ⟨hsafe, State.init, ?_⟩
    have hsound := Watched.sound_init settings.network a.seed (a.replayHint json)
    unfold Watched.init at hsound
    rw [← hworld] at hsound
    exact hsound
  obtain ⟨r, hr, hnone, hsteps, hcount⟩ := runFor_clean hs hw ht steps.toNat _ hclean
  refine ⟨r, ClusterSystem.run_eq_ok.2 ⟨_, ?_, hr⟩, hnone, hsteps, hcount.trans (Nat.zero_add _)⟩
  simp only [supervisedSystem, hs, bind, Except.bind, hinit]
  rfl

/-- The run of arguments that are refused. -/
theorem run_refused (json : JsonText) (R : RandomSource) (random : Int → R.State) {e : SimError} (hs : a.settings = .error e) (steps : Int) :
    (supervisedSystem json R random).run a steps = .error e := by
  have hmake : (supervisedSystem json R random).make a = .error e := by
    simp only [supervisedSystem, hs]
    rfl
  unfold ClusterSystem.run
  rw [hmake]
  rfl

end Runs

/-- A cluster without defects runs clean, and so does one with stale reads as its only defect. Its arguments may be refused, with a
`ValueError`. If they are not, then whatever the source of random numbers, the seed, the fault profile, the schedule, the mask, and with
or without membership changes, the run takes as many steps as it is given, raises nothing, finds no violation, and checks all invariants
after each step. -/
theorem correct_clusters_run_clean (json : JsonText) (R : RandomSource) (random : Int → R.State) (a : ClusterArgs)
    (hb : a.bugs.Unseen) (steps : Int) :
    (∃ message, a.settings = .error (.valueError message) ∧
      (supervisedSystem json R random).run a steps = .error (.valueError message)) ∨
    ∃ settings r, a.settings = .ok settings ∧ (supervisedSystem json R random).run a steps = .ok r ∧ r.violation = none ∧
      r.steps = steps.toNat ∧ r.state.checker.checksRun = steps.toNat := by
  cases hs : a.settings with
  | error e =>
    obtain ⟨message, rfl⟩ := a.refuses e hs
    exact Or.inl ⟨message, rfl, run_refused json R random hs steps⟩
  | ok settings =>
    obtain ⟨r, hr⟩ := run_clean json R random hb hs steps
    exact Or.inr ⟨settings, r, rfl, hr⟩

theorem correct_clusters_run_clean_chaos : ∃ settings r,
    ({ numNodes := 3, seed := 631, faults := "chaos", bugs := { staleLocalReads := true }, membership := true } : ClusterArgs).settings =
      .ok settings ∧
    (supervisedSystem emptyListText congruential id).run
      { numNodes := 3, seed := 631, faults := "chaos", bugs := { staleLocalReads := true }, membership := true } 500 = .ok r ∧
    r.violation = none ∧ r.steps = 500 ∧ r.state.checker.checksRun = 500 := by
  refine (correct_clusters_run_clean emptyListText congruential id
    { numNodes := 3, seed := 631, faults := "chaos", bugs := { staleLocalReads := true }, membership := true } rfl 500).resolve_left ?_
  rintro ⟨message, hs, -⟩
  cases hs

/-! ## The exit code -/

section Exit

variable {json : JsonText} {R : RandomSource} {random : Int → R.State} {files : String → Written} {ns : Namespace} {settings : Settings}

end Exit

/-- What writing the file of a run without a violation makes the process end with. -/
def Written.exit (path : String) : Written → Exit
  | .done => .code EXIT_OK
  | .osError => .traceback (.os path)
  | .valueError _ => .code EXIT_USAGE

end DeterministicRaft
