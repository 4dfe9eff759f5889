import DeterministicRaft.Roster
import DeterministicRaft.Theorems.NemesisWindows

/-!
# The timeline of a run

Each lane that the renderer reconstructs from the events of a run covers the run without gap or overlap, and shows the node's term and
whether it is alive whenever these do not change. It shows the node's role too, unless the node has crashed as a leader or a candidate:
then it comes back as a follower and does not say so, and the lane shows it as what it was before.
-/

namespace DeterministicRaft

open Refinement

/-! ## What a lane shows after some lines -/

namespace Lane

variable (n : NodeId) {lane : Lane} (lines : List (Int × Line))

theorem after_alive : (lane.after n lines).alive = lines.foldl (Line.up n) lane.alive := by
  induction lines generalizing lane with
  | nil => rfl
  | cons x lines ih =>
    have hx : (lane.next n x).alive = Line.up n lane.alive x := by
      obtain ⟨t, line⟩ := x
      cases line with
      | node m event =>
        cases event with
        | role => simp only [Lane.next, Line.up]; split <;> rfl
        | _ => rfl
      | crash m | resume m =>
        simp only [Lane.next, Line.up]
        split <;> rfl
      | _ => rfl
    rw [Lane.after, List.foldl_cons, List.foldl_cons, ← hx]
    exact ih

/-- A `role` event of the node is all that changes the lane's term and role. -/
theorem next_told (x : Int × Line) (last : Role × Int) : (Line.told n last x = last ∧ (lane.next n x).term = lane.term ∧
    (lane.next n x).role = lane.role) ∨ ((lane.next n x).term = max (Line.told n last x).2 0 ∧
      (lane.next n x).role = (Line.told n last x).1.text) := by
  obtain ⟨t, line⟩ := x
  cases line with
  | node m event =>
    cases event with
    | role role term =>
      by_cases hm : m = n
      · refine Or.inr ?_
        simp only [Lane.next, Line.told, World.told, Effect.shown, if_pos hm, and_self]
      · refine Or.inl ?_
        simp only [Lane.next, Line.told, World.told, if_neg hm, and_self]
    | _ => exact Or.inl ⟨ite_self _, rfl, rfl⟩
  | crash m | resume m =>
    simp only [Lane.next]
    split <;> exact Or.inl ⟨rfl, rfl, rfl⟩
  | _ => exact Or.inl ⟨rfl, rfl, rfl⟩

theorem after_term {last : Role × Int} (h : lane.term = max last.2 0) :
    (lane.after n lines).term = max (lines.foldl (Line.told n) last).2 0 := by
  induction lines generalizing lane last with
  | nil => exact h
  | cons x lines ih =>
    rw [Lane.after, List.foldl_cons, List.foldl_cons]
    refine ih ?_
    rcases next_told n x last with ⟨htold, hterm, -⟩ | ⟨hterm, -⟩
    · rw [htold, hterm, h]
    · exact hterm

theorem after_role {last : Role × Int} (h : lane.role = last.1.text) :
    (lane.after n lines).role = (lines.foldl (Line.told n) last).1.text := by
  induction lines generalizing lane last with
  | nil => exact h
  | cons x lines ih =>
    rw [Lane.after, List.foldl_cons, List.foldl_cons]
    refine ih ?_
    rcases next_told n x last with ⟨htold, -, hrole⟩ | ⟨-, hrole⟩
    · rw [htold, hrole, h]
    · exact hrole

end Lane

/-! ## Runs -/

namespace HarnessRun

variable {settings : Settings} {R : RandomSource} (run : HarnessRun settings R)

/-- The node at a moment. -/
def node (k : ℕ) (n : NodeId) : RaftNode := (run.state k).cluster.world.nodes n

/-- The node's lane after the lines recorded up to a moment. -/
def lane (n : NodeId) (k : ℕ) : Lane := ({} : Lane).after n (run.state k).trace

/-- Up to where the timeline is drawn. -/
def duration : Int := max (run.now run.length) 1

/-- At the time `t` the node is not changing: at all moments that are present then it has this term, this role and this aliveness. -/
def Settled (n : NodeId) (t term : Int) (role : Role) (alive : Bool) : Prop :=
  ∀ j, Present run.now run.length run.duration j t →
    (run.node j n).term = term ∧ (run.node j n).role = role ∧ (run.node j n).alive = alive

/-- The lane covers the run without gap or overlap, and where the node is not changing it shows the node's term and aliveness. -/
structure Covered (n : NodeId) (lane : Lane) : Prop where
  tiles : Tiles 0 lane.segments run.duration
  shows : ∀ t term role alive, run.Settled n t term role alive →
    ∀ segment ∈ lane.segments, segment.start ≤ t → t ≤ segment.stop → segment.term = term ∧ segment.alive = alive

/-- Where the node is alive and not changing the lane shows its role. -/
def RoleShown (n : NodeId) (lane : Lane) : Prop :=
  ∀ t term role, run.Settled n t term role true → ∀ segment ∈ lane.segments, segment.start ≤ t → t ≤ segment.stop →
    segment.role = role.text

/-- If the node crashes and comes back later in the run, it was a follower when it crashed. -/
def ReturnsAsIs (n : NodeId) : Prop :=
  ∀ i j, i + 1 < j → j ≤ run.length → (run.node i n).alive = true → (run.node (i + 1) n).alive = false →
    (run.node j n).alive = true → (run.node i n).role = .follower

/-- The timeline reconstructed from the events of the run shows each node as it was. -/
def Reconstructed : Prop :=
  ∃ timeline, Timeline.render (run.state run.length).events settings.numNodes (run.now run.length) = .ok timeline ∧
    ∀ n ∈ settings.ids, ∃ lane, timeline.lanes.lookup n = some lane ∧ run.Covered n lane ∧ run.RoleShown n lane

/-- At moment `k` the lane's term and aliveness are the node's. -/
structure Drawn (n : NodeId) (k : ℕ) : Prop where
  silent : (run.state k).cluster.world.Silent
  nonneg : 0 ≤ (run.node k n).term
  alive : (run.lane n k).alive = (run.node k n).alive
  term : (run.lane n k).term = (run.node k n).term

/-- So is its role, unless the node is down since it crashed as a leader or a candidate. -/
def RoleDrawn (n : NodeId) (k : ℕ) : Prop :=
  (run.lane n k).role = (run.node k n).role.text ∨ (run.node k n).alive = false ∧ ∃ i < k, (run.node i n).alive = true ∧
    (run.node (i + 1) n).alive = false ∧ (run.node i n).role ≠ .follower

variable {run} {n : NodeId} {k : ℕ}

/-- The lane at the first moment. -/
theorem lane_zero (n : NodeId) : ∃ lines, run.lane n 0 = ({} : Lane).after n lines ∧ (∀ x ∈ lines, x.1 = 0 ∧ x.2.Ordinary) ∧
    lines.foldl (Line.told n) (.follower, 0) = (run.state 0).cluster.world.post n := by
  obtain ⟨lines, ht, hl, htold⟩ := (Harness.Told.init n run.seed _ run.start).trace
  have ht : (run.state 0).trace = lines := ht
  exact ⟨lines, by rw [lane, ht], hl, htold⟩

theorem Drawn.zero (n : NodeId) : run.Drawn n 0 := by
  have h := Harness.Told.init n run.seed _ run.start
  obtain ⟨lines, hlane, hl, htold⟩ := run.lane_zero n
  have halive : (run.node 0 n).alive = true := h.alive
  have hpos : 0 ≤ (run.node 0 n).term := h.term_le
  have hterm : (({} : Lane).after n lines).term = max (lines.foldl (Line.told n) (.follower, 0)).2 0 := Lane.after_term n lines rfl
  refine ⟨h.silent, hpos, ?_, ?_⟩
  · rw [hlane, Lane.after_alive, halive]
    exact foldl_eq_self fun x hx => Line.up_of_ordinary (hl x hx).2
  · rw [hlane, hterm, htold]
    exact max_eq_left hpos

/-- What the lane goes through with an event. -/
theorem lane_succ {lines : List (Int × Line)} (ht : (run.state (k + 1)).trace = (run.state k).trace ++ lines) (n : NodeId) :
    run.lane n (k + 1) = (run.lane n k).after n lines := by
  rw [lane, ht, Lane.after_append]
  rfl

theorem Drawn.next (h : run.Drawn n k) (hk : k < run.length) : run.Drawn n (k + 1) := by
  have hstep := Harness.Recounts.step h.silent (run.next k hk) n
  obtain ⟨lines, ht, -, hup, htold⟩ := hstep.trace
  have hpos : 0 ≤ (run.node (k + 1) n).term := h.nonneg.trans hstep.term_le
  have hlast : (run.lane n k).term = max ((run.state k).cluster.world.post n).2 0 := h.term.trans (max_eq_left h.nonneg).symm
  refine ⟨hstep.silent, hpos, ?_, ?_⟩
  · rw [lane_succ ht, Lane.after_alive, h.alive]
    exact hup
  · rw [lane_succ ht, Lane.after_term n lines hlast]
    rcases htold with htold | ⟨htold, hsame, -⟩
    · rw [htold]
      exact max_eq_left hpos
    · rw [htold]
      exact (max_eq_left h.nonneg).trans hsame.symm

theorem Drawn.all (run : HarnessRun settings R) (n : NodeId) (hk : k ≤ run.length) : run.Drawn n k := by
  induction k with
  | zero => exact .zero n
  | succ k ih => exact (ih (Nat.le_of_succ_le hk)).next hk

theorem RoleDrawn.zero (n : NodeId) : run.RoleDrawn n 0 := by
  obtain ⟨lines, hlane, -, htold⟩ := run.lane_zero n
  have hrole : (({} : Lane).after n lines).role = (lines.foldl (Line.told n) (.follower, 0)).1.text := Lane.after_role n lines rfl
  refine Or.inl ?_
  rw [hlane, hrole, htold]
  rfl

/-- A node that comes back is what it was when it crashed; one that crashes as no follower is down. -/
theorem RoleDrawn.next (hret : run.ReturnsAsIs n) (h : run.RoleDrawn n k) (hk : k < run.length) : run.RoleDrawn n (k + 1) := by
  have hstep := Harness.Recounts.step (Drawn.all run n hk.le).silent (run.next k hk) n
  obtain ⟨lines, ht, -, -, htold⟩ := hstep.trace
  rcases h with h | ⟨hdown, i, hi, hup, hfell, hrole⟩
  · have hlast : (run.lane n (k + 1)).role = (lines.foldl (Line.told n) ((run.state k).cluster.world.post n)).1.text := by
      rw [lane_succ ht]
      exact Lane.after_role n lines h
    rcases htold with htold | ⟨htold, -, hup, hfell, hfollower⟩
    · rw [htold] at hlast
      exact Or.inl hlast
    · rw [htold] at hlast
      by_cases hrole : (run.node k n).role = .follower
      · refine Or.inl (hlast.trans ?_)
        exact congrArg Role.text (hrole.trans hfollower.symm)
      · exact Or.inr ⟨hfell, k, Nat.lt_succ_self k, hup, hfell, hrole⟩
  · cases halive : (run.node (k + 1) n).alive with
    | true => exact absurd (hret i (k + 1) (Nat.succ_lt_succ hi) hk hup hfell halive) hrole
    | false => exact Or.inr ⟨halive, i, hi.trans (Nat.lt_succ_self k), hup, hfell, hrole⟩

theorem RoleDrawn.all (hret : run.ReturnsAsIs n) (hk : k ≤ run.length) : run.RoleDrawn n k := by
  induction k with
  | zero => exact .zero n
  | succ k ih => exact (ih (Nat.le_of_succ_le hk)).next hret hk

/-- The lane at the end of the run. -/
theorem lane_traced (run : HarnessRun settings R) (n : NodeId) : Lane.Traced run.now (run.lane n) run.length := by
  have hrecounts : ∀ k < run.length, Harness.Recounts n (run.state k) (run.state (k + 1)) :=
    fun k hk => .step (Drawn.all run n hk.le).silent (run.next k hk) n
  refine Lane.Traced.run (Harness.Told.init n run.seed _ run.start).now ?_ (fun k hk => (hrecounts k hk).now_le) fun k hk => ?_
  · obtain ⟨lines, hlane, hl, -⟩ := run.lane_zero n
    rw [hlane]
    rcases Lane.turns_after n {} fun x hx => (hl x hx).1 with hturns | ⟨hsince, hsegs⟩
    · rw [hturns]
      exact ⟨rfl, rfl⟩
    · exact ⟨hsince, hsegs⟩
  · obtain ⟨lines, ht, hl, -⟩ := (hrecounts k hk).trace
    rw [lane_succ ht]
    exact Lane.turns_after n _ hl

/-- What the renderer makes of the lane at the end. -/
theorem covered (run : HarnessRun settings R) (n : NodeId) : run.Covered n ((run.lane n run.length).close run.duration) ∧
    (run.ReturnsAsIs n → run.RoleShown n ((run.lane n run.length).close run.duration)) := by
  obtain ⟨htiles, hshows⟩ := (run.lane_traced n).close (le_max_left _ 1 : run.now run.length ≤ run.duration)
  have hle : ∀ {j t}, Present run.now run.length run.duration j t → j ≤ run.length := by
    intro j t h
    rcases h.2 with ⟨hlt, -⟩ | ⟨heq, -⟩
    · exact hlt.le
    · exact heq.le
  refine ⟨⟨htiles, fun t term role alive hsettled segment hs ht ht' => ?_⟩, fun hret t term role hsettled segment hs ht ht' => ?_⟩
  · obtain ⟨j, hj, hterm, -, halive⟩ := hshows segment hs t ht ht'
    obtain ⟨hterm', -, halive'⟩ := hsettled j hj
    have hdrawn := Drawn.all run n (hle hj)
    exact ⟨hterm.trans (hdrawn.term.trans hterm'), halive.trans (hdrawn.alive.trans halive')⟩
  · obtain ⟨j, hj, -, hrole, -⟩ := hshows segment hs t ht ht'
    obtain ⟨-, hrole', halive'⟩ := hsettled j hj
    rcases RoleDrawn.all hret (hle hj) with h | ⟨hdown, -⟩
    · rw [hrole, h, hrole']
    · rw [hdown] at halive'
      cases halive'

end HarnessRun

/-- The timeline reconstructed from the events of a run covers the run in each node's lane without gap or overlap, and whenever a node is
not changing, its lane shows its term and whether it is alive. It shows the role of a node that is alive, if the node was a follower
whenever it crashed and came back later. -/
theorem timeline_matches_the_run {settings : Settings} {R : RandomSource} (run : HarnessRun settings R) :
    ∃ timeline, Timeline.render (run.state run.length).events settings.numNodes (run.now run.length) = .ok timeline ∧
      ∀ n ∈ settings.ids, ∃ lane, timeline.lanes.lookup n = some lane ∧ run.Covered n lane ∧
        (run.ReturnsAsIs n → run.RoleShown n lane) := by
  have habout : ∀ x ∈ (run.state run.length).trace, x.2.About (pyRange 0 settings.numNodes) := (run.sited le_rfl).trace
  obtain ⟨timeline, hok, hdraws⟩ := (run.state run.length).render_events (run.now run.length) habout
  exact ⟨timeline, hok, fun n hn => ⟨_, hdraws n hn, run.covered n⟩⟩

/-- One node, which crashes before its first election and comes back. -/
def loneFollower : Settings where
  numNodes := 1
  clientInterval := none
  nemesis := some ⟨[.crashNode 0 50 50], by decide⟩
  someNode := by decide
  spareNode := by decide
  knownVoters _ h := by cases h
  knownNodes _ h := by
    cases h
    decide

/-- The node is back from 100 ms on and its timer elects it; the lane shows the follower, its crash, its return and the leader. -/
theorem timeline_matches_the_run_follower :
    ∃ (run : HarnessRun loneFollower leastSource) (timeline : Timeline) (lane : Lane), run.length = 6 ∧
      Timeline.render (run.state 6).events 1 (run.now 6) = .ok timeline ∧ timeline.lanes.lookup 0 = some lane ∧
      run.Covered 0 lane ∧ run.RoleShown 0 lane ∧ (run.node 1 0).alive = false ∧ (run.node 2 0).alive = true := by
  have h : Harness.hasSteps loneFollower leastSeed 6 = true := by decide +kernel
  have hfell : ∀ i ∈ List.range 6, ((Harness.stateAfter loneFollower leastSeed i).cluster.world.nodes 0).alive = true →
      ((Harness.stateAfter loneFollower leastSeed (i + 1)).cluster.world.nodes 0).alive = false →
      ((Harness.stateAfter loneFollower leastSeed i).cluster.world.nodes 0).role = .follower := by
    decide +kernel
  have hret : (HarnessRun.ofSteps 6 h).ReturnsAsIs 0 := fun i j hij hj halive hdown _ =>
    hfell i (List.mem_range.2 ((Nat.lt_of_succ_lt hij).trans_le hj)) halive hdown
  obtain ⟨timeline, hok, hlanes⟩ := timeline_matches_the_run (HarnessRun.ofSteps 6 h)
  obtain ⟨lane, hlane, hcovered, hroles⟩ := hlanes 0 (by decide)
  refine ⟨HarnessRun.ofSteps 6 h, timeline, lane, rfl, hok, hlane, hcovered, hroles hret, ?_, ?_⟩
  · show ((Harness.stateAfter loneFollower leastSeed 1).cluster.world.nodes 0).alive = false
    decide +kernel
  · show ((Harness.stateAfter loneFollower leastSeed 2).cluster.world.nodes 0).alive = true
    decide +kernel

/-- One node, which crashes as the leader of its first term and comes back. -/
def loneLeader : Settings where
  numNodes := 1
  clientInterval := none
  nemesis := some ⟨[.crashNode 0 200 100], by decide⟩
  someNode := by decide
  spareNode := by decide
  knownVoters _ h := by cases h
  knownNodes _ h := by
    cases h
    decide

/-- From 300 ms on the node is a follower again, and its lane shows a leader. -/
theorem timeline_not_reconstructed : ¬∀ (settings : Settings) (R : RandomSource) (run : HarnessRun settings R), run.Reconstructed := by
  intro hall
  have h : Harness.hasSteps loneLeader leastSeed 6 = true := by decide +kernel
  obtain ⟨timeline, hok, hlanes⟩ := hall loneLeader leastSource (.ofSteps 6 h)
  obtain ⟨lane, hlane, -, hroles⟩ := hlanes 0 (by decide)
  have hlast : (Timeline.render (Harness.stateAfter loneLeader leastSeed 6).events 1
      (Harness.stateAfter loneLeader leastSeed 6).sim.clock.now).toOption.bind (fun timeline => timeline.lanes.lookup 0) =
        some { term := 2, role := "leader", alive := true, since := 450, segments := [⟨0, 150, 0, "follower", true⟩,
          ⟨150, 200, 1, "leader", true⟩, ⟨200, 300, 1, "leader", false⟩, ⟨300, 450, 1, "leader", true⟩] } := by
    decide +kernel
  have hok : Timeline.render (Harness.stateAfter loneLeader leastSeed 6).events 1
    (Harness.stateAfter loneLeader leastSeed 6).sim.clock.now = .ok timeline := hok
  rw [hok] at hlast
  have hlast := hlane.symm.trans hlast
  have hsettled : ∀ j ∈ List.range 7, Present (fun k => (Harness.stateAfter loneLeader leastSeed k).sim.clock.now) 6 450 j 400 →
      ((Harness.stateAfter loneLeader leastSeed j).cluster.world.nodes 0).term = 1 ∧
      ((Harness.stateAfter loneLeader leastSeed j).cluster.world.nodes 0).role = .follower ∧
      ((Harness.stateAfter loneLeader leastSeed j).cluster.world.nodes 0).alive = true := by
    decide +kernel
  have hduration : (HarnessRun.ofSteps 6 h).duration = 450 := by
    show max (Harness.stateAfter loneLeader leastSeed 6).sim.clock.now 1 = 450
    decide +kernel
  have hshown := hroles 400 1 .follower (fun j hj => ?_) ⟨300, 450, 1, "leader", true⟩ ?_ (by decide) (by decide)
  · exact absurd hshown (by decide)
  · rw [hduration] at hj
    refine hsettled j (List.mem_range.2 ?_) hj
    rcases hj.2 with ⟨hlt, -⟩ | ⟨heq, -⟩
    · exact Nat.lt_succ_of_lt hlt
    · rw [heq]
      exact Nat.lt_succ_self 6
  · rw [Option.some.inj hlast]
    decide

end DeterministicRaft
