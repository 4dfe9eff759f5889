import DeterministicRaft.Masks
import DeterministicRaft.Replay
import DeterministicRaft.Watched

/-!
# The cluster on its simulator, under its checker

`Cluster.run` checks all invariants after each event. The cluster is a system of those that can be replayed. No node compacts its log
under the configuration that a scenario gets, so nothing is checked in the middle of an event.
-/

namespace DeterministicRaft

open Refinement

/-- The profile of a name. -/
def FAULTS (name : String) : Option Faults :=
  if name = "none" then some .none
  else if name = "light" then some .light
  else if name = "chaos" then some .chaos
  else none

namespace ClusterArgs

/-- The highest node that the schedule names. -/
def maxNode (self : ClusterArgs) : Int :=
  match self.nemesis with
  | some schedule => schedule.maxNode
  | none => -1

theorem maxNode_some {self : ClusterArgs} {schedule : NemesisSchedule} (h : self.nemesis = some schedule) :
    self.maxNode = schedule.maxNode := by
  rw [maxNode, h]

/-- What `Cluster(…)` checks of its arguments. -/
def settings (self : ClusterArgs) : Except SimError Settings :=
  if hn : self.numNodes < 1 then .error (.valueError "need at least one node")
  else
    match FAULTS self.faults with
    | none => .error (.valueError ("unknown fault profile: '" ++ self.faults ++ "'"))
    | some faults =>
      if hm : self.membership = true ∧ self.numNodes < 3 then .error (.valueError "membership mode needs at least three nodes")
      else if hk : self.numNodes ≤ self.maxNode then
        .error (.valueError ("nemesis schedule names node n" ++ toString self.maxNode ++ "; this cluster only has n0..n" ++
          toString (self.numNodes - 1)))
      else
        .ok {
          numNodes := self.numNodes.toNat
          faults
          bugs := self.bugs
          suppressed := self.suppressed
          membership := self.membership
          nemesis := self.nemesis
          someNode := by omega
          spareNode := fun h => by
            have : ¬self.numNodes < 3 := fun hlt => hm ⟨h, hlt⟩
            omega
          knownVoters := fun _ h => by cases h
          knownNodes := fun schedule h => by
            have := maxNode_some h
            omega }

/-- Schedules with the same patterns are equal, and no schedule is as good as one without patterns. -/
theorem Alike.nemesis {n : ℕ} {a b : ClusterArgs} (h : a.Alike n b) {α : Type} {f : Option NemesisSchedule → α}
    (hf : ∀ schedule, schedule.ops = [] → f (some schedule) = f none) : f b.nemesis = f a.nemesis := by
  have hops := h.ops
  unfold ClusterArgs.ops at hops
  rcases ha : a.nemesis with _ | s
  all_goals
    rcases hb : b.nemesis with _ | t
    all_goals simp only [ha, hb] at hops
  · rfl
  · exact hf t hops
  · exact (hf s hops.symm).symm
  · obtain ⟨ops, hs⟩ := s
    obtain ⟨ops', ht⟩ := t
    cases hops
    rfl

theorem Alike.maxNode {n : ℕ} {a b : ClusterArgs} (h : a.Alike n b) : b.maxNode = a.maxNode := by
  refine h.nemesis (f := fun nemesis => ({ a with nemesis } : ClusterArgs).maxNode) fun schedule hops => ?_
  rw [maxNode_some rfl, NemesisSchedule.maxNode, hops]
  rfl

/-- The hint is the same. -/
theorem Alike.replayHint {n : ℕ} {a b : ClusterArgs} (h : a.Alike n b) (json : JsonText) : b.replayHint json = a.replayHint json := by
  have hoption : nemesisOption json b.nemesis = nemesisOption json a.nemesis := h.nemesis fun schedule hops => if_pos hops
  unfold ClusterArgs.replayHint
  simp only [-String.reduceAppend, h.numNodes, h.seed, h.faults, h.membership, hoption]

/-- Alike arguments give the same settings but for the mask and for how the schedule is written, or raise the same. -/
theorem Alike.settings {n : ℕ} {a b : ClusterArgs} (h : a.Alike n b) :
    (∃ e, a.settings = .error e ∧ b.settings = .error e) ∨
    ∃ s nemesis known, a.settings = .ok s ∧ b.settings = .ok (s.masked b.suppressed nemesis known) ∧
      (s.masked b.suppressed nemesis known).injections = s.injections ∧ s.suppressed = a.suppressed := by
  have hmax := h.maxNode
  have hnode : ∀ schedule, b.nemesis = some schedule → schedule.maxNode = a.maxNode := fun _ hs => (maxNode_some hs).symm.trans hmax
  have hinjections := h.nemesis (f := fun nemesis => match nemesis with
    | some schedule => schedule.injections
    | none => []) fun schedule hops => by
      simp only [NemesisSchedule.injections, hops]
      rfl
  obtain ⟨numNodes, seed, faults, bugs, suppressed, membership, nemesis⟩ := b
  obtain ⟨h1, -, h3, h4, h5, -, -⟩ := h
  simp only at h1 h3 h4 h5 hinjections
  subst h1 h3 h4 h5
  unfold ClusterArgs.settings
  by_cases hn : a.numNodes < 1
  · simp only [dif_pos hn]
    exact Or.inl ⟨_, rfl, rfl⟩
  · simp only [dif_neg hn]
    cases FAULTS a.faults with
    | none => exact Or.inl ⟨_, rfl, rfl⟩
    | some faults =>
      simp only
      by_cases hm : a.membership = true ∧ a.numNodes < 3
      · simp only [dif_pos hm]
        exact Or.inl ⟨_, rfl, rfl⟩
      · simp only [dif_neg hm]
        by_cases hk : a.numNodes ≤ a.maxNode
        · rw [dif_pos hk, dif_pos (hmax ▸ hk), hmax]
          exact Or.inl ⟨_, rfl, rfl⟩
        · rw [dif_neg hk, dif_neg (hmax ▸ hk)]
          refine Or.inr ⟨_, nemesis, fun schedule hs => ?_, rfl, rfl, ?_, rfl⟩
          · have heq := hnode schedule hs
            simp only
            omega
          · exact hinjections

/-- There are clusters of the known profiles only. -/
theorem faults_of_settings {self : ClusterArgs} {s : Settings} (h : self.settings = .ok s) : self.faults ∈ FAULT_NAMES := by
  by_contra hf
  have hnone : FAULTS self.faults = none := by
    simp only [FAULT_NAMES, List.mem_cons, List.not_mem_nil, or_false, not_or] at hf
    rw [FAULTS, if_neg hf.1, if_neg hf.2.1, if_neg hf.2.2]
  unfold ClusterArgs.settings at h
  split at h
  · cases h
  · simp only [hnone] at h
    cases h

end ClusterArgs

/-! ## Steps and checks -/

/-- A cluster under its checker. -/
structure Supervised (R : RandomSource) where
  harness : Harness R
  checker : InvariantChecker

/-- `Cluster.step`: an event, and the check after it. -/
def Supervised.step {R : RandomSource} (settings : Settings) (self : Supervised R) : Stepped (Supervised R) :=
  match self.harness.step settings with
  | .error e => .raised e
  | .ok (false, harness) => .idle { self with harness }
  | .ok (true, harness) =>
    match self.checker.check (Watched.view settings.network harness.cluster.world) harness.cluster.steps true with
    | .ok checker => .next { harness, checker }
    | .error (.violation v) => .violated v { self with harness }
    | .error (.raised e) => .raised (.raised e)

/-- The event of a step that does not raise. -/
theorem Supervised.step_harness {R : RandomSource} {settings : Settings} {self after : Supervised R}
    (h : (self.step settings).state? = some after) : ∃ more, self.harness.step settings = .ok (more, after.harness) := by
  unfold step at h
  cases hstep : self.harness.step settings with
  | error e =>
    rw [hstep] at h
    cases h
  | ok done =>
    rw [hstep] at h
    obtain ⟨more, harness⟩ := done
    cases more with
    | false =>
      cases h
      exact ⟨false, rfl⟩
    | true =>
      simp only at h
      split at h
      · cases h
        exact ⟨true, rfl⟩
      · cases h
        exact ⟨true, rfl⟩
      · cases h

/-- A step under two masks that agree on the ordinals it assigns. -/
theorem Supervised.step_masked {R : RandomSource} {settings : Settings} {n : ℕ} {suppressed : Finset ℕ} {nemesis : Option NemesisSchedule}
    {known : ∀ schedule, nemesis = some schedule → schedule.maxNode < settings.numNodes}
    (hmask : ∀ j < n, j ∈ suppressed ↔ j ∈ settings.suppressed) {self after : Supervised R}
    (h : (self.step settings).state? = some after) (hn : after.harness.faultSeq ≤ n) :
    self.step (settings.masked suppressed nemesis known) = self.step settings := by
  obtain ⟨more, hstep⟩ := step_harness h
  have hnetwork : (settings.masked suppressed nemesis known).network = settings.network := rfl
  unfold step
  rw [Harness.step_masked hmask hstep hn, hstep, hnetwork]

/-- The clusters of `Cluster(…)`, with the source of random numbers that each seed gives. -/
def supervisedSystem (json : JsonText) (R : RandomSource) (random : Int → R.State) : ClusterSystem where
  State := Supervised R
  make a := do
    let settings ← a.settings
    let harness ← Harness.init settings (random a.seed)
    return { harness, checker := { seed := a.seed, replayHint := a.replayHint json } }
  step a self :=
    match a.settings with
    | .ok settings => self.step settings
    | .error e => .raised e
  faultCount self := self.harness.faultSeq
  history self := self.harness.cluster.history
  trace self := self.harness.trace
  known {a s} h := by
    cases hs : a.settings with
    | error e =>
      rw [hs] at h
      cases h
    | ok settings => exact ClusterArgs.faults_of_settings hs
  make_alike {a b} hab := by
    rcases hab.settings with ⟨e, ha, hb⟩ | ⟨s, nemesis, known, ha, hb, hinjections, -⟩
    · rw [ha, hb]
      rfl
    · rw [ha, hb]
      have hinit := Harness.init_masked hinjections (random a.seed)
      simp only [bind, Except.bind, hab.seed, hab.replayHint json, hinit]
  step_mono {a s s'} h := by
    cases hs : a.settings with
    | error e =>
      rw [hs] at h
      cases h
    | ok settings =>
      rw [hs] at h
      obtain ⟨more, hstep⟩ := Supervised.step_harness h
      exact Harness.ordered_step s.harness _ hstep
  step_alike {a b s s'} h hab := by
    rcases hab.settings with ⟨e, ha, hb⟩ | ⟨settings, nemesis, known, ha, hb, -, hsuppressed⟩
    · rw [ha] at h
      cases h
    · rw [ha] at h ⊢
      rw [hb]
      exact Supervised.step_masked (fun j hj => by rw [hsuppressed]; exact hab.suppressed j hj) h (Nat.le_refl _)

end DeterministicRaft
