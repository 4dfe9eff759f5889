import DeterministicRaft.CommandLine

/-!
# What a printed command replays

A run that ends with a violation ends so with any budget that reaches it, and under any mask that agrees on the faults it reached. So a
command replays a violation if no such fault is suppressed and the budget that is read reaches it; other failures are not replayed.
-/

namespace DeterministicRaft

/-! ## Alike clusters -/

theorem ClusterArgs.Alike.mono {m n : ℕ} {a b : ClusterArgs} (h : a.Alike n b) (hmn : m ≤ n) : a.Alike m b :=
  { h with suppressed := fun j hj => h.suppressed j (Nat.lt_of_lt_of_le hj hmn) }

namespace ClusterSystem

variable {sys : ClusterSystem} {a b : ClusterArgs}

/-- How a run starts: a step and the rest of the run, an idle step, or a violation. -/
theorem runFor_cases {n : ℕ} {s : sys.State} {r : Ran sys.State} (h : sys.runFor a (n + 1) s = .ok r) :
    (∃ s' r', sys.step a s = .next s' ∧ sys.runFor a n s' = .ok r' ∧ r = { r' with steps := r'.steps + 1 }) ∨
    (∃ s', sys.step a s = .idle s' ∧ r = { state := s', steps := 0, violation := none }) ∨
    ∃ v s', sys.step a s = .violated v s' ∧ r = { state := s', steps := 1, violation := some v } := by
  rw [runFor] at h
  cases hstep : sys.step a s with
  | next s' =>
    rw [hstep] at h
    simp only at h
    cases hr : sys.runFor a n s' with
    | error e =>
      rw [hr] at h
      cases h
    | ok r' =>
      rw [hr] at h
      cases h
      exact Or.inl ⟨s', r', rfl, hr, rfl⟩
  | idle s' =>
    rw [hstep] at h
    cases h
    exact Or.inr (Or.inl ⟨s', rfl, rfl⟩)
  | violated v s' =>
    rw [hstep] at h
    cases h
    exact Or.inr (Or.inr ⟨v, s', rfl, rfl⟩)
  | raised e =>
    rw [hstep] at h
    cases h

/-- A step, and the rest of the run. -/
theorem runFor_next {n : ℕ} {s s' : sys.State} {r : Ran sys.State} (hstep : sys.step a s = .next s') (h : sys.runFor a n s' = .ok r) :
    sys.runFor a (n + 1) s = .ok { r with steps := r.steps + 1 } := by
  rw [runFor, hstep]
  simp only [h]
  rfl

/-- A run assigns ordinals in order. -/
theorem faultCount_runFor {n : ℕ} : ∀ {s : sys.State} {r : Ran sys.State}, sys.runFor a n s = .ok r →
    sys.faultCount s ≤ sys.faultCount r.state := by
  induction n with
  | zero =>
    intro s r h
    cases h
    exact Nat.le_refl _
  | succ n ih =>
    intro s r h
    have hmono := @sys.step_mono a s
    rcases runFor_cases h with ⟨s', r', hstep, hr, rfl⟩ | ⟨s', hstep, rfl⟩ | ⟨v, s', hstep, rfl⟩
    · rw [hstep] at hmono
      have hle := ih hr
      exact (hmono rfl).trans hle
    · rw [hstep] at hmono
      exact hmono rfl
    · rw [hstep] at hmono
      exact hmono rfl

/-- A run takes no more steps than its budget. -/
theorem steps_le_runFor {n : ℕ} : ∀ {s : sys.State} {r : Ran sys.State}, sys.runFor a n s = .ok r → r.steps ≤ n := by
  induction n with
  | zero =>
    intro s r h
    cases h
    exact Nat.le_refl 0
  | succ n ih =>
    intro s r h
    rcases runFor_cases h with ⟨s', r', -, hr, rfl⟩ | ⟨s', -, rfl⟩ | ⟨v, s', -, rfl⟩
    · exact Nat.succ_le_succ (ih hr)
    · exact Nat.zero_le _
    · exact Nat.succ_le_succ (Nat.zero_le n)

/-- A run that ends with a violation, with a budget that reaches it and under a mask that agrees on the faults that it reached. -/
theorem runFor_alike {n : ℕ} : ∀ {m : ℕ} {s : sys.State} {r : Ran sys.State} {v : InvariantViolation}, sys.runFor a n s = .ok r →
    r.violation = some v → r.steps ≤ m → a.Alike (sys.faultCount r.state) b → sys.runFor b m s = .ok r := by
  induction n with
  | zero =>
    intro m s r v h hv
    cases h
    cases hv
  | succ n ih =>
    intro m s r v h hv hm hab
    have hsame := @sys.step_alike a b s
    rcases runFor_cases h with ⟨s', r', hstep, hr, rfl⟩ | ⟨s', -, rfl⟩ | ⟨v', s', hstep, rfl⟩
    · have hle := faultCount_runFor hr
      rw [hstep] at hsame
      have hsame := hsame rfl (hab.mono hle)
      cases m with
      | zero => cases hm
      | succ m => exact runFor_next hsame (ih hr hv (Nat.le_of_succ_le_succ hm) hab)
    · cases hv
    · rw [hstep] at hsame
      have hsame := hsame rfl hab
      cases m with
      | zero => cases hm
      | succ m => rw [runFor, hsame]

/-- A cluster was made, and its loop ran. -/
theorem run_eq_ok {steps : Int} {r : Ran sys.State} :
    sys.run a steps = .ok r ↔ ∃ s, sys.make a = .ok s ∧ sys.runFor a steps.toNat s = .ok r := by
  unfold run
  cases sys.make a with
  | error e =>
    refine ⟨fun h => ?_, fun ⟨s, h, _⟩ => ?_⟩
    · cases h
    · cases h
  | ok s =>
    refine ⟨fun h => ⟨s, rfl, h⟩, fun ⟨s', hs, h⟩ => ?_⟩
    cases hs
    exact h

/-- The same violation, at the same step. -/
theorem run_alike {n m : Int} {r : Ran sys.State} {v : InvariantViolation} (h : sys.run a n = .ok r) (hv : r.violation = some v)
    (hm : (r.steps : Int) ≤ m) (hab : a.Alike (sys.faultCount r.state) b) : sys.run b m = .ok r := by
  obtain ⟨s, hs, hr⟩ := run_eq_ok.1 h
  have hsteps : r.steps ≤ m.toNat := by omega
  exact run_eq_ok.2 ⟨s, (sys.make_alike (hab.mono (Nat.zero_le _))).trans hs, runFor_alike hr hv hsteps hab⟩

/-- The budget of a run with a violation reaches it. -/
theorem steps_le_run {n : Int} {r : Ran sys.State} {v : InvariantViolation} (h : sys.run a n = .ok r) (hv : r.violation = some v) :
    (r.steps : Int) ≤ n := by
  obtain ⟨s, -, hr⟩ := run_eq_ok.1 h
  have hsteps := steps_le_runFor hr
  by_cases hn : 0 ≤ n
  · omega
  · rw [show n.toNat = 0 from by omega] at hr
    cases hr
    cases hv

/-- The replay reports the violation in which its run ends. -/
theorem cmdReplay_violated {ns : Namespace} {r : Ran sys.State} {v : InvariantViolation} (h : sys.run ns.cluster ns.steps = .ok r)
    (hv : r.violation = some v) : (sys.cmdReplay ns).failure = some (.violated v) := by
  rw [cmdReplay, h]
  simp only [hv]
  rfl

/-- A failure that is a violation is the one in which the run ends. -/
theorem violation_of_failure {r : Ran sys.State} {v : InvariantViolation} (h : sys.failure r = some (.violated v)) :
    r.violation = some v := by
  unfold failure at h
  cases hv : r.violation with
  | some v' =>
    rw [hv] at h
    cases h
    rfl
  | none =>
    rw [hv] at h
    simp only at h
    split at h
    · cases h
    · cases h

/-- What the replay reports is a violation. -/
theorem violated_of_cmdReplay {ns : Namespace} {f : Failure} (h : (sys.cmdReplay ns).failure = some f) : ∃ v, f = .violated v := by
  cases hrep : sys.cmdReplay ns with
  | violation attempt v =>
    rw [hrep] at h
    cases h
    exact ⟨v, rfl⟩
  | tracesDiffer =>
    rw [hrep] at h
    cases h
  | verified events =>
    rw [hrep] at h
    cases h
  | raised e =>
    rw [hrep] at h
    cases h

end ClusterSystem

/-! ## Printed commands -/

/-- The command is read as a replay of the configuration, with the same of the faults suppressed that the run reached, for as many steps
as the run took, and the replay reports the failure. -/
def Reproduces (json : JsonText) (sys : ClusterSystem) (scenario : Scenario Bugs NemesisSchedule) (r : Ran sys.State) (f : Failure)
    (command : String) : Prop :=
  ∃ ns, parseLine json command = .ok ns ∧ ns.command = "replay" ∧ scenario.cluster.Alike (sys.faultCount r.state) ns.cluster ∧
    (r.steps : Int) ≤ ns.steps ∧ (sys.cmdReplay ns).failure = some f

/-- A printed command reproduces a violation exactly when none of the faults is suppressed and its budget reaches the violation. -/
theorem reproduces_printed {json : JsonText} {sys : ClusterSystem} {scenario : Scenario Bugs NemesisSchedule} {r : Ran sys.State}
    {f : Failure} {steps : Option Int} (hbugs : scenario.bugs = NO_BUGS)
    (hjson : ∀ schedule, scenario.nemesis = some schedule → json.Faithful schedule.value)
    (hrun : sys.run scenario.cluster scenario.steps = .ok r) (hf : sys.failure r = some f) :
    Reproduces json sys scenario r f (pyJoin " " ((printed json scenario.cluster steps).map Prod.fst)) ↔
      (∃ v, f = .violated v) ∧ (∀ j < sys.faultCount r.state, j ∉ scenario.suppressed) ∧ (r.steps : Int) ≤ steps.getD 20000 := by
  obtain ⟨s, hmake, -⟩ := ClusterSystem.run_eq_ok.1 hrun
  have hline := @parseLine_printed json scenario.cluster steps (sys.known hmake) hjson
  constructor
  · rintro ⟨ns, hns, -, halike, hsteps, hrep⟩
    rw [hline] at hns
    cases hns
    refine ⟨ClusterSystem.violated_of_cmdReplay hrep, fun j hj hmem => ?_, hsteps⟩
    exact Finset.notMem_empty j ((halike.suppressed j hj).2 hmem)
  · rintro ⟨⟨v, rfl⟩, hmask, hsteps⟩
    have hv := ClusterSystem.violation_of_failure hf
    have halike : scenario.cluster.Alike (sys.faultCount r.state) (withOptions scenario.cluster steps
        { command := "replay", steps := 20000 }).cluster := alike_withOptions hbugs hmask rfl rfl
    exact ⟨_, hline, rfl, halike, hsteps, ClusterSystem.cmdReplay_violated (ClusterSystem.run_alike hrun hv hsteps halike) hv⟩

/-- Which printed commands reproduce a failure without injected bugs: only violations are reproduced, and only if none of the faults that
the run reached is suppressed; the hint moreover only if twenty thousand steps reach the violation. -/
theorem reproduces_commands {json : JsonText} {sys : ClusterSystem} {scenario : Scenario Bugs NemesisSchedule} {r : Ran sys.State}
    {f : Failure} (hbugs : scenario.bugs = NO_BUGS)
    (hjson : ∀ schedule, scenario.nemesis = some schedule → json.Faithful schedule.value)
    (hrun : sys.run scenario.cluster scenario.steps = .ok r) (hf : sys.failure r = some f) :
    (Reproduces json sys scenario r f (scenario.replayCommand json) ↔
      (∃ v, f = .violated v) ∧ ∀ j < sys.faultCount r.state, j ∉ scenario.suppressed) ∧
    (Reproduces json sys scenario r f (scenario.cluster.replayHint json) ↔
      (∃ v, f = .violated v) ∧ (∀ j < sys.faultCount r.state, j ∉ scenario.suppressed) ∧ r.steps ≤ 20000) := by
  rw [replayCommand_eq, replayHint_eq]
  refine ⟨(reproduces_printed hbugs hjson hrun hf).trans ⟨?_, ?_⟩, (reproduces_printed hbugs hjson hrun hf).trans ⟨?_, ?_⟩⟩
  · exact fun ⟨hv, hmask, _⟩ => ⟨hv, hmask⟩
  · rintro ⟨⟨v, rfl⟩, hmask⟩
    exact ⟨⟨v, rfl⟩, hmask, ClusterSystem.steps_le_run hrun (ClusterSystem.violation_of_failure hf)⟩
  · exact fun ⟨hv, hmask, hsteps⟩ => ⟨hv, hmask, Int.ofNat_le.1 hsteps⟩
  · exact fun ⟨hv, hmask, hsteps⟩ => ⟨hv, hmask, Int.ofNat_le.2 hsteps⟩

/-- As much of JSON as a schedule without patterns needs. -/
def emptyListText : JsonText := .only [] "[]" (by decide) (by decide)

end DeterministicRaft
