import DeterministicRaft.Supervised
import DeterministicRaft.Theorems.Replay
import DeterministicRaft.Theorems.Shrink
import DeterministicRaft.Walks

/-!
# The step budget of a counterexample

A run with a larger budget goes on where one with a smaller budget stops, unless it has violated an invariant by then. So the binary search
for the budget raises nothing, and for an invariant it finds the least budget. Whether a history is linearizable can change back and
forth with the budget: then what it finds is a budget before which the failure is not reproduced.
-/

namespace DeterministicRaft

/-- No invariant is called like the other failure. -/
theorem Violation.invariant_ne (v : Violation) : v.invariant ≠ "nonlinearizable" := by
  cases v <;> simp [Violation.invariant]

namespace ClusterSystem

variable {sys : ClusterSystem} {a : ClusterArgs} {scenario : Scenario Bugs NemesisSchedule} {target : String}

/-! ## Budgets -/

/-- What a run gets through, it gets through with a smaller budget. -/
theorem runFor_prefix {n : ℕ} : ∀ {m : ℕ} {s : sys.State} {r : Ran sys.State}, sys.runFor a n s = .ok r → m ≤ n →
    ∃ r', sys.runFor a m s = .ok r' := by
  induction n with
  | zero =>
    intro m s r h hm
    rw [Nat.le_zero.1 hm]
    exact ⟨r, h⟩
  | succ n ih =>
    intro m s r h hm
    cases m with
    | zero => exact ⟨_, rfl⟩
    | succ m =>
      rcases runFor_cases h with ⟨s', r', hstep, hr, -⟩ | ⟨s', hstep, -⟩ | ⟨v, s', hstep, -⟩
      · obtain ⟨r'', hr''⟩ := ih hr (Nat.le_of_succ_le_succ hm)
        exact ⟨_, runFor_next hstep hr''⟩
      · exact ⟨{ state := s', steps := 0, violation := none }, by rw [runFor, hstep]⟩
      · exact ⟨{ state := s', steps := 1, violation := some v }, by rw [runFor, hstep]⟩

theorem run_prefix {n m : Int} {r : Ran sys.State} (h : sys.run a n = .ok r) (hm : m ≤ n) : ∃ r', sys.run a m = .ok r' := by
  obtain ⟨s, hs, hr⟩ := run_eq_ok.1 h
  obtain ⟨r', hr'⟩ := runFor_prefix hr (Int.toNat_le_toNat hm)
  exact ⟨r', run_eq_ok.2 ⟨s, hs, hr'⟩⟩

theorem failureSignature_eq_ok {signature : Option String} : sys.failureSignature scenario = .ok signature ↔
    ∃ r, sys.run scenario.cluster scenario.steps = .ok r ∧ (sys.failure r).map Failure.signature = signature := by
  unfold failureSignature
  cases sys.run scenario.cluster scenario.steps with
  | error e =>
    refine ⟨fun h => ?_, fun ⟨r, h, _⟩ => ?_⟩
    · cases h
    · cases h
  | ok r =>
    refine ⟨fun h => ⟨r, rfl, Except.ok.inj h⟩, fun ⟨r', hr, h⟩ => ?_⟩
    cases hr
    exact congrArg Except.ok h

/-- With a smaller budget nothing is raised either. -/
theorem failureSignature_prefix {signature : Option String} (h : sys.failureSignature scenario = .ok signature) {m : Int}
    (hm : m ≤ scenario.steps) : ∃ signature', sys.failureSignature { scenario with steps := m } = .ok signature' := by
  obtain ⟨r, hr, -⟩ := failureSignature_eq_ok.1 h
  obtain ⟨r', hr'⟩ := run_prefix hr hm
  exact ⟨_, failureSignature_eq_ok.2 ⟨r', hr', rfl⟩⟩

/-- A run whose failure is called like an invariant has ended with a violation of it. -/
theorem violation_of_signature {r : Ran sys.State} {violation : Violation}
    (h : (sys.failure r).map Failure.signature = some violation.invariant) : ∃ v, r.violation = some v := by
  obtain ⟨f, hf, hname⟩ := Option.map_eq_some_iff.1 h
  cases f with
  | violated v => exact ⟨v, violation_of_failure hf⟩
  | nonlinearizable => exact absurd hname.symm violation.invariant_ne

/-- A larger budget reproduces a violation as well. -/
theorem failureSignature_mono {violation : Violation} (h : sys.failureSignature scenario = .ok (some violation.invariant)) {m : Int}
    (hm : scenario.steps ≤ m) : sys.failureSignature { scenario with steps := m } = .ok (some violation.invariant) := by
  obtain ⟨r, hr, hname⟩ := failureSignature_eq_ok.1 h
  obtain ⟨v, hv⟩ := violation_of_signature hname
  have hsame : scenario.cluster.Alike (sys.faultCount r.state) scenario.cluster := ⟨rfl, rfl, rfl, rfl, rfl, rfl, fun _ _ => Iff.rfl⟩
  exact failureSignature_eq_ok.2 ⟨r, run_alike hr hv ((steps_le_run hr hv).trans hm) hsame, hname⟩

/-- Without a step there is nothing that could fail, if a cluster that has just been made has no history. -/
theorem one_le_steps (hfresh : ∀ a s, sys.make a = .ok s → sys.history s = [])
    (h : sys.failureSignature scenario = .ok (some target)) : 1 ≤ scenario.steps := by
  by_contra hs
  obtain ⟨r, hr, hname⟩ := failureSignature_eq_ok.1 h
  obtain ⟨s, hmake, hrun⟩ := run_eq_ok.1 hr
  rw [show scenario.steps.toNat = 0 from by omega] at hrun
  cases hrun
  rw [failure] at hname
  simp only [hfresh _ s hmake] at hname
  cases hname

/-! ## The search -/

/-- Whether the failure is reproduced with a budget. -/
def reproducedWith (sys : ClusterSystem) (scenario : Scenario Bugs NemesisSchedule) (target : String) (steps : Int) : Bool :=
  decide (sys.failureSignature { scenario with steps } = .ok (some target))

/-- As long as no budget is larger than one that a run gets through, an iteration raises nothing. -/
theorem minStepsIteration_eq {signature : Option String} (h : sys.failureSignature scenario = .ok signature) (target : String)
    {s : Int × Int} (hs : s.1 ≤ s.2 ∧ s.2 ≤ scenario.steps) :
    sys.minStepsIteration scenario target s = (minStepsRound (sys.reproducedWith scenario target) s).map .ok id := by
  obtain ⟨lo, hi⟩ := s
  unfold minStepsIteration minStepsRound
  simp only at hs ⊢
  by_cases hlt : lo < hi
  · have hmid : (lo + hi) / 2 ≤ scenario.steps := by omega
    obtain ⟨signature', hmid⟩ := failureSignature_prefix h hmid
    simp only [if_pos hlt, reproducedWith, hmid]
    by_cases hsame : signature' = some target
    · simp only [hsame, if_true, decide_true, Sum.map_inr, id_eq]
    · have hne : (Except.ok signature' : Except SimError (Option String)) ≠ .ok (some target) := fun he => hsame (Except.ok.inj he)
      simp only [if_neg hsame, decide_eq_false hne, Bool.false_eq_true, if_false, Sum.map_inr, id_eq]
  · simp only [if_neg hlt, Sum.map_inl]

/-- The search comes to an end, and raises nothing. -/
theorem minSteps_ends {signature : Option String} (h : sys.failureSignature scenario = .ok signature) (hs : 1 ≤ scenario.steps)
    (target : String) : ∃ r, WhileLoop.run (minStepsRound (sys.reproducedWith scenario target)) (scenario.steps.toNat + 1)
      (1, scenario.steps) = some r ∧ WhileLoop.run (sys.minStepsIteration scenario target) (scenario.steps.toNat + 1)
      (1, scenario.steps) = some (.ok r) := by
  obtain ⟨r, hr⟩ := Option.isSome_iff_exists.1 (minSteps_isSome (sys.reproducedWith scenario target) scenario.steps)
  refine ⟨r, hr, ?_⟩
  rw [WhileLoop.run_map (fun s => s.1 ≤ s.2 ∧ s.2 ≤ scenario.steps) Except.ok ?_ (fun s hs => minStepsIteration_eq h target hs)
    ⟨hs, le_rfl⟩, hr, Option.map_some]
  rintro ⟨lo, hi⟩ ⟨lo', hi'⟩ ⟨hle, hhi⟩ hround
  unfold minStepsRound at hround
  simp only at hle hhi hround ⊢
  split at hround
  · split at hround
    · cases hround
      exact ⟨by omega, by omega⟩
    · cases hround
      exact ⟨by omega, hhi⟩
  · cases hround

/-- The budget reproduces the failure, and the one before it does not; if the failure is the violation of an invariant no smaller budget
does. A run with such a budget raises nothing else. -/
structure ExactBudget (sys : ClusterSystem) (scenario : Scenario Bugs NemesisSchedule) (target : String) (r : Int) : Prop where
  pos : 1 ≤ r
  le : r ≤ scenario.steps
  reproduces : sys.failureSignature { scenario with steps := r } = .ok (some target)
  before : 1 < r → ∃ signature, signature ≠ some target ∧ sys.failureSignature { scenario with steps := r - 1 } = .ok signature
  least : (∃ violation : Violation, violation.invariant = target) → ∀ m < r, ∃ signature, signature ≠ some target ∧
    sys.failureSignature { scenario with steps := m } = .ok signature

/-- The budget that the search finds. -/
theorem minSteps_exactBudget (hfresh : ∀ a s, sys.make a = .ok s → sys.history s = [])
    (h : sys.failureSignature scenario = .ok (some target)) : ∃ r, sys.ExactBudget scenario target r ∧
      WhileLoop.run (sys.minStepsIteration scenario target) (scenario.steps.toNat + 1) (1, scenario.steps) = some (.ok r) := by
  have hs := one_le_steps hfresh h
  obtain ⟨r, hbool, hrun⟩ := minSteps_ends h hs target
  obtain ⟨hpos, hle, hrep, hprev⟩ := minStepsRound_post hs (decide_eq_true h) hbool
  have hrep : sys.failureSignature { scenario with steps := r } = .ok (some target) := of_decide_eq_true hrep
  have hother : ∀ m < r, sys.failureSignature { scenario with steps := m } ≠ .ok (some target) →
      ∃ signature, signature ≠ some target ∧ sys.failureSignature { scenario with steps := m } = .ok signature := by
    intro m hm hne
    obtain ⟨signature, hsig⟩ := failureSignature_prefix h (show m ≤ scenario.steps by omega)
    refine ⟨signature, fun he => hne ?_, hsig⟩
    rw [hsig, he]
  refine ⟨r, ⟨hpos, hle, hrep, fun hlt => ?_, ?_⟩, hrun⟩
  · exact hother (r - 1) (by omega) (of_decide_eq_false (hprev hlt))
  · rintro ⟨violation, rfl⟩ m hm
    refine hother m hm fun hmrep => ?_
    have hpos : 1 ≤ m := one_le_steps hfresh hmrep
    have hlast : sys.failureSignature { scenario with steps := r - 1 } = .ok (some violation.invariant) :=
      failureSignature_mono hmrep (Int.le_sub_one_of_lt hm)
    exact of_decide_eq_false (hprev (by omega)) hlast

end ClusterSystem

/-! ## Clusters -/

/-- The clients of a cluster that has just been made have done nothing. -/
theorem history_supervisedSystem (json : JsonText) (R : RandomSource) (random : Int → R.State) {a : ClusterArgs} {s : Supervised R}
    (h : (supervisedSystem json R random).make a = .ok s) : (supervisedSystem json R random).history s = [] := by
  obtain ⟨settings, -, h⟩ := Refinement.bind_eq_ok.1 h
  obtain ⟨harness, hinit, hs⟩ := Refinement.bind_eq_ok.1 h
  cases hs
  have hcluster : harness.cluster = { world := settings.world } :=
    Harness.init_ensures (fun _ _ ha hc => ha.cluster.trans hc) (random a.seed) (Harness.follow_cluster _ _) _ hinit
  exact congrArg Cluster.history hcluster

/-- The search for the step budget ends, however long it may go on, and raises nothing. It returns a budget that reproduces the failure
while the one before it does not; if the failure is the violation of an invariant no smaller budget reproduces it. -/
theorem minSteps_exact (json : JsonText) (R : RandomSource) (random : Int → R.State) (scenario : Scenario Bugs NemesisSchedule)
    (target : String) (h : (supervisedSystem json R random).failureSignature scenario = .ok (some target)) :
    ∃ r, (supervisedSystem json R random).minSteps scenario target = .ok r ∧
      (∀ fuel > scenario.steps.toNat, WhileLoop.run ((supervisedSystem json R random).minStepsIteration scenario target) fuel
        (1, scenario.steps) = some (.ok r)) ∧
      (supervisedSystem json R random).ExactBudget scenario target r := by
  obtain ⟨r, hexact, hrun⟩ := ClusterSystem.minSteps_exactBudget (fun _ _ => history_supervisedSystem json R random) h
  refine ⟨r, ?_, fun fuel hfuel => WhileLoop.run_mono hrun hfuel, hexact⟩
  unfold ClusterSystem.minSteps
  simp only [hrun, Option.get_some]

/-- Two nodes that let their commit index go back, under that source. -/
def regressing : Scenario Bugs NemesisSchedule where
  nodes := 2
  seed := 631
  faults := "chaos"
  steps := 28
  bugs := { NO_BUGS with allowCommitRegression := true }

/-- The commit index has gone back by the last step of the budget, and the search finds the first budget at which it has. -/
theorem minSteps_exact_regressing : ∃ r : Int, r ≤ 28 ∧
    (supervisedSystem emptyListText congruential id).minSteps regressing "CommitIndexMonotonic" = .ok r ∧
    ∀ m < r, ∃ signature, signature ≠ some "CommitIndexMonotonic" ∧
      (supervisedSystem emptyListText congruential id).failureSignature { regressing with steps := m } = .ok signature := by
  obtain ⟨r, hr, -, hexact⟩ := minSteps_exact emptyListText congruential id regressing "CommitIndexMonotonic" (by decide +kernel)
  exact ⟨r, hexact.le, hr, hexact.least ⟨.commitIndexMonotonic 0 0 0, rfl⟩⟩

end DeterministicRaft
