import DeterministicRaft.Rounds
import DeterministicRaft.Theorems.CleanRuns
import DeterministicRaft.Theorems.Oracle

/-!
# No printed command reproduces a failure

A violation would be replayed by the commands that are printed for it, if no fault that the run reached is suppressed and the budget that
is read reaches it. But a cluster without bug flags violates nothing: all that can fail is the check of its history, which gives up on a
long one, and the replay does not check the history.
-/

namespace DeterministicRaft

open Harness

section Replays

variable {json : JsonText} {R : RandomSource} {random : Int → R.State} {scenario : Scenario Bugs NemesisSchedule}

/-- A cluster without bug flags fails only with its history. -/
theorem nonlinearizable_of_failure (hbugs : scenario.bugs = NO_BUGS) {r : Ran (Supervised R)} {f : Failure}
    (hrun : (supervisedSystem json R random).run scenario.cluster scenario.steps = .ok r)
    (hf : (supervisedSystem json R random).failure r = some f) : f = .nonlinearizable := by
  have hb : scenario.cluster.bugs.Unseen := by
    show scenario.bugs.Unseen
    rw [hbugs]
    rfl
  cases hs : scenario.cluster.settings with
  | error e =>
    rw [run_refused json R random hs] at hrun
    cases hrun
  | ok settings =>
    obtain ⟨r', hr', hnone, -⟩ := run_clean json R random hb hs scenario.steps
    cases hr'.symm.trans hrun
    unfold ClusterSystem.failure at hf
    rw [hnone] at hf
    simp only at hf
    split at hf
    · cases hf
    · exact (Option.some.inj hf).symm

/-- What cannot be read otherwise than a printed command, is replayed without a failure. -/
theorem cmdReplay_printed (hbugs : scenario.bugs = NO_BUGS) {steps : Option Int} {r : Ran (Supervised R)}
    (hrun : (supervisedSystem json R random).run scenario.cluster scenario.steps = .ok r) :
    ∃ events, (supervisedSystem json R random).cmdReplay (withOptions scenario.cluster steps { command := "replay", steps := 20000 }) =
      .verified events := by
  have halike : scenario.cluster.Alike 0 (withOptions scenario.cluster steps { command := "replay", steps := 20000 }).cluster :=
    alike_withOptions hbugs (fun j hj => absurd hj (Nat.not_lt_zero j)) rfl rfl
  obtain ⟨settings, hs⟩ : ∃ settings, (withOptions scenario.cluster steps { command := "replay", steps := 20000 }).cluster.settings =
      .ok settings := by
    rcases halike.settings with ⟨e, ha, -⟩ | ⟨s, nemesis, known, -, hb, -⟩
    · rw [run_refused json R random ha] at hrun
      cases hrun
    · exact ⟨_, hb⟩
  have hb : (withOptions scenario.cluster steps { command := "replay", steps := 20000 }).cluster.bugs.Unseen := rfl
  obtain ⟨r', hr', hnone, -⟩ := run_clean json R random hb hs
    (withOptions scenario.cluster steps { command := "replay", steps := 20000 }).steps
  refine ⟨((supervisedSystem json R random).trace r'.state).length, ?_⟩
  unfold ClusterSystem.cmdReplay
  simp only [hr', hnone, if_pos]

end Replays

/-- Which printed commands reproduce a failure without injected bugs. For any system of clusters: only violations are reproduced, and only
if none of the faults that the run reached is suppressed; the hint moreover only if twenty thousand steps reach the violation. The real
cluster has no such failure: what fails is the check of the history, and whatever is printed for it is read as a replay that reports no
failure. -/
theorem printedCommands_reproduce (json : JsonText) (scenario : Scenario Bugs NemesisSchedule) (hbugs : scenario.bugs = NO_BUGS)
    (hjson : ∀ schedule, scenario.nemesis = some schedule → json.Faithful schedule.value) :
    (∀ (sys : ClusterSystem) (r : Ran sys.State) (f : Failure), sys.run scenario.cluster scenario.steps = .ok r → sys.failure r = some f →
      (Reproduces json sys scenario r f (scenario.replayCommand json) ↔
        (∃ v, f = .violated v) ∧ ∀ j < sys.faultCount r.state, j ∉ scenario.suppressed) ∧
      (Reproduces json sys scenario r f (scenario.cluster.replayHint json) ↔
        (∃ v, f = .violated v) ∧ (∀ j < sys.faultCount r.state, j ∉ scenario.suppressed) ∧ r.steps ≤ 20000)) ∧
    ∀ (R : RandomSource) (random : Int → R.State) (r : Ran (Supervised R)) (f : Failure),
      (supervisedSystem json R random).run scenario.cluster scenario.steps = .ok r →
      (supervisedSystem json R random).failure r = some f → f = .nonlinearizable ∧
      ∀ command ∈ [scenario.replayCommand json, scenario.cluster.replayHint json],
        ¬Reproduces json (supervisedSystem json R random) scenario r f command ∧
        ∃ ns events, parseLine json command = .ok ns ∧ (supervisedSystem json R random).cmdReplay ns = .verified events := by
  refine ⟨fun sys r f hrun hf => ?_, fun R random r f hrun hf => ?_⟩
  · exact reproduces_commands hbugs hjson hrun hf
  · have hhistory := nonlinearizable_of_failure hbugs hrun hf
    have hnone : ¬∃ v, f = .violated v := by
      rw [hhistory]
      rintro ⟨v, hv⟩
      cases hv
    have hread : ∀ steps, ∃ ns events, parseLine json (pyJoin " " ((printed json scenario.cluster steps).map Prod.fst)) = .ok ns ∧
        (supervisedSystem json R random).cmdReplay ns = .verified events := by
      intro steps
      obtain ⟨s, hmake, -⟩ := ClusterSystem.run_eq_ok.1 hrun
      obtain ⟨events, hevents⟩ := @cmdReplay_printed json R random scenario hbugs steps r hrun
      exact ⟨_, events, parseLine_printed ((supervisedSystem json R random).known hmake) hjson, hevents⟩
    obtain ⟨hcommand, hhint⟩ := reproduces_commands hbugs hjson hrun hf
    refine ⟨hhistory, List.forall_mem_cons.2 ⟨⟨fun h => hnone (hcommand.1 h).1, ?_⟩, List.forall_mem_cons.2
      ⟨⟨fun h => hnone (hhint.1 h).1, ?_⟩, fun _ h => absurd h List.not_mem_nil⟩⟩⟩
    · rw [replayCommand_eq]
      exact hread _
    · rw [replayHint_eq]
      exact hread none

/-! ## A run that is too long for the oracle -/

section Lasting

variable {json : JsonText} {R : RandomSource} {random : Int → R.State} {a : ClusterArgs} {settings : Settings}

/-- The steps of a run without a violation. -/
theorem after_runFor (hs : a.settings = .ok settings) {n : ℕ} : ∀ {s : Supervised R} {r : Ran (Supervised R)},
    (supervisedSystem json R random).runFor a n s = .ok r → r.violation = none → r.steps = n →
      After settings n s.harness r.state.harness := by
  induction n with
  | zero =>
    intro s r h _ _
    cases h
    rfl
  | succ n ih =>
    intro s r h hv hn
    rcases ClusterSystem.runFor_cases h with ⟨s', r', hstep, hr, rfl⟩ | ⟨s', -, rfl⟩ | ⟨v, s', -, rfl⟩
    · have hstep' : s.step settings = .next s' := by
        simp only [supervisedSystem, hs] at hstep
        exact hstep
      have hmid : s.harness.step settings = .ok (true, s'.harness) := by
        unfold Supervised.step at hstep'
        split at hstep'
        · cases hstep'
        · cases hstep'
        · rename_i harness hharness
          split at hstep' <;> cases hstep'
          exact hharness
      exact .cons hmid (@ih s' r' hr hv (Nat.succ.inj (show r'.steps.succ = n.succ from hn)))
    · cases hn
    · cases hv

/-- A scenario of two servers without faults. -/
def lasting (steps : Int) : Scenario Bugs NemesisSchedule where
  nodes := 2
  seed := 0
  faults := "none"
  steps := steps
  bugs := NO_BUGS
  nemesis := none

/-- The clusters of `Cluster(…)`, on the same random numbers for each seed. -/
abbrev briskSystem (json : JsonText) : ClusterSystem := supervisedSystem json brisk fun _ => (0 : ℕ)

/-- It completes an operation every twelve steps, and violates nothing. -/
theorem lasting_completes (json : JsonText) (steps : Int) (n : ℕ) (hn : steps = 43 + 12 * n) :
    ∃ r : Ran (Supervised brisk), (briskSystem json).run (lasting steps).cluster steps = .ok r ∧ r.violation = none ∧
      (r.state.harness.cluster.history.filter HistoryEntry.completed).length = 3 + n := by
  have hs : (lasting steps).cluster.settings = .ok undisturbed := rfl
  have hb : (lasting steps).cluster.bugs.Unseen := rfl
  obtain ⟨r, hr, hnone, hsteps, -⟩ := run_clean json brisk (fun _ => (0 : ℕ)) hb hs steps
  refine ⟨r, hr, hnone, ?_⟩
  obtain ⟨s, hmake, hfor⟩ := ClusterSystem.run_eq_ok.1 hr
  obtain ⟨first, mid, hfirst, hgo, hmid⟩ := Harness.starts
  obtain ⟨after, hgo', hafter⟩ := hmid.goes_on n
  have hstart : s.harness = first := by
    simp only [supervisedSystem, hs, bind, Except.bind, hfirst] at hmake
    cases hmake
    rfl
  have hlen : steps.toNat = 43 + 12 * n := by omega
  rw [hlen] at hfor hsteps
  have hrun := after_runFor hs hfor hnone hsteps
  rw [hstart] at hrun
  have hsame : r.state.harness = after := Option.some.inj (hrun.symm.trans (hgo.trans hgo'))
  obtain ⟨_, L, ls, fs, s1, s2, s3, hpaced, -⟩ := hafter
  have hall : after.cluster.history.filter HistoryEntry.completed = after.cluster.history :=
    List.filter_eq_self.2 hpaced.idle.completed
  rw [hsame, hall, hpaced.idle.rows]

/-- After six million steps the oracle gives up on its history. -/
theorem lasting_fails (json : JsonText) : ∃ r : Ran (Supervised brisk),
    (briskSystem json).run (lasting 6000019).cluster (lasting 6000019).steps = .ok r ∧
      (briskSystem json).failure r = some .nonlinearizable := by
  obtain ⟨r, hr, hnone, hlen⟩ := lasting_completes json 6000019 499998 (by omega)
  refine ⟨r, hr, ?_⟩
  have hlong : ¬(Linearizability.check r.state.harness.cluster.history none 500000).linearizable = true := by
    intro h
    have hle := Linearizability.completed_le_budget h
    rw [hlen] at hle
    exact absurd hle (by decide)
  unfold ClusterSystem.failure
  rw [hnone]
  exact if_neg hlong

end Lasting

/-- What is printed for it. -/
example : (lasting 6000019).replayCommand emptyListText =
    "deterministic_raft replay --nodes 2 --seed 0 --faults none --steps 6000019" := by
  decide +kernel

/-- Both commands for the run of two servers without faults are replayed without a failure. -/
theorem printedCommands_reproduce_lasting : ∃ r f, (briskSystem emptyListText).run (lasting 6000019).cluster (lasting 6000019).steps = .ok r ∧
    (briskSystem emptyListText).failure r = some f ∧ f = .nonlinearizable ∧
    ∀ command ∈ [(lasting 6000019).replayCommand emptyListText, (lasting 6000019).cluster.replayHint emptyListText],
      ¬Reproduces emptyListText (briskSystem emptyListText) (lasting 6000019) r f command ∧
      ∃ ns events, parseLine emptyListText command = .ok ns ∧ (briskSystem emptyListText).cmdReplay ns = .verified events := by
  obtain ⟨r, hrun, hfailure⟩ := lasting_fails emptyListText
  have hall := (printedCommands_reproduce emptyListText (lasting 6000019) rfl (fun _ h => by cases h)).2 brisk (fun _ => (0 : ℕ)) r _ hrun
    hfailure
  exact ⟨r, _, hrun, hfailure, hall⟩

/-- Neither printed command reproduces the failure of the run of two servers without faults. -/
theorem printedCommands_not_reproduce : ∃ r f,
    (briskSystem emptyListText).run (lasting 6000019).cluster (lasting 6000019).steps = .ok r ∧
    (briskSystem emptyListText).failure r = some f ∧
    ¬Reproduces emptyListText (briskSystem emptyListText) (lasting 6000019) r f ((lasting 6000019).replayCommand emptyListText) ∧
    ¬Reproduces emptyListText (briskSystem emptyListText) (lasting 6000019) r f ((lasting 6000019).cluster.replayHint emptyListText) := by
  obtain ⟨r, hrun, hfailure⟩ := lasting_fails emptyListText
  have hnone : ¬∃ v, Failure.nonlinearizable = .violated v := by
    rintro ⟨v, hv⟩
    cases hv
  obtain ⟨hcommand, hhint⟩ := reproduces_commands rfl (fun _ h => by cases h) hrun hfailure
  exact ⟨r, _, hrun, hfailure, fun h => hnone (hcommand.1 h).1, fun h => hnone (hhint.1 h).1⟩

end DeterministicRaft
