import DeterministicRaft.Windows

/-!
# Are the windows of a fault schedule honoured?

They are, unless an injection fires at the very instant at which an earlier fault of its target is to end: injections are scheduled
up-front, so that the recovery comes after it and undoes it.
-/

namespace DeterministicRaft

/-! ## Runs -/

/-- Every injection of a schedule is in force for some time. -/
theorem Settings.length_pos (settings : Settings) {y : Injection} (hy : y ∈ settings.injections) : 0 < y.op.length := by
  unfold Settings.injections at hy
  cases hn : settings.nemesis with
  | none =>
    rw [hn] at hy
    cases hy
  | some schedule =>
    rw [hn] at hy
    have hy := List.mem_flatMap.1 ((List.perm_insertionSort _ _).mem_iff.1 hy)
    obtain ⟨op, hop, hy⟩ := hy
    have hv := schedule.valid op hop
    have he : y.op = op := by
      unfold NemesisSchedule.expand at hy
      split at hy
      · obtain ⟨i, -, rfl⟩ := List.mem_map.1 hy
        rfl
      · rw [List.mem_singleton.1 hy]
    rw [he]
    cases op with
    | partitionHalves => exact hv.2
    | isolateLeader => exact hv.2
    | flappingLink => exact hv.2.2.1
    | lossyLink => exact hv.2.1.2
    | crashNode => exact hv.2.2

namespace HarnessRun

variable {settings : Settings} {R : RandomSource} (run : HarnessRun settings R)

/-- The event from moment `k` on fires the injection. -/
def Fires (k : ℕ) (injection : Injection) : Prop := (run.state k).next? = some (.nemesisFire injection)

/-- Injections fire at their declared times. Those that have a target take effect: at every event before the end of the window the
fault is in force, and an event at the very end lifts it. -/
structure WindowsHonoured : Prop where
  fires : ∀ y ∈ settings.injections, ∀ k ≤ run.length, y.at_ < run.now k → ∃ j < k, run.Fires j y
  onTime : ∀ k < run.length, ∀ y, run.Fires k y → run.now (k + 1) = y.at_
  inForce : ∀ k < run.length, ∀ y, run.Fires k y → (run.state k).HasTarget settings y.op →
    (run.state (k + 1)).InForce settings (run.state k) y.op ∧
    ∀ j < run.length, k < j → run.now (j + 1) < y.stop →
      (run.state j).InForce settings (run.state k) y.op ∧ (run.state (j + 1)).InForce settings (run.state k) y.op
  lifted : ∀ k < run.length, ∀ y, run.Fires k y → (run.state k).HasTarget settings y.op →
    ∀ m ≤ run.length, y.stop < run.now m → ∃ j < m, k < j ∧ run.now (j + 1) = y.stop ∧
      Harness.Lifted settings (run.state (j + 1)) y.op.target

/-- No injection fires at an instant for which a recovery of its target is still due. -/
def Unopposed : Prop := ∀ k < run.length, ∀ y, run.Fires k y →
  ∀ x ∈ (run.state k).pending, x.2.ends = some y.op.target → x.1 ≠ y.at_

variable {run}

/-- What has fired, and what is due, at each moment. -/
theorem scheduled (hf : settings.faults = .none) (hs : settings.suppressed = ∅) {k : ℕ} (hk : k ≤ run.length) :
    ∃ fired, Harness.Scheduled settings fired (run.state k) := by
  induction k with
  | zero => exact ⟨[], Harness.init_scheduled hf run.seed _ run.start⟩
  | succ k ih =>
    obtain ⟨fired, h⟩ := ih (by omega)
    obtain ⟨fn, mid, ht⟩ := Harness.takes_of_step hs h.agreed h.noDriver (run.next k (by omega))
    exact ⟨_, h.step ht⟩

/-- The event from moment `k` on. -/
theorem takes (hf : settings.faults = .none) (hs : settings.suppressed = ∅) {k : ℕ} (hk : k < run.length) :
    ∃ fired fn mid, Harness.Scheduled settings fired (run.state k) ∧
      Harness.Takes settings fn (run.state k) mid (run.state (k + 1)) ∧ mid.sim.clock.now = run.now (k + 1) := by
  obtain ⟨fired, h⟩ := scheduled hf hs hk.le
  obtain ⟨fn, mid, ht⟩ := Harness.takes_of_step hs h.agreed h.noDriver (run.next k hk)
  exact ⟨fired, fn, mid, h, ht, ht.happens.leaves.now.symm⟩

/-- Time does not go back. -/
theorem now_mono (hf : settings.faults = .none) (hs : settings.suppressed = ∅) {i j : ℕ} (hij : i ≤ j) (hj : j ≤ run.length) :
    run.now i ≤ run.now j := by
  induction j, hij using Nat.le_induction with
  | base => exact le_rfl
  | succ j _ ih =>
    obtain ⟨_, _, mid, _, ht, hnow⟩ := takes hf hs (Nat.lt_of_succ_le hj)
    exact (ih (by omega)).trans (ht.now_le.trans hnow.le)

variable (hf : settings.faults = .none) (hs : settings.suppressed = ∅)

include hf hs

/-- An injection that fires has its own time. -/
theorem onTime {k : ℕ} (hk : k < run.length) {y : Injection} (hy : run.Fires k y) : run.now (k + 1) = y.at_ := by
  obtain ⟨fired, fn, mid, h, ht, hnow⟩ := takes hf hs hk
  have hfn : fn = .nemesisFire y := Option.some.inj (ht.next?.symm.trans hy)
  subst hfn
  rw [← hnow]
  exact h.due _ y ht.head

/-- An injection is due until it fires. -/
theorem fires_before {k : ℕ} (hk : k ≤ run.length) {y : Injection} (hy : y ∈ settings.injections) :
    y ∈ (run.state k).awaiting ∨ ∃ j < k, run.Fires j y := by
  induction k with
  | zero =>
    have h := Harness.init_scheduled hf run.seed _ run.start
    exact Or.inl (h.account.mem_iff.2 hy)
  | succ k ih =>
    rcases ih (by omega) with hw | ⟨j, hj, hfires⟩
    · obtain ⟨fired, fn, mid, h, ht, -⟩ := takes hf hs (show k < run.length by omega)
      rw [ht.awaiting] at hw
      rcases List.mem_append.1 hw with hw | hw
      · refine Or.inr ⟨k, by omega, ?_⟩
        rw [Option.mem_toList, Callback.injection_eq] at hw
        rw [Fires, ht.next?, hw]
      · exact Or.inl (ht.happens.leaves.awaiting.mem_iff.2 hw)
    · exact Or.inr ⟨j, by omega, hfires⟩

/-- The window of an injection that has taken effect is open until an event at its end closes it. -/
theorem open_until (hd : settings.injections.Pairwise Injection.Apart) (hopen : run.Unopposed) {k : ℕ} (hk : k < run.length)
    {y : Injection} (hy : run.Fires k y) (htarget : (run.state k).HasTarget settings y.op) {m : ℕ} (hkm : k + 1 ≤ m)
    (hm : m ≤ run.length) : Harness.Holding settings (run.state k) y (run.state m) ∨
      ∃ j < m, k < j ∧ run.now (j + 1) = y.stop ∧ Harness.Lifted settings (run.state (j + 1)) y.op.target ∧
        ∀ i ≤ j, k < i → Harness.Holding settings (run.state k) y (run.state i) := by
  suffices hall : ∀ m, k + 1 ≤ m → m ≤ run.length →
      (∀ i ≤ m, k < i → Harness.Holding settings (run.state k) y (run.state i)) ∨
      ∃ j < m, k < j ∧ run.now (j + 1) = y.stop ∧ Harness.Lifted settings (run.state (j + 1)) y.op.target ∧
        ∀ i ≤ j, k < i → Harness.Holding settings (run.state k) y (run.state i) from
    (hall m hkm hm).imp_left fun h => h m le_rfl hkm
  intro m hkm
  induction m, hkm using Nat.le_induction with
  | base =>
    intro _
    obtain ⟨fired, fn, mid, h, ht, -⟩ := takes hf hs hk
    have hfn : fn = .nemesisFire y := Option.some.inj (ht.next?.symm.trans hy)
    subst hfn
    have hready := h.ready hd (fun _ => settings.length_pos) ht (hopen k hk y hy) htarget
    have hhappens := ht.happens
    have hholds : Harness.Holding settings (run.state k) y (run.state (k + 1)) := by
      cases hhappens with
      | plain hfn => exact hfn.elim
      | ended hfn => cases hfn
      | fired hfired =>
        rcases hfired with ⟨-, hi⟩ | ⟨hnot, -⟩
        · exact .of_injected h hd (fun _ => settings.length_pos) ht (hopen k hk y hy) hi
        · exact absurd hready hnot
    refine Or.inl fun i hi hki => ?_
    rwa [show i = k + 1 by omega]
  | succ m hkm ih =>
    intro hm
    rcases ih (by omega) with hall | ⟨j, hj, hrest⟩
    · obtain ⟨fired, fn, mid, h, ht, hnow⟩ := takes hf hs (show m < run.length by omega)
      have hopen' : ∀ z, fn = .nemesisFire z → ∀ x ∈ (run.state m).pending, x.2.ends = some z.op.target →
          x.1 ≠ mid.sim.clock.now := by
        rintro z rfl x hx he
        rw [h.due _ z ht.head]
        exact hopen m (by omega) z ht.next? x hx he
      rcases (hall m le_rfl (by omega)).step ht hopen' with hholds | ⟨hstop, hlifted⟩
      · refine Or.inl fun i hi hki => ?_
        rcases Nat.lt_or_ge m i with hlt | hge
        · rwa [show i = m + 1 by omega]
        · exact hall i hge hki
      · exact Or.inr ⟨m, by omega, by omega, hnow.symm.trans hstop, hlifted, hall⟩
    · exact Or.inr ⟨j, by omega, hrest⟩

end HarnessRun

/-- In every run with no other faults, in which the windows on each target do not overlap and no injection fires at an instant for
which a recovery of its target is still due, the windows are honoured. -/
theorem windows_honoured {settings : Settings} {R : RandomSource} (run : HarnessRun settings R) (hf : settings.faults = .none)
    (hs : settings.suppressed = ∅) (hd : settings.injections.Pairwise Injection.Apart) (hopen : run.Unopposed) :
    run.WindowsHonoured where
  fires y hy k hk hnow := by
    rcases HarnessRun.fires_before hf hs hk hy with hw | hfires
    · obtain ⟨t, ht⟩ := Harness.mem_awaiting.1 hw
      obtain ⟨fired, h⟩ := HarnessRun.scheduled hf hs hk
      have hdue := h.due t y ht
      have htime : run.now k ≤ t := Clock.timely_pending (c := (run.state k).sim.clock) ht
      omega
    · exact hfires
  onTime k hk y hy := HarnessRun.onTime hf hs hk hy
  inForce k hk y hy htarget := by
    have hopened := fun {m} => HarnessRun.open_until hf hs hd hopen hk hy htarget (m := m)
    have hholds : ∀ m ≤ run.length, k < m → run.now m < y.stop → Harness.Holding settings (run.state k) y (run.state m) := by
      intro m hm hkm hlt
      rcases hopened hkm hm with h | ⟨j, hj, -, hstop, -⟩
      · exact h
      · have hle : run.now (j + 1) ≤ run.now m := HarnessRun.now_mono hf hs hj hm
        omega
    refine ⟨?_, fun j hj hkj hlt => ?_⟩
    · refine (hholds (k + 1) hk (Nat.lt_succ_self k) ?_).held.inForce
      have hat := HarnessRun.onTime hf hs hk hy
      have hin : y ∈ settings.injections := by
        obtain ⟨fired, fn, mid, h, ht, -⟩ := HarnessRun.takes hf hs hk
        have hfn : fn = .nemesisFire y := Option.some.inj (ht.next?.symm.trans hy)
        subst hfn
        exact h.mem_injections ht.head
      have hpos := settings.length_pos hin
      rw [hat, Injection.stop]
      omega
    · have hle : run.now j ≤ run.now (j + 1) := HarnessRun.now_mono hf hs (Nat.le_succ j) hj
      exact ⟨(hholds j hj.le hkj (by omega)).held.inForce, (hholds (j + 1) hj (by omega) hlt).held.inForce⟩
  lifted k hk y hy htarget m hm hnow := by
    have hkm : k + 1 ≤ m := by
      by_contra hlt
      have hle : run.now m ≤ run.now (k + 1) := HarnessRun.now_mono hf hs (by omega) hk
      have hat := HarnessRun.onTime hf hs hk hy
      obtain ⟨fired, fn, mid, h, ht, -⟩ := HarnessRun.takes hf hs hk
      have hfn : fn = .nemesisFire y := Option.some.inj (ht.next?.symm.trans hy)
      subst hfn
      have hpos := settings.length_pos (h.mem_injections ht.head)
      rw [Injection.stop] at hnow
      omega
    rcases HarnessRun.open_until hf hs hd hopen hk hy htarget hkm hm with h | ⟨j, hj, hkj, hstop, hlifted, -⟩
    · have hle : run.now m ≤ y.stop :=
        Clock.timely_pending (c := (run.state m).sim.clock) h.recovery
      omega
    · exact ⟨j, hj, hkj, hstop, hlifted⟩

/-- Between two windows on one target there is some time. -/
def Injection.Separate (x y : Injection) : Prop := x.op.target = y.op.target → x.stop < y.at_ ∨ y.stop < x.at_

/-- Where windows on one target do not even touch, no injection meets a recovery of its target. -/
theorem unopposed_of_separate {settings : Settings} {R : RandomSource} (run : HarnessRun settings R) (hf : settings.faults = .none)
    (hs : settings.suppressed = ∅) (hd : settings.injections.Pairwise Injection.Separate) : run.Unopposed := by
  intro k hk y hy x hx he hat
  obtain ⟨fired, fn, mid, h, ht, -⟩ := HarnessRun.takes hf hs hk
  have hfn : fn = .nemesisFire y := Option.some.inj (ht.next?.symm.trans hy)
  subst hfn
  have hpair := (h.account.pairwise_iff fun hxy ht => (hxy ht.symm).symm).2 hd
  rw [ht.awaiting, List.pairwise_append] at hpair
  obtain ⟨earlier, hfired, htarget, hstop⟩ := h.ends x hx _ he
  have hpast := h.past earlier hfired
  have hpos := settings.length_pos (h.mem_injections ht.head)
  have hdue := h.due _ y ht.head
  have hnow := ht.now_le
  rcases hpair.2.2 earlier hfired y List.mem_cons_self htarget with hlt | hlt
  · omega
  · rw [Injection.stop] at hlt
    omega

/-! ## Runs that are given by their settings -/

namespace Harness

variable {R : RandomSource} (settings : Settings) (seed : R.State)

/-- The cluster after some steps, and whether there was an event for each. -/
def afterSteps : ℕ → Except SimError (Bool × Harness R)
  | 0 => do
    let self ← init settings seed
    return (true, self)
  | k + 1 => do
    let last ← afterSteps k
    if last.1 then last.2.step settings else return last

/-- That cluster, if nothing is raised. -/
def stateAfter (k : ℕ) : Harness R :=
  match afterSteps settings seed k with
  | .ok last => last.2
  | .error _ => { cluster := { world := settings.world }, sim := .new seed }

/-- Whether there are that many events. -/
def hasSteps (k : ℕ) : Bool :=
  match afterSteps settings seed k with
  | .ok last => last.1
  | .error _ => false

variable {settings seed}

theorem afterSteps_eq {k : ℕ} (h : hasSteps settings seed k = true) :
    afterSteps settings seed k = .ok (true, stateAfter settings seed k) := by
  unfold hasSteps at h
  unfold stateAfter
  cases hk : afterSteps settings seed k with
  | error e =>
    rw [hk] at h
    cases h
  | ok last =>
    rw [hk] at h
    rw [← show last.1 = true from h]

theorem step_stateAfter {k : ℕ} (h : hasSteps settings seed (k + 1) = true) : hasSteps settings seed k = true ∧
    (stateAfter settings seed k).step settings = .ok (true, stateAfter settings seed (k + 1)) := by
  have hnext := afterSteps_eq h
  rw [afterSteps] at hnext
  cases hk : afterSteps settings seed k with
  | error e =>
    rw [hk] at hnext
    cases hnext
  | ok last =>
    obtain ⟨more, self⟩ := last
    cases more with
    | false =>
      rw [hk] at hnext
      cases hnext
    | true =>
      have hself : stateAfter settings seed k = self := by rw [stateAfter, hk]
      refine ⟨by rw [hasSteps, hk], ?_⟩
      rw [hk] at hnext
      rw [hself]
      exact hnext

theorem hasSteps_of_le {j k : ℕ} (hjk : j ≤ k) (h : hasSteps settings seed k = true) : hasSteps settings seed j = true := by
  induction k, hjk using Nat.le_induction with
  | base => exact h
  | succ k _ ih => exact ih (step_stateAfter h).1

end Harness

/-- The run of so many steps. -/
def HarnessRun.ofSteps {settings : Settings} {R : RandomSource} {seed : R.State} (n : ℕ)
    (h : Harness.hasSteps settings seed n = true) : HarnessRun settings R where
  seed := seed
  length := n
  state := Harness.stateAfter settings seed
  start := by
    have h0 := Harness.afterSteps_eq (Harness.hasSteps_of_le n.zero_le h)
    rw [Harness.afterSteps] at h0
    cases hi : Harness.init settings seed with
    | error e =>
      rw [hi] at h0
      cases h0
    | ok self =>
      rw [hi] at h0
      exact congrArg Except.ok (Prod.mk.inj (Except.ok.inj h0)).2
  next k hk := (Harness.step_stateAfter (Harness.hasSteps_of_le hk h)).2

/-- Its only state. -/
def leastSeed : leastSource.State := ()

/-- Three nodes under a schedule. -/
def threeNodes (ops : List NemesisOp) (valid : ∀ op ∈ ops, op.Valid) (known : (⟨ops, valid⟩ : NemesisSchedule).maxNode < 3) :
    Settings where
  numNodes := 3
  clientInterval := none
  nemesis := some ⟨ops, valid⟩
  someNode := by decide
  spareNode := by decide
  knownVoters _ h := by cases h
  knownNodes _ h := by
    cases h
    exact known

instance (x y : Injection) : Decidable (x.Apart y) := inferInstanceAs (Decidable (_ → _ ∨ _))

instance (x y : Injection) : Decidable (x.Separate y) := inferInstanceAs (Decidable (_ → _ ∨ _))

/-- Two partitions, the second some time after the first, and a link that flaps. -/
def separateWindows : Settings :=
  threeNodes [.partitionHalves 0 10, .partitionHalves 12 10, .flappingLink 0 1 15 1 2] (by decide) (by decide)

/-- The first eight events of the cluster under these patterns. -/
theorem windows_honoured_separate : ∃ run : HarnessRun separateWindows leastSource, run.length = 8 ∧ run.WindowsHonoured := by
  have h : Harness.hasSteps separateWindows leastSeed 8 = true := by decide +kernel
  exact ⟨.ofSteps 8 h, rfl, windows_honoured (.ofSteps 8 h) rfl rfl (by decide)
    (unopposed_of_separate (.ofSteps 8 h) rfl rfl (by decide))⟩

/-- Two partitions, the second from the instant on at which the first ends, and a link that flaps meanwhile. -/
def touchingWindows : Settings :=
  threeNodes [.partitionHalves 0 10, .partitionHalves 10 10, .flappingLink 0 1 15 1 1] (by decide) (by decide)

/-- Windows that touch are not honoured: the second partition is healed at the instant at which it forms. -/
theorem windows_not_honoured : ∃ run : HarnessRun touchingWindows leastSource, touchingWindows.faults = .none ∧
    touchingWindows.suppressed = ∅ ∧ touchingWindows.injections.Pairwise Injection.Apart ∧ ¬run.WindowsHonoured := by
  have h : Harness.hasSteps touchingWindows leastSeed 5 = true := by decide +kernel
  refine ⟨.ofSteps 5 h, rfl, rfl, by decide, fun hw => ?_⟩
  have hfires : (HarnessRun.ofSteps 5 h).Fires 1 ⟨10, .partitionHalves 10 10⟩ := by
    show (Harness.stateAfter touchingWindows leastSeed 1).next? = _
    decide +kernel
  have hnow : (HarnessRun.ofSteps 5 h).now 4 = 15 := by
    show (Harness.stateAfter touchingWindows leastSeed 4).sim.clock.now = 15
    decide +kernel
  have hreach : (Harness.stateAfter touchingWindows leastSeed 3).net.reachable 0 2 = true := by decide +kernel
  have hcut := ((hw.inForce 1 (show 1 < 5 by decide) _ hfires (show 2 ≤ 3 by decide)).2 3 (show 3 < 5 by decide) (by decide)
    (by rw [hnow]; decide)).1 0 (by decide) 2 (by decide)
  rw [show (HarnessRun.ofSteps 5 h).state 3 = Harness.stateAfter touchingWindows leastSeed 3 from rfl, hreach] at hcut
  exact absurd hcut.1 (by decide)

end DeterministicRaft
