import DeterministicRaft.Masks

/-!
# Suppression masks do not perturb what precedes them

Two runs under different masks are the same until the first ordinal on which the masks differ is assigned, and a suppressed injection
leaves no recovery behind.
-/

namespace DeterministicRaft

open Refinement

namespace Harness

variable {R : RandomSource} {settings : Settings}

/-! ## Two runs -/

/-- One step further in a run under two masks. -/
theorem run_masked_step {mask mask' : Finset ℕ} {self after : Harness R} {more : Bool}
    (hmask : ∀ j < after.faultSeq, j ∈ mask ↔ j ∈ mask') (h : self.step (settings.suppressing mask) = .ok (more, after)) :
    self.step (settings.suppressing mask') = .ok (more, after) :=
  @step_masked R (settings.suppressing mask) after.faultSeq mask' settings.nemesis settings.knownNodes
    (fun j hj => (hmask j hj).symm) self after more h (Nat.le_refl _)

/-- A run reaches the same state under a mask that agrees on the ordinals it has assigned. -/
theorem run_masked {seed : R.State} {mask mask' : Finset ℕ} {k : ℕ} {self : Harness R}
    (h : run (settings.suppressing mask) seed k = .ok self) (hmask : ∀ j < self.faultSeq, j ∈ mask ↔ j ∈ mask') :
    run (settings.suppressing mask') seed k = .ok self := by
  induction k generalizing self with
  | zero => exact h
  | succ k ih =>
    unfold run at h ⊢
    cases hrun : run (settings.suppressing mask) seed k with
    | error e =>
      rw [hrun] at h
      cases h
    | ok before =>
      rw [hrun] at h
      simp only [bind, Except.bind] at h
      cases hstep : before.step (settings.suppressing mask) with
      | error e =>
        rw [hstep] at h
        cases h
      | ok done =>
        obtain ⟨more, after⟩ := done
        rw [hstep] at h
        cases h
        have hle : before.faultSeq ≤ after.faultSeq := ordered_step before _ hstep
        rw [ih hrun fun j hj => hmask j (Nat.lt_of_lt_of_le hj hle)]
        simp only [bind, Except.bind, run_masked_step hmask hstep]
        rfl

/-! ## Suppressed injections -/

/-- Nothing has begun or ended, and nothing is due that was not due: there may be lines, draws and ordinals. -/
structure Untouched (before after : Harness R) : Prop where
  clock : after.sim.clock = before.sim.clock
  net : after.net = before.net
  cluster : after.cluster = before.cluster

theorem Untouched.refl (self : Harness R) : self.Untouched self := ⟨rfl, rfl, rfl⟩

theorem Untouched.trans {a b c : Harness R} (h : a.Untouched b) (h' : b.Untouched c) : a.Untouched c :=
  ⟨h'.clock.trans h.clock, h'.net.trans h.net, h'.cluster.trans h.cluster⟩

/-- A suppressed fault takes its ordinal, and nothing else happens. -/
theorem whenFires_suppressed {self : Harness R} (h : self.faultSeq ∈ settings.suppressed)
    (x : Harness R → Except SimError (Harness R)) : Ensures (whenFires settings self x) self.Untouched := by
  unfold whenFires fireFault
  simp only [h, not_true_eq_false, decide_false, Bool.false_eq_true, if_false]
  exact Ensures.pure ⟨rfl, rfl, rfl⟩

/-- A suppressed injection of a schedule. -/
theorem nemesisFire_suppressed {self : Harness R} (h : self.faultSeq ∈ settings.suppressed) (op : NemesisOp) :
    Ensures (self.nemesisFire settings op) self.Untouched := by
  have hrecord : ∀ line, Ensures (.ok (self.record line) : Except SimError (Harness R)) self.Untouched := fun line =>
    Ensures.pure ⟨rfl, rfl, rfl⟩
  unfold nemesisFire
  cases op with
  | partitionHalves at_ duration =>
    simp only
    split
    · exact hrecord _
    · exact whenFires_suppressed h fun s => s.setPartition settings _ >>= fun s => s.schedule duration .healPartition
  | isolateLeader at_ duration =>
    simp only
    split
    · exact hrecord _
    · split
      · exact hrecord _
      · exact whenFires_suppressed h fun s => s.setPartition settings _ >>= fun s => s.schedule duration .healPartition
  | flappingLink a b at_ period cycles => exact whenFires_suppressed h fun s => (s.linkDown a b).schedule period (.linkUp a b)
  | lossyLink a b at_ duration dropP =>
    exact whenFires_suppressed h fun s => (s.setLossyLink a b dropP).schedule duration (.clearLossyLink a b)
  | crashNode node at_ duration =>
    simp only
    split
    · exact hrecord _
    · exact whenFires_suppressed h fun s => s.pause settings node >>= fun s => s.schedule duration (.maybeResume node)

/-- The same up to the position in the stream of random numbers. -/
theorem untouched_randint (self : Harness R) (lo hi : Int) :
    Ensures (self.randint lo hi) fun draw => self.Untouched draw.2 ∧ draw.2.faultSeq = self.faultSeq := by
  unfold Harness.randint Simulator.randint
  split
  · exact fun _ h => nomatch h
  · exact Ensures.pure ⟨⟨rfl, rfl, rfl⟩, rfl⟩

/-- A suppressed crash of the random driver. -/
theorem crashTick_suppressed {self : Harness R} (h : self.faultSeq ∈ settings.suppressed) :
    Ensures (self.crashTick settings) self.Untouched := by
  unfold crashTick
  have hdraw : self.Untouched (if settings.profile.crashes then self.chance (1 / 10) else (false, self)).2 ∧
      (if settings.profile.crashes then self.chance (1 / 10) else (false, self)).2.faultSeq = self.faultSeq := by
    split
    · exact ⟨⟨rfl, rfl, rfl⟩, rfl⟩
    · exact ⟨.refl self, rfl⟩
  generalize (if settings.profile.crashes then self.chance (1 / 10) else (false, self)) = draw at hdraw ⊢
  obtain ⟨crashes, s⟩ := draw
  obtain ⟨hs, hseq⟩ := hdraw
  simp only at hs hseq ⊢
  generalize (if s.net.crashed.card < (settings.numNodes - 1) / 2 then
    settings.ids.filter fun n => (s.cluster.world.nodes n).alive else []) = candidates
  split
  · split
    · exact Ensures.pure hs
    · refine Ensures.bind (Q := fun draw => s.Untouched { s with sim := draw.2 }) ?_ fun draw hd => ?_
      · unfold Simulator.choice
        simp only
        split
        · exact Ensures.pure ⟨rfl, rfl, rfl⟩
        · exact fun _ h => nomatch h
      · obtain ⟨victim, sim⟩ := draw
        refine Ensures.bind (untouched_randint { s with sim } 100 400) fun draw hd' => ?_
        obtain ⟨resumeDelay, mid⟩ := draw
        obtain ⟨hmid, hmidSeq⟩ := hd'
        have hsuppressed : mid.faultSeq ∈ settings.suppressed := by
          rw [show mid.faultSeq = self.faultSeq from hmidSeq.trans hseq]
          exact h
        have hwhen := whenFires_suppressed hsuppressed fun s =>
          s.pause settings victim >>= fun s => s.schedule resumeDelay (.maybeResume victim)
        exact hwhen.mono fun _ hafter => ((hs.trans hd).trans hmid).trans hafter
  · exact Ensures.pure hs

/-- A suppressed partition of the random driver: at most an old partition heals. -/
theorem partitionTick_suppressed {self : Harness R} (h : self.faultSeq ∈ settings.suppressed) :
    Ensures (self.partitionTick settings) fun after => self.Untouched after ∨
      self.Untouched { after with net := self.net } ∧ after.net = self.net.heal settings.ids := by
  unfold partitionTick
  split
  · exact Ensures.pure (Or.inl (.refl self))
  · split
    · refine Ensures.pure ?_
      split
      · exact Or.inr ⟨⟨rfl, rfl, rfl⟩, rfl⟩
      · exact Or.inl ⟨rfl, rfl, rfl⟩
    · simp only
      split
      · have hsides : Ensures (settings.ids.foldlM (fun draw i => do
            let next ← randint draw.2 0 1
            return (draw.1 ++ [(i, next.1)], next.2)) (([], (self.chance (3 / 20)).2) : List (NodeId × Int) × Harness R))
            fun draw => self.Untouched draw.2 ∧ draw.2.faultSeq = self.faultSeq := by
          refine Ensures.foldlM (Q := fun draw : List (NodeId × Int) × Harness R =>
            self.Untouched draw.2 ∧ draw.2.faultSeq = self.faultSeq) (fun draw i hd => ?_) ⟨⟨rfl, rfl, rfl⟩, rfl⟩
          obtain ⟨sides, s⟩ := draw
          exact Ensures.bind (untouched_randint s 0 1) fun draw' hs => Ensures.pure ⟨hd.1.trans hs.1, hs.2.trans hd.2⟩
        refine Ensures.bind hsides fun draw hd => ?_
        obtain ⟨hdraw, hseq⟩ := hd
        split
        · exact Ensures.pure (Or.inl hdraw)
        · refine Ensures.mono (whenFires_suppressed (hseq ▸ h) fun s => s.setPartition settings _) fun _ hafter => ?_
          exact Or.inl (hdraw.trans hafter)
      · exact Ensures.pure (Or.inl ⟨rfl, rfl, rfl⟩)

end Harness

/-! ## The theorem -/

/-- What a mask suppresses is the only difference that it makes: the runs under two masks are in the same state after every step, as
long as the masks agree on the ordinals assigned so far, and so a mask without any of these ordinals gives the unmasked run. A
suppressed injection brings nothing down and leaves no recovery behind. -/
theorem masks_do_not_perturb {R : RandomSource} (settings : Settings) (seed : R.State) (mask mask' : Finset ℕ) :
    (∀ k self, Harness.run (settings.suppressing mask) seed k = .ok self → (∀ j < self.faultSeq, j ∈ mask ↔ j ∈ mask') →
      Harness.run (settings.suppressing mask') seed k = .ok self) ∧
    (∀ k self, Harness.run (settings.suppressing mask) seed k = .ok self → (∀ j < self.faultSeq, j ∉ mask) →
      Harness.run (settings.suppressing ∅) seed k = .ok self) ∧
    (∀ k self, Harness.run (settings.suppressing ∅) seed k = .ok self → (∀ j < self.faultSeq, j ∉ mask) →
      Harness.run (settings.suppressing mask) seed k = .ok self) ∧
    ∀ self : Harness R, self.faultSeq ∈ mask →
      (∀ op after, self.nemesisFire (settings.suppressing mask) op = .ok after → self.Untouched after) ∧
      (∀ after, self.crashTick (settings.suppressing mask) = .ok after → self.Untouched after) ∧
      ∀ after, self.partitionTick (settings.suppressing mask) = .ok after → self.Untouched after ∨
        self.Untouched { after with net := self.net } ∧ after.net = self.net.heal settings.ids := by
  refine ⟨fun k self h hmask => Harness.run_masked h hmask, fun k self h hmask => Harness.run_masked h fun j hj => ?_,
    fun k self h hmask => Harness.run_masked h fun j hj => ?_, fun self h => ⟨fun op after hafter => ?_, fun after hafter => ?_,
    fun after hafter => ?_⟩⟩
  · exact iff_of_false (hmask j hj) (Finset.notMem_empty j)
  · exact iff_of_false (Finset.notMem_empty j) (hmask j hj)
  · exact @Harness.nemesisFire_suppressed R (settings.suppressing mask) self h op after hafter
  · exact @Harness.crashTick_suppressed R (settings.suppressing mask) self h after hafter
  · exact @Harness.partitionTick_suppressed R (settings.suppressing mask) self h after hafter

end DeterministicRaft
