import DeterministicRaft.Frames

/-!
# Suppression masks

Where two masks agree on the faults that get an ordinal in an event, the event is the same under both: every driver draws and looks
before it asks for an ordinal, and what it asks for depends on the answer only.
-/

namespace DeterministicRaft

open Refinement

/-- The same cluster under another mask, with its schedule written another way. -/
def Settings.masked (settings : Settings) (suppressed : Finset ℕ) (nemesis : Option NemesisSchedule)
    (known : ∀ schedule, nemesis = some schedule → schedule.maxNode < settings.numNodes) : Settings :=
  { settings with suppressed, nemesis, knownNodes := known }

/-- The same cluster under another mask. -/
def Settings.suppressing (settings : Settings) (suppressed : Finset ℕ) : Settings :=
  settings.masked suppressed settings.nemesis settings.knownNodes

namespace Harness

variable {R : RandomSource} {settings : Settings} {n : ℕ}

/-! ## Ordinals -/

/-- The operation assigns ordinals in order. -/
abbrev Ordered (self : Harness R) (x : Except SimError (Harness R)) : Prop := Ensures x fun after => self.faultSeq ≤ after.faultSeq

/-- Scheduling assigns no ordinal. -/
theorem Ordered.schedule (self : Harness R) (delay : Int) (fn : Callback) : Ordered self (self.schedule delay fn) := by
  unfold Harness.schedule
  exact Ensures.bind (Ensures.trivial _) fun sim _ => Ensures.pure (Nat.le_refl _)

/-- What is no fault takes no ordinal back. -/
theorem ordinals : Frame fun before after : Harness R => before.faultSeq ≤ after.faultSeq where
  trans h h' := h.trans h'
  unchanged _ _ _ h := Nat.le_of_eq h.symm
  schedule self delay fn _ := Ordered.schedule self delay fn

/-- An action on the nodes assigns no ordinal. -/
theorem Ordered.act (self : Harness R) (action : Action) : Ordered self (self.act settings action) := by
  unfold Harness.act
  refine Ensures.bind (Ensures.trivial _) fun c _ => ?_
  exact ordinals.follow self c

/-- A partition assigns no ordinal of its own. -/
theorem Ordered.setPartition (self : Harness R) (groups : List (Finset NodeId)) :
    Ordered self (self.setPartition settings groups) := by
  unfold Harness.setPartition
  split
  · exact Ensures.pure (Nat.le_refl _)
  · exact fun _ h => nomatch h

/-- A crash assigns no ordinal of its own. -/
theorem Ordered.pause (self : Harness R) (node : NodeId) : Ordered self (self.pause settings node) := by
  unfold Harness.pause
  have hact := @Ordered.act R settings { self with net := { self.net with crashed := insert node self.net.crashed } } (.pause node)
  exact Ensures.bind hact fun s hs => Ensures.pure hs

/-- A restart assigns no ordinal. -/
theorem Ordered.maybeResume (self : Harness R) (node : NodeId) : Ordered self (self.maybeResume settings node) := by
  unfold Harness.maybeResume Harness.resume
  split
  · have hact := @Ordered.act R settings { self with net := { self.net with crashed := self.net.crashed.erase node } } (.resume node)
    exact Ensures.bind hact fun s hs => Ensures.pure hs
  · exact Ensures.pure (Nat.le_refl _)

/-! ## Two masks -/

/-- What a driver does once it has asked for an ordinal: nothing, if the fault is suppressed. -/
def whenFires (settings : Settings) (self : Harness R) (x : Harness R → Except SimError (Harness R)) : Except SimError (Harness R) :=
  let (fires, self) := self.fireFault settings
  if fires then x self else .ok self

/-- What the one computation gives, unless it assigns ordinals from `n` on, the other one gives too. -/
def Upto (n : ℕ) (x y : Except SimError (Harness R)) : Prop := ∀ after, x = .ok after → after.faultSeq ≤ n → y = .ok after

namespace Upto

variable {x y x' y' : Except SimError (Harness R)}

/-- A function and itself. -/
theorem refl (x : Except SimError (Harness R)) : Upto n x x := fun _ h _ => h

/-- A test that both make. -/
theorem ite {c : Prop} [Decidable c] (h : Upto n x y) (h' : Upto n x' y') : Upto n (if c then x else x') (if c then y else y') := by
  split
  · exact h
  · exact h'

/-- After the same computation. -/
theorem andThen {α : Type} {x : Except SimError α} {f g : α → Except SimError (Harness R)} (h : ∀ a, Upto n (f a) (g a)) :
    Upto n (x >>= f) (x >>= g) := by
  cases x with
  | error e => exact refl _
  | ok a => exact h a

/-- One part after the other, as long as ordinals only grow. -/
theorem bind {f g : Harness R → Except SimError (Harness R)} (h : Upto n x y) (hfg : ∀ s, Upto n (f s) (g s))
    (hf : ∀ s, Ordered s (f s)) : Upto n (x >>= f) (y >>= g) := by
  intro after hafter hn
  cases x with
  | error e => cases hafter
  | ok s =>
    have hle : s.faultSeq ≤ after.faultSeq := hf s after hafter
    rw [h s rfl (hle.trans hn)]
    exact hfg s after hafter hn

end Upto

variable {suppressed : Finset ℕ} {nemesis : Option NemesisSchedule}
  {known : ∀ schedule, nemesis = some schedule → schedule.maxNode < settings.numNodes}

/-- A fault fires under both masks or under neither, if they agree on its ordinal. -/
theorem Upto.whenFires {x y : Harness R → Except SimError (Harness R)} (hmask : ∀ j < n, j ∈ suppressed ↔ j ∈ settings.suppressed)
    (self : Harness R) (hx : ∀ s, Ordered s (x s)) (hxy : ∀ s, Upto n (x s) (y s)) :
    Upto n (whenFires settings self x) (whenFires (settings.masked suppressed nemesis known) self y) := by
  intro after hafter hn
  have hlt : self.faultSeq < after.faultSeq := by
    unfold Harness.whenFires fireFault at hafter
    simp only at hafter
    split at hafter
    · exact hx _ after hafter
    · cases hafter
      exact Nat.lt_succ_self _
  have hfire : self.fireFault (settings.masked suppressed nemesis known) = self.fireFault settings := by
    have heq : (settings.masked suppressed nemesis known).suppressed = suppressed := rfl
    simp only [fireFault, heq, hmask self.faultSeq (Nat.lt_of_lt_of_le hlt hn)]
  unfold Harness.whenFires at hafter ⊢
  rw [hfire]
  generalize self.fireFault settings = fired at hafter ⊢
  obtain ⟨fires, s⟩ := fired
  simp only at hafter ⊢
  cases fires with
  | false => exact hafter
  | true => exact hxy s after hafter hn

/-- The partitions of the random driver. -/
theorem partitionTick_masked (hmask : ∀ j < n, j ∈ suppressed ↔ j ∈ settings.suppressed) (self : Harness R) :
    Upto n (self.partitionTick settings) (self.partitionTick (settings.masked suppressed nemesis known)) := by
  unfold partitionTick
  refine Upto.ite (.refl _) (Upto.ite (.refl _) (Upto.ite (Upto.andThen fun draw => Upto.ite (.refl _) ?_) (.refl _)))
  exact Upto.whenFires hmask _ (fun s => Ordered.setPartition s _) fun s => .refl _

/-- The crashes of the random driver. -/
theorem crashTick_masked (hmask : ∀ j < n, j ∈ suppressed ↔ j ∈ settings.suppressed) (self : Harness R) :
    Upto n (self.crashTick settings) (self.crashTick (settings.masked suppressed nemesis known)) := by
  unfold crashTick
  refine Upto.ite (Upto.ite (.refl _) (Upto.andThen fun draw => Upto.andThen fun draw' => ?_)) (.refl _)
  obtain ⟨resumeDelay, mid⟩ := draw'
  refine Upto.whenFires (x := fun s => s.pause settings _ >>= fun s => s.schedule resumeDelay (.maybeResume _)) hmask mid (fun s => ?_)
    fun s => .refl _
  exact Ensures.bind (Ordered.pause s _) fun s' hs => (Ordered.schedule s' _ _).mono fun _ h => hs.trans h

/-- What fires assigns one ordinal. -/
theorem Ordered.whenFires (self : Harness R) {x : Harness R → Except SimError (Harness R)} (hx : ∀ s, Ordered s (x s)) :
    Ordered self (whenFires settings self x) := by
  unfold Harness.whenFires fireFault
  simp only
  split
  · exact (hx _).mono fun _ h => Nat.le_of_succ_le h
  · exact Ensures.pure (Nat.le_succ _)

/-- What changes links gets no ordinal by itself. -/
theorem faultSeq_links (self : Harness R) (a b : NodeId) : (self.linkDown a b).faultSeq = self.faultSeq ∧
    (self.linkUp a b).faultSeq = self.faultSeq ∧ (self.clearLossyLink a b).faultSeq = self.faultSeq := by
  unfold linkDown linkUp clearLossyLink
  refine ⟨?_, ?_, ?_⟩
  all_goals
    split
    · rfl
    · rfl

/-- The draws of the sides leave the ordinals alone. -/
theorem ordered_sides (self : Harness R) (ids : List NodeId) :
    Ensures (ids.foldlM (fun (sides, self) i => do
      let (side, self) ← randint self 0 1
      return (sides ++ [(i, side)], self)) (([], self) : List (NodeId × Int) × Harness R)) fun draw => self.faultSeq ≤ draw.2.faultSeq := by
  refine Ensures.foldlM (Q := fun draw : List (NodeId × Int) × Harness R => self.faultSeq ≤ draw.2.faultSeq) (fun draw i hd => ?_) (Nat.le_refl _)
  obtain ⟨sides, s⟩ := draw
  refine Ensures.bind (ordinals.randint s 0 1) fun draw' hs => ?_
  exact Ensures.pure (Nat.le_trans hd hs)

/-- The random partitions assign ordinals in order. -/
theorem Ordered.partitionTick (self : Harness R) : Ordered self (self.partitionTick settings) := by
  unfold Harness.partitionTick
  split
  · exact Ensures.pure (Nat.le_refl _)
  · split
    · refine Ensures.pure ?_
      split
      · exact Nat.le_refl _
      · exact Nat.le_refl _
    · simp only
      split
      · refine Ensures.bind (ordered_sides (self.chance (3 / 20)).2 settings.ids) fun draw hd => ?_
        split
        · exact Ensures.pure hd
        · exact Ensures.mono (Ordered.whenFires draw.2 fun s => Ordered.setPartition s _) fun _ h => hd.trans h
      · exact Ensures.pure (Nat.le_refl _)

/-- The random crashes assign ordinals in order. -/
theorem Ordered.crashTick (self : Harness R) : Ordered self (self.crashTick settings) := by
  unfold Harness.crashTick
  have hdraw : (if settings.profile.crashes then self.chance (1 / 10) else (false, self)).2.faultSeq = self.faultSeq := by
    split
    · rfl
    · rfl
  generalize (if settings.profile.crashes then self.chance (1 / 10) else (false, self)) = draw at hdraw ⊢
  obtain ⟨crashes, s⟩ := draw
  simp only at hdraw ⊢
  rw [Ordered, ← hdraw]
  generalize (if s.net.crashed.card < (settings.numNodes - 1) / 2 then
    settings.ids.filter fun n => (s.cluster.world.nodes n).alive else []) = candidates
  split
  · split
    · exact Ensures.pure (Nat.le_refl _)
    · refine Ensures.bind (ordinals.choice s _) fun draw hd => ?_
      obtain ⟨victim, sim⟩ := draw
      refine Ensures.bind (ordinals.randint { s with sim } 100 400) fun draw hd' => ?_
      obtain ⟨resumeDelay, mid⟩ := draw
      refine Ensures.mono (Ordered.whenFires (x := fun s => s.pause settings victim >>= fun s => s.schedule resumeDelay (.maybeResume victim))
        mid fun s => ?_) fun _ h => (hd.trans hd').trans h
      exact Ensures.bind (Ordered.pause s _) fun s' hs => (Ordered.schedule s' _ _).mono fun _ h => hs.trans h
  · exact Ensures.pure (Nat.le_refl _)

/-- A tick of the fault driver assigns ordinals in order. -/
theorem Ordered.faultTick (self : Harness R) : Ordered self (self.faultTick settings) := by
  unfold Harness.faultTick
  refine Ensures.bind (Ordered.partitionTick self) fun s hs => ?_
  refine Ensures.bind (Ordered.crashTick s) fun s' hs' => ?_
  exact (Ordered.schedule s' _ _).mono fun _ h => (hs.trans hs').trans h

/-- The random driver. -/
theorem faultTick_masked (hmask : ∀ j < n, j ∈ suppressed ↔ j ∈ settings.suppressed) (self : Harness R) :
    Upto n (self.faultTick settings) (self.faultTick (settings.masked suppressed nemesis known)) := by
  unfold faultTick
  refine Upto.bind (partitionTick_masked hmask self) (fun s => ?_) fun s => ?_
  · exact Upto.bind (crashTick_masked hmask s) (fun s => .refl _) fun s => Ordered.schedule s _ _
  · exact Ensures.bind (Ordered.crashTick s) fun s' hs => (Ordered.schedule s' _ _).mono fun _ h => hs.trans h

/-- A split under another mask. -/
theorem split_masked (hmask : ∀ j < n, j ∈ suppressed ↔ j ∈ settings.suppressed) (self : Harness R)
    (groups : List (Finset NodeId)) (duration : Int) :
    Upto n (self.split settings groups duration) (self.split (settings.masked suppressed nemesis known) groups duration) := by
  refine Upto.whenFires (x := fun s => s.setPartition settings groups >>= fun s => s.schedule duration .healPartition) hmask self
    (fun s => ?_) fun s => .refl _
  exact Ensures.bind (Ordered.setPartition s _) fun s' hs => (Ordered.schedule s' _ _).mono fun _ h => hs.trans h

/-- The schedule's driver. -/
theorem nemesisFire_masked (hmask : ∀ j < n, j ∈ suppressed ↔ j ∈ settings.suppressed) (self : Harness R) (op : NemesisOp) :
    Upto n (self.nemesisFire settings op) (self.nemesisFire (settings.masked suppressed nemesis known) op) := by
  unfold nemesisFire
  cases op with
  | partitionHalves at_ duration => exact Upto.ite (.refl _) (split_masked hmask self _ duration)
  | isolateLeader at_ duration =>
    have hleader : self.leader (settings.masked suppressed nemesis known) = self.leader settings := rfl
    simp only [hleader]
    cases self.leader settings with
    | none => exact .refl _
    | some victim => exact Upto.ite (.refl _) (split_masked hmask self _ duration)
  | flappingLink a b at_ period cycles =>
    refine Upto.whenFires hmask self (fun s => (Ordered.schedule (s.linkDown a b) _ _).mono fun _ h => ?_) fun s => .refl _
    rwa [(faultSeq_links s a b).1] at h
  | lossyLink a b at_ duration dropP =>
    exact Upto.whenFires hmask self (fun s => Ordered.schedule (s.setLossyLink a b dropP) _ _) fun s => .refl _
  | crashNode node at_ duration =>
    refine Upto.ite (.refl _) (Upto.whenFires (x := fun s => s.pause settings node >>= fun s => s.schedule duration (.maybeResume node))
      hmask self (fun s => ?_) fun s => .refl _)
    exact Ensures.bind (Ordered.pause s _) fun s' hs => (Ordered.schedule s' _ _).mono fun _ h => hs.trans h

/-- An event under both masks. -/
theorem call_masked (hmask : ∀ j < n, j ∈ suppressed ↔ j ∈ settings.suppressed) (self : Harness R) (fn : Callback) :
    Upto n (self.call settings fn) (self.call (settings.masked suppressed nemesis known) fn) := by
  cases fn with
  | faultTick => exact faultTick_masked hmask self
  | nemesisFire injection => exact nemesisFire_masked hmask self injection.op
  | _ => exact .refl _

/-- A split assigns one ordinal. -/
theorem Ordered.split (self : Harness R) (groups : List (Finset NodeId)) (duration : Int) :
    Ordered self (self.split settings groups duration) :=
  Ordered.whenFires (x := fun s => s.setPartition settings groups >>= fun s => s.schedule duration .healPartition) self fun s =>
    Ensures.bind (Ordered.setPartition s _) fun s' hs => (Ordered.schedule s' _ _).mono fun _ h => hs.trans h

/-- A pattern of the schedule assigns one ordinal. -/
theorem Ordered.nemesisFire (self : Harness R) (op : NemesisOp) : Ordered self (self.nemesisFire settings op) := by
  unfold Harness.nemesisFire
  cases op with
  | partitionHalves at_ duration =>
    simp only
    split
    · exact Ensures.pure (Nat.le_refl _)
    · exact Ordered.split self _ duration
  | isolateLeader at_ duration =>
    simp only
    split
    · exact Ensures.pure (Nat.le_refl _)
    · split
      · exact Ensures.pure (Nat.le_refl _)
      · exact Ordered.split self _ duration
  | flappingLink a b at_ period cycles =>
    exact Ordered.whenFires self fun s => (Ordered.schedule (s.linkDown a b) _ _).mono fun _ h => (faultSeq_links s a b).1 ▸ h
  | lossyLink a b at_ duration dropP => exact Ordered.whenFires self fun s => Ordered.schedule (s.setLossyLink a b dropP) _ _
  | crashNode node at_ duration =>
    simp only
    split
    · exact Ensures.pure (Nat.le_refl _)
    · refine Ordered.whenFires (x := fun s => s.pause settings node >>= fun s => s.schedule duration (.maybeResume node)) self fun s => ?_
      exact Ensures.bind (Ordered.pause s _) fun s' hs => (Ordered.schedule s' _ _).mono fun _ h => hs.trans h

/-- An event assigns ordinals in order. -/
theorem Ordered.call (self : Harness R) (fn : Callback) : Ordered self (self.call settings fn) := by
  cases fn with
  | deliver k => exact ordinals.delivery self k
  | fire k => exact Ordered.act self _
  | clientTick => exact ordinals.clientTick self
  | faultTick => exact Ordered.faultTick self
  | membershipTick => exact ordinals.membershipTick self
  | nemesisFire injection => exact Ordered.nemesisFire self injection.op
  | healPartition => exact Ensures.pure (Nat.le_refl _)
  | linkUp a b => exact Ensures.pure (Nat.le_of_eq (faultSeq_links self a b).2.1.symm)
  | clearLossyLink a b => exact Ensures.pure (Nat.le_of_eq (faultSeq_links self a b).2.2.symm)
  | maybeResume node => exact Ordered.maybeResume self node

/-- A simulator step under both masks. -/
theorem step_masked (hmask : ∀ j < n, j ∈ suppressed ↔ j ∈ settings.suppressed) {self after : Harness R} {more : Bool}
    (h : self.step settings = .ok (more, after)) (hn : after.faultSeq ≤ n) :
    self.step (settings.masked suppressed nemesis known) = .ok (more, after) := by
  unfold step at h ⊢
  split at h
  · exact h
  · rename_i time fn clock hpop
    simp only
    cases hcall : Harness.call settings { self with sim := { self.sim with clock }, cluster := self.cluster.tick } fn with
    | error e =>
      rw [hcall] at h
      cases h
    | ok s =>
      rw [hcall] at h
      cases h
      rw [call_masked hmask _ _ _ hcall hn]
      rfl

/-- A step assigns ordinals in order. -/
theorem ordered_step (self : Harness R) : Ensures (self.step settings) fun done => self.faultSeq ≤ done.2.faultSeq := by
  unfold step
  split
  · exact Ensures.pure (Nat.le_refl _)
  · exact Ensures.bind (Ordered.call _ _) fun s hs => Ensures.pure hs

/-- A cluster starts without regard to the mask. -/
theorem init_masked (hinjections : (settings.masked suppressed nemesis known).injections = settings.injections) (seed : R.State) :
    init (settings.masked suppressed nemesis known) seed = init settings seed := by
  unfold init
  rw [hinjections]
  rfl

end Harness

end DeterministicRaft
