import DeterministicRaft.Frames

/-!
# Events that are neither faults nor recoveries

A message, a timer, a client's tick and a membership change leave the network's faults as they are, keep every node alive or down,
and schedule events of the same kinds only.
-/

namespace DeterministicRaft

open Refinement

namespace Harness

variable {R : RandomSource} {self mid after : Harness R}

/-- What is due, with the time at which it is. -/
def pending (self : Harness R) : List (Int × Callback) := self.sim.clock.pending

/-- The event `fn` is due next, and `mid` is the moment at which it is. -/
structure Due (fn : Callback) (before mid : Harness R) : Prop where
  pending : before.pending = (mid.sim.clock.now, fn) :: mid.pending
  net : mid.net = before.net
  world : mid.cluster.world = before.cluster.world
  asked : mid.cluster.outstanding = before.cluster.outstanding
  trace : mid.trace = before.trace

/-- A step takes the event that is due next. -/
theorem due_of_step {settings : Settings} (h : self.step settings = .ok (true, after)) :
    ∃ fn mid, Due fn self mid ∧ mid.call settings fn = .ok after := by
  unfold step at h
  split at h
  · cases h
  · rename_i due fn clock hp
    obtain ⟨last, hcall, hret⟩ := bind_eq_ok.1 h
    cases hret
    exact ⟨fn, { self with sim := { self.sim with clock }, cluster := self.cluster.tick },
      ⟨Clock.pending_of_pop hp, rfl, rfl, rfl, rfl⟩, hcall⟩

/-- From the one moment to the other, no time has passed, no fault was injected or ended, and none was scheduled to be. -/
structure Calm (before after : Harness R) : Prop where
  now : after.sim.clock.now = before.sim.clock.now
  faults : before.net.SameFaults after.net
  alive : SameAlive before.cluster.world after.cluster.world
  pending : ∃ new, after.pending.Perm (new ++ before.pending) ∧ ∀ x ∈ new, x.2.Plain

namespace Calm

/-- Nothing was scheduled. -/
theorem of_clock (hc : after.sim.clock = self.sim.clock) (hf : self.net.SameFaults after.net)
    (ha : SameAlive self.cluster.world after.cluster.world) : Calm self after where
  now := by rw [hc]
  faults := hf
  alive := ha
  pending := ⟨[], by rw [Harness.pending, hc]; exact .refl _, by simp⟩

theorem trans (h : Calm self mid) (h' : Calm mid after) : Calm self after where
  now := h'.now.trans h.now
  faults := ⟨h'.faults.group.trans h.faults.group, h'.faults.crashed.trans h.faults.crashed,
    h'.faults.downLinks.trans h.faults.downLinks, h'.faults.lossyLinks.trans h.faults.lossyLinks⟩
  alive n := (h'.alive n).trans (h.alive n)
  pending := by
    obtain ⟨new, hp, hnew⟩ := h.pending
    obtain ⟨new', hp', hnew'⟩ := h'.pending
    refine ⟨new' ++ new, ?_, ?_⟩
    · rw [List.append_assoc]
      exact hp'.trans (hp.append_left new')
    · intro x hx
      rcases List.mem_append.1 hx with hx | hx
      · exact hnew' x hx
      · exact hnew x hx

end Calm

/-- What was scheduled is due after the delay. -/
theorem schedule_pending (self : Harness R) (delay : Int) (fn : Callback) : Ensures (self.schedule delay fn) fun after =>
    0 ≤ delay ∧ after.sim.clock.now = self.sim.clock.now ∧ after.net = self.net ∧ after.cluster = self.cluster ∧
    after.pending.Perm ((self.sim.clock.now + delay, fn) :: self.pending) := by
  unfold Harness.schedule Simulator.schedule
  split
  · exact fun _ h => nomatch h
  · rename_i hd
    exact Ensures.pure ⟨Int.not_lt.1 hd, rfl, rfl, rfl, Clock.pending_schedule _ (Int.not_lt.1 hd)⟩

namespace Calm

theorem schedule (self : Harness R) (delay : Int) (fn : Callback) (hfn : fn.Plain) :
    Ensures (self.schedule delay fn) (Calm self) := by
  refine (schedule_pending self delay fn).mono ?_
  rintro after ⟨-, hnow, hnet, hcluster, hp⟩
  refine ⟨hnow, by rw [hnet]; exact .refl _, by rw [hcluster]; exact fun _ => rfl, [(_, fn)], hp, ?_⟩
  intro x hx
  rw [List.mem_singleton.1 hx]
  exact hfn

/-- What is no fault is calm. -/
theorem frame : Frame (Calm (R := R)) where
  trans h h' := h.trans h'
  unchanged hc hf ha _ := of_clock hc hf ha
  schedule self delay fn hfn := schedule self delay fn hfn

end Calm
end Harness

/-- The time at moment `k` of a run: that of the last event. -/
def HarnessRun.now {settings : Settings} {R : RandomSource} (run : HarnessRun settings R) (k : ℕ) : Int :=
  (run.state k).sim.clock.now

end DeterministicRaft
