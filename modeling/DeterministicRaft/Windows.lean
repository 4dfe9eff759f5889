import DeterministicRaft.FaultWindows

/-!
# Windows of a fault schedule

An injection that has a target takes effect when it fires, and its fault stays in force until the recovery that was scheduled with
it: nothing else acts on the target in between, unless an earlier recovery of the same target is due at the very instant at which
the injection fires.
-/

namespace DeterministicRaft

open Refinement

/-- When the fault of the injection is to end. -/
def Injection.stop (injection : Injection) : Int := injection.at_ + injection.op.length

/-- The windows of two injections on one target do not overlap. They may touch. -/
def Injection.Apart (x y : Injection) : Prop := x.op.target = y.op.target → x.stop ≤ y.at_ ∨ y.stop ≤ x.at_

/-- Two injections are apart, either way round. -/
theorem Injection.apart_symm {x y : Injection} (h : x.Apart y) : y.Apart x := fun ht => (h ht.symm).symm

namespace Harness

variable {R : RandomSource} {settings : Settings} {self before mid after : Harness R}

/-- The injection has a target: a second half; a believed leader, and others to cut it off from; or the link or node it names. -/
def HasTarget (self : Harness R) (settings : Settings) : NemesisOp → Prop
  | .partitionHalves _ _ => 2 ≤ settings.numNodes
  | .isolateLeader _ _ => 2 ≤ settings.numNodes ∧ (self.leader settings).isSome
  | _ => True

/-- No node of the one set reaches one of the other. -/
def CutOff (self : Harness R) (low high : Finset NodeId) : Prop :=
  ∀ a ∈ low, ∀ b ∈ high, self.net.reachable a b = false ∧ self.net.reachable b a = false

/-- The fault of an injection that fired at the moment `origin` is in force. -/
def InForce (self : Harness R) (settings : Settings) (origin : Harness R) : NemesisOp → Prop
  | .partitionHalves _ _ => self.CutOff settings.halves.1 settings.halves.2
  | .isolateLeader _ _ => ∀ victim, origin.leader settings = some victim → self.CutOff {victim} (settings.others victim)
  | .flappingLink a b _ _ _ => self.net.linkIsDown a b = true
  | .lossyLink a b _ _ dropP => self.net.lossyLinks.lookup (link a b) = some dropP
  | .crashNode n _ _ => n ∈ self.net.crashed ∧ (self.cluster.world.nodes n).alive = false

/-- What is split is cut off. -/
theorem Split.cutOff {low high : Finset NodeId} (h : self.Split low high) : self.CutOff low high := by
  intro a ha b hb
  simp [SimNetwork.reachable, h.1 a ha, h.2 b hb]

/-- What is held is in force. -/
theorem Held.inForce {origin : Harness R} {op : NemesisOp} (h : Held settings origin self op) : InForce self settings origin op := by
  cases op with
  | partitionHalves => exact Split.cutOff h
  | isolateLeader => exact fun victim hv => (h victim hv).cutOff
  | flappingLink => exact decide_eq_true h
  | lossyLink => exact h
  | crashNode => exact h

/-- The next event. -/
def next? (self : Harness R) : Option Callback := self.pending.head?.map Prod.snd

/-! ## One event -/

/-- The injections that are still due. -/
def awaiting (self : Harness R) : List Injection := self.pending.filterMap fun x => x.2.injection

/-- The injections that wait are those in the queue. -/
theorem mem_awaiting {injection : Injection} :
    injection ∈ self.awaiting ↔ ∃ t, (t, Callback.nemesisFire injection) ∈ self.pending := by
  simp only [awaiting, List.mem_filterMap, Callback.injection_eq, Prod.exists, exists_eq_right]

/-- What an event leaves due: what was due, plain events, and the recovery of the injection that fired. -/
structure Leaves (fn : Callback) (before after : Harness R) : Prop where
  now : after.sim.clock.now = before.sim.clock.now
  kept : ∀ x ∈ before.pending, x ∈ after.pending
  added : ∀ x ∈ after.pending, x ∈ before.pending ∨ x.2.Plain ∨
    ∃ injection, fn = .nemesisFire injection ∧ x = (before.sim.clock.now + injection.op.length, injection.op.recovery)
  awaiting : after.awaiting.Perm before.awaiting

/-- An event that schedules plain callbacks only. -/
theorem Leaves.of_plain {fn : Callback} (hnow : after.sim.clock.now = before.sim.clock.now)
    (hp : ∃ new, after.pending.Perm (new ++ before.pending) ∧ ∀ x ∈ new, x.2.Plain) : Leaves fn before after := by
  obtain ⟨new, hperm, hnew⟩ := hp
  refine ⟨hnow, fun x hx => hperm.mem_iff.2 (List.mem_append_right _ hx), fun x hx => ?_, ?_⟩
  · rcases List.mem_append.1 (hperm.mem_iff.1 hx) with h | h
    · exact Or.inr (Or.inl (hnew x h))
    · exact Or.inl h
  · have hnone : new.filterMap (fun x => x.2.injection) = [] := List.filterMap_eq_nil_iff.2 fun x hx => (hnew x hx).injection
    refine (hperm.filterMap _).trans ?_
    rw [List.filterMap_append, hnone]
    exact .refl _

/-- Whatever happens leaves the other callbacks where they are. -/
theorem Happens.leaves {fn : Callback} (h : Happens settings before after fn) : Leaves fn before after := by
  cases h with
  | plain hfn h => exact .of_plain h.now h.pending
  | ended hfn h => exact .of_plain h.now h.pending
  | fired h =>
    rename_i injection
    rcases h with ⟨-, h⟩ | ⟨-, h⟩
    · obtain ⟨new, hperm, hnew⟩ := h.pending
      refine ⟨h.now, fun x hx => ?_, fun x hx => ?_, ?_⟩
      · exact hperm.mem_iff.2 (List.mem_cons_of_mem _ (List.mem_append_right _ hx))
      · rcases List.mem_cons.1 (hperm.mem_iff.1 hx) with rfl | hx
        · exact Or.inr (Or.inr ⟨injection, rfl, rfl⟩)
        · rcases List.mem_append.1 hx with h | h
          · exact Or.inr (Or.inl (hnew x h))
          · exact Or.inl h
      · have hnone : new.filterMap (fun x => x.2.injection) = [] :=
          List.filterMap_eq_nil_iff.2 fun x hx => (hnew x hx).injection
        refine (hperm.filterMap _).trans ?_
        simp only [List.filterMap_cons, Callback.injection_of_ends injection.op.ends_recovery, List.filterMap_append, hnone]
        exact .refl _
    · exact .of_plain h.now h.pending

/-- The step takes the event `fn` at the moment `mid` at which it is due. -/
structure Takes (settings : Settings) (fn : Callback) (before mid after : Harness R) : Prop where
  pending : before.pending = (mid.sim.clock.now, fn) :: mid.pending
  net : mid.net = before.net
  world : mid.cluster.world = before.cluster.world
  happens : Happens settings mid after fn

/-- A step takes an event, if no random driver is due. -/
theorem takes_of_step (hs : settings.suppressed = ∅) (ha : self.Agreed) (hf : ∀ x ∈ self.pending, x.2 ≠ .faultTick)
    (h : self.step settings = .ok (true, after)) : ∃ fn mid, Takes settings fn self mid after := by
  obtain ⟨fn, mid, hd, hcall⟩ := due_of_step h
  have hne : fn ≠ .faultTick := hf (mid.sim.clock.now, fn) (by rw [hd.pending]; exact List.mem_cons_self)
  have hmid : mid.Agreed := fun n => by
    rw [hd.net, hd.world]
    exact ha n
  exact ⟨fn, mid, hd.pending, hd.net, hd.world, call_happens hs mid hmid fn hne _ hcall⟩

namespace Takes

variable {fn : Callback}

/-- What is in the queue after the event began was there before. -/
theorem mem (h : Takes settings fn before mid after) {x : Int × Callback} (hx : x ∈ mid.pending) : x ∈ before.pending := by
  rw [h.pending]
  exact List.mem_cons_of_mem _ hx

/-- The callback was in the queue, and is due now. -/
theorem head (h : Takes settings fn before mid after) : (mid.sim.clock.now, fn) ∈ before.pending := by
  rw [h.pending]
  exact List.mem_cons_self

/-- The others are still there. -/
theorem tail (h : Takes settings fn before mid after) {x : Int × Callback} (hx : x ∈ before.pending) (hne : x.2 ≠ fn) :
    x ∈ mid.pending := by
  rw [h.pending] at hx
  rcases List.mem_cons.1 hx with rfl | hx
  · exact absurd rfl hne
  · exact hx

/-- The callback is the next one. -/
theorem next? (h : Takes settings fn before mid after) : before.next? = some fn := by
  rw [Harness.next?, h.pending]
  rfl

/-- Time has passed up to the event. -/
theorem now_le (h : Takes settings fn before mid after) : before.sim.clock.now ≤ mid.sim.clock.now := Clock.timely_pending h.head

/-- What is left is due later. -/
theorem le_due (_ : Takes settings fn before mid after) {x : Int × Callback} (hx : x ∈ mid.pending) : mid.sim.clock.now ≤ x.1 :=
  Clock.timely_pending hx

/-- Taking a callback leaves the faults alone. -/
theorem unchanged (h : Takes settings fn before mid after) (t : Target) : Unchanged before mid t := by
  cases t <;> simp only [Unchanged, h.net, h.world, and_self]

/-- Taking a callback leaves the crashes alone. -/
theorem agreed (h : Takes settings fn before mid after) (ha : before.Agreed) : mid.Agreed := fun n => by
  rw [h.net, h.world]
  exact ha n

/-- Taking a callback leaves the leaders alone. -/
theorem leader (h : Takes settings fn before mid after) : mid.leader settings = before.leader settings := by
  unfold Harness.leader Harness.leaders
  rw [h.world]

/-- Taking a callback leaves the windows alone. -/
theorem held (h : Takes settings fn before mid after) {op : NemesisOp} (hh : Held settings mid self op) :
    Held settings before self op := by
  cases op with
  | isolateLeader start duration => exact fun victim hv => hh victim (h.leader.trans hv)
  | _ => exact hh

/-- Only the callback does not wait any more. -/
theorem awaiting (h : Takes settings fn before mid after) : before.awaiting = fn.injection.toList ++ mid.awaiting := by
  rw [Harness.awaiting, h.pending, List.filterMap_cons]
  cases fn.injection <;> rfl

end Takes

/-- Which injections have fired, what is due because of them, and who is down until then. -/
structure Scheduled (settings : Settings) (fired : List Injection) (h : Harness R) : Prop where
  account : (fired ++ h.awaiting).Perm settings.injections
  due : ∀ t injection, (t, Callback.nemesisFire injection) ∈ h.pending → t = injection.at_
  past : ∀ injection ∈ fired, injection.at_ ≤ h.sim.clock.now
  ends : ∀ x ∈ h.pending, ∀ t, x.2.ends = some t → ∃ injection ∈ fired, injection.op.target = t ∧ x.1 = injection.stop
  agreed : h.Agreed
  resumes : ∀ n ∈ h.net.crashed, ∃ x ∈ h.pending, x.2.ends = some (.crash n)
  noDriver : ∀ x ∈ h.pending, x.2 ≠ .faultTick

namespace Scheduled

variable {fired : List Injection}

/-- The state of the nodes after an event. -/
theorem agreed_step (ha : before.Agreed) {fn : Callback} (h : Happens settings before after fn) : after.Agreed := by
  have hcalm : ∀ {n}, Unchanged before after (.crash n) → (n ∈ after.net.crashed ↔ (after.cluster.world.nodes n).alive = false) :=
    fun {n} hu => hu.1.trans ((ha n).trans (by rw [hu.2]))
  intro n
  cases h with
  | plain hfn h => exact hcalm (h.unchanged _)
  | ended hfn h =>
    rename_i t
    by_cases ht : Target.crash n = t
    · subst ht
      exact iff_of_false h.lifted.1 (by rw [h.lifted.2]; decide)
    · exact hcalm (h.others _ ht)
  | fired h =>
    rename_i injection
    rcases h with ⟨-, h⟩ | ⟨-, h⟩
    · by_cases ht : Target.crash n = injection.op.target
      · have hh := h.held
        cases hop : injection.op with
        | crashNode m start duration =>
          rw [hop] at ht hh
          cases ht
          exact iff_of_true hh.1 hh.2
        | _ =>
          rw [hop] at ht
          cases ht
      · exact hcalm (h.others _ ht)
    · exact hcalm (h.unchanged _)

/-- An event keeps the account. -/
theorem step (h : Scheduled settings fired self) {fn : Callback} (ht : Takes settings fn self mid after) :
    Scheduled settings (fn.injection.toList ++ fired) after := by
  have hl := ht.happens.leaves
  have hat : ∀ injection, fn = .nemesisFire injection → mid.sim.clock.now = injection.at_ := by
    rintro injection rfl
    exact h.due _ injection ht.head
  refine ⟨?_, ?_, ?_, ?_, agreed_step (ht.agreed h.agreed) ht.happens, ?_, ?_⟩
  · refine .trans ?_ h.account
    rw [ht.awaiting, ← List.append_assoc]
    exact List.perm_append_comm.append hl.awaiting
  · intro t injection hx
    rcases hl.added _ hx with hx | hp | ⟨injection', -, he⟩
    · exact h.due t injection (ht.mem hx)
    · exact hp.elim
    · exact absurd (congrArg Prod.snd he).symm (injection'.op.recovery_ne injection)
  · intro injection hi
    rw [hl.now]
    rcases List.mem_append.1 hi with hi | hi
    · rw [Option.mem_toList, Callback.injection_eq] at hi
      exact (hat injection hi).ge
    · exact (h.past injection hi).trans ht.now_le
  · intro x hx t he
    rcases hl.added _ hx with hx | hp | ⟨injection, hfn, rfl⟩
    · obtain ⟨injection, hi, hw⟩ := h.ends x (ht.mem hx) t he
      exact ⟨injection, List.mem_append_right _ hi, hw⟩
    · rw [hp.ends] at he
      cases he
    · refine ⟨injection, List.mem_append_left _ (by rw [hfn]; exact List.mem_singleton_self _), ?_, ?_⟩
      · rw [injection.op.ends_recovery] at he
        exact Option.some.inj he
      · rw [hat injection hfn]
        rfl
  · intro n hn
    have hkeep : fn.ends ≠ some (.crash n) → n ∈ mid.net.crashed → ∃ x ∈ after.pending, x.2.ends = some (.crash n) := by
      intro hne hm
      rw [ht.net] at hm
      obtain ⟨x, hx, he⟩ := h.resumes n hm
      exact ⟨x, hl.kept x (ht.tail hx fun hfn => hne (by rw [← hfn, he])), he⟩
    cases ht.happens with
    | plain hfn hc =>
      refine hkeep (by rw [hfn.ends]; exact nofun) ?_
      rwa [← hc.faults.crashed]
    | ended hfn he =>
      rename_i t
      by_cases ht : Target.crash n = t
      · subst ht
        exact absurd hn he.lifted.1
      · exact hkeep (by rw [hfn]; exact fun h => ht (Option.some.inj h).symm) ((he.others _ ht).1.1 hn)
    | fired hf =>
      rename_i injection
      rcases hf with ⟨-, hf⟩ | ⟨-, hf⟩
      · by_cases ht : Target.crash n = injection.op.target
        · obtain ⟨new, hperm, -⟩ := hf.pending
          exact ⟨_, hperm.mem_iff.2 List.mem_cons_self, by rw [injection.op.ends_recovery, ht]⟩
        · exact hkeep nofun ((hf.others _ ht).1.1 hn)
      · refine hkeep nofun ?_
        rwa [← hf.faults.crashed]
  · intro x hx
    rcases hl.added _ hx with hx | hp | ⟨injection, -, rfl⟩
    · exact h.noDriver x (ht.mem hx)
    · intro he
      rw [he] at hp
      exact hp
    · cases injection.op <;> exact nofun

/-- An injection that fires is next among those due, and its window is apart from all others on its target. -/
theorem apart (h : Scheduled settings fired self) (hd : settings.injections.Pairwise Injection.Apart) {injection : Injection}
    (ht : Takes settings (.nemesisFire injection) self mid after) :
    (∀ x ∈ fired, x.Apart injection) ∧ ∀ x ∈ mid.awaiting, injection.Apart x := by
  have hpair := (h.account.pairwise_iff fun hxy => Injection.apart_symm hxy).2 hd
  rw [ht.awaiting, List.pairwise_append] at hpair
  exact ⟨fun x hx => hpair.2.2 x hx injection List.mem_cons_self,
    fun x hx => List.rel_of_pairwise_cons hpair.2.1 hx⟩

/-- What waits is an injection of the schedule. -/
theorem mem_injections (h : Scheduled settings fired self) {injection : Injection} {t : Int}
    (hi : (t, Callback.nemesisFire injection) ∈ self.pending) : injection ∈ settings.injections :=
  h.account.mem_iff.1 (List.mem_append_right _ (mem_awaiting.2 ⟨t, hi⟩))

/-- When an injection fires, the recoveries of its target that are still due are due at once. -/
theorem stale (h : Scheduled settings fired self) (hd : settings.injections.Pairwise Injection.Apart)
    (hlen : ∀ x ∈ settings.injections, 0 < x.op.length) {injection : Injection}
    (ht : Takes settings (.nemesisFire injection) self mid after)
    {x : Int × Callback} (hx : x ∈ mid.pending) (he : x.2.ends = some injection.op.target) : x.1 = injection.at_ := by
  have hat := h.due _ injection ht.head
  have hpos := hlen injection (h.mem_injections ht.head)
  have hnow := ht.now_le
  have hdue := ht.le_due hx
  obtain ⟨earlier, hfired, htarget, hstop⟩ := h.ends x (ht.mem hx) _ he
  have hpast := h.past earlier hfired
  rcases (h.apart hd ht).1 earlier hfired htarget with hle | hle
  · omega
  · rw [Injection.stop] at hle
    omega

/-- An injection that has a target takes effect, if no earlier recovery of its target is due at the same instant. -/
theorem ready (h : Scheduled settings fired self) (hd : settings.injections.Pairwise Injection.Apart)
    (hlen : ∀ x ∈ settings.injections, 0 < x.op.length) {injection : Injection}
    (ht : Takes settings (.nemesisFire injection) self mid after)
    (hopen : ∀ x ∈ self.pending, x.2.ends = some injection.op.target → x.1 ≠ injection.at_)
    (htarget : self.HasTarget settings injection.op) : Ready settings mid injection.op := by
  cases hop : injection.op with
  | crashNode n start duration =>
    rw [Ready, ht.world]
    refine Bool.of_not_eq_false fun hdown => ?_
    obtain ⟨x, hx, he⟩ := h.resumes n ((h.agreed n).2 hdown)
    have he' : x.2.ends = some injection.op.target := by rw [he, hop, NemesisOp.target]
    have hne : x.2 ≠ .nemesisFire injection := by
      intro hfn
      rw [hfn] at he
      cases he
    exact hopen x hx he' (h.stale hd hlen ht (ht.tail hx hne) he')
  | isolateLeader start duration =>
    rw [hop] at htarget
    rw [Ready, ht.leader]
    exact htarget
  | partitionHalves start duration =>
    rw [hop] at htarget
    exact htarget
  | _ => trivial

end Scheduled

/-! ## One window -/

/-- The fault of an injection is in force, its recovery is due when its window ends, and nothing else that acts on its target is due
before. -/
structure Holding (settings : Settings) (origin : Harness R) (injection : Injection) (h : Harness R) : Prop where
  held : Held settings origin h injection.op
  recovery : (injection.stop, injection.op.recovery) ∈ h.pending
  only : ∀ x ∈ h.pending, x.2.ends = some injection.op.target → x.1 = injection.stop
  next : ∀ t y, (t, Callback.nemesisFire y) ∈ h.pending → y.op.target = injection.op.target → injection.stop ≤ t

namespace Holding

variable {fired : List Injection} {origin : Harness R} {injection : Injection}

/-- An injection that has taken effect holds, if no earlier recovery of its target is due at the same instant. -/
theorem of_injected (h : Scheduled settings fired self) (hd : settings.injections.Pairwise Injection.Apart)
    (hlen : ∀ x ∈ settings.injections, 0 < x.op.length) (ht : Takes settings (.nemesisFire injection) self mid after)
    (hopen : ∀ x ∈ self.pending, x.2.ends = some injection.op.target → x.1 ≠ injection.at_)
    (hi : Injected settings injection.op mid after) : Holding settings self injection after := by
  have hat := h.due _ injection ht.head
  obtain ⟨new, hperm, hnew⟩ := hi.pending
  rw [hat] at hperm
  refine ⟨ht.held hi.held, hperm.mem_iff.2 List.mem_cons_self, fun x hx he => ?_, fun t y hy htarget => ?_⟩
  · rcases List.mem_cons.1 (hperm.mem_iff.1 hx) with rfl | hx
    · rfl
    · rcases List.mem_append.1 hx with hx | hx
      · rw [(hnew x hx).ends] at he
        cases he
      · exact absurd (h.stale hd hlen ht hx he) (hopen x (ht.mem hx) he)
  · rcases List.mem_cons.1 (hperm.mem_iff.1 hy) with he | hy
    · exact absurd (congrArg Prod.snd he).symm (injection.op.recovery_ne y)
    · rcases List.mem_append.1 hy with hy | hy
      · exact (hnew _ hy).elim
      · have hy' := h.due t y (ht.mem hy)
        have hpos := hlen y (h.mem_injections (ht.mem hy))
        have hdue := ht.le_due hy
        rcases (h.apart hd ht).2 y (mem_awaiting.2 ⟨t, hy⟩) htarget.symm with hle | hle
        · omega
        · rw [Injection.stop] at hle
          omega

/-- An event keeps the window open, or it is the recovery at the window's end. -/
theorem step (h : Holding settings origin injection self) {fn : Callback} (ht : Takes settings fn self mid after)
    (hopen : ∀ y, fn = .nemesisFire y → ∀ x ∈ self.pending, x.2.ends = some y.op.target → x.1 ≠ mid.sim.clock.now) :
    Holding settings origin injection after ∨
      (mid.sim.clock.now = injection.stop ∧ Lifted settings after injection.op.target) := by
  have hl := ht.happens.leaves
  have hrecovery : fn.ends ≠ some injection.op.target → (injection.stop, injection.op.recovery) ∈ mid.pending := fun hne =>
    ht.tail h.recovery fun hfn => hne (by rw [← hfn, injection.op.ends_recovery])
  have hkeep : Unchanged mid after injection.op.target → fn.ends ≠ some injection.op.target →
      (∀ y, fn = .nemesisFire y → y.op.target ≠ injection.op.target) → Holding settings origin injection after := by
    intro hu hne hy
    refine ⟨h.held.of_unchanged ((ht.unchanged _).trans hu), hl.kept _ (hrecovery hne), fun x hx he => ?_, fun t y hx hty => ?_⟩
    · rcases hl.added x hx with hx | hp | ⟨y, hfn, rfl⟩
      · exact h.only x (ht.mem hx) he
      · rw [hp.ends] at he
        cases he
      · rw [y.op.ends_recovery] at he
        exact absurd (Option.some.inj he) (hy y hfn)
    · rcases hl.added _ hx with hx | hp | ⟨z, -, he⟩
      · exact h.next t y (ht.mem hx) hty
      · exact hp.elim
      · exact absurd (congrArg Prod.snd he).symm (z.op.recovery_ne y)
  cases ht.happens with
  | plain hfn hc =>
    refine Or.inl (hkeep (hc.unchanged _) (by rw [hfn.ends]; exact nofun) ?_)
    rintro y rfl
    exact hfn.elim
  | ended hfn he =>
    rename_i t
    by_cases htarget : injection.op.target = t
    · subst htarget
      exact Or.inr ⟨h.only _ ht.head hfn, he.lifted⟩
    · refine Or.inl (hkeep (he.others _ htarget) (by rw [hfn]; exact fun h => htarget (Option.some.inj h).symm) ?_)
      rintro y rfl
      exact nomatch hfn
  | fired hf =>
    rename_i y
    have hy : y.op.target ≠ injection.op.target := by
      intro htarget
      refine hopen y rfl _ h.recovery ?_ (le_antisymm (h.next _ y ht.head htarget) (ht.le_due (hrecovery nofun)))
      rw [injection.op.ends_recovery, htarget]
    refine Or.inl (hkeep ?_ nofun ?_)
    · rcases hf with ⟨-, hf⟩ | ⟨-, hf⟩
      · exact hf.others _ hy.symm
      · exact hf.unchanged _
    · intro z hz
      cases hz
      exact hy

end Holding

/-! ## The start -/

/-- The injections are all scheduled up-front. -/
theorem schedule_injections (self : Harness R) (injections : List Injection) :
    Ensures (injections.foldlM (fun self injection => schedule self injection.at_ (.nemesisFire injection)) self) fun after =>
      after.sim.clock.now = self.sim.clock.now ∧ after.net = self.net ∧ after.cluster = self.cluster ∧
      after.pending.Perm (injections.map (fun y => (self.sim.clock.now + y.at_, Callback.nemesisFire y)) ++ self.pending) := by
  induction injections generalizing self with
  | nil => exact Ensures.pure ⟨rfl, rfl, rfl, .refl _⟩
  | cons injection injections ih =>
    rw [List.foldlM_cons]
    refine Ensures.bind (schedule_pending self _ _) fun mid ⟨_, hnow, hnet, hcluster, hp⟩ => ?_
    refine (ih mid).mono fun after ⟨hnow', hnet', hcluster', hp'⟩ => ?_
    refine ⟨hnow'.trans hnow, hnet'.trans hnet, hcluster'.trans hcluster, ?_⟩
    rw [hnow] at hp'
    rw [List.map_cons, List.cons_append]
    exact hp'.trans ((hp.append_left _).trans List.perm_middle)

/-- A cluster that has started without the random fault driver: everyone is alive, no fault is in force, and all injections are
due. -/
theorem init_scheduled (hf : settings.faults = .none) (seed : R.State) : Ensures (init settings seed) (Scheduled settings []) := by
  have hdriver : (settings.profile.partitions || settings.profile.crashes) = false := by
    rw [Settings.profile, hf]
    rfl
  unfold init
  refine Ensures.bind (Calm.frame.follow _ _) fun s1 h1 => ?_
  refine Ensures.bind (Calm.frame.startDriver s1 _ _ trivial) fun s2 h2 => ?_
  rw [hdriver]
  refine Ensures.bind (Q := Calm s2) (Ensures.pure (Calm.frame.refl s2)) fun s3 h3 => ?_
  refine Ensures.bind (Calm.frame.startDriver s3 _ _ trivial) fun s4 h4 => ?_
  have hc := ((h1.trans h2).trans h3).trans h4
  refine (schedule_injections s4 settings.injections).mono fun after ⟨hnow, hnet, hcluster, hp⟩ => ?_
  have hplain : ∀ x ∈ s4.pending, x.2.Plain := by
    obtain ⟨new, hq, hnew⟩ := hc.pending
    intro x hx
    rcases List.mem_append.1 (hq.mem_iff.1 hx) with hx | hx
    · exact hnew x hx
    · cases hx
  have hmem : ∀ x ∈ after.pending, (∃ y, x = (y.at_, .nemesisFire y)) ∨ x.2.Plain := by
    intro x hx
    rcases List.mem_append.1 (hp.mem_iff.1 hx) with hx | hx
    · obtain ⟨y, -, rfl⟩ := List.mem_map.1 hx
      refine Or.inl ⟨y, ?_⟩
      rw [hc.now]
      exact congrArg (·, Callback.nemesisFire y) (Int.zero_add y.at_)
    · exact Or.inr (hplain x hx)
  have hnone : after.net.crashed = ∅ := by rw [hnet, hc.faults.crashed]
  have halive : ∀ n, (after.cluster.world.nodes n).alive = true := fun n => by
    rw [hcluster, hc.alive n]
    rfl
  refine ⟨?_, fun t y hy => ?_, by simp, fun x hx t ht => ?_, fun n => ?_, by simp [hnone], fun x hx he => ?_⟩
  · rw [List.nil_append]
    refine (hp.filterMap _).trans ?_
    rw [List.filterMap_append, List.filterMap_eq_nil_iff.2 fun x hx => (hplain x hx).injection, List.append_nil,
      List.filterMap_map]
    exact .of_eq (List.filterMap_some (l := settings.injections))
  · rcases hmem _ hy with ⟨z, hz⟩ | hz
    · cases hz
      rfl
    · exact hz.elim
  · rcases hmem x hx with ⟨z, rfl⟩ | hz
    · cases ht
    · rw [hz.ends] at ht
      cases ht
  · rw [hnone, halive n]
    simp
  · rcases hmem x hx with ⟨z, rfl⟩ | hz
    · cases he
    · rw [he] at hz
      exact hz

end Harness

end DeterministicRaft
