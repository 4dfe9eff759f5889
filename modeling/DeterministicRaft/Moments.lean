import DeterministicRaft.MidStep
import DeterministicRaft.Possibility
import DeterministicRaft.Theorems.LogRepair
import DeterministicRaft.Theorems.Membership

/-!
# What can be done at a moment of a cluster

At any moment the network may deliver any message that was sent, any timer that was armed may fire, clients may submit commands and
servers may be restarted. Each of these is an operation on one server, which does not raise; the calls it makes are in the trace after.
-/

namespace DeterministicRaft

open Consensus Possibility

variable {net : Network} {n q : NodeId} {self after : RaftNode} {T : Int}

/-- The configuration in force was proposed in the log, or before its first entry. -/
theorem RaftNode.Derived.configIndex_le (h : self.Derived) : self.configIndex ≤ self.lastLogIndex := by
  rw [RaftNode.lastLogIndex]
  rcases exists_governs self.log with hnone | ⟨k, hk⟩
  · have hle := h.below hnone
    omega
  · have hidx := h.live k hk
    obtain ⟨⟨e, he, -⟩, -⟩ := hk
    have hlt := (List.getElem?_eq_some_iff.1 he).1
    omega

/-- Whatever a cluster does, its servers' configurations are derived from their logs. -/
theorem Simulates.step_derived {a : State NodeId Entry} {w w' : World} {act : Action} (h : Simulates net a w) (hact : net.Admits act)
    (hstep : w.step act = .ok w') (hd : ∀ n, (w.nodes n).Derived) (n : NodeId) : (w'.nodes n).Derived := by
  rcases World.step_cases hstep with rfl | ⟨m, op, self, hop, hp, rfl⟩
  · exact hd n
  · have hadmissible : op.Admissible .orderly (w.nodes m) := by
      rcases World.operation_cases hop with ⟨src, msg, hsrc, rfl⟩ | ⟨kind, seq, -, rfl⟩ | ⟨command, rfl, rfl⟩ | ⟨newVoters, rfl, rfl⟩ |
        ⟨command, rfl, rfl⟩ | ⟨rfl, rfl⟩ | ⟨rfl, rfl⟩
      · cases msg with
        | appendEntries msg => exact ⟨fun _ ht => h.agrees hsrc ht, fun _ _ => trivial⟩
        | readHeartbeat msg => exact False.elim
        | _ => trivial
      · cases kind <;> trivial
      · exact fun _ _ => hact
      all_goals trivial
    have hgrounded := (h.fits m).wellFormed.grounded (congrArg Bugs.allowCommitRegression (h.node m).bugs)
    have hmoved := perform_makes (I := .orderly) ⟨trivial, trivial, trivial⟩ _ op hadmissible self hp
    have hderived := (hd m).moved trivial (fun _ hc => hc) hmoved hgrounded
    by_cases hn : n = m
    · subst hn
      simp only [Function.update_self]
      exact hderived.of_eq rfl rfl rfl rfl rfl rfl
    · simp only [Function.update_of_ne hn]
      exact hd n

/-- A moment of a cluster: a world that stands for a state of the protocol. -/
structure Moment (net : Network) where
  world : World
  simulated : ∃ a, Simulates net a world
  derived : ∀ n, (world.nodes n).Derived

namespace Moment

variable {m m' : Moment net} {Q : Moment net → Prop}

/-- The server. -/
def node (m : Moment net) (n : NodeId) : RaftNode := m.world.nodes n

/-- All entries a server has had and still goes by. -/
def log (m : Moment net) (n : NodeId) : List Entry := m.world.logicalLog n

/-- An admissible action leads from one moment to the next. -/
def Next (m m' : Moment net) : Prop := ∃ act, net.Admits act ∧ m.world.step act = .ok m'.world

/-- The actions that lead from one moment to a later one. -/
theorem exists_exec (h : Relation.ReflTransGen Next m m') :
    ∃ acts : List Action, (∀ act ∈ acts, net.Admits act) ∧ m.world.exec acts = .ok m'.world := by
  induction h using Relation.ReflTransGen.head_induction_on with
  | refl => exact ⟨[], by simp, rfl⟩
  | head hnext _ ih =>
    obtain ⟨act, hact, hstep⟩ := hnext
    obtain ⟨acts, hacts, hexec⟩ := ih
    refine ⟨act :: acts, ?_, ?_⟩
    · intro act' hmem
      rcases List.mem_cons.1 hmem with rfl | hmem
      · exact hact
      · exact hacts act' hmem
    · rw [World.exec, List.foldlM_cons, hstep]
      exact hexec

/-! ## The servers -/

theorem node_id (m : Moment net) (n : NodeId) : (m.node n).id = n := by
  obtain ⟨a, hs⟩ := m.simulated
  exact (hs.node n).id

theorem node_out (m : Moment net) (n : NodeId) : (m.node n).out = [] := by
  obtain ⟨a, hs⟩ := m.simulated
  exact hs.out n

theorem node_wellFormed (m : Moment net) (n : NodeId) : (m.node n).WellFormed := by
  obtain ⟨a, hs⟩ := m.simulated
  exact (hs.fits n).wellFormed

theorem node_bugs (m : Moment net) (n : NodeId) : (m.node n).bugs = NO_BUGS := by
  obtain ⟨a, hs⟩ := m.simulated
  exact (hs.node n).bugs

/-- The voters of a server are servers, each named once. -/
theorem node_voters (m : Moment net) (n : NodeId) : (m.node n).voters.Nodup ∧ (m.node n).voters ⊆ net.ids := by
  obtain ⟨a, hs⟩ := m.simulated
  exact (hs.fits n).legal

/-- A server holds its log. -/
theorem node_holds (m : Moment net) (n : NodeId) : (m.node n).Holds (m.log n) := by
  obtain ⟨a, hs⟩ := m.simulated
  rw [log, hs.logicalLog_eq]
  exact (hs.node n).stored.holds

/-! ## After an operation -/

/-- One server has performed an operation, and the calls it made are in the trace. -/
structure After (m : Moment net) (n : NodeId) (after : RaftNode) (m' : Moment net) : Prop where
  here : m'.node n = after.rested
  elsewhere : ∀ q, q ≠ n → m'.node q = m.node q
  kept : m.world.trace ⊆ m'.world.trace
  calls : ∀ e ∈ after.out, (n, e) ∈ m'.world.trace
  grows : ∃ a a', Simulates net a m.world ∧ Simulates net a' m'.world ∧ a.Extends a'

/-- A leader's log only grows. -/
theorem After.log_prefix (h : m.After n after m') (hr : (m.node q).role = .leader) (hr' : (m'.node q).role = .leader)
    (ht : (m'.node q).term = (m.node q).term) : m.log q <+: m'.log q := by
  obtain ⟨a, a', hs, hs', x⟩ := h.grows
  obtain ⟨hleads, hlog⟩ := hs.leader hr
  obtain ⟨-, hlog'⟩ := hs'.leader hr'
  rw [log, log, hlog, hlog', show (m'.world.nodes q).term = (m.world.nodes q).term from ht]
  exact x.llog ⟨q, hleads⟩

/-- A leader that holds what was its log has it still. -/
theorem After.log_eq (h : m.After n after m') (hr : (m.node q).role = .leader) (hr' : (m'.node q).role = .leader)
    (ht : (m'.node q).term = (m.node q).term) (hholds : (m'.node q).Holds (m.log q)) : m'.log q = m.log q := by
  have hlen := hholds.lastLogIndex
  rw [(m'.node_holds q).lastLogIndex] at hlen
  exact ((h.log_prefix hr hr' ht).eq_of_length (by omega)).symm

/-! ## The actions -/

/-- An admissible action leads to the moment after its operation, whichever result that has. -/
theorem can_perform (act : Action) (n : NodeId) (op : NodeOp) (hact : net.Admits act) (hop : m.world.operation act = some (n, op))
    (h : ∀ after m', (m.node n).perform op = .ok after → m.After n after m' → Can Next Q m') : Can Next Q m := by
  obtain ⟨a, hs⟩ := m.simulated
  obtain ⟨w', a', hstep, hsteps, -, -, hs'⟩ := hs.step hact
  obtain ⟨after, hperform, rfl⟩ : ∃ after, (m.world.nodes n).perform op = .ok after ∧ w' = {
      nodes := Function.update m.world.nodes n { after with out := [] }
      trace := m.world.trace ++ after.out.map fun e => (n, e) } := by
    have hperf := m.world.step_eq act
    rw [hop, hstep] at hperf
    simp only [World.perform] at hperf
    cases hp : (m.world.nodes n).perform op with
    | error e =>
      rw [hp] at hperf
      cases hperf
    | ok after =>
      rw [hp] at hperf
      exact ⟨after, rfl, Except.ok.inj hperf⟩
  have hderived := hs.step_derived hact hstep m.derived
  refine Can.step ⟨act, hact, hstep⟩ (h after ⟨_, ⟨a', hs'⟩, hderived⟩ hperform ⟨?_, ?_, ?_, ?_, a, a', hs, hs', ?_⟩)
  · exact Function.update_self ..
  · intro q hq
    exact Function.update_of_ne hq ..
  · exact List.subset_append_left ..
  · intro e he
    exact List.mem_append_right _ (List.mem_map_of_mem he)
  · exact (hsteps.inv_extends hs.inv).2

/-- A message that was sent can be delivered. -/
theorem can_deliver {src dst : NodeId} {msg : Message} (hmem : (src, Effect.send dst msg) ∈ m.world.trace)
    (h : ∀ after m', (m.node dst).handle msg = .ok after → m.After dst after m' → Can Next Q m') : Can Next Q m := by
  obtain ⟨k, hk⟩ := List.mem_iff_getElem?.1 hmem
  exact can_perform (.deliver k) dst (.handle msg) trivial (by simp only [World.operation, hk]) h

/-- An election timer that was armed can fire. -/
theorem can_elect {seq : Int} (hmem : (n, Effect.schedule .election seq) ∈ m.world.trace)
    (h : ∀ after m', (m.node n).onElectionTimeout seq = .ok after → m.After n after m' → Can Next Q m') : Can Next Q m := by
  obtain ⟨k, hk⟩ := List.mem_iff_getElem?.1 hmem
  exact can_perform (.fire k) n (.electionTimeout seq) trivial (by simp only [World.operation, hk]; rfl) h

/-- A heartbeat timer that was armed can fire. -/
theorem can_beat {seq : Int} (hmem : (n, Effect.schedule .heartbeat seq) ∈ m.world.trace)
    (h : ∀ after m', (m.node n).onHeartbeat seq = .ok after → m.After n after m' → Can Next Q m') : Can Next Q m := by
  obtain ⟨k, hk⟩ := List.mem_iff_getElem?.1 hmem
  exact can_perform (.fire k) n (.heartbeat seq) trivial (by simp only [World.operation, hk]; rfl) h

/-- A client can submit a command. -/
theorem can_submit {command : String} (hc : decodeConfig command = none) (n : NodeId)
    (h : ∀ after m', Prod.fst <$> (m.node n).clientCommand command = .ok after → m.After n after m' → Can Next Q m') : Can Next Q m :=
  can_perform (.clientCommand n command) n (.clientCommand command) hc rfl h

/-- A server can crash and come back. -/
theorem can_restart (n : NodeId) (h : ∀ m₁ m₂, m.After n (m.node n).pause m₁ → m₁.After n (m₁.node n).resume m₂ → Can Next Q m₂) :
    Can Next Q m := by
  refine can_perform (.pause n) n .pause trivial rfl fun after m₁ hp h₁ => ?_
  obtain rfl : (m.node n).pause = after := Except.ok.inj hp
  refine can_perform (.resume n) n .resume trivial rfl fun after m₂ hr h₂ => ?_
  obtain rfl : (m₁.node n).resume = after := Except.ok.inj hr
  exact h m₁ m₂ h₁ h₂

end Moment

/-- A moment of a run. -/
def Run.moment (r : Run net) (k : ℕ) : Moment net where
  world := r.state k
  simulated := by
    obtain ⟨s, hs⟩ := r.exists_shadow
    exact ⟨s k, hs.sim k⟩
  derived := by
    obtain ⟨s, hs⟩ := r.exists_shadow
    induction k with
    | zero =>
      rw [r.start]
      exact fun n => (RaftNode.Derived.new n _ net.config NO_BUGS _).of_eq rfl rfl rfl rfl rfl rfl
    | succ k ih => exact (hs.sim k).step_derived (r.admits k) (r.next k) ih

end DeterministicRaft
