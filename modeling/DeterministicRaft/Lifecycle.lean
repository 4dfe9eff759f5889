import DeterministicRaft.Harness
import DeterministicRaft.NodeInvariant

/-!
# Which events bring nodes down, and change the network

Only a crash and a restart change whether a node is alive. An event that is no fault and no recovery leaves the network's faults as
they are, and schedules no fault and no recovery.
-/

namespace DeterministicRaft

open RaftNode Refinement

/-! ## Nodes -/

/-- A move that is no crash does not bring a node down. -/
theorem Move.alive {I : Inputs} {self after : RaftNode} (hI : ¬I.crashes) (hm : Move I self after) (ha : self.alive = true) :
    after.alive = true := by
  cases hm with
  | stepDown term =>
    rw [becomeFollower_eq]
    exact ha
  | propose command =>
    obtain ⟨clientIndex, h⟩ := proposed_eq self command
    rw [h]
    exact ha
  | truncate index => exact (Makes.truncateFrom_keeps self index).2.1.trans ha
  | extend index entry => exact (Makes.appendReplicated_keeps self index entry).2.1.trans ha
  | commit index entries =>
    obtain ⟨es, -, h⟩ := committed_eq self index entries
    rw [h]
    exact ha
  | pause hq => exact absurd hq hI
  | resume => rfl
  | _ => exact ha

/-- The inputs of any operations but crashes. -/
def Inputs.running : Inputs where
  agrees := False
  polite := False
  submits _ := True
  proposes _ := True
  replicates _ := True
  crashes := False

/-- An operation that is no crash and no restart. -/
def NodeOp.Ordinary : NodeOp → Prop
  | .pause | .resume => False
  | _ => True

theorem NodeOp.admissible_running (op : NodeOp) (self : RaftNode) : op.Admissible .running self := by
  cases op with
  | handle msg =>
    cases msg with
    | appendEntries msg => exact ⟨fun h => h.elim, fun _ _ => trivial⟩
    | readHeartbeat msg => exact fun h => h.elim
    | _ => trivial
  | clientCommand command => exact fun _ _ => trivial
  | _ => trivial

/-- A node that is down does nothing. -/
theorem perform_down {self : RaftNode} (ha : self.alive = false) {op : NodeOp} (ho : op.Ordinary) :
    Ensures (self.perform op) fun after => after.alive = false := by
  cases op with
  | start => exact Ensures.pure ha
  | handle msg =>
    unfold RaftNode.perform RaftNode.handle
    simp only
    rw [if_pos ha]
    exact Ensures.pure ha
  | electionTimeout seq =>
    unfold RaftNode.perform onElectionTimeout
    simp only
    rw [if_pos (Or.inl ha)]
    exact Ensures.pure ha
  | heartbeat seq =>
    unfold RaftNode.perform onHeartbeat
    simp only
    rw [if_pos (Or.inl ha)]
    exact Ensures.pure ha
  | clientCommand command =>
    unfold RaftNode.perform RaftNode.clientCommand
    simp only
    rw [if_pos (Or.inr ha)]
    exact Ensures.map (Ensures.pure ha)
  | changeConfig newVoters =>
    unfold RaftNode.perform RaftNode.changeConfig
    simp only
    rw [if_pos (Or.inr ha)]
    exact Ensures.map (Ensures.pure ha)
  | requestRead command =>
    unfold RaftNode.perform RaftNode.requestRead
    simp only
    rw [if_pos (Or.inr (Or.inl ha))]
    exact Ensures.pure ha
  | pause => exact ho.elim
  | resume => exact ho.elim

/-- Only a crash or a restart changes whether a node is alive. -/
theorem perform_alive (self : RaftNode) {op : NodeOp} (ho : op.Ordinary) :
    Ensures (self.perform op) fun after => after.alive = self.alive := by
  cases ha : self.alive with
  | false => exact perform_down ha ho
  | true =>
    refine (perform_cases self op (op.admissible_running self)).mono ?_
    have hmoved : ∀ {after}, Moved .running self after → after.alive = true := by
      intro after h
      induction h with
      | refl => exact ha
      | tail _ hm ih => exact hm.alive (fun h => h) ih
    rintro after (h | h | ⟨rfl, -⟩)
    · exact hmoved (h.moved trivial trivial)
    · exact hmoved h.of_installing
    · exact ho.elim

/-! ## Clusters -/

/-- An action that is no crash and no restart. -/
def Action.Ordinary : Action → Prop
  | .pause _ | .resume _ => False
  | _ => True

theorem Action.Ordinary.operation {w : World} {action : Action} (ha : action.Ordinary) {n : NodeId} {op : NodeOp}
    (h : w.operation action = some (n, op)) : op.Ordinary := by
  rcases World.operation_cases h with ⟨_, _, _, rfl⟩ | ⟨kind, _, _, rfl⟩ | ⟨_, _, rfl⟩ | ⟨_, _, rfl⟩ | ⟨_, _, rfl⟩ | ⟨rfl, -⟩ | ⟨rfl, -⟩
  · trivial
  · cases kind <;> trivial
  · trivial
  · trivial
  · trivial
  · exact ha.elim
  · exact ha.elim

/-- The same nodes are alive. -/
def SameAlive (w w' : World) : Prop := ∀ n, (w'.nodes n).alive = (w.nodes n).alive

theorem World.step_alive (w : World) {action : Action} (ha : action.Ordinary) : Ensures (w.step action) (SameAlive w) := by
  intro after h
  rcases World.step_cases h with rfl | ⟨n, op, self, hop, hp, rfl⟩
  · exact fun _ => rfl
  · intro m
    by_cases hm : m = n
    · subst hm
      simp only [Function.update_self]
      exact perform_alive _ (ha.operation hop) _ hp
    · simp only [Function.update_of_ne hm]

namespace Cluster

variable (net : Network)

theorem onApply_world (c : Cluster) (encoded result : String) : (c.onApply net encoded result).world = c.world := by
  unfold onApply
  simp only
  split
  · rfl
  · split <;> split <;> try rfl
    all_goals split <;> rfl

theorem hearAll_world (c : Cluster) (calls : List (NodeId × Effect)) :
    (calls.foldl (fun self call => self.hear net call.2) c).world = c.world := by
  induction calls generalizing c with
  | nil => rfl
  | cons call calls ih =>
    rw [List.foldl_cons, ih]
    cases call.2 with
    | onApply encoded result => exact onApply_world net c encoded result
    | _ => rfl

/-- The nodes after an action are those of the world. -/
theorem act_world (c : Cluster) (action : Action) : Ensures (c.act net action) fun c' => c.world.step action = .ok c'.world := by
  unfold act
  refine Ensures.bind (Q := fun w => c.world.step action = .ok w) (fun w hw => hw) fun w hw => Ensures.pure ?_
  rw [hearAll_world]
  exact hw

theorem act_alive (c : Cluster) {action : Action} (ha : action.Ordinary) :
    Ensures (c.act net action) fun c' => SameAlive c.world c'.world :=
  (act_world net c action).mono fun _ h => World.step_alive c.world ha _ h

theorem submit_alive (c : Cluster) (target : NodeId) (encoded : String) :
    Ensures (c.submit net target encoded) fun c' => SameAlive c.world c'.world := by
  unfold submit
  simp only
  split
  · split
    · refine Ensures.pure ?_
      rw [onApply_world]
      exact fun _ => rfl
    · split
      · exact act_alive net c trivial
      · exact act_alive net c trivial
  · exact Ensures.pure fun _ => rfl

theorem invoke_world (c : Cluster) (command : Command) (encoded : String) : (c.invoke net command encoded).world = c.world := by
  unfold invoke
  split <;> rfl

theorem clientTick_alive (c : Cluster) (target : NodeId) :
    Ensures (c.clientTick net target) fun c' => SameAlive c.world c'.world := by
  unfold clientTick
  simp only
  split
  · refine (submit_alive net _ target _).mono fun _ h => ?_
    rw [invoke_world] at h
    exact h
  · exact submit_alive net _ target _

end Cluster

end DeterministicRaft
