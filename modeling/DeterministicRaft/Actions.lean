import DeterministicRaft.Network
import DeterministicRaft.NodeRuns

/-!
# The actions of a run as operations of nodes

Each action performs one operation on one node, or nothing. An invariant of all nodes and of all calls they ever made is kept by a
run as soon as every operation keeps it.
-/

namespace DeterministicRaft

/-- The callback of a timer as an operation. -/
def NodeOp.timeout (seq : Int) : TimerKind → NodeOp
  | .election => .electionTimeout seq
  | .heartbeat => .heartbeat seq

namespace World

/-- The node an action is about, and the operation it performs there. -/
def operation (w : World) : Action → Option (NodeId × NodeOp)
  | .deliver k =>
    match w.trace[k]? with
    | some (_, .send dst msg) => some (dst, .handle msg)
    | _ => none
  | .fire k =>
    match w.trace[k]? with
    | some (n, .schedule kind seq) => some (n, .timeout seq kind)
    | _ => none
  | .clientCommand n command => some (n, .clientCommand command)
  | .changeConfig n newVoters => some (n, .changeConfig newVoters)
  | .requestRead n command => some (n, .requestRead command)
  | .pause n => some (n, .pause)
  | .resume n => some (n, .resume)

/-- An action performs its operation, or nothing. -/
theorem step_eq (w : World) (act : Action) : w.step act = match w.operation act with
    | some (n, op) => w.perform n (·.perform op)
    | none => .ok w := by
  cases act with
  | deliver k =>
    rcases hk : w.trace[k]? with _ | ⟨n, e⟩
    · simp only [step, operation, hk]
    · cases e <;> simp only [step, operation, hk, RaftNode.perform]
  | fire k =>
    rcases hk : w.trace[k]? with _ | ⟨n, e⟩
    · simp only [step, operation, hk]
    · cases e with
      | schedule kind seq => cases kind <;> simp only [step, operation, hk] <;> rfl
      | _ => simp only [step, operation, hk]
  | _ => rfl

/-- What an action leads to: one node has performed an operation, and its calls are in the trace; or nothing has happened. -/
theorem step_cases {w after : World} {act : Action} (h : w.step act = .ok after) : after = w ∨
    ∃ n op self, w.operation act = some (n, op) ∧ (w.nodes n).perform op = .ok self ∧ after = {
      nodes := Function.update w.nodes n { self with out := [] }
      trace := w.trace ++ self.out.map fun e => (n, e) } := by
  rw [step_eq] at h
  cases hop : w.operation act with
  | none =>
    rw [hop] at h
    exact Or.inl (Except.ok.inj h).symm
  | some target =>
    obtain ⟨n, op⟩ := target
    rw [hop] at h
    simp only [World.perform] at h
    cases hp : (w.nodes n).perform op with
    | error e =>
      rw [hp] at h
      cases h
    | ok self =>
      rw [hp] at h
      exact Or.inr ⟨n, op, self, rfl, hp, (Except.ok.inj h).symm⟩

/-- Which operations the actions perform, and which calls of the trace they take up. -/
theorem operation_cases {w : World} {act : Action} {n : NodeId} {op : NodeOp} (h : w.operation act = some (n, op)) :
    (∃ src msg, (src, Effect.send n msg) ∈ w.trace ∧ op = .handle msg) ∨
    (∃ kind seq, (n, Effect.schedule kind seq) ∈ w.trace ∧ op = .timeout seq kind) ∨
    (∃ command, act = .clientCommand n command ∧ op = .clientCommand command) ∨
    (∃ newVoters, act = .changeConfig n newVoters ∧ op = .changeConfig newVoters) ∨
    (∃ command, act = .requestRead n command ∧ op = .requestRead command) ∨
    (act = .pause n ∧ op = .pause) ∨ (act = .resume n ∧ op = .resume) := by
  cases act with
  | deliver k =>
    rcases hk : w.trace[k]? with _ | ⟨m, e⟩
    · simp [operation, hk] at h
    · cases e with
      | send dst sent =>
        simp only [operation, hk, Option.some.injEq, Prod.mk.injEq] at h
        rw [← h.1, ← h.2]
        exact Or.inl ⟨m, sent, List.mem_of_getElem? hk, rfl⟩
      | _ => simp [operation, hk] at h
  | fire k =>
    rcases hk : w.trace[k]? with _ | ⟨m, e⟩
    · simp [operation, hk] at h
    · cases e with
      | schedule kind seq =>
        simp only [operation, hk, Option.some.injEq, Prod.mk.injEq] at h
        rw [← h.1, ← h.2]
        exact Or.inr (Or.inl ⟨kind, seq, List.mem_of_getElem? hk, rfl⟩)
      | _ => simp [operation, hk] at h
  | _ =>
    simp only [operation, Option.some.injEq, Prod.mk.injEq] at h
    rw [← h.1, ← h.2]
    simp

/-- The world after some actions, each of which is as `P` says when it happens. -/
inductive Follows (P : World → Action → Prop) : World → List Action → World → Prop
  | nil (w : World) : Follows P w [] w
  | cons {w mid after : World} {act : Action} {acts : List Action} (hact : P w act) (hstep : w.step act = .ok mid)
      (hrest : Follows P mid acts after) : Follows P w (act :: acts) after

variable {P : World → Action → Prop} {w after : World} {acts : List Action}

/-- A run whose actions are as `P` says at any time. -/
theorem Follows.of_exec (hP : ∀ act ∈ acts, ∀ w, P w act) (h : w.exec acts = .ok after) : Follows P w acts after := by
  induction acts generalizing w with
  | nil =>
    cases h
    exact .nil _
  | cons act acts ih =>
    rw [World.exec, List.foldlM_cons] at h
    cases hs : w.step act with
    | error e =>
      rw [hs] at h
      cases h
    | ok mid =>
      rw [hs] at h
      exact .cons (hP act List.mem_cons_self _) hs (ih (fun a ha => hP a (List.mem_cons_of_mem _ ha)) h)

/-- What every step keeps holds after some steps. -/
theorem Follows.keeps {Q : World → Prop} (hstep : ∀ w act mid, P w act → w.step act = .ok mid → Q w → Q mid)
    (h : Follows P w acts after) (hw : Q w) : Q after := by
  induction h with
  | nil w => exact hw
  | cons hact hs _ ih => exact ih (hstep _ _ _ hact hs hw)

/-- The nodes, newly made, their first election timers armed: each with its own peers, configuration and defects, and all with the
same first voters. -/
def launch (ids initialVoters : List NodeId) (peers : NodeId → List NodeId) (config : NodeId → RaftConfig) (bugs : NodeId → Bugs) :
    World where
  nodes n := { (RaftNode.new n (peers n) (config n) (bugs n) (some initialVoters)).start with out := [] }
  trace := ids.flatMap fun n =>
    (RaftNode.new n (peers n) (config n) (bugs n) (some initialVoters)).start.out.map fun e => (n, e)

end World

end DeterministicRaft
