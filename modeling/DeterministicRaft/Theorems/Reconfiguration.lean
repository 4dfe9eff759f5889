import DeterministicRaft.Adoption

/-!
# Who can reconfigure the cluster

A configuration travels through the log as a string, and `client_command` appends any string. The voters stay fixed as long as no
leader appends a client's string that names other voters; a leader that does hands it to every follower.
-/

namespace DeterministicRaft

open RaftNode Refinement

/-- The string names no configuration, or the given one. -/
def NamesNoOther (voters : List NodeId) (command : String) : Prop :=
  decodeConfig command = none ∨ decodeConfig command = some voters

/-- A message carries no other configuration than the given one. -/
def Effect.Fixed (voters : List NodeId) : Effect → Prop
  | .send _ (.appendEntries msg) => ∀ e ∈ msg.entries, NamesNoOther voters e.command
  | .send _ (.installSnapshot msg) => msg.voters = voters
  | _ => True

/-- The node has the given voters, and neither its log nor its snapshot names others. -/
structure RaftNode.Fixed (voters : List NodeId) (node : RaftNode) : Prop where
  current : node.voters = voters
  initial : node.initialVoters = voters
  log : ∀ e ∈ node.log, NamesNoOther voters e.command
  snapshot : ∀ s, node.snapshot = some s → s.voters = voters

variable {voters : List NodeId} {self after : RaftNode}

/-- The given voters are the only configuration. -/
theorem names_iff {command : String} : Names (· = voters) command ↔ NamesNoOther voters command := by
  unfold Names NamesNoOther
  cases decodeConfig command with
  | none => simp
  | some c => simp

theorem RaftNode.fixed_iff : self.Adopts (· = voters) ↔ self.Fixed voters :=
  ⟨fun h => ⟨h.current, h.initial, fun e he => names_iff.1 (h.log e he), h.snapshot⟩,
    fun h => ⟨h.current, h.initial, fun e he => names_iff.2 (h.log e he), h.snapshot⟩⟩

theorem Effect.fixed_iff {e : Effect} : e.Carries (· = voters) ↔ e.Fixed voters := by
  cases e with
  | send dst msg =>
    cases msg with
    | appendEntries msg => exact forall₂_congr fun _ _ => names_iff
    | _ => exact Iff.rfl
  | _ => exact Iff.rfl

/-! ## Runs -/

/-- What clients and operators do to keep the voters: nobody calls `change_config`, and no live leader is given a client's string
that names other voters than the first. -/
def KeepsVoters (voters : List NodeId) (w : World) : Action → Prop
  | .clientCommand n command => (w.nodes n).role = .leader → (w.nodes n).alive = true → NamesNoOther voters command
  | .changeConfig _ _ => False
  | _ => True

/-- All nodes have the given voters, and no call ever made names others. -/
structure World.Fixed (voters : List NodeId) (w : World) : Prop where
  nodes : ∀ n, (w.nodes n).Fixed voters
  idle : ∀ n, (w.nodes n).out = []
  trace : ∀ call ∈ w.trace, call.2.Fixed voters

namespace World.Fixed

theorem iff_adopts {w : World} : w.Adopts (· = voters) ↔ w.Fixed voters :=
  ⟨fun h => ⟨fun n => RaftNode.fixed_iff.1 (h.nodes n), h.idle, fun call hc => Effect.fixed_iff.1 (h.trace call hc)⟩,
    fun h => ⟨fun n => RaftNode.fixed_iff.2 (h.nodes n), h.idle, fun call hc => Effect.fixed_iff.2 (h.trace call hc)⟩⟩

theorem launch (ids initialVoters : List NodeId) (peers : NodeId → List NodeId) (config : NodeId → RaftConfig)
    (bugs : NodeId → Bugs) : (World.launch ids initialVoters peers config bugs).Fixed (initialVoters.insertionSort (· ≤ ·)) :=
  iff_adopts.1 (World.Adopts.launch ids initialVoters peers config bugs rfl)

/-- A step keeps the voters. -/
theorem step (w : World) (act : Action) (after : World) (ha : KeepsVoters voters w act) (hstep : w.step act = .ok after)
    (h : w.Fixed voters) : after.Fixed voters := by
  refine iff_adopts.1 (World.Adopts.step w act after ?_ hstep (iff_adopts.2 h))
  cases act with
  | clientCommand n command => exact fun hr hl => names_iff.2 (ha hr hl)
  | changeConfig n newVoters => exact ha.elim
  | _ => trivial

end World.Fixed

/-- In every run in which `change_config` is never called and no live leader is given a string that names other voters, every node
has the first voters at every moment. -/
theorem voters_fixed (ids initialVoters : List NodeId) (peers : NodeId → List NodeId) (config : NodeId → RaftConfig)
    (bugs : NodeId → Bugs) (acts : List Action) (w : World)
    (hrun : World.Follows (KeepsVoters (initialVoters.insertionSort (· ≤ ·)))
      (World.launch ids initialVoters peers config bugs) acts w) (n : NodeId) :
    (w.nodes n).voters = initialVoters.insertionSort (· ≤ ·) :=
  ((hrun.keeps World.Fixed.step (World.Fixed.launch ids initialVoters peers config bugs)).nodes n).current

/-- Three servers. -/
def threeServers : World :=
  World.launch [1, 2, 3] [1, 2, 3] (fun n => [1, 2, 3].filter (· ≠ n)) (fun _ => {}) fun _ => NO_BUGS

/-- Server 1 is elected by server 2, takes a client's string and sends it to server 2. -/
def replicating (command : String) : List Action := [.fire 0, .deliver 7, .deliver 13, .clientCommand 1 command, .deliver 19]

theorem voters_fixed_replicating : ∃ w, threeServers.exec (replicating "cfg") = .ok w ∧
    (w.nodes 2).log = [⟨1, "cfg"⟩] ∧ ∀ n, (w.nodes n).voters = [1, 2, 3] := by
  have hlog : (threeServers.exec (replicating "cfg")).toOption.map (fun w => (w.nodes 2).log) = some [⟨1, "cfg"⟩] := by
    decide +kernel
  cases h : threeServers.exec (replicating "cfg") with
  | error e =>
    rw [h] at hlog
    cases hlog
  | ok w =>
    rw [h] at hlog
    have hnone : decodeConfig "cfg" = none := by decide +kernel
    have hall : ∀ act ∈ replicating "cfg", ∀ w, KeepsVoters ([1, 2, 3].insertionSort (· ≤ ·)) w act := by
      intro act hact w
      simp only [replicating, List.mem_cons, List.not_mem_nil, or_false] at hact
      rcases hact with rfl | rfl | rfl | rfl | rfl
      · trivial
      · trivial
      · trivial
      · exact fun _ _ => Or.inl hnone
      · trivial
    refine ⟨w, rfl, Option.some.inj hlog, fun n => ?_⟩
    have hv := voters_fixed [1, 2, 3] [1, 2, 3] (fun n => [1, 2, 3].filter (· ≠ n)) (fun _ => {}) (fun _ => NO_BUGS)
      (replicating "cfg") w (World.Follows.of_exec hall h) n
    rw [hv]
    decide

/-- A client's string makes server 2 believe that server 1 is the only voter. -/
theorem voters_forged : ∃ w, threeServers.exec (replicating "cfg:1") = .ok w ∧
    (∀ n newVoters, Action.changeConfig n newVoters ∉ replicating "cfg:1") ∧ (w.nodes 1).voters = [1, 2, 3] ∧
    (w.nodes 2).voters = [1] := by
  have hvoters : (threeServers.exec (replicating "cfg:1")).toOption.map (fun w => ((w.nodes 1).voters, (w.nodes 2).voters)) =
      some ([1, 2, 3], [1]) := by decide +kernel
  cases h : threeServers.exec (replicating "cfg:1") with
  | error e =>
    rw [h] at hvoters
    cases hvoters
  | ok w =>
    rw [h] at hvoters
    have hpair := Option.some.inj hvoters
    rw [Prod.mk.injEq] at hpair
    exact ⟨w, rfl, by simp [replicating], hpair.1, hpair.2⟩

end DeterministicRaft
