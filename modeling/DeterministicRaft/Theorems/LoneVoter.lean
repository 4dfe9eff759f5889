import DeterministicRaft.Insiders
import DeterministicRaft.Twins

/-!
# A lone voter

A cluster whose only voter is one server elects it, and it takes commands. But a leader counts replicas only when a follower answers, and
there is no follower to answer: nothing is ever committed, no read is accepted, and no configuration is changed.
-/

namespace DeterministicRaft

open RaftNode Refinement

variable {net : Network} {self mid after : RaftNode}

/-- The call arms a timer or tells the tracer: nothing is sent, no client is answered and nothing is compacted. -/
def Effect.Inward : Effect → Prop
  | .schedule _ _ => True
  | .record _ => True
  | _ => False

namespace RaftNode

/-- The node has committed nothing. -/
structure Barren (node : RaftNode) : Prop where
  snapshot : node.snapshot = none
  commitIndex : node.commitIndex = 0
  lastApplied : node.lastApplied = 0
  own : node.committedThisTerm = false

/-- The node commits nothing, and its calls are inward. -/
structure Idles (u v : RaftNode) : Prop where
  snapshot : v.snapshot = u.snapshot
  commitIndex : v.commitIndex = u.commitIndex
  lastApplied : v.lastApplied = u.lastApplied
  own : u.committedThisTerm = false → v.committedThisTerm = false
  calls : ∃ es, v.out = u.out ++ es ∧ ∀ e ∈ es, e.Inward

namespace Idles

theorem refl (self : RaftNode) : self.Idles self := ⟨rfl, rfl, rfl, fun h => h, [], by simp, by simp⟩

theorem trans (h : self.Idles mid) (h' : mid.Idles after) : self.Idles after := by
  obtain ⟨es, hes, hin⟩ := h.calls
  obtain ⟨es', hes', hin'⟩ := h'.calls
  refine ⟨h'.snapshot.trans h.snapshot, h'.commitIndex.trans h.commitIndex, h'.lastApplied.trans h.lastApplied,
    fun hown => h'.own (h.own hown), es ++ es', by rw [hes', hes, List.append_assoc], fun e he => ?_⟩
  exact (List.mem_append.1 he).elim (hin e) (hin' e)

theorem barren (h : self.Idles after) (hself : self.Barren) : after.Barren :=
  ⟨h.snapshot.trans hself.snapshot, h.commitIndex.trans hself.commitIndex, h.lastApplied.trans hself.lastApplied, h.own hself.own⟩

theorem armElectionTimer (self : RaftNode) : self.Idles self.armElectionTimer :=
  ⟨rfl, rfl, rfl, fun h => h, [.schedule .election (self.timerSeq + 1)], rfl, by simp [Effect.Inward]⟩

theorem armHeartbeatTimer (self : RaftNode) : self.Idles self.armHeartbeatTimer :=
  ⟨rfl, rfl, rfl, fun h => h, [.schedule .heartbeat (self.timerSeq + 1)], rfl, by simp [Effect.Inward]⟩

theorem record (self : RaftNode) (event : Event) : self.Idles (self.record event) :=
  ⟨rfl, rfl, rfl, fun h => h, [.record event], rfl, by simp [Effect.Inward]⟩

end Idles

/-- Who has no other voters sends no heartbeats. -/
theorem broadcastHeartbeats_alone (h : self.otherVoters = []) : self.broadcastHeartbeats = .ok self := by
  rw [broadcastHeartbeats, h]
  rfl

theorem maybeWin_idles (h : self.otherVoters = []) : Ensures self.maybeWin self.Idles := by
  unfold maybeWin
  simp only
  split
  · have hleading : self.leading.broadcastHeartbeats = .ok self.leading := broadcastHeartbeats_alone h
    have hleads : self.Idles self.leading :=
      ⟨rfl, rfl, rfl, fun _ => rfl, [.record (.role .leader self.term)], rfl, by simp [Effect.Inward]⟩
    refine Ensures.bind (Q := fun mid => mid = self.leading) (fun mid hmid => (Except.ok.inj (hleading.symm.trans hmid)).symm) ?_
    rintro mid rfl
    exact Ensures.pure (hleads.trans (Idles.armHeartbeatTimer _))
  · exact Ensures.pure (Idles.refl self)

theorem startElection_idles (h : self.id ∈ self.voters → self.otherVoters = []) : Ensures self.startElection self.Idles := by
  by_cases hid : self.id ∈ self.voters
  · rw [Twins.startElection_eq hid]
    have hcampaigned : self.Idles self.campaigned :=
      ⟨rfl, rfl, rfl, fun h => h, [.record (.election (self.term + 1)), .record (.role .candidate (self.term + 1)),
        .schedule .election (self.timerSeq + 1)], by simp [campaigned, RaftNode.record, emit, RaftNode.armElectionTimer],
        by simp [Effect.Inward]⟩
    have hnone : self.campaigned.otherVoters = [] := h hid
    refine Ensures.bind (Ensures.trivial _) fun t _ => ?_
    rw [hnone, List.foldl_nil]
    exact (maybeWin_idles hnone).mono fun after hafter => hcampaigned.trans hafter
  · unfold startElection
    rw [if_pos hid]
    exact Ensures.pure (Idles.armElectionTimer self)

/-- A leader that has committed nothing of its term refuses every proposal. -/
theorem changeConfig_refused (h : self.committedThisTerm = false) (hb : self.bugs = NO_BUGS) (newVoters : List NodeId) :
    self.changeConfig newVoters = .ok (self, false) := by
  unfold changeConfig
  simp only
  split
  · rfl
  · split
    · rfl
    · split
      · rfl
      · split
        · rfl
        · rw [if_pos ⟨h, by rw [hb]; rfl⟩]
          rfl

/-- And every read. -/
theorem requestRead_refused (h : self.committedThisTerm = false) (command : String) : self.requestRead command = (self, false) := by
  rw [requestRead, if_pos (Or.inr (Or.inr h))]

/-- Whatever happens to a node without other voters, but for messages, it commits nothing, and its calls are inward. -/
theorem Barren.perform (h : self.Barren) (hb : self.bugs = NO_BUGS) (hin : self.Inside)
    (hno : self.id ∈ self.voters → self.otherVoters = []) {op : NodeOp} (hop : ∀ msg, op ≠ .handle msg) :
    Ensures (self.perform op) fun after => after.Barren ∧ ∃ es, after.out = self.out ++ es ∧ ∀ e ∈ es, e.Inward := by
  have hidles : ∀ {after : RaftNode}, self.Idles after →
      after.Barren ∧ ∃ es, after.out = self.out ++ es ∧ ∀ e ∈ es, e.Inward := fun hi => ⟨hi.barren h, hi.calls⟩
  have hlead : self.role = .leader → self.otherVoters = [] := fun hr => hno (hin (by rw [hr]; simp))
  cases op with
  | start => exact Ensures.pure (hidles (Idles.armElectionTimer self))
  | handle msg => exact absurd rfl (hop msg)
  | electionTimeout seq =>
    unfold RaftNode.perform onElectionTimeout
    simp only
    split
    · exact Ensures.pure (hidles (Idles.refl self))
    · have hstart : Ensures (self.record (.timer self.term)).startElection (self.record (.timer self.term)).Idles := startElection_idles hno
      exact hstart.mono fun after hafter => hidles ((Idles.record self _).trans hafter)
  | heartbeat seq =>
    unfold RaftNode.perform onHeartbeat
    simp only
    split
    · exact Ensures.pure (hidles (Idles.refl self))
    · rename_i hg
      have hr : self.role = .leader := by
        by_contra hne
        exact hg (Or.inr (Or.inr hne))
      rw [broadcastHeartbeats_alone (hlead hr)]
      exact Ensures.pure (hidles (Idles.armHeartbeatTimer self))
  | clientCommand command =>
    unfold RaftNode.perform clientCommand
    simp only
    split
    · exact Ensures.map (Ensures.pure (hidles (Idles.refl self)))
    · rename_i hg
      have hr : self.role = .leader := by
        by_contra hne
        exact hg (Or.inl hne)
      split
      · exact Ensures.map (Ensures.pure (hidles (Idles.record self _)))
      · obtain ⟨clientIndex, heq⟩ := proposed_eq self command
        have hnone : (self.proposed command).otherVoters = [] := by
          rw [heq]
          exact hlead hr
        have hproposed : self.Idles (self.proposed command) := by
          rw [heq]
          exact ⟨rfl, rfl, rfl, fun h => h, _, rfl, by simp [Effect.Inward]⟩
        refine Ensures.map (Ensures.bind (Q := fun mid => mid = self.proposed command)
          (fun mid hmid => (Except.ok.inj ((broadcastHeartbeats_alone hnone).symm.trans hmid)).symm) ?_)
        rintro mid rfl
        exact Ensures.pure (hidles hproposed)
  | changeConfig newVoters =>
    show Ensures (Prod.fst <$> self.changeConfig newVoters) _
    rw [changeConfig_refused h.own hb]
    exact Ensures.pure (hidles (Idles.refl self))
  | requestRead command =>
    show Ensures (.ok (self.requestRead command).1) _
    rw [requestRead_refused h.own]
    exact Ensures.pure (hidles (Idles.refl self))
  | pause =>
    show Ensures (.ok self.pause) _
    rw [pause_fields, h.snapshot]
    exact Ensures.pure ⟨⟨rfl, rfl, rfl, rfl⟩, [], by simp, by simp⟩
  | resume =>
    refine Ensures.pure (hidles ⟨rfl, rfl, rfl, fun h => h, [.schedule .election (self.timerSeq + 1)], ?_, by simp [Effect.Inward]⟩)
    simp [RaftNode.resume, RaftNode.armElectionTimer, emit]

end RaftNode

/-- No node has committed anything, and no message was ever sent. -/
structure World.Unheard (w : World) : Prop where
  nodes : ∀ n, (w.nodes n).Barren
  trace : ∀ call ∈ w.trace, call.2.Inward

/-- There is nothing to sort. -/
theorem insertionSort_alone {V : List NodeId} (hone : V.length ≤ 1) : V.insertionSort (· ≤ ·) = V := by
  cases V with
  | nil => rfl
  | cons v V =>
    obtain rfl : V = [] := List.length_eq_zero_iff.1 (by simpa using hone)
    rfl

/-- A server that is among at most one voters has no others. -/
theorem otherVoters_alone {V : List NodeId} (hone : V.length ≤ 1) (hV : self.voters = V) (hid : self.id ∈ self.voters) :
    self.otherVoters = [] := by
  obtain ⟨v, rfl⟩ : ∃ v, V = [v] := by
    rw [hV] at hid
    exact List.length_eq_one_iff.1 (hone.antisymm (List.length_pos_of_mem hid))
  rw [hV, List.mem_singleton] at hid
  simp [RaftNode.otherVoters, hV, hid]

/-- One step: there is no message to deliver, and the node that acts commits nothing and sends nothing. -/
theorem World.Unheard.step {w w' : World} {act : Action} (h : w.Unheard) (hnext : w.step act = .ok w')
    (hbugs : ∀ n, (w.nodes n).bugs = NO_BUGS) (hinside : ∀ n, (w.nodes n).Inside) (hout : ∀ n, (w.nodes n).out = [])
    (hno : ∀ n, (w.nodes n).id ∈ (w.nodes n).voters → (w.nodes n).otherVoters = []) : w'.Unheard := by
  rcases World.step_cases hnext with heq | ⟨m, op, self, hop, hp, heq⟩
  · rw [heq]
    exact h
  · have hmsg : ∀ msg, op ≠ .handle msg := by
      rintro msg rfl
      rcases World.operation_cases hop with ⟨src, msg, hsrc, -⟩ | ⟨kind, seq, -, hk⟩ | ⟨c, -, hc⟩ | ⟨vs, -, hc⟩ | ⟨c, -, hc⟩ |
        ⟨-, hc⟩ | ⟨-, hc⟩
      · exact h.trace _ hsrc
      · cases kind <;> cases hk
      all_goals cases hc
    obtain ⟨hbarren, es, hes, hin⟩ := (h.nodes m).perform (hbugs m) (hinside m) (hno m) hmsg self hp
    rw [heq]
    refine ⟨fun n => ?_, fun call hc => ?_⟩
    · by_cases hn : n = m
      · subst hn
        simp only [Function.update_self]
        exact ⟨hbarren.snapshot, hbarren.commitIndex, hbarren.lastApplied, hbarren.own⟩
      · simp only [Function.update_of_ne hn]
        exact h.nodes n
    · rcases List.mem_append.1 hc with hc | hc
      · exact h.trace call hc
      · obtain ⟨e, he, rfl⟩ := List.mem_map.1 hc
        rw [hes, hout m, List.nil_append] at he
        exact hin e he

/-- From a cluster with at most one voter nothing is ever heard, and its voters stay what they are. No proposal comes into a log: a
client's command is none, and an operator's is refused. -/
theorem Run.unheard (r : Run net) (hone : net.initialVoters.length ≤ 1) (k : ℕ) :
    (r.state k).Unheard ∧ (r.state k).Adopts (· = net.initialVoters.insertionSort (· ≤ ·)) := by
  induction k with
  | zero =>
    rw [r.start]
    refine ⟨⟨fun n => ⟨rfl, rfl, rfl, rfl⟩, fun call hc => ?_⟩, World.Adopts.launch net.ids net.initialVoters
      (fun n => net.ids.filter (· ≠ n)) (fun _ => net.config) (fun _ => NO_BUGS) rfl⟩
    obtain ⟨n, -, hc⟩ := List.mem_flatMap.1 hc
    obtain ⟨e, he, rfl⟩ := List.mem_map.1 hc
    rw [List.mem_singleton.1 he]
    trivial
  | succ k ih =>
    obtain ⟨hunheard, hadopts⟩ := ih
    obtain ⟨s, hs⟩ := r.exists_shadow
    have hsim := hs.sim k
    have hbugs : ∀ n, ((r.state k).nodes n).bugs = NO_BUGS := fun n => (hsim.node n).bugs
    have hlen : (net.initialVoters.insertionSort (· ≤ ·)).length ≤ 1 := by rwa [List.length_insertionSort]
    refine ⟨hunheard.step (r.next k) hbugs (r.inside k) hsim.out fun n => otherVoters_alone hlen (hadopts.nodes n).current,
      World.Adopts.step (r.state k) (r.action k) _ ?_ (r.next k) hadopts⟩
    have hadmits := r.admits k
    cases hact : r.action k with
    | clientCommand n command =>
      rw [hact] at hadmits
      have hnone : decodeConfig command = none := hadmits
      intro _ _ voters hnames
      rw [hnone] at hnames
      cases hnames
    | changeConfig n newVoters =>
      intro after hafter
      rw [changeConfig_refused (hunheard.nodes n).own (hbugs n)] at hafter
      cases hafter
    | _ => trivial

/-- In every run of a cluster that starts with at most one voter: no message is ever sent, no client is ever answered and nothing is ever
compacted; and at every moment no server has committed or applied anything, its voters are the first ones, and it refuses every change of
the configuration and every read. -/
theorem lone_voter_commits_nothing (r : Run net) (hone : net.initialVoters.length ≤ 1) (k : ℕ) :
    (∀ call ∈ (r.state k).trace, call.2.Inward) ∧ ∀ n, ((r.state k).nodes n).commitIndex = 0 ∧ ((r.state k).nodes n).lastApplied = 0 ∧
      ((r.state k).nodes n).voters = net.initialVoters ∧
      (∀ newVoters, ((r.state k).nodes n).changeConfig newVoters = .ok ((r.state k).nodes n, false)) ∧
      ∀ command, ((r.state k).nodes n).requestRead command = ((r.state k).nodes n, false) := by
  obtain ⟨hunheard, hadopts⟩ := r.unheard hone k
  obtain ⟨s, hs⟩ := r.exists_shadow
  refine ⟨hunheard.trace, fun n => ⟨(hunheard.nodes n).commitIndex, (hunheard.nodes n).lastApplied, ?_,
    changeConfig_refused (hunheard.nodes n).own ((hs.sim k).node n).bugs, requestRead_refused (hunheard.nodes n).own⟩⟩
  rw [(hadopts.nodes n).current, insertionSort_alone hone]

/-- Four servers, of which only one votes. -/
def hermit : Network where
  ids := [0, 1, 2, 3]
  initialVoters := [0]
  config := { snapshotThreshold := 1 }
  reconfigurable := true
  readIndex := true
  recordHistory := true
  ids_nodup := by decide
  voters_nodup := by decide
  voters_subset := by decide

/-- Server 0 is elected, takes a command, is to make voters of all, and has a heartbeat to send. -/
def hermitActions : List Action := [.fire 0, .clientCommand 0 "0:0:put:k0:v0:", .changeConfig 0 [0, 1, 2, 3], .fire 9]

theorem admits_hermitActions : ∀ k, hermit.Admits (andIdle hermitActions k) := by
  refine admits_andIdle fun act hact => ?_
  simp only [hermitActions, List.mem_cons, List.not_mem_nil, or_false] at hact
  rcases hact with rfl | rfl | rfl | rfl
  · exact trivial
  · show decodeConfig _ = none
    decide
  · exact ⟨rfl, List.Subset.refl _⟩
  · exact trivial

/-- The run of the cluster with one voter. -/
noncomputable def hermitRun : Run hermit := hermit.runOf admits_hermitActions

/-- Server 0 leads and has the command in its log, but it has not committed it, and will not. -/
theorem lone_voter_commits_nothing_hermit : ((hermitRun.state 4).nodes 0).role = .leader ∧
    ((hermitRun.state 4).nodes 0).log = [⟨1, "0:0:put:k0:v0:"⟩] ∧ ∀ k, ((hermitRun.state k).nodes 0).commitIndex = 0 := by
  have hleads := of_decide_eq_true
    (holds_of_exec admits_hermitActions 4 (fun w => decide ((w.nodes 0).role = .leader ∧ (w.nodes 0).log = [⟨1, "0:0:put:k0:v0:"⟩]))
      (by decide +kernel))
  exact ⟨hleads.1, hleads.2, fun k => ((lone_voter_commits_nothing hermitRun (by decide) k).2 0).1⟩

end DeterministicRaft
