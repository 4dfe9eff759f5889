import DeterministicRaft.Simulation

/-!
# Safety of every run

Election safety, state machine safety, leader completeness and log matching, for every run of every cluster: any order of
deliveries, losses and duplications, of timers, commands, crashes and restarts, with any snapshot threshold, and with or without
configuration changes. The protocol has these properties; what is left is to read them off the nodes.
-/

namespace DeterministicRaft

open Consensus

variable {net : Network}

/-! ## A cluster of two -/

/-- Two servers that compact after every entry. -/
def pair : Network where
  ids := [0, 1]
  initialVoters := [0, 1]
  config := { snapshotThreshold := 1 }
  reconfigurable := false
  readIndex := true
  recordHistory := true
  ids_nodup := by decide
  voters_nodup := by decide
  voters_subset := List.Subset.refl _

/-- Server 0 is elected and commits a command, server 1 learns of it, and is elected after it. -/
def pairActions : List Action :=
  [.fire 0, .deliver 6, .deliver 11, .clientCommand 0 "0:0:put:k0:v0:", .deliver 16, .deliver 18, .fire 14, .deliver 24,
    .fire 26, .deliver 37, .deliver 42]

theorem admits_pairActions : ∀ k, pair.Admits (andIdle pairActions k) := by
  refine admits_andIdle fun act hact => ?_
  simp only [pairActions, List.mem_cons, List.not_mem_nil, or_false] at hact
  rcases hact with rfl | rfl | rfl | rfl | rfl | rfl | rfl | rfl | rfl | rfl | rfl
  all_goals first | exact trivial | (show decodeConfig _ = none; decide)

/-- The run of the pair. -/
noncomputable def pairRun : Run pair := pair.runOf admits_pairActions

/-! ## A cluster that grows -/

/-- Three servers, of which two vote at first. -/
def growing : Network where
  ids := [0, 1, 2]
  initialVoters := [0, 1]
  config := { snapshotThreshold := 2 }
  reconfigurable := true
  readIndex := false
  recordHistory := true
  ids_nodup := by decide
  voters_nodup := by decide
  voters_subset := by decide

/-- Server 0 is elected, commits a command, adds server 2 and commits that; then server 1 is elected with the vote of server 2. -/
def growingActions : List Action :=
  [.fire 0, .deliver 7, .deliver 12, .clientCommand 0 "0:0:put:k0:v0:", .deliver 17, .deliver 19, .changeConfig 0 [0, 1, 2],
    .deliver 24, .deliver 30, .fire 26, .deliver 41, .deliver 46]

theorem admits_growingActions : ∀ k, growing.Admits (andIdle growingActions k) := by
  refine admits_andIdle fun act hact => ?_
  simp only [growingActions, List.mem_cons, List.not_mem_nil, or_false] at hact
  rcases hact with rfl | rfl | rfl | rfl | rfl | rfl | rfl | rfl | rfl | rfl | rfl | rfl
  all_goals first
    | exact trivial
    | (show decodeConfig _ = none; decide)
    | exact ⟨rfl, List.Subset.refl _⟩

/-- The run of the growing cluster. -/
noncomputable def growingRun : Run growing := growing.runOf admits_growingActions

/-! ## Election safety -/

/-- For every term at most one node is ever its leader: two nodes that lead at any two moments of a run, or record that they do,
with the same term, are one node. -/
theorem election_safety (r : Run net) (k l : ℕ) (m n : NodeId) :
    (((r.state k).nodes m).role = .leader → ((r.state l).nodes n).role = .leader →
      ((r.state k).nodes m).term = ((r.state l).nodes n).term → m = n) ∧
    ∀ t, (m, Effect.record (.role .leader t)) ∈ (r.state k).trace → (n, Effect.record (.role .leader t)) ∈ (r.state l).trace →
      m = n := by
  obtain ⟨s, hs⟩ := r.exists_shadow
  have key : ∀ t, (s k).leader t = some m → (s l).leader t = some n → m = n := by
    intro t hm hn
    have hm' := (hs.extends_of_le (Nat.le_max_left k l)).leader hm
    have hn' := (hs.extends_of_le (Nat.le_max_right k l)).leader hn
    rw [hm', Option.some.injEq] at hn'
    exact hn'
  constructor
  · intro hm hn ht
    refine key _ ((hs.sim k).leader hm).1 ?_
    rw [ht]
    exact ((hs.sim l).leader hn).1
  · intro t hm hn
    obtain ⟨_, _, hm'⟩ := (hs.sim k).traced.mem hm
    obtain ⟨_, _, hn'⟩ := (hs.sim l).traced.mem hn
    exact key t hm' hn'

/-- Server 0 leads after three actions, server 1 after eleven: in another term. -/
theorem election_safety_pair : ((pairRun.state 3).nodes 0).role = .leader ∧ ((pairRun.state 11).nodes 1).role = .leader ∧
    ((pairRun.state 3).nodes 0).term ≠ ((pairRun.state 11).nodes 1).term := by
  have h0 : ((pairRun.state 3).nodes 0).role = .leader := of_decide_eq_true
    (holds_of_exec admits_pairActions 3 (fun w => decide ((w.nodes 0).role = .leader)) (by decide +kernel))
  have h1 : ((pairRun.state 11).nodes 1).role = .leader := of_decide_eq_true
    (holds_of_exec admits_pairActions 11 (fun w => decide ((w.nodes 1).role = .leader)) (by decide +kernel))
  exact ⟨h0, h1, fun ht => absurd ((election_safety pairRun 3 11 0 1).1 h0 h1 ht) (by decide)⟩

/-! ## State machine safety -/

/-- What a node has applied is committed. -/
theorem Simulates.committed_of_hasApplied {a : State NodeId Entry} {w : World} (h : Simulates net a w) {n : NodeId} {i : Int}
    {c : String} (hc : w.HasApplied n i c) :
    ∃ (t : Int) (P : List Entry) (j : ℕ) (e : Entry), i = j + 1 ∧ a.Committed t P ∧ P[j]? = some e ∧ e.command = c := by
  rcases hc with ⟨e, hm, hc⟩ | ⟨j, hi, hj⟩
  · obtain ⟨t, P, j, h1, h2, h3⟩ := h.committed_of_apply hm
    exact ⟨t, P, j, e, h1, h2, h3, hc⟩
  · obtain ⟨b, hb, hbn, -⟩ := (h.node n).stored.exists_base
    rw [(h.node n).applied, hbn, List.getElem?_map, List.getElem?_drop] at hj
    obtain ⟨e, he, hc⟩ := Option.map_eq_some_iff.1 hj
    exact ⟨_, _, b + j, e, by omega, h.inv.commit_known n, he, hc⟩

/-- Every node that has applied a command at an index has applied the same one, at any two moments of a run; and the store and
the sessions of a snapshot are those after the commands applied at the indices it covers, in order. -/
theorem state_machine_safety (r : Run net) :
    (∀ (k l : ℕ) (m n : NodeId) (i : Int) (c d : String), (r.state k).HasApplied m i c → (r.state l).HasApplied n i d →
      c = d) ∧
    ∀ (k : ℕ) (n : NodeId) (snap : Snapshot), ((r.state k).nodes n).snapshot = some snap →
      ∃ C : List String, (C.length : Int) = snap.lastIndex ∧
        (∀ (j : ℕ) (c : String), C[j]? = some c → ∃ m, (r.state k).HasApplied m (j + 1) c) ∧
        snap.store = (KVStateMachine.applyAll {} C).store ∧ snap.sessions = (KVStateMachine.applyAll {} C).sessions := by
  obtain ⟨s, hs⟩ := r.exists_shadow
  constructor
  · intro k l m n i c d hc hd
    obtain ⟨t, P, j, e, hi, hP, he, rfl⟩ := (hs.sim k).committed_of_hasApplied hc
    obtain ⟨u, Q, j', e', hi', hQ, he', rfl⟩ := (hs.sim l).committed_of_hasApplied hd
    obtain rfl : j = j' := by omega
    have hP' := (hs.extends_of_le (Nat.le_max_left k l)).known hP
    have hQ' := (hs.extends_of_le (Nat.le_max_right k l)).known hQ
    rw [Simulates.known_agree (hs.sim _).inv hP' hQ' he he']
  · intro k n snap hsnap
    obtain ⟨b, hb, hbn, hle⟩ := ((hs.sim k).node n).stored.exists_base
    have hbc := ((hs.sim k).node n).base_le
    have hs : ((r.state k).nodes n).snapshot = net.snapshotOf (((s k).log n).take ((r.state k).nodes n).baseIndex.toNat) :=
      ((hs.sim k).node n).stored.snapshot
    rw [hsnap, hbn, Network.snapshotOf] at hs
    split at hs
    · exact absurd hs (by simp)
    · rw [Option.some.injEq] at hs
      subst hs
      refine ⟨(((s k).log n).take b).map (·.command), by simp, ?_, rfl, rfl⟩
      intro j c hj
      rw [List.getElem?_map] at hj
      obtain ⟨e, he, hc⟩ := Option.map_eq_some_iff.1 hj
      have hjb : j < b := by
        have := (List.getElem?_eq_some_iff.1 he).1
        rwa [List.length_take_of_le hle] at this
      have hcut : ((s k).log n).take b <+: ((s k).log n).take ((s k).commit n) := List.take_prefix_take_left (by omega)
      obtain ⟨m, hm, -⟩ := (hs.sim k).recorded n j e (getElem?_extends hcut he)
      exact ⟨m, Or.inl ⟨e, hm, hc⟩⟩

/-! ## Leader completeness -/

/-- Node `n` holds the entry `e` at the logical index `i`: live in its log, or covered by its snapshot, which is that of its whole
log up to the base. -/
def Holds (net : Network) (w : World) (n : NodeId) (i : ℕ) (e : Entry) : Prop :=
  (w.logicalLog n)[i - 1]? = some e ∧
  (((w.nodes n).baseIndex < i ∧ (w.nodes n).entryAt i = .ok e) ∨
    (i ≤ (w.nodes n).baseIndex ∧
      (w.nodes n).snapshot = net.snapshotOf ((w.logicalLog n).take (w.nodes n).baseIndex.toNat)))

/-- A node holds the entries of its log. -/
theorem Simulates.holds {a : State NodeId Entry} {w : World} (h : Simulates net a w) {n : NodeId} {j : ℕ} {e : Entry}
    (he : (a.log n)[j]? = some e) : Holds net w n (j + 1) e := by
  unfold Holds
  rw [h.logicalLog_eq, Nat.add_sub_cancel]
  refine ⟨he, ?_⟩
  obtain ⟨b, hb, -, -⟩ := (h.node n).stored.exists_base
  rcases Nat.lt_or_ge j b with hjb | hjb
  · exact Or.inr ⟨by omega, (h.node n).stored.snapshot⟩
  · exact Or.inl ⟨by omega, by exact_mod_cast (h.node n).stored.entryAt (by omega) he⟩

/-- Once a leader, or any other node, has advanced its commit index to `i`, every node that leads a later term, at any moment,
holds the same entry at `i`. -/
theorem leader_completeness (r : Run net) {k l : ℕ} {m n : NodeId} {i : ℕ} (hpos : 1 ≤ i)
    (hi : i ≤ ((r.state k).nodes m).commitIndex) (hn : ((r.state l).nodes n).role = .leader)
    (ht : ((r.state k).nodes m).term < ((r.state l).nodes n).term) :
    ∃ e, Holds net (r.state k) m i e ∧ Holds net (r.state l) n i e := by
  obtain ⟨s, hs⟩ := r.exists_shadow
  have hci := ((hs.sim k).node m).commitIndex
  have hlen := (hs.sim k).inv.commit_le m
  obtain ⟨j, rfl⟩ : ∃ j, i = j + 1 := ⟨i - 1, by omega⟩
  obtain ⟨e, he⟩ : ∃ e, ((s k).log m)[j]? = some e := ⟨_, List.getElem?_eq_getElem (by omega)⟩
  refine ⟨e, (hs.sim k).holds he, (hs.sim l).holds ?_⟩
  have hknown := (hs.extends_of_le (Nat.le_max_left k l)).known ((hs.sim k).inv.commit_known m)
  have x := hs.extends_of_le (Nat.le_max_right k l)
  obtain ⟨hlead, hlog⟩ := (hs.sim l).leader hn
  have hled : (s l).Led ((r.state l).nodes n).term := ⟨n, hlead⟩
  have hp : ((s k).log m).take ((s k).commit m) <+: (s l).log n := by
    rw [((hs.sim k).node m).term] at ht
    have := (hs.sim (max k l)).inv.known_prefix_elog hknown (x.led hled) ht
    rw [x.elog hled] at this
    rw [← (hs.sim l).logicalLog_eq n, hlog]
    exact this.trans ((hs.sim l).inv.llog_elog hled)
  refine getElem?_extends hp ?_
  rwa [List.getElem?_take_of_lt (by omega)]

/-- Server 0 has committed the entry that adds server 2; server 1, which leads later, has it. -/
theorem leader_completeness_growing :
    (2 : ℕ) ≤ ((growingRun.state 9).nodes 0).commitIndex ∧ ((growingRun.state 12).nodes 1).role = .leader ∧
    ((growingRun.state 9).nodes 0).term < ((growingRun.state 12).nodes 1).term ∧
    ∃ e, Holds growing (growingRun.state 9) 0 2 e ∧ Holds growing (growingRun.state 12) 1 2 e := by
  have h0 := holds_of_exec admits_growingActions 9
    (fun w => decide ((2 : ℕ) ≤ (w.nodes 0).commitIndex ∧ (w.nodes 0).term = 1)) (by decide +kernel)
  have h1 := holds_of_exec admits_growingActions 12
    (fun w => decide ((w.nodes 1).role = .leader ∧ (w.nodes 1).term = 2)) (by decide +kernel)
  obtain ⟨hc, ht0⟩ := of_decide_eq_true h0
  obtain ⟨hr, ht1⟩ := of_decide_eq_true h1
  have ht : ((growingRun.state 9).nodes 0).term < ((growingRun.state 12).nodes 1).term := by
    rw [growingRun, ht0, ht1]
    decide
  exact ⟨hc, hr, ht, leader_completeness growingRun (by decide) hc hr ht⟩

/-! ## Log matching -/

/-- Two nodes that hold entries of one term at an index hold the same entries at every index up to it above both bases; and an
entry that a node knows to be committed, at the base of another node, is of that node's base term. -/
theorem log_matching (r : Run net) (k : ℕ) (m n : NodeId) :
    (∀ (i j : ℕ) (x y : Entry), ((r.state k).nodes m).baseIndex < j → ((r.state k).nodes n).baseIndex < j → j ≤ i →
      i ≤ ((r.state k).nodes m).lastLogIndex → i ≤ ((r.state k).nodes n).lastLogIndex →
      ((r.state k).nodes m).entryAt i = .ok x → ((r.state k).nodes n).entryAt i = .ok y → x.term = y.term →
        ∃ z, ((r.state k).nodes m).entryAt j = .ok z ∧ ((r.state k).nodes n).entryAt j = .ok z) ∧
    (0 < ((r.state k).nodes m).baseIndex → ((r.state k).nodes n).baseIndex < ((r.state k).nodes m).baseIndex →
      ((r.state k).nodes m).baseIndex ≤ ((r.state k).nodes n).commitIndex →
        ∃ z, ((r.state k).nodes n).entryAt ((r.state k).nodes m).baseIndex = .ok z ∧
          z.term = ((r.state k).nodes m).baseTerm) := by
  obtain ⟨s, hs⟩ := r.exists_shadow
  have hI := (hs.sim k).inv
  have hentry : ∀ (v : NodeId) (i : ℕ), ((r.state k).nodes v).baseIndex ≤ i → i < ((s k).log v).length →
      ∃ e, ((s k).log v)[i]? = some e ∧ ((r.state k).nodes v).entryAt (i + 1) = .ok e := by
    intro v i hb hi
    obtain ⟨e, he⟩ : ∃ e, ((s k).log v)[i]? = some e := ⟨_, List.getElem?_eq_getElem hi⟩
    exact ⟨e, he, ((hs.sim k).node v).stored.entryAt hb he⟩
  constructor
  · intro i j x y hmj hnj hji hmi hni hx hy hxy
    have hlm := ((hs.sim k).fits m).lastLogIndex
    have hln := ((hs.sim k).fits n).lastLogIndex
    obtain ⟨b, hb, -, -⟩ := ((hs.sim k).node m).stored.exists_base
    obtain ⟨i, rfl⟩ : ∃ i', i = i' + 1 := ⟨i - 1, by omega⟩
    obtain ⟨j, rfl⟩ : ∃ j', j = j' + 1 := ⟨j - 1, by omega⟩
    push_cast at hx hy hmj hnj ⊢
    obtain ⟨x', hx', hxe⟩ := hentry m i (by omega) (by omega)
    obtain ⟨y', hy', hye⟩ := hentry n i (by omega) (by omega)
    rw [hx, Except.ok.injEq] at hxe
    rw [hy, Except.ok.injEq] at hye
    subst hxe
    subst hye
    have hagree := (hI.log_wf m).agree (hI.log_wf n) hx' hy' hxy
    obtain ⟨z, hz, hze⟩ := hentry m j (by omega) (by omega)
    obtain ⟨z', hz', hze'⟩ := hentry n j (by omega) (by omega)
    have hzz : z = z' := by
      have h1 : (((s k).log m).take (i + 1))[j]? = some z := by rwa [List.getElem?_take_of_lt (by omega)]
      rw [hagree, List.getElem?_take_of_lt (by omega), hz', Option.some.injEq] at h1
      exact h1.symm
    exact ⟨z, hze, hzz ▸ hze'⟩
  · intro hpos hbase hcommit
    obtain ⟨b, hb, hbn, hle⟩ := ((hs.sim k).node m).stored.exists_base
    have hbm := ((hs.sim k).node m).base_le
    have hcn := ((hs.sim k).node n).commitIndex
    have hlen := hI.commit_le n
    obtain ⟨i, rfl⟩ : ∃ i, b = i + 1 := ⟨b - 1, by omega⟩
    obtain ⟨z, hz, hze⟩ := hentry n i (by omega) (by omega)
    obtain ⟨x, hx⟩ : ∃ x, ((s k).log m)[i]? = some x := ⟨_, List.getElem?_eq_getElem (by omega)⟩
    have hxz : x = z := Simulates.known_agree hI (hI.commit_known m) (hI.commit_known n)
      (j := i) (by rwa [List.getElem?_take_of_lt (by omega)]) (by rwa [List.getElem?_take_of_lt (by omega)])
    have ht : ((r.state k).nodes m).baseTerm =
        net.scheme.lastTerm (((s k).log m).take ((r.state k).nodes m).baseIndex.toNat) := ((hs.sim k).node m).stored.baseTerm
    rw [hbn, lastTerm_take hx] at ht
    refine ⟨z, ?_, ?_⟩
    · rw [hb]
      exact_mod_cast hze
    · rw [ht, hxz]
      rfl

end DeterministicRaft
