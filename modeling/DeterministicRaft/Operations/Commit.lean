import DeterministicRaft.Represents

/-!
# Calls, replication and commits, as steps of the protocol

One theorem for each operation of a node: from a node that stands for its part of a protocol state, the operation does not raise
and leads, by steps of the protocol at that node, to a node that does again.
-/

namespace DeterministicRaft

open Consensus Refinement

variable {net : Network} {a a' : State NodeId Entry} {tr : Trace} {n : NodeId} {self : RaftNode} {A : Set Entry}

/-- The invariant holds, and the node stands for its part of the state. -/
structure Fits (net : Network) (tr : Trace) (n : NodeId) (a : State NodeId Entry) (node : RaftNode) : Prop where
  inv : Inv net.scheme a
  represents : Represents net a tr n node

/-- The operation ends in a node that stands for its part of a state the protocol can reach, where `Q` holds. -/
abbrev Runs (net : Network) (A : Set Entry) (tr : Trace) (n : NodeId) (a : State NodeId Entry) (x : Except PyError RaftNode)
    (Q : State NodeId Entry → RaftNode → Prop) : Prop :=
  Ends (actsAt net.scheme n A) a x fun a' self' => Fits net tr n a' self' ∧ Q a' self'

/-- The operation may first yield to a later term and then acts, and ends in a node that stands for its part. -/
def Handles (net : Network) (A : Set Entry) (tr : Trace) (n : NodeId) (a : State NodeId Entry) (x : Except PyError RaftNode) : Prop :=
  ∃ b, (yieldsAt net.scheme n).rel a b ∧ Ends (actsAt net.scheme n A) b x fun a' self' => Fits net tr n a' self'

theorem Handles.of_acts {x : Except PyError RaftNode}
    (h : Ends (actsAt net.scheme n A) a x fun a' self' => Fits net tr n a' self') : Handles net A tr n a x :=
  ⟨a, (yieldsAt net.scheme n).refl a, h⟩

theorem Handles.of_yields {b : State NodeId Entry} (hm : (yieldsAt net.scheme n).rel a b) (h : Fits net tr n b self) :
    Handles net A tr n a (.ok self) := ⟨b, hm, Ends.pure h⟩

namespace Fits

variable (h : Fits net tr n a self)

include h

/-! ## Facts about the node -/

theorem commit_le : a.commit n ≤ (a.log n).length := h.1.commit_le n

theorem lastLogIndex : self.lastLogIndex = (a.log n).length := h.2.stored.lastLogIndex

theorem voters : self.voters = net.scheme.cfg (a.log n) := h.2.stored.voters

theorem legal : net.Legal self.voters := by
  rw [h.voters]
  exact Network.legal_cfg h.1 (h.1.log_wf n)

/-- The leader's log is the one its term's history names. -/
theorem leader (hr : self.role = .leader) : a.leader (a.term n) = some n ∧ a.log n = a.llog (a.term n) := by
  refine h.1.role_leader ?_
  rw [← h.2.role, hr]
  rfl

/-! ## Calls that change nothing else -/

/-- A justified call. -/
theorem emit {e : Effect} (hj : Justified net a (tr ++ calls n self.out) n e) : Fits net tr n a (self.emit e) := by
  have hout : tr ++ calls n (self.emit e).out = (tr ++ calls n self.out) ++ [(n, e)] := by
    simp [RaftNode.emit]
  refine ⟨h.1, { h.2 with recorded := ?_, traced := ?_ }⟩
  · rw [hout]
    exact h.2.recorded.mono (List.subset_append_left ..)
  · rw [hout]
    exact h.2.traced.snoc hj

/-- A record that claims nothing. -/
theorem record {e : Event} (hj : ∀ tr', Justified net a tr' n (.record e)) : Fits net tr n a (self.record e) :=
  h.emit (hj _)

theorem send {dst : NodeId} {msg : Message} (hj : Vouched net a (tr ++ calls n self.out) n dst msg) :
    Fits net tr n a (self.send dst msg) := h.emit hj

theorem armElectionTimer : Fits net tr n a self.armElectionTimer :=
  (⟨h.1, { h.2 with }⟩ : Fits net tr n a { self with timerSeq := self.timerSeq + 1 }).emit trivial

theorem armHeartbeatTimer : Fits net tr n a self.armHeartbeatTimer :=
  (⟨h.1, { h.2 with }⟩ : Fits net tr n a { self with timerSeq := self.timerSeq + 1 }).emit trivial

end Fits

/-! ## Stepping down -/

/-- `_become_follower`, for a term that is not older. -/
theorem Fits.becomeFollower (h : Fits net tr n a self) {t : Int} (ht : self.term ≤ t) :
    ∃ a', (yieldsAt net.scheme n).rel a a' ∧ Fits net tr n a' (self.becomeFollower t) := by
  have hterm := h.2.term
  obtain ⟨a', hm, hf⟩ : ∃ a', (yieldsAt net.scheme n).rel a a' ∧ Fits net tr n a' { self with
      term := t, votedFor := if t > self.term then none else self.votedFor, role := .follower, pendingReads := ∅ } := by
    by_cases hlt : t > self.term
    · have hm := yieldsAt.newTerm (S := net.scheme) (s := a) (n := n) (u := t) (by omega)
      have x := yieldsAt.extends_of h.1 hm
      refine ⟨_, hm, yieldsAt.inv h.1 hm, { h.2 with
        term := ?_, votedFor := ?_, role := ?_, votes := ?_, leads := ?_, reads := Or.inr rfl, traced := h.2.traced.grow x }⟩
      · simp [State.newTerm]
      · simp [State.newTerm, hlt]
      · simp [State.newTerm, Role.abs]
      · intro hr
        exact absurd hr (by simp)
      · intro hr
        exact absurd hr (by simp)
    · obtain rfl : t = self.term := by omega
      have hm := yieldsAt.stepDown (S := net.scheme) (s := a) n
      have x := yieldsAt.extends_of h.1 hm
      refine ⟨_, hm, yieldsAt.inv h.1 hm, { h.2 with
        votedFor := ?_, role := ?_, votes := ?_, leads := ?_, reads := Or.inr rfl, traced := h.2.traced.grow x }⟩
      · simpa [State.stepDown] using h.2.votedFor
      · simp [State.stepDown, Role.abs]
      · intro hr
        exact absurd hr (by simp)
      · intro hr
        exact absurd hr (by simp)
  refine ⟨a', hm, ?_⟩
  rw [becomeFollower_eq]
  generalize (if t > self.term then none else self.votedFor) = vote at hf
  by_cases hs : self.role ≠ .follower ∨ t > self.term
  · have := (hf.record (e := .role .follower t) fun _ => trivial).armElectionTimer
    rw [steppedDown, if_pos hs]
    exact this
  · have := hf.armElectionTimer
    rw [steppedDown, if_neg hs, List.append_nil]
    exact this

/-! ## Replication -/

/-- `_send_install_snapshot` of a leader that has compacted. -/
theorem Fits.sendInstallSnapshot (h : Fits net tr n a self) (hr : self.role = .leader) (peer : NodeId) :
    Fits net tr n a (self.sendInstallSnapshot peer) ∧ OnlyCalls self (self.sendInstallSnapshot peer) := by
  obtain ⟨b, hb, hbn, hle⟩ := h.2.stored.exists_base
  obtain ⟨hlead, hlog⟩ := h.leader hr
  have hsn : self.snapshot = net.snapshotOf ((a.log n).take self.baseIndex.toNat) := h.2.stored.snapshot
  have hbc : b ≤ a.commit n := by
    have := h.2.base_le
    omega
  have hcut : (a.log n).take b <+: (a.log n).take (a.commit n) := List.take_prefix_take_left hbc
  rw [hbn] at hsn
  unfold RaftNode.sendInstallSnapshot
  cases hs : self.snapshot with
  | none => exact ⟨h, OnlyCalls.refl self⟩
  | some snap =>
    refine ⟨h.send ⟨h.2.id, ?_, ?_⟩, OnlyCalls.emit self _⟩
    · simpa [h.2.term] using hlead
    · refine ⟨(a.log n).take b, ?_, ?_, ?_, h.2.recorded.shorter hcut, ?_⟩
      · intro hnil
        rw [hs, hnil] at hsn
        exact absurd hsn (by simp)
      · simp only [h.2.term, ← hlog]
        exact List.take_prefix _ _
      · simpa only [h.2.term] using (h.1.commit_known n).shorter hcut
      · rw [← hsn, hs]

/-- `_send_append_entries` of a leader. -/
theorem Fits.sendAppendEntries (h : Fits net tr n a self) (hr : self.role = .leader) {peer : NodeId} {x : Int}
    (hx : self.nextIndex.lookup peer = some x) :
    ∃ after, self.sendAppendEntries peer = .ok after ∧ Fits net tr n a after ∧ OnlyCalls self after := by
  obtain ⟨h1, h2⟩ := (h.2.leads hr).next_range peer x hx
  obtain ⟨p, hp⟩ : ∃ p : ℕ, x - 1 = p := Int.eq_ofNat_of_zero_le (by omega)
  obtain ⟨hlead, hlog⟩ := h.leader hr
  have hpl : p ≤ (a.log n).length := by omega
  unfold RaftNode.sendAppendEntries
  simp only [Dict.item, hx, bind, Except.bind]
  split
  · have := h.sendInstallSnapshot hr peer
    exact ⟨_, rfl, this⟩
  · rename_i hnb
    have hb : self.baseIndex ≤ p := by omega
    simp only [hp, h.2.stored.termAt hb hpl, h.2.stored.logSuffix hb]
    refine ⟨_, rfl, h.send ⟨h.2.id, ?_, ?_, ?_⟩, OnlyCalls.emit self _⟩
    · simpa [h.2.term] using hlead
    · refine ⟨p, rfl, ?_, ?_, ?_⟩
      · simp only [h.2.term, ← hlog, List.length_drop]
        omega
      · simp only [h.2.term, ← hlog]
      · simp only [h.2.term, ← hlog, List.length_drop]
        rw [Nat.add_sub_cancel' hpl, List.take_length]
    · refine ⟨a.commit n, h.2.commitIndex, ?_, ?_⟩
      · simp only [h.2.term, ← hlog]
        exact h.commit_le
      · simp only [h.2.term, ← hlog]
        exact h.1.commit_known n

/-- `broadcast_heartbeats` of a leader. -/
theorem Fits.broadcastHeartbeats (h : Fits net tr n a self) (hr : self.role = .leader) :
    ∃ after, self.broadcastHeartbeats = .ok after ∧ Fits net tr n a after ∧ OnlyCalls self after := by
  have hids : ∀ p ∈ self.otherVoters, p ∈ net.ids ∧ p ≠ n := by
    intro p hp
    obtain ⟨hv, hne⟩ := List.mem_filter.1 hp
    exact ⟨h.legal.2 hv, by simpa [h.2.id] using hne⟩
  unfold RaftNode.broadcastHeartbeats
  generalize self.otherVoters = ps at hids
  induction ps generalizing self with
  | nil => exact ⟨self, rfl, h, OnlyCalls.refl self⟩
  | cons p ps ih =>
    obtain ⟨x, hx⟩ := (h.2.leads hr).next_some p (hids p List.mem_cons_self).1 (hids p List.mem_cons_self).2
    obtain ⟨mid, h1, h2, out, rfl⟩ := h.sendAppendEntries hr hx
    obtain ⟨after, h4, h5, h6⟩ := ih h2 hr fun q hq => hids q (List.mem_cons_of_mem _ hq)
    refine ⟨after, ?_, h5, OnlyCalls.trans ⟨out, rfl⟩ h6⟩
    rw [List.foldlM_cons, h1]
    exact h4

theorem Fits.broadcast_ends (h : Fits net tr n a self) (hr : self.role = .leader) :
    Ends (actsAt net.scheme n A) a self.broadcastHeartbeats fun a' after => Fits net tr n a' after := by
  obtain ⟨after, h1, h2, -⟩ := h.broadcastHeartbeats hr
  exact Ends.of_ok h1 h2

/-! ## Applying and compacting -/

/-- The calls that applying `n` entries of `L` makes, after the first `k`. -/
def applications (L : List Entry) (k : ℕ) : ℕ → List Effect
  | 0 => []
  | n + 1 =>
    (match L[k]? with
      | some e => [.record (.apply (k + 1) e), .onApply e.command (resultAfter (L.take k) e.command)]
      | none => []) ++ applications L (k + 1) n

/-- The loop that applies entries. -/
theorem Stored.applyLoop {L : List Entry} (m : ℕ) {k : ℕ} {self : RaftNode} (h : Stored net L self.disk)
    (hb : self.baseIndex ≤ k) (hk : self.lastApplied = k) (hm : k + m ≤ L.length) (hkv : self.kv = replay (L.take k)) :
    self.applyLoop m = .ok { self with
      lastApplied := (k + m : ℕ)
      applied := self.applied ++ ((L.take (k + m)).drop k).map (·.command)
      kv := replay (L.take (k + m))
      out := self.out ++ applications L k m } := by
  induction m generalizing k self with
  | zero => simp [RaftNode.applyLoop, applications, ← hk, ← hkv]
  | succ m ih =>
    obtain ⟨e, he⟩ : ∃ e, L[k]? = some e := ⟨_, List.getElem?_eq_getElem (by omega)⟩
    have hent : RaftNode.entryAt { self with lastApplied := self.lastApplied + 1 } (self.lastApplied + 1) = .ok e := by
      rw [hk]
      have hs : Stored net L (RaftNode.disk { self with lastApplied := (k : Int) + 1 }) := h
      exact hs.entryAt hb he
    have hkv' : (self.kv.apply (Command.decode e.command)).1 = replay (L.take (k + 1)) := by
      rw [take_succ_eq he, replay_concat, hkv]
    have hcut : (L.take (k + (m + 1))).drop k = e :: (L.take (k + 1 + m)).drop (k + 1) := by
      have hge : (L.take (k + (m + 1)))[k]? = some e := by rwa [List.getElem?_take_of_lt (by omega)]
      obtain ⟨hlt, heq⟩ := List.getElem?_eq_some_iff.1 hge
      rw [List.drop_eq_getElem_cons hlt, heq, show k + 1 + m = k + (m + 1) by omega]
    simp only [RaftNode.applyLoop, hent, bind, Except.bind]
    refine (ih (k := k + 1) ?_ ?_ ?_ (by omega) ?_).trans ?_
    · exact h
    · exact hb.trans (by omega)
    · simp [RaftNode.emit, RaftNode.record, hk]
    · exact hkv'
    have happ : applications L k (m + 1) = [.record (.apply (k + 1) e),
        .onApply e.command (resultAfter (L.take k) e.command)] ++ applications L (k + 1) m := by
      rw [applications, he]
    rw [happ, hcut, show k + 1 + m = k + (m + 1) by omega]
    simp [RaftNode.emit, RaftNode.record, resultAfter, hk, hkv]

/-- The calls made by applying committed entries are justified, and the entries are recorded then. -/
theorem Traced.applications {L : List Entry} {t : Int} {k : ℕ} (m : ℕ) {out : List Effect}
    (ht : Traced net a (tr ++ calls n out)) (hrec : Recorded (tr ++ calls n out) (L.take k)) (hkm : k + m ≤ L.length)
    (hcom : a.Committed t (L.take (k + m))) :
    Traced net a (tr ++ calls n (out ++ applications L k m)) ∧
      Recorded (tr ++ calls n (out ++ applications L k m)) (L.take (k + m)) := by
  induction m generalizing k out with
  | zero => simpa [DeterministicRaft.applications] using ⟨ht, hrec⟩
  | succ m ih =>
    obtain ⟨e, he⟩ : ∃ e, L[k]? = some e := ⟨_, List.getElem?_eq_getElem (by omega)⟩
    have hge : (L.take (k + (m + 1)))[k]? = some e := by rwa [List.getElem?_take_of_lt (by omega)]
    have hcut : (L.take (k + (m + 1))).take k = L.take k := by rw [List.take_take, Nat.min_eq_left (by omega)]
    have happ : out ++ DeterministicRaft.applications L k (m + 1) = (out ++ [.record (.apply (k + 1) e)] ++
        [.onApply e.command (resultAfter (L.take k) e.command)]) ++ DeterministicRaft.applications L (k + 1) m := by
      simp [DeterministicRaft.applications, he]
    have h1 : Traced net a (tr ++ calls n (out ++ [.record (.apply (k + 1) e)])) := by
      rw [calls_concat, ← List.append_assoc]
      exact ht.snoc ⟨t, _, k, rfl, hcom, hge, hcut ▸ hrec⟩
    have hsub1 : tr ++ calls n out ⊆ tr ++ calls n (out ++ [.record (.apply (k + 1) e)]) := by
      rw [calls_concat, ← List.append_assoc]
      exact List.subset_append_left ..
    have h2 : Traced net a (tr ++ calls n (out ++ [.record (.apply (k + 1) e)] ++
        [.onApply e.command (resultAfter (L.take k) e.command)])) := by
      rw [calls_concat, ← List.append_assoc]
      refine h1.snoc (Or.inl ⟨t, _, k, e, hcom, hge, rfl, ?_, ?_⟩)
      · rw [hcut]
      · rw [hcut]
        exact hrec.mono hsub1
    have hrec' : Recorded (tr ++ calls n (out ++ [.record (.apply (k + 1) e)] ++
        [.onApply e.command (resultAfter (L.take k) e.command)])) (L.take (k + 1)) := by
      intro j x hj
      have hlt := (List.getElem?_eq_some_iff.1 hj).1
      rw [List.length_take_of_le (by omega)] at hlt
      rw [List.getElem?_take_of_lt hlt] at hj
      rcases Nat.lt_or_ge j k with hjk | hjk
      · obtain ⟨m', h3, h4⟩ := hrec j x (by rwa [List.getElem?_take_of_lt hjk])
        have hsub2 : tr ++ calls n out ⊆ tr ++ calls n (out ++ [.record (.apply (k + 1) e)] ++
            [.onApply e.command (resultAfter (L.take k) e.command)]) := by
          intro x hx
          rw [calls_concat n (out ++ _), ← List.append_assoc]
          exact List.mem_append_left _ (hsub1 hx)
        have htt : (L.take (k + 1)).take j = (L.take k).take j := by
          rw [List.take_take, List.take_take, Nat.min_eq_left (by omega), Nat.min_eq_left (by omega)]
        exact ⟨m', hsub2 h3, htt ▸ hsub2 h4⟩
      · obtain rfl : j = k := by omega
        rw [he, Option.some.injEq] at hj
        subst hj
        have htt : (L.take (j + 1)).take j = L.take j := by
          rw [List.take_take, Nat.min_eq_left (by omega)]
        refine ⟨n, ?_, ?_⟩
        · simp [calls]
        · rw [htt]
          simp [calls]
    rw [happ, show k + (m + 1) = k + 1 + m by omega]
    exact ih h2 hrec' (by omega) (by rwa [show k + 1 + m = k + (m + 1) by omega])

/-- `_maybe_compact`. -/
theorem Fits.maybeCompact (h : Fits net tr n a self) :
    ∃ after, self.maybeCompact = .ok after ∧ Fits net tr n a after ∧ OnlyApplied self after := by
  unfold RaftNode.maybeCompact
  simp only
  split
  · exact ⟨self, rfl, h, rfl⟩
  · rename_i hthr
    have hpos : self.baseIndex < a.commit n := by
      have := h.2.lastApplied
      omega
    have hmid : OnlyApplied self (self.emit (.beforeCompact self.view)) := rfl
    have hf := h.emit (e := .beforeCompact self.view) trivial
    have hbase : (self.emit (.beforeCompact self.view)).baseIndex = self.baseIndex := rfl
    rw [← hbase] at hpos
    generalize self.emit (.beforeCompact self.view) = mid at hf hmid hpos
    obtain ⟨b, hb, hbn, hle⟩ := hf.2.stored.exists_base
    have hla := hf.2.lastApplied
    have hbc := hf.2.base_le
    have hck := hf.commit_le
    have hterm := hf.2.stored.termAt (i := a.commit n) hbc hck
    have hcfg := hf.2.stored.configAt (i := a.commit n) hbc hck
    have hl : mid.log = (a.log n).drop mid.baseIndex.toNat := hf.2.stored.live
    have happl := hf.2.applied
    have hslice : mid.lastApplied - mid.baseIndex = ((a.commit n - b : ℕ) : Int) := by omega
    have hne : (a.log n).take (a.commit n) ≠ [] := by
      intro hnil
      have := congrArg List.length hnil
      rw [List.length_take_of_le hck] at this
      simp only [List.length_nil] at this
      omega
    rw [← hla] at hterm hcfg
    simp only [hterm, hcfg, bind, Except.bind, KVStateMachine.capture]
    refine ⟨_, rfl, Fits.record ⟨hf.1, ?_⟩ fun _ => trivial, hmid.trans rfl⟩
    have hdisk := hf.2.stored
    refine { hf.2 with stored := ?_, base_le := ?_, applied := ?_ }
    · refine ⟨?_, ?_, ?_, ?_, ?_, hdisk.initialVoters, hdisk.voters, hdisk.configIndex⟩
      · show 0 ≤ mid.lastApplied
        omega
      · show mid.lastApplied ≤ _
        omega
      · show sliceFrom mid.log (mid.lastApplied - mid.baseIndex) = (a.log n).drop mid.lastApplied.toNat
        rw [hslice, sliceFrom_nat _ rfl, hl, hbn, List.drop_drop, hla]
        congr 1
        omega
      · show _ = net.scheme.lastTerm ((a.log n).take mid.lastApplied.toNat)
        rw [hla]
        rfl
      · show _ = net.snapshotOf ((a.log n).take mid.lastApplied.toNat)
        rw [hla, Int.toNat_natCast, Network.snapshotOf, if_neg hne, List.length_take_of_le hck]
        simp [RaftNode.disk, hf.2.kv]
    · show mid.lastApplied ≤ _
      omega
    · show sliceFrom mid.applied (mid.lastApplied - mid.baseIndex) = _
      rw [hslice, sliceFrom_nat _ rfl, happl, hbn]
      simp only [hla, Int.toNat_natCast, ← List.map_drop, List.drop_drop]
      congr 2
      omega

/-- A stretch of a list continued by the next one. -/
theorem drop_take_append {α : Type} (L : List α) {b c k : ℕ} (hbc : b ≤ c) (hck : c ≤ k) (hk : k ≤ L.length) :
    (L.take c).drop b ++ (L.take k).drop c = (L.take k).drop b := by
  have h1 : L.take c = (L.take k).take c := by rw [List.take_take, Nat.min_eq_left hck]
  have hl : b ≤ ((L.take k).take c).length := by
    rw [← h1, List.length_take_of_le (hck.trans hk)]
    exact hbc
  rw [h1, ← List.drop_append_of_le_length hl, List.take_append_drop]

/-- `_set_commit_index`, to a place up to which the protocol has moved the node's commit. -/
theorem Fits.setCommitIndex (h : Fits net tr n a self) {k : ℕ} (hk : a.commit n < k) (hkl : k ≤ (a.log n).length)
    (hm : (actsAt net.scheme n A).rel a a') (hterm : a'.term n = a.term n) (hvote : a'.vote n = a.vote n)
    (hrole : a'.role n = a.role n) (hlog : a'.log n = a.log n) (hcommit : a'.commit n = k)
    (hleads : self.role = .leader → Leads net a' n self.nextIndex self.matchIndex self.committedThisTerm) :
    ∃ after, self.setCommitIndex k = .ok after ∧ Fits net tr n a' after ∧ OnlyApplied self after := by
  have x := actsAt.extends_of h.1 hm
  have hinv := actsAt.inv h.1 hm
  obtain ⟨b, hb, hbn, hle⟩ := h.2.stored.exists_base
  have hbc := h.2.base_le
  have hci := h.2.commitIndex
  have hla := h.2.lastApplied
  have hnot : ¬(k : Int) ≤ self.commitIndex := by omega
  have hcount : ((k : Int) - self.lastApplied).toNat = k - a.commit n := by omega
  have hadd : a.commit n + (k - a.commit n) = k := by omega
  have hstored : Stored net (a.log n) (RaftNode.record { self with commitIndex := (k : Int) } (.commit k)).disk := h.2.stored
  have hloop := hstored.applyLoop (k - a.commit n) hbc hla (by omega) h.2.kv
  rw [hadd] at hloop
  have hcom : a'.Committed (a'.term n) ((a.log n).take (a.commit n + (k - a.commit n))) := by
    have := hinv.commit_known n
    rw [hlog, hcommit] at this
    rwa [hadd]
  have htr : Traced net a' (tr ++ calls n (self.out ++ [.record (.commit k)])) := by
    rw [calls_concat, ← List.append_assoc]
    exact (h.2.traced.grow x).snoc trivial
  have hrec : Recorded (tr ++ calls n (self.out ++ [.record (.commit k)])) ((a.log n).take (a.commit n)) := by
    rw [calls_concat, ← List.append_assoc]
    exact h.2.recorded.mono (List.subset_append_left ..)
  obtain ⟨htr', hrec'⟩ := Traced.applications (k - a.commit n) htr hrec (by omega) hcom
  rw [hadd] at hrec'
  simp only [RaftNode.setCommitIndex, if_neg hnot, bind, Except.bind]
  have hcount' : ((RaftNode.record { self with commitIndex := (k : Int) } (.commit k)).commitIndex -
      (RaftNode.record { self with commitIndex := (k : Int) } (.commit k)).lastApplied).toNat = k - a.commit n := hcount
  rw [hcount', hloop]
  have hfits : Fits net tr n a' { (RaftNode.record { self with commitIndex := (k : Int) } (.commit k)) with
      lastApplied := k
      applied := self.applied ++ (((a.log n).take k).drop (a.commit n)).map (·.command)
      kv := replay ((a.log n).take k)
      out := self.out ++ [.record (.commit k)] ++ applications (a.log n) (a.commit n) (k - a.commit n) } :=
    ⟨hinv, { h.2 with
      stored := by
        rw [hlog]
        exact h.2.stored
      term := h.2.term.trans hterm.symm
      votedFor := h.2.votedFor.trans hvote.symm
      role := h.2.role.trans hrole.symm
      base_le := by
        rw [hcommit]
        exact hbc.trans (by omega)
      commitIndex := by
        rw [hcommit]
        rfl
      lastApplied := by rw [hcommit]
      applied := by
        rw [hcommit, hlog]
        show self.applied ++ _ = (((a.log n).take k).drop self.baseIndex.toNat).map (·.command)
        rw [h.2.applied, hbn, ← List.map_append, drop_take_append (a.log n) (by omega) hk.le hkl]
      kv := by rw [hcommit, hlog]
      recorded := by
        rw [hcommit, hlog]
        exact hrec'
      votes := fun hr v hv => by
        obtain ⟨V, hV⟩ := h.2.votes hr v hv
        exact ⟨V, x.ballot (by rwa [hterm])⟩
      leads := hleads
      traced := htr' }⟩
  obtain ⟨after, h1, h2, h3⟩ := hfits.maybeCompact
  refine ⟨after, h1, h2, OnlyApplied.trans ?_ h3⟩
  rfl

/-- `_advance_commit` of a leader. -/
theorem Fits.advanceCommit (h : Fits net tr n a self) (hr : self.role = .leader) :
    Runs net A tr n a self.advanceCommit fun _ after => after.role = .leader ∧ after.term = self.term := by
  obtain ⟨hlead, hlog⟩ := h.leader hr
  have hci := h.2.commitIndex
  have hcl := h.commit_le
  have habs : a.role n = .leader := by
    rw [← h.2.role, hr]
    rfl
  suffices key : ∀ (j k : ℕ), k = a.commit n + j → k ≤ (a.log n).length →
      Runs net A tr n a (self.advanceLoop k j) fun _ after => after.role = .leader ∧ after.term = self.term by
    have hj : (self.lastLogIndex - self.commitIndex).toNat = (a.log n).length - a.commit n := by
      rw [h.lastLogIndex]
      omega
    unfold RaftNode.advanceCommit
    rw [hj, h.lastLogIndex]
    exact key _ _ (by omega) le_rfl
  intro j
  induction j with
  | zero => exact fun k _ _ => Ends.pure ⟨h, hr, rfl⟩
  | succ j ih =>
    intro k hk hkl
    obtain ⟨i, rfl⟩ : ∃ i, k = i + 1 := ⟨k - 1, by omega⟩
    obtain ⟨e, he⟩ : ∃ e, (a.log n)[i]? = some e := ⟨_, List.getElem?_eq_getElem (by omega)⟩
    have hterm := h.2.stored.termAt (i := i + 1) (by have := h.2.base_le; omega) hkl
    rw [lastTerm_take he] at hterm
    simp only [RaftNode.advanceLoop, hterm, bind, Except.bind]
    split
    · exact Ends.pure ⟨h, hr, rfl⟩
    · rename_i hte
      have heq : e.term = a.term n := by
        rw [← h.2.term]
        by_contra hne
        exact hte ⟨hne, by rw [h.2.bugs]; rfl⟩
      split
      · rename_i hq
        have hquorum : Majority (net.scheme.cfg (a.log n)) {v | ∃ m, i + 1 ≤ m ∧ a.acked v (a.term n) m} := by
          rw [← h.voters]
          refine majority_of_countP (fun v => decide (((i + 1 : ℕ) : Int) ≤ self.matchIndex.getD v 0)) ?_ (by omega)
          intro v hv
          have hv' : ((i + 1 : ℕ) : Int) ≤ (self.matchIndex.lookup v).getD 0 := of_decide_eq_true hv
          cases hx : self.matchIndex.lookup v with
          | none =>
            rw [hx, Option.getD_none] at hv'
            omega
          | some x =>
            rw [hx, Option.getD_some] at hv'
            obtain ⟨m, hm, ha⟩ := (h.2.leads hr).matched v x hx (by omega)
            exact ⟨m, by omega, ha⟩
        have hm := actsAt.commitTo (S := net.scheme) (A := A) habs hlead (n := i + 1) (by omega) he heq hquorum
        have x := actsAt.extends_of h.1 hm
        have hL := h.2.leads hr
        have hleads : ∀ c, Leads net (a.commitTo n (i + 1)) n self.nextIndex self.matchIndex c := fun c =>
          { next_some := hL.next_some
            next_range := hL.next_range
            matched := hL.matched
            own := fun _ => ⟨a.log n, by simp [State.commitTo], List.prefix_rfl⟩
            max := by
              intro c Y hc
              simp only [State.commitTo, Function.update_self] at hc ⊢
              rcases hc with hc | ⟨-, rfl, -⟩
              · have := hL.max c Y hc
                omega
              · exact le_rfl }
        obtain ⟨after, h1, h2, h3⟩ := h.setCommitIndex (k := i + 1) (by omega) hkl hm rfl rfl rfl rfl
          (by simp [State.commitTo]) (fun _ => hleads _)
        rw [h1]
        have hrole : after.role = self.role := by rw [h3]
        refine Ends.move hm ⟨⟨h2.1, { h2.2 with leads := fun hr' => ?_ }⟩, hrole.trans hr, by rw [h3]⟩
        have h4 : after.nextIndex = self.nextIndex := by rw [h3]
        have h5 : after.matchIndex = self.matchIndex := by rw [h3]
        show Leads net _ n after.nextIndex after.matchIndex true
        rw [h4, h5]
        exact hleads true
      · have := ih i (by omega) (by omega)
        simpa using this

end DeterministicRaft
