import DeterministicRaft.Handlers
import DeterministicRaft.Consensus.Prefix
import DeterministicRaft.Refinement

/-!
# The logical log of a node

A node that has compacted holds the live entries of its log and the term of the last entry below them. `Holds L` says that the node
holds the log `L` in this form. What the node reads of its log is read of `L`, and taking over a leader's entries is a merge of `L`.
-/

namespace DeterministicRaft

open Consensus Refinement

/-- The term of the last entry of a log, 0 if there is none. -/
def lastTermOf (L : List Entry) : Int := (L.getLast?.map (·.term)).getD 0

/-- The last term of a cut is that of its last entry. -/
theorem lastTermOf_take {L : List Entry} {i : ℕ} {e : Entry} (h : L[i]? = some e) : lastTermOf (L.take (i + 1)) = e.term := by
  simp [lastTermOf, take_succ_eq h]

/-- The node holds the log `L`, of which the entries above the base are live. -/
structure RaftNode.Holds (node : RaftNode) (L : List Entry) : Prop where
  nonneg : 0 ≤ node.baseIndex
  le : node.baseIndex ≤ L.length
  live : node.log = L.drop node.baseIndex.toNat
  baseTerm : node.baseTerm = lastTermOf (L.take node.baseIndex.toNat)

namespace RaftNode.Holds

variable {self : RaftNode} {L : List Entry}

/-- The log of a node that has the same log. -/
theorem of_eq (h : self.Holds L) {after : RaftNode} (hl : after.log = self.log) (hb : after.baseIndex = self.baseIndex)
    (ht : after.baseTerm = self.baseTerm) : after.Holds L := by
  obtain ⟨h1, h2, h3, h4⟩ := h
  exact ⟨hb ▸ h1, hb ▸ h2, by rw [hl, hb, h3], by rw [ht, hb, h4]⟩

/-- The base as a natural number. -/
theorem exists_base (h : self.Holds L) : ∃ b : ℕ, self.baseIndex = b ∧ self.baseIndex.toNat = b ∧ b ≤ L.length := by
  obtain ⟨b, hb⟩ := Int.eq_ofNat_of_zero_le h.nonneg
  have hle := h.le
  exact ⟨b, hb, by omega, by omega⟩

theorem lastLogIndex (h : self.Holds L) : self.lastLogIndex = L.length := by
  obtain ⟨b, hb, hbn, hle⟩ := h.exists_base
  rw [RaftNode.lastLogIndex, h.live, hbn, List.length_drop]
  omega

/-- The entry at a place of the log above the base, by its physical offset. -/
theorem getElem?_live (h : self.Holds L) {i : ℕ} (hb : self.baseIndex ≤ i) :
    self.log[(i : Int) - self.baseIndex |>.toNat]? = L[i]? := by
  obtain ⟨b, hb', hbn, -⟩ := h.exists_base
  rw [h.live, hbn, List.getElem?_drop]
  congr 1
  omega

/-- `entry_at` above the base and within the log gives the entry. -/
theorem entryAt (h : self.Holds L) {i : ℕ} {e : Entry} (hb : self.baseIndex ≤ i) (he : L[i]? = some e) :
    self.entryAt (i + 1) = .ok e := by
  have hi := h.getElem?_live hb
  rw [he] at hi
  refine pyIndex_ok ?_ hi
  simp only [RaftNode.phys]
  omega

/-- `term_at` at the base or above it and within the log gives the term of the entry there. -/
theorem termAt (h : self.Holds L) {i : ℕ} (hb : self.baseIndex ≤ i) (hi : i ≤ L.length) :
    self.termAt i = .ok (lastTermOf (L.take i)) := by
  obtain ⟨b, hb', hbn, hle⟩ := h.exists_base
  unfold RaftNode.termAt
  split
  · have hib : i = b := by omega
    rw [h.baseTerm, hbn, hib]
  · obtain ⟨k, rfl⟩ : ∃ k, i = k + 1 := ⟨i - 1, by omega⟩
    obtain ⟨e, he⟩ : ∃ e, L[k]? = some e := ⟨_, List.getElem?_eq_getElem (by omega)⟩
    have := h.entryAt (i := k) (by omega) he
    unfold RaftNode.entryAt at this
    push_cast
    rw [this, lastTermOf_take he]
    rfl

/-- `log_suffix` above the base gives the rest of the log. -/
theorem logSuffix (h : self.Holds L) {i : ℕ} (hb : self.baseIndex ≤ i) : self.logSuffix (i + 1) = L.drop i := by
  obtain ⟨b, hb', hbn, -⟩ := h.exists_base
  have hp : max 0 (self.phys (i + 1)) = ((i - b : ℕ) : Int) := by
    simp only [RaftNode.phys]
    omega
  rw [RaftNode.logSuffix, hp, sliceFrom_nat _ rfl, h.live, hbn, List.drop_drop]
  congr 1
  omega

end RaftNode.Holds

/-! ## Taking over a leader's entries -/

/-- The node after differs from the node before in its log and in the configuration at most. -/
def OnlyLog (self after : RaftNode) : Prop :=
  after = { self with
    log := after.log, voters := after.voters, configIndex := after.configIndex, logVersion := after.logVersion }

namespace OnlyLog

theorem refl (self : RaftNode) : OnlyLog self self := rfl

theorem trans {self mid after : RaftNode} (h : OnlyLog self mid) (h' : OnlyLog mid after) : OnlyLog self after := by
  unfold OnlyLog at h h' ⊢
  rw [h'] at ⊢
  rw [h]

theorem truncateFrom (self : RaftNode) (index : Int) : OnlyLog self (self.truncateFrom index) := by
  simp only [RaftNode.truncateFrom]
  split <;> rfl

theorem appendReplicated (self : RaftNode) (index : Int) (e : Entry) : OnlyLog self (self.appendReplicated index e) := by
  simp only [RaftNode.appendReplicated]
  split <;> rfl

/-- The loop over a leader's entries. -/
theorem mergeEntries (self : RaftNode) (index : Int) (entries : List Entry) :
    Ensures (self.mergeEntries index entries) (OnlyLog self) := by
  induction entries generalizing self index with
  | nil => exact Ensures.pure (refl self)
  | cons entry entries ih =>
    unfold RaftNode.mergeEntries
    simp only
    split
    · refine Ensures.bind (Ensures.trivial _) fun term _ => ?_
      split
      · exact (ih _ _).mono fun after h => ((truncateFrom self _).trans (appendReplicated _ _ entry)).trans h
      · exact ih self _
    · exact (ih _ _).mono fun after h => (appendReplicated self _ entry).trans h

theorem baseIndex {self after : RaftNode} (h : OnlyLog self after) : after.baseIndex = self.baseIndex := by
  rw [h]

theorem baseTerm {self after : RaftNode} (h : OnlyLog self after) : after.baseTerm = self.baseTerm := by
  rw [h]

end OnlyLog

/-- The node after differs from the node before in what applying and compacting touch. -/
def OnlyApplied (self after : RaftNode) : Prop :=
  after = { self with
    commitIndex := after.commitIndex, lastApplied := after.lastApplied, applied := after.applied, kv := after.kv
    log := after.log, baseIndex := after.baseIndex, baseTerm := after.baseTerm, snapshot := after.snapshot
    logVersion := after.logVersion, out := after.out }

theorem OnlyApplied.trans {self mid after : RaftNode} (h : OnlyApplied self mid) (h' : OnlyApplied mid after) :
    OnlyApplied self after := by
  unfold OnlyApplied at h h' ⊢
  rw [h', h]

/-- The call reports what was committed, applied and compacted. -/
def Effect.Applies : Effect → Prop
  | .record (.commit _) | .record (.apply _ _) | .record (.snapshot _ _) | .onApply _ _ | .beforeCompact _ => True
  | _ => False

/-- The node differs in what applying and compacting touch at most, and has reported nothing else. -/
def JustApplies (self after : RaftNode) : Prop :=
  OnlyApplied self after ∧ ∃ es, after.out = self.out ++ es ∧ ∀ e ∈ es, e.Applies

namespace JustApplies

theorem refl (self : RaftNode) : JustApplies self self :=
  ⟨rfl, [], (List.append_nil _).symm, fun _ h => absurd h List.not_mem_nil⟩

theorem trans {self mid after : RaftNode} (h : JustApplies self mid) (h' : JustApplies mid after) : JustApplies self after := by
  obtain ⟨honly, es, hout, hes⟩ := h
  obtain ⟨honly', es', hout', hes'⟩ := h'
  refine ⟨honly.trans honly', es ++ es', by rw [hout', hout, List.append_assoc], fun e he => ?_⟩
  rcases List.mem_append.1 he with he | he
  · exact hes e he
  · exact hes' e he

theorem applyLoop (self : RaftNode) (n : ℕ) : Ensures (self.applyLoop n) (JustApplies self) := by
  induction n generalizing self with
  | zero => exact Ensures.pure (refl self)
  | succ n ih =>
    unfold RaftNode.applyLoop
    refine Ensures.bind (Ensures.trivial _) fun entry _ => (ih _).mono fun after h => trans ?_ h
    refine ⟨rfl, [_, _], List.append_assoc _ [_] [_], ?_⟩
    simp [Effect.Applies]

theorem maybeCompact (self : RaftNode) : Ensures self.maybeCompact (JustApplies self) := by
  unfold RaftNode.maybeCompact
  simp only
  split
  · exact Ensures.pure (refl self)
  · refine Ensures.bind (Ensures.trivial _) fun lastTerm _ => Ensures.bind (Ensures.trivial _) fun voters _ => ?_
    refine Ensures.pure ⟨rfl, [_, _], List.append_assoc _ [_] [_], ?_⟩
    simp [Effect.Applies]

/-- A commit, with what it applies and compacts. -/
theorem setCommitIndex (self : RaftNode) (index : Int) : Ensures (self.setCommitIndex index) (JustApplies self) := by
  unfold RaftNode.setCommitIndex
  split
  · exact Ensures.pure (refl self)
  · have hcommit : JustApplies self ({ self with commitIndex := index }.record (.commit index)) :=
      ⟨rfl, [_], rfl, by simp [Effect.Applies]⟩
    refine Ensures.bind (applyLoop _ _) fun mid hm => (maybeCompact mid).mono fun after ha => ?_
    exact (hcommit.trans hm).trans ha

end JustApplies

/-- Two logs agree up to every place at which they hold entries of one term. -/
def Matching (L B : List Entry) : Prop :=
  ∀ (k : ℕ) (e e' : Entry), L[k]? = some e → B[k]? = some e' → e.term = e'.term → L.take (k + 1) = B.take (k + 1)

namespace RaftNode.Holds

variable {self : RaftNode} {L B : List Entry} {msg : AppendEntries}

/-- Truncating behind the first `i` entries. -/
theorem truncateFrom (h : self.Holds L) {i : ℕ} (hb : self.baseIndex ≤ i) (hi : i ≤ L.length) :
    (self.truncateFrom (i + 1)).Holds (L.take i) := by
  obtain ⟨b, hb', hbn, hle⟩ := h.exists_base
  have honly := OnlyLog.truncateFrom self (i + 1)
  have hlog : (self.truncateFrom (i + 1)).log = delFrom self.log (self.phys (i + 1)) := by
    simp only [RaftNode.truncateFrom]
    split <;> rfl
  have hp : self.phys (i + 1) = ((i - b : ℕ) : Int) := by
    simp only [RaftNode.phys]
    omega
  refine ⟨honly.baseIndex ▸ h.nonneg, ?_, ?_, ?_⟩
  · rw [honly.baseIndex, List.length_take_of_le hi]
    omega
  · rw [hlog, honly.baseIndex, hp, delFrom_nat _ rfl, h.live, hbn, List.drop_take]
  · rw [honly.baseTerm, honly.baseIndex, h.baseTerm, List.take_take, Nat.min_eq_left (by omega)]

/-- Appending a replicated entry. -/
theorem appendReplicated (h : self.Holds L) (i : Int) (e : Entry) : (self.appendReplicated i e).Holds (L ++ [e]) := by
  obtain ⟨b, hb', hbn, hle⟩ := h.exists_base
  have honly := OnlyLog.appendReplicated self i e
  have hlog : (self.appendReplicated i e).log = self.log ++ [e] := by
    simp only [RaftNode.appendReplicated]
    split <;> rfl
  refine ⟨honly.baseIndex ▸ h.nonneg, ?_, ?_, ?_⟩
  · rw [honly.baseIndex, List.length_append]
    omega
  · rw [hlog, honly.baseIndex, h.live, hbn, List.drop_append_of_le_length hle]
  · rw [honly.baseTerm, honly.baseIndex, h.baseTerm, List.take_append_of_le_length (by omega)]

/-- The loop of `_on_append_entries` merges the leader's entries into a log that agrees with the leader's so far. What holds of a log
and its node, and of every cut and every extension of them, holds of the merge. -/
theorem mergeEntries {P : List Entry → RaftNode → Prop} (hP : ∀ {L node}, P L node → node.Holds L)
    (hcut : ∀ {L node} {i : ℕ}, P L node → node.baseIndex ≤ i → i ≤ L.length → P (L.take i) (node.truncateFrom (i + 1)))
    (hpush : ∀ {L node} (e : Entry), P L node → P (L ++ [e]) (node.appendReplicated (L.length + 1) e))
    {m : ℕ} (hm : m ≤ B.length) (n : ℕ) {L : List Entry} {self : RaftNode} {i : ℕ} (h : P L self) (hn : n = m - i) (him : i ≤ m)
    (hb : self.baseIndex ≤ i) (hi : i ≤ L.length) (hLB : L.take i = B.take i) (hag : Matching L B) :
    ∃ after, self.mergeEntries i ((B.take m).drop i) = .ok after ∧ OnlyLog self after ∧ P (merge L (B.take m)) after := by
  induction n generalizing L self i with
  | zero =>
    obtain rfl : i = m := by omega
    have hes : (B.take i).drop i = [] := by simp
    rw [hes]
    refine ⟨self, rfl, OnlyLog.refl self, ?_⟩
    rwa [merge_eq_left (hLB ▸ List.take_prefix i L)]
  | succ n ih =>
    obtain ⟨e, he⟩ : ∃ e, B[i]? = some e := ⟨_, List.getElem?_eq_getElem (by omega)⟩
    have hes : (B.take m).drop i = e :: (B.take m).drop (i + 1) := by
      have hme : (B.take m)[i]? = some e := by rwa [List.getElem?_take_of_lt (by omega)]
      obtain ⟨hlt, heq⟩ := List.getElem?_eq_some_iff.1 hme
      rw [List.drop_eq_getElem_cons hlt, heq]
    rw [hes, RaftNode.mergeEntries, (hP h).lastLogIndex]
    have hnext : ∀ mid : RaftNode, OnlyLog self mid → P (L.take i ++ [e]) mid → ¬B.take m <+: L →
        ∃ after, mid.mergeEntries (i + 1) ((B.take m).drop (i + 1)) = .ok after ∧ OnlyLog self after ∧
          P (merge L (B.take m)) after := by
      intro mid hon hmid hnot
      have hB : L.take i ++ [e] = B.take (i + 1) := by rw [hLB, take_succ_eq he]
      rw [hB] at hmid
      have hlen : (B.take (i + 1)).length = i + 1 := List.length_take_of_le (by omega)
      obtain ⟨after, h1, h2, h3⟩ := ih hmid (i := i + 1) (by omega) (by omega)
        (by rw [hon.baseIndex]; push_cast; omega) (by omega) (by rw [List.take_take, Nat.min_self]) (by
          intro k x y hx hy _
          have hk : k < i + 1 := hlen ▸ (List.getElem?_eq_some_iff.1 hx).1
          rw [List.take_take, Nat.min_eq_left (by omega)])
      refine ⟨after, h1, hon.trans h2, ?_⟩
      have hpm : B.take (i + 1) <+: B.take m := List.take_prefix_take_left (by omega)
      have hme : merge (B.take (i + 1)) (B.take m) = merge L (B.take m) := by
        rw [merge_eq_right hnot]
        by_cases hp : B.take m <+: B.take (i + 1)
        · rw [merge_eq_left hp]
          exact hpm.eq_of_length (le_antisymm hpm.length_le hp.length_le)
        · exact merge_eq_right hp
      rwa [hme] at h3
    split
    · rename_i hle
      have hlt : i < L.length := by
        have : ((i : Int) + 1 : Int) ≤ L.length := hle
        omega
      obtain ⟨x, hx⟩ : ∃ x, L[i]? = some x := ⟨_, List.getElem?_eq_getElem hlt⟩
      have ht := (hP h).termAt (i := i + 1) (by push_cast; omega) (by omega)
      rw [lastTermOf_take hx] at ht
      push_cast at ht
      rw [ht]
      simp only [bind, Except.bind]
      split
      · rename_i hne
        refine hnext _ ((OnlyLog.truncateFrom _ _).trans (OnlyLog.appendReplicated _ _ _)) ?_ ?_
        · have hl : (L.take i).length = i := List.length_take_of_le hi
          have := hpush e (hcut h hb hi)
          rwa [hl] at this
        · intro hp
          have hmL := getElem?_extends hp (k := i) (e := e) (by rwa [List.getElem?_take_of_lt (by omega)])
          rw [hx, Option.some.injEq] at hmL
          exact hne (by rw [hmL])
      · rename_i heq
        have hte : x.term = e.term := not_not.1 heq
        obtain ⟨after, h1, h2, h3⟩ := ih h (i := i + 1) (by omega) (by omega) (by push_cast; omega) (by omega)
          (hag i x e hx he hte) hag
        exact ⟨after, by simpa using h1, h2, h3⟩
    · rename_i hle
      have hil : i = L.length := by
        have : ¬((i : Int) + 1 : Int) ≤ L.length := hle
        omega
      refine hnext _ (OnlyLog.appendReplicated _ _ _) ?_ ?_
      · have := hpush e h
        rw [hil, List.take_length]
        exact this
      · intro hp
        have := hp.length_le
        rw [List.length_take_of_le hm] at this
        omega

/-- What is left of a message after the covered entries: a stretch of the leader's log up to the same place, from the base on or
empty. -/
theorem skipCovered (h : self.Holds L) {p : ℕ} (hp : msg.prevIndex = p) (hpt : msg.prevTerm = lastTermOf (B.take p))
    (hes : msg.entries = (B.take (p + msg.entries.length)).drop p) :
    ∃ i : ℕ, p ≤ i ∧ i ≤ p + msg.entries.length ∧ (self.baseIndex ≤ i ∨ i = p + msg.entries.length) ∧
      (i = p ∨ i ≤ self.baseIndex) ∧
      self.skipCovered msg = .ok ((i : Int), lastTermOf (B.take i), (B.take (p + msg.entries.length)).drop i) := by
  obtain ⟨b, hb, hbn, hle⟩ := h.exists_base
  unfold RaftNode.skipCovered
  generalize hm : p + msg.entries.length = m at hes ⊢
  simp only
  split
  · rename_i hlt
    split
    · rename_i hc
      have hnil : msg.entries.length = 0 := by omega
      exact ⟨p, le_rfl, by omega, Or.inr (by omega), Or.inl rfl, by
        rw [hp, hpt, ← hes]
        rfl⟩
    · rename_i hc
      obtain ⟨c, hcov, hc1, hc2, hc3⟩ : ∃ c : ℕ, min (msg.entries.length : Int) (self.baseIndex - msg.prevIndex) = c ∧
          0 < c ∧ c ≤ msg.entries.length ∧ (self.baseIndex ≤ p + c ∨ c = msg.entries.length) :=
        ⟨min msg.entries.length (b - p), by omega, by omega, by omega, by omega⟩
      rw [hcov]
      obtain ⟨e, he⟩ : ∃ e, msg.entries[c - 1]? = some e := ⟨_, List.getElem?_eq_getElem (by omega)⟩
      have hB : B[p + c - 1]? = some e := by
        rw [hes, List.getElem?_drop, List.getElem?_take_of_lt (by omega)] at he
        rwa [show p + c - 1 = p + (c - 1) by omega]
      have hidx : pyIndex msg.entries ((c : Int) - 1) = .ok e := pyIndex_ok (by omega) he
      simp only [hidx, bind, Except.bind]
      refine ⟨p + c, by omega, by omega, ?_, Or.inr (by omega), ?_⟩
      · rcases hc3 with hc3 | hc3
        · exact Or.inl (by omega)
        · exact Or.inr (by omega)
      · have hlt' : lastTermOf (B.take (p + c)) = e.term := by
          have := lastTermOf_take hB
          rwa [Nat.sub_add_cancel (by omega)] at this
        have hcast : msg.prevIndex + c = ((p + c : ℕ) : Int) := by omega
        rw [hlt', sliceFrom_nat msg.entries rfl, hcast]
        conv_lhs => rw [hes, List.drop_drop]
        rfl
  · exact ⟨p, le_rfl, by omega, Or.inl (by omega), Or.inl rfl, by
        rw [hp, hpt, ← hes]
        rfl⟩

/-- The consistency check raises nothing, and what passes it agrees with the leader's log up to the place from which entries are taken
over, if what is compacted does. -/
theorem inconsistent (h : self.Holds L) (hbug : self.bugs.skipLogConsistency = false) {i m : ℕ} (hm : m ≤ B.length) (hi : i ≤ m)
    (hknown : i ≤ self.baseIndex → L.take i = B.take i) (hmatch : Matching L B) :
    ∃ c, self.inconsistent i (lastTermOf (B.take i)) = .ok c ∧ (c = false → i ≤ L.length ∧ L.take i = B.take i) := by
  obtain ⟨b, hb, hbn, hle⟩ := h.exists_base
  have hlast := h.lastLogIndex
  unfold RaftNode.inconsistent
  split
  · rename_i hlt
    refine ⟨_, rfl, fun hc => ?_⟩
    exact absurd (of_decide_eq_false hc) (by omega)
  · rename_i hnlt
    have hil : i ≤ L.length := by omega
    rcases Nat.lt_or_ge b i with hib | hib
    · have hterm := h.termAt (i := i) (by omega) hil
      rw [hterm]
      refine ⟨_, rfl, fun hc => ⟨hil, ?_⟩⟩
      have hc' := of_decide_eq_false hc
      have heq : lastTermOf (L.take i) = lastTermOf (B.take i) := by
        by_contra hne
        exact hc' ⟨by omega, hne, hbug⟩
      obtain ⟨k, rfl⟩ : ∃ k, i = k + 1 := ⟨i - 1, by omega⟩
      obtain ⟨e, he⟩ : ∃ e, L[k]? = some e := ⟨_, List.getElem?_eq_getElem (by omega)⟩
      obtain ⟨e', he'⟩ : ∃ e', B[k]? = some e' := ⟨_, List.getElem?_eq_getElem (by omega)⟩
      rw [lastTermOf_take he, lastTermOf_take he'] at heq
      exact hmatch k e e' he he' heq
    · have hterm : self.termAt i = .ok self.baseTerm := by
        unfold RaftNode.termAt
        rw [if_pos (by omega)]
      rw [hterm]
      exact ⟨_, rfl, fun _ => ⟨hil, hknown (by omega)⟩⟩

end RaftNode.Holds

end DeterministicRaft
