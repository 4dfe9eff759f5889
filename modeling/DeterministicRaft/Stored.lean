import DeterministicRaft.Scheme
import DeterministicRaft.LogicalLog

/-!
# What a node holds of a log

A node that has compacted holds the tail of its log and a snapshot of the rest. `Stored net L` says that a node holds the log
`L` in this form, with the configuration in force under `L`. Each operation on the stored log is an operation on `L`.
-/

namespace DeterministicRaft

open Consensus

/-- The part of a node in which it keeps its log and what it derives from it. -/
structure Disk where
  baseIndex : Int
  baseTerm : Int
  log : List Entry
  snapshot : Option Snapshot
  initialVoters : List NodeId
  voters : List NodeId
  configIndex : Int

def RaftNode.disk (self : RaftNode) : Disk where
  baseIndex := self.baseIndex
  baseTerm := self.baseTerm
  log := self.log
  snapshot := self.snapshot
  initialVoters := self.initialVoters
  voters := self.voters
  configIndex := self.configIndex

/-- The log `L`, held as a snapshot of its first entries and the others. The governing index is not before any configuration
entry. -/
structure Stored (net : Network) (L : List Entry) (d : Disk) : Prop where
  nonneg : 0 ≤ d.baseIndex
  le : d.baseIndex ≤ L.length
  live : d.log = L.drop d.baseIndex.toNat
  baseTerm : d.baseTerm = net.scheme.lastTerm (L.take d.baseIndex.toNat)
  snapshot : d.snapshot = net.snapshotOf (L.take d.baseIndex.toNat)
  initialVoters : d.initialVoters = net.scheme.initial
  voters : d.voters = net.scheme.cfg L
  configIndex : ∀ (j : ℕ) (e : Entry), L[j]? = some e → decodeConfig e.command ≠ none → (j : Int) < d.configIndex

/-- The last term of a cut is that of its last entry. -/
theorem lastTerm_take {S : Scheme NodeId Entry (List NodeId)} {L : List Entry} {i : ℕ} {e : Entry} (h : L[i]? = some e) :
    S.lastTerm (L.take (i + 1)) = S.term e := by
  simp [Scheme.lastTerm, take_succ_eq h]

namespace Stored

variable {net : Network} {L : List Entry} {self : RaftNode}

/-- A node that holds a log with its snapshot holds the log. -/
theorem holds (h : Stored net L self.disk) : self.Holds L := ⟨h.nonneg, h.le, h.live, h.baseTerm⟩

theorem exists_base (h : Stored net L self.disk) : ∃ b : ℕ, self.baseIndex = b ∧ self.baseIndex.toNat = b ∧ b ≤ L.length :=
  h.holds.exists_base

theorem lastLogIndex (h : Stored net L self.disk) : self.lastLogIndex = L.length := h.holds.lastLogIndex

theorem entryAt (h : Stored net L self.disk) {i : ℕ} {e : Entry} (hb : self.baseIndex ≤ i) (he : L[i]? = some e) :
    self.entryAt (i + 1) = .ok e := h.holds.entryAt hb he

theorem termAt (h : Stored net L self.disk) {i : ℕ} (hb : self.baseIndex ≤ i) (hi : i ≤ L.length) :
    self.termAt i = .ok (net.scheme.lastTerm (L.take i)) := h.holds.termAt hb hi

theorem logSuffix (h : Stored net L self.disk) {i : ℕ} (hb : self.baseIndex ≤ i) : self.logSuffix (i + 1) = L.drop i :=
  h.holds.logSuffix hb

/-- The configuration comes back from the log and the snapshot. -/
theorem rebuildConfig (nonneg : 0 ≤ self.baseIndex) (le : self.baseIndex ≤ L.length)
    (live : self.log = L.drop self.baseIndex.toNat)
    (baseTerm : self.baseTerm = net.scheme.lastTerm (L.take self.baseIndex.toNat))
    (snapshot : self.snapshot = net.snapshotOf (L.take self.baseIndex.toNat))
    (initialVoters : self.initialVoters = net.scheme.initial) : Stored net L self.rebuildConfig.disk := by
  obtain ⟨b, hb⟩ := Int.eq_ofNat_of_zero_le nonneg
  have hbn : self.baseIndex.toNat = b := by omega
  have hle : b ≤ L.length := by omega
  rw [hbn] at live baseTerm snapshot
  obtain ⟨start, hs, hs1, hs2⟩ : ∃ start : List NodeId × Int,
      self.rebuildConfig = self.adoptConfig (RaftNode.lastConfig start.1 start.2 (self.baseIndex + 1) self.log).1
        (RaftNode.lastConfig start.1 start.2 (self.baseIndex + 1) self.log).2 ∧
      start.1 = net.scheme.cfg (L.take b) ∧ start.2 = b := by
    unfold RaftNode.rebuildConfig
    by_cases hnil : L.take b = []
    · have hb0 : b = 0 := by
        have := congrArg List.length hnil
        rwa [List.length_take_of_le hle] at this
      rw [snapshot, Network.snapshotOf, if_pos hnil]
      exact ⟨_, rfl, by simpa [hnil] using initialVoters, by simp [hb0]⟩
    · rw [snapshot, Network.snapshotOf, if_neg hnil]
      exact ⟨_, rfl, rfl, by simp [List.length_take_of_le hle]⟩
  have hv : (RaftNode.lastConfig start.1 start.2 (self.baseIndex + 1) self.log).1 = net.scheme.cfg L := by
    rw [Network.lastConfig_fst, hs1, live, ← Network.cfg_append, List.take_append_drop]
  rw [hs]
  refine ⟨nonneg, le, ?_, ?_, ?_, initialVoters, hv, ?_⟩
  · simpa [RaftNode.disk, RaftNode.adoptConfig, hbn] using live
  · simpa [RaftNode.disk, RaftNode.adoptConfig, hbn] using baseTerm
  · simpa [RaftNode.disk, RaftNode.adoptConfig, hbn] using snapshot
  · intro j e hj he
    show (j : Int) < (RaftNode.lastConfig start.1 start.2 (self.baseIndex + 1) self.log).2
    rcases Nat.lt_or_ge j b with hjb | hjb
    · have := Network.le_lastConfig_snd self.log start.1 (show start.2 ≤ self.baseIndex + 1 by omega)
      omega
    · have hj' : self.log[j - b]? = some e := by
        rw [live, List.getElem?_drop]
        rwa [Nat.add_sub_cancel' hjb]
      have := Network.config_le_lastConfig_snd self.log start.1 start.2 (self.baseIndex + 1) hj' he (by omega)
      omega

/-- Truncating behind the first `i` entries. -/
theorem truncateFrom (h : Stored net L self.disk) {i : ℕ} (hb : self.baseIndex ≤ i) (hi : i ≤ L.length) :
    Stored net (L.take i) (self.truncateFrom (i + 1)).disk := by
  obtain ⟨b, hb', hbn, hle⟩ := h.exists_base
  have hl : self.log = L.drop self.baseIndex.toNat := h.live
  have hbt : self.baseTerm = net.scheme.lastTerm (L.take self.baseIndex.toNat) := h.baseTerm
  have hsn : self.snapshot = net.snapshotOf (L.take self.baseIndex.toNat) := h.snapshot
  have hlen : self.baseIndex ≤ (L.take i).length := by
    rw [List.length_take_of_le hi]
    omega
  have htake : (L.take i).take self.baseIndex.toNat = L.take self.baseIndex.toNat := by
    rw [List.take_take, Nat.min_eq_left (by omega)]
  have hlive : delFrom self.log (self.phys (i + 1)) = (L.take i).drop self.baseIndex.toNat := by
    have hp : self.phys (i + 1) = ((i - b : ℕ) : Int) := by
      simp only [RaftNode.phys]
      omega
    rw [hp, delFrom_nat _ rfl, hl, hbn, List.drop_take]
  rw [← htake] at hbt hsn
  simp only [RaftNode.truncateFrom]
  split
  · exact rebuildConfig h.nonneg hlen hlive hbt hsn h.initialVoters
  · rename_i hci
    have hci' : self.configIndex < i + 1 := by simpa using hci
    have hq : ∀ (j : ℕ) (e : Entry), L[j]? = some e → i ≤ j → decodeConfig e.command = none := by
      intro j e hj hij
      by_contra hne
      have : (j : Int) < self.configIndex := h.configIndex j e hj hne
      omega
    refine ⟨h.nonneg, hlen, hlive, hbt, hsn, h.initialVoters, ?_, ?_⟩
    · have hv : self.voters = net.scheme.cfg L := h.voters
      show self.voters = _
      rw [hv, ← List.take_append_drop i L, Network.cfg_append, List.take_append_drop]
      have key : ∀ (R : List Entry) (c : List NodeId), (∀ e ∈ R, decodeConfig e.command = none) →
          R.foldl (fun c e => (decodeConfig e.command).getD c) c = c := by
        intro R
        induction R with
        | nil => intro c _; rfl
        | cons e R ih =>
          intro c hR
          rw [List.foldl_cons, hR e List.mem_cons_self]
          exact ih c fun x hx => hR x (List.mem_cons_of_mem _ hx)
      refine key _ _ fun e he => ?_
      obtain ⟨j, hj⟩ := List.mem_iff_getElem?.1 he
      rw [List.getElem?_drop] at hj
      exact hq _ e hj (by omega)
    · intro j e hj he
      exact h.configIndex j e (getElem?_extends (List.take_prefix i L) hj) he

/-- Appending a replicated entry. -/
theorem appendReplicated (h : Stored net L self.disk) (e : Entry) :
    Stored net (L ++ [e]) (self.appendReplicated (L.length + 1) e).disk := by
  obtain ⟨b, hb', hbn, hle⟩ := h.exists_base
  have hl : self.log = L.drop self.baseIndex.toNat := h.live
  have hbt : self.baseTerm = net.scheme.lastTerm (L.take self.baseIndex.toNat) := h.baseTerm
  have hsn : self.snapshot = net.snapshotOf (L.take self.baseIndex.toNat) := h.snapshot
  have hv : self.voters = net.scheme.cfg L := h.voters
  have hci : ∀ (j : ℕ) (e : Entry), L[j]? = some e → decodeConfig e.command ≠ none → (j : Int) < self.configIndex :=
    h.configIndex
  have hlive : self.log ++ [e] = (L ++ [e]).drop self.baseIndex.toNat := by
    rw [hl, hbn, List.drop_append_of_le_length hle]
  have htake : (L ++ [e]).take self.baseIndex.toNat = L.take self.baseIndex.toNat :=
    List.take_append_of_le_length (by omega)
  rw [← htake] at hbt hsn
  have hlen : self.baseIndex ≤ (L ++ [e]).length := by
    rw [List.length_append]
    omega
  unfold RaftNode.appendReplicated
  cases hd : decodeConfig e.command with
  | none =>
    refine ⟨h.nonneg, hlen, hlive, hbt, hsn, h.initialVoters, ?_, ?_⟩
    · rw [Scheme.cfg_concat, Network.scheme_config, hd]
      exact hv
    · intro j x hj hx
      rcases Nat.lt_or_ge j L.length with hjl | hjl
      · rw [List.getElem?_append_left hjl] at hj
        exact hci j x hj hx
      · have hlt := (List.getElem?_eq_some_iff.1 hj).1
        rw [List.length_append, List.length_singleton] at hlt
        obtain rfl : j = L.length := by omega
        rw [List.getElem?_concat_length, Option.some.injEq] at hj
        subst hj
        exact absurd hd hx
  | some c =>
    refine ⟨h.nonneg, hlen, hlive, hbt, hsn, h.initialVoters, ?_, ?_⟩
    · rw [Scheme.cfg_concat, Network.scheme_config, hd]
      rfl
    · intro j x hj _
      have hlt := (List.getElem?_eq_some_iff.1 hj).1
      rw [List.length_append, List.length_singleton] at hlt
      show (j : Int) < L.length + 1
      omega

/-- The configuration in force after the first `i` entries. -/
theorem configAt (h : Stored net L self.disk) {i : ℕ} (hb : self.baseIndex ≤ i) (hi : i ≤ L.length) :
    self.configAt i = .ok (net.scheme.cfg (L.take i)) := by
  obtain ⟨b, hb', hbn, hle⟩ := h.exists_base
  have hl : self.log = L.drop self.baseIndex.toNat := h.live
  have hsn : self.snapshot = net.snapshotOf (L.take self.baseIndex.toNat) := h.snapshot
  have hiv : self.initialVoters = net.scheme.initial := h.initialVoters
  rw [hbn] at hl hsn
  have hk : ((i : Int) - self.baseIndex).toNat = i - b := by omega
  obtain ⟨c, hc, hv⟩ := Network.configBelow_eq self.log (n := i - b) (by rw [hl, List.length_drop]; omega)
    (net.scheme.cfg (L.take b))
  have hcut : self.log.take (i - b) = (L.take i).drop b := by
    rw [hl, List.drop_take]
  have htt : L.take b ++ (L.take i).drop b = L.take i := by
    have : (L.take i).take b = L.take b := by rw [List.take_take, Nat.min_eq_left (by omega)]
    rw [← this, List.take_append_drop]
  rw [hcut, ← Network.cfg_append, htt] at hv
  unfold RaftNode.configAt
  rw [hk, hc]
  cases c with
  | some d => exact congrArg Except.ok hv
  | none =>
    simp only [bind, Except.bind]
    by_cases hnil : L.take b = []
    · rw [hsn, Network.snapshotOf, if_pos hnil, hiv]
      rw [hnil] at hv
      exact congrArg Except.ok hv
    · rw [hsn, Network.snapshotOf, if_neg hnil]
      exact congrArg Except.ok hv

end Stored

/-- The loop of `_on_append_entries` merges the leader's entries into a log that agrees with the leader's so far. -/
theorem Stored.mergeEntries {net : Network} {B : List Entry} {m : ℕ} (hm : m ≤ B.length) (n : ℕ) {L : List Entry}
    {self : RaftNode} {i : ℕ} (h : Stored net L self.disk) (hn : n = m - i) (him : i ≤ m) (hb : self.baseIndex ≤ i)
    (hi : i ≤ L.length) (hLB : L.take i = B.take i) (hag : Matching L B) :
    ∃ after, self.mergeEntries i ((B.take m).drop i) = .ok after ∧ OnlyLog self after ∧
      Stored net (merge L (B.take m)) after.disk :=
  RaftNode.Holds.mergeEntries (P := fun L node => Stored net L node.disk) (fun h => h.holds) (fun h => h.truncateFrom)
    (fun e h => h.appendReplicated e) hm n h hn him hb hi hLB hag

end DeterministicRaft
