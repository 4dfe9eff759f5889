import DeterministicRaft.NodeInvariant
import DeterministicRaft.Twins
import DeterministicRaft.History

/-!
# What a commit does

Setting the commit index within the log never raises: the entries up to the new index are applied in order, each once, and the applied
prefix is then folded into a snapshot or left in the log.
-/

namespace DeterministicRaft

open RaftNode Refinement

variable {I : Inputs} {self mid after : RaftNode} {index : Int} {entries : List Entry}

/-! ## What is heard of the applied entries -/

/-- The entries that were recorded as applied, with their indices. -/
def appliedEntries (out : List Effect) : List (Int × Entry) :=
  out.filterMap fun
    | .record (.apply index entry) => some (index, entry)
    | _ => none

/-- The commands that `on_apply` was called with, and their results. -/
def notifications (out : List Effect) : List (String × String) :=
  out.filterMap fun
    | .onApply command result => some (command, result)
    | _ => none

@[simp] theorem appliedEntries_append (out es : List Effect) : appliedEntries (out ++ es) = appliedEntries out ++ appliedEntries es :=
  List.filterMap_append

@[simp] theorem notifications_append (out es : List Effect) : notifications (out ++ es) = notifications out ++ notifications es :=
  List.filterMap_append

/-- Entries are heard of in order, at the indices after the last applied one, with the results of the state machine. -/
theorem foldl_applyEntry_out (self : RaftNode) (entries : List Entry) :
    appliedEntries (entries.foldl applyEntry self).out =
      appliedEntries self.out ++ entries.mapIdx (fun k e => (self.lastApplied + 1 + k, e)) ∧
    notifications (entries.foldl applyEntry self).out = notifications self.out ++ (entries.map (·.command)).zip
      (History.results KVStateMachine.apply self.kv (entries.map fun e => Command.decode e.command)) := by
  induction entries generalizing self with
  | nil => simp
  | cons e entries ih =>
    obtain ⟨happ, hnot⟩ := ih (self.applyEntry e)
    rw [List.foldl_cons]
    refine ⟨happ.trans ?_, hnot.trans ?_⟩
    · rw [Twins.applyEntry_eq]
      simp only [appliedEntries_append, List.mapIdx_cons, List.append_assoc]
      congr 1
      simp only [appliedEntries, List.filterMap_cons, List.filterMap_nil, List.cons_append, List.nil_append]
      congr 2
      · simp
      · funext k e
        push_cast
        congr 1
        omega
    · rw [Twins.applyEntry_eq]
      simp only [notifications_append, List.append_assoc]
      rfl

/-- What is heard of a commit. -/
theorem committed_out (self : RaftNode) (index : Int) (entries : List Entry) :
    appliedEntries (self.committed index entries).out =
      appliedEntries self.out ++ entries.mapIdx (fun k e => (self.lastApplied + 1 + k, e)) ∧
    notifications (self.committed index entries).out = notifications self.out ++ (entries.map (·.command)).zip
      (History.results KVStateMachine.apply self.kv (entries.map fun e => Command.decode e.command)) := by
  obtain ⟨happ, hnot⟩ := foldl_applyEntry_out ({ self with commitIndex := index }.record (.commit index)) entries
  refine ⟨happ.trans ?_, hnot.trans ?_⟩
  · simp only [RaftNode.record, emit, appliedEntries_append]
    simp [appliedEntries]
  · simp only [RaftNode.record, emit, notifications_append]
    simp [notifications]

/-! ## The loop over the entries -/

/-- Entries that are in the log can be applied. -/
theorem applyLoop_ok (self : RaftNode) (n : ℕ) (hb : self.baseIndex ≤ self.lastApplied)
    (hl : self.lastApplied + n ≤ self.lastLogIndex) : ∃ after, self.applyLoop n = .ok after := by
  induction n generalizing self with
  | zero => exact ⟨self, rfl⟩
  | succ n ih =>
    push_cast at hl
    obtain ⟨e, he⟩ := self.entryAt_ok (i := self.lastApplied + 1) (by omega) (by omega)
    have hsucc : self.applyLoop (n + 1) = self.entryAt (self.lastApplied + 1) >>= fun e => (self.applyEntry e).applyLoop n := rfl
    rw [hsucc, he]
    refine ih (self.applyEntry e) ?_ ?_
    · exact hb.trans (by simp [Twins.applyEntry_eq])
    · have : (self.applyEntry e).lastLogIndex = self.lastLogIndex := rfl
      have : (self.applyEntry e).lastApplied = self.lastApplied + 1 := rfl
      omega

/-! ## Compaction -/

/-- The node has folded what it has applied into a snapshot, or it is as it was. -/
def Folded (mid after : RaftNode) : Prop :=
  after = mid ∨ ∃ lastTerm snapVoters, mid.Compacts lastTerm snapVoters ∧ after = mid.compacted lastTerm snapVoters

theorem maybeCompact_ok (self : RaftNode) (hl : self.lastApplied ≤ self.lastLogIndex) :
    ∃ after, self.maybeCompact = .ok after ∧ Folded self after := by
  unfold RaftNode.maybeCompact
  simp only
  split
  · exact ⟨self, rfl, Or.inl rfl⟩
  · rename_i hg
    push Not at hg
    obtain ⟨t, ht⟩ := self.termAt_ok hl
    obtain ⟨c, hc⟩ := self.configAt_ok hl
    have ht' : (self.emit (.beforeCompact self.view)).termAt (self.emit (.beforeCompact self.view)).lastApplied = .ok t := ht
    have hc' : (self.emit (.beforeCompact self.view)).configAt (self.emit (.beforeCompact self.view)).lastApplied = .ok c := hc
    rw [ht', hc']
    exact ⟨self.compacted t c, rfl, Or.inr ⟨t, c, ⟨hg.1, hg.2, ht, hc⟩, rfl⟩⟩

/-- What folding changes: entries that are applied leave the log, the others stay where they are. -/
theorem Folded.fields (h : Folded mid after) (hb : mid.baseIndex ≤ mid.lastApplied) :
    ∃ (d : ℕ) (applied : List String) (baseTerm : Int) (snapshot : Option Snapshot) (logVersion : Int) (es : List Effect),
      after = { mid with
        log := mid.log.drop d
        baseIndex := mid.baseIndex + d
        applied, baseTerm, snapshot, logVersion
        out := mid.out ++ es } ∧ mid.baseIndex + d ≤ mid.lastApplied ∧ appliedEntries es = [] ∧ notifications es = [] := by
  rcases h with rfl | ⟨t, vs, -, rfl⟩
  · exact ⟨0, after.applied, after.baseTerm, after.snapshot, after.logVersion, [], by simp, by simpa using hb, rfl, rfl⟩
  · have hd : mid.baseIndex + ((mid.lastApplied - mid.baseIndex).toNat : Int) = mid.lastApplied := by omega
    refine ⟨(mid.lastApplied - mid.baseIndex).toNat, (mid.compacted t vs).applied, t, (mid.compacted t vs).snapshot, mid.logVersion + 1,
      [.beforeCompact mid.view, .record (.snapshot mid.lastApplied t)], ?_, hd.le, rfl, rfl⟩
    rw [hd, ← sliceFrom_nat mid.log (i := mid.lastApplied - mid.baseIndex) (by omega)]
    simp only [compacted, RaftNode.record, emit, List.append_assoc, List.cons_append, List.nil_append]

/-! ## The commit -/

/-- A commit index within the log can be set: the entries up to it are applied, and the log may be compacted then. -/
theorem setCommitIndex_ok (self : RaftNode) (hb : self.baseIndex ≤ self.lastApplied) (ha : self.lastApplied ≤ index)
    (hc : self.commitIndex < index) (hl : index ≤ self.lastLogIndex) :
    ∃ entries after, self.Commits index entries ∧ self.setCommitIndex index = .ok after ∧
      Folded (self.committed index entries) after := by
  have hlen : ({ self with commitIndex := index }.record (.commit index)).lastLogIndex = self.lastLogIndex := rfl
  obtain ⟨mid, hmid⟩ := applyLoop_ok ({ self with commitIndex := index }.record (.commit index)) (index - self.lastApplied).toNat hb
    (by
      have : ({ self with commitIndex := index }.record (.commit index)).lastApplied = self.lastApplied := rfl
      omega)
  obtain ⟨entries, hn, hread, rfl⟩ := Makes.applyLoop_eq _ _ _ hmid
  obtain ⟨es, -, heq⟩ := committed_eq self index entries
  obtain ⟨after, hafter, hfold⟩ := maybeCompact_ok (self.committed index entries) (by
    rw [heq]
    have : (self.lastLogIndex : Int) = self.baseIndex + self.log.length := rfl
    simp only [RaftNode.lastLogIndex]
    omega)
  refine ⟨entries, after, ⟨hc, hn, hread⟩, ?_, hfold⟩
  rw [RaftNode.setCommitIndex, if_neg (not_le.2 hc)]
  have hloop : ({ self with commitIndex := index }.record (.commit index)).applyLoop
      (({ self with commitIndex := index }.record (.commit index)).commitIndex -
        ({ self with commitIndex := index }.record (.commit index)).lastApplied).toNat =
      .ok (self.committed index entries) := hmid
  simp only [hloop, bind, Except.bind]
  exact hafter

/-- A node whose commit index has been set: the entries up to it are applied, in order and each once, and those that are still live
are where they were. -/
structure RaftNode.Settled (node : RaftNode) (index : Int) (entries : List Entry) (after : RaftNode) : Prop where
  commitIndex : after.commitIndex = index
  lastApplied : after.lastApplied = index
  kv : after.kv = node.kv.applyAll (entries.map (·.command))
  appliedEntries : appliedEntries after.out = appliedEntries node.out ++ entries.mapIdx (fun k e => (node.lastApplied + 1 + k, e))
  notifications : notifications after.out = notifications node.out ++ (entries.map (·.command)).zip
    (History.results KVStateMachine.apply node.kv (entries.map fun e => Command.decode e.command))
  base : node.baseIndex ≤ after.baseIndex ∧ after.baseIndex ≤ index
  last : after.lastLogIndex = node.lastLogIndex
  live : ∀ i, after.baseIndex < i → after.entryAt i = node.entryAt i
  same : after.role = node.role ∧ after.term = node.term ∧ after.voters = node.voters ∧ after.matchIndex = node.matchIndex ∧
    after.nextIndex = node.nextIndex

theorem RaftNode.Commits.settled (hc : self.Commits index entries) (hb : self.baseIndex ≤ self.lastApplied)
    (ha : self.lastApplied ≤ index) (hl : index ≤ self.lastLogIndex) (hf : Folded (self.committed index entries) after) :
    self.Settled index entries after := by
  obtain ⟨happ, hnot⟩ := committed_out self index entries
  obtain ⟨es, -, heq⟩ := committed_eq self index entries
  have hlen := hc.length
  generalize self.committed index entries = mid at heq happ hnot hf
  have hmid : mid.baseIndex = self.baseIndex ∧ mid.lastApplied = index ∧ mid.log = self.log := by
    rw [heq]
    exact ⟨rfl, show self.lastApplied + entries.length = index by omega, rfl⟩
  obtain ⟨hmb, hma, hml⟩ := hmid
  obtain ⟨d, applied, baseTerm, snapshot, logVersion, es', hafter, hd, hes, hes'⟩ := hf.fields (by omega)
  rw [RaftNode.lastLogIndex] at hl
  have hdl : d ≤ self.log.length := by omega
  subst hafter
  refine ⟨by rw [heq], hma, by rw [heq], ?_, ?_, ⟨?_, ?_⟩, ?_, fun i hi => ?_, by rw [heq]; exact ⟨rfl, rfl, rfl, rfl, rfl⟩⟩
  · simp only [appliedEntries_append, hes, List.append_nil, happ]
  · simp only [notifications_append, hes', List.append_nil, hnot]
  · simp only [hmb]
    omega
  · simp only
    omega
  · simp only [RaftNode.lastLogIndex, hml, hmb, List.length_drop]
    omega
  · simp only [hmb] at hi
    simp only [RaftNode.entryAt, RaftNode.phys, hml, hmb]
    rw [pyIndex_drop _ (by omega)]
    congr 1
    omega

end DeterministicRaft
