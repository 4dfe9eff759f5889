import DeterministicRaft.NodeInvariant
import DeterministicRaft.Scheme

/-!
# Membership is derived state

The voters of a node are always those that the last configuration entry of its log names; below the log the snapshot's, and below
that the first ones. The index of that entry is exact where it matters, above the commit index.
-/

namespace DeterministicRaft

open RaftNode Refinement

/-- The voters the last configuration entry of a log names, or those given. -/
def named (fallback : List NodeId) (log : List Entry) : List NodeId :=
  ((log.filterMap fun e => decodeConfig e.command).getLast?).getD fallback

/-- The entry at offset `k` is the last configuration entry of the log. -/
def Governs (log : List Entry) (k : ℕ) : Prop :=
  (∃ e, log[k]? = some e ∧ decodeConfig e.command ≠ none) ∧ ∀ j e, k < j → log[j]? = some e → decodeConfig e.command = none

/-- The voters in force below the live log: the snapshot's, or the first ones. -/
def RaftNode.fallback (self : RaftNode) : List NodeId :=
  match self.snapshot with
  | some snapshot => snapshot.voters
  | none => self.initialVoters

/-! ## The last configuration entry of a log -/

variable {fallback : List NodeId} {log : List Entry} {e : Entry} {k : ℕ}

theorem named_concat (fallback : List NodeId) (log : List Entry) (e : Entry) :
    named fallback (log ++ [e]) = (decodeConfig e.command).getD (named fallback log) := by
  cases hd : decodeConfig e.command <;> simp [named, List.filterMap_append, hd]

/-- The loops of `_rebuild_config` and `_config_at` compute the same. -/
theorem named_eq_foldl (fallback : List NodeId) (log : List Entry) :
    named fallback log = log.foldl (fun c e => (decodeConfig e.command).getD c) fallback := by
  induction log using List.reverseRecOn with
  | nil => rfl
  | append_singleton log e ih => rw [named_concat, List.foldl_append, ih, List.foldl_cons, List.foldl_nil]

theorem named_append (fallback : List NodeId) (log more : List Entry) :
    named fallback (log ++ more) = named (named fallback log) more := by
  rw [named_eq_foldl, named_eq_foldl, named_eq_foldl, List.foldl_append]

theorem named_of_none (h : ∀ e ∈ log, decodeConfig e.command = none) : named fallback log = fallback := by
  have hnil : log.filterMap (fun e => decodeConfig e.command) = [] := List.filterMap_eq_nil_iff.2 h
  rw [named, hnil]
  rfl

theorem Governs.concat (he : decodeConfig e.command ≠ none) : Governs (log ++ [e]) k ↔ k = log.length := by
  constructor
  · rintro ⟨⟨x, hx, -⟩, hlast⟩
    have hlt := (List.getElem?_eq_some_iff.1 hx).1
    rw [List.length_append, List.length_singleton] at hlt
    by_contra hne
    exact he (hlast log.length e (by omega) (by simp))
  · rintro rfl
    refine ⟨⟨e, by simp, he⟩, fun j x hj hx => ?_⟩
    have hlt := (List.getElem?_eq_some_iff.1 hx).1
    rw [List.length_append, List.length_singleton] at hlt
    omega

/-- Entries without a configuration change nothing. -/
theorem Governs.append {more : List Entry} (hm : ∀ e ∈ more, decodeConfig e.command = none) :
    Governs (log ++ more) k ↔ Governs log k := by
  constructor
  · rintro ⟨⟨x, hx, hd⟩, hlast⟩
    have hlt : k < log.length := by
      by_contra hge
      rw [List.getElem?_append_right (by omega)] at hx
      exact hd (hm x (List.mem_of_getElem? hx))
    refine ⟨⟨x, by rwa [List.getElem?_append_left hlt] at hx, hd⟩, fun j y hj hy => hlast j y hj ?_⟩
    rwa [List.getElem?_append_left (List.getElem?_eq_some_iff.1 hy).1]
  · rintro ⟨⟨x, hx, hd⟩, hlast⟩
    refine ⟨⟨x, by rwa [List.getElem?_append_left (List.getElem?_eq_some_iff.1 hx).1], hd⟩, fun j y hj hy => ?_⟩
    by_cases hlt : j < log.length
    · rw [List.getElem?_append_left hlt] at hy
      exact hlast j y hj hy
    · rw [List.getElem?_append_right (by omega)] at hy
      exact hm y (List.mem_of_getElem? hy)

theorem Governs.drop (n : ℕ) : Governs (log.drop n) k ↔ Governs log (n + k) := by
  constructor
  · rintro ⟨⟨x, hx, hd⟩, hlast⟩
    refine ⟨⟨x, by rwa [List.getElem?_drop] at hx, hd⟩, fun j y hj hy => hlast (j - n) y (by omega) ?_⟩
    rwa [List.getElem?_drop, show n + (j - n) = j by omega]
  · rintro ⟨⟨x, hx, hd⟩, hlast⟩
    refine ⟨⟨x, by rwa [List.getElem?_drop], hd⟩, fun j y hj hy => hlast (n + j) y (by omega) ?_⟩
    rwa [List.getElem?_drop] at hy

/-- A log has a last configuration entry, or it has none at all. -/
theorem exists_governs (log : List Entry) : (∀ e ∈ log, decodeConfig e.command = none) ∨ ∃ k, Governs log k := by
  induction log using List.reverseRecOn with
  | nil => exact Or.inl nofun
  | append_singleton log e ih =>
    by_cases he : decodeConfig e.command = none
    · rcases ih with h | ⟨k, hk⟩
      · refine Or.inl fun x hx => ?_
        rcases List.mem_append.1 hx with hx | hx
        · exact h x hx
        · rw [List.mem_singleton.1 hx]
          exact he
      · exact Or.inr ⟨k, (Governs.append (by simpa using he)).2 hk⟩
    · exact Or.inr ⟨log.length, (Governs.concat he).2 rfl⟩

theorem lastConfig_concat (voters : List NodeId) (index next : Int) (log : List Entry) (e : Entry) :
    lastConfig voters index next (log ++ [e]) = match decodeConfig e.command with
      | some decoded => (decoded, next + log.length)
      | none => lastConfig voters index next log := by
  induction log generalizing voters index next with
  | nil =>
    rw [List.nil_append, lastConfig]
    cases hd : decodeConfig e.command <;> simp [lastConfig, hd]
  | cons x log ih =>
    rw [List.cons_append, lastConfig]
    have hlen : next + 1 + (log.length : Int) = next + ((x :: log).length : ℕ) := by
      rw [List.length_cons]
      omega
    cases hx : decodeConfig x.command with
    | none => simp only [ih, hlen, lastConfig, hx]
    | some d => simp only [ih, hlen, lastConfig, hx]

/-- The loop of `_rebuild_config` gives the index of the last configuration entry, or the one it started with. -/
theorem lastConfig_index (voters : List NodeId) (index next : Int) (log : List Entry) :
    (∀ k, Governs log k → (lastConfig voters index next log).2 = next + k) ∧
    ((∀ e ∈ log, decodeConfig e.command = none) → (lastConfig voters index next log).2 = index) := by
  induction log using List.reverseRecOn with
  | nil => exact ⟨fun k hk => by simp [Governs] at hk, fun _ => rfl⟩
  | append_singleton log e ih =>
    rw [lastConfig_concat]
    cases he : decodeConfig e.command with
    | none =>
      refine ⟨fun k hk => ih.1 k ((Governs.append (by simpa using he)).1 hk), fun h => ih.2 fun x hx => h x ?_⟩
      exact List.mem_append_left _ hx
    | some d =>
      refine ⟨fun k hk => ?_, fun h => ?_⟩
      · rw [(Governs.concat (by simp [he])).1 hk]
      · have := h e (by simp)
        rw [he] at this
        simp at this

/-! ## What the node keeps -/

/-- The voters are those that the log and the snapshot give, and the index is that of the governing entry. -/
structure RaftNode.Derived (node : RaftNode) : Prop where
  voters : node.voters = named node.fallback node.log
  live : ∀ k, Governs node.log k → node.configIndex = node.baseIndex + 1 + k
  below : (∀ e ∈ node.log, decodeConfig e.command = none) → node.configIndex ≤ node.baseIndex

variable {I : Inputs} {self after : RaftNode}

namespace RaftNode.Derived

/-- Nothing the configuration depends on has changed. -/
theorem of_eq (h : self.Derived) (hl : after.log = self.log) (hb : after.baseIndex = self.baseIndex)
    (hs : after.snapshot = self.snapshot) (hi : after.initialVoters = self.initialVoters) (hv : after.voters = self.voters)
    (hc : after.configIndex = self.configIndex) : after.Derived := by
  have hf : after.fallback = self.fallback := by rw [RaftNode.fallback, hs, hi, RaftNode.fallback]
  exact ⟨by rw [hv, hf, hl]; exact h.voters, by rw [hl, hb, hc]; exact h.live, by rw [hl, hb, hc]; exact h.below⟩

/-- A configuration is recomputed from the fallback, at an index in the snapshot. -/
theorem rebuildConfig_start (h0 : self.snapshot = none → 0 ≤ self.baseIndex)
    (hs : ∀ s, self.snapshot = some s → s.lastIndex ≤ self.baseIndex) :
    ∃ start ≤ self.baseIndex, self.rebuildConfig = self.adoptConfig (named self.fallback self.log)
      (lastConfig self.fallback start (self.baseIndex + 1) self.log).2 := by
  have hfst : ∀ start, (lastConfig self.fallback start (self.baseIndex + 1) self.log).1 = named self.fallback self.log := by
    intro start
    rw [Network.lastConfig_fst, named_eq_foldl]
  cases hn : self.snapshot with
  | none =>
    refine ⟨0, h0 hn, ?_⟩
    rw [← hfst 0]
    simp [RaftNode.fallback, RaftNode.rebuildConfig, hn]
  | some s =>
    refine ⟨s.lastIndex, hs s hn, ?_⟩
    rw [← hfst s.lastIndex]
    simp [RaftNode.fallback, RaftNode.rebuildConfig, hn]

/-- A recomputed configuration is the derived one. -/
theorem rebuildConfig (h0 : self.snapshot = none → 0 ≤ self.baseIndex)
    (hs : ∀ s, self.snapshot = some s → s.lastIndex ≤ self.baseIndex) : self.rebuildConfig.Derived := by
  obtain ⟨start, hle, hr⟩ := rebuildConfig_start h0 hs
  have hidx := lastConfig_index self.fallback start (self.baseIndex + 1) self.log
  rw [hr]
  exact ⟨rfl, hidx.1, fun hnone => (hidx.2 hnone).trans_le hle⟩

/-- One more entry, whose configuration the node adopts. -/
theorem concat (h : self.Derived) {e : Entry} {i : Int} (hl : after.log = self.log ++ [e])
    (hb : after.baseIndex = self.baseIndex) (hs : after.snapshot = self.snapshot)
    (hi : after.initialVoters = self.initialVoters) (hidx : i = self.baseIndex + 1 + self.log.length)
    (hv : (after.voters, after.configIndex) = match decodeConfig e.command with
      | some decoded => (decoded, i)
      | none => (self.voters, self.configIndex)) : after.Derived := by
  have hf : after.fallback = self.fallback := by rw [RaftNode.fallback, hs, hi, RaftNode.fallback]
  cases he : decodeConfig e.command with
  | none =>
    rw [he, Prod.mk.injEq] at hv
    refine ⟨by rw [hv.1, hf, hl, named_concat, he]; exact h.voters, fun k hk => ?_, fun hnone => ?_⟩
    · rw [hl, Governs.append (by simpa using he)] at hk
      rw [hv.2, hb, h.live k hk]
    · rw [hv.2, hb]
      exact h.below fun x hx => hnone x (by rw [hl]; exact List.mem_append_left _ hx)
  | some d =>
    rw [he, Prod.mk.injEq] at hv
    refine ⟨by rw [hv.1, hf, hl, named_concat, he]; rfl, fun k hk => ?_, fun hnone => ?_⟩
    · rw [hl, Governs.concat (by simp [he])] at hk
      rw [hv.2, hb, hidx, hk]
    · have := hnone e (by simp [hl])
      rw [he] at this
      simp at this

/-- A cut above the governing entry changes nothing; below it the configuration is recomputed. -/
theorem truncateFrom (hb : self.Bounded) (h : self.Derived) {index : Int} (hlt : self.baseIndex < index) :
    (self.truncateFrom index).Derived := by
  have h0 := hb.base
  have htake : delFrom self.log (self.phys index) = self.log.take (index - self.baseIndex - 1).toNat :=
    delFrom_nat self.log (by rw [RaftNode.phys]; omega)
  unfold RaftNode.truncateFrom
  simp only
  split
  · exact rebuildConfig (fun _ => h0) fun s hs => (hb.snapEnds s hs).le
  · rename_i hidx
    have hnone : ∀ e ∈ self.log.drop (index - self.baseIndex - 1).toNat, decodeConfig e.command = none := by
      intro e he
      obtain ⟨j, hj⟩ := List.mem_iff_getElem?.1 he
      rw [List.getElem?_drop] at hj
      rcases exists_governs self.log with hno | ⟨k, hk⟩
      · exact hno e (List.mem_of_getElem? hj)
      · have hlive := h.live k hk
        exact hk.2 _ e (by omega) hj
    have hsplit := List.take_append_drop (index - self.baseIndex - 1).toNat self.log
    refine ⟨?_, fun k hk => ?_, fun hno => ?_⟩
    · show self.voters = named self.fallback (delFrom self.log (self.phys index))
      rw [htake, h.voters]
      conv_lhs => rw [← hsplit]
      rw [named_append, named_of_none hnone]
    · refine h.live k ?_
      rw [← hsplit, Governs.append hnone, ← htake]
      exact hk
    · refine h.below fun e he => ?_
      rw [← hsplit] at he
      rcases List.mem_append.1 he with he | he
      · exact hno e (htake ▸ he)
      · exact hnone e he

/-- The configuration that a snapshot records is the one in force at its index. -/
theorem configAt_eq {upto : Int} (hl : upto ≤ self.lastLogIndex) {voters : List NodeId}
    (hv : self.configAt upto = .ok voters) : voters = named self.fallback (self.log.take (upto - self.baseIndex).toNat) := by
  have hlen : (upto - self.baseIndex).toNat ≤ self.log.length := by
    rw [RaftNode.lastLogIndex] at hl
    omega
  obtain ⟨c, hc, hget⟩ := Network.configBelow_eq self.log hlen self.fallback
  rw [named_eq_foldl, ← hget]
  unfold RaftNode.configAt at hv
  rw [hc] at hv
  cases c with
  | some d => exact (Except.ok.inj hv).symm
  | none =>
    unfold RaftNode.fallback
    cases hs : self.snapshot with
    | none =>
      rw [hs] at hv
      exact (Except.ok.inj hv).symm
    | some s =>
      rw [hs] at hv
      exact (Except.ok.inj hv).symm

theorem compacted (hb : self.Grounded) (h : self.Derived) {lastTerm : Int} {snapVoters : List NodeId}
    (hc : self.Compacts lastTerm snapVoters) : (self.compacted lastTerm snapVoters).Derived := by
  have hla := hb.applied
  have hbc := hb.commit
  have hdrop : sliceFrom self.log (self.lastApplied - self.baseIndex) =
      self.log.drop (self.lastApplied - self.baseIndex).toNat := sliceFrom_nat self.log (by omega)
  have hsplit := List.take_append_drop (self.lastApplied - self.baseIndex).toNat self.log
  have hvoters := configAt_eq (hla ▸ hb.last) hc.voters
  refine ⟨?_, fun k hk => ?_, fun hno => ?_⟩
  · show self.voters = named snapVoters (sliceFrom self.log (self.lastApplied - self.baseIndex))
    rw [hdrop, hvoters, ← named_append, hsplit]
    exact h.voters
  · have hk' : Governs (sliceFrom self.log (self.lastApplied - self.baseIndex)) k := hk
    rw [hdrop, Governs.drop] at hk'
    show self.configIndex = self.lastApplied + 1 + k
    rw [h.live _ hk']
    push_cast
    omega
  · have hno' : ∀ e ∈ self.log.drop (self.lastApplied - self.baseIndex).toNat, decodeConfig e.command = none := by
      rw [← hdrop]
      exact hno
    show self.configIndex ≤ self.lastApplied
    rcases exists_governs self.log with hnone | ⟨k, hk⟩
    · have := h.below hnone
      omega
    · have hlive := h.live k hk
      rw [← hsplit, Governs.append hno'] at hk
      obtain ⟨⟨x, hx, -⟩, -⟩ := hk
      have hlt := (List.getElem?_eq_some_iff.1 hx).1
      rw [List.length_take] at hlt
      omega

/-- A move keeps the configuration derived, as long as no client's string is one. -/
theorem move (hsub : ∀ c, I.submits c → decodeConfig c = none) (hm : Move I self after) (hb : self.Grounded)
    (h : self.Derived) : after.Derived := by
  cases hm with
  | call | arm | armHeartbeat | campaign | countVote | lead | vote | follow | keepBooks | regress | start | resume =>
    exact h.of_eq rfl rfl rfl rfl rfl rfl
  | stepDown term =>
    rw [becomeFollower_eq]
    exact h.of_eq rfl rfl rfl rfl rfl rfl
  | propose command ha hr hc =>
    obtain ⟨ci, hp⟩ := proposed_eq self command
    rw [hp]
    refine h.concat (i := self.baseIndex + 1 + self.log.length) rfl rfl rfl rfl rfl ?_
    rw [hsub command hc]
  | reconfigure newVoters ha hr hp hd hs hc =>
    have hne : sortedSet newVoters ≠ [] := List.ne_nil_of_mem hs
    refine h.concat rfl rfl rfl rfl ?_ (i := (self.withEntry (encodeConfig (sortedSet newVoters))).lastLogIndex) ?_
    · show self.baseIndex + ((self.log ++ [_]).length : ℕ) = _
      rw [List.length_append, List.length_singleton]
      push_cast
      omega
    · show _ = match decodeConfig (encodeConfig (sortedSet newVoters)) with
        | some decoded => (decoded, _)
        | none => _
      rw [decodeConfig_encodeConfig hne, insertionSort_sortedSet]
      rfl
  | truncate index t entry hr hbi hl ht hne hs => exact truncateFrom hb.toBounded h (hbi hb.base)
  | extend index entry he hr hi =>
    refine h.concat (i := index) (e := entry) ?_ ?_ ?_ ?_ ?_ ?_
    · exact (Makes.appendReplicated_keeps self index entry).2.2.2.2
    · exact (Makes.appendReplicated_keeps self index entry).2.2.1
    · unfold RaftNode.appendReplicated RaftNode.adoptConfig
      simp only
      split <;> rfl
    · unfold RaftNode.appendReplicated RaftNode.adoptConfig
      simp only
      split <;> rfl
    · rw [hi hb.base, RaftNode.lastLogIndex]
      omega
    · unfold RaftNode.appendReplicated RaftNode.adoptConfig
      cases decodeConfig entry.command <;> rfl
  | commit index entries =>
    obtain ⟨es, -, he⟩ := committed_eq self index entries
    rw [he]
    exact h.of_eq rfl rfl rfl rfl rfl rfl
  | compact lastTerm snapVoters hq hc => exact compacted hb h hc
  | install msg keepTail hq hr hk hc =>
    have h0 := hb.base
    have hbc := hb.commit
    refine (rebuildConfig ?_ ?_ : (RaftNode.rebuildConfig _).Derived).of_eq rfl rfl rfl rfl rfl rfl
    · intro _
      show 0 ≤ msg.lastIndex
      omega
    · intro s hs
      cases hs
      exact le_rfl
  | pause =>
    have hbuild : self.rebuildConfig.Derived := rebuildConfig (fun _ => hb.base) fun s hs => (hb.snapEnds s hs).le
    rw [pause_fields]
    refine hbuild.of_eq rfl rfl rfl rfl rfl rfl

theorem moved (hag : I.agrees) (hsub : ∀ c, I.submits c → decodeConfig c = none) (hm : Moved I self after) (hb : self.Grounded)
    (h : self.Derived) : after.Derived := by
  induction hm with
  | refl => exact h
  | tail hms hm ih => exact ih.move hsub hm (hb.moved hag hms)

theorem new (id : NodeId) (peerIds : List NodeId) (config : RaftConfig) (bugs : Bugs) (initialVoters : Option (List NodeId)) :
    (RaftNode.new id peerIds config bugs initialVoters).Derived :=
  ⟨rfl, fun k hk => by simp [RaftNode.new, Governs] at hk, fun _ => le_rfl⟩

/-- The guard of `change_config`: the governing entry is in the live log, and not committed. -/
theorem guard_iff (hb : self.Bounded) (h : self.Derived) : self.configIndex > self.commitIndex ↔
    ∃ k, Governs self.log k ∧ self.baseIndex + 1 + k > self.commitIndex := by
  have hbc := hb.commit
  constructor
  · intro hlt
    rcases exists_governs self.log with hno | ⟨k, hk⟩
    · have := h.below hno
      omega
    · exact ⟨k, hk, by rw [← h.live k hk]; exact hlt⟩
  · rintro ⟨k, hk, hlt⟩
    rw [h.live k hk]
    exact hlt

end RaftNode.Derived

theorem RaftNode.Still.fallback_eq (h : self.Still after) : after.fallback = self.fallback := by
  rw [RaftNode.fallback, h.snapshot, h.initialVoters, RaftNode.fallback]

/-- An operation that compacts the log records the voters in force at the index it compacts to, as the log was just before. -/
theorem CommitsOnce.snapshot_voters (hag : I.agrees) (hb : self.Grounded) (h : CommitsOnce I self after) {es : List Effect}
    (hes : after.out = self.out ++ es) {view : NodeView} (hv : .beforeCompact view ∈ es) :
    ∃ snap, after.snapshot = some snap ∧ view.baseIndex < snap.lastIndex ∧ snap.lastIndex = view.commitIndex ∧
      snap.voters = named self.fallback (view.log.take (snap.lastIndex - view.baseIndex).toNat) := by
  obtain ⟨low, hm, ha⟩ := h
  have hlow : low.Grounded := hb.moved (I := I.quiet) hag hm
  obtain ⟨fore, hfore, hquiet⟩ := hm.calls
  have hstill := hm.still hb.noRegression
  rcases ha with ⟨n, m, c, more, rfl, hmore⟩ | ⟨index, entries, hcom, ha⟩
  · have hsplit : es = fore ++ more := List.append_cancel_left (hes.symm.trans (by rw [hfore, List.append_assoc]))
    rw [hsplit] at hv
    exact (List.mem_append.1 hv).elim (fun hv => (hquiet view hv).elim) fun hv => (hmore _ hv).elim
  obtain ⟨told, htold, hcommitted⟩ := committed_eq low index entries
  have hmid : (low.committed index entries).Grounded := hlow.committed hcom
  have hfb : (low.committed index entries).fallback = self.fallback := by
    rw [← hstill.fallback_eq, RaftNode.fallback, hcommitted, RaftNode.fallback]
  have hout : (low.committed index entries).out = low.out ++ told := by rw [hcommitted]
  generalize low.committed index entries = mid at ha hmid hfb hout
  rcases ha with ⟨n, m, c, more, rfl, hmore⟩ | ⟨t, vs, hc, n, m, c, more, rfl, hmore⟩
  · have hsplit : es = fore ++ (told ++ more) := by
      refine List.append_cancel_left (hes.symm.trans ?_)
      simp only [hout, hfore, List.append_assoc]
    rw [hsplit] at hv
    rcases List.mem_append.1 hv with hv | hv
    · exact (hquiet view hv).elim
    · exact (List.mem_append.1 hv).elim (fun hv => (htold _ hv).elim) fun hv => (hmore _ hv).elim
  · have hsplit : es = fore ++ (told ++ ([.beforeCompact mid.view, .record (.snapshot mid.lastApplied t)] ++ more)) := by
      refine List.append_cancel_left (hes.symm.trans ?_)
      simp [RaftNode.compacted, RaftNode.record, emit, hout, hfore]
    rw [hsplit] at hv
    rcases List.mem_append.1 hv with hv | hv
    · exact (hquiet view hv).elim
    rcases List.mem_append.1 hv with hv | hv
    · exact (htold _ hv).elim
    rcases List.mem_append.1 hv with hv | hv
    · simp only [List.mem_cons, Effect.beforeCompact.injEq, reduceCtorEq, List.not_mem_nil, or_false] at hv
      subst hv
      have hpos := hc.pos
      have hthr := hc.threshold
      refine ⟨_, rfl, ?_, hmid.applied, ?_⟩
      · show mid.baseIndex < mid.lastApplied
        omega
      · rw [← hfb]
        exact RaftNode.Derived.configAt_eq (hmid.applied ▸ hmid.last) hc.voters
    · exact (hmore _ hv).elim

/-- Client strings that name no configuration, any proposals, and AppendEntries that do not contradict what is committed. -/
def Inputs.orderly : Inputs where
  agrees := True
  polite := False
  submits c := decodeConfig c = none
  proposes _ := True
  replicates _ := True

/-- Membership is derived state: over any operations, the voters are those of the last configuration entry of the live log, else the
snapshot's, else the first ones; a compaction records the voters in force at the snapshot's index; and the guard of `change_config`
sees exactly the configurations that are in the live log and not committed. -/
theorem membership_derived (id : NodeId) (peerIds : List NodeId) (config : RaftConfig) (bugs : Bugs)
    (initialVoters : Option (List NodeId)) (hbugs : bugs.allowCommitRegression = false) (ops : List NodeOp) (self : RaftNode)
    (hops : Operated Inputs.orderly (RaftNode.new id peerIds config bugs initialVoters) ops self) :
    (self.voters = named self.fallback self.log ∧
      (self.configIndex > self.commitIndex ↔ ∃ k, Governs self.log k ∧ self.baseIndex + 1 + k > self.commitIndex)) ∧
    ∀ (op : NodeOp) (after : RaftNode), op.Admissible Inputs.orderly self → self.perform op = .ok after →
      ∀ view, .beforeCompact view ∈ after.out.drop self.out.length → ∃ snap, after.snapshot = some snap ∧
        view.baseIndex < snap.lastIndex ∧ snap.lastIndex = view.commitIndex ∧
        snap.voters = named self.fallback (view.log.take (snap.lastIndex - view.baseIndex).toNat) := by
  have hfull : Inputs.orderly.Full := ⟨trivial, trivial, trivial⟩
  have hmoved : Moved Inputs.orderly _ self := hops.moved hfull
  have hnew := RaftNode.Grounded.new id peerIds config bugs initialVoters hbugs
  have hb : self.Grounded := hnew.moved trivial hmoved
  have hd : self.Derived := (RaftNode.Derived.new id peerIds config bugs initialVoters).moved trivial (fun _ h => h) hmoved hnew
  refine ⟨⟨hd.voters, hd.guard_iff hb.toBounded⟩, fun op after ha hp view hv => ?_⟩
  rcases perform_cases self op ha after hp with honce | hmoves | ⟨-, rfl⟩
  · obtain ⟨es, hes, -⟩ := (honce.moved trivial trivial).calls
    rw [hes, List.drop_left] at hv
    exact honce.snapshot_voters trivial hb hes hv
  · obtain ⟨es, hes, hno⟩ := hmoves.calls
    rw [hes, List.drop_left] at hv
    exact (hno view hv).elim
  · rw [pause_fields] at hv
    simp at hv

/-- A server that compacts at every commit. -/
def compactingNode : RaftNode := RaftNode.new 1 [2, 3] { snapshotThreshold := 1 } NO_BUGS none

/-- A leader's configuration without the third server, committed at once. -/
def removal : AppendEntries :=
  { term := 1, leader := 2, prevIndex := 0, prevTerm := 0, entries := [⟨1, "cfg:1,2"⟩], leaderCommit := 1 }

theorem membership_derived_removal :
    (compactingNode.start.voters = named compactingNode.start.fallback compactingNode.start.log ∧
      (compactingNode.start.configIndex > compactingNode.start.commitIndex ↔ ∃ k, Governs compactingNode.start.log k ∧
        compactingNode.start.baseIndex + 1 + k > compactingNode.start.commitIndex)) ∧
    ∃ after, compactingNode.start.perform (.handle (.appendEntries removal)) = .ok after ∧
      after.voters = [1, 2] ∧ after.log = [] ∧
      ∀ view, .beforeCompact view ∈ after.out.drop compactingNode.start.out.length → ∃ snap, after.snapshot = some snap ∧
        view.baseIndex < snap.lastIndex ∧ snap.lastIndex = view.commitIndex ∧
        snap.voters = named compactingNode.start.fallback (view.log.take (snap.lastIndex - view.baseIndex).toNat) := by
  have h := membership_derived 1 [2, 3] { snapshotThreshold := 1 } NO_BUGS none rfl [.start] compactingNode.start
    (.cons trivial rfl (.nil _))
  have hrun : ((compactingNode.start.perform (.handle (.appendEntries removal))).toOption.map fun self =>
      (self.voters, self.log)) = some ([1, 2], []) := by decide +kernel
  cases hp : compactingNode.start.perform (.handle (.appendEntries removal)) with
  | error e =>
    rw [hp] at hrun
    cases hrun
  | ok after =>
    rw [hp] at hrun
    have hpair : (after.voters, after.log) = ([1, 2], []) := Option.some.inj hrun
    rw [Prod.mk.injEq] at hpair
    refine ⟨h.1, after, rfl, hpair.1, hpair.2, h.2 _ after ?_ hp⟩
    refine ⟨fun _ _ k e _ hb hcom => ?_, fun _ _ => trivial⟩
    have h0 : compactingNode.start.baseIndex = 0 := rfl
    have h1 : compactingNode.start.commitIndex = 0 := rfl
    omega

end DeterministicRaft
