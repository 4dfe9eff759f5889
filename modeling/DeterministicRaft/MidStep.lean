import DeterministicRaft.Ceilings
import DeterministicRaft.Commits
import DeterministicRaft.Truthful

/-!
# A node in the middle of a step

A node that is about to compact lets the checker look. It has committed and applied by then, and nothing that it does after the look
changes what its log was. So the checker sees its part of the protocol state that the step leads to.
-/

namespace DeterministicRaft

open Consensus RaftNode Refinement

variable {net : Network} {a a' : State NodeId Entry} {w : World} {n : NodeId} {I : Inputs} {C : Int}
  {self low mid after node : RaftNode} {index : Int} {entries : List Entry}

/-! ## What a cluster sends agrees with what its nodes have committed -/

/-- An AppendEntries of a cluster agrees with what a node of its term, or of an earlier one, has committed. -/
theorem Simulates.agrees (h : Simulates net a w) {src : NodeId} {msg : AppendEntries}
    (hm : (src, Effect.send n (.appendEntries msg)) ∈ w.trace) (ht : (w.nodes n).term ≤ msg.term) : msg.Agrees (w.nodes n) := by
  obtain ⟨tr', -, hv⟩ := h.traced.mem hm
  have hv : AppendVouched net a src msg := hv
  obtain ⟨p, hprev, hlen, -, hentries⟩ := hv.stretch
  have hterm := (h.node n).term
  have hknown := h.inv.known_prefix_llog (h.inv.commit_known n) ⟨src, hv.leads⟩ (hterm ▸ ht)
  have hcommit := (h.node n).commitIndex
  have hle := h.inv.commit_le n
  intro k e he hbase htop
  have hk : (a.llog msg.term)[p + k]? = some e := by
    rw [hentries, List.getElem?_drop] at he
    exact getElem?_extends (List.take_prefix _ _) he
  have hlog : (a.log n)[p + k]? = some e := by
    have hlt : p + k < a.commit n := by omega
    refine getElem?_extends (List.take_prefix (a.commit n) _) (getElem?_below hknown hk ?_)
    rw [List.length_take]
    omega
  have hidx : msg.prevIndex + 1 + k = ((p + k + 1 : ℕ) : Int) := by
    push_cast
    omega
  rw [hidx] at hbase ⊢
  rw [(h.node n).stored.termAt hbase.le (List.getElem?_eq_some_iff.1 hlog).1, lastTerm_take hlog]
  rfl

/-! ## What moves keep of the log -/

/-- No move of an orderly operation that commits and compacts nothing changes the first entries of the log, up to the commit index. -/
theorem Move.keeps_committed (hag : I.agrees) (hm : Move I.quiet self after) (hb : self.Bounded) {K : List Entry} (hK : K <+: self.log)
    (hlen : self.baseIndex + K.length ≤ self.commitIndex) : K <+: after.log := by
  cases hm with
  | stepDown term =>
    rw [becomeFollower_eq]
    exact hK
  | propose command =>
    obtain ⟨ci, hp⟩ := proposed_eq self command
    rw [hp]
    exact hK.trans (List.prefix_append _ _)
  | reconfigure newVoters => exact hK.trans (List.prefix_append _ _)
  | truncate index t entry hr hbase hl ht hne hs =>
    have hlt := hs hag hb.base
    obtain ⟨-, -, -, -, hlog⟩ := Makes.truncateFrom_keeps self index
    rw [hlog, RaftNode.phys, delFrom_nat self.log (n := (index - self.baseIndex - 1).toNat) (by have := hb.commit; omega),
      List.prefix_take_iff]
    exact ⟨hK, by omega⟩
  | extend index entry =>
    obtain ⟨-, -, -, -, hlog⟩ := Makes.appendReplicated_keeps self index entry
    rw [hlog]
    exact hK.trans (List.prefix_append _ _)
  | commit index entries hq => exact hq.elim
  | compact t vs hq => exact hq.elim
  | install msg keep hq => exact hq.elim
  | pause hq => exact hq.elim
  | _ => exact hK

theorem Moved.keeps_committed (hag : I.agrees) (hm : Moved I.quiet self after) (hb : self.Bounded) {K : List Entry}
    (hK : K <+: self.log) (hlen : self.baseIndex + K.length ≤ self.commitIndex) : K <+: after.log := by
  induction hm with
  | refl => exact hK
  | @tail mid after hms hm ih =>
    have hs := Moved.still hb.noRegression hms
    refine hm.keeps_committed hag (hb.still hs) ih ?_
    rw [hs.baseIndex, hs.commitIndex]
    exact hlen

/-! ## The calls of an operation -/

/-- The operation commits and then compacts, and lets the checker look in between. -/
structure RaftNode.Looks (I : Inputs) (node low after : RaftNode) (index : Int) (entries : List Entry) : Prop where
  moved : Moved I.quiet node low
  commits : low.Commits index entries
  compacts : ∃ lastTerm snapVoters, Aside ((low.committed index entries).compacted lastTerm snapVoters) after

/-- Calls that do not let the checker look. -/
def Unseen (self after : RaftNode) : Prop := ∃ es, after.out = self.out ++ es ∧ ∀ v, Effect.beforeCompact v ∉ es

theorem Unseen.trans (h : Unseen self mid) (h' : Unseen mid after) : Unseen self after := by
  obtain ⟨es, hout, hes⟩ := h
  obtain ⟨es', hout', hes'⟩ := h'
  refine ⟨es ++ es', by rw [hout', hout, List.append_assoc], fun v hv => ?_⟩
  rcases List.mem_append.1 hv with hv | hv
  · exact hes v hv
  · exact hes' v hv

theorem Unseen.moved (hm : Moved I self after) (hI : ¬I.compacts) : Unseen self after := by
  obtain ⟨es, hout, hes⟩ := hm.calls
  exact ⟨es, hout, fun v hv => hI (hes v hv)⟩

theorem Unseen.aside (h : Aside self after) : Unseen self after := by
  obtain ⟨n, m, c, es, rfl, hes⟩ := h
  exact ⟨es, rfl, fun v hv => hes _ hv⟩

theorem Unseen.committed (self : RaftNode) (index : Int) (entries : List Entry) : Unseen self (self.committed index entries) := by
  obtain ⟨es, htell, heq⟩ := committed_eq self index entries
  rw [heq]
  exact ⟨es, rfl, fun v hv => htell _ hv⟩

/-- An operation lets the checker look once, between its commit and its compaction, or not at all. -/
theorem perform_looks (op : NodeOp) (ha : op.Admissible I self) : Ensures (self.perform op) fun after =>
    Unseen self after ∨ ∃ low index entries, self.Looks I low after index entries := by
  refine (perform_cases self op ha).mono ?_
  rintro after (⟨low, hm, hl⟩ | hm | ⟨-, rfl⟩)
  · have hlow := Unseen.moved hm (fun h => h)
    rcases hl with ha | ⟨index, entries, hc, ha | ⟨t, vs, -, ha⟩⟩
    · exact Or.inl (hlow.trans (.aside ha))
    · exact Or.inl ((hlow.trans (.committed low index entries)).trans (.aside ha))
    · exact Or.inr ⟨low, index, entries, hm, hc, t, vs, ha⟩
  · exact Or.inl (Unseen.moved hm fun h => h)
  · left
    rw [pause_fields]
    exact ⟨[], (List.append_nil _).symm, fun v hv => List.not_mem_nil hv⟩

namespace RaftNode.Looks

/-- The one call of the operation that lets the checker look. -/
theorem calls (h : self.Looks I low after index entries) : ∃ es es', after.out = self.out ++ es ++
    .beforeCompact (low.committed index entries).view :: es' ∧
      (∀ v, Effect.beforeCompact v ∉ es) ∧ ∀ v, Effect.beforeCompact v ∉ es' := by
  obtain ⟨es, hout, hes⟩ := (Unseen.moved h.moved fun hq => hq).trans (.committed low index entries)
  obtain ⟨t, vs, nx, mt, c, es', rfl, hes'⟩ := h.compacts
  refine ⟨es, .record (.snapshot (low.committed index entries).lastApplied t) :: es', ?_, hes, fun v hv => ?_⟩
  · rw [← hout]
    simp [compacted, RaftNode.record, emit]
  · rcases List.mem_cons.1 hv with hv | hv
    · cases hv
    · exact hes' _ hv

/-- What is committed is recorded as applied. -/
theorem recorded (h : self.Looks I low after index entries) {j : ℕ} {e : Entry} (he : entries[j]? = some e) :
    Effect.record (.apply (low.lastApplied + 1 + j) e) ∈ after.out := by
  have happ := (committed_out low index entries).1
  have hmem : (low.lastApplied + 1 + (j : Int), e) ∈ appliedEntries (low.committed index entries).out := by
    rw [happ]
    refine List.mem_append_right _ (List.mem_of_getElem? (i := j) ?_)
    rw [List.getElem?_mapIdx, he]
    rfl
  obtain ⟨effect, heffect, hsome⟩ := List.mem_filterMap.1 hmem
  have hcall : effect = .record (.apply (low.lastApplied + 1 + j) e) := by
    split at hsome
    · rename_i i x
      obtain ⟨rfl, rfl⟩ := Prod.mk.inj (Option.some.inj hsome)
      rfl
    · cases hsome
  obtain ⟨t, vs, nx, mt, c, es', rfl, -⟩ := h.compacts
  rw [← hcall]
  have hcompact : ((low.committed index entries).compacted t vs).out = (low.committed index entries).out ++
      [.beforeCompact (low.committed index entries).view, .record (.snapshot (low.committed index entries).lastApplied t)] := by
    simp [compacted, RaftNode.record, emit]
  exact List.mem_append_left _ (hcompact ▸ List.mem_append_left _ heffect)

end RaftNode.Looks

/-- What the checker sees of a node in the middle of an operation, next to the node before and after it. -/
structure RaftNode.Glimpse (node seen after : RaftNode) (entries : List Entry) : Prop where
  same : seen.id = after.id ∧ seen.role = after.role ∧ seen.term = after.term ∧ seen.voters = after.voters
  incarnation : seen.incarnation = node.incarnation ∧ after.incarnation = node.incarnation
  commitIndex : seen.commitIndex = after.commitIndex
  base : seen.baseIndex = node.baseIndex
  kept : node.log.take (node.commitIndex - node.baseIndex).toNat <+: seen.log
  length : node.commitIndex + entries.length = after.commitIndex
  reads : ∀ (j : ℕ) (e : Entry), entries[j]? = some e →
    seen.log[(node.commitIndex - node.baseIndex).toNat + j]? = some e ∧
      Effect.record (.apply (node.commitIndex + 1 + j) e) ∈ after.out
  applied : seen.applied = node.applied ++ entries.map (·.command)
  folded : after.baseIndex = after.commitIndex
  rest : after.log = seen.log.drop (after.commitIndex - node.baseIndex).toNat

theorem RaftNode.Looks.glimpse (h : self.Looks I low after index entries) (hag : I.agrees) (hb : self.Bounded) :
    self.Glimpse (low.committed index entries) after entries := by
  have hs := Moved.still hb.noRegression h.moved
  have hrecorded := fun (j : ℕ) (e : Entry) (he : entries[j]? = some e) => h.recorded he
  have hlen := h.commits.length
  have hlt := h.commits.lt
  have hread := h.commits.entries
  have hkeeps := h.moved.keeps_committed hag hb (K := self.log.take (self.commitIndex - self.baseIndex).toNat) (List.take_prefix _ _)
    (by rw [List.length_take]; have := hb.commit; omega)
  obtain ⟨t, vs, nx, mt, c, es', rfl, -⟩ := h.compacts
  obtain ⟨es, -, heq⟩ := committed_eq low index entries
  have hbase := hs.baseIndex
  have hcommit := hs.commitIndex
  have happlied := hs.lastApplied
  have hla := hb.applied
  have hbc := hb.commit
  have hlast : low.lastApplied + entries.length = index := by omega
  generalize low.committed index entries = seen at heq hrecorded ⊢
  have hseen : seen.commitIndex = index ∧ seen.lastApplied = index ∧ seen.baseIndex = self.baseIndex ∧ seen.log = low.log := by
    rw [heq]
    exact ⟨rfl, hlast, hbase, rfl⟩
  obtain ⟨h1, h2, h3, h4⟩ := hseen
  refine ⟨⟨rfl, rfl, rfl, rfl⟩, ⟨?_, ?_⟩, rfl, h3, h4 ▸ hkeeps, ?_, fun j e he => ⟨?_, ?_⟩, ?_, ?_, ?_⟩
  · rw [heq]
    exact hs.incarnation
  · show seen.incarnation = _
    rw [heq]
    exact hs.incarnation
  · show self.commitIndex + entries.length = seen.commitIndex
    omega
  · have hget := getElem?_of_entryAt (hread j e he) (by omega)
    rw [h4]
    rwa [show (low.lastApplied + 1 + (j : Int) - low.baseIndex - 1).toNat =
      (self.commitIndex - self.baseIndex).toNat + j by omega] at hget
  · have hmem := hrecorded j e he
    rwa [happlied, hla] at hmem
  · rw [heq, ← hs.applied]
  · show seen.lastApplied = seen.commitIndex
    rw [h1, h2]
  · show sliceFrom seen.log (seen.lastApplied - seen.baseIndex) = seen.log.drop (seen.commitIndex - self.baseIndex).toNat
    rw [h1, h2, h3]
    exact sliceFrom_nat _ (by omega)

/-! ## What the checker sees -/

variable {seen : RaftNode}

/-- Up to the commit index the node that is seen has the entries of the log that the step leads to. -/
theorem Simulates.glimpse_place (h : Simulates net a w) (x : a.Extends a') (h' : Simulates net a' (w.put n node))
    (hg : (w.nodes n).Glimpse seen node entries) {b i : ℕ} {e : Entry} (hb : (w.nodes n).baseIndex = b) (hi : b + i < a'.commit n)
    (he : (a'.log n)[b + i]? = some e) : seen.log[i]? = some e ∧ (b + i < a.commit n → (a.log n)[b + i]? = some e) ∧
      (a.commit n ≤ b + i → entries[b + i - a.commit n]? = some e) := by
  have hput : (w.put n node).nodes n = { node with out := [] } := Function.update_self _ _ _
  have hnew := (h'.node n).commitIndex
  rw [hput] at hnew
  have hnew : node.commitIndex = a'.commit n := hnew
  have hold := (h.node n).commitIndex
  have hbase := (h.node n).base_le
  have hlen := hg.length
  have hle := h.inv.commit_le n
  have hat' : CommittedAt a' (a'.term n) (b + i) e := .of_log h'.inv hi he
  have hk : ((w.nodes n).commitIndex - (w.nodes n).baseIndex).toNat = a.commit n - b := by omega
  rcases Nat.lt_or_ge (b + i) (a.commit n) with hlt | hge
  · obtain ⟨e', he'⟩ : ∃ e', (a.log n)[b + i]? = some e' := ⟨_, List.getElem?_eq_getElem (by omega)⟩
    have hsame := ((CommittedAt.of_log h.inv hlt he').grow x).unique h'.inv hat'
    subst hsame
    refine ⟨getElem?_extends hg.kept ?_, fun _ => he', fun hge => by omega⟩
    have hlive : (w.nodes n).log = (a.log n).drop (w.nodes n).baseIndex.toNat := (h.node n).stored.live
    rw [hk, List.getElem?_take_of_lt (by omega), hlive, hb, Int.toNat_natCast, List.getElem?_drop]
    exact he'
  · obtain ⟨e', he'⟩ : ∃ e', entries[b + i - a.commit n]? = some e' := ⟨_, List.getElem?_eq_getElem (by omega)⟩
    obtain ⟨hread, happly⟩ := hg.reads _ e' he'
    rw [hold, show (a.commit n : Int) + 1 + ((b + i - a.commit n : ℕ) : Int) = ((b + i : ℕ) : Int) + 1 by omega] at happly
    obtain ⟨u, P, k, hk', hP, hPk⟩ := h'.committed_of_apply (m := n) (List.mem_append_right _ (List.mem_map_of_mem happly))
    obtain rfl : k = b + i := by omega
    have hsame : e' = e := CommittedAt.unique h'.inv ⟨P, hP, hPk⟩ hat'
    subst hsame
    rw [hk, show a.commit n - b + (b + i - a.commit n) = i by omega] at hread
    exact ⟨hread, fun hlt => by omega, fun _ => he'⟩

/-- A node that lets the checker look is seen as its part of the protocol state that the step leads to. Behind the commit index its log is
what the compaction leaves. -/
theorem Simulates.portrays_glimpse (h : Simulates net a w) (x : a.Extends a') (h' : Simulates net a' (w.put n node))
    (hg : (w.nodes n).Glimpse seen node entries) : seen.view.Portrays net a' n := by
  have hput : (w.put n node).nodes n = { node with out := [] } := Function.update_self _ _ _
  have hnew := h'.node n
  rw [hput] at hnew
  have hcommit : node.commitIndex = a'.commit n := hnew.commitIndex
  have hold := (h.node n).commitIndex
  have hbase := (h.node n).base_le
  have hlen := hg.length
  have hle := h.inv.commit_le n
  have hle' := h'.inv.commit_le n
  obtain ⟨b, hb, hbn, -⟩ := (h.node n).stored.exists_base
  obtain ⟨h1, h2, h3, h4⟩ := hg.same
  have htail : seen.log.drop (a'.commit n - b) = (a'.log n).drop (a'.commit n) := by
    have hlive : node.log = (a'.log n).drop node.baseIndex.toNat := hnew.stored.live
    rw [hg.rest, hg.folded, hcommit, hb, Int.toNat_natCast] at hlive
    rwa [show ((a'.commit n : Int) - b).toNat = a'.commit n - b by omega] at hlive
  have hplace := fun {i : ℕ} {e : Entry} => h.glimpse_place x h' hg hb (i := i) (e := e)
  have hexists : ∀ i, b + i < a'.commit n → ∃ e, (a'.log n)[b + i]? = some e :=
    fun i hi => ⟨_, List.getElem?_eq_getElem (by omega)⟩
  refine ⟨h1.trans hnew.id, by rw [← hnew.role]; exact congrArg Role.abs h2, h3.trans hnew.term, h4.trans hnew.stored.voters,
    hg.commitIndex.trans hcommit, b, hg.base.trans hb, by omega, List.ext_getElem? fun i => ?_, ?_⟩
  · show seen.log[i]? = _
    rw [List.getElem?_drop]
    rcases Nat.lt_or_ge (b + i) (a'.commit n) with hi | hi
    · obtain ⟨e, he⟩ := hexists i hi
      rw [he, (hplace hi he).1]
    · have hdrop := congrArg (·[i - (a'.commit n - b)]?) htail
      simp only [List.getElem?_drop] at hdrop
      rwa [show a'.commit n - b + (i - (a'.commit n - b)) = i by omega,
        show a'.commit n + (i - (a'.commit n - b)) = b + i by omega] at hdrop
  · show seen.applied = _
    have happ : (w.nodes n).applied = (((a.log n).take (a.commit n)).drop b).map (·.command) := by
      rw [(h.node n).applied, hbn]
    have hfirst : (((a.log n).take (a.commit n)).drop b).length = a.commit n - b := by
      rw [List.length_drop, List.length_take]
      omega
    rw [hg.applied, happ, ← List.map_append]
    refine congrArg (List.map fun e : Entry => e.command) (List.ext_getElem? fun i => ?_)
    rw [List.getElem?_drop]
    rcases Nat.lt_or_ge (b + i) (a'.commit n) with hi | hi
    · obtain ⟨e, he⟩ := hexists i hi
      obtain ⟨-, hbelow, habove⟩ := hplace hi he
      rw [List.getElem?_take_of_lt hi, he]
      rcases Nat.lt_or_ge (b + i) (a.commit n) with hlt | hge
      · rw [List.getElem?_append_left (by omega), List.getElem?_drop, List.getElem?_take_of_lt hlt]
        exact hbelow hlt
      · rw [List.getElem?_append_right (by omega), hfirst, show i - (a.commit n - b) = b + i - a.commit n by omega]
        exact habove hge
    · rw [List.getElem?_eq_none (by rw [List.length_append, hfirst]; omega),
        List.getElem?_eq_none (by rw [List.length_take]; omega)]

end DeterministicRaft
