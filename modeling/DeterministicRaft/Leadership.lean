import DeterministicRaft.Gains
import DeterministicRaft.Twins

/-!
# One leadership of a node

From its election to its end a leader only appends to its log, and compacts what it has committed. The entries it has had are one list
that grows; the live log is what is left of it. The index of the clients' requests is that of the whole list.
-/

namespace DeterministicRaft

open RaftNode Refinement

variable {I : Inputs} {self mid after : RaftNode} {T base : Int} {whole : List Entry}

/-! ## Configuration entries are no requests -/

/-- A configuration entry decodes to a command that does nothing. -/
theorem decode_encodeConfig (l : List NodeId) : Command.decode (encodeConfig l) = .noop := by
  refine Command.decode_of_prefix ?_
  rw [encodeConfig, String.toList_append]
  exact List.prefix_append _ _

/-! ## The index of the clients' requests -/

/-- The entry holds a request of the client. -/
def Entry.Requests (e : Entry) (cid rid : Int) : Prop :=
  (Command.decode e.command).isStructured = true ∧ (Command.decode e.command).clientId = cid ∧ (Command.decode e.command).reqId = rid

/-- The index holds requests of the list only, and it covers every request of it. -/
structure IndexOf (index : Dict Int Int) (whole : List Entry) : Prop where
  sound : ∀ cid q, index.lookup cid = some q → ∃ e ∈ whole, e.Requests cid q
  covers : ∀ e ∈ whole, ∀ cid r, e.Requests cid r → 0 ≤ r → ∃ q, index.lookup cid = some q ∧ r ≤ q

theorem IndexOf.nil : IndexOf ∅ [] := ⟨fun cid q h => by simp at h, nofun⟩

/-- A request that is newer than all of its client's. -/
theorem IndexOf.insert {index : Dict Int Int} (h : IndexOf index whole) {e : Entry} {cid rid : Int} (he : e.Requests cid rid)
    (hnew : index.getD cid (-1) < rid) : IndexOf (index.insert cid rid) (whole ++ [e]) := by
  constructor
  · intro cid' q hl
    by_cases hc : cid' = cid
    · subst hc
      rw [Finmap.lookup_insert] at hl
      cases hl
      exact ⟨e, by simp, he⟩
    · rw [Finmap.lookup_insert_of_ne _ hc] at hl
      obtain ⟨x, hx, hxr⟩ := h.sound cid' q hl
      exact ⟨x, List.mem_append_left _ hx, hxr⟩
  · intro x hx cid' r hxr hr
    by_cases hc : cid' = cid
    · subst hc
      refine ⟨rid, Finmap.lookup_insert _, ?_⟩
      rcases List.mem_append.1 hx with hx | hx
      · obtain ⟨q, hl, hle⟩ := h.covers x hx cid' r hxr hr
        rw [Dict.getD, hl] at hnew
        exact hle.trans hnew.le
      · rw [List.mem_singleton.1 hx] at hxr
        exact (hxr.2.2.symm.trans he.2.2).le
    · rw [Finmap.lookup_insert_of_ne _ hc]
      rcases List.mem_append.1 hx with hx | hx
      · exact h.covers x hx cid' r hxr hr
      · rw [List.mem_singleton.1 hx] at hxr
        exact absurd (hxr.2.1.symm.trans he.2.1) hc

/-- An entry that holds no request newer than its client's others. -/
theorem IndexOf.skip {index : Dict Int Int} (h : IndexOf index whole) {e : Entry}
    (hold : ∀ cid r, e.Requests cid r → r ≤ index.getD cid (-1)) : IndexOf index (whole ++ [e]) := by
  constructor
  · intro cid q hl
    obtain ⟨x, hx, hxr⟩ := h.sound cid q hl
    exact ⟨x, List.mem_append_left _ hx, hxr⟩
  · intro x hx cid r hxr hr
    rcases List.mem_append.1 hx with hx | hx
    · exact h.covers x hx cid r hxr hr
    · rw [List.mem_singleton.1 hx] at hxr
      have hle := hold cid r hxr
      rw [Dict.getD] at hle
      cases hl : index.lookup cid with
      | none =>
        rw [hl] at hle
        simp only [Option.getD_none] at hle
        omega
      | some q =>
        rw [hl] at hle
        exact ⟨q, rfl, hle⟩

/-- What `_rebuild_client_index` makes is the index of the log. -/
theorem IndexOf.rebuilt {index : Dict Int Int} (h : IndexOf index whole) (log : List Entry) :
    IndexOf (clientIndexOf index log) (whole ++ log) := by
  induction log generalizing index whole with
  | nil => simpa [clientIndexOf] using h
  | cons e log ih =>
    rw [show whole ++ e :: log = (whole ++ [e]) ++ log by simp, clientIndexOf]
    split
    · rename_i hnew
      exact ih (h.insert ⟨hnew.1, rfl, rfl⟩ hnew.2)
    · rename_i hold
      refine ih (h.skip ?_)
      rintro cid r ⟨hs, rfl, rfl⟩
      push Not at hold
      exact hold hs

/-! ## A leadership -/

/-- A leader of the term, whose log was compacted up to `base` when it was elected; `whole` are the entries it has had since. -/
structure Reigns (T base : Int) (whole : List Entry) (node : RaftNode) : Prop where
  role : node.role = .leader
  term : node.term = T
  bounded : node.Bounded
  log : ∃ k ≤ whole.length, node.log = whole.drop k ∧ node.baseIndex = base + k
  index : IndexOf node.clientIndex whole

/-- The leadership has ended. -/
def Deposed (T : Int) (node : RaftNode) : Prop := (node.term = T ∧ node.role = .follower) ∨ T < node.term

/-- A move that a leadership does not notice. -/
theorem Reigns.same (h : Reigns T base whole self) (hb : after.Bounded) (hr : after.role = self.role) (ht : after.term = self.term)
    (hl : after.log = self.log) (hi : after.baseIndex = self.baseIndex) (hc : after.clientIndex = self.clientIndex) :
    Reigns T base whole after :=
  ⟨hr.trans h.role, ht.trans h.term, hb, by rw [hl, hi]; exact h.log, by rw [hc]; exact h.index⟩

/-- An entry at the end of the log. -/
theorem Reigns.push (h : Reigns T base whole self) {e : Entry} (hb : after.Bounded)
    (hr : after.role = self.role) (ht : after.term = self.term) (hl : after.log = self.log ++ [e])
    (hi : after.baseIndex = self.baseIndex) (hc : IndexOf after.clientIndex (whole ++ [e])) : Reigns T base (whole ++ [e]) after := by
  obtain ⟨k, hk, hlog, hbase⟩ := h.log
  refine ⟨hr.trans h.role, ht.trans h.term, hb, ⟨k, ?_, ?_, hi.trans hbase⟩, hc⟩
  · rw [List.length_append]
    omega
  · rw [hl, hlog, List.drop_append_of_le_length hk]

/-- The leader compacts its log. -/
theorem Reigns.compacted (h : Reigns T base whole self) {lastTerm : Int} {snapVoters : List NodeId}
    (hc : self.Compacts lastTerm snapVoters) : Reigns T base whole (self.compacted lastTerm snapVoters) := by
  obtain ⟨k, hk, hlog, hbase⟩ := h.log
  have hpos := hc.pos
  have hthr := hc.threshold
  have hlast := Makes.le_last_of_termAt hc.term (by omega)
  have hlen := congrArg List.length hlog
  rw [List.length_drop] at hlen
  rw [RaftNode.lastLogIndex] at hlast
  refine ⟨h.role, h.term, h.bounded.compacted lastTerm snapVoters, ⟨k + (self.lastApplied - self.baseIndex).toNat, ?_, ?_, ?_⟩,
    h.index⟩
  · omega
  · show sliceFrom self.log (self.lastApplied - self.baseIndex) = _
    rw [sliceFrom_nat self.log (n := (self.lastApplied - self.baseIndex).toNat) (by omega), hlog, List.drop_drop]
  · show self.lastApplied = _
    push_cast
    omega

/-- A move of a leader that is given nothing to append: the leadership goes on, or it ends. -/
theorem Reigns.move (h : Reigns T base whole self) (hs : ∀ c, ¬I.submits c) (hp : ∀ vs, ¬I.proposes vs) (hm : Move I self after) :
    Reigns T base whole after ∨ Deposed T after := by
  have hb := h.bounded.move hm
  have hrole := h.role
  cases hm with
  | stepDown t ha ht =>
    rw [becomeFollower_eq]
    rcases ht.eq_or_lt with heq | hlt
    · exact Or.inr (Or.inl ⟨heq.symm.trans h.term, rfl⟩)
    · exact Or.inr (Or.inr (h.term ▸ hlt))
  | arm ha hr | campaign ha hr => exact absurd hrole hr
  | countVote voter hr | lead es ha hr => rw [hrole] at hr; cases hr
  | truncate index t entry hr | extend index entry he hr | install msg keep hq hr => rw [hrole] at hr; cases hr
  | regress index hbug => rw [h.bounded.noRegression] at hbug; cases hbug
  | propose command ha hr hc => exact absurd hc (hs command)
  | reconfigure newVoters ha hr hq => exact absurd hq (hp newVoters)
  | commit index entries hq hc =>
    obtain ⟨es, -, heq⟩ := committed_eq self index entries
    rw [heq] at hb ⊢
    exact Or.inl (h.same hb rfl rfl rfl rfl rfl)
  | compact lastTerm snapVoters hq hc => exact Or.inl (h.compacted hc)
  | pause =>
    rw [pause_fields]
    exact Or.inr (Or.inl ⟨h.term, rfl⟩)
  | call | armHeartbeat | vote | follow | keepBooks | start | resume => exact Or.inl (h.same hb rfl rfl rfl rfl rfl)

/-- A leadership that has ended does not come back. -/
theorem Deposed.move (h : Deposed T self) (hm : Move I self after) : Deposed T after := by
  have hle : T ≤ self.term := h.elim (fun h => h.1.ge) le_of_lt
  cases hm with
  | stepDown t ha ht =>
    rw [becomeFollower_eq]
    rcases (hle.trans ht).eq_or_lt with heq | hlt
    · exact Or.inl ⟨heq.symm, rfl⟩
    · exact Or.inr hlt
  | campaign => exact Or.inr (Int.lt_add_one_of_le hle)
  | lead es ha hr =>
    refine Or.inr (h.resolve_left ?_)
    rintro ⟨-, hrole⟩
    rw [hr] at hrole
    cases hrole
  | truncate index =>
    rw [OnlyLog.truncateFrom self index]
    exact h
  | extend index entry =>
    rw [OnlyLog.appendReplicated self index entry]
    exact h
  | propose command =>
    obtain ⟨ci, heq⟩ := proposed_eq self command
    rw [heq]
    exact h
  | commit index entries =>
    obtain ⟨es, -, heq⟩ := committed_eq self index entries
    rw [heq]
    exact h
  | pause =>
    rw [pause_fields]
    exact h.imp_left fun h => ⟨h.1, rfl⟩
  | _ => exact h

/-- Moves of a leader that is given nothing to append. -/
theorem Reigns.moved (h : Reigns T base whole self) (hs : ∀ c, ¬I.submits c) (hp : ∀ vs, ¬I.proposes vs) (hm : Moved I self after) :
    Reigns T base whole after ∨ Deposed T after := by
  induction hm with
  | refl => exact Or.inl h
  | tail _ hm ih => exact ih.elim (fun ih => ih.move hs hp hm) fun ih => Or.inr (ih.move hm)

/-- The inputs of operations that give a leader nothing to append. -/
def Inputs.unasked : Inputs := { Inputs.any with submits := fun _ => False, proposes := fun _ => False }

theorem NodeOp.admissible_unasked (op : NodeOp) (hc : ∀ c, op ≠ .clientCommand c) (hv : ∀ vs, op ≠ .changeConfig vs)
    (self : RaftNode) : op.Admissible .unasked self := by
  cases op with
  | clientCommand command => exact absurd rfl (hc command)
  | changeConfig vs => exact absurd rfl (hv vs)
  | handle msg =>
    cases msg with
    | appendEntries msg => exact ⟨fun h => h.elim, fun _ _ => trivial⟩
    | readHeartbeat msg => exact fun h => h.elim
    | _ => trivial
  | _ => trivial

/-- The bounds of a node's indices after any operations. -/
theorem RaftNode.Bounded.performed (h : self.Bounded) {ops : List NodeOp} (hops : ops.foldlM RaftNode.perform self = .ok after) :
    after.Bounded :=
  Ensures.foldlM (Q := RaftNode.Bounded) (fun node op hb => (perform_makes ⟨trivial, trivial, trivial⟩ node op (op.admissible_any node)).mono
    fun _ hm => hb.moved hm) h after hops

/-! ## What a leader appends -/

/-- What a leader does with a client's command: it knows the request, or it appends it. -/
inductive Taken (self : RaftNode) (command : String) : RaftNode → Prop
  | known (hs : (Command.decode command).isStructured = true)
      (hold : (Command.decode command).reqId ≤ self.clientIndex.getD (Command.decode command).clientId (-1)) :
      Taken self command (self.record (.dedup command))
  | appended (after : RaftNode) (hnew : (Command.decode command).isStructured = true →
      self.clientIndex.getD (Command.decode command).clientId (-1) < (Command.decode command).reqId)
      (hcalls : Calls (self.proposed command) after) : Taken self command after

theorem clientCommand_taken (hr : self.role = .leader) (command : String) : Ensures (self.clientCommand command) fun r =>
    r = (self, false) ∨ (r.2 = true ∧ Taken self command r.1) := by
  unfold RaftNode.clientCommand
  split
  · exact Ensures.pure (Or.inl rfl)
  · simp only
    split
    · rename_i hold
      exact Ensures.pure (Or.inr ⟨rfl, .known hold.1 hold.2⟩)
    · rename_i hnew
      push Not at hnew
      have hrole : (self.proposed command).role = .leader := by
        obtain ⟨ci, heq⟩ := proposed_eq self command
        rw [heq]
        exact hr
      refine Ensures.bind (Q := Calls (self.proposed command)) (Makes.broadcastHeartbeats_calls hrole) fun mid h => ?_
      exact Ensures.pure (Or.inr ⟨rfl, .appended mid hnew h⟩)

/-- The index after a leader has appended a command. -/
theorem proposed_clientIndex (self : RaftNode) (command : String) : (self.proposed command).clientIndex =
    if (Command.decode command).isStructured then
      self.clientIndex.insert (Command.decode command).clientId (Command.decode command).reqId
    else self.clientIndex := by
  unfold RaftNode.proposed
  simp only
  split <;> rfl

/-- A leader that is given a client's command. -/
theorem Reigns.taken (h : Reigns T base whole self) {command : String} (ht : Taken self command after) :
    ∃ added, Reigns T base (whole ++ added) after ∧ ∀ e ∈ added, e ∈ after.log := by
  cases ht with
  | known => exact ⟨[], by rw [List.append_nil]; exact h.same { h.bounded with } rfl rfl rfl rfl rfl, nofun⟩
  | appended after hnew hcalls =>
    obtain ⟨ci, heq⟩ := proposed_eq self command
    have hindex := proposed_clientIndex self command
    have hbounded : (self.proposed command).Bounded := by
      rw [heq]
      exact { h.bounded with }
    have hlog : (self.proposed command).log = self.log ++ [⟨self.term, command⟩] := by rw [heq]
    have hpush : Reigns T base (whole ++ [⟨self.term, command⟩]) (self.proposed command) := by
      refine h.push hbounded (by rw [heq]) (by rw [heq]) hlog (by rw [heq]) ?_
      rw [hindex]
      split
      · rename_i hs
        exact h.index.insert ⟨hs, rfl, rfl⟩ (hnew hs)
      · rename_i hs
        exact h.index.skip fun cid r hr => absurd hr.1 hs
    obtain ⟨es, rfl, hes⟩ := hcalls
    refine ⟨[⟨self.term, command⟩], hpush.same { hbounded with } rfl rfl rfl rfl rfl, fun e he => ?_⟩
    simp only [hlog]
    exact List.mem_append_right _ he

/-- A leader that appends a configuration. -/
theorem Reigns.reconfigured (h : Reigns T base whole self) {newVoters : List NodeId} (hc : Calls (self.reconfigured newVoters) after) :
    ∃ added, Reigns T base (whole ++ added) after ∧ ∀ e ∈ added, e ∈ after.log := by
  have hbounded : (self.reconfigured newVoters).Bounded := { h.bounded with }
  have hpush : Reigns T base (whole ++ [⟨self.term, encodeConfig newVoters⟩]) (self.reconfigured newVoters) := by
    refine h.push hbounded rfl rfl rfl rfl (h.index.skip ?_)
    rintro cid r ⟨hstruct, -⟩
    rw [decode_encodeConfig] at hstruct
    cases hstruct
  obtain ⟨es, rfl, hes⟩ := hc
  exact ⟨[⟨self.term, encodeConfig newVoters⟩], hpush.same { hbounded with } rfl rfl rfl rfl rfl,
    fun e he => List.mem_append_right _ he⟩

/-! ## Runs -/

/-- Operations, none of which raises, during which the node stays the leader of one term. -/
inductive Led : RaftNode → List NodeOp → RaftNode → Prop
  | nil (self : RaftNode) : Led self [] self
  | concat {self mid after : RaftNode} {ops : List NodeOp} {op : NodeOp} (hs : Led self ops mid) (hp : mid.perform op = .ok after)
      (hr : after.role = .leader) (ht : after.term = mid.term) : Led self (ops ++ [op]) after

/-- One operation of a leadership. -/
theorem Reigns.perform (h : Reigns T base whole self) {op : NodeOp} (hp : self.perform op = .ok after) (hr : after.role = .leader)
    (ht : after.term = T) : ∃ added, Reigns T base (whole ++ added) after ∧ ∀ e ∈ added, e ∈ after.log := by
  have hstay : Reigns T base whole after → ∃ added, Reigns T base (whole ++ added) after ∧ ∀ e ∈ added, e ∈ after.log :=
    fun h' => ⟨[], by rwa [List.append_nil], nofun⟩
  by_cases hc : ∃ c, op = .clientCommand c
  · obtain ⟨command, rfl⟩ := hc
    refine Ensures.map (R := fun after => ∃ added, Reigns T base (whole ++ added) after ∧ ∀ e ∈ added, e ∈ after.log)
      ((clientCommand_taken h.role command).mono ?_) after hp
    rintro r (rfl | ⟨-, ht⟩)
    · exact ⟨[], by rwa [List.append_nil], nofun⟩
    · exact h.taken ht
  by_cases hv : ∃ vs, op = .changeConfig vs
  · obtain ⟨vs, rfl⟩ := hv
    refine Ensures.map (R := fun after => ∃ added, Reigns T base (whole ++ added) after ∧ ∀ e ∈ added, e ∈ after.log) ?_
      after hp
    rintro ⟨after, accepted⟩ hcall
    rcases Makes.changeConfig_cases hcall with ⟨-, rfl⟩ | ⟨-, -, -, -, -, -, hcalls⟩
    · exact ⟨[], by rwa [List.append_nil], nofun⟩
    · exact h.reconfigured hcalls
  · push Not at hc hv
    have hm := perform_makes (I := .unasked) ⟨trivial, trivial, trivial⟩ self op (op.admissible_unasked hc hv self) after hp
    refine hstay ((h.moved (fun _ h => h) (fun _ h => h) hm).resolve_right ?_)
    rintro (⟨-, hrole⟩ | hlt)
    · rw [hr] at hrole
      cases hrole
    · omega

/-- A leadership begins with the entries that are live then. -/
theorem Elected.reigns (h : Elected after) (hb : after.Bounded) : Reigns after.term after.baseIndex after.log after :=
  ⟨h.fields.1, rfl, hb, ⟨0, Nat.zero_le _, rfl, (add_zero _).symm⟩, by
    rw [h.fields.2.2]
    exact IndexOf.nil.rebuilt after.log⟩

/-! ### Where the entries are -/

/-- The last index of a leader's log counts the entries it has had. -/
theorem Reigns.lastLogIndex (h : Reigns T base whole self) : self.lastLogIndex = base + whole.length := by
  obtain ⟨k, hk, hlog, hbase⟩ := h.log
  rw [RaftNode.lastLogIndex, hlog, hbase, List.length_drop]
  omega

/-- A live entry is at its logical index among those that the leader has had. -/
theorem Reigns.entryAt (h : Reigns T base whole self) {i : Int} (hi : self.baseIndex < i) :
    self.entryAt i = pyIndex whole (i - base - 1) := by
  obtain ⟨k, hk, hlog, hbase⟩ := h.log
  rw [RaftNode.entryAt, RaftNode.phys, hlog, hbase, pyIndex_drop _ (by omega)]
  congr 1
  omega

end DeterministicRaft
