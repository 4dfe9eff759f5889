import DeterministicRaft.LogicalLog
import DeterministicRaft.NodeRuns

/-!
# The bounds of a node's indices

What every operation keeps of the indices of one node, whatever it is sent: the log is compacted up to an index that is committed,
what is committed is applied and in the log, and the snapshot ends at the base.
-/

namespace DeterministicRaft

open RaftNode

variable {I : Inputs} {self after : RaftNode}

/-- The base index and the commit index are in order, what is committed is applied, and the snapshot ends at the base. -/
structure RaftNode.Bounded (node : RaftNode) : Prop where
  base : 0 ≤ node.baseIndex
  commit : node.baseIndex ≤ node.commitIndex
  applied : node.lastApplied = node.commitIndex
  count : node.baseIndex + node.applied.length = node.lastApplied
  snapNone : node.snapshot = none → node.baseIndex = 0
  snapEnds : ∀ s, node.snapshot = some s → s.lastIndex = node.baseIndex
  noRegression : node.bugs.allowCommitRegression = false

/-- What is committed is also in the log. -/
structure RaftNode.Grounded (node : RaftNode) : Prop extends node.Bounded where
  last : node.commitIndex ≤ node.lastLogIndex

/-- Where an entry can be read above the base, it is in the log. -/
theorem getElem?_of_entryAt {i : Int} {e : Entry} (h : self.entryAt i = .ok e) (hb : self.baseIndex < i) :
    self.log[(i - self.baseIndex - 1).toNat]? = some e := by
  rw [RaftNode.entryAt, RaftNode.phys, pyIndex] at h
  have hn : ¬ i - self.baseIndex - 1 < 0 := by omega
  simp only [if_neg hn] at h
  cases hl : self.log[(i - self.baseIndex - 1).toNat]? with
  | none =>
    rw [hl] at h
    simp at h
  | some x =>
    simp only [hl, Except.ok.injEq] at h
    rw [h]

/-- The call tells of something that happened to the node, other than an election. -/
def Effect.Tells : Effect → Prop
  | .record event => event.Aside
  | .onApply _ _ => True
  | _ => False

/-- What applying entries changes. -/
theorem foldl_applyEntry (self : RaftNode) (entries : List Entry) : ∃ es, (∀ e ∈ es, e.Tells) ∧
    entries.foldl applyEntry self = { self with
      lastApplied := self.lastApplied + entries.length
      applied := self.applied ++ entries.map (·.command)
      kv := self.kv.applyAll (entries.map (·.command))
      out := self.out ++ es } := by
  induction entries generalizing self with
  | nil => exact ⟨[], by simp, by simp⟩
  | cons entry entries ih =>
    obtain ⟨es, htell, hes⟩ := ih (self.applyEntry entry)
    refine ⟨[.record (.apply (self.lastApplied + 1) entry),
      .onApply entry.command (self.kv.apply (Command.decode entry.command)).2] ++ es, ?_, ?_⟩
    · simpa [Effect.Tells, Event.Aside] using htell
    rw [List.foldl_cons, hes]
    simp only [applyEntry, RaftNode.record, emit, List.map_cons, List.length_cons, List.append_assoc, List.cons_append,
      List.nil_append, KVStateMachine.applyAll, List.foldl_cons]
    congr 1
    push_cast
    omega

/-- What a commit changes. -/
theorem committed_eq (self : RaftNode) (index : Int) (entries : List Entry) : ∃ es, (∀ e ∈ es, e.Tells) ∧
    self.committed index entries = { self with
      commitIndex := index
      lastApplied := self.lastApplied + entries.length
      applied := self.applied ++ entries.map (·.command)
      kv := self.kv.applyAll (entries.map (·.command))
      out := self.out ++ es } := by
  obtain ⟨es, htell, hes⟩ := foldl_applyEntry ({ self with commitIndex := index }.record (.commit index)) entries
  refine ⟨.record (.commit index) :: es, by simpa [Effect.Tells, Event.Aside] using htell, ?_⟩
  rw [RaftNode.committed, hes]
  simp [RaftNode.record, emit]

/-- What a crash changes. -/
theorem pause_fields (self : RaftNode) : self.pause = { self with
    role := .follower
    commitIndex := (self.snapshot.map (·.lastIndex)).getD 0
    lastApplied := (self.snapshot.map (·.lastIndex)).getD 0
    kv := (self.snapshot.map fun s => { store := s.store, sessions := s.sessions }).getD {}
    applied := [], leaderId := none, alive := false
    nextIndex := ∅, matchIndex := ∅, votes := ∅, clientIndex := ∅, pendingReads := ∅, committedThisTerm := false
    timerSeq := self.timerSeq + 1, incarnation := self.incarnation + 1
    voters := self.rebuildConfig.voters, configIndex := self.rebuildConfig.configIndex } := by
  unfold RaftNode.pause RaftNode.resetVolatile RaftNode.rebuildConfig RaftNode.adoptConfig
  cases hs : self.snapshot <;> simp [KVStateMachine.restore]

/-- What the leader's own appended command changes. -/
theorem proposed_eq (self : RaftNode) (command : String) : ∃ clientIndex, self.proposed command = { self with
    clientIndex
    log := self.log ++ [({ term := self.term, command } : Entry)]
    logVersion := self.logVersion + 1
    matchIndex := self.matchIndex.insert self.id (self.baseIndex + (self.log.length + 1))
    out := self.out ++ [.record (.append (self.baseIndex + (self.log.length + 1)) self.term command)] } := by
  unfold RaftNode.proposed
  simp only
  split
  · refine ⟨self.clientIndex.insert (Command.decode command).clientId (Command.decode command).reqId, ?_⟩
    simp [withEntry, RaftNode.record, emit, RaftNode.lastLogIndex]
  · exact ⟨self.clientIndex, by simp [withEntry, RaftNode.record, emit, RaftNode.lastLogIndex]⟩

/-- The role and the term that the node's last `role` event has told. -/
def Effect.shown (last : Role × Int) : Effect → Role × Int
  | .record (.role role term) => (role, term)
  | _ => last

/-- Calls that tell of no election leave what was told last. -/
theorem foldl_shown_of_aside {es : List Effect} (h : ∀ event, Effect.record event ∈ es → event.Aside) (last : Role × Int) :
    es.foldl Effect.shown last = last := by
  induction es with
  | nil => rfl
  | cons e es ih =>
    have hrest := ih fun event he => h event (List.mem_cons_of_mem _ he)
    cases e with
    | record event =>
      have haside := h event List.mem_cons_self
      cases event with
      | role role term => exact haside.elim
      | _ => exact hrest
    | _ => exact hrest

/-- The calls of an operation are added to those before: only an operation that may compact lets the checker look, every message is
true of the node as it is then or as the leader it has just become, or grants a vote, and has the node's term, every candidacy is the
node's own, and the last `role` event tells its role and its term, unless it has crashed. -/
structure RaftNode.Adds (I : Inputs) (node after : RaftNode) (es : List Effect) : Prop where
  out : after.out = node.out ++ es
  looks : ∀ view, Effect.beforeCompact view ∈ es → I.compacts
  sends : ∀ dst msg, Effect.send dst msg ∈ es → (Effect.send dst msg).Sound node ∨ (Effect.send dst msg).Sound node.leading ∨
    ∃ req, I.asks req ∧ after = node.voted req.candidate ∧ dst = req.candidate ∧ msg = .voteReply ⟨node.term, node.id, true⟩
  current : ∀ dst msg, Effect.send dst msg ∈ es → after.term = node.term
  elections : ∀ t, Effect.record (.election t) ∈ es → t = node.term + 1 ∧ after = node.campaigned
  roles : (I.crashes ∧ after = node.pause) ∨ es.foldl Effect.shown (node.role, node.term) = (after.role, after.term)

/-- A move that keeps the role and the term, and whose calls are no messages and tell of no election. -/
theorem RaftNode.Adds.of_aside {es : List Effect} (hout : after.out = self.out ++ es)
    (haside : ∀ event, Effect.record event ∈ es → event.Aside) (hlooks : ∀ view, Effect.beforeCompact view ∈ es → I.compacts)
    (hsends : ∀ dst msg, Effect.send dst msg ∉ es) (hrole : after.role = self.role) (hterm : after.term = self.term) :
    self.Adds I after es where
  out := hout
  looks := hlooks
  sends dst msg h := absurd h (hsends dst msg)
  current dst msg h := absurd h (hsends dst msg)
  elections t h := (haside _ h).elim
  roles := Or.inr (by rw [foldl_shown_of_aside haside, hrole, hterm])

/-- A move calls. -/
theorem Move.calls (hm : Move I self after) : ∃ es, self.Adds I after es := by
  cases hm with
  | call e he =>
    have haside : ∀ event, Effect.record event ∈ [e] → event.Aside := by
      intro event h
      rw [← List.mem_singleton.1 h] at he
      exact he
    refine ⟨[e], rfl, fun view hv => ?_, fun dst msg hs => Or.inl ?_, fun _ _ _ => rfl, fun t h => (haside _ h).elim, Or.inr ?_⟩
    · rw [← List.mem_singleton.1 hv] at he
      exact he.elim
    · rw [List.mem_singleton.1 hs]
      exact he
    · exact foldl_shown_of_aside haside _
  | arm | follow | start | resume =>
    exact ⟨[.schedule .election (self.timerSeq + 1)], .of_aside rfl (by simp) (by simp) (by simp) rfl rfl⟩
  | armHeartbeat => exact ⟨[.schedule .heartbeat (self.timerSeq + 1)], .of_aside rfl (by simp) (by simp) (by simp) rfl rfl⟩
  | stepDown term ha ht =>
    rw [becomeFollower_eq]
    refine ⟨steppedDown self term ++ [.schedule .election (self.timerSeq + 1)], by simp, ?_, ?_, ?_, ?_, Or.inr ?_⟩
    · unfold steppedDown
      split <;> simp
    · unfold steppedDown
      split <;> simp
    · unfold steppedDown
      split <;> simp
    · unfold steppedDown
      split <;> simp
    · unfold steppedDown
      split
      · simp [Effect.shown]
      · rename_i hsame
        push Not at hsame
        have hterm : self.term = term := le_antisymm ht (by omega)
        simp [Effect.shown, hsame.1, hterm]
  | campaign =>
    refine ⟨[.record (.election (self.term + 1)), .record (.role .candidate (self.term + 1)),
      .schedule .election (self.timerSeq + 1)], ?_, by simp, by simp, by simp, by simp, Or.inr rfl⟩
    simp [campaigned, RaftNode.armElectionTimer, RaftNode.record, emit]
  | countVote | keepBooks | regress =>
    exact ⟨[], .of_aside (List.append_nil _).symm (by simp) (by simp) (by simp) rfl rfl⟩
  | lead es ha hr hq hes =>
    have haside : ∀ event, Effect.record event ∈ es → event.Aside := fun event h => hes _ h
    refine ⟨[.record (.role .leader self.term)] ++ es ++ [.schedule .heartbeat (self.timerSeq + 1)], ?_, ?_, ?_, fun _ _ _ => rfl, ?_, Or.inr ?_⟩
    · simp [armHeartbeatTimer, emit, leading, RaftNode.rebuildClientIndex, RaftNode.record]
    · intro view hv
      simp only [List.mem_append, List.mem_singleton, reduceCtorEq, false_or, or_false] at hv
      exact (hes _ hv).elim
    · intro dst msg hs
      simp only [List.mem_append, List.mem_singleton, reduceCtorEq, false_or, or_false] at hs
      exact Or.inr (Or.inl (hes _ hs))
    · intro t ht
      simp only [List.mem_append, List.mem_singleton, Effect.record.injEq, reduceCtorEq, false_or, or_false] at ht
      exact (haside _ ht).elim
    · rw [List.foldl_append, List.foldl_append, foldl_shown_of_aside haside]
      rfl
  | vote msg hi =>
    refine ⟨[.record (.vote msg.candidate self.term), .schedule .election (self.timerSeq + 1),
      .send msg.candidate (.voteReply ⟨self.term, self.id, true⟩)], ?_, by simp, fun dst reply hs => ?_,
      fun _ _ _ => rfl, by simp, Or.inr rfl⟩
    · simp [voted, RaftNode.send, RaftNode.armElectionTimer, RaftNode.record, emit]
    · have hs' : dst = msg.candidate ∧ reply = .voteReply ⟨self.term, self.id, true⟩ := by simpa using hs
      exact Or.inr (Or.inr ⟨msg, hi, rfl, hs'⟩)
  | propose command =>
    obtain ⟨ci, hp⟩ := proposed_eq self command
    rw [hp]
    exact ⟨_, .of_aside rfl (by simp [Event.Aside]) (by simp) (by simp) rfl rfl⟩
  | reconfigure newVoters => exact ⟨_, .of_aside rfl (by simp [Event.Aside]) (by simp) (by simp) rfl rfl⟩
  | truncate index =>
    rw [OnlyLog.truncateFrom self index]
    exact ⟨[], .of_aside (List.append_nil _).symm (by simp) (by simp) (by simp) rfl rfl⟩
  | extend index entry =>
    rw [OnlyLog.appendReplicated self index entry]
    exact ⟨[], .of_aside (List.append_nil _).symm (by simp) (by simp) (by simp) rfl rfl⟩
  | commit index entries =>
    obtain ⟨es, htell, he⟩ := committed_eq self index entries
    rw [he]
    exact ⟨es, .of_aside rfl (fun event h => htell _ h) (fun view hv => (htell _ hv).elim) (fun dst msg hs => htell _ hs) rfl rfl⟩
  | compact t vs hq =>
    exact ⟨[.beforeCompact self.view, .record (.snapshot self.lastApplied t)],
      .of_aside (List.append_assoc _ _ _) (by simp [Event.Aside]) (fun _ _ => hq) (by simp) rfl rfl⟩
  | install => exact ⟨_, .of_aside rfl (by simp [Event.Aside]) (by simp) (by simp) rfl rfl⟩
  | pause hq => exact ⟨[], by rw [pause_fields]; exact (List.append_nil _).symm, by simp, by simp, by simp, by simp, Or.inl ⟨hq, rfl⟩⟩

/-- The calls of some moves: what they may be, whatever the state they are made in. -/
theorem Moved.calls (hm : Moved I self after) : ∃ es, after.out = self.out ++ es ∧
    ∀ view, Effect.beforeCompact view ∈ es → I.compacts := by
  induction hm with
  | refl => exact ⟨[], by simp, by simp⟩
  | tail _ hm ih =>
    obtain ⟨es, h1, h2⟩ := ih
    obtain ⟨es', h3⟩ := hm.calls
    refine ⟨es ++ es', by rw [h3.out, h1, List.append_assoc], fun view hv => ?_⟩
    exact (List.mem_append.1 hv).elim (h2 view) (h3.looks view)

/-! ## What most operations leave alone -/

/-- What is committed, applied and compacted has not changed, and the node has not been restarted. -/
structure RaftNode.Still (node after : RaftNode) : Prop where
  bugs : after.bugs = node.bugs
  initialVoters : after.initialVoters = node.initialVoters
  baseIndex : after.baseIndex = node.baseIndex
  baseTerm : after.baseTerm = node.baseTerm
  snapshot : after.snapshot = node.snapshot
  commitIndex : after.commitIndex = node.commitIndex
  lastApplied : after.lastApplied = node.lastApplied
  applied : after.applied = node.applied
  kv : after.kv = node.kv
  incarnation : after.incarnation = node.incarnation

/-- A node that does nothing. -/
theorem RaftNode.Still.refl (self : RaftNode) : self.Still self := ⟨rfl, rfl, rfl, rfl, rfl, rfl, rfl, rfl, rfl, rfl⟩

/-- One move after the other. -/
theorem RaftNode.Still.trans {mid : RaftNode} (h : self.Still mid) (h' : mid.Still after) : self.Still after :=
  ⟨h'.bugs.trans h.bugs, h'.initialVoters.trans h.initialVoters, h'.baseIndex.trans h.baseIndex, h'.baseTerm.trans h.baseTerm,
    h'.snapshot.trans h.snapshot, h'.commitIndex.trans h.commitIndex, h'.lastApplied.trans h.lastApplied,
    h'.applied.trans h.applied, h'.kv.trans h.kv, h'.incarnation.trans h.incarnation⟩

/-- A change of the log. -/
theorem RaftNode.Still.of_onlyLog (h : OnlyLog self after) : self.Still after := by
  rw [h]
  exact ⟨rfl, rfl, rfl, rfl, rfl, rfl, rfl, rfl, rfl, rfl⟩

/-- A move leaves these alone, or it commits, compacts, installs a snapshot or is a crash. -/
theorem Move.still_or (hm : Move I self after) : self.Still after ∨
    (I.commits ∧ ∃ index entries, self.Commits index entries ∧ after = self.committed index entries) ∨
    (I.compacts ∧ ∃ t vs, self.Compacts t vs ∧ after = self.compacted t vs) ∨
    (∃ msg keep, I.installs msg ∧ self.keepsTail msg = .ok keep ∧ self.commitIndex < msg.lastIndex ∧
      after = self.installed msg keep) ∨
    (I.crashes ∧ after = self.pause) ∨
    (self.bugs.allowCommitRegression = true ∧ ∃ index, after = { self with commitIndex := index }) := by
  cases hm with
  | commit index entries hq h => exact Or.inr (Or.inl ⟨hq, index, entries, h, rfl⟩)
  | compact t vs hq h => exact Or.inr (Or.inr (Or.inl ⟨hq, t, vs, h, rfl⟩))
  | install msg keep hq hr hk hlt => exact Or.inr (Or.inr (Or.inr (Or.inl ⟨msg, keep, hq, hk, hlt, rfl⟩)))
  | pause hq => exact Or.inr (Or.inr (Or.inr (Or.inr (Or.inl ⟨hq, rfl⟩))))
  | regress index hb => exact Or.inr (Or.inr (Or.inr (Or.inr (Or.inr ⟨hb, index, rfl⟩))))
  | stepDown term =>
    rw [becomeFollower_eq]
    exact Or.inl ⟨rfl, rfl, rfl, rfl, rfl, rfl, rfl, rfl, rfl, rfl⟩
  | propose command =>
    obtain ⟨ci, hp⟩ := proposed_eq self command
    rw [hp]
    exact Or.inl ⟨rfl, rfl, rfl, rfl, rfl, rfl, rfl, rfl, rfl, rfl⟩
  | truncate index => exact Or.inl (.of_onlyLog (.truncateFrom self index))
  | extend index entry => exact Or.inl (.of_onlyLog (.appendReplicated self index entry))
  | _ => exact Or.inl ⟨rfl, rfl, rfl, rfl, rfl, rfl, rfl, rfl, rfl, rfl⟩

/-- Moves that commit nothing. -/
theorem Moved.still (hq : self.bugs.allowCommitRegression = false) (hm : Moved I.quiet self after) : self.Still after := by
  induction hm with
  | refl => exact .refl self
  | tail _ hm ih =>
    rcases hm.still_or with h | ⟨h, -⟩ | ⟨h, -⟩ | ⟨_, _, h, -⟩ | ⟨h, -⟩ | ⟨h, -⟩
    · exact ih.trans h
    · exact h.elim
    · exact h.elim
    · exact h.elim
    · exact h.elim
    · rw [ih.bugs, hq] at h
      cases h

namespace RaftNode.Bounded

/-- A new node. -/
theorem new (id : NodeId) (peerIds : List NodeId) (config : RaftConfig) (bugs : Bugs) (initialVoters : Option (List NodeId))
    (hb : bugs.allowCommitRegression = false) : (RaftNode.new id peerIds config bugs initialVoters).Bounded :=
  ⟨le_rfl, le_rfl, rfl, rfl, fun _ => rfl, nofun, hb⟩

/-- A node that is still. -/
theorem still (h : self.Bounded) (hs : self.Still after) : after.Bounded :=
  ⟨hs.baseIndex ▸ h.base, by rw [hs.baseIndex, hs.commitIndex]; exact h.commit,
    by rw [hs.lastApplied, hs.commitIndex]; exact h.applied, by rw [hs.baseIndex, hs.applied, hs.lastApplied]; exact h.count,
    by rw [hs.snapshot, hs.baseIndex]; exact h.snapNone, by rw [hs.snapshot, hs.baseIndex]; exact h.snapEnds,
    by rw [hs.bugs]; exact h.noRegression⟩

/-- A crash goes back to the base. -/
theorem snapshot_lastIndex (h : self.Bounded) : (self.snapshot.map (·.lastIndex)).getD 0 = self.baseIndex := by
  cases hs : self.snapshot with
  | none => exact (h.snapNone hs).symm
  | some s => exact h.snapEnds s hs

/-- A node that commits. -/
theorem committed (h : self.Bounded) {index : Int} {entries : List Entry} (hc : self.Commits index entries) :
    (self.committed index entries).Bounded := by
  have hla := h.applied
  have hbc := h.commit
  have hcount := h.count
  have hlt := hc.lt
  have hlen := hc.length
  obtain ⟨es, -, he⟩ := committed_eq self index entries
  rw [he]
  refine ⟨h.base, ?_, ?_, ?_, h.snapNone, h.snapEnds, h.noRegression⟩
  · show self.baseIndex ≤ index
    omega
  · show self.lastApplied + entries.length = index
    omega
  · show self.baseIndex + ((self.applied ++ entries.map (·.command)).length : ℕ) = self.lastApplied + entries.length
    rw [List.length_append, List.length_map]
    omega

/-- A node that compacts. -/
theorem compacted (h : self.Bounded) (lastTerm : Int) (snapVoters : List NodeId) :
    (self.compacted lastTerm snapVoters).Bounded := by
  have hla := h.applied
  have hbc := h.commit
  have hcount := h.count
  have hb := h.base
  refine ⟨?_, hla.le, hla, ?_, fun hn => absurd hn (Option.some_ne_none _), ?_, h.noRegression⟩
  · show 0 ≤ self.lastApplied
    omega
  · show self.lastApplied + ((sliceFrom self.applied (self.lastApplied - self.baseIndex)).length : ℕ) = self.lastApplied
    rw [sliceFrom_nat self.applied (n := (self.lastApplied - self.baseIndex).toNat) (by omega), List.length_drop]
    omega
  · intro s hs
    cases hs
    rfl

/-- A node that installs a snapshot. -/
theorem installed (h : self.Bounded) {msg : InstallSnapshot} (hc : self.commitIndex < msg.lastIndex) (keepTail : Bool) :
    (self.installed msg keepTail).Bounded := by
  have hb := h.base
  have hbc := h.commit
  refine ⟨?_, le_rfl, rfl, ?_, fun hn => absurd hn (Option.some_ne_none _), ?_, h.noRegression⟩
  · show 0 ≤ msg.lastIndex
    omega
  · show msg.lastIndex + (([] : List String).length : ℕ) = msg.lastIndex
    simp
  · intro s hs
    cases hs
    rfl

/-- A node that crashes. -/
theorem pause (h : self.Bounded) : self.pause.Bounded := by
  rw [pause_fields, h.snapshot_lastIndex]
  exact ⟨h.base, le_rfl, rfl, by simp, h.snapNone, h.snapEnds, h.noRegression⟩

/-- A move keeps the bounds. -/
theorem move (hm : Move I self after) (h : self.Bounded) : after.Bounded := by
  rcases hm.still_or with hs | ⟨-, index, entries, hc, rfl⟩ | ⟨-, t, vs, -, rfl⟩ | ⟨msg, keep, -, -, hlt, rfl⟩ | ⟨-, rfl⟩ | ⟨hb, -⟩
  · exact h.still hs
  · exact h.committed hc
  · exact h.compacted t vs
  · exact h.installed hlt keep
  · exact h.pause
  · rw [h.noRegression] at hb
    cases hb

/-- Operations keep the bounds. -/
theorem moved (hm : Moved I self after) (h : self.Bounded) : after.Bounded := by
  induction hm with
  | refl => exact h
  | tail _ hm ih => exact ih.move hm

/-- The last index of what a commit applies is in the log. -/
theorem commit_le_last (h : self.Bounded) {index : Int} {entries : List Entry} (hc : self.Commits index entries) :
    index ≤ self.lastLogIndex := by
  have hla := h.applied
  have hbc := h.commit
  have hlt := hc.lt
  have hlen := hc.length
  obtain ⟨e, he⟩ : ∃ e, entries[entries.length - 1]? = some e := ⟨_, List.getElem?_eq_getElem (by omega)⟩
  have hread := hc.entries _ e he
  have hidx : self.lastApplied + 1 + ((entries.length - 1 : ℕ) : Int) = index := by omega
  rw [hidx] at hread
  have hlog := (List.getElem?_eq_some_iff.1 (getElem?_of_entryAt hread (by omega))).1
  rw [RaftNode.lastLogIndex]
  omega

end RaftNode.Bounded

namespace RaftNode.Grounded

/-- A new node. -/
theorem new (id : NodeId) (peerIds : List NodeId) (config : RaftConfig) (bugs : Bugs) (initialVoters : Option (List NodeId))
    (hb : bugs.allowCommitRegression = false) : (RaftNode.new id peerIds config bugs initialVoters).Grounded :=
  ⟨.new id peerIds config bugs initialVoters hb, le_rfl⟩

/-- A log that has not become shorter. -/
theorem longer (h : self.Grounded) (hs : self.Still after) (hl : self.log.length ≤ after.log.length) :
    after.commitIndex ≤ after.lastLogIndex := by
  have hlast := h.last
  rw [RaftNode.lastLogIndex] at hlast
  rw [hs.commitIndex, RaftNode.lastLogIndex, hs.baseIndex]
  omega

/-- A node that commits. -/
theorem committed (h : self.Grounded) {index : Int} {entries : List Entry} (hc : self.Commits index entries) :
    (self.committed index entries).Grounded := by
  refine ⟨h.toBounded.committed hc, ?_⟩
  have hle := h.commit_le_last hc
  obtain ⟨es, -, he⟩ := committed_eq self index entries
  rw [he]
  exact hle

/-- A move keeps what is committed in the log, as long as AppendEntries do not contradict it. -/
theorem move (hag : I.agrees) (hm : Move I self after) (h : self.Grounded) : after.Grounded := by
  refine ⟨h.toBounded.move hm, ?_⟩
  have hlast := h.last
  cases hm with
  | call | arm | armHeartbeat | campaign | countVote | lead | vote | follow | keepBooks | start | resume => exact hlast
  | stepDown term =>
    rw [becomeFollower_eq]
    exact hlast
  | propose command =>
    obtain ⟨ci, hp⟩ := proposed_eq self command
    rw [hp]
    refine h.longer ⟨rfl, rfl, rfl, rfl, rfl, rfl, rfl, rfl, rfl, rfl⟩ ?_
    rw [List.length_append]
    omega
  | reconfigure newVoters =>
    refine h.longer ⟨rfl, rfl, rfl, rfl, rfl, rfl, rfl, rfl, rfl, rfl⟩ ?_
    show self.log.length ≤ (self.log ++ [_]).length
    rw [List.length_append]
    omega
  | truncate index t entry hr hb hl ht hne hs =>
    have hcom := hs hag h.base
    rw [Makes.truncateFrom_last (hb h.base) hl, (Makes.truncateFrom_keeps self index).2.2.2.1]
    omega
  | extend index entry he hr hi =>
    rw [Makes.appendReplicated_last self index entry, (Makes.appendReplicated_keeps self index entry).2.2.2.1]
    omega
  | commit index entries hq hc => exact (h.committed hc).last
  | compact lastTerm snapVoters =>
    have hla := h.applied
    have hbc := h.commit
    rw [RaftNode.lastLogIndex] at hlast
    show self.commitIndex ≤ self.lastApplied + ((sliceFrom self.log (self.lastApplied - self.baseIndex)).length : ℕ)
    rw [sliceFrom_nat self.log (n := (self.lastApplied - self.baseIndex).toNat) (by omega), List.length_drop]
    omega
  | install msg keepTail =>
    show msg.lastIndex ≤ msg.lastIndex + _
    omega
  | regress index hb =>
    rw [h.noRegression] at hb
    cases hb
  | pause =>
    rw [pause_fields, h.snapshot_lastIndex]
    exact h.commit.trans hlast

/-- Operations keep it. -/
theorem moved (hag : I.agrees) (hm : Moved I self after) (h : self.Grounded) : after.Grounded := by
  induction hm with
  | refl => exact h
  | tail _ hm ih => exact ih.move hag hm

end RaftNode.Grounded

end DeterministicRaft
