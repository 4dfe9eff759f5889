import DeterministicRaft.Clients
import DeterministicRaft.Commits

/-!
# A leader and its only follower, in step

What the two nodes of a cluster do that nothing disturbs: the leader appends a command or sends a heartbeat, the follower takes over what
it is sent, commits what it may and answers, and the leader commits what both have. Nothing is compacted.
-/

namespace DeterministicRaft

namespace RaftNode

variable {self : RaftNode} {n : NodeId} {L entries : List Entry} {c m : ℕ} {seq : Int} {command : String}

/-- A server of term 1 with this log, all of it from this term, that has committed and applied its first `c` entries. -/
structure Serves (node : RaftNode) (n : NodeId) (L : List Entry) (c : ℕ) (seq : Int) : Prop where
  id : node.id = n
  alive : node.alive = true
  term : node.term = 1
  voters : node.voters = [0, 1]
  bugs : node.bugs = NO_BUGS
  config : node.config = {}
  base : node.baseIndex = 0
  log : node.log = L
  own : ∀ e ∈ L, e.term = 1
  commit : node.commitIndex = c
  applied : node.lastApplied = c
  known : c ≤ L.length
  timer : node.timerSeq = seq

/-- The leader, node 0: it knows that node 1 has its first `m` entries. -/
structure Leads (node : RaftNode) (L : List Entry) (c m : ℕ) (seq : Int) : Prop extends Serves node 0 L c seq where
  role : node.role = .leader
  next : node.nextIndex.lookup 1 = some ((m : Int) + 1)
  matched : node.matchIndex.lookup 1 = some (m : Int)
  whole : node.matchIndex.lookup 0 = some (L.length : Int)

/-- The follower, node 1. -/
structure Tracks (node : RaftNode) (L : List Entry) (c : ℕ) (seq : Int) : Prop extends Serves node 1 L c seq where
  role : node.role = .follower

/-! ## What both do -/

namespace Serves

theorem lastLogIndex (h : self.Serves n L c seq) : self.lastLogIndex = L.length := by
  rw [RaftNode.lastLogIndex, h.base, h.log]
  omega

/-- The entries of the log are read where they are. -/
theorem entryAt (h : self.Serves n L c seq) {i : ℕ} {e : Entry} (he : L[i]? = some e) : self.entryAt ((i : Int) + 1) = .ok e := by
  rw [RaftNode.entryAt, h.log]
  refine pyIndex_ok ?_ he
  rw [phys, h.base]
  omega

/-- All terms are 1. -/
theorem termAt (h : self.Serves n L c seq) {i : ℕ} (h1 : 1 ≤ i) (hi : i ≤ L.length) : self.termAt i = .ok 1 := by
  have hget : L[i - 1]? = some L[i - 1] := List.getElem?_eq_getElem (by omega)
  have hread : pyIndex self.log (self.phys i) = .ok L[i - 1] := by
    rw [h.log]
    refine pyIndex_ok ?_ hget
    rw [phys, h.base]
    omega
  rw [RaftNode.termAt, if_neg (by rw [h.base]; omega), hread]
  exact congrArg Except.ok (h.own _ (List.getElem_mem _))

/-- Committing the rest of the log applies it, and asks for nothing. -/
theorem setCommitIndex (h : self.Serves n L c seq) : ∃ es applied kv, (∀ e ∈ es, e.Tells) ∧
    notifications es = ((L.drop c).map (·.command)).zip
      (History.results KVStateMachine.apply self.kv ((L.drop c).map fun e => Command.decode e.command)) ∧
    self.setCommitIndex L.length =
      .ok { self with commitIndex := L.length, lastApplied := L.length, applied, kv, out := self.out ++ es } := by
  rcases Nat.lt_or_ge c L.length with hc | hc
  · have hlast := h.lastLogIndex
    obtain ⟨entries, after, hcommits, hset, hfold⟩ := @setCommitIndex_ok L.length self (by rw [h.base, h.applied]; omega)
      (by rw [h.applied]; omega) (by rw [h.commit]; omega) (by rw [hlast])
    have hlen : entries.length = (L.drop c).length := by
      rw [hcommits.length, h.applied, List.length_drop]
      omega
    have hentries : entries = L.drop c := by
      refine List.ext_getElem hlen fun k hk hk' => ?_
      have hread := hcommits.entries k entries[k] (List.getElem?_eq_getElem hk)
      rw [List.length_drop] at hk'
      have hget : L[c + k]? = some L[c + k] := List.getElem?_eq_getElem (by omega)
      have hread' := h.entryAt hget
      rw [h.applied, show (c : Int) + 1 + k = ((c + k : ℕ) : Int) + 1 by omega, hread'] at hread
      rw [List.getElem_drop]
      exact (Except.ok.inj hread).symm
    subst hentries
    obtain ⟨es, htell, heq⟩ := committed_eq self L.length (L.drop c)
    have hnot := (committed_out self L.length (L.drop c)).2
    have hall : self.lastApplied + ((L.drop c).length : Int) = L.length := by
      rw [h.applied, List.length_drop]
      omega
    rw [hall] at heq
    rw [heq] at hnot
    simp only [notifications_append] at hnot
    refine ⟨es, self.applied ++ (L.drop c).map (·.command), self.kv.applyAll ((L.drop c).map (·.command)), htell,
      List.append_cancel_left hnot, ?_⟩
    rcases hfold with hsame | ⟨t, vs, hcompacts, -⟩
    · exact hset.trans (congrArg Except.ok (hsame.trans heq))
    · have hpos := hcompacts.pos
      rw [heq] at hpos
      simp only [h.config] at hpos
      exact absurd hpos (by decide)
  · have hc : c = L.length := le_antisymm h.known hc
    refine ⟨[], self.applied, self.kv, by simp, by rw [hc, List.drop_length]; rfl, ?_⟩
    have hcommit : (L.length : Int) = self.commitIndex := by rw [h.commit, hc]
    have happlied : self.lastApplied = self.commitIndex := h.applied.trans h.commit.symm
    rw [RaftNode.setCommitIndex, hcommit, if_pos le_rfl, List.append_nil]
    exact congrArg (fun i => (.ok { self with lastApplied := i } : Except PyError RaftNode)) happlied

/-- Committing the rest of the log, a server serves on. -/
theorem caughtUp (h : self.Serves n L c seq) (applied : List String) (kv : KVStateMachine) (out : List Effect) :
    { self with commitIndex := (L.length : Int), lastApplied := (L.length : Int), applied, kv, out }.Serves n L L.length seq :=
  ⟨h.id, h.alive, h.term, h.voters, h.bugs, h.config, h.base, h.log, h.own, rfl, rfl, le_rfl, h.timer⟩

end Serves

/-! ## The leader -/

namespace Leads

/-- The leader sends the follower the rest of its log. -/
theorem broadcastHeartbeats (h : self.Leads L c m seq) (h1 : 1 ≤ m) (hm : m ≤ L.length) :
    self.broadcastHeartbeats = .ok (self.send 1 (.appendEntries ⟨1, 0, m, 1, L.drop m, c⟩)) := by
  have hothers : self.otherVoters = [1] := by
    rw [otherVoters, h.voters, h.id]
    decide
  have hitem : self.nextIndex.item 1 = .ok ((m : Int) + 1) := by
    rw [Dict.item, h.next]
  have hprev : (m : Int) + 1 - 1 = m := by omega
  have hsuffix : self.logSuffix ((m : Int) + 1) = L.drop m := by
    rw [logSuffix, phys, h.base, h.log]
    exact sliceFrom_nat L (by omega)
  rw [RaftNode.broadcastHeartbeats, hothers, List.foldlM_cons, sendAppendEntries, hitem]
  simp only [bind, Except.bind, hprev, hsuffix, h.termAt h1 hm, h.base, h.term, h.id, h.commit]
  rw [if_neg (by omega)]
  rfl

/-- A new command is appended to the log. -/
theorem proposed (h : self.Leads L c m seq) (hs : (Command.decode command).isStructured = true) :
    (self.proposed command).Leads (L ++ [⟨1, command⟩]) c m seq ∧
      (self.proposed command).clientIndex =
        self.clientIndex.insert (Command.decode command).clientId (Command.decode command).reqId ∧
      (self.proposed command).out = self.out ++ [.record (.append (L.length + 1) 1 command)] := by
  have hlen : (L ++ [(⟨1, command⟩ : Entry)]).length = L.length + 1 := List.length_append
  have heq : self.proposed command = { self with
      clientIndex := self.clientIndex.insert (Command.decode command).clientId (Command.decode command).reqId
      log := L ++ [⟨1, command⟩]
      logVersion := self.logVersion + 1
      matchIndex := self.matchIndex.insert 0 ((L.length : Int) + 1)
      out := self.out ++ [.record (.append (L.length + 1) 1 command)] } := by
    simp [RaftNode.proposed, withEntry, hs, RaftNode.lastLogIndex, h.base, h.log, h.term, h.id, RaftNode.record, emit]
  rw [heq]
  refine ⟨⟨⟨h.id, h.alive, h.term, h.voters, h.bugs, h.config, h.base, rfl, fun e he => ?_, h.commit, h.applied, ?_, h.timer⟩, h.role,
    h.next, ?_, ?_⟩, rfl, rfl⟩
  · rcases List.mem_append.1 he with he | he
    · exact h.own e he
    · rw [List.mem_singleton.1 he]
  · rw [hlen]
    exact Nat.le_succ_of_le h.known
  · exact (Finmap.lookup_insert_of_ne _ (by decide)).trans h.matched
  · rw [hlen]
    exact Finmap.lookup_insert _

/-- What a leader has asked for does not change that it leads. -/
theorem rest (h : self.Leads L c m seq) (out : List Effect) : { self with out }.Leads L c m seq :=
  ⟨⟨h.id, h.alive, h.term, h.voters, h.bugs, h.config, h.base, h.log, h.own, h.commit, h.applied, h.known, h.timer⟩, h.role, h.next,
    h.matched, h.whole⟩

/-- A new command is appended to the log, and sent. -/
theorem clientCommand (h : self.Leads L c m seq) (h1 : 1 ≤ m) (hm : m ≤ L.length)
    (hs : (Command.decode command).isStructured = true)
    (hnew : self.clientIndex.getD (Command.decode command).clientId (-1) < (Command.decode command).reqId) :
    ∃ after, self.clientCommand command = .ok (after, true) ∧ after.Leads (L ++ [⟨1, command⟩]) c m seq ∧
      after.clientIndex = self.clientIndex.insert (Command.decode command).clientId (Command.decode command).reqId ∧
      after.out = self.out ++ [.record (.append (L.length + 1) 1 command),
        .send 1 (.appendEntries ⟨1, 0, m, 1, L.drop m ++ [⟨1, command⟩], c⟩)] := by
  obtain ⟨hleads, hindex, hout⟩ := h.proposed hs
  have hlen : (L ++ [(⟨1, command⟩ : Entry)]).length = L.length + 1 := List.length_append
  have hsent := hleads.broadcastHeartbeats h1 (by omega)
  rw [List.drop_append_of_le_length hm] at hsent
  have hrun : self.clientCommand command = (self.proposed command).broadcastHeartbeats >>= fun self => pure (self, true) := by
    have hlead : ¬(self.role ≠ .leader ∨ self.alive = false) := by simp [h.role, h.alive]
    have hfresh : ¬((Command.decode command).isStructured = true ∧
        (Command.decode command).reqId ≤ self.clientIndex.getD (Command.decode command).clientId (-1)) := by
      rw [not_and, not_le]
      exact fun _ => hnew
    rw [RaftNode.clientCommand, if_neg hlead]
    simp only [if_neg hfresh]
    rfl
  rw [hrun, hsent]
  refine ⟨_, rfl, hleads.rest _, hindex, ?_⟩
  simp [RaftNode.send, RaftNode.emit, hout]

/-- The heartbeat timer makes the leader send, and is armed again. -/
theorem onHeartbeat (h : self.Leads L c m seq) (h1 : 1 ≤ m) (hm : m ≤ L.length) :
    ∃ after, self.onHeartbeat seq = .ok after ∧ after.Leads L c m (seq + 1) ∧ after.clientIndex = self.clientIndex ∧
      after.out = self.out ++ [.send 1 (.appendEntries ⟨1, 0, m, 1, L.drop m, c⟩), .schedule .heartbeat (seq + 1)] := by
  have hlive : ¬(self.alive = false ∨ seq ≠ self.timerSeq ∨ self.role ≠ .leader) := by simp [h.role, h.alive, h.timer]
  rw [RaftNode.onHeartbeat, if_neg hlive, h.broadcastHeartbeats h1 hm]
  refine ⟨_, rfl, ?_, rfl, ?_⟩
  · exact ⟨⟨h.id, h.alive, h.term, h.voters, h.bugs, h.config, h.base, h.log, h.own, h.commit, h.applied, h.known,
      congrArg (· + 1) h.timer⟩, h.role, h.next, h.matched, h.whole⟩
  · simp [armHeartbeatTimer, RaftNode.send, RaftNode.emit, h.timer]

/-- A leader whose follower has all of the log commits all of it. -/
theorem advanceCommit (h : self.Leads L c L.length seq) (h1 : 1 ≤ L.length) : ∃ after es, self.advanceCommit = .ok after ∧
    after.Leads L L.length L.length seq ∧ after.clientIndex = self.clientIndex ∧ after.out = self.out ++ es ∧ (∀ e ∈ es, e.Tells) ∧
    notifications es = ((L.drop c).map (·.command)).zip
      (History.results KVStateMachine.apply self.kv ((L.drop c).map fun e => Command.decode e.command)) := by
  obtain ⟨es, applied, kv, htell, hnot, hset⟩ := h.setCommitIndex
  have hserves := h.caughtUp applied kv (self.out ++ es)
  rcases Nat.lt_or_ge c L.length with hc | hc
  · obtain ⟨k, hk⟩ : ∃ k, (self.lastLogIndex - self.commitIndex).toNat = k + 1 := by
      refine ⟨L.length - c - 1, ?_⟩
      rw [h.lastLogIndex, h.commit]
      omega
    have hvotes : self.voters.countP (fun v => (L.length : Int) ≤ self.matchIndex.getD v 0) * 2 > self.voters.length := by
      have h0 : (L.length : Int) ≤ self.matchIndex.getD 0 0 := by
        rw [Dict.getD, h.whole, Option.getD_some]
      have h1 : (L.length : Int) ≤ self.matchIndex.getD 1 0 := by
        rw [Dict.getD, h.matched, Option.getD_some]
      rw [h.voters]
      simp [h0, h1]
    have hterm : ¬((1 : Int) ≠ self.term ∧ self.bugs.dropCommitTermGuard = false) := by simp [h.term]
    rw [RaftNode.advanceCommit, hk, h.lastLogIndex, RaftNode.advanceLoop, h.termAt h1 le_rfl]
    simp only [bind, Except.bind, if_neg hterm, if_pos hvotes, hset]
    exact ⟨_, es, rfl, ⟨⟨hserves.id, hserves.alive, hserves.term, hserves.voters, hserves.bugs, hserves.config, hserves.base, hserves.log,
      hserves.own, hserves.commit, hserves.applied, hserves.known, hserves.timer⟩, h.role, h.next, h.matched, h.whole⟩, rfl, rfl, htell, hnot⟩
  · have hnone : (self.lastLogIndex - self.commitIndex).toNat = 0 := by
      rw [h.lastLogIndex, h.commit]
      omega
    have hsame : self.setCommitIndex L.length = self.advanceCommit := by
      rw [RaftNode.advanceCommit, hnone, RaftNode.setCommitIndex, if_pos (by rw [h.commit]; omega)]
      rfl
    rw [← hsame, hset]
    exact ⟨_, es, rfl, ⟨hserves, h.role, h.next, h.matched, h.whole⟩, rfl, rfl, htell, hnot⟩

/-- Told that the follower has all of the log, the leader commits all of it. -/
theorem acknowledged (h : self.Leads L c m seq) (h1 : 1 ≤ L.length) (hm : m ≤ L.length) :
    ∃ after es, self.handle (.appendReply ⟨1, 1, true, L.length⟩) = .ok after ∧ after.Leads L L.length L.length seq ∧
      after.clientIndex = self.clientIndex ∧ after.out = self.out ++ es ∧ (∀ e ∈ es, e.Tells) ∧
      notifications es = ((L.drop c).map (·.command)).zip
        (History.results KVStateMachine.apply self.kv ((L.drop c).map fun e => Command.decode e.command)) := by
  have hleads : { self with
      matchIndex := self.matchIndex.insert 1 (L.length : Int)
      nextIndex := self.nextIndex.insert 1 ((L.length : Int) + 1) }.Leads L c L.length seq :=
    ⟨⟨h.id, h.alive, h.term, h.voters, h.bugs, h.config, h.base, h.log, h.own, h.commit, h.applied, h.known, h.timer⟩, h.role,
      Finmap.lookup_insert _, Finmap.lookup_insert _, (Finmap.lookup_insert_of_ne _ (by decide)).trans h.whole⟩
  have hmatch : max (self.matchIndex.getD 1 0) (L.length : Int) = L.length := by
    rw [Dict.getD, h.matched, Option.getD_some]
    omega
  have hnext : max (self.nextIndex.getD 1 1) ((L.length : Int) + 1) = L.length + 1 := by
    rw [Dict.getD, h.next, Option.getD_some]
    omega
  obtain ⟨after, es, hadvance, hall⟩ := hleads.advanceCommit h1
  refine ⟨after, es, ?_, hall⟩
  rw [← hadvance]
  simp [RaftNode.handle, RaftNode.onAppendReply, h.alive, h.role, h.term, hmatch, hnext]

end Leads

/-! ## The follower -/

namespace Tracks

/-- What a follower has asked for does not change that it follows. -/
theorem rest (h : self.Tracks L c seq) (out : List Effect) : { self with out }.Tracks L c seq :=
  ⟨⟨h.id, h.alive, h.term, h.voters, h.bugs, h.config, h.base, h.log, h.own, h.commit, h.applied, h.known, h.timer⟩, h.role⟩

/-- Entries that are no configurations are appended. -/
theorem mergeEntries (h : self.Tracks L c seq) (hnew : ∀ e ∈ entries, e.term = 1 ∧ decodeConfig e.command = none) :
    ∃ logVersion, self.mergeEntries L.length entries = .ok { self with log := L ++ entries, logVersion } ∧
      { self with log := L ++ entries, logVersion }.Tracks (L ++ entries) c seq := by
  induction entries generalizing self L with
  | nil =>
    refine ⟨self.logVersion, ?_, ?_⟩
    · rw [List.append_nil, ← h.log]
      rfl
    · rw [List.append_nil, ← h.log]
      rwa [← h.log] at h
  | cons e entries ih =>
    obtain ⟨hterm, hconfig⟩ := hnew e List.mem_cons_self
    have hlast := h.lastLogIndex
    have hadd : self.appendReplicated ((L.length : Int) + 1) e = { self with log := L ++ [e], logVersion := self.logVersion + 1 } := by
      rw [RaftNode.appendReplicated, hconfig, h.log]
    have hgrown : { self with log := L ++ [e], logVersion := self.logVersion + 1 }.Tracks (L ++ [e]) c seq := by
      refine ⟨⟨h.id, h.alive, h.term, h.voters, h.bugs, h.config, h.base, rfl, fun x hx => ?_, h.commit, h.applied, ?_, h.timer⟩, h.role⟩
      · rcases List.mem_append.1 hx with hx | hx
        · exact h.own x hx
        · rw [List.mem_singleton.1 hx]
          exact hterm
      · rw [List.length_append]
        exact Nat.le_add_right_of_le h.known
    obtain ⟨logVersion, hmerge, htracks⟩ := ih hgrown fun x hx => hnew x (List.mem_cons_of_mem _ hx)
    rw [List.append_assoc, List.singleton_append] at hmerge htracks
    refine ⟨logVersion, ?_, htracks⟩
    rw [RaftNode.mergeEntries, if_neg (by rw [hlast]; omega), hadd]
    rw [List.length_append, List.length_singleton] at hmerge
    exact hmerge

/-- A follower commits what the leader has committed, which is what it has committed itself or all of its log. -/
theorem commits (h : self.Tracks L c seq) {d : ℕ} (hd : d = c ∨ d = L.length) : ∃ after es, after.Tracks L d seq ∧
    after.out = self.out ++ es ∧ (∀ e ∈ es, e.Tells) ∧ (d = c → es = []) ∧
    (if (d : Int) > self.commitIndex then self.setCommitIndex (max self.commitIndex (min (d : Int) L.length)) else .ok self) = .ok after := by
  by_cases hc : c < d
  · have hall : d = L.length := hd.resolve_left (by omega)
    obtain ⟨es, applied, kv, htell, -, hset⟩ := h.setCommitIndex
    have hindex : max self.commitIndex (min (d : Int) L.length) = L.length := by
      rw [h.commit]
      omega
    rw [if_pos (by rw [h.commit]; omega), hindex, hset, hall]
    exact ⟨_, es, ⟨h.caughtUp applied kv (self.out ++ es), h.role⟩, rfl, htell, fun hsame => absurd hsame (by omega), rfl⟩
  · have hsame : d = c := by
      have hknown := h.known
      omega
    rw [if_neg (by rw [h.commit]; omega), hsame]
    exact ⟨self, [], h, (List.append_nil _).symm, by simp, fun _ => rfl, rfl⟩

/-- What a follower takes over of what the leader sends it: what is behind its log is appended, and with it all is committed or nothing
more is. -/
theorem handle (h : self.Tracks L c seq) (h1 : 1 ≤ L.length) (hnew : ∀ e ∈ entries, e.term = 1 ∧ decodeConfig e.command = none) {d : ℕ}
    (hd : d = c ∨ d = (L ++ entries).length) :
    ∃ after es, self.handle (.appendEntries ⟨1, 0, L.length, 1, entries, d⟩) = .ok after ∧ after.Tracks (L ++ entries) d (seq + 1) ∧
      after.out = self.out ++ [.schedule .election (seq + 1)] ++ es ++ [.send 0 (.appendReply ⟨1, 1, true, (L ++ entries).length⟩)] ∧
      (∀ e ∈ es, e.Tells) ∧ (d = c → es = []) := by
  obtain ⟨heard, hheard⟩ : ∃ heard : RaftNode, heard = { self with
      leaderId := some 0, timerSeq := seq + 1, out := self.out ++ [.schedule .election (seq + 1)] } := ⟨_, rfl⟩
  have htracks : heard.Tracks L c (seq + 1) := by
    rw [hheard]
    exact ⟨⟨h.id, h.alive, h.term, h.voters, h.bugs, h.config, h.base, h.log, h.own, h.commit, h.applied, h.known, rfl⟩, h.role⟩
  obtain ⟨logVersion, hmerge, hmerged⟩ := htracks.mergeEntries hnew
  obtain ⟨merged, hm⟩ : ∃ merged : RaftNode, merged = { heard with log := L ++ entries, logVersion } := ⟨_, rfl⟩
  rw [← hm] at hmerge hmerged
  have hout : merged.out = self.out ++ [.schedule .election (seq + 1)] := by
    rw [hm, hheard]
  obtain ⟨after, es, hafter, hes, htell, hnone, hset⟩ := hmerged.commits hd
  rw [List.length_append, Int.natCast_add] at hset
  have hhandle : self.handle (.appendEntries ⟨1, 0, L.length, 1, entries, d⟩) =
      .ok (after.send 0 (.appendReply ⟨1, 1, true, (L ++ entries).length⟩)) := by
    have harm : ({ self with leaderId := some 0 } : RaftNode).armElectionTimer = heard := by
      rw [hheard]
      simp [armElectionTimer, RaftNode.emit, h.timer]
    have hskip : heard.skipCovered ⟨1, 0, L.length, 1, entries, d⟩ = .ok ((L.length : Int), 1, entries) := by
      rw [RaftNode.skipCovered, if_neg (by rw [htracks.base]; simp)]
      rfl
    have hconsistent : heard.inconsistent L.length 1 = .ok false := by
      rw [RaftNode.inconsistent, htracks.lastLogIndex, if_neg (lt_irrefl _), htracks.termAt h1 le_rfl]
      simp [bind, Except.bind, pure, Except.pure]
    have hregression : merged.bugs.allowCommitRegression = false := by rw [hmerged.bugs]; rfl
    have hterm : ¬(1 : Int) > self.term ∧ ¬(1 : Int) < self.term := by rw [h.term]; decide
    rw [RaftNode.handle, if_neg (by simp [h.alive])]
    simp only [RaftNode.onAppendEntries, if_neg hterm.1, if_neg hterm.2, if_neg (not_not.2 h.role), harm, hskip, bind, Except.bind,
      hconsistent, hmerge, hregression, Bool.false_eq_true, if_false]
    have hreply : (⟨1, 1, true, ((L ++ entries).length : Int)⟩ : AppendReply) =
        ⟨after.term, after.id, true, (L.length : Int) + entries.length⟩ := by
      rw [hafter.term, hafter.id, List.length_append, Int.natCast_add]
    rw [hreply]
    by_cases hgt : (d : Int) > merged.commitIndex
    · rw [if_pos hgt] at hset ⊢
      rw [hset]
      rfl
    · rw [if_neg hgt] at hset ⊢
      cases hset
      rfl
  refine ⟨_, es, hhandle, hafter.rest _, ?_, htell, hnone⟩
  rw [← hout, ← hes]
  rfl

/-- A timer that was armed again is stale. -/
theorem onElectionTimeout (h : self.Tracks L c seq) {old : Int} (hold : old ≠ seq) : self.onElectionTimeout old = .ok self := by
  rw [RaftNode.onElectionTimeout, if_pos (Or.inr (Or.inl (by rwa [h.timer])))]

end Tracks
end RaftNode
end DeterministicRaft
