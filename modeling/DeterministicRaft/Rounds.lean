import DeterministicRaft.Undisturbed

/-!
# The rounds of two servers that nothing disturbs

A heartbeat and its answer, a command and its answer, a stale timer: each takes a few steps and leads to where the next one starts. The
run goes on so for as long as it is asked for, and every 100 ms an operation is complete.
-/

namespace DeterministicRaft

open RaftNode

namespace Harness

variable {R : RandomSource} {self : Harness brisk} {now t : Int} {rest : List (Int × Job)} {seq : Int} {k : ℕ}

/-- The moment some steps later, if each of them finds an event. -/
def ahead (settings : Settings) : ℕ → Harness R → Option (Harness R)
  | 0, self => some self
  | n + 1, self =>
    match self.step settings with
    | .ok (true, mid) => ahead settings n mid
    | _ => none

/-- Some steps of a run, each of which finds an event. -/
def After (settings : Settings) (n : ℕ) (self after : Harness R) : Prop := ahead settings n self = some after

/-- A step, and the ones after it. -/
theorem After.cons {settings : Settings} {n : ℕ} {self mid after : Harness R} (hstep : self.step settings = .ok (true, mid))
    (h : After settings n mid after) : After settings (n + 1) self after := by
  unfold After ahead
  rw [hstep]
  exact h

/-- The first step, and the others. -/
theorem After.uncons {settings : Settings} {n : ℕ} {self after : Harness R} (h : After settings (n + 1) self after) :
    ∃ mid, self.step settings = .ok (true, mid) ∧ After settings n mid after := by
  unfold After ahead at h
  split at h
  · rename_i mid hstep
    exact ⟨mid, hstep, h⟩
  · cases h

/-- Steps after others. -/
theorem After.trans {settings : Settings} {m n : ℕ} {self mid after : Harness R} (h : After settings n self mid)
    (h' : After settings m mid after) : After settings (n + m) self after := by
  induction n generalizing self with
  | zero =>
    cases h
    rwa [Nat.zero_add]
  | succ n ih =>
    obtain ⟨next, hstep, hrest⟩ := h.uncons
    rw [Nat.add_right_comm]
    exact .cons hstep (ih hrest)

/-- The nodes after a message to the follower and its answer. -/
theorem nodes_answered (cluster : Cluster) (follower leader : RaftNode) :
    ((cluster.tick.performed undisturbed.network 1 follower).tick.performed undisturbed.network 0 leader).world.nodes 0 =
        { leader with out := [] } ∧
      ((cluster.tick.performed undisturbed.network 1 follower).tick.performed undisturbed.network 0 leader).world.nodes 1 =
        { follower with out := [] } := by
  refine ⟨Cluster.nodes_performed _ _ _, ?_⟩
  rw [Cluster.nodes_performed_of_ne _ (by decide)]
  exact Cluster.nodes_performed _ _ _

/-- Entries that the leader has sent arrive, and so does the follower's answer. -/
theorem At.answered {F entries : List Entry} {c c' d m : ℕ} {ls fs : Int}
    (h : self.At now ((t, .message 0 1 (.appendEntries ⟨1, 0, F.length, 1, entries, d⟩)) :: rest)) (hlt : ∀ x ∈ rest, t + 1 < x.1)
    (hl : (self.cluster.world.nodes 0).Leads (F ++ entries) c m ls) (hm : m ≤ (F ++ entries).length)
    (hf : (self.cluster.world.nodes 1).Tracks F c' fs) (h1 : 1 ≤ F.length)
    (hnew : ∀ e ∈ entries, e.term = 1 ∧ decodeConfig e.command = none) (hd : d = c' ∨ d = (F ++ entries).length)
    (hrested : (self.cluster.world.nodes 0).out = [] ∧ (self.cluster.world.nodes 1).out = []) :
    ∃ after follower leader, After undisturbed 2 self after ∧
      after.cluster = (self.cluster.tick.performed undisturbed.network 1 follower).tick.performed undisturbed.network 0 leader ∧
      after.At (t + 1) ((t + 155, .timer 1 .election (fs + 1)) :: rest) ∧ follower.Tracks (F ++ entries) d (fs + 1) ∧
      (d = c' → notifications follower.out = []) ∧ leader.Leads (F ++ entries) (F ++ entries).length (F ++ entries).length ls ∧
      leader.clientIndex = (self.cluster.world.nodes 0).clientIndex ∧
      notifications leader.out = (((F ++ entries).drop c).map (·.command)).zip
        (History.results KVStateMachine.apply (self.cluster.world.nodes 0).kv
          (((F ++ entries).drop c).map fun e => Command.decode e.command)) := by
  obtain ⟨follower, es, hhandle, htracks, hout, htell, hnone⟩ := hf.handle h1 hnew hd
  rw [hrested.2, List.nil_append] at hout
  obtain ⟨mid, hstep, hcluster, hat⟩ := h.step_message (fun x hx => by have := hlt x hx; omega) (by decide) (by decide) hhandle
    htracks.config
  have hl' : mid.cluster.world.nodes 0 = self.cluster.world.nodes 0 := by
    rw [hcluster, Cluster.nodes_performed_of_ne _ (by decide)]
    rfl
  have hdue : mid.At t ((t + 1, .message 1 0 (.appendReply ⟨1, 1, true, (F ++ entries).length⟩)) ::
      (t + 155, .timer 1 .election (fs + 1)) :: rest) := by
    rw [hout, List.filterMap_append, List.filterMap_append, asked_tells htell] at hat
    exact hat.perm (List.Perm.swap _ _ _)
  obtain ⟨leader, es', hreply, hleads, hindex, hout', htell', hnot⟩ := hl.acknowledged (by rw [List.length_append]; omega) hm
  rw [hrested.1, List.nil_append] at hout'
  obtain ⟨after, hstep', hcluster', hat'⟩ := hdue.step_message (fun x hx => by
    rcases List.mem_cons.1 hx with rfl | hx
    · simp only
      omega
    · exact hlt x hx) (by decide) (by decide) (hl' ▸ hreply) hleads.config
  rw [hout', asked_tells htell', List.nil_append] at hat'
  refine ⟨after, follower, leader, After.cons hstep (After.cons hstep' rfl), by rw [hcluster', hcluster], hat', htracks, fun hsame => ?_, hleads,
    hindex, hout' ▸ hnot⟩
  rw [hout, hnone hsame]
  rfl

/-- The two nodes have the same log, of which the leader has committed all, and no client waits. -/
structure Paced (moment : Harness brisk) (now : Int) (jobs : List (Int × Job)) (L : List Entry) (c : ℕ) (ls fs : Int) (k : ℕ) : Prop where
  due : moment.At now jobs
  leads : (moment.cluster.world.nodes 0).Leads L L.length L.length ls
  tracks : (moment.cluster.world.nodes 1).Tracks L c fs
  rested : (moment.cluster.world.nodes 0).out = [] ∧ (moment.cluster.world.nodes 1).out = []
  log : 1 ≤ L.length
  idle : moment.cluster.Idle k
  fresh : ∀ cid ∈ [(0 : Int), 1, 2], (moment.cluster.world.nodes 0).clientIndex.getD cid (-1) < moment.cluster.nextReq cid

namespace Paced

variable {L : List Entry} {c : ℕ} {ls fs : Int}

/-- A stale election timer changes nothing. -/
theorem stale (h : self.Paced now ((t, .timer 1 .election seq) :: rest) L c ls fs k) (hlt : ∀ x ∈ rest, t < x.1) (hne : seq ≠ fs) :
    ∃ after, After undisturbed 1 self after ∧ after.Paced t rest L c ls fs k := by
  obtain ⟨after, hstep, hcluster, hat⟩ := h.due.step_timer hlt (h.tracks.onElectionTimeout hne) h.tracks.config
  obtain ⟨hidle, hnext⟩ := h.idle.tick.performed undisturbed.network 1 (self.cluster.world.nodes 1)
  rw [h.rested.2] at hat
  have h0 : after.cluster.world.nodes 0 = self.cluster.world.nodes 0 := by
    rw [hcluster, Cluster.nodes_performed_of_ne _ (by decide)]
    rfl
  have h1 : after.cluster.world.nodes 1 = self.cluster.world.nodes 1 := by
    rw [hcluster, Cluster.nodes_performed, ← h.rested.2]
  refine ⟨after, After.cons hstep rfl, hat, h0 ▸ h.leads, h1 ▸ h.tracks, ?_, h.log, hcluster ▸ hidle, ?_⟩
  · rw [h0, h1]
    exact h.rested
  · rw [h0, hcluster, hnext]
    exact h.fresh

/-- A heartbeat, and the answer to it: the follower commits what the leader has committed. -/
theorem heartbeat (h : self.Paced now ((t, .timer 0 .heartbeat ls) :: rest) L c ls fs k) (hlt : ∀ x ∈ rest, t + 2 < x.1) :
    ∃ after, After undisturbed 3 self after ∧ after.Paced (t + 2)
      ((t + 156, .timer 1 .election (fs + 1)) :: (t + 50, .timer 0 .heartbeat (ls + 1)) :: rest) L L.length (ls + 1) (fs + 1) k := by
  obtain ⟨node, hbeat, hleads, hindex, hout⟩ := h.leads.onHeartbeat h.log le_rfl
  rw [h.rested.1, List.nil_append, List.drop_length] at hout
  obtain ⟨mid, hstep, hcluster, hat⟩ := h.due.step_timer (fun x hx => by have := hlt x hx; omega) hbeat hleads.config
  obtain ⟨hidle, hnext⟩ := h.idle.tick.performed undisturbed.network 0 node
  have h0 : mid.cluster.world.nodes 0 = { node with out := [] } := by
    rw [hcluster, Cluster.nodes_performed]
  have h1 : mid.cluster.world.nodes 1 = self.cluster.world.nodes 1 := by
    rw [hcluster, Cluster.nodes_performed_of_ne _ (by decide)]
    rfl
  rw [hout] at hat
  have hdue : mid.At t ((t + 1, .message 0 1 (.appendEntries ⟨1, 0, L.length, 1, [], L.length⟩)) ::
      (t + 50, .timer 0 .heartbeat (ls + 1)) :: rest) := hat
  have hleads' : (mid.cluster.world.nodes 0).Leads (L ++ []) L.length L.length (ls + 1) := by
    rw [List.append_nil, h0]
    exact hleads.rest []
  have hlater : ∀ x ∈ (t + 50, Job.timer 0 .heartbeat (ls + 1)) :: rest, t + 1 + 1 < x.1 := by
    refine List.forall_mem_cons.2 ⟨by simp only; omega, fun x hx => ?_⟩
    have := hlt x hx
    omega
  obtain ⟨after, follower, leader, hgoes, hcluster', hat', htracks, -, hleads'', hindex', -⟩ := hdue.answered hlater hleads'
    (by rw [List.append_nil]) (h1 ▸ h.tracks) h.log (by simp) (Or.inr (by rw [List.append_nil])) ⟨by rw [h0], by rw [h1]; exact h.rested.2⟩
  rw [List.append_nil] at htracks hleads''
  rw [← hcluster] at hidle hnext
  obtain ⟨hidle', hnext'⟩ := hidle.tick.performed undisturbed.network 1 follower
  obtain ⟨hidle'', hnext''⟩ := hidle'.tick.performed undisturbed.network 0 leader
  obtain ⟨h0', h1'⟩ := nodes_answered mid.cluster follower leader
  rw [← hcluster'] at h0' h1'
  have htimes : t + 1 + 1 = t + 2 ∧ t + 1 + 155 = t + 156 := by omega
  rw [htimes.1, htimes.2] at hat'
  refine ⟨after, After.cons hstep hgoes, hat', h0' ▸ hleads''.rest [], h1' ▸ htracks.rest [], ⟨by rw [h0'], by rw [h1']⟩, h.log,
    hcluster' ▸ hidle'', fun cid hcid => ?_⟩
  have hfresh := h.fresh cid hcid
  have hsame : after.cluster.nextReq = self.cluster.nextReq := by
    rw [hcluster', hnext'']
    exact hnext'.trans hnext
  rw [hsame, h0']
  show leader.clientIndex.getD cid (-1) < _
  rw [hindex', h0]
  show node.clientIndex.getD cid (-1) < _
  rw [hindex]
  exact hfresh

/-- The next client invokes an operation, at the leader. -/
theorem submitted (h : self.Paced now ((t, .clientTick) :: rest) L c ls fs k) {cid : Int}
    (hcid : cid = (self.cluster.clientTurn % WORKLOAD_CLIENTS : ℕ)) :
    ∃ node, self.cluster.tick.clientTick undisturbed.network 0 =
        .ok (({ self.cluster.tick with clientTurn := self.cluster.clientTurn + 1 }.begin undisturbed.network cid).performed
          undisturbed.network 0 node) ∧
      node.Leads (L ++ [⟨1, request cid (self.cluster.nextReq cid)⟩]) L.length L.length ls ∧
      node.clientIndex = (self.cluster.world.nodes 0).clientIndex.insert cid (self.cluster.nextReq cid) ∧
      notifications node.out = [] ∧
      node.out.filterMap (fun e => asked t (0, e)) =
        [(t + 1, .message 0 1 (.appendEntries ⟨1, 0, L.length, 1, [⟨1, request cid (self.cluster.nextReq cid)⟩], L.length⟩))] := by
  have hmod : cid ∈ [(0 : Int), 1, 2] := by
    rw [hcid]
    have hlt : self.cluster.clientTurn % WORKLOAD_CLIENTS < 3 := Nat.mod_lt _ (by decide)
    generalize self.cluster.clientTurn % WORKLOAD_CLIENTS = r at hlt
    simp only [List.mem_cons, List.not_mem_nil, or_false]
    omega
  have hdecode := decode_request cid (self.cluster.nextReq cid)
  have hpos : 0 ≤ cid := by
    rw [hcid]
    exact Int.natCast_nonneg _
  obtain ⟨node, hcommand, hleads, hindex, hout⟩ := h.leads.clientCommand h.log le_rfl
    (by rw [hdecode]; exact isStructured_clientWorkload hpos _)
    (by rw [hdecode, clientId_clientWorkload, reqId_clientWorkload]; exact h.fresh cid hmod)
  rw [hdecode, clientId_clientWorkload, reqId_clientWorkload] at hindex
  rw [h.rested.1, List.nil_append, List.drop_length, List.nil_append] at hout
  refine ⟨node, ?_, hleads, hindex, by rw [hout]; rfl, by rw [hout]; rfl⟩
  obtain ⟨begun, hb⟩ : ∃ begun, begun =
      { self.cluster.tick with clientTurn := self.cluster.clientTurn + 1 }.begin undisturbed.network cid := ⟨_, rfl⟩
  have hnode : begun.world.nodes 0 = self.cluster.world.nodes 0 := by
    rw [hb, Cluster.begin_world]
    rfl
  have hact : begun.act undisturbed.network (.clientCommand 0 (request cid (self.cluster.nextReq cid))) =
      .ok (begun.performed undisturbed.network 0 node) := by
    refine @Cluster.act_eq _ begun _ 0 (.clientCommand (request cid (self.cluster.nextReq cid))) node rfl ?_
    rw [hnode]
    show Prod.fst <$> (self.cluster.world.nodes 0).clientCommand _ = _
    rw [hcommand]
    rfl
  have hsubmit : begun.submit undisturbed.network 0 (request cid (self.cluster.nextReq cid)) =
      .ok (begun.performed undisturbed.network 0 node) := by
    have hstale : ¬((begun.world.nodes 0).bugs.staleLocalReads = true ∧
        (Command.decode (request cid (self.cluster.nextReq cid))).op = GET) := by
      rw [hnode, h.leads.bugs]
      exact fun hbug => Bool.false_ne_true hbug.1
    have hread : ¬(undisturbed.network.readIndex = true ∧
        (Command.decode (request cid (self.cluster.nextReq cid))).op = GET) := fun hread => Bool.false_ne_true hread.1
    unfold Cluster.submit
    simp only
    rw [if_pos (by rw [hnode]; exact ⟨h.leads.alive, h.leads.role⟩), if_neg hstale, if_neg hread]
    exact hact
  rw [← hb, ← hsubmit, hb]
  unfold Cluster.clientTick
  simp only
  have hnone : self.cluster.tick.outstanding.lookup ((self.cluster.tick.clientTurn % WORKLOAD_CLIENTS : ℕ) : Int) = none := by
    rw [h.idle.tick.outstanding]
    exact Finmap.lookup_empty _
  rw [hnone, hcid]
  rfl

/-- A command of the next client, and the answer to it: the operation is complete. -/
theorem command (h : self.Paced now ((t, .clientTick) :: rest) L L.length ls fs k) (hlt : ∀ x ∈ rest, t + 2 < x.1) :
    ∃ after e, After undisturbed 3 self after ∧ after.Paced (t + 2)
      ((t + 156, .timer 1 .election (fs + 1)) :: (t + 100, .clientTick) :: rest) (L ++ [e]) L.length ls (fs + 1) (k + 1) := by
  obtain ⟨cid, hcid⟩ : ∃ cid : Int, cid = (self.cluster.clientTurn % WORKLOAD_CLIENTS : ℕ) := ⟨_, rfl⟩
  obtain ⟨node, htick, hleads, hindex, hnot, hasked⟩ := h.submitted hcid
  have hpos : 0 ≤ cid := by
    rw [hcid]
    exact Int.natCast_nonneg _
  obtain ⟨begun, hb⟩ : ∃ begun, begun =
      { self.cluster.tick with clientTurn := self.cluster.clientTurn + 1 }.begin undisturbed.network cid := ⟨_, rfl⟩
  rw [← hb] at htick
  have hbegun : begun.Waits cid k ∧ begun.nextReq = self.cluster.nextReq ∧ begun.world = self.cluster.world := by
    rw [hb]
    refine ⟨?_, Cluster.begin_nextReq _ _, Cluster.begin_world _ _⟩
    exact @Cluster.Idle.begin undisturbed.network { self.cluster.tick with clientTurn := self.cluster.clientTurn + 1 } k cid
      ⟨h.idle.outstanding, h.idle.pending, h.idle.rows, h.idle.completed⟩ hpos rfl
  obtain ⟨hwaits, hreq, hworld⟩ := hbegun
  have hrun := Cluster.world_performed undisturbed.network begun 0 node
  rw [hworld] at hrun
  obtain ⟨mid, hstep, hcluster, hat⟩ := @At.step_clientTick self now t rest 0 h.due (fun x hx => by have := hlt x hx; omega) _ node.out
    htick (by rw [hrun]) (by rw [hrun]; simp [hleads.config])
  rw [hasked] at hat
  obtain ⟨hwaits', hreq'⟩ := hwaits.performed_silent undisturbed.network 0 hnot
  have h0 : mid.cluster.world.nodes 0 = { node with out := [] } := by
    rw [hcluster, Cluster.nodes_performed]
  have h1 : mid.cluster.world.nodes 1 = self.cluster.world.nodes 1 := by
    rw [hcluster, Cluster.nodes_performed_of_ne _ (by decide), hworld]
  have hlater : ∀ x ∈ (t + 100, Job.clientTick) :: rest, t + 1 + 1 < x.1 := by
    refine List.forall_mem_cons.2 ⟨by simp only; omega, fun x hx => ?_⟩
    have := hlt x hx
    omega
  obtain ⟨after, follower, leader, hgoes, hcluster', hat', htracks, hsilent, hleads', hindex', hnot'⟩ :=
    (hat.perm (List.Perm.swap _ _ _)).answered hlater (h0 ▸ hleads.rest []) (by simp) (h1 ▸ h.tracks) h.log
      (fun e he => by rw [List.mem_singleton.1 he]; exact ⟨rfl, decodeConfig_encode _⟩) (Or.inl rfl) ⟨by rw [h0], by rw [h1]; exact h.rested.2⟩
  rw [List.drop_left] at hnot'
  have hmid : mid.cluster.tick.Waits cid k ∧ mid.cluster.tick.nextReq = self.cluster.nextReq := by
    rw [hcluster]
    exact ⟨hwaits'.tick, hreq'.trans hreq⟩
  obtain ⟨hwaits'', hreq''⟩ := hmid.1.performed_silent undisturbed.network 1 (hsilent rfl)
  have hbetween := hreq''.trans hmid.2
  obtain ⟨hidle, hnext⟩ := hwaits''.tick.performed (show undisturbed.network.recordHistory = true from rfl) 0 (by
    rw [hnot']
    show _ = [(request cid ((mid.cluster.tick.performed undisturbed.network 1 follower).nextReq cid), _)]
    rw [hbetween]
    rfl)
  have hnext : after.cluster.nextReq = Function.update self.cluster.nextReq cid (self.cluster.nextReq cid + 1) := by
    rw [hcluster', hnext]
    show Function.update (mid.cluster.tick.performed undisturbed.network 1 follower).nextReq cid
      ((mid.cluster.tick.performed undisturbed.network 1 follower).nextReq cid + 1) = _
    rw [hbetween]
  obtain ⟨h0', h1'⟩ := nodes_answered mid.cluster follower leader
  rw [← hcluster'] at h0' h1'
  have htimes : t + 1 + 1 = t + 2 ∧ t + 1 + 155 = t + 156 := by omega
  rw [htimes.1, htimes.2] at hat'
  refine ⟨after, _, After.cons hstep hgoes, hat', h0' ▸ hleads'.rest [], h1' ▸ htracks.rest [], ⟨by rw [h0'], by rw [h1']⟩,
    by rw [List.length_append]; exact Nat.le_add_left _ _, hcluster' ▸ hidle, fun x hx => ?_⟩
  have hlead : (after.cluster.world.nodes 0).clientIndex =
      (self.cluster.world.nodes 0).clientIndex.insert cid (self.cluster.nextReq cid) := by
    rw [h0']
    exact hindex'.trans ((congrArg RaftNode.clientIndex h0).trans hindex)
  rw [hlead, hnext, Dict.getD]
  by_cases hx' : x = cid
  · rw [hx', Finmap.lookup_insert, Function.update_self, Option.getD_some]
    omega
  · rw [Finmap.lookup_insert_of_ne _ hx', Function.update_of_ne hx']
    exact h.fresh x hx

/-- Any of what is due can be put first. -/
theorem front {jobs : List (Int × Job)} (h : self.Paced now jobs L c ls fs k) (i : ℕ) (hi : i < jobs.length) :
    self.Paced now (jobs[i] :: jobs.eraseIdx i) L c ls fs k :=
  { h with due := h.due.perm (List.getElem_cons_eraseIdx_perm hi).symm }

end Paced

/-! ## The period -/

/-- A client acts at `t`. Due besides are a heartbeat and four election timers, of which only the last is not stale. -/
def Periodic (moment : Harness brisk) (t : Int) (k : ℕ) : Prop :=
  ∃ (now : Int) (L : List Entry) (ls fs s1 s2 s3 : Int), moment.Paced now
    [(t, .clientTick), (t + 12, .timer 0 .heartbeat ls), (t + 18, .timer 1 .election s1), (t + 56, .timer 1 .election s2),
      (t + 68, .timer 1 .election s3), (t + 118, .timer 1 .election fs)] L L.length ls fs k ∧ s1 < fs ∧ s2 < fs ∧ s3 < fs

/-- After twelve steps and 100 ms one more operation is complete, and all is as before. -/
theorem Periodic.period (h : self.Periodic t k) : ∃ after, After undisturbed 12 self after ∧ after.Periodic (t + 100) (k + 1) := by
  obtain ⟨now, L, ls, fs, s1, s2, s3, hpaced, h1, h2, h3⟩ := h
  obtain ⟨a1, e, hgo1, ha1⟩ := hpaced.command (by simp)
  obtain ⟨a2, hgo2, ha2⟩ := (ha1.front 2 (by simp)).heartbeat (by simp; omega)
  obtain ⟨a3, hgo3, ha3⟩ := (ha2.front 4 (by simp)).stale (by simp; omega) (by omega)
  obtain ⟨a4, hgo4, ha4⟩ := (ha3.front 4 (by simp)).stale (by simp; omega) (by omega)
  obtain ⟨a5, hgo5, ha5⟩ := (ha4.front 1 (by simp)).heartbeat (by simp; omega)
  obtain ⟨a6, hgo6, ha6⟩ := (ha5.front 5 (by simp)).stale (by simp; omega) (by omega)
  have hgoes := hgo1.trans (hgo2.trans (hgo3.trans (hgo4.trans (hgo5.trans hgo6))))
  have hafter := ((((ha6.front 2 (by simp)).front 3 (by simp)).front 5 (by simp)).front 4 (by simp)).front 5 (by simp)
  simp only [Int.add_assoc, Int.reduceAdd] at hafter
  refine ⟨a6, hgoes, t + 68, L ++ [e], ls + 2, fs + 3, fs, fs + 1, fs + 2, ?_, by omega, by omega, by omega⟩
  simp only [Int.add_assoc, Int.reduceAdd]
  exact hafter

/-- So it goes on: `n` more operations after `12 * n` steps. -/
theorem Periodic.goes_on (h : self.Periodic t k) (n : ℕ) : ∃ after, After undisturbed (12 * n) self after ∧
    after.Periodic (t + 100 * n) (k + n) := by
  induction n with
  | zero => exact ⟨self, rfl, by simpa using h⟩
  | succ n ih =>
    obtain ⟨mid, hgo, hmid⟩ := ih
    obtain ⟨after, hgo', hafter⟩ := hmid.period
    refine ⟨after, hgo.trans hgo', ?_⟩
    rw [show t + 100 * ((n + 1 : ℕ) : Int) = t + 100 * n + 100 by omega]
    exact hafter

/-! ## The first period -/

/-- The three commands that are committed before the first period. -/
def firstLog : List Entry := [⟨1, request 1 0⟩, ⟨1, request 2 0⟩, ⟨1, request 0 0⟩]

/-- The draws so far, up to two. -/
def draws (moment : Harness brisk) : ℕ := moment.sim.rng

/-- What is due, when a period starts at 500 ms, and no fault is in force. -/
def Timed (moment : Harness brisk) : Prop :=
  draws moment = 2 ∧ moment.sim.clock.now = 468 ∧
  moment.due = [(500, some .clientTick), (512, some (.timer 0 .heartbeat 9)), (518, some (.timer 1 .election 10)),
    (556, some (.timer 1 .election 11)), (568, some (.timer 1 .election 12)), (618, some (.timer 1 .election 13))] ∧
  moment.net.crashed = ∅ ∧ moment.net.downLinks = ∅ ∧ moment.net.lossyLinks = ∅ ∧ ∀ n ∈ [(0 : NodeId), 1], moment.net.group n = 0

instance : DecidablePred Timed := fun moment => by
  unfold Timed
  infer_instance

/-- Node `n` has committed the first three commands. -/
def Served (node : RaftNode) (n : NodeId) (seq : Int) (role : Role) : Prop :=
  (node.id = n ∧ node.alive = true ∧ node.term = 1 ∧ node.voters = [0, 1] ∧ node.bugs = NO_BUGS ∧ node.config = {} ∧ node.baseIndex = 0) ∧
  node.log = firstLog ∧ node.commitIndex = 3 ∧ node.lastApplied = 3 ∧ node.timerSeq = seq ∧ node.role = role ∧ node.out = []

instance (node : RaftNode) (n : NodeId) (seq : Int) (role : Role) : Decidable (Served node n seq role) := by
  unfold Served
  infer_instance

/-- What the leader and the clients know of them. -/
def Known (cluster : Cluster) : Prop :=
  ((cluster.world.nodes 0).nextIndex.lookup 1 = some 4 ∧ (cluster.world.nodes 0).matchIndex.lookup 1 = some 3 ∧
    (cluster.world.nodes 0).matchIndex.lookup 0 = some 3) ∧
  (cluster.outstanding = ∅ ∧ cluster.pending = ∅ ∧ cluster.history.length = 3 ∧ ∀ row ∈ cluster.history, row.completed = true) ∧
  ∀ cid ∈ [(0 : Int), 1, 2], (cluster.world.nodes 0).clientIndex.getD cid (-1) < cluster.nextReq cid

instance : DecidablePred Known := fun cluster => by
  unfold Known
  infer_instance

/-- A server with the first three commands. -/
theorem Served.serves {node : RaftNode} {n : NodeId} {seq : Int} {role : Role} (h : Served node n seq role) :
    node.Serves n firstLog firstLog.length seq ∧ node.role = role ∧ node.out = [] := by
  obtain ⟨⟨hid, halive, hterm, hvoters, hbugs, hconfig, hbase⟩, hlog, hcommit, happlied, htimer, hrole, hout⟩ := h
  refine ⟨⟨hid, halive, hterm, hvoters, hbugs, hconfig, hbase, hlog, fun e he => ?_, hcommit, happlied, le_rfl, htimer⟩, hrole, hout⟩
  simp only [firstLog, List.mem_cons, List.not_mem_nil, or_false] at he
  rcases he with rfl | rfl | rfl <;> rfl

/-- The first node is elected, and after 43 steps the first period starts. -/
theorem starts : ∃ first after, Harness.init undisturbed (0 : ℕ) = .ok first ∧ After undisturbed 43 first after ∧ after.Periodic 500 3 := by
  have hrun : ((Harness.init undisturbed (0 : ℕ) : Except SimError (Harness brisk)).toOption.bind (ahead undisturbed 43)).any
      (fun after => decide (after.Timed ∧ Served (after.cluster.world.nodes 0) 0 9 .leader ∧
        Served (after.cluster.world.nodes 1) 1 13 .follower ∧ Known after.cluster)) = true := by
    decide +kernel
  obtain ⟨after, hafter, hall⟩ := (Option.any_eq_true _ _).1 hrun
  obtain ⟨first, hfirst, hgoes⟩ := Option.bind_eq_some_iff.1 hafter
  obtain ⟨⟨hdraws, hnow, hdue, hcrashed, hlinks, hlossy, hwhole⟩, hleader, hfollower, ⟨hnext, hmatched, hself⟩, hidle, hfresh⟩ :=
    of_decide_eq_true hall
  obtain ⟨hserves, hrole, hout⟩ := hleader.serves
  obtain ⟨hserves', hrole', hout'⟩ := hfollower.serves
  refine ⟨first, after, ?_, hgoes, 468, firstLog, 9, 13, 10, 11, 12, ⟨⟨hdraws, hnow, ?_, hcrashed, hlinks, hlossy, hwhole⟩,
    ⟨hserves, hrole, hnext, hmatched, hself⟩, ⟨hserves', hrole'⟩, ⟨hout, hout'⟩, by decide, ⟨hidle.1, hidle.2.1, hidle.2.2.1, hidle.2.2.2⟩,
    hfresh⟩, by decide, by decide, by decide⟩
  · cases hinit : (Harness.init undisturbed (0 : ℕ) : Except SimError (Harness brisk)) with
    | error e =>
      rw [hinit] at hfirst
      cases hfirst
    | ok x =>
      rw [hinit] at hfirst
      cases hfirst
      rfl
  · rw [hdue]
    exact List.Perm.refl _

end Harness
end DeterministicRaft
