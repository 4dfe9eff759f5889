import DeterministicRaft.Campaigns

/-!
# How a leader brings its voters up to date

A leader that presides over its voters appends a client's command, and then goes through rounds with one voter after the other: its
heartbeat fires, the voter gets what is sent to it, and the leader gets the answer. When it has heard from all of them, all of its log is
committed.
-/

namespace DeterministicRaft

open RaftNode Refinement Possibility Consensus

variable {net : Network} {self after u v : RaftNode} {c p : NodeId} {V : List NodeId} {L F : List Entry} {f : NodeId} {next : ℕ}

/-! ## Operations of a leader -/

/-- A message that was sent is among the calls. -/
theorem mem_of_messages {out : List Effect} {dst : NodeId} {msg : Message} (h : (dst, msg) ∈ messages out) : .send dst msg ∈ out := by
  obtain ⟨e, he, hsend⟩ := List.mem_filterMap.1 h
  cases e with
  | send dst' msg' =>
    simp only [Option.some.injEq, Prod.mk.injEq] at hsend
    obtain ⟨rfl, rfl⟩ := hsend
    exact he
  | _ => cases hsend

namespace RaftNode

/-- What a leader sends does not depend on the calls before. -/
theorem sendAppendEntries_out {msg : Message} (h : self.sendAppendEntries p = .ok (self.send p msg)) (out : List Effect) :
    ({ self with out } : RaftNode).sendAppendEntries p = .ok (({ self with out } : RaftNode).send p msg) := by
  have hsent : ∀ msg', self.send p msg' = self.send p msg → msg' = msg := by
    intro msg' heq
    have hout := congrArg RaftNode.out heq
    simpa [RaftNode.send, emit] using hout
  unfold sendAppendEntries at h ⊢
  cases hitem : self.nextIndex.item p with
  | error e =>
    rw [hitem] at h
    cases h
  | ok x =>
    rw [hitem] at h
    simp only [bind, Except.bind] at h ⊢
    split at h
    · rename_i hlt
      rw [if_pos hlt]
      unfold sendInstallSnapshot at h ⊢
      cases hs : self.snapshot with
      | none =>
        rw [hs] at h
        have hout := congrArg RaftNode.out (Except.ok.inj h)
        simp [RaftNode.send, emit] at hout
      | some snap =>
        rw [hs] at h
        rw [← hsent _ (Except.ok.inj h)]
        rfl
    · rename_i hge
      rw [if_neg hge]
      cases hterm : self.termAt (x - 1) with
      | error e =>
        rw [hterm] at h
        cases h
      | ok t =>
        rw [hterm] at h
        have hterm' : ({ self with out } : RaftNode).termAt (x - 1) = .ok t := hterm
        rw [hterm', ← hsent _ (Except.ok.inj h)]
        rfl

/-- A leader that sends to some peers sends each of them what it would send it alone. -/
theorem broadcast_sends (peers : List NodeId) (hr : self.role = .leader) : Ensures (peers.foldlM sendAppendEntries self) fun after =>
    ∃ es, after = { self with out := self.out ++ es } ∧
      ∀ p ∈ peers, ∀ msg, self.sendAppendEntries p = .ok (self.send p msg) → .send p msg ∈ es := by
  induction peers generalizing self with
  | nil => exact Ensures.pure ⟨[], by simp, by simp⟩
  | cons p peers ih =>
    rw [List.foldlM_cons]
    intro after hafter
    cases hp : self.sendAppendEntries p with
    | error e =>
      rw [hp] at hafter
      cases hafter
    | ok mid =>
      rw [hp] at hafter
      obtain ⟨es, rfl, -⟩ := Makes.sendAppendEntries_calls hr (Calls.refl self) p mid hp
      obtain ⟨es', rfl, hes'⟩ := @ih { self with out := self.out ++ es } hr after hafter
      refine ⟨es ++ es', by simp only [List.append_assoc], fun q hq msg hmsg => ?_⟩
      rcases List.mem_cons.1 hq with rfl | hq
      · rw [hmsg, Except.ok.injEq] at hp
        have hout := congrArg RaftNode.out hp
        obtain rfl : [Effect.send q msg] = es := by simpa [RaftNode.send, emit] using hout
        simp
      · exact List.mem_append_right _ (hes' q hq msg (sendAppendEntries_out hmsg _))

/-- A leader whose heartbeat is due sends to its other voters, and the next heartbeat is due. -/
theorem beats (ha : self.alive = true) (hr : self.role = .leader) : Ensures (self.onHeartbeat self.timerSeq) fun after =>
    ∃ es, after = { self with timerSeq := self.timerSeq + 1, out := self.out ++ es } ∧ .schedule .heartbeat (self.timerSeq + 1) ∈ es ∧
      ∀ p ∈ self.otherVoters, ∀ msg, self.sendAppendEntries p = .ok (self.send p msg) → .send p msg ∈ es := by
  unfold onHeartbeat
  rw [if_neg (by simp [ha, hr])]
  refine Ensures.bind (broadcast_sends self.otherVoters hr) fun mid hmid => ?_
  obtain ⟨es, rfl, hes⟩ := hmid
  refine Ensures.pure ⟨es ++ [.schedule .heartbeat (self.timerSeq + 1)], ?_, by simp, fun p hp msg hmsg => ?_⟩
  · simp [armHeartbeatTimer, emit]
  · exact List.mem_append_left _ (hes p hp msg hmsg)

/-- A leader appends a command that is no request, or a newer one than it knows. -/
theorem submits (ha : self.alive = true) (hr : self.role = .leader) {command : String}
    (hnew : (Command.decode command).isStructured = true →
      self.clientIndex.getD (Command.decode command).clientId (-1) < (Command.decode command).reqId) :
    Ensures (Prod.fst <$> self.clientCommand command) fun after => ∃ clientIndex es, after = { self with
      clientIndex
      log := self.log ++ [({ term := self.term, command } : Entry)]
      logVersion := self.logVersion + 1
      matchIndex := self.matchIndex.insert self.id (self.baseIndex + (self.log.length + 1))
      out := self.out ++ es } := by
  unfold clientCommand
  rw [if_neg (by simp [ha, hr])]
  simp only
  rw [if_neg fun h => absurd (hnew h.1) (not_lt.2 h.2)]
  have hrole : (self.proposed command).role = .leader := by
    obtain ⟨clientIndex, heq⟩ := proposed_eq self command
    rw [heq]
    exact hr
  refine Ensures.map (Ensures.bind (Q := Calls (self.proposed command)) (Makes.broadcastHeartbeats_calls hrole) fun mid hcalls => ?_)
  obtain ⟨es, rfl, -⟩ := hcalls
  obtain ⟨clientIndex, heq⟩ := proposed_eq self command
  refine Ensures.pure ⟨clientIndex, [.record (.append (self.baseIndex + (self.log.length + 1)) self.term command)] ++ es, ?_⟩
  rw [heq]
  simp only [List.append_assoc]

/-! ## Answers -/

/-- A leader has committed nothing more, or it knows that it has committed an entry of its own term. -/
def Credits (u v : RaftNode) : Prop :=
  v.committedThisTerm = true ∨ (v.committedThisTerm = u.committedThisTerm ∧ v.commitIndex = u.commitIndex)

theorem Credits.trans {w : RaftNode} (h : u.Credits v) (h' : v.Credits w) : u.Credits w := by
  rcases h' with hown | ⟨hsame, hcommit⟩
  · exact Or.inl hown
  · rw [Credits, hsame, hcommit]
    exact h

/-- What a leader keeps when it hears the answer of the follower `f`. -/
structure Minds (f : NodeId) (u v : RaftNode) : Prop where
  timerSeq : v.timerSeq = u.timerSeq
  voters : v.voters = u.voters
  matchIndex : ∀ q, q ≠ f → v.matchIndex.lookup q = u.matchIndex.lookup q
  credits : u.Credits v

namespace Minds

theorem advanceLoop (f : NodeId) (u : RaftNode) (n : Int) (k : ℕ) : Ensures (u.advanceLoop n k) (Minds f u) := by
  induction k generalizing n with
  | zero => exact Ensures.pure ⟨rfl, rfl, fun _ _ => rfl, Or.inr ⟨rfl, rfl⟩⟩
  | succ k ih =>
    unfold RaftNode.advanceLoop
    refine Ensures.bind (Ensures.trivial _) fun t _ => ?_
    split
    · exact Ensures.pure ⟨rfl, rfl, fun _ _ => rfl, Or.inr ⟨rfl, rfl⟩⟩
    · simp only
      split
      · refine Ensures.bind (JustApplies.setCommitIndex u n) fun mid h => ?_
        rw [h.1]
        exact Ensures.pure ⟨rfl, rfl, fun _ _ => rfl, Or.inl rfl⟩
      · exact ih (n - 1)

/-- The answer to a message of the leader's own term. -/
theorem handle (u : RaftNode) (f : NodeId) (success : Bool) (r : Int) :
    Ensures (u.handle (.appendReply ⟨u.term, f, success, r⟩)) (Minds f u) := by
  have hrefl : Minds f u u := ⟨rfl, rfl, fun _ _ => rfl, Or.inr ⟨rfl, rfl⟩⟩
  unfold RaftNode.handle
  split
  · exact Ensures.pure hrefl
  · simp only [RaftNode.onAppendReply]
    rw [if_neg (lt_irrefl _)]
    split
    · exact Ensures.pure hrefl
    · rename_i hlead
      have hr : u.role = .leader := by
        by_contra hne
        exact hlead (Or.inl hne)
      split
      · refine (advanceLoop f _ _ _).mono fun after h => ⟨h.timerSeq, h.voters, fun q hq => ?_, h.credits⟩
        exact (h.matchIndex q hq).trans (Finmap.lookup_insert_of_ne _ hq)
      · have hback : ({ u with nextIndex := u.nextIndex.insert f (max 1 (u.nextIndex.getD f 1 - 1)) } : RaftNode).role = .leader := hr
        refine (Makes.sendAppendEntries_calls hback (Calls.refl _) f).mono fun after h => ?_
        obtain ⟨es, rfl, -⟩ := h
        exact ⟨rfl, rfl, fun _ _ => rfl, Or.inr ⟨rfl, rfl⟩⟩

end Minds

/-- A leader whose heartbeat has fired: the next one is due. -/
def rearmed (self : RaftNode) : RaftNode := { self with timerSeq := self.timerSeq + 1, out := [] }

/-- What a leader counts does not depend on its timer and its calls. -/
theorem Counts.anew {timerSeq : Int} {out : List Effect} {i : Int} (h : { self with timerSeq, out }.Counts i) : self.Counts i :=
  ⟨h.above, h.last, h.own, h.majority⟩

/-- A leader that has sent, and whose next heartbeat is due, still replicates. -/
theorem Replicates.rearm (h : self.Replicates L f next) (timerSeq : Int) (out : List Effect) :
    { self with timerSeq, out }.Replicates L f next :=
  ⟨h.alive, h.role, h.bugs, ⟨h.grounded.toBounded.still ⟨rfl, rfl, rfl, rfl, rfl, rfl, rfl, rfl, rfl, rfl⟩, h.grounded.last⟩,
    h.holds.of_eq rfl rfl rfl, h.snapTerm, ⟨h.ordered.mono, h.ordered.bound⟩, h.nextIndex, h.range, h.matched⟩

end RaftNode

/-! ## One message and its answer -/

/-- What a follower answers to what the leader sends it, whether it succeeds, and up to which index it then agrees. -/
inductive Answers (leader follower : RaftNode) (L F : List Entry) (next : ℕ) (answered : RaftNode) : Bool → ℕ → Prop
  /-- The logs do not agree where the leader has gone on. -/
  | refuses (h2 : 2 ≤ next) (hbase : leader.baseIndex < next) (hno : ¬(next - 1 ≤ F.length ∧ F.take (next - 1) = L.take (next - 1))) :
    Answers leader follower L F next answered false 0
  /-- It has all of the leader's log. -/
  | merges : Answers leader follower L F next answered true L.length
  /-- The leader has sent its snapshot, and the follower agrees up to what it has committed. -/
  | restores (r : ℕ) (hbase : next ≤ leader.baseIndex) (hr : (r : Int) = max follower.commitIndex leader.baseIndex) (hrL : r ≤ L.length)
    (hcom : answered.commitIndex = r) : Answers leader follower L F next answered true r

/-- A follower that succeeds agrees within the leader's log. -/
theorem Answers.le {leader follower answered : RaftNode} {success : Bool} {r : ℕ} (h : Answers leader follower L F next answered success r)
    (hs : success = true) : r ≤ L.length := by
  cases h with
  | refuses => cases hs
  | merges => exact le_rfl
  | restores r hbase hr hrL hcom => exact hrL

/-- A follower that refuses leaves the leader an entry to go back by. -/
theorem Answers.back {leader follower answered : RaftNode} {success : Bool} {r : ℕ}
    (h : Answers leader follower L F next answered success r) (hs : success = false) : 2 ≤ next ∧ r = 0 := by
  cases h with
  | refuses h2 => exact ⟨h2, rfl⟩
  | merges => cases hs
  | restores => cases hs

/-- The leader sends one message, and the follower answers it. -/
theorem Repairing.answers {leader follower : RaftNode} (h : Repairing leader follower L F next) :
    ∃ msg answered F' success r, leader.sendAppendEntries follower.id = .ok (leader.send follower.id msg) ∧
      follower.handle msg = .ok answered ∧ answered.Repairs F' L leader.term ∧
      messages answered.out = messages follower.out ++ [(leader.id, .appendReply ⟨leader.term, follower.id, success, r⟩)] ∧
      Answers leader follower L F next answered success r := by
  obtain ⟨hlead, hfollow⟩ := h
  obtain ⟨msg, hsend, hmsg⟩ := hlead.send
  refine ⟨msg, ?_⟩
  rcases hmsg with ⟨m, rfl, hbase, ht, hid, hseg, hend⟩ | ⟨m, rfl, hbase, ht, hid, hidx, hterm⟩
  · obtain ⟨answered, -, hhandle, hcase⟩ := hfollow.onAppendEntries ht hseg hend
    rw [hid] at hcase
    rcases hcase with ⟨hno, hrep, hout⟩ | ⟨F', -, hrep, hout⟩
    · have h2 : 2 ≤ next := by
        by_contra hlt
        have h0 : next - 1 = 0 := by omega
        exact hno (by rw [h0]; simp)
      exact ⟨answered, F, false, 0, hsend, hhandle, hrep, hout, .refuses h2 hbase hno⟩
    · exact ⟨answered, F', true, L.length, hsend, hhandle, hrep, hout, .merges⟩
  · obtain ⟨b, hb, hbn, hbL⟩ := hlead.holds.exists_base
    have hlast : m.lastTerm = lastTermOf (L.take b) := by
      rw [← hbn, ← hlead.holds.baseTerm]
      exact hterm
    obtain ⟨answered, F', r, -, hhandle, hr, hrL, hrep, hcom, hout⟩ := hfollow.onInstallSnapshot ht (hidx.trans hb) hlast hbL
    rw [hid] at hout
    exact ⟨answered, F', true, r, hsend, hhandle, hrep, hout, .restores r hbase (by rw [hr, hb]) hrL hcom⟩

/-- The leader hears the answer: it goes back by one entry, or it goes on behind what the follower has, and has committed all that it
can. -/
theorem RaftNode.Replicates.hears (h : self.Replicates L f next) {success : Bool} {r : ℕ} (hr : success = true → r ≤ L.length)
    (h2 : success = false → 2 ≤ next ∧ r = 0) : ∃ told next', self.handle (.appendReply ⟨self.term, f, success, r⟩) = .ok told ∧
      told.Replicates L f next' ∧ told.term = self.term ∧ (success = false → next' + 1 = next) ∧
      (success = true → next' = max next (r + 1) ∧ told.matchIndex.getD f 0 = max (self.matchIndex.getD f 0) r ∧ (∀ i, ¬told.Counts i) ∧
        ((∀ i, ¬self.Counts i) → (r : Int) ≤ self.commitIndex → told.baseIndex = self.baseIndex)) := by
  cases success with
  | false =>
    obtain ⟨hle, rfl⟩ := h2 rfl
    obtain ⟨told, hhandle, hrep, hterm, -⟩ := h.refused hle
    exact ⟨told, next - 1, hhandle, hrep, hterm, fun _ => by omega, fun hf => by cases hf⟩
  | true =>
    obtain ⟨told, hhandle, hrep, hterm, -, hmi, hno, hkeep⟩ := h.acknowledged (hr rfl)
    exact ⟨told, _, hhandle, hrep, hterm, (fun hf => by cases hf), fun _ => ⟨rfl, hmi, hno, hkeep⟩⟩

/-! ## What a leader may rely on -/

/-- What a leader has heard of a server, that server has acknowledged, and it is in the leader's log. -/
theorem Simulates.acked {a : State NodeId Entry} {world : World} (h : Simulates net a world) (hr : (world.nodes c).role = .leader)
    (hpos : 0 < (world.nodes c).matchIndex.getD p 0) : ∃ k : ℕ, (world.nodes c).matchIndex.getD p 0 ≤ k ∧
      a.acked p (world.nodes c).term k ∧ k ≤ (a.log c).length := by
  have hfits := h.fits c
  rw [Dict.getD] at hpos ⊢
  cases hx : (world.nodes c).matchIndex.lookup p with
  | none =>
    rw [hx] at hpos
    simp at hpos
  | some x =>
    rw [hx, Option.getD_some] at hpos
    obtain ⟨k, hk, hack⟩ := (hfits.2.leads hr).matched p x hx hpos
    have hlen := (hfits.1.acked_led hack).2.2
    rw [← (hfits.leader hr).2] at hlen
    exact ⟨k, hk, by rw [hfits.2.term]; exact hack, hlen⟩

namespace Moment

variable {m m' m'' : Moment net}

/-- A leader and any of its voters are two sides of log repair. -/
theorem Presides.repairing (h : m.Presides c V) (hp : p ∈ V) (hpc : p ≠ c) :
    ∃ next, Repairing (m.node c) (m.node p) (m.log c) (m.log p) next := by
  obtain ⟨a, hs⟩ := m.simulated
  have hlog : ∀ n, m.log n = a.log n := hs.logicalLog_eq
  have hlw := m.node_wellFormed c
  have hgrounded : ∀ n, (m.node n).Grounded := fun n =>
    (m.node_wellFormed n).grounded (congrArg Bugs.allowCommitRegression (m.node_bugs n))
  obtain ⟨-, -, -, -, -, -, hsnap, hsorted, -, hterms, hrange, hsome⟩ := hlw
  have hpeer : p ∈ (m.node c).peers := ((hs.node c).peers p).2 ⟨(m.node_voters c).2 (h.voters ▸ hp), hpc⟩
  obtain ⟨i, hi⟩ := hsome h.role p hpeer
  have hr := hrange h.role p i hi
  rw [(m.node_holds c).lastLogIndex] at hr
  obtain ⟨next, rfl⟩ := Int.eq_ofNat_of_zero_le (show 0 ≤ i by omega)
  obtain ⟨halive, hterm⟩ := h.others p hp hpc
  obtain ⟨hleads, hllog⟩ := (hs.fits c).leader h.role
  refine ⟨next, ⟨?_, ?_⟩⟩
  · rw [m.node_id p]
    refine ⟨h.alive, h.role, m.node_bugs c, hgrounded c, m.node_holds c, fun s hsn => (hsnap s hsn).2, ⟨hsorted, hterms⟩, hi,
      ⟨by omega, by omega⟩, ?_⟩
    by_contra hlt
    obtain ⟨k, hk, -, hle⟩ := hs.acked (p := p) h.role (show 0 < (m.node c).matchIndex.getD p 0 by omega)
    have hk : (m.node c).matchIndex.getD p 0 ≤ k := hk
    rw [hlog] at hlt
    omega
  · refine ⟨halive, m.node_bugs p, hgrounded p, m.node_holds p, ?_, ?_, hterm⟩
    · have hcom : (m.node p).commitIndex = a.commit p := (hs.node p).commitIndex
      have htc : (m.node c).term = a.term c := (hs.node c).term
      have htp : (m.node p).term = a.term p := (hs.node p).term
      rw [hcom, Int.toNat_natCast, hlog, hlog, hllog]
      exact hs.inv.known_prefix_llog (hs.inv.commit_known p) ⟨c, hleads⟩ (by omega)
    · intro k e e' he he' ht
      rw [hlog] at he he' ⊢
      rw [hlog]
      exact (hs.inv.log_wf p).agree (hs.inv.log_wf c) he he' ht

/-! ## Rounds -/

/-- The leader has gone on with one voter: it leads its term still, with its log, and has heard of no other voter. -/
structure Proceeds (m : Moment net) (c p : NodeId) (V : List NodeId) (m' : Moment net) : Prop where
  presides : m'.Presides c V
  log : m'.log c = m.log c
  term : (m'.node c).term = (m.node c).term
  others : ∀ q, q ≠ c → q ≠ p → m'.node q = m.node q
  matchIndex : ∀ q, q ≠ p → (m'.node c).matchIndex.lookup q = (m.node c).matchIndex.lookup q
  credits : (m.node c).Credits (m'.node c)

theorem Proceeds.trans (h : m.Proceeds c p V m') (h' : m'.Proceeds c p V m'') : m.Proceeds c p V m'' :=
  ⟨h'.presides, h'.log.trans h.log, h'.term.trans h.term, fun q hc hp => (h'.others q hc hp).trans (h.others q hc hp),
    fun q hp => (h'.matchIndex q hp).trans (h.matchIndex q hp), h.credits.trans h'.credits⟩

/-- What has come of a round: the leader knows that the voter has all of its log, or it goes back by one entry, or it has sent its snapshot
and goes on behind what the voter has committed. -/
def Comes (m : Moment net) (c p : NodeId) (L F : List Entry) (next : ℕ) (m' : Moment net) (next' : ℕ) : Prop :=
  ((m'.node c).matchIndex.getD p 0 = L.length ∧ ∀ i, ¬(m'.node c).Counts i) ∨
  (next' + 1 = next ∧ ¬(next - 1 ≤ F.length ∧ F.take (next - 1) = L.take (next - 1)) ∧ (m.node c).baseIndex < next) ∨
  (next ≤ (m.node c).baseIndex ∧ (m'.node p).commitIndex + 1 = next' ∧ (∀ i, ¬(m'.node c).Counts i) ∧
    ((∀ i, ¬(m.node c).Counts i) → (m.node p).commitIndex < (m.node c).baseIndex → (m'.node c).baseIndex < next'))

/-- The three steps of a round: the leader's heartbeat, the message to the voter and the answer to the leader. -/
structure Exchanged (m : Moment net) (c p : NodeId) (answered told : RaftNode) (m' : Moment net) : Prop where
  leader : m'.node c = told.rested
  voter : m'.node p = answered.rested
  others : ∀ q, q ≠ c → q ≠ p → m'.node q = m.node q
  armed : (c, .schedule .heartbeat ((m.node c).timerSeq + 1)) ∈ m'.world.trace
  log : m'.log c = m.log c

/-- A leader whose message is answered so can exchange both with the voter. -/
theorem Presides.can_exchange (h : m.Presides c V) (hp : p ∈ V) (hpc : p ≠ c) {msg reply : Message} {answered told : RaftNode}
    (hsend : (m.node c).sendAppendEntries p = .ok ((m.node c).send p msg)) (hhandle : (m.node p).handle msg = .ok answered)
    (hreply : .send c reply ∈ answered.out) (htold : (m.node c).rearmed.handle reply = .ok told) (hrole : told.role = .leader)
    (hterm : told.term = (m.node c).term) (hholds : told.Holds (m.log c)) : Can Next (m.Exchanged c p answered told) m := by
  refine can_beat h.armed fun after m₁ hafter h₁ => ?_
  obtain ⟨es, rfl, harmed, hsends⟩ := RaftNode.beats h.alive h.role after hafter
  have hc₁ : m₁.node c = (m.node c).rearmed := h₁.here
  have hother : p ∈ (m.node c).otherVoters := by
    rw [RaftNode.otherVoters, h.voters, m.node_id c]
    exact List.mem_filter.2 ⟨hp, by simpa using hpc⟩
  have hsent : (c, Effect.send p msg) ∈ m₁.world.trace := h₁.calls _ (List.mem_append_right _ (hsends p hother msg hsend))
  refine can_deliver hsent fun answered' m₂ hanswered' h₂ => ?_
  rw [h₁.elsewhere p hpc] at hanswered'
  obtain rfl := Except.ok.inj (hhandle.symm.trans hanswered')
  have hc₂ : m₂.node c = (m.node c).rearmed := (h₂.elsewhere c (Ne.symm hpc)).trans hc₁
  refine can_deliver (h₂.calls _ hreply) fun told' m₃ htold' h₃ => Can.now ?_
  rw [hc₂] at htold'
  obtain rfl := Except.ok.inj (htold.symm.trans htold')
  have hc₃ : m₃.node c = told.rested := h₃.here
  have hrole₁ : (m₁.node c).role = .leader := by
    rw [hc₁]
    exact h.role
  have hrole₂ : (m₂.node c).role = .leader := by
    rw [hc₂]
    exact h.role
  have hlog₁ : m₁.log c = m.log c := h₁.log_eq h.role hrole₁ (by rw [hc₁]; rfl) (by rw [hc₁]; exact (m.node_holds c).of_eq rfl rfl rfl)
  have hlog₂ : m₂.log c = m₁.log c := h₂.log_eq hrole₁ hrole₂ (by rw [hc₂, hc₁]) (by rw [hc₂, ← hc₁]; exact m₁.node_holds c)
  have hlog₃ : m₃.log c = m₂.log c := h₃.log_eq hrole₂ (by rw [hc₃]; exact hrole) (by rw [hc₃, hc₂]; exact hterm)
    (by rw [hc₃, hlog₂, hlog₁]; exact hholds.of_eq rfl rfl rfl)
  refine ⟨hc₃, (h₃.elsewhere p hpc).trans h₂.here, fun q hqc hqp => ?_, ?_, by rw [hlog₃, hlog₂, hlog₁]⟩
  · rw [h₃.elsewhere q hqc, h₂.elsewhere q hqp, h₁.elsewhere q hqc]
  · exact h₃.kept (h₂.kept (h₁.calls _ (List.mem_append_right _ harmed)))

/-- After the round the leader presides still, and has heard of no other voter. -/
theorem Exchanged.proceeds {answered told : RaftNode} (hex : m.Exchanged c p answered told m') (h : m.Presides c V)
    (hrep : told.Replicates (m.log c) p next) (hterm : told.term = (m.node c).term) (hminds : Minds p (m.node c).rearmed told)
    (hanswered : answered.Repairs F (m.log c) (m.node c).term) : m.Proceeds c p V m' := by
  have htermT : (m'.node c).term = (m.node c).term := by
    rw [hex.leader]
    exact hterm
  refine ⟨⟨?_, ?_, ?_, ?_, fun q hq hqc => ?_⟩, hex.log, htermT, hex.others, fun q hqp => ?_, ?_⟩
  · rw [hex.leader]
    exact hrep.alive
  · rw [hex.leader]
    exact hrep.role
  · rw [hex.leader]
    exact hminds.voters.trans h.voters
  · have htimer : (m'.node c).timerSeq = (m.node c).timerSeq + 1 := by
      rw [hex.leader]
      exact hminds.timerSeq
    rw [htimer]
    exact hex.armed
  · rw [htermT]
    by_cases hqp : q = p
    · rw [hqp, hex.voter]
      exact ⟨hanswered.alive, hanswered.term_le⟩
    · rw [hex.others q hqc hqp]
      exact h.others q hq hqc
  · rw [hex.leader]
    exact hminds.matchIndex q hqp
  · rw [hex.leader]
    exact hminds.credits

/-- What has come of the round, by what the voter has answered. -/
theorem Exchanged.comes {answered told : RaftNode} {success : Bool} {r next' : ℕ} (hex : m.Exchanged c p answered told m')
    (hlead : (m.node c).Replicates (m.log c) p next) (hanswer : Answers (m.node c) (m.node p) (m.log c) F next answered success r)
    (hrefused : success = false → next' + 1 = next)
    (hgoes : success = true → next' = max next (r + 1) ∧ told.matchIndex.getD p 0 = max ((m.node c).rearmed.matchIndex.getD p 0) r ∧
      (∀ i, ¬told.Counts i) ∧
      ((∀ i, ¬(m.node c).rearmed.Counts i) → (r : Int) ≤ (m.node c).rearmed.commitIndex → told.baseIndex = (m.node c).rearmed.baseIndex)) :
    m.Comes c p (m.log c) F next m' next' := by
  cases hanswer with
  | refuses h2 hbase hno => exact Or.inr (Or.inl ⟨hrefused rfl, hno, hbase⟩)
  | merges =>
    obtain ⟨-, hmi, hno, -⟩ := hgoes rfl
    left
    rw [hex.leader]
    exact ⟨hmi.trans (max_eq_right hlead.matched), fun i hi => hno i hi.anew⟩
  | restores r hbase hr hrL hcom =>
    obtain ⟨hnext', -, hno, hkeep⟩ := hgoes rfl
    right
    right
    rw [hex.leader, hex.voter]
    refine ⟨hbase, ?_, fun i hi => hno i hi.anew, fun hidle hlt => ?_⟩
    · show answered.commitIndex + 1 = _
      rw [hcom]
      omega
    · have hcommit := hlead.grounded.commit
      have hsame : told.baseIndex = (m.node c).baseIndex := hkeep (fun i hi => hidle i hi.anew) (by
        rw [hr, max_eq_right hlt.le]
        exact hcommit)
      show told.baseIndex < _
      rw [hsame]
      omega

/-- One round with a voter: the leader's heartbeat fires, the voter gets the message to it, and the leader the answer. -/
theorem Presides.can_round (h : m.Presides c V) (hp : p ∈ V) (hpc : p ≠ c) (hrep : Repairing (m.node c) (m.node p) (m.log c) F next) :
    Can Next (fun m' => m.Proceeds c p V m' ∧ ∃ F' next', Repairing (m'.node c) (m'.node p) (m'.log c) F' next' ∧
      m.Comes c p (m.log c) F next m' next') m := by
  obtain ⟨msg, answered, F', success, r, hsend, hhandle, hanswered, hout, hanswer⟩ := hrep.answers
  have hlead := hrep.leads
  rw [m.node_id p] at hsend hout hlead
  rw [m.node_id c, m.node_out p] at hout
  have hreply : Effect.send c (.appendReply ⟨(m.node c).term, p, success, r⟩) ∈ answered.out :=
    mem_of_messages (by rw [hout]; exact List.mem_singleton_self _)
  obtain ⟨told, next', htold, hrep', hterm, hrefused, hgoes⟩ := (hlead.rearm ((m.node c).timerSeq + 1) []).hears hanswer.le hanswer.back
  have hminds := Minds.handle (m.node c).rearmed p success r told htold
  refine (h.can_exchange hp hpc hsend hhandle hreply htold hrep'.role hterm hrep'.holds).mono fun m' hex => ?_
  have hproceeds := hex.proceeds h hrep' hterm hminds hanswered
  refine ⟨hproceeds, F', next', ⟨?_, ?_⟩, hex.comes hlead hanswer hrefused hgoes⟩
  · rw [m'.node_id p, hex.leader, hex.log]
    exact hrep'.rest []
  · rw [hex.voter, hproceeds.term, hex.log]
    exact hanswered.rest []

/-! ## A new entry -/

/-- A command that the leader does not know yet becomes its last entry. -/
theorem Presides.can_append (h : m.Presides c V) {command : String} (hconfig : decodeConfig command = none)
    (hnew : (Command.decode command).isStructured = true →
      (m.node c).clientIndex.getD (Command.decode command).clientId (-1) < (Command.decode command).reqId) :
    Can Next (fun m' => m'.Presides c V ∧ m'.log c = m.log c ++ [⟨(m'.node c).term, command⟩] ∧
      (m'.node c).matchIndex.getD c 0 = (m'.log c).length ∧ (m'.node c).commitIndex < (m'.log c).length) m := by
  refine can_submit hconfig c fun after m' hafter hm => Can.now ?_
  obtain ⟨clientIndex, es, rfl⟩ := RaftNode.submits h.alive h.role hnew after hafter
  have hnode := hm.here
  have hterm : (m'.node c).term = (m.node c).term := by
    rw [hnode]
    rfl
  have hrole : (m'.node c).role = .leader := by
    rw [hnode]
    exact h.role
  have hlog : m'.log c = m.log c ++ [⟨(m'.node c).term, command⟩] := by
    have hpre := hm.log_prefix h.role hrole hterm
    have hholds := m'.node_holds c
    have hheld := m.node_holds c
    have hbase : (m'.node c).baseIndex = (m.node c).baseIndex := by
      rw [hnode]
      rfl
    have hlive : (m'.node c).log = (m.node c).log ++ [⟨(m'.node c).term, command⟩] := by
      rw [hterm, hnode]
      rfl
    obtain ⟨b, hb, hbn, hle⟩ := hheld.exists_base
    have hlive' := hholds.live
    rw [hlive, hheld.live, hbase, hbn] at hlive'
    have htake : (m'.log c).take b = (m.log c).take b := take_extends hpre hle
    rw [← List.take_append_drop b (m'.log c), ← hlive', htake, ← List.append_assoc, List.take_append_drop]
  refine ⟨⟨by rw [hnode]; exact h.alive, hrole, by rw [hnode]; exact h.voters, ?_, ?_⟩, hlog, ?_, ?_⟩
  · rw [hnode]
    exact hm.kept h.armed
  · intro p hp hpc
    rw [hterm, hm.elsewhere p hpc]
    exact h.others p hp hpc
  · have hlast := (m.node_holds c).lastLogIndex
    have hself : (m'.node c).matchIndex =
        (m.node c).matchIndex.insert (m.node c).id ((m.node c).baseIndex + ((m.node c).log.length + 1)) := by
      rw [hnode]
      rfl
    rw [hself, m.node_id c, Dict.getD, Finmap.lookup_insert, Option.getD_some, hlog, List.length_append, List.length_singleton]
    rw [RaftNode.lastLogIndex] at hlast
    push_cast
    omega
  · obtain ⟨-, -, -, hle, -⟩ := m.node_wellFormed c
    have hcommit : (m'.node c).commitIndex = (m.node c).commitIndex := by
      rw [hnode]
      rfl
    have hlast := (m.node_holds c).lastLogIndex
    rw [hcommit, hlog, List.length_append, List.length_singleton]
    push_cast
    omega

/-! ## One voter -/

/-- The leader has gone on with the voter until it knows that the voter has all of its log, and it has committed all that it can. -/
structure Matched (m : Moment net) (c p : NodeId) (V : List NodeId) (m' : Moment net) : Prop where
  proceeds : m.Proceeds c p V m'
  has : (m'.node c).matchIndex.getD p 0 = (m'.log c).length
  idle : ∀ i, ¬(m'.node c).Counts i

theorem Proceeds.matched (h : m.Proceeds c p V m') (h' : m'.Matched c p V m'') : m.Matched c p V m'' :=
  ⟨h.trans h'.proceeds, h'.has, h'.idle⟩

/-- What the voter has committed agrees with the leader's log, so that one round is enough behind it. -/
theorem Presides.can_match_committed (h : m.Presides c V) (hp : p ∈ V) (hpc : p ≠ c)
    (hrep : Repairing (m.node c) (m.node p) (m.log c) F next) (hcom : (m.node p).commitIndex + 1 = next)
    (hbase : (m.node c).baseIndex < next) : Can Next (m.Matched c p V) m := by
  refine (h.can_round hp hpc hrep).mono fun m' hround => ?_
  obtain ⟨hgoes, F', next', hrep', ⟨hmi, hno⟩ | ⟨-, hno, -⟩ | ⟨hle, -⟩⟩ := hround
  · exact ⟨hgoes, by rw [hgoes.log]; exact hmi, hno⟩
  · refine absurd ⟨?_, ?_⟩ hno
    · have := hrep.follows.commit_le
      omega
    · have htake := hrep.follows.agrees.2
      have hnext : (m.node p).commitIndex.toNat = next - 1 := by omega
      rwa [hnext] at htake
  · omega

/-- A leader that can commit nothing more goes on behind what the voter has committed, after one more snapshot if it has compacted that
far. -/
theorem Presides.can_match_idle (h : m.Presides c V) (hp : p ∈ V) (hpc : p ≠ c)
    (hrep : Repairing (m.node c) (m.node p) (m.log c) F next) (hcom : (m.node p).commitIndex + 1 = next)
    (hidle : ∀ i, ¬(m.node c).Counts i) : Can Next (m.Matched c p V) m := by
  by_cases hbase : (m.node c).baseIndex < next
  · exact h.can_match_committed hp hpc hrep hcom hbase
  refine (h.can_round hp hpc hrep).bind fun m' hround => ?_
  obtain ⟨hgoes, F', next', hrep', ⟨hmi, hno⟩ | ⟨-, -, hlt⟩ | ⟨hle, hcom', -, hbase'⟩⟩ := hround
  · exact Can.now ⟨hgoes, by rw [hgoes.log]; exact hmi, hno⟩
  · exact absurd hlt hbase
  · exact (hgoes.presides.can_match_committed hp hpc hrep' hcom' (hbase' hidle (by omega))).mono fun _ => hgoes.matched

/-- A leader can bring any of its voters up to date. -/
theorem Presides.can_match (h : m.Presides c V) (hp : p ∈ V) (hpc : p ≠ c) : Can Next (m.Matched c p V) m := by
  obtain ⟨next, hrep⟩ := h.repairing hp hpc
  refine Can.descend (P := fun n m' => m.Proceeds c p V m' ∧ ∃ F, Repairing (m'.node c) (m'.node p) (m'.log c) F n) ?_
    ⟨⟨h, rfl, rfl, fun _ _ _ => rfl, fun _ _ => rfl, Or.inr ⟨rfl, rfl⟩⟩, m.log p, hrep⟩
  clear hrep
  rintro n m₁ ⟨hgoes, F, hrep⟩
  refine (hgoes.presides.can_round hp hpc hrep).bind fun m₂ hround => ?_
  obtain ⟨hgoes', F', next', hrep', ⟨hmi, hno⟩ | ⟨hback, -, -⟩ | ⟨-, hcom, hidle, -⟩⟩ := hround
  · exact Can.now (Or.inl (hgoes.matched ⟨hgoes', by rw [hgoes'.log]; exact hmi, hno⟩))
  · exact Can.now (Or.inr ⟨next', by omega, hgoes.trans hgoes', F', hrep'⟩)
  · exact (hgoes'.presides.can_match_idle hp hpc hrep' hcom hidle).mono fun _ h₃ => Or.inl (hgoes.matched (hgoes'.matched h₃))

/-! ## All voters -/

/-- The leader knows that every voter has all of its log, all of which is committed. -/
structure Serves (m : Moment net) (c : NodeId) (V : List NodeId) : Prop where
  presides : m.Presides c V
  has : ∀ p ∈ V, (m.node c).matchIndex.getD p 0 = (m.log c).length
  committed : (m.node c).commitIndex = (m.log c).length

/-- The leader, which was `u`, presides with its log, and knows that the voters not in `rest` have all of it. -/
structure Going (m : Moment net) (c : NodeId) (V : List NodeId) (L : List Entry) (u : RaftNode) (rest : List NodeId) : Prop where
  presides : m.Presides c V
  log : m.log c = L
  term : (m.node c).term = u.term
  credits : u.Credits (m.node c)
  subset : ∀ p ∈ rest, p ∈ V ∧ p ≠ c
  has : ∀ p ∈ V, p ∉ rest → (m.node c).matchIndex.getD p 0 = L.length
  idle : (∃ p ∈ V, p ≠ c ∧ p ∉ rest) → ∀ i, ¬(m.node c).Counts i

/-- A leader that all voters agree with, and that can commit nothing more, has committed all of its log, when its last entry is of its
term. -/
theorem Going.serves (h : m.Going c V L u []) (htwo : 2 ≤ V.length) (hlast : lastTermOf L = u.term) : m.Serves c V := by
  have hhas : ∀ p ∈ V, (m.node c).matchIndex.getD p 0 = (m.log c).length := by
    intro p hp
    rw [h.log]
    exact h.has p hp List.not_mem_nil
  refine ⟨h.presides, hhas, ?_⟩
  have hvoters := h.presides.voters
  have hidle : ∀ i, ¬(m.node c).Counts i := by
    refine h.idle ?_
    by_contra hnone
    have hall : V ⊆ [c] := by
      intro p hp
      by_contra hne
      exact hnone ⟨p, hp, by simpa using hne, List.not_mem_nil⟩
    have hnodup : V.Nodup := hvoters ▸ (m.node_voters c).1
    have hle := (hnodup.subperm hall).length_le
    simp only [List.length_singleton] at hle
    omega
  have hholds := m.node_holds c
  obtain ⟨-, -, -, hle, -⟩ := m.node_wellFormed c
  have hend := hholds.lastLogIndex
  by_contra hne
  refine hidle (m.log c).length ⟨by omega, by omega, ?_, ?_⟩
  · rw [hholds.termAt hholds.le le_rfl, List.take_length, h.log, hlast, h.term]
  · have hcount : V.countP (fun v => (m.log c).length ≤ (m.node c).matchIndex.getD v 0) = V.length := by
      rw [List.countP_eq_length]
      intro v hv
      simpa using (hhas v hv).ge
    rw [hvoters, hcount]
    omega

/-- A leader whose last entry is of its term, and that knows what it has itself, can bring all its voters up to date, and commits all of
its log. -/
theorem Presides.can_serve (h : m.Presides c V) (htwo : 2 ≤ V.length) (hlast : lastTermOf (m.log c) = (m.node c).term)
    (hown : (m.node c).matchIndex.getD c 0 = (m.log c).length) :
    Can Next (fun m' => m'.Serves c V ∧ m'.log c = m.log c ∧ (m'.node c).term = (m.node c).term ∧ (m.node c).Credits (m'.node c)) m := by
  refine Can.each (P := fun rest m' => m'.Going c V (m.log c) (m.node c) rest) ?_ ?_ (l := V.filter (· ≠ c)) ?_
  · intro m' hgoing
    exact Can.now ⟨hgoing.serves htwo hlast, hgoing.log, hgoing.term, hgoing.credits⟩
  · intro p rest m₁ hgoing
    obtain ⟨hp, hpc⟩ := hgoing.subset p List.mem_cons_self
    refine (hgoing.presides.can_match hp hpc).mono fun m₂ hmatched => Or.inr ?_
    have hgoes := hmatched.proceeds
    refine ⟨hgoes.presides, hgoes.log.trans hgoing.log, hgoes.term.trans hgoing.term, hgoing.credits.trans hgoes.credits,
      fun q hq => hgoing.subset q (List.mem_cons_of_mem _ hq), fun q hq hrest => ?_, fun _ => hmatched.idle⟩
    by_cases hqp : q = p
    · rw [hqp, hmatched.has, hgoes.log, hgoing.log]
    · rw [Dict.getD, hgoes.matchIndex q hqp]
      exact hgoing.has q hq fun hmem => (List.mem_cons.1 hmem).elim hqp hrest
  · refine ⟨h, rfl, rfl, Or.inr ⟨rfl, rfl⟩, fun p hp => ?_, fun p hp hrest => ?_, ?_⟩
    · obtain ⟨hpV, hpc⟩ := List.mem_filter.1 hp
      exact ⟨hpV, by simpa using hpc⟩
    · obtain rfl : p = c := by
        by_contra hpc
        exact hrest (List.mem_filter.2 ⟨hp, by simpa using hpc⟩)
      exact hown
    · rintro ⟨p, hp, hpc, hrest⟩
      exact absurd (List.mem_filter.2 ⟨hp, by simpa using hpc⟩) hrest

end Moment

end DeterministicRaft
