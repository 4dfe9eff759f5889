import Mathlib.Data.Finset.Order
import DeterministicRaft.Moments

/-!
# How a server gets elected

A live server that is among its own voters, and whose log is as up to date as those of a majority of them, stands for a term that is
later than theirs. They vote for it, and with their votes it leads: whatever happened before, and whatever is still on its way.
-/

namespace DeterministicRaft

open RaftNode Refinement Possibility

variable {net : Network} {self after u v : RaftNode} {c p : NodeId} {t T : Int} {V G : List NodeId}
  {log : List Entry}

/-! ## Operations of a server -/

/-- The same message to some peers. -/
theorem requests_out (peers : List NodeId) (msg : Message) (node : RaftNode) :
    peers.foldl (fun node p => node.send p msg) node = { node with out := node.out ++ peers.map fun p => .send p msg } := by
  induction peers generalizing node with
  | nil => simp
  | cons p peers ih =>
    rw [List.foldl_cons, ih]
    simp [RaftNode.send, emit]

namespace RaftNode

/-- A live server whose election timer fires stands for the next term, and asks the other voters. -/
theorem campaigns (ha : self.alive = true) (hr : self.role ≠ .leader) (hid : self.id ∈ self.voters) (htwo : 2 ≤ self.voters.length)
    (ht : self.termAt self.lastLogIndex = .ok t) : ∃ es, self.onElectionTimeout self.timerSeq = .ok { self with
        term := self.term + 1, role := .candidate, votedFor := some self.id, leaderId := none, votes := {self.id}
        timerSeq := self.timerSeq + 1, out := self.out ++ es } ∧
      .schedule .election (self.timerSeq + 1) ∈ es ∧
      ∀ p ∈ self.otherVoters, .send p (.requestVote ⟨self.term + 1, self.id, self.lastLogIndex, t⟩) ∈ es := by
  have htimeout : self.onElectionTimeout self.timerSeq = (self.record (.timer self.term)).startElection := by
    rw [onElectionTimeout, if_neg (by simp [ha, hr])]
  have hmember : (self.record (.timer self.term)).id ∈ (self.record (.timer self.term)).voters := hid
  have helect := Twins.startElection_eq hmember
  have hterm : (self.record (.timer self.term)).campaigned.termAt (self.record (.timer self.term)).campaigned.lastLogIndex = .ok t := ht
  rw [hterm] at helect
  simp only [bind, Except.bind] at helect
  rw [requests_out] at helect
  have halone : ∀ node : RaftNode, node.role = .candidate → node.votes = {node.id} → node.id = self.id → node.voters = self.voters →
      node.maybeWin = .ok node := by
    intro node hrole hvotes hsame hvoters
    rw [← hsame, ← hvoters] at hid
    rw [← hvoters] at htwo
    exact (Twins.maybeWin_alone node hrole hvotes hid).2 htwo
  have hwin := helect.trans (halone _ rfl rfl rfl rfl)
  refine ⟨[.record (.timer self.term), .record (.election (self.term + 1)), .record (.role .candidate (self.term + 1)),
    .schedule .election (self.timerSeq + 1)] ++ self.otherVoters.map fun p =>
      .send p (.requestVote ⟨self.term + 1, self.id, self.lastLogIndex, t⟩), (htimeout.trans hwin).trans (congrArg Except.ok ?_), ?_, ?_⟩
  · simp only [campaigned, RaftNode.record, emit, armElectionTimer, List.append_assoc]
    rfl
  · simp
  · intro p hp
    exact List.mem_append_right _ (List.mem_map.2 ⟨p, hp, rfl⟩)

/-- A server in an earlier term, whose log is no more up to date, votes for the candidate. -/
theorem grants (msg : RequestVote) (ha : self.alive = true) (hlt : self.term < msg.term) (ht : self.termAt self.lastLogIndex = .ok t)
    (hup : t < msg.lastLogTerm ∨ (t = msg.lastLogTerm ∧ self.lastLogIndex ≤ msg.lastLogIndex)) :
    ∃ after, self.handle (.requestVote msg) = .ok after ∧ after.alive = true ∧ after.term = msg.term ∧
      .send msg.candidate (.voteReply ⟨msg.term, self.id, true⟩) ∈ after.out := by
  have hfollow := becomeFollower_eq self msg.term
  have hobs : (if msg.term > self.term then self.becomeFollower msg.term else self) = self.becomeFollower msg.term := if_pos hlt
  have hread : (self.becomeFollower msg.term).termAt (self.becomeFollower msg.term).lastLogIndex = .ok t := by
    rw [hfollow]
    exact ht
  have hlast : (self.becomeFollower msg.term).lastLogIndex = self.lastLogIndex := by
    rw [hfollow]
    rfl
  have hsame : (self.becomeFollower msg.term).term = msg.term ∧ (self.becomeFollower msg.term).votedFor = none ∧
      (self.becomeFollower msg.term).alive = true ∧ (self.becomeFollower msg.term).id = self.id := by
    rw [hfollow]
    exact ⟨rfl, if_pos hlt, ha, rfl⟩
  have hhandle : self.handle (.requestVote msg) = self.onRequestVote msg := by
    rw [handle, if_neg (by simp [ha])]
  rw [hhandle, onRequestVote]
  simp only [hobs]
  generalize self.becomeFollower msg.term = mid at hread hlast hsame
  obtain ⟨hmt, hmv, hma, hmid⟩ := hsame
  rw [if_pos ⟨hmt.symm, Or.inl hmv⟩, hread]
  simp only [bind, Except.bind]
  rw [if_pos (hup.elim Or.inl fun h => Or.inr (Or.inl ⟨h.1, by rw [hlast]; exact h.2⟩))]
  refine ⟨_, rfl, hma, hmt, ?_⟩
  rw [← hmt, ← hmid]
  exact List.mem_append_right _ (List.mem_singleton_self _)

/-- A candidate that has been told of a vote. -/
theorem counts_vote (ha : self.alive = true) (hr : self.role = .candidate) (p : NodeId) :
    self.handle (.voteReply ⟨self.term, p, true⟩) = ({ self with votes := insert p self.votes } : RaftNode).maybeWin := by
  rw [handle, if_neg (by simp [ha])]
  simp only [onVoteReply]
  rw [if_neg (lt_irrefl _), if_neg (by simp [hr])]

/-- The candidate's votes are no majority of its voters. -/
def Short (node : RaftNode) : Prop := ¬(node.votes.filter (· ∈ node.voters)).card * 2 > node.voters.length

/-- A candidate goes on being one, or it has won: it leads its term, knows the requests in its log, and its heartbeat is due. -/
theorem maybeWin_cases (self : RaftNode) (hr : self.role = .candidate) : Ensures self.maybeWin fun after =>
    (after = self ∧ self.Short) ∨
    ∃ es, after = { self.leading with timerSeq := self.timerSeq + 1, out := self.leading.out ++ es } ∧
      .schedule .heartbeat (self.timerSeq + 1) ∈ es := by
  unfold maybeWin
  simp only
  split
  · refine Ensures.bind (Q := Calls self.leading) (Makes.broadcastHeartbeats_calls rfl) fun mid hcalls => ?_
    obtain ⟨es, rfl, -⟩ := hcalls
    refine Ensures.pure (Or.inr ⟨es ++ [.schedule .heartbeat (self.timerSeq + 1)], ?_, by simp⟩)
    simp only [armHeartbeatTimer, emit, List.append_assoc]
    rfl
  · rename_i hno
    exact Ensures.pure (Or.inl ⟨rfl, fun h => hno ⟨hr, h⟩⟩)

/-- The log of `u` is no more up to date than that of `v`. -/
def Behind (u v : RaftNode) : Prop :=
  ∃ t t', u.termAt u.lastLogIndex = .ok t ∧ v.termAt v.lastLogIndex = .ok t' ∧ (t < t' ∨ (t = t' ∧ u.lastLogIndex ≤ v.lastLogIndex))

/-- What the server holds of its log, and its voters, are what they were. -/
structure Retains (u v : RaftNode) : Prop where
  log : v.log = u.log
  baseIndex : v.baseIndex = u.baseIndex
  baseTerm : v.baseTerm = u.baseTerm
  voters : v.voters = u.voters

theorem Retains.refl (u : RaftNode) : u.Retains u := ⟨rfl, rfl, rfl, rfl⟩

theorem Retains.last (h : u.Retains v) : v.lastLogIndex = u.lastLogIndex ∧ v.termAt v.lastLogIndex = u.termAt u.lastLogIndex := by
  have hlast : v.lastLogIndex = u.lastLogIndex := by
    rw [lastLogIndex, lastLogIndex, h.log, h.baseIndex]
  refine ⟨hlast, ?_⟩
  rw [hlast, termAt, termAt, phys, phys, h.log, h.baseIndex, h.baseTerm]

/-- How up to date two servers are depends on what they hold of their logs. -/
theorem Behind.retains {u' v' : RaftNode} (h : u.Behind v) (hu : u.Retains u') (hv : v.Retains v') : u'.Behind v' := by
  obtain ⟨t, t', ht, ht', hup⟩ := h
  refine ⟨t, t', hu.last.2.trans ht, hv.last.2.trans ht', ?_⟩
  rw [hu.last.1, hv.last.1]
  exact hup

end RaftNode

namespace Moment

variable {m m' : Moment net} {rest : List NodeId} {B : Int}

/-! ## Restarts -/

/-- The server is live and follows or stands, and its election timer is armed. -/
structure Awake (m : Moment net) (n : NodeId) : Prop where
  alive : (m.node n).alive = true
  role : (m.node n).role ≠ .leader
  armed : (n, Effect.schedule .election (m.node n).timerSeq) ∈ m.world.trace

/-- What happens to others does not concern it. -/
theorem After.awake (h : m.After p after m') (hne : c ≠ p) (hc : m.Awake c) : m'.Awake c := by
  have hsame := h.elsewhere c hne
  exact ⟨by rw [hsame]; exact hc.alive, by rw [hsame]; exact hc.role, by rw [hsame]; exact h.kept hc.armed⟩

/-- The configuration of a server comes back from its log and its snapshot. -/
theorem rebuild_voters (m : Moment net) (n : NodeId) : (m.node n).rebuildConfig.voters = (m.node n).voters := by
  obtain ⟨a, hs⟩ := m.simulated
  have h := (hs.node n).stored
  have hrebuilt := Stored.rebuildConfig h.nonneg h.le h.live h.baseTerm h.snapshot h.initialVoters
  exact hrebuilt.voters.trans h.voters.symm

/-- Servers can be restarted: they lose nothing of their logs, and their election timers are armed. -/
theorem can_wake (m : Moment net) (V : List NodeId) :
    Can Next (fun m' => ∀ n ∈ V, (m.node n).Retains (m'.node n) ∧ m'.Awake n) m := by
  refine Can.each (P := fun rest m' => ∀ n ∈ V, (m.node n).Retains (m'.node n) ∧ (n ∈ rest ∨ m'.Awake n)) ?_ ?_
    (fun n hn => ⟨.refl _, Or.inl hn⟩)
  · intro m' h
    refine Can.now fun n hn => ?_
    obtain ⟨hkeeps, hrest | hawake⟩ := h n hn
    · simp at hrest
    · exact ⟨hkeeps, hawake⟩
  · intro i rest m' h
    refine can_restart i fun m₁ m₂ h₁ h₂ => Can.now (Or.inr fun n hn => ?_)
    obtain ⟨hkeeps, hwake⟩ := h n hn
    by_cases hni : n = i
    · subst hni
      have hpause := pause_fields (m'.node n)
      have hrebuilt := m'.rebuild_voters n
      have hnode : m₂.node n = (m'.node n).pause.rested.resume.rested := by rw [h₂.here, h₁.here]
      refine ⟨⟨?_, ?_, ?_, ?_⟩, Or.inr ⟨?_, ?_, ?_⟩⟩
      · rw [hnode, hpause]
        exact hkeeps.log
      · rw [hnode, hpause]
        exact hkeeps.baseIndex
      · rw [hnode, hpause]
        exact hkeeps.baseTerm
      · rw [hnode, hpause]
        exact hrebuilt.trans hkeeps.voters
      · rw [hnode]
        rfl
      · rw [hnode, hpause]
        simp [RaftNode.rested, RaftNode.resume, armElectionTimer, emit]
      · refine h₂.calls _ ?_
        rw [h₂.here]
        simp [RaftNode.rested, RaftNode.resume, armElectionTimer, emit]
    · have hsame : m₂.node n = m'.node n := (h₂.elsewhere n hni).trans (h₁.elsewhere n hni)
      refine ⟨hsame ▸ hkeeps, hwake.imp (fun hmem => (List.mem_cons.1 hmem).resolve_left hni) fun hawake => ?_⟩
      exact h₂.awake hni (h₁.awake hni hawake)

/-! ## Standing for a term -/

/-- The list `G` names a majority of the voters. -/
structure Most (V G : List NodeId) : Prop where
  nodup : G.Nodup
  subset : G ⊆ V
  majority : V.length < G.length * 2

/-- Server `c` can stand: it is live and does not lead, and the other voters are live and in no later term than `B`; those in `G` are
behind it. -/
structure Able (m : Moment net) (c : NodeId) (V G : List NodeId) (log : List Entry) (B : Int) : Prop where
  awake : m.Awake c
  voters : (m.node c).voters = V
  log : (m.node c).log = log
  others : ∀ p ∈ V, p ≠ c → (m.node p).alive = true ∧ (m.node p).term ≤ B
  behind : ∀ p ∈ G, p ≠ c → (m.node p).Behind (m.node c)

/-- Server `c` stands for a term that is later than those of the voters in `rest`, whom it has asked for their votes, and it has those of
the others in `G`. -/
structure Stands (m : Moment net) (c : NodeId) (V G : List NodeId) (log : List Entry) (rest : List NodeId) : Prop where
  alive : (m.node c).alive = true
  role : (m.node c).role = .candidate
  voters : (m.node c).voters = V
  log : (m.node c).log = log
  short : (m.node c).Short
  votes : ∀ p ∈ G, p ∉ rest → p ∈ (m.node c).votes
  others : ∀ p ∈ V, p ≠ c → (m.node p).alive = true ∧ (m.node p).term ≤ (m.node c).term
  nodup : rest.Nodup
  subset : ∀ p ∈ rest, p ∈ V ∧ p ≠ c
  earlier : ∀ p ∈ rest, (m.node p).term < (m.node c).term ∧ (m.node p).Behind (m.node c)
  asked : ∀ t, (m.node c).termAt (m.node c).lastLogIndex = .ok t → ∀ p ∈ rest,
    (c, Effect.send p (.requestVote ⟨(m.node c).term, c, (m.node c).lastLogIndex, t⟩)) ∈ m.world.trace

/-- A server that can stand can stand for a term that is later than those of all other voters. -/
theorem Able.can_stand (h : m.Able c V G log B) (hG : Most V G) (hc : c ∈ V) (htwo : 2 ≤ V.length) :
    Can Next (fun m' => m'.Stands c V G log (G.filter (· ≠ c))) m := by
  refine Can.descend (P := fun n m => m.Able c V G log B ∧ B < (m.node c).term + n) ?_
    (n := (B + 1 - (m.node c).term).toNat) ⟨h, by omega⟩
  clear h
  rintro n m ⟨h, hn⟩
  obtain ⟨t, ht⟩ := (m.node c).termAt_ok le_rfl
  have hid := m.node_id c
  obtain ⟨es, hfire, harmed, hasked⟩ := RaftNode.campaigns h.awake.alive h.awake.role (by rw [hid, h.voters]; exact hc)
    (by rw [h.voters]; exact htwo) ht
  refine can_elect h.awake.armed fun after m' hafter hm => Can.now ?_
  obtain rfl := Except.ok.inj (hfire.symm.trans hafter)
  have hnode := hm.here
  have hkeeps : (m.node c).Retains (m'.node c) := by
    rw [hnode]
    exact ⟨rfl, rfl, rfl, rfl⟩
  have hterm : (m'.node c).term = (m.node c).term + 1 := by rw [hnode]; rfl
  have hothers : ∀ p ∈ V, p ≠ c → (m'.node p).alive = true ∧ (m'.node p).term ≤ B := by
    intro p hp hpc
    rw [hm.elsewhere p hpc]
    exact h.others p hp hpc
  have hbehind : ∀ p ∈ G, p ≠ c → (m'.node p).Behind (m'.node c) := by
    intro p hp hpc
    rw [hm.elsewhere p hpc]
    exact (h.behind p hp hpc).retains (.refl _) hkeeps
  have hcalls : ∀ e ∈ es, (c, e) ∈ m'.world.trace := fun e he => hm.calls e (List.mem_append_right _ he)
  have hawake : m'.Awake c := by
    refine ⟨by rw [hnode]; exact h.awake.alive, by rw [hnode]; simp [RaftNode.rested], ?_⟩
    rw [hnode]
    exact hcalls _ harmed
  by_cases hlt : B < (m'.node c).term
  · left
    have hvotes : (m'.node c).votes = {c} := by
      rw [hnode]
      show ({(m.node c).id} : Finset NodeId) = {c}
      rw [hid]
    refine ⟨hawake.alive, by rw [hnode]; rfl, hkeeps.voters.trans h.voters, hkeeps.log.trans h.log, ?_, ?_, ?_,
      hG.nodup.filter _, ?_, ?_, ?_⟩
    · have hcard : ((m'.node c).votes.filter (· ∈ (m'.node c).voters)).card ≤ 1 := by
        rw [hvotes]
        exact (Finset.card_filter_le _ _).trans (Finset.card_singleton c).le
      rw [RaftNode.Short, hkeeps.voters.trans h.voters] at *
      omega
    · intro p hp hrest
      rw [hvotes, Finset.mem_singleton]
      by_contra hne
      exact hrest (List.mem_filter.2 ⟨hp, by simpa using hne⟩)
    · intro p hp hpc
      obtain ⟨halive, hle⟩ := hothers p hp hpc
      exact ⟨halive, hle.trans hlt.le⟩
    · intro p hp
      obtain ⟨hpG, hpc⟩ := List.mem_filter.1 hp
      exact ⟨hG.subset hpG, by simpa using hpc⟩
    · intro p hp
      obtain ⟨hpG, hpc⟩ := List.mem_filter.1 hp
      have hpc : p ≠ c := by simpa using hpc
      exact ⟨(hothers p (hG.subset hpG) hpc).2.trans_lt hlt, hbehind p hpG hpc⟩
    · intro t' ht' p hp
      rw [hkeeps.last.2, ht, Except.ok.injEq] at ht'
      subst ht'
      obtain ⟨hpG, hpc⟩ := List.mem_filter.1 hp
      have hother : p ∈ (m.node c).otherVoters := by
        rw [RaftNode.otherVoters, h.voters, hid]
        exact List.mem_filter.2 ⟨hG.subset hpG, hpc⟩
      have hmem := hcalls _ (hasked p hother)
      rwa [hid, ← hkeeps.last.1, ← hterm] at hmem
  · right
    refine ⟨n - 1, by omega, ⟨hawake, hkeeps.voters.trans h.voters, hkeeps.log.trans h.log, hothers, hbehind⟩, by omega⟩

/-! ## Winning -/

/-- Server `c` leads the voters, none of which is down or in a later term, and its heartbeat is due. -/
structure Presides (m : Moment net) (c : NodeId) (V : List NodeId) : Prop where
  alive : (m.node c).alive = true
  role : (m.node c).role = .leader
  voters : (m.node c).voters = V
  armed : (c, Effect.schedule .heartbeat (m.node c).timerSeq) ∈ m.world.trace
  others : ∀ p ∈ V, p ≠ c → (m.node p).alive = true ∧ (m.node p).term ≤ (m.node c).term

/-- A candidate that has all of these votes has won. -/
theorem Stands.rest_ne_nil (h : m.Stands c V G log rest) (hG : Most V G) : rest ≠ [] := by
  rintro rfl
  have hsub : G.toFinset ⊆ (m.node c).votes.filter (· ∈ (m.node c).voters) := by
    intro p hp
    rw [List.mem_toFinset] at hp
    exact Finset.mem_filter.2 ⟨h.votes p hp (List.not_mem_nil), by rw [h.voters]; exact hG.subset hp⟩
  have hcard := Finset.card_le_card hsub
  rw [List.toFinset_card_of_nodup hG.nodup] at hcard
  have hmajority := hG.majority
  have hshort := h.short
  rw [RaftNode.Short, h.voters] at hshort
  rw [h.voters] at hcard
  omega

/-- One more of the voters is asked and answers: the candidate wins, or it has one more vote. -/
theorem Stands.can_ask (h : m.Stands c V G log (p :: rest)) :
    Can Next (fun m' => (m'.Presides c V ∧ (m'.node c).log = log ∧ (m'.node c).clientIndex = clientIndexOf ∅ log) ∨
      m'.Stands c V G log rest) m := by
  obtain ⟨hpV, hpc⟩ := h.subset p List.mem_cons_self
  obtain ⟨hpalive, -⟩ := h.others p hpV hpc
  obtain ⟨hplt, t, t', ht, ht', hup⟩ := h.earlier p List.mem_cons_self
  refine can_deliver (h.asked t' ht' p List.mem_cons_self) fun voter m₁ hvoter h₁ => ?_
  obtain ⟨voter', hgrants, hvalive, hvterm, hreply⟩ :=
    RaftNode.grants ⟨(m.node c).term, c, (m.node c).lastLogIndex, t'⟩ hpalive hplt ht hup
  obtain rfl := Except.ok.inj (hgrants.symm.trans hvoter)
  have hc₁ : m₁.node c = m.node c := h₁.elsewhere c (Ne.symm hpc)
  have halive : (m₁.node c).alive = true := by rw [hc₁]; exact h.alive
  have hrole : (m₁.node c).role = .candidate := by rw [hc₁]; exact h.role
  have hreply : (p, Effect.send c (.voteReply ⟨(m₁.node c).term, p, true⟩)) ∈ m₁.world.trace := by
    have hmem := h₁.calls _ hreply
    rw [m.node_id p] at hmem
    rw [hc₁]
    exact hmem
  refine can_deliver hreply fun winner m₂ hwinner h₂ => Can.now ?_
  rw [RaftNode.counts_vote halive hrole, hc₁] at hwinner
  have hp₂ : m₂.node p = voter'.rested := (h₂.elsewhere p hpc).trans h₁.here
  have hothers : ∀ q ∈ V, q ≠ c → (m₂.node q).alive = true ∧ (m₂.node q).term ≤ (m.node c).term := by
    intro q hq hqc
    by_cases hqp : q = p
    · subst hqp
      rw [hp₂]
      exact ⟨hvalive, hvterm.le⟩
    · rw [h₂.elsewhere q hqc, h₁.elsewhere q hqp]
      exact h.others q hq hqc
  rcases RaftNode.maybeWin_cases { m.node c with votes := insert p (m.node c).votes } h.role winner hwinner with
    ⟨rfl, hshort⟩ | ⟨es, rfl, harmed⟩
  · right
    have hnode : m₂.node c = { m.node c with votes := insert p (m.node c).votes, out := [] } := h₂.here
    have hkeeps : (m.node c).Retains (m₂.node c) := by
      rw [hnode]
      exact ⟨rfl, rfl, rfl, rfl⟩
    have hterm : (m₂.node c).term = (m.node c).term := by rw [hnode]
    have hrest : ∀ q ∈ rest, m₂.node q = m.node q := by
      intro q hq
      have hqc := (h.subset q (List.mem_cons_of_mem _ hq)).2
      have hqp : q ≠ p := fun heq => (List.nodup_cons.1 h.nodup).1 (heq ▸ hq)
      rw [h₂.elsewhere q hqc, h₁.elsewhere q hqp]
    refine ⟨by rw [hnode]; exact h.alive, by rw [hnode]; exact h.role, hkeeps.voters.trans h.voters, hkeeps.log.trans h.log, ?_, ?_, ?_,
      (List.nodup_cons.1 h.nodup).2, fun q hq => h.subset q (List.mem_cons_of_mem _ hq), ?_, ?_⟩
    · rw [hnode]
      exact hshort
    · intro q hq hqrest
      rw [hnode]
      show q ∈ insert p (m.node c).votes
      by_cases hqp : q = p
      · rw [hqp]
        exact Finset.mem_insert_self _ _
      · exact Finset.mem_insert_of_mem (h.votes q hq fun hmem => (List.mem_cons.1 hmem).elim hqp hqrest)
    · rw [hterm]
      exact hothers
    · intro q hq
      obtain ⟨hlt, hbehind⟩ := h.earlier q (List.mem_cons_of_mem _ hq)
      rw [hrest q hq, hterm]
      exact ⟨hlt, hbehind.retains (.refl _) hkeeps⟩
    · intro s hs q hq
      rw [hkeeps.last.2] at hs
      rw [hkeeps.last.1, hterm]
      exact h₂.kept (h₁.kept (h.asked s hs q (List.mem_cons_of_mem _ hq)))
  · left
    have hnode := h₂.here
    have hlog : (m₂.node c).log = log := by
      rw [hnode]
      exact h.log
    refine ⟨⟨by rw [hnode]; exact h.alive, by rw [hnode]; rfl, by rw [hnode]; exact h.voters, ?_, ?_⟩, hlog, ?_⟩
    · have hmem := h₂.calls _ (List.mem_append_right _ harmed)
      rw [hnode]
      exact hmem
    · rw [hnode]
      exact hothers
    · rw [← h.log, hnode]
      rfl

/-- A server that stands for a term that is later than those of all other voters can be elected by a majority of them. -/
theorem Stands.can_win (h : m.Stands c V G log rest) (hG : Most V G) :
    Can Next (fun m' => m'.Presides c V ∧ (m'.node c).log = log ∧ (m'.node c).clientIndex = clientIndexOf ∅ log) m :=
  Can.each (P := fun rest m => m.Stands c V G log rest) (fun _ h => absurd rfl (h.rest_ne_nil hG)) (fun _ _ _ h => h.can_ask) h

/-- A server that is among its voters, of which there are two or more, and whose log is as up to date as those of a majority of them, can
be elected. -/
theorem can_elect_upToDate (m : Moment net) (hc : c ∈ (m.node c).voters) (htwo : 2 ≤ (m.node c).voters.length)
    (hG : Most (m.node c).voters G) (hup : ∀ p ∈ G, (m.node p).Behind (m.node c)) :
    Can Next (fun m' => m'.Presides c (m.node c).voters ∧ (m'.node c).log = (m.node c).log ∧
      (m'.node c).clientIndex = clientIndexOf ∅ (m.node c).log) m := by
  refine (can_wake m (m.node c).voters).bind fun m₁ hwake => ?_
  obtain ⟨hkeeps, hawake⟩ := hwake c hc
  obtain ⟨B, hB⟩ : ∃ B, ∀ p ∈ (m.node c).voters, (m₁.node p).term ≤ B := by
    obtain ⟨B, hB⟩ := ((m.node c).voters.map fun p => (m₁.node p).term).toFinset.exists_le
    exact ⟨B, fun p hp => hB _ (List.mem_toFinset.2 (List.mem_map.2 ⟨p, hp, rfl⟩))⟩
  have hable : m₁.Able c (m.node c).voters G (m.node c).log B := by
    refine ⟨hawake, hkeeps.voters, hkeeps.log, fun p hp _ => ⟨(hwake p hp).2.alive, hB p hp⟩, fun p hp _ => ?_⟩
    exact (hup p hp).retains (hwake p (hG.subset hp)).1 hkeeps
  exact (hable.can_stand hG hc htwo).bind fun _ hstands => hstands.can_win hG

end Moment

end DeterministicRaft
