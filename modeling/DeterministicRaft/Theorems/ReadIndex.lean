import DeterministicRaft.Consensus.Confirmation
import DeterministicRaft.Operations.Reads
import DeterministicRaft.Theorems.Safety

/-!
# Reads that wait for the leader to be confirmed

A read that is served was confirmed by a majority after it was asked for, so no leader of a later term had been elected when it
was: everything committed by then was known to the leader that took it.
-/

namespace DeterministicRaft

open Consensus Refinement

variable {net : Network} {w w' : World} {act : Action} {n : NodeId}

/-! ## What a step does to the reads -/

/-- What a step does at node `n`, as far as reads go: nothing, or it accepts a read, answers a ping, or counts a confirmation. -/
inductive ReadStep (w : World) (act : Action) (n : NodeId) (after : RaftNode) : Prop where
  | other : LeavesReads (w.nodes n) after → ReadStep w act n after
  | asked (command : String) : act = .requestRead n command → ((w.nodes n).requestRead command).2 = true →
      after = (withRead (w.nodes n) command).tryServeRead (w.nodes n).nextReadId → ReadStep w act n after
  | pinged (src : NodeId) (msg : ReadHeartbeat) (mid : RaftNode) : (src, Effect.send n (.readHeartbeat msg)) ∈ w.trace →
      LeavesReads (w.nodes n) mid →
      after = mid.send msg.leader (.readAck { term := mid.term, follower := mid.id, readId := msg.readId }) →
      ReadStep w act n after
  | confirmed (src : NodeId) (msg : ReadAck) (p : PendingRead) : (src, Effect.send n (.readAck msg)) ∈ w.trace →
      (w.nodes n).pendingReads.lookup msg.readId = some p → msg.term = (w.nodes n).term → (w.nodes n).role = .leader →
      after = (withAck (w.nodes n) msg p).tryServeRead msg.readId → ReadStep w act n after

/-- A step changes one node, which becomes `after`, and adds its calls to the trace. -/
def World.Becomes (w : World) (n : NodeId) (after : RaftNode) (w' : World) : Prop :=
  w' = { nodes := Function.update w.nodes n { after with out := [] }, trace := w.trace ++ calls n after.out }

/-- What performing an operation leads to. -/
theorem World.becomes_of_perform {op : RaftNode → Except PyError RaftNode} (h : w.perform n op = .ok w') :
    ∃ after, op (w.nodes n) = .ok after ∧ w.Becomes n after w' := by
  unfold World.perform at h
  cases hop : op (w.nodes n) with
  | error e =>
    rw [hop] at h
    cases h
  | ok after =>
    rw [hop] at h
    cases h
    exact ⟨after, rfl, rfl⟩

/-- Every step, as far as reads go. -/
theorem World.step_reads (h : w.step act = .ok w') : w' = w ∨ ∃ n after, ReadStep w act n after ∧ w.Becomes n after w' := by
  have other : ∀ {m : NodeId} {op : RaftNode → Except PyError RaftNode}, w.perform m op = .ok w' →
      Bystands (w.nodes m) (op (w.nodes m)) → w' = w ∨ ∃ n after, ReadStep w act n after ∧ w.Becomes n after w' := by
    intro m op hp hb
    obtain ⟨after, hop, hw⟩ := World.becomes_of_perform hp
    exact Or.inr ⟨m, after, .other (hb after hop), hw⟩
  cases act with
  | deliver k =>
    simp only [World.step] at h
    split at h
    · rename_i src dst msg hk
      have hmem := List.mem_of_getElem? hk
      unfold RaftNode.handle at h
      by_cases halive : (w.nodes dst).alive = false
      · refine other h ?_
        rw [if_pos halive]
        exact Ensures.pure (LeavesReads.refl _)
      · have hop : ∀ x : Except PyError RaftNode, (if (w.nodes dst).alive = false then Except.ok (w.nodes dst) else x) = x := fun x => if_neg halive
        cases msg with
        | requestVote msg => exact other h (by rw [hop]; exact Bystands.onRequestVote _ msg)
        | voteReply msg => exact other h (by rw [hop]; exact Bystands.onVoteReply _ msg)
        | appendEntries msg => exact other h (by rw [hop]; exact Bystands.onAppendEntries _ msg)
        | appendReply msg => exact other h (by rw [hop]; exact Bystands.onAppendReply _ msg)
        | installSnapshot msg => exact other h (by rw [hop]; exact Bystands.onInstallSnapshot _ msg)
        | readHeartbeat msg =>
          obtain ⟨after, hafter, hw⟩ := World.becomes_of_perform h
          rw [hop] at hafter
          cases hafter
          obtain ⟨mid, hl, heq⟩ := onReadHeartbeat_eq (w.nodes dst) msg
          exact Or.inr ⟨dst, _, .pinged src msg mid hmem hl heq, hw⟩
        | readAck msg =>
          obtain ⟨after, hafter, hw⟩ := World.becomes_of_perform h
          rw [hop] at hafter
          cases hafter
          rcases onReadAck_cases (w.nodes dst) msg with hl | ⟨p, hp, ht, hr, heq⟩
          · exact Or.inr ⟨dst, _, .other hl, hw⟩
          · exact Or.inr ⟨dst, _, .confirmed src msg p hmem hp ht hr heq, hw⟩
    · cases h
      exact Or.inl rfl
  | fire k =>
    simp only [World.step] at h
    split at h
    · rename_i m kind seq hk
      refine other h ?_
      cases kind with
      | election => exact Bystands.onElectionTimeout _ seq
      | heartbeat => exact Bystands.onHeartbeat _ seq
    · cases h
      exact Or.inl rfl
  | clientCommand m command =>
    rw [World.step] at h
    exact other h (Bystands.clientCommand _ command)
  | changeConfig m newVoters =>
    rw [World.step] at h
    exact other h (Bystands.changeConfig _ newVoters)
  | requestRead m command =>
    rw [World.step] at h
    obtain ⟨after, hafter, hw⟩ := World.becomes_of_perform h
    cases hafter
    by_cases hacc : ((w.nodes m).requestRead command).2 = true
    · refine Or.inr ⟨m, _, .asked command rfl hacc ?_, hw⟩
      rw [requestRead_eq] at hacc ⊢
      split at hacc
      · cases hacc
      · rename_i hg
        rw [if_neg hg]
    · refine Or.inr ⟨m, _, .other ?_, hw⟩
      rw [requestRead_eq] at hacc ⊢
      split
      · exact LeavesReads.refl _
      · rename_i hg
        rw [if_neg hg] at hacc
        exact absurd rfl hacc
  | pause m =>
    rw [World.step] at h
    exact other h (Ensures.pure (LeavesReads.pause _))
  | resume m =>
    rw [World.step] at h
    exact other h (Ensures.pure (LeavesReads.resume _))

/-- Trying to serve a read changes the waiting reads and the calls only. -/
theorem tryServeRead_fields (self : RaftNode) (id : Int) : ∃ reads out, self.tryServeRead id =
    { self with pendingReads := reads, out := self.out ++ out } ∧
    (∀ i p, reads.lookup i = some p → self.pendingReads.lookup i = some p) ∧
    ∀ dst msg, Effect.send dst msg ∉ out := by
  rcases tryServeRead_cases self id with h | ⟨p, -, -, -, h⟩
  · exact ⟨self.pendingReads, [], by rw [h, List.append_nil], fun _ _ hp => hp, by simp⟩
  · refine ⟨_, _, h, fun i q hq => ?_, by simp⟩
    by_cases hi : i = id
    · subst hi
      rw [Finmap.lookup_erase] at hq
      cases hq
    · rwa [Finmap.lookup_erase_ne hi] at hq

/-- The numbers of the reads only grow. -/
theorem ReadStep.nextReadId_le {after : RaftNode} (h : ReadStep w act n after) : (w.nodes n).nextReadId ≤ after.nextReadId := by
  cases h with
  | other h => exact h.nextReadId.ge
  | asked command hact hacc hafter =>
    obtain ⟨reads, out, h, -⟩ := tryServeRead_fields (withRead (w.nodes n) command) (w.nodes n).nextReadId
    rw [hafter, h]
    exact (Int.lt_succ _).le
  | pinged src msg mid hmem h hafter =>
    rw [hafter]
    exact h.nextReadId.ge
  | confirmed src msg p hmem hp ht hr hafter =>
    obtain ⟨reads, out, h, -⟩ := tryServeRead_fields (withAck (w.nodes n) msg p) msg.readId
    rw [hafter, h]
    exact le_rfl

/-- A call that is no read is not among the calls of a read. -/
theorem LeavesReads.notMem {self after : RaftNode} (h : LeavesReads self after) (hout : self.out = []) {e : Effect}
    (he : e.isRead = true) : e ∉ after.out := by
  obtain ⟨es, h1, h2⟩ := h.calls
  intro hmem
  rw [h1, hout, List.nil_append] at hmem
  rw [h2 e hmem] at he
  cases he

/-- A ping carries a number that has been given to a read. -/
theorem ReadStep.ping {after : RaftNode} (h : ReadStep w act n after) (hout : (w.nodes n).out = []) {dst : NodeId}
    {msg : ReadHeartbeat} (he : Effect.send dst (.readHeartbeat msg) ∈ after.out) : msg.readId < after.nextReadId := by
  cases h with
  | other h => exact absurd he (h.notMem hout rfl)
  | asked command hact hacc hafter =>
    obtain ⟨reads, out, h, -, hno⟩ := tryServeRead_fields (withRead (w.nodes n) command) (w.nodes n).nextReadId
    rw [hafter, h] at he
    rw [hafter, h]
    rcases List.mem_append.1 he with he | he
    · simp only [withRead, hout, List.nil_append, List.mem_append, List.mem_singleton, List.mem_map, reduceCtorEq,
        false_or] at he
      obtain ⟨p, -, hp⟩ := he
      simp only [DeterministicRaft.ping, Effect.send.injEq, Message.readHeartbeat.injEq] at hp
      rw [← hp.2]
      exact Int.lt_succ _
    · exact absurd he (hno _ _)
  | pinged src msg' mid hmem h hafter =>
    rw [hafter] at he
    rcases List.mem_append.1 he with he | he
    · exact absurd he (h.notMem hout rfl)
    · simp at he
  | confirmed src msg' p hmem hp ht hr hafter =>
    obtain ⟨reads, out, h, -, hno⟩ := tryServeRead_fields (withAck (w.nodes n) msg' p) msg'.readId
    rw [hafter, h] at he
    simp only [withAck, hout, List.nil_append] at he
    exact absurd he (hno _ _)

/-- A confirmation answers a ping, with the term the node is in. -/
theorem ReadStep.ack {after : RaftNode} (h : ReadStep w act n after) (hout : (w.nodes n).out = []) {dst : NodeId}
    {msg : ReadAck} (he : Effect.send dst (.readAck msg) ∈ after.out) : msg.term = after.term ∧
      ∃ src ping, (src, Effect.send n (.readHeartbeat ping)) ∈ w.trace ∧ dst = ping.leader ∧ msg.readId = ping.readId := by
  cases h with
  | other h => exact absurd he (h.notMem hout rfl)
  | asked command hact hacc hafter =>
    obtain ⟨reads, out, h, -, hno⟩ := tryServeRead_fields (withRead (w.nodes n) command) (w.nodes n).nextReadId
    rw [hafter, h] at he
    rcases List.mem_append.1 he with he | he
    · simp [withRead, hout, DeterministicRaft.ping] at he
    · exact absurd he (hno _ _)
  | pinged src msg' mid hmem h hafter =>
    rw [hafter] at he ⊢
    rcases List.mem_append.1 he with he | he
    · exact absurd he (h.notMem hout rfl)
    · simp only [List.mem_singleton, Effect.send.injEq, Message.readAck.injEq] at he
      obtain ⟨h1, h2⟩ := he
      rw [h2]
      exact ⟨rfl, src, msg', hmem, h1, rfl⟩
  | confirmed src msg' p hmem hp ht hr hafter =>
    obtain ⟨reads, out, h, -, hno⟩ := tryServeRead_fields (withAck (w.nodes n) msg' p) msg'.readId
    rw [hafter, h] at he
    simp only [withAck, hout, List.nil_append] at he
    exact absurd he (hno _ _)

/-! ## Reads in a run -/

namespace Run

variable (r : Run net)

/-- At the moment `k` the read `command` is asked for at node `n`, which accepts it under the number `id`. -/
structure Accepts (k : ℕ) (n : NodeId) (id : Int) (command : String) : Prop where
  action : r.action k = .requestRead n command
  accepted : (((r.state k).nodes n).requestRead command).2 = true
  number : id = ((r.state k).nodes n).nextReadId

/-- In the step after the moment `k` node `n` serves the read `id`: it records so, and calls back with the result. -/
def Serves (k : ℕ) (n : NodeId) (id : Int) (command result : String) : Prop :=
  ∃ before after, (r.state (k + 1)).trace = (r.state k).trace ++
    calls n (before ++ .record (.readserved id command) :: .onApply command result :: after)

/-- The read `p` that waits at node `n` under `id` at the moment `k` was accepted at the moment `j`, in the same term, and every
node that has confirmed it was in that term at some moment after. -/
structure Waits (k : ℕ) (n : NodeId) (id : Int) (p : PendingRead) (j : ℕ) : Prop where
  le : j ≤ k
  accepted : r.Accepts j n id p.command
  index : p.readIndex = ((r.state j).nodes n).commitIndex
  term : ((r.state k).nodes n).term = ((r.state j).nodes n).term
  acks : ∀ f ∈ p.acks, ∃ i, j ≤ i ∧ ((r.state i).nodes f).term = ((r.state j).nodes n).term

/-- What holds of the reads at a moment of a run. -/
structure ReadsAt (k : ℕ) : Prop where
  waits : ∀ n id p, ((r.state k).nodes n).pendingReads.lookup id = some p →
    ((r.state k).nodes n).role = .leader ∧ ∃ j, r.Waits k n id p j
  pinged : ∀ src dst msg, (src, Effect.send dst (.readHeartbeat msg)) ∈ (r.state k).trace →
    msg.readId < ((r.state k).nodes src).nextReadId
  acked : ∀ src dst msg, (src, Effect.send dst (.readAck msg)) ∈ (r.state k).trace →
    ∃ i, ((r.state i).nodes src).term = msg.term ∧ msg.readId < ((r.state i).nodes dst).nextReadId

variable {r}

theorem Waits.later {k l : ℕ} {n : NodeId} {id : Int} {p : PendingRead} {j : ℕ} (h : r.Waits k n id p j) (hkl : k ≤ l)
    (ht : ((r.state l).nodes n).term = ((r.state k).nodes n).term) : r.Waits l n id p j :=
  ⟨h.le.trans hkl, h.accepted, h.index, ht.trans h.term, h.acks⟩

/-- What accepting a read requires of the node. -/
theorem Accepts.leads {k : ℕ} {n : NodeId} {id : Int} {command : String} (h : r.Accepts k n id command) :
    ((r.state k).nodes n).role = .leader ∧ ((r.state k).nodes n).alive = true ∧
      ((r.state k).nodes n).committedThisTerm = true := by
  have hacc := h.accepted
  rw [requestRead_eq] at hacc
  split at hacc
  · cases hacc
  · rename_i hg
    push Not at hg
    exact ⟨hg.1, by simpa using hg.2.1, by simpa using hg.2.2⟩

variable (r)

/-- The step after a moment, as far as reads go. -/
theorem readStep (k : ℕ) : r.state (k + 1) = r.state k ∨
    ∃ n after, ReadStep (r.state k) (r.action k) n after ∧ (r.state k).Becomes n after (r.state (k + 1)) :=
  World.step_reads (r.next k)

/-- The numbers of the reads only grow. -/
theorem nextReadId_le {k l : ℕ} (hkl : k ≤ l) (n : NodeId) :
    ((r.state k).nodes n).nextReadId ≤ ((r.state l).nodes n).nextReadId := by
  induction hkl with
  | refl => exact le_rfl
  | @step l _ ih =>
    refine ih.trans ?_
    rcases r.readStep l with h | ⟨m, after, h, hw⟩
    · rw [h]
    · rw [hw]
      by_cases hmn : n = m
      · subst hmn
        simpa using h.nextReadId_le
      · simp [Function.update_of_ne hmn]

variable {r}

/-- A read waits as soon as it is accepted. -/
theorem Accepts.waits {k : ℕ} {n : NodeId} {id : Int} {command : String} (h : r.Accepts k n id command)
    (hn : ((r.state k).nodes n).id = n) :
    r.Waits k n id ⟨command, ((r.state k).nodes n).commitIndex, {((r.state k).nodes n).id}⟩ k := by
  refine ⟨le_rfl, h, rfl, rfl, fun f hf => ⟨k, le_rfl, ?_⟩⟩
  rw [Finset.mem_singleton.1 hf, hn]

/-- One more confirmation: it was sent after the number had been given, so after the read was accepted. -/
theorem ReadsAt.waits_ack {k : ℕ} (h : r.ReadsAt k) {a : State NodeId Entry} (hsim : Simulates net a (r.state k))
    {src n : NodeId} {msg : ReadAck} (hmem : (src, Effect.send n (.readAck msg)) ∈ (r.state k).trace) {p : PendingRead}
    (hp : ((r.state k).nodes n).pendingReads.lookup msg.readId = some p) (ht : msg.term = ((r.state k).nodes n).term) :
    ∃ j, r.Waits k n msg.readId { p with acks := insert msg.follower p.acks } j := by
  obtain ⟨-, j, hw⟩ := h.waits n msg.readId p hp
  refine ⟨j, hw.le, hw.accepted, hw.index, hw.term, fun f hf => ?_⟩
  rcases Finset.mem_insert.1 hf with rfl | hf
  · obtain ⟨i, h1, h2⟩ := h.acked src n msg hmem
    obtain ⟨_, _, hfol⟩ := hsim.traced.mem hmem
    refine ⟨i, ?_, ?_⟩
    · by_contra hij
      have := r.nextReadId_le (show i ≤ j by omega) n
      rw [← hw.accepted.number] at this
      omega
    · rw [hfol, h1, ht, hw.term]
  · exact hw.acks f hf

/-- A read that waits after a step waited before it, was accepted in it, or has one more confirmation. -/
theorem ReadsAt.waits_succ {k : ℕ} (h : r.ReadsAt k) {a : State NodeId Entry} (hsim : Simulates net a (r.state k)) {n : NodeId}
    {after : RaftNode} (hstep : ReadStep (r.state k) (r.action k) n after)
    (hnow : ((r.state (k + 1)).nodes n).term = after.term) {id : Int} {p : PendingRead}
    (hp : after.pendingReads.lookup id = some p) : after.role = .leader ∧ ∃ j, r.Waits (k + 1) n id p j := by
  cases hstep with
  | other hl =>
    rcases hl.pending with h0 | ⟨h1, h2⟩
    · rw [h0] at hp
      cases hp
    · rw [h1] at hp
      obtain ⟨hr, j, hw⟩ := h.waits n id p hp
      exact ⟨(h2 hr).1, j, hw.later (Nat.le_succ k) (hnow.trans (h2 hr).2)⟩
  | asked command hact hacc hafter =>
    have hacc' : r.Accepts k n ((r.state k).nodes n).nextReadId command := ⟨hact, hacc, rfl⟩
    obtain ⟨reads, out, heq, hreads, -⟩ :=
      tryServeRead_fields (withRead ((r.state k).nodes n) command) ((r.state k).nodes n).nextReadId
    rw [hafter, heq] at hp hnow ⊢
    have hin := hreads id p hp
    refine ⟨hacc'.leads.1, ?_⟩
    by_cases hid : id = ((r.state k).nodes n).nextReadId
    · subst hid
      simp only [withRead] at hin
      rw [Finmap.lookup_insert, Option.some.injEq] at hin
      subst hin
      exact ⟨k, (hacc'.waits (hsim.node n).id).later (Nat.le_succ k) hnow⟩
    · simp only [withRead] at hin
      rw [Finmap.lookup_insert_of_ne _ hid] at hin
      obtain ⟨-, j, hw⟩ := h.waits n id p hin
      exact ⟨j, hw.later (Nat.le_succ k) hnow⟩
  | pinged src msg mid hmem hl hafter =>
    rw [hafter] at hp hnow ⊢
    rcases hl.pending with h0 | ⟨h1, h2⟩
    · simp only [RaftNode.send, RaftNode.emit, h0] at hp
      cases hp
    · simp only [RaftNode.send, RaftNode.emit, h1] at hp
      obtain ⟨hr, j, hw⟩ := h.waits n id p hp
      exact ⟨(h2 hr).1, j, hw.later (Nat.le_succ k) (hnow.trans (h2 hr).2)⟩
  | confirmed src msg q hmem hq ht hr hafter =>
    obtain ⟨reads, out, heq, hreads, -⟩ := tryServeRead_fields (withAck ((r.state k).nodes n) msg q) msg.readId
    rw [hafter, heq] at hp hnow ⊢
    have hin := hreads id p hp
    refine ⟨hr, ?_⟩
    by_cases hid : id = msg.readId
    · subst hid
      simp only [withAck] at hin
      rw [Finmap.lookup_insert, Option.some.injEq] at hin
      subst hin
      obtain ⟨j, hw⟩ := h.waits_ack hsim hmem hq ht
      exact ⟨j, hw.later (Nat.le_succ k) hnow⟩
    · simp only [withAck] at hin
      rw [Finmap.lookup_insert_of_ne _ hid] at hin
      obtain ⟨-, j, hw⟩ := h.waits n id p hin
      exact ⟨j, hw.later (Nat.le_succ k) hnow⟩

variable (r)

/-- The reads of every moment of a run. -/
theorem readsAt (k : ℕ) : r.ReadsAt k := by
  obtain ⟨s, hs⟩ := r.exists_shadow
  induction k with
  | zero =>
    have htrace : ∀ src e, (src, e) ∈ (r.state 0).trace → e.isRead = false := by
      intro src e he
      rw [r.start] at he
      obtain ⟨n, -, hn⟩ := List.mem_flatMap.1 he
      obtain ⟨e', he', heq⟩ := List.mem_map.1 hn
      cases heq
      rw [List.mem_singleton.1 he']
      rfl
    refine ⟨fun n id p hp => ?_, fun src dst msg hm => ?_, fun src dst msg hm => ?_⟩
    · rw [r.start] at hp
      cases hp
    · cases htrace _ _ hm
    · cases htrace _ _ hm
  | succ k ih =>
    rcases r.readStep k with hstay | ⟨n, after, hstep, hw⟩
    · refine ⟨fun n id p hp => ?_, fun src dst msg hm => ?_, fun src dst msg hm => ?_⟩
      · rw [hstay] at hp ⊢
        obtain ⟨hr, j, hw⟩ := ih.waits n id p hp
        exact ⟨hr, j, hw.later (Nat.le_succ k) (by rw [hstay])⟩
      · rw [hstay] at hm ⊢
        exact ih.pinged src dst msg hm
      · rw [hstay] at hm
        exact ih.acked src dst msg hm
    · have hout := (hs.sim k).out n
      have hnode : (r.state (k + 1)).nodes n = { after with out := [] } := by
        rw [hw]
        exact Function.update_self ..
      have hmem : ∀ src e, (src, e) ∈ (r.state (k + 1)).trace → (src, e) ∈ (r.state k).trace ∨ (src = n ∧ e ∈ after.out) := by
        intro src e he
        rw [hw] at he
        rcases List.mem_append.1 he with he | he
        · exact Or.inl he
        · obtain ⟨e', he', heq⟩ := List.mem_map.1 he
          cases heq
          exact Or.inr ⟨rfl, he'⟩
      refine ⟨fun m id p hp => ?_, fun src dst msg hm => ?_, fun src dst msg hm => ?_⟩
      · by_cases hmn : m = n
        · subst hmn
          rw [hnode] at hp ⊢
          exact ih.waits_succ (hs.sim k) hstep (by rw [hnode]) hp
        · have hsame : (r.state (k + 1)).nodes m = (r.state k).nodes m := by
            rw [hw]
            exact Function.update_of_ne hmn ..
          rw [hsame] at hp ⊢
          obtain ⟨hr, j, hj⟩ := ih.waits m id p hp
          exact ⟨hr, j, hj.later (Nat.le_succ k) (by rw [hsame])⟩
      · rcases hmem _ _ hm with hm | ⟨rfl, hm⟩
        · exact (ih.pinged src dst msg hm).trans_le (r.nextReadId_le (Nat.le_succ k) src)
        · rw [hnode]
          exact hstep.ping hout hm
      · rcases hmem _ _ hm with hm | ⟨rfl, hm⟩
        · exact ih.acked src dst msg hm
        · obtain ⟨h1, src', ping, h2, h3, h4⟩ := hstep.ack hout hm
          obtain ⟨_, _, hlead⟩ := (hs.sim k).traced.mem h2
          refine ⟨k + 1, by rw [hnode]; exact h1.symm, ?_⟩
          rw [h4, h3, hlead]
          exact (ih.pinged _ _ _ h2).trans_le (r.nextReadId_le (Nat.le_succ k) src')

variable {r}

/-- A read that is served has waited, a majority has confirmed it, and its result is that of the store of the moment. -/
theorem Serves.waits {k : ℕ} {n : NodeId} {id : Int} {command result : String} (h : r.Serves k n id command result) :
    ∃ p j, r.Waits k n id p j ∧ p.command = command ∧
      ((r.state k).nodes n).voters.length < (p.acks.filter (· ∈ ((r.state k).nodes n).voters)).card * 2 ∧
      p.readIndex ≤ ((r.state k).nodes n).lastApplied ∧
      result = ((r.state k).nodes n).kv.applyRead (Command.decode command) := by
  obtain ⟨s, hs⟩ := r.exists_shadow
  obtain ⟨before, rest, htrace⟩ := h
  rcases r.readStep k with hstay | ⟨m, after, hstep, hw⟩
  · rw [hstay] at htrace
    have := congrArg List.length htrace
    simp [calls] at this
  rw [hw] at htrace
  have hcalls := List.append_cancel_left htrace
  have hm : m = n := by
    have : (n, Effect.record (.readserved id command)) ∈ calls m after.out := by
      rw [hcalls]
      exact List.mem_map.2 ⟨_, by simp, rfl⟩
    obtain ⟨_, _, heq⟩ := List.mem_map.1 this
    exact congrArg Prod.fst heq
  subst hm
  have hout : after.out = before ++ .record (.readserved id command) :: .onApply command result :: rest :=
    List.map_injective_iff.2 (fun e e' he => congrArg Prod.snd he) hcalls
  have hmem : Effect.record (.readserved id command) ∈ after.out := by
    rw [hout]
    simp
  have h0 := (hs.sim k).out m
  have key : ∀ (node : RaftNode) (i : Int), Effect.record (.readserved id command) ∉ node.out →
      after = node.tryServeRead i → ∃ p, node.pendingReads.lookup i = some p ∧
        node.voters.length < (p.acks.filter (· ∈ node.voters)).card * 2 ∧ p.readIndex ≤ node.lastApplied ∧
        i = id ∧ p.command = command ∧ result = node.kv.applyRead (Command.decode command) := by
    intro node i hno hafter
    rcases tryServeRead_cases node i with heq | ⟨p, h1, h2, h3, heq⟩
    · rw [hafter, heq] at hmem
      exact absurd hmem hno
    · rw [hafter, heq] at hout
      obtain ⟨-, h4, h5⟩ := (List.append_cons_inj_of_notMem hno (by simp)).1 hout
      simp only [Effect.record.injEq, Event.readserved.injEq] at h4
      obtain ⟨rfl, rfl⟩ := h4
      simp only [List.cons.injEq, Effect.onApply.injEq, true_and] at h5
      exact ⟨p, h1, h2, h3, rfl, rfl, h5.1.symm⟩
  cases hstep with
  | other hl => exact absurd hmem (hl.notMem h0 rfl)
  | asked c hact hacc hafter =>
    obtain ⟨p, h1, h2, h3, rfl, h5, h6⟩ := key _ _ (by simp [withRead, h0, ping]) hafter
    simp only [withRead] at h1
    rw [Finmap.lookup_insert, Option.some.injEq] at h1
    subst h1
    have hacc' : r.Accepts k m ((r.state k).nodes m).nextReadId c := ⟨hact, hacc, rfl⟩
    exact ⟨_, k, hacc'.waits ((hs.sim k).node m).id, h5, h2, h3, h6⟩
  | pinged src msg mid hm hl hafter =>
    rw [hafter] at hmem
    rcases List.mem_append.1 hmem with he | he
    · exact absurd he (hl.notMem h0 rfl)
    · simp at he
  | confirmed src msg q hm hq ht hr hafter =>
    obtain ⟨p, h1, h2, h3, rfl, h5, h6⟩ := key _ _ (by simp [withAck, h0]) hafter
    simp only [withAck] at h1
    rw [Finmap.lookup_insert, Option.some.injEq] at h1
    subst h1
    obtain ⟨j, hj⟩ := (r.readsAt k).waits_ack (hs.sim k) hm hq ht
    exact ⟨_, j, hj, h5, h2, h3, h6⟩

/-- What accepting a read leads to. -/
theorem Accepts.becomes {k : ℕ} {n : NodeId} {id : Int} {command : String} (h : r.Accepts k n id command) :
    (r.state k).Becomes n ((withRead ((r.state k).nodes n) command).tryServeRead id) (r.state (k + 1)) := by
  have hnext := r.next k
  rw [h.action, World.step] at hnext
  obtain ⟨after, hafter, hw⟩ := World.becomes_of_perform hnext
  cases hafter
  have hacc := h.accepted
  rw [requestRead_eq] at hacc hw
  split at hacc
  · cases hacc
  · rename_i hg
    rw [if_neg hg] at hw
    rw [h.number]
    exact hw

/-- Accepting a read commits nothing. -/
theorem Accepts.commitIndex_succ {k : ℕ} {n : NodeId} {id : Int} {command : String} (h : r.Accepts k n id command) (m : NodeId) :
    ((r.state (k + 1)).nodes m).commitIndex = ((r.state k).nodes m).commitIndex := by
  obtain ⟨reads, out, heq, -⟩ := tryServeRead_fields (withRead ((r.state k).nodes n) command) id
  rw [h.becomes, heq]
  by_cases hmn : m = n
  · subst hmn
    simp [withRead]
  · simp [Function.update_of_ne hmn]

/-- A number is given to one read. -/
theorem Accepts.unique {j k : ℕ} {n : NodeId} {id : Int} {c d : String} (h : r.Accepts j n id c) (h' : r.Accepts k n id d) :
    j = k ∧ c = d := by
  have hstep : ∀ {i : ℕ} {e : String}, r.Accepts i n id e → id < ((r.state (i + 1)).nodes n).nextReadId := by
    intro i e hi
    obtain ⟨reads, out, heq, -⟩ := tryServeRead_fields (withRead ((r.state i).nodes n) e) id
    rw [hi.becomes, heq, hi.number]
    simp [withRead]
  have hjk : j = k := by
    rcases lt_trichotomy j k with hlt | heq | hlt
    · have := (hstep h).trans_le (r.nextReadId_le hlt n)
      rw [h'.number] at this
      omega
    · exact heq
    · have := (hstep h').trans_le (r.nextReadId_le hlt n)
      rw [h.number] at this
      omega
  subst hjk
  have := h.action.symm.trans h'.action
  simp only [Action.requestRead.injEq, true_and] at this
  exact ⟨rfl, this⟩

end Run

/-- With a fixed voting set: a read that was accepted at the moment `j` and is served after the moment `k` gives what the state
machine says after some first committed commands `C`: at least as many as any node had committed by the step that accepted it. -/
theorem read_index (hfix : net.reconfigurable = false) (r : Run net) {j k : ℕ} {n : NodeId} {id : Int}
    {command served result : String} (ha : r.Accepts j n id command) (hserve : r.Serves k n id served result) :
    j ≤ k ∧ served = command ∧ ∃ C : List String,
      (∀ (i : ℕ) (m : NodeId), i ≤ j + 1 → ((r.state i).nodes m).commitIndex ≤ C.length) ∧
      (∀ (i : ℕ) (c : String), C[i]? = some c → ∃ m, (r.state k).HasApplied m (i + 1) c) ∧
      result = (KVStateMachine.applyAll {} C).applyRead (Command.decode command) := by
  obtain ⟨p, j', hw, rfl, hmaj, hidx, hres⟩ := hserve.waits
  obtain ⟨rfl, rfl⟩ := ha.unique hw.accepted
  obtain ⟨s, hs⟩ := r.exists_shadow
  refine ⟨hw.le, rfl, (((s k).log n).take ((s k).commit n)).map (·.command), ?_, ?_, ?_⟩
  · suffices hbefore : ∀ (i : ℕ) (m : NodeId), i ≤ j → ((r.state i).nodes m).commitIndex ≤
        ((((s k).log n).take ((s k).commit n)).map (·.command)).length by
      intro i m him
      rcases Nat.lt_or_ge j i with hlt | hge
      · obtain rfl : i = j + 1 := by omega
        rw [ha.commitIndex_succ]
        exact hbefore j m le_rfl
      · exact hbefore i m hge
    intro i m him
    have hle := (hs.sim k).inv.commit_le n
    rw [List.length_map, List.length_take_of_le hle]
    have hT := ((hs.sim j).node n).term
    have hQ : net.scheme.quorum net.scheme.initial {v | v ∈ p.acks} := by
      rw [← Network.cfg_fixed hfix (hs.sim k).inv ((hs.sim k).inv.log_wf n), ← ((hs.sim k).fits n).voters]
      exact majority_of_card hmaj
    have hconf : ∀ v ∈ {v | v ∈ p.acks}, ∃ s', (s j).Extends s' ∧ Inv net.scheme s' ∧ s'.term v ≤ (s j).term n := by
      intro v hv
      obtain ⟨l, hl, ht⟩ := hw.acks v hv
      refine ⟨s l, hs.extends_of_le hl, (hs.sim l).inv, ?_⟩
      rw [← hT, ← ht, ((hs.sim l).node v).term]
    obtain ⟨hr, -, hc⟩ := ha.leads
    have hlead := ((hs.sim j).node n).leads hr
    obtain ⟨Y, hY, -⟩ := hlead.own hc
    have hknown := (hs.extends_of_le him).known ((hs.sim i).inv.commit_known m)
    have hbound := (hs.sim j).inv.length_le_of_confirmed (fun X hX => Network.cfg_fixed hfix (hs.sim j).inv hX) hY hlead.max hQ hconf
      hknown
    rw [List.length_take_of_le ((hs.sim i).inv.commit_le m)] at hbound
    have h1 := ((hs.sim i).node m).commitIndex
    have h2 := ((hs.sim k).node n).lastApplied
    have h3 := ((hs.sim j).node n).commitIndex
    have h4 := hw.index
    omega
  · intro i c hi
    rw [List.getElem?_map] at hi
    obtain ⟨e, he, hc⟩ := Option.map_eq_some_iff.1 hi
    obtain ⟨m, hm, -⟩ := (hs.sim k).recorded n i e he
    exact ⟨m, Or.inl ⟨e, hm, hc⟩⟩
  · rw [hres, ((hs.sim k).node n).kv]
    rfl

/-- Server 0 commits a command and takes a read, server 1 confirms it. -/
def readActions : List Action :=
  [.fire 0, .deliver 6, .deliver 11, .clientCommand 0 "0:0:put:k0:v0:", .deliver 16, .deliver 18,
    .requestRead 0 "1:0:get:k0::", .deliver 25, .deliver 27]

theorem admits_readActions : ∀ k, pair.Admits (andIdle readActions k) := by
  refine admits_andIdle fun act hact => ?_
  simp only [readActions, List.mem_cons, List.not_mem_nil, or_false] at hact
  rcases hact with rfl | rfl | rfl | rfl | rfl | rfl | rfl | rfl | rfl
  all_goals first | exact trivial | exact rfl

/-- The run of the pair with a read. -/
noncomputable def readRun : Run pair := pair.runOf admits_readActions

/-- The trace only grows. -/
theorem Run.trace_succ (r : Run net) (k : ℕ) : (r.state k).trace <+: (r.state (k + 1)).trace := by
  rcases r.readStep k with hstay | ⟨n, after, -, hw⟩
  · rw [hstay]
  · rw [hw]
    exact List.prefix_append _ _

/-- The read gives the value that was committed before it. -/
theorem read_index_pair : pair.reconfigurable = false ∧ readRun.Accepts 6 0 0 "1:0:get:k0::" ∧
    readRun.Serves 8 0 0 "1:0:get:k0::" "v0" ∧ ∃ C : List String,
      (∀ (i : ℕ) (m : NodeId), i ≤ 7 → ((readRun.state i).nodes m).commitIndex ≤ C.length) ∧
      (∀ (i : ℕ) (c : String), C[i]? = some c → ∃ m, (readRun.state 8).HasApplied m (i + 1) c) ∧
      "v0" = (KVStateMachine.applyAll {} C).applyRead (Command.decode "1:0:get:k0::") := by
  have ha : readRun.Accepts 6 0 0 "1:0:get:k0::" := by
    have h := of_decide_eq_true (holds_of_exec admits_readActions 6
      (fun w => decide (((w.nodes 0).requestRead "1:0:get:k0::").2 = true ∧ 0 = (w.nodes 0).nextReadId)) (by decide +kernel))
    exact ⟨rfl, h.1, h.2⟩
  have hs : readRun.Serves 8 0 0 "1:0:get:k0::" "v0" := by
    have h8 := of_decide_eq_true (holds_of_exec admits_readActions 8 (fun w => decide (w.trace.length = 28)) (by decide +kernel))
    have h9 := of_decide_eq_true (holds_of_exec admits_readActions 9 (fun w => decide (w.trace.drop 28 =
      calls 0 [.record (.readserved 0 "1:0:get:k0::"), .onApply "1:0:get:k0::" "v0"])) (by decide +kernel))
    refine ⟨[], [], ?_⟩
    obtain ⟨new, hnew⟩ := readRun.trace_succ 8
    rw [← hnew]
    change ((readRun.state 9).trace).drop 28 = _ at h9
    rw [← hnew, ← h8] at h9
    change ((readRun.state 8).trace ++ new).drop (readRun.state 8).trace.length = _ at h9
    rw [List.drop_left] at h9
    rw [h9]
    rfl
  exact ⟨rfl, ha, hs, (read_index rfl readRun ha hs).2.2⟩

end DeterministicRaft
