import DeterministicRaft.Timers
import DeterministicRaft.Votes

/-!
# Exactly one live timer

The callbacks that a node has scheduled wait in a queue and fire in any order. Whatever happens to the node, one of those that wait
carries its sequence number while it is alive, and it is of the kind that its role needs; the others are out of date.
-/

namespace DeterministicRaft

open RaftNode Refinement

variable {self after : RaftNode}

/-! ## A node and the callbacks that wait -/

/-- The sender that a message names. -/
def Message.sender : Message → NodeId
  | .requestVote msg => msg.candidate
  | .voteReply msg => msg.voter
  | .appendEntries msg => msg.leader
  | .appendReply msg => msg.follower
  | .installSnapshot msg => msg.leader
  | .readHeartbeat msg => msg.leader
  | .readAck msg => msg.follower

/-- The operation of a callback. -/
def fires (cb : TimerKind × Int) : NodeOp :=
  match cb.1 with
  | .election => .electionTimeout cb.2
  | .heartbeat => .heartbeat cb.2

/-- The operations between the callbacks: no message names the node itself as its sender, no leader receives a ReadHeartbeat of its
own term, and a node crashes when it is alive and restarts when it is not. -/
def NodeOp.Polite (self : RaftNode) : NodeOp → Prop
  | .handle msg => msg.sender ≠ self.id ∧ ∀ ping, msg = .readHeartbeat ping → self.role = .leader → ping.term ≠ self.term
  | .pause => self.alive = true
  | .resume => self.alive = false
  | .start | .electionTimeout _ | .heartbeat _ => False
  | .clientCommand _ | .changeConfig _ | .requestRead _ => True

/-- The callbacks that an operation has scheduled. -/
def scheduled (self after : RaftNode) : List (TimerKind × Int) := schedules (after.out.drop self.out.length)

/-- One operation, or a callback that waits fires. -/
inductive TimerStep : RaftNode × List (TimerKind × Int) → RaftNode × List (TimerKind × Int) → Prop
  | call (self after : RaftNode) (queue : List (TimerKind × Int)) (op : NodeOp) (ho : op.Polite self)
      (hp : self.perform op = .ok after) : TimerStep (self, queue) (after, queue ++ scheduled self after)
  | fire (self after : RaftNode) (queue : List (TimerKind × Int)) (cb : TimerKind × Int) (hcb : cb ∈ queue)
      (hp : self.perform (fires cb) = .ok after) : TimerStep (self, queue) (after, queue.erase cb ++ scheduled self after)

/-! ## The invariant -/

/-- The callbacks that wait at a node: exactly one carries the sequence number of a node that is alive, and none that of one that is
down. -/
structure OneTimer (node : RaftNode) (queue : List (TimerKind × Int)) : Prop where
  bound : ∀ cb ∈ queue, cb.2 ≤ node.timerSeq
  live : node.alive = true → queue.filter (fun cb => cb.2 = node.timerSeq) = [(node.role.timer, node.timerSeq)]
  down : node.alive = false → node.role = .follower ∧ ∀ cb ∈ queue, cb.2 < node.timerSeq
  voted : SelfVoted node

/-- An operation that keeps the timer schedules nothing. -/
theorem Kept.scheduled (h : Kept self after) (hout : ∃ es, after.out = self.out ++ es) : scheduled self after = [] := by
  obtain ⟨es, hes⟩ := hout
  have hsch := h.2.2.2
  rw [hes, schedules_append] at hsch
  rw [DeterministicRaft.scheduled, hes, List.drop_left]
  exact List.append_right_eq_self.1 hsch

/-- Without the callbacks that are out of date. -/
theorem filter_stale {queue : List (TimerKind × Int)} {seq : Int} (h : ∀ cb ∈ queue, cb.2 < seq) :
    queue.filter (fun cb => cb.2 = seq) = [] :=
  List.filter_eq_nil_iff.2 fun cb hcb => by simpa using (h cb hcb).ne

/-- A node with a new timer. -/
theorem Armed.oneTimer {queue : List (TimerKind × Int)} (h : Armed self after) (hout : ∃ es, after.out = self.out ++ es)
    (ha : after.alive = true) (hbound : ∀ cb ∈ queue, cb.2 ≤ self.timerSeq) (hv : SelfVoted after) :
    OneTimer after (queue ++ scheduled self after) := by
  obtain ⟨es, hes⟩ := hout
  obtain ⟨-, hlt, stale, hstale, hsch⟩ := h
  have heq : DeterministicRaft.scheduled self after = stale ++ [(after.role.timer, after.timerSeq)] := by
    rw [DeterministicRaft.scheduled, hes, List.drop_left]
    rw [hes, schedules_append, List.append_assoc] at hsch
    exact List.append_cancel_left hsch
  have hqueue : ∀ cb ∈ queue, cb.2 < after.timerSeq := fun cb hcb => (hbound cb hcb).trans_lt hlt
  rw [heq]
  refine ⟨fun cb hcb => ?_, fun _ => ?_, fun hd => ?_, hv⟩
  · simp only [List.mem_append, List.mem_singleton] at hcb
    rcases hcb with hcb | hcb | rfl
    · exact (hqueue cb hcb).le
    · exact (hstale cb hcb).2.le
    · exact le_rfl
  · rw [List.filter_append, List.filter_append, filter_stale hqueue, filter_stale fun cb hcb => (hstale cb hcb).2]
    simp
  · rw [ha] at hd
    cases hd

/-! ## What keeps it -/

/-- A node that is down does nothing. -/
theorem perform_of_down (hd : self.alive = false) {op : NodeOp} (ho : op.Polite self) (hr : op ≠ .resume) : self.perform op = .ok self := by
  cases op with
  | handle msg =>
    unfold RaftNode.perform RaftNode.handle
    exact if_pos hd
  | clientCommand command =>
    have heq : self.clientCommand command = .ok (self, false) := if_pos (Or.inr hd)
    rw [RaftNode.perform, heq]
    rfl
  | changeConfig newVoters =>
    have heq : self.changeConfig newVoters = .ok (self, false) := if_pos (Or.inr hd)
    rw [RaftNode.perform, heq]
    rfl
  | requestRead command =>
    have heq : self.requestRead command = (self, false) := if_pos (Or.inr (Or.inl hd))
    rw [RaftNode.perform, heq]
  | pause =>
    have ha : self.alive = true := ho
    rw [hd] at ha
    cases ha
  | resume => exact absurd rfl hr
  | start | electionTimeout | heartbeat => exact ho.elim

/-- A node that is alive. -/
theorem perform_timely (ha : self.alive = true) {op : NodeOp} (ho : op.Polite self) (hv : SelfVoted self) (hpause : op ≠ .pause) :
    Ensures (self.perform op) (Timely self) := by
  cases op with
  | handle msg =>
    obtain ⟨hsender, hping⟩ := ho
    unfold RaftNode.perform RaftNode.handle
    simp only
    rw [if_neg (by simp [ha])]
    cases msg with
    | requestVote msg => exact Timely.onRequestVote msg (fun hr => hv (by rw [hr]; exact nofun)) hsender
    | voteReply msg => exact Timely.onVoteReply self msg
    | appendEntries msg => exact Timely.onAppendEntries self msg
    | appendReply msg => exact Timely.onAppendReply self msg
    | installSnapshot msg => exact Timely.onInstallSnapshot self msg
    | readHeartbeat msg => exact Ensures.pure (Timely.onReadHeartbeat msg (hping msg rfl))
    | readAck msg => exact Ensures.pure (Timely.onReadAck self msg)
  | clientCommand command => exact Timely.clientCommand self command
  | changeConfig newVoters => exact Timely.changeConfig self newVoters
  | requestRead command => exact Ensures.pure (Timely.requestRead self command)
  | pause => exact absurd rfl hpause
  | resume =>
    have hd : self.alive = false := ho
    rw [ha] at hd
    cases hd
  | start | electionTimeout | heartbeat => exact ho.elim

/-- What every operation keeps of a node. -/
theorem perform_keeps (hv : SelfVoted self) {op : NodeOp} (hp : self.perform op = .ok after) :
    SelfVoted after ∧ ∃ es, after.out = self.out ++ es := by
  have hm := perform_makes ⟨trivial, trivial, trivial⟩ self op (op.admissible_any self) after hp
  obtain ⟨es, hes, -⟩ := hm.calls
  exact ⟨hv.moved hm, es, hes⟩

namespace OneTimer

variable {queue : List (TimerKind × Int)}

theorem call (h : OneTimer self queue) {op : NodeOp} (ho : op.Polite self) (hp : self.perform op = .ok after) :
    OneTimer after (queue ++ scheduled self after) := by
  obtain ⟨hv, hout⟩ := perform_keeps h.voted hp
  by_cases hpause : op = .pause
  · subst hpause
    cases hp
    have hnone : scheduled self self.pause = [] := by
      rw [scheduled, pause_fields]
      simp [schedules]
    rw [hnone, List.append_nil]
    rw [pause_fields] at hv ⊢
    have hlt : ∀ cb ∈ queue, cb.2 < self.timerSeq + 1 := fun cb hcb => Int.lt_add_one_of_le (h.bound cb hcb)
    exact ⟨fun cb hcb => (hlt cb hcb).le, fun hup => absurd hup Bool.false_ne_true, fun _ => ⟨rfl, hlt⟩, hv⟩
  by_cases hresume : op = .resume
  · subst hresume
    cases hp
    have hdown := h.down ho
    have harmed := armElectionTimer_armed { self with alive := true } (by rw [hdown.1]; decide)
    exact harmed.oneTimer hout rfl h.bound hv
  cases ha : self.alive with
  | false =>
    cases (perform_of_down ha ho hresume).symm.trans hp
    rw [(Kept.refl self).scheduled ⟨[], by simp⟩, List.append_nil]
    exact h
  | true =>
    rcases perform_timely ha ho h.voted hpause after hp with hkept | harmed
    · rw [hkept.scheduled hout, List.append_nil]
      refine ⟨?_, ?_, ?_, hv⟩
      · rw [hkept.2.1]
        exact h.bound
      · rw [hkept.2.1, hkept.2.2.1]
        exact fun _ => h.live ha
      · rw [hkept.1, ha]
        exact fun hdown => absurd hdown.symm Bool.false_ne_true
    · exact harmed.oneTimer hout (harmed.1.trans ha) h.bound hv

/-- A callback that waits and is out of date changes nothing. -/
theorem stale {cb : TimerKind × Int} (hcb : cb.2 ≠ self.timerSeq) : self.perform (fires cb) = .ok self := by
  obtain ⟨kind, seq⟩ := cb
  cases kind with
  | election => exact (stale_timer self hcb).1
  | heartbeat => exact (stale_timer self hcb).2

theorem fire (h : OneTimer self queue) {cb : TimerKind × Int} (hcb : cb ∈ queue) (hp : self.perform (fires cb) = .ok after) :
    OneTimer after (queue.erase cb ++ scheduled self after) := by
  obtain ⟨hv, hout⟩ := perform_keeps h.voted hp
  have herase : ∀ x ∈ queue.erase cb, x ∈ queue := fun x hx => List.mem_of_mem_erase hx
  by_cases hseq : cb.2 = self.timerSeq
  · have ha : self.alive = true := by
      by_contra hd
      have := (h.down (by simpa using hd)).2 cb hcb
      omega
    have hlive : cb ∈ queue.filter fun cb => cb.2 = self.timerSeq := List.mem_filter.2 ⟨hcb, by simpa using hseq⟩
    rw [h.live ha, List.mem_singleton] at hlive
    have harmed : Armed self after := by
      subst hlive
      cases hr : self.role with
      | leader =>
        rw [hr] at hp
        exact Timely.onHeartbeat ha hr after hp
      | _ =>
        rw [hr] at hp
        exact Timely.onElectionTimeout ha (by rw [hr]; exact nofun) after hp
    exact harmed.oneTimer hout (harmed.1.trans ha) (fun x hx => h.bound x (herase x hx)) hv
  · cases (stale hseq).symm.trans hp
    rw [(Kept.refl self).scheduled ⟨[], by simp⟩, List.append_nil]
    refine ⟨fun x hx => h.bound x (herase x hx), fun ha => ?_, fun hd => ⟨(h.down hd).1, fun x hx => (h.down hd).2 x (herase x hx)⟩, hv⟩
    have hperm := (List.perm_cons_erase hcb).filter fun cb => cb.2 = self.timerSeq
    rw [h.live ha, List.filter_cons_of_neg (by simpa using hseq)] at hperm
    exact List.perm_singleton.1 hperm.symm

theorem run {s s' : RaftNode × List (TimerKind × Int)} (hrun : Relation.ReflTransGen TimerStep s s') (h : OneTimer s.1 s.2) :
    OneTimer s'.1 s'.2 := by
  induction hrun with
  | refl => exact h
  | tail _ hstep ih =>
    cases hstep with
    | call self after queue op ho hp => exact ih.call ho hp
    | fire self after queue cb hcb hp => exact ih.fire hcb hp

/-- A node that has just been started. -/
theorem start {node : RaftNode} (hr : node.role = .follower) (ha : node.alive = true) : OneTimer node.start (scheduled node node.start) := by
  have harmed := armElectionTimer_armed node (by rw [hr]; exact nofun)
  have h : OneTimer node.start ([] ++ scheduled node node.start) :=
    harmed.oneTimer ⟨_, rfl⟩ ha nofun fun hne => absurd hr hne
  exact h

end OneTimer

/-- Exactly one live timer. After any operations of a node that has been started, and any callbacks that have fired, in any order:
while the node is alive exactly one of the callbacks that wait carries its sequence number, a heartbeat if the node leads and an
election timeout otherwise; while it is down none does; and any other changes nothing when it fires. -/
theorem one_live_timer (id : NodeId) (peerIds : List NodeId) (config : RaftConfig) (bugs : Bugs)
    (initialVoters : Option (List NodeId)) (node : RaftNode) (queue : List (TimerKind × Int))
    (hrun : Relation.ReflTransGen TimerStep
      ((RaftNode.new id peerIds config bugs initialVoters).start,
        scheduled (RaftNode.new id peerIds config bugs initialVoters) (RaftNode.new id peerIds config bugs initialVoters).start)
      (node, queue)) :
    (node.alive = true → queue.filter (fun cb => cb.2 = node.timerSeq) =
      [(if node.role = .leader then .heartbeat else .election, node.timerSeq)]) ∧
    (node.alive = false → ∀ cb ∈ queue, cb.2 ≠ node.timerSeq) ∧
    ∀ cb ∈ queue, cb.2 ≠ node.timerSeq → node.perform (fires cb) = .ok node := by
  have h := OneTimer.run hrun (OneTimer.start rfl rfl)
  have hkind : node.role.timer = if node.role = .leader then .heartbeat else .election := by
    cases node.role <;> rfl
  refine ⟨fun ha => ?_, fun hd cb hcb => ((h.down hd).2 cb hcb).ne, fun cb _ hcb => OneTimer.stale hcb⟩
  rw [← hkind]
  exact h.live ha

/-- A server that has just been started. -/
def freshNode : RaftNode := (RaftNode.new 1 [2, 3] {} NO_BUGS none).start

/-- Its election timer has fired. -/
def firedNode : RaftNode := freshNode.afterOps [.electionTimeout 1]

theorem one_live_timer_firedNode :
    ([(TimerKind.election, (1 : Int))].erase (.election, 1) ++ scheduled freshNode firedNode).filter
      (fun cb => cb.2 = firedNode.timerSeq) = [(.election, firedNode.timerSeq)] := by
  have hfire : TimerStep (freshNode, [(.election, 1)])
      (firedNode, [(TimerKind.election, (1 : Int))].erase (.election, 1) ++ scheduled freshNode firedNode) :=
    .fire freshNode firedNode _ (.election, 1) (List.mem_singleton.2 rfl) (perform_afterOps (by decide +kernel))
  have hrole : firedNode.role = .candidate := by decide +kernel
  have h := (one_live_timer 1 [2, 3] {} NO_BUGS none firedNode _ (.single hfire)).1 (by decide +kernel)
  rwa [hrole] at h

end DeterministicRaft
