import DeterministicRaft.Harness
import DeterministicRaft.Pace

/-!
# Two servers that nothing disturbs

A cluster of two under the profile without faults, with a source of random numbers that lets the first node win the first election and
every message arrive after a millisecond. From then on the run repeats itself every 100 ms: a client's command is appended, sent,
acknowledged and committed before the next one, between two heartbeats and the election timers that these make stale.
-/

namespace DeterministicRaft

open RaftNode

/-- A source of random numbers whose first draw is low, the second is the highest, and all later ones are among the lowest. -/
def brisk : RandomSource where
  State := ℕ
  random s := (0, s)
  randint lo hi s := (lo + (hi - lo) / (if s = 0 then 15 else if s = 1 then 1 else 30), min (s + 1) 2)
  random_mem _ := (by decide : (0 : ℚ) ≤ 0 ∧ (0 : ℚ) < 1)
  randint_mem lo hi s h := by
    have hpos : (0 : Int) < (if s = 0 then 15 else if s = 1 then 1 else 30) := by
      split
      · decide
      · split <;> decide
    have hnonneg := Int.ediv_nonneg (show 0 ≤ hi - lo by omega) hpos.le
    have hle := Int.ediv_le_self (if s = 0 then 15 else if s = 1 then 1 else 30) (show 0 ≤ hi - lo by omega)
    exact ⟨by simp only; omega, by simp only; omega⟩

/-! ## Clients that wait for nothing -/

namespace Cluster

variable {net : Network} {self : Cluster} {k : ℕ} {cid : Int}

/-- What is put into an empty dictionary can be taken out again. -/
theorem erase_insert_empty {κ α : Type} [DecidableEq κ] (x : κ) (y : α) : (Finmap.insert x y (∅ : Dict κ α)).erase x = ∅ := by
  refine Finmap.ext_lookup fun z => ?_
  by_cases hz : z = x
  · rw [hz, Finmap.lookup_erase, Finmap.lookup_empty]
  · rw [Finmap.lookup_erase_ne hz, Finmap.lookup_insert_of_ne _ hz]

/-- What is changed at the end of a list. -/
theorem modify_concat {α : Type} (l : List α) (x : α) (f : α → α) : (l ++ [x]).modify l.length f = l ++ [f x] := by
  induction l with
  | nil => rfl
  | cons y l ih => simp [ih]

/-- No client has an operation outstanding: the `k` rows of the history are complete. -/
structure Idle (cluster : Cluster) (k : ℕ) : Prop where
  outstanding : cluster.outstanding = ∅
  pending : cluster.pending = ∅
  rows : cluster.history.length = k
  completed : ∀ row ∈ cluster.history, row.completed = true

/-- One client has an operation outstanding, whose row is the last of the history. -/
structure Waits (cluster : Cluster) (cid : Int) (k : ℕ) : Prop where
  client : 0 ≤ cid
  outstanding : cluster.outstanding = Finmap.insert cid (request cid (cluster.nextReq cid)) ∅
  pending : cluster.pending = Finmap.insert (request cid (cluster.nextReq cid)) k ∅
  rows : ∃ rows row, cluster.history = rows ++ [row] ∧ rows.length = k ∧ ∀ r ∈ rows, r.completed = true

/-- The node has performed an operation: the cluster hears what it applied. -/
def performed (self : Cluster) (net : Network) (n : NodeId) (node : RaftNode) : Cluster :=
  (notifications node.out).foldl (fun self p => self.onApply net p.1 p.2) { self with
    world := {
      nodes := Function.update self.world.nodes n { node with out := [] }
      trace := self.world.trace ++ node.out.map fun e => (n, e) } }

/-- Of the calls of a node, the cluster hears the notifications. -/
theorem foldl_hear (n : NodeId) (out : List Effect) (self : Cluster) :
    (out.map fun e => (n, e)).foldl (fun self call => self.hear net call.2) self =
      (notifications out).foldl (fun self p => self.onApply net p.1 p.2) self := by
  induction out generalizing self with
  | nil => rfl
  | cons e out ih =>
    rw [List.map_cons, List.foldl_cons, ih]
    cases e <;> rfl

/-- An action is the operation that it performs. -/
theorem act_eq {action : Action} {n : NodeId} {op : NodeOp} {node : RaftNode} (ho : self.world.operation action = some (n, op))
    (hop : (self.world.nodes n).perform op = .ok node) : self.act net action = .ok (self.performed net n node) := by
  have hstep : self.world.step action = .ok {
      nodes := Function.update self.world.nodes n { node with out := [] }
      trace := self.world.trace ++ node.out.map fun e => (n, e) } := by
    rw [World.step_eq, ho]
    simp only [World.perform, hop]
    rfl
  rw [Cluster.act, hstep]
  simp only [bind, Except.bind, pure, Except.pure, List.drop_left]
  rw [foldl_hear]
  rfl

/-- What the clients hear of an application leaves the nodes alone. -/
theorem world_onApply (self : Cluster) (encoded result : String) : (self.onApply net encoded result).world = self.world := by
  rw [onApply_eq]
  split
  · rfl
  · split
    · exact note_world _ _ _
    · exact note_world _ _ _

/-- The nodes after the operation. -/
theorem world_performed (net : Network) (self : Cluster) (n : NodeId) (node : RaftNode) : (self.performed net n node).world = {
    nodes := Function.update self.world.nodes n { node with out := [] }
    trace := self.world.trace ++ node.out.map fun e => (n, e) } := by
  have key : ∀ (calls : List (String × String)) (self : Cluster),
      (calls.foldl (fun self p => self.onApply net p.1 p.2) self).world = self.world := by
    intro calls
    induction calls with
    | nil => exact fun _ => rfl
    | cons p calls ih =>
      intro self
      rw [List.foldl_cons, ih, world_onApply]
  exact key _ _

/-- What waits for nothing hears nothing new. -/
theorem Idle.onApply (h : self.Idle k) (encoded result : String) : self.onApply net encoded result = self := by
  unfold Cluster.onApply
  simp [h.outstanding, h.pending]

/-- Only the nodes go on when no client waits. -/
theorem Idle.performed (h : self.Idle k) (net : Network) (n : NodeId) (node : RaftNode) :
    (self.performed net n node).Idle k ∧ (self.performed net n node).nextReq = self.nextReq := by
  have key : ∀ (calls : List (String × String)) (self : Cluster), self.Idle k →
      (calls.foldl (fun self p => self.onApply net p.1 p.2) self).Idle k ∧
        (calls.foldl (fun self p => self.onApply net p.1 p.2) self).nextReq = self.nextReq := by
    intro calls
    induction calls with
    | nil => exact fun _ h => ⟨h, rfl⟩
    | cons p calls ih =>
      intro self h
      rw [List.foldl_cons, h.onApply]
      exact ih self h
  exact key _ _ ⟨h.outstanding, h.pending, h.rows, h.completed⟩

/-- The simulator's count of events goes on. -/
theorem Idle.tick (h : self.Idle k) : self.tick.Idle k := ⟨h.outstanding, h.pending, h.rows, h.completed⟩

/-- A client invokes its next operation. -/
theorem Idle.begin (h : self.Idle k) (hc : 0 ≤ cid) (hr : net.recordHistory = true) : (self.begin net cid).Waits cid k := by
  unfold Cluster.begin invoke
  rw [if_neg (by simp [hr])]
  refine ⟨hc, by rw [h.outstanding], ?_, self.history, _, rfl, h.rows, h.completed⟩
  simp only [h.pending, h.rows]

/-- The simulator's count of events goes on. -/
theorem Waits.tick (h : self.Waits cid k) : self.tick.Waits cid k := ⟨h.client, h.outstanding, h.pending, h.rows⟩

/-- Nothing is applied: the client waits on. -/
theorem Waits.performed_silent (h : self.Waits cid k) (net : Network) (n : NodeId) {node : RaftNode} (hn : notifications node.out = []) :
    (self.performed net n node).Waits cid k ∧ (self.performed net n node).nextReq = self.nextReq := by
  rw [Cluster.performed, hn]
  exact ⟨⟨h.client, h.outstanding, h.pending, h.rows⟩, rfl⟩

/-- The operation is applied: no client waits. -/
theorem Waits.performed (h : self.Waits cid k) (hr : net.recordHistory = true) (n : NodeId) {node : RaftNode} {result : String}
    (hn : notifications node.out = [(request cid (self.nextReq cid), result)]) : (self.performed net n node).Idle (k + 1) ∧
      (self.performed net n node).nextReq = Function.update self.nextReq cid (self.nextReq cid + 1) := by
  obtain ⟨rows, row, hrows, hlen, hall⟩ := h.rows
  obtain ⟨moved, hm⟩ : ∃ moved : Cluster, moved = { self with
      world := {
        nodes := Function.update self.world.nodes n { node with out := [] }
        trace := self.world.trace ++ node.out.map fun e => (n, e) } } := ⟨_, rfl⟩
  have hsame : moved.outstanding = self.outstanding ∧ moved.pending = self.pending ∧ moved.history = self.history ∧
      moved.nextReq = self.nextReq := by
    rw [hm]
    exact ⟨rfl, rfl, rfl, rfl⟩
  obtain ⟨hout, hpend, hhist, hnext⟩ := hsame
  have hperformed : self.performed net n node = (moved.close cid).note net (request cid (self.nextReq cid)) result := by
    rw [Cluster.performed, hn, List.foldl_cons, List.foldl_nil, ← hm, onApply_eq, decode_request, clientId_clientWorkload,
      if_neg (by simp [isStructured_clientWorkload h.client]), if_pos]
    rw [hout, h.outstanding]
    exact Finmap.lookup_insert _
  have hlook : (moved.close cid).pending.lookup (request cid (self.nextReq cid)) = some k := by
    show moved.pending.lookup _ = _
    rw [hpend, h.pending]
    exact Finmap.lookup_insert _
  have hnote : (moved.close cid).note net (request cid (self.nextReq cid)) result = { moved.close cid with
      pending := (moved.close cid).pending.erase (request cid (self.nextReq cid))
      history := (moved.close cid).history.modify k fun r =>
        { r with returnStep := some (moved.close cid).steps, observed := some result } } := by
    rw [note, if_pos hr, hlook]
  rw [hperformed, hnote]
  have hhist' : (moved.close cid).history = rows ++ [row] := hhist.trans hrows
  rw [hhist', ← hlen, modify_concat]
  refine ⟨⟨?_, ?_, ?_, fun r hr => ?_⟩, ?_⟩
  · show moved.outstanding.erase cid = ∅
    rw [hout, h.outstanding]
    exact erase_insert_empty _ _
  · show moved.pending.erase _ = ∅
    rw [hpend, h.pending]
    exact erase_insert_empty _ _
  · exact List.length_append
  · rcases List.mem_append.1 hr with hr | hr
    · exact hall r hr
    · rw [List.mem_singleton.1 hr]
      rfl
  · show Function.update moved.nextReq cid (moved.nextReq cid + 1) = _
    rw [hnext]

/-- The node that has performed the operation. -/
theorem nodes_performed (self : Cluster) (n : NodeId) (node : RaftNode) :
    (self.performed net n node).world.nodes n = { node with out := [] } := by
  rw [world_performed]
  exact Function.update_self _ _ _

/-- The other nodes. -/
theorem nodes_performed_of_ne (self : Cluster) {n m : NodeId} (hne : m ≠ n) (node : RaftNode) :
    (self.performed net n node).world.nodes m = self.world.nodes m := by
  rw [world_performed]
  exact Function.update_of_ne hne _ _

end Cluster

namespace Harness

/-! ## What is due -/

/-- What a callback that is due stands for: a message, a timer, or the tick of the clients. -/
inductive Job where
  | message (src dst : NodeId) (msg : Message)
  | timer (n : NodeId) (kind : TimerKind) (seq : Int)
  | clientTick
  deriving DecidableEq

/-- The message or the timer at the place of the trace that a callback names. -/
def job (calls : List (NodeId × Effect)) : Callback → Option Job
  | .deliver k =>
    match calls[k]? with
    | some (src, .send dst msg) => some (.message src dst msg)
    | _ => none
  | .fire k =>
    match calls[k]? with
    | some (n, .schedule kind seq) => some (.timer n kind seq)
    | _ => none
  | .clientTick => some .clientTick
  | _ => none

/-- What the call of a node makes due. -/
def asked (now : Int) : NodeId × Effect → Option (Int × Job)
  | (src, .send dst msg) => some (now + 1, .message src dst msg)
  | (n, .schedule .election seq) => some (now + 155, .timer n .election seq)
  | (n, .schedule .heartbeat seq) => some (now + 50, .timer n .heartbeat seq)
  | _ => none

/-- What is due, and when. -/
def due (self : Harness brisk) : List (Int × Option Job) :=
  self.sim.clock.pending.map fun x => (x.1, job self.cluster.world.trace x.2)

/-- It is `now`, these jobs are due, and no fault is in force. -/
structure At (moment : Harness brisk) (now : Int) (jobs : List (Int × Job)) : Prop where
  rng : moment.sim.rng = (2 : ℕ)
  now : moment.sim.clock.now = now
  due : moment.due.Perm (jobs.map fun j => (j.1, some j.2))
  crashed : moment.net.crashed = ∅
  links : moment.net.downLinks = ∅
  lossy : moment.net.lossyLinks = ∅
  whole : ∀ n ∈ [(0 : NodeId), 1], moment.net.group n = 0

variable {R : RandomSource} {self : Harness brisk} {now t : Int} {jobs jobs' rest : List (Int × Job)} {j : Job} {calls more : List (NodeId × Effect)}
  {fn : Callback} {src dst : NodeId} {msg : Message} {node : RaftNode} {n : NodeId} {kind : TimerKind} {seq : Int}

/-- A callback that stands for a message. -/
theorem job_message (h : job calls fn = some (.message src dst msg)) : ∃ k, fn = .deliver k ∧ calls[k]? = some (src, .send dst msg) := by
  cases fn with
  | deliver k =>
    refine ⟨k, rfl, ?_⟩
    simp only [job] at h
    split at h
    · rename_i hk
      cases h
      exact hk
    · cases h
  | fire k =>
    simp only [job] at h
    split at h <;> cases h
  | _ => cases h

/-- A callback that stands for a timer. -/
theorem job_timer (h : job calls fn = some (.timer n kind seq)) : ∃ k, fn = .fire k ∧ calls[k]? = some (n, .schedule kind seq) := by
  cases fn with
  | deliver k =>
    simp only [job] at h
    split at h <;> cases h
  | fire k =>
    refine ⟨k, rfl, ?_⟩
    simp only [job] at h
    split at h
    · rename_i hk
      cases h
      exact hk
    · cases h
  | _ => cases h

/-- The tick of the clients stands for itself. -/
theorem job_clientTick (h : job calls fn = some .clientTick) : fn = .clientTick := by
  cases fn with
  | deliver k =>
    simp only [job] at h
    split at h <;> cases h
  | fire k =>
    simp only [job] at h
    split at h <;> cases h
  | clientTick => rfl
  | _ => cases h

/-- What a callback stands for does not change when more calls are made. -/
theorem job_append (h : job calls fn = some j) : job (calls ++ more) fn = some j := by
  cases fn with
  | deliver k =>
    simp only [job] at h ⊢
    cases hk : calls[k]? with
    | none =>
      rw [hk] at h
      cases h
    | some call =>
      rw [List.getElem?_append_left (List.getElem?_eq_some_iff.1 hk).1, hk]
      rwa [hk] at h
  | fire k =>
    simp only [job] at h ⊢
    cases hk : calls[k]? with
    | none =>
      rw [hk] at h
      cases h
    | some call =>
      rw [List.getElem?_append_left (List.getElem?_eq_some_iff.1 hk).1, hk]
      rwa [hk] at h
  | clientTick => exact h
  | _ => cases h

namespace At

/-- The order does not matter. -/
theorem perm (h : self.At now jobs) (hp : jobs.Perm jobs') : self.At now jobs' :=
  { h with due := h.due.trans (hp.map _) }

/-- Something is due in addition. -/
theorem schedule (h : self.At now jobs) {delay : Int} (hd : 0 ≤ delay) (hj : job self.cluster.world.trace fn = some j) :
    ∃ after, self.schedule delay fn = .ok after ∧ after.cluster = self.cluster ∧ after.At now ((now + delay, j) :: jobs) := by
  refine ⟨{ self with sim := { self.sim with clock := self.sim.clock.schedule delay fn hd } }, ?_, rfl, ?_⟩
  · unfold Harness.schedule Simulator.schedule
    rw [dif_neg (Int.not_lt.2 hd)]
    rfl
  · refine ⟨h.rng, h.now, ?_, h.crashed, h.links, h.lossy, h.whole⟩
    have hpending : (self.sim.clock.schedule delay fn hd).pending.Perm ((self.sim.clock.now + delay, fn) :: self.sim.clock.pending) :=
      self.sim.clock.pending_schedule hd
    have hperm := (hpending.map fun x : Int × Callback => (x.1, job self.cluster.world.trace x.2)).trans (List.Perm.cons _ h.due)
    simp only [h.now, hj] at hperm
    exact hperm

/-- The first of what is due happens next. -/
theorem pop (h : self.At now ((t, j) :: rest)) (hlt : ∀ x ∈ rest, t < x.1) :
    ∃ x clock, self.sim.clock.pop = some (x, clock) ∧ job self.cluster.world.trace x.2 = some j ∧
      { self with sim := { self.sim with clock }, cluster := self.cluster.tick }.At t rest := by
  cases hpop : self.sim.clock.pop with
  | none =>
    have hdue := h.due
    rw [Harness.due, Clock.pending_of_pop_none hpop] at hdue
    exact absurd hdue.length_eq (by simp)
  | some popped =>
    obtain ⟨x, clock⟩ := popped
    have hdue := h.due
    rw [Harness.due, Clock.pending_of_pop hpop, List.map_cons] at hdue
    have hhead : (clock.now, job self.cluster.world.trace x.2) = (t, some j) := by
      by_contra hne
      have hlater : (clock.now, job self.cluster.world.trace x.2) ∈ rest.map fun j : Int × Job => (j.1, some j.2) :=
        (List.mem_cons.1 (hdue.mem_iff.1 List.mem_cons_self)).resolve_left hne
      obtain ⟨y, hy, hsame⟩ := List.mem_map.1 hlater
      have hfirst := (List.mem_cons.1 (hdue.mem_iff.2 List.mem_cons_self)).resolve_left (Ne.symm hne)
      obtain ⟨z, hz, hsame'⟩ := List.mem_map.1 hfirst
      have hle := Clock.timely_pending hz
      have hgt := hlt y hy
      have h1 : y.1 = clock.now := (Prod.mk.inj hsame).1
      have h2 : z.1 = t := (Prod.mk.inj hsame').1
      omega
    obtain ⟨hnow, hjob⟩ := Prod.mk.inj hhead
    rw [hhead] at hdue
    exact ⟨x, clock, rfl, hjob, h.rng, hnow, hdue.cons_inv, h.crashed, h.links, h.lossy, h.whole⟩

/-- The nodes and their clients have gone on: what was due still is. -/
theorem extend (h : self.At now jobs) {cluster : Cluster} (ht : cluster.world.trace = self.cluster.world.trace ++ more) :
    { self with cluster }.At now jobs := by
  refine ⟨h.rng, h.now, ?_, h.crashed, h.links, h.lossy, h.whole⟩
  have hsame : { self with cluster }.due = self.due := by
    refine List.map_congr_left fun x hx => ?_
    have hmem : (x.1, job self.cluster.world.trace x.2) ∈ self.due := List.mem_map.2 ⟨x, hx, rfl⟩
    obtain ⟨y, -, hy⟩ := List.mem_map.1 (h.due.mem_iff.1 hmem)
    have hjob : job self.cluster.world.trace x.2 = some y.2 := (Prod.mk.inj hy).2.symm
    rw [ht, job_append hjob, hjob]
  rw [hsame]
  exact h.due

/-- A draw among the lowest. -/
theorem randint (h : self.At now jobs) {lo hi : Int} (hle : lo ≤ hi) :
    ∃ after, self.randint lo hi = .ok (lo + (hi - lo) / 30, after) ∧ after.cluster = self.cluster ∧ after.At now jobs := by
  refine ⟨{ self with sim := { self.sim with rng := (2 : ℕ) } }, ?_, rfl, rfl, h.now, h.due, h.crashed, h.links, h.lossy, h.whole⟩
  unfold Harness.randint Simulator.randint
  rw [if_neg (Int.not_lt.2 hle), h.rng]
  rfl

/-- A line of the trace, and a count. -/
theorem line (h : self.At now jobs) (net : SimNetwork) (hn : net.crashed = self.net.crashed ∧ net.downLinks = self.net.downLinks ∧
    net.lossyLinks = self.net.lossyLinks ∧ net.group = self.net.group) (line : Line) :
    ({ self with net }.record line).At now jobs :=
  ⟨h.rng, h.now, h.due, hn.1.trans h.crashed, hn.2.1.trans h.links, hn.2.2.1.trans h.lossy,
    fun n hm => (congrFun hn.2.2.2 n).trans (h.whole n hm)⟩

/-- A message is sent, and due after a millisecond. -/
theorem send (h : self.At now jobs) {src dst : NodeId} {msg : Message} {k : ℕ}
    (hk : self.cluster.world.trace[k]? = some (src, .send dst msg)) :
    ∃ after, self.send undisturbed src dst msg k = .ok after ∧ after.cluster = self.cluster ∧
      after.At now ((now + 1, .message src dst msg) :: jobs) := by
  have hsent := h.line { self.net with sent := self.net.sent + 1 } ⟨rfl, rfl, rfl, rfl⟩ (.send src dst msg)
  obtain ⟨sent, hs⟩ : ∃ sent, sent = { self with net := { self.net with sent := self.net.sent + 1 } }.record (.send src dst msg) :=
    ⟨_, rfl⟩
  rw [← hs] at hsent
  have hcluster : sent.cluster = self.cluster := by rw [hs]; rfl
  have hjob : job sent.cluster.world.trace (.deliver k) = some (.message src dst msg) := by
    simp only [job, hcluster, hk]
  obtain ⟨drawn, hdraw, hsame, hdrawn⟩ := @randint sent now jobs hsent undisturbed.profile.minDelay undisturbed.profile.maxDelay (by decide)
  obtain ⟨after, hafter, hsame', hat⟩ := @schedule drawn now jobs _ (.deliver k) hdrawn
    (undisturbed.profile.minDelay + (undisturbed.profile.maxDelay - undisturbed.profile.minDelay) / 30) (by decide) (hsame ▸ hjob)
  refine ⟨after, ?_, hsame'.trans (hsame.trans hcluster), hat⟩
  have hcrashed : src ∉ sent.net.crashed := by
    rw [hsent.crashed]
    exact Finset.notMem_empty src
  have hlossy : sent.lossyDraw src dst = (false, sent) := by
    rw [lossyDraw, hsent.lossy, Finmap.lookup_empty]
  have hrisk : ∀ x : Harness brisk, x.risk undisturbed.profile.dropP = (false, x) ∧ x.risk undisturbed.profile.dupP = (false, x) :=
    fun x => ⟨if_neg (by decide), if_neg (by decide)⟩
  rw [Harness.send]
  simp only [← hs, if_neg hcrashed, hlossy, Bool.false_eq_true, if_false, (hrisk _).1, (hrisk _).2, hdraw, bind, Except.bind, hafter]
  rfl

/-- A timer is started. -/
theorem startTimer (h : self.At now jobs) {n : NodeId} {kind : TimerKind} {seq : Int} {k : ℕ}
    (hk : self.cluster.world.trace[k]? = some (n, .schedule kind seq)) (hc : (self.cluster.world.nodes n).config = {}) :
    ∃ after, self.startTimer n kind k = .ok after ∧ after.cluster = self.cluster ∧
      after.At now ((asked now (n, .schedule kind seq)).toList ++ jobs) := by
  have hjob : job self.cluster.world.trace (.fire k) = some (.timer n kind seq) := by
    simp only [job, hk]
  unfold Harness.startTimer
  simp only [hc]
  cases kind with
  | election =>
    obtain ⟨drawn, hdraw, hsame, hdrawn⟩ := @randint self now jobs h ({} : RaftConfig).electionTimeoutMin
      ({} : RaftConfig).electionTimeoutMax (by decide)
    obtain ⟨after, hafter, hsame', hat⟩ := @schedule drawn now jobs _ (.fire k) hdrawn (({} : RaftConfig).electionTimeoutMin +
      (({} : RaftConfig).electionTimeoutMax - ({} : RaftConfig).electionTimeoutMin) / 30) (by decide) (hsame ▸ hjob)
    refine ⟨after, ?_, hsame'.trans hsame, hat⟩
    simp only [hdraw, bind, Except.bind, hafter]
  | heartbeat => exact @schedule self now jobs _ (.fire k) h ({} : RaftConfig).heartbeatInterval (by decide) hjob

/-- What a node asks for is done: what it makes due is due. -/
theorem hear (h : self.At now jobs) {n : NodeId} {e : Effect} {k : ℕ} (hk : self.cluster.world.trace[k]? = some (n, e))
    (hc : (self.cluster.world.nodes n).config = {}) :
    ∃ after, Harness.hear undisturbed self ((n, e), k) = .ok after ∧ after.cluster = self.cluster ∧
      after.At now ((asked now (n, e)).toList ++ jobs) := by
  cases e with
  | send dst msg => exact h.send hk
  | schedule kind seq => exact h.startTimer hk hc
  | record event => exact ⟨_, rfl, rfl, h.line self.net ⟨rfl, rfl, rfl, rfl⟩ (.node n event)⟩
  | onApply command result => exact ⟨self, rfl, rfl, h⟩
  | beforeCompact view => exact ⟨self, rfl, rfl, h⟩

/-- All that a node asks for is done. -/
theorem hearAll (calls : List ((NodeId × Effect) × ℕ)) : ∀ {self : Harness brisk} {jobs : List (Int × Job)}, self.At now jobs →
    (∀ call ∈ calls, self.cluster.world.trace[call.2]? = some call.1 ∧ (self.cluster.world.nodes call.1.1).config = {}) →
    ∃ after, calls.foldlM (Harness.hear undisturbed) self = .ok after ∧ after.cluster = self.cluster ∧
      after.At now (calls.filterMap (fun call => asked now call.1) ++ jobs) := by
  induction calls with
  | nil => exact fun h _ => ⟨_, rfl, rfl, h⟩
  | cons call calls ih =>
    intro self jobs h hcalls
    obtain ⟨hk, hc⟩ := hcalls call List.mem_cons_self
    obtain ⟨mid, hmid, hsame, hat⟩ := h.hear hk hc
    obtain ⟨after, hafter, hsame', hat'⟩ := ih hat fun x hx => by
      rw [hsame]
      exact hcalls x (List.mem_cons_of_mem _ hx)
    refine ⟨after, ?_, hsame'.trans hsame, hat'.perm ?_⟩
    · rw [List.foldlM_cons, hmid]
      exact hafter
    · rw [← List.append_assoc]
      refine List.Perm.append_right jobs ?_
      rw [List.filterMap_cons]
      cases asked now call.1 with
      | none => simp
      | some j => exact List.perm_append_singleton j _

/-- The nodes and their clients have gone on: what one of the nodes asked for is done. -/
theorem follow (h : self.At now jobs) {cluster : Cluster} {n : NodeId} {out : List Effect}
    (ht : cluster.world.trace = self.cluster.world.trace ++ out.map fun e => (n, e)) (hc : (cluster.world.nodes n).config = {}) :
    ∃ after, self.follow undisturbed cluster = .ok after ∧ after.cluster = cluster ∧
      after.At now (out.filterMap (fun e => asked now (n, e)) ++ jobs) := by
  have hcalls : (cluster.world.trace.zipIdx.drop self.cluster.world.trace.length).map Prod.fst = out.map fun e => (n, e) := by
    rw [List.map_drop, List.zipIdx_map_fst, ht, List.drop_left]
  obtain ⟨after, hafter, hsame, hat⟩ := (h.extend ht).hearAll (cluster.world.trace.zipIdx.drop self.cluster.world.trace.length)
    fun call hcall => by
      refine ⟨List.mem_zipIdx_iff_getElem?.1 (List.mem_of_mem_drop hcall), ?_⟩
      have hmem : call.1 ∈ out.map fun e => (n, e) := hcalls ▸ List.mem_map_of_mem hcall
      obtain ⟨e, -, he⟩ := List.mem_map.1 hmem
      rw [← he]
      exact hc
  refine ⟨after, hafter, hsame, ?_⟩
  have hasked : (cluster.world.trace.zipIdx.drop self.cluster.world.trace.length).filterMap (fun call => asked now call.1) =
      out.filterMap fun e => asked now (n, e) := by
    rw [show (fun call : (NodeId × Effect) × ℕ => asked now call.1) = asked now ∘ Prod.fst from rfl, ← List.filterMap_map, hcalls,
      List.filterMap_map]
    rfl
  rwa [hasked] at hat

/-- An action, as the operation that it performs. -/
theorem act (h : self.At now jobs) {action : Action} {n : NodeId} {op : NodeOp} {node : RaftNode}
    (ho : self.cluster.world.operation action = some (n, op)) (hop : (self.cluster.world.nodes n).perform op = .ok node)
    (hc : node.config = {}) :
    ∃ after, self.act undisturbed action = .ok after ∧ after.cluster = self.cluster.performed undisturbed.network n node ∧
      after.At now (node.out.filterMap (fun e => asked now (n, e)) ++ jobs) := by
  have hworld := Cluster.world_performed undisturbed.network self.cluster n node
  obtain ⟨after, hafter, hsame, hat⟩ := @follow self now jobs h (self.cluster.performed undisturbed.network n node) n node.out
    (by rw [hworld]) (by rw [hworld]; simp [hc])
  refine ⟨after, ?_, hsame, hat⟩
  rw [Harness.act, Cluster.act_eq ho hop]
  exact hafter

/-- A message arrives. -/
theorem step_message (h : self.At now ((t, .message src dst msg) :: rest)) (hlt : ∀ x ∈ rest, t < x.1) (hs : src ∈ [(0 : NodeId), 1])
    (hd : dst ∈ [(0 : NodeId), 1]) (hop : (self.cluster.world.nodes dst).handle msg = .ok node) (hc : node.config = {}) :
    ∃ after, self.step undisturbed = .ok (true, after) ∧ after.cluster = self.cluster.tick.performed undisturbed.network dst node ∧
      after.At t (node.out.filterMap (fun e => asked t (dst, e)) ++ rest) := by
  obtain ⟨⟨d, fn⟩, clock, hpop, hjob, hat⟩ := h.pop hlt
  obtain ⟨k, rfl, hk⟩ := job_message hjob
  obtain ⟨popped, hp⟩ : ∃ popped : Harness brisk,
      popped = { self with sim := { self.sim with clock }, cluster := self.cluster.tick } := ⟨_, rfl⟩
  rw [← hp] at hat
  have hsame : popped.cluster = self.cluster.tick := by rw [hp]
  have hline := hat.line { popped.net with delivered := popped.net.delivered + 1 } ⟨rfl, rfl, rfl, rfl⟩ (.deliver src dst msg)
  have ho : popped.cluster.world.operation (.deliver k) = some (dst, .handle msg) := by
    rw [hsame]
    simp only [World.operation, Cluster.tick, hk]
  obtain ⟨after, hafter, hcluster, hat'⟩ := hline.act ho (by rw [← hop]; rw [hp]; rfl) hc
  refine ⟨after, ?_, ?_, hat'⟩
  · have hcrashed : dst ∉ popped.net.crashed := by
      rw [hat.crashed]
      exact Finset.notMem_empty dst
    have hlink : link src dst ∉ popped.net.downLinks := by
      rw [hat.links]
      exact Finset.notMem_empty _
    have hreach : ¬popped.net.reachable src dst = false := by
      simp [SimNetwork.reachable, hat.whole src hs, hat.whole dst hd, hat.links]
    have hcall : popped.call undisturbed (.deliver k) = .ok after := by
      have hk' : popped.cluster.world.trace[k]? = some (src, .send dst msg) := by rw [hsame]; exact hk
      rw [Harness.call, delivery, hk']
      simp only [if_neg hcrashed, if_neg hlink, if_neg hreach]
      exact hafter
    rw [Harness.step, hpop]
    simp only [← hp, hcall, bind, Except.bind]
    rfl
  · rw [hcluster]
    show popped.cluster.performed undisturbed.network dst node = _
    rw [hsame]

/-- A timer fires. -/
theorem step_timer (h : self.At now ((t, .timer n kind seq) :: rest)) (hlt : ∀ x ∈ rest, t < x.1)
    (hop : (self.cluster.world.nodes n).perform (.timeout seq kind) = .ok node) (hc : node.config = {}) :
    ∃ after, self.step undisturbed = .ok (true, after) ∧ after.cluster = self.cluster.tick.performed undisturbed.network n node ∧
      after.At t (node.out.filterMap (fun e => asked t (n, e)) ++ rest) := by
  obtain ⟨⟨d, fn⟩, clock, hpop, hjob, hat⟩ := h.pop hlt
  obtain ⟨k, rfl, hk⟩ := job_timer hjob
  obtain ⟨popped, hp⟩ : ∃ popped : Harness brisk,
      popped = { self with sim := { self.sim with clock }, cluster := self.cluster.tick } := ⟨_, rfl⟩
  rw [← hp] at hat
  have hsame : popped.cluster = self.cluster.tick := by rw [hp]
  have ho : popped.cluster.world.operation (.fire k) = some (n, .timeout seq kind) := by
    rw [hsame]
    simp only [World.operation, Cluster.tick, hk]
  obtain ⟨after, hafter, hcluster, hat'⟩ := hat.act ho (by rw [← hop]; rw [hp]; rfl) hc
  refine ⟨after, ?_, by rw [hcluster, hsame], hat'⟩
  have hcall : popped.call undisturbed (.fire k) = .ok after := hafter
  rw [Harness.step, hpop]
  simp only [← hp, hcall, bind, Except.bind]
  rfl

/-- What is traced of a client's attempt. -/
theorem recordAttempt (h : self.At now jobs) (clientId : Int) (target : NodeId) :
    (self.recordAttempt clientId target).At now jobs ∧ (self.recordAttempt clientId target).cluster = self.cluster := by
  unfold Harness.recordAttempt
  simp only
  split
  · exact ⟨(h.line self.net ⟨rfl, rfl, rfl, rfl⟩ _).line self.net ⟨rfl, rfl, rfl, rfl⟩ _, rfl⟩
  · exact ⟨h.line self.net ⟨rfl, rfl, rfl, rfl⟩ _, rfl⟩

/-- The next client acts, at the first node. -/
theorem step_clientTick (h : self.At now ((t, .clientTick) :: rest)) (hlt : ∀ x ∈ rest, t < x.1) {cluster : Cluster} {out : List Effect}
    (hc : self.cluster.tick.clientTick undisturbed.network 0 = .ok cluster)
    (ht : cluster.world.trace = self.cluster.world.trace ++ out.map fun e => (n, e)) (hconfig : (cluster.world.nodes n).config = {}) :
    ∃ after, self.step undisturbed = .ok (true, after) ∧ after.cluster = cluster ∧
      after.At t ((t + 100, .clientTick) :: (out.filterMap (fun e => asked t (n, e)) ++ rest)) := by
  obtain ⟨⟨d, fn⟩, clock, hpop, hjob, hat⟩ := h.pop hlt
  obtain rfl := job_clientTick hjob
  obtain ⟨popped, hp⟩ : ∃ popped : Harness brisk,
      popped = { self with sim := { self.sim with clock }, cluster := self.cluster.tick } := ⟨_, rfl⟩
  rw [← hp] at hat
  have hsame : popped.cluster = self.cluster.tick := by rw [hp]
  have hchoice : popped.sim.choice undisturbed.ids = .ok (0, { popped.sim with rng := (2 : ℕ) }) := by
    unfold Simulator.choice
    rw [hat.rng]
    rfl
  obtain ⟨chosen, hch⟩ : ∃ chosen : Harness brisk, chosen = { popped with sim := { popped.sim with rng := (2 : ℕ) } } := ⟨_, rfl⟩
  have hchosen : chosen.At t rest := by
    rw [hch]
    exact ⟨rfl, hat.now, hat.due, hat.crashed, hat.links, hat.lossy, hat.whole⟩
  obtain ⟨attempted, ha⟩ : ∃ attempted, attempted =
      chosen.recordAttempt ((popped.cluster.clientTurn % WORKLOAD_CLIENTS : ℕ) : Int) 0 := ⟨_, rfl⟩
  obtain ⟨hattempted, hcluster⟩ := hchosen.recordAttempt ((popped.cluster.clientTurn % WORKLOAD_CLIENTS : ℕ) : Int) 0
  have hcluster : attempted.cluster = self.cluster.tick := by
    rw [ha, hcluster, hch]
    exact hsame
  rw [← ha] at hattempted
  obtain ⟨mid, hmid, hsame', hat'⟩ := @follow attempted t rest hattempted cluster n out (by rw [ht, hcluster]; rfl) hconfig
  obtain ⟨after, hafter, hsame'', hat''⟩ := @schedule mid t _ .clientTick .clientTick hat' CLIENT_INTERVAL (by decide) rfl
  refine ⟨after, ?_, hsame''.trans hsame', hat''⟩
  have hcall : popped.call undisturbed .clientTick = .ok after := by
    rw [Harness.call, Harness.clientTick, hchoice]
    have hraise : Harness.raising (popped.cluster.clientTick undisturbed.network 0) = .ok cluster := by
      rw [hsame, hc]
      rfl
    simp only [bind, Except.bind, hraise, ← hch, ← ha, hmid]
    exact hafter
  rw [Harness.step, hpop]
  simp only [← hp, hcall, bind, Except.bind]
  rfl

end At

/-- What a node tells of makes nothing due. -/
theorem asked_tells {es : List Effect} (h : ∀ e ∈ es, e.Tells) (now : Int) (n : NodeId) : es.filterMap (fun e => asked now (n, e)) = [] := by
  refine List.filterMap_eq_nil_iff.2 fun e he => ?_
  have htell := h e he
  cases e with
  | send dst msg => exact htell.elim
  | schedule kind seq => exact htell.elim
  | _ => rfl

end Harness
end DeterministicRaft
