import DeterministicRaft.Lifecycle

/-!
# The network by itself (`sim.py`)

The faulty network on its simulator, whoever uses it: what a message is, and what it is delivered to, is left open. What the cluster
does with its network is this, and the trace.
-/

namespace DeterministicRaft

/-- What the network records of a message, with the callback that stands for a copy of it. -/
inductive Notice (μ α : Type) where
  | send (src dst : NodeId) (msg : μ) (fn : α)
  | drop (src dst : NodeId) (why : Loss) (fn : α)
  | dup (src dst : NodeId) (msg : μ) (fn : α)
  | deliver (src dst : NodeId) (msg : μ) (fn : α)
  deriving DecidableEq

/-- A network of messages `μ`, its simulator of callbacks `α`, and what it has recorded. -/
structure Post (R : RandomSource) (μ α : Type) where
  sim : Simulator R α
  net : SimNetwork := {}
  notices : List (Int × Notice μ α) := []

namespace Post

variable {R : RandomSource} {μ α β : Type}

def record (self : Post R μ α) (notice : Notice μ α) : Post R μ α :=
  { self with notices := self.notices ++ [(self.sim.clock.now, notice)] }

def schedule (self : Post R μ α) (delay : Int) (fn : α) : Except SimError (Post R μ α) := do
  let sim ← self.sim.schedule delay fn
  return { self with sim }

def randint (self : Post R μ α) (lo hi : Int) : Except SimError (Int × Post R μ α) := do
  let draw ← self.sim.randint lo hi
  return (draw.1, { self with sim := draw.2 })

/-- Whether `rng.random()` is below a probability. -/
def chance (self : Post R μ α) (p : ℚ) : Bool × Post R μ α := (self.sim.random.1 < p, { self with sim := self.sim.random.2 })

/-- The same, with no draw if the probability is zero. -/
def risk (self : Post R μ α) (p : ℚ) : Bool × Post R μ α := if 0 < p then self.chance p else (false, self)

/-- The draw for a lossy link. -/
def lossyDraw (self : Post R μ α) (src dst : NodeId) : Bool × Post R μ α :=
  match self.net.lossyLinks.lookup (link src dst) with
  | some dropP => self.chance dropP
  | none => (false, self)

def drop (self : Post R μ α) (src dst : NodeId) (why : Loss) (fn : α) : Post R μ α :=
  { self with net := { self.net with dropped := self.net.dropped + 1 } }.record (.drop src dst why fn)

/-- `send`; `fn` is the callback that it schedules for each copy. -/
def send (profile : FaultProfile) (self : Post R μ α) (src dst : NodeId) (msg : μ) (fn : α) : Except SimError (Post R μ α) :=
  let self := { self with net := { self.net with sent := self.net.sent + 1 } }.record (.send src dst msg fn)
  if src ∈ self.net.crashed then .ok (self.drop src dst .senderCrashed fn)
  else
    let (lossy, self) := self.lossyDraw src dst
    if lossy then .ok (self.drop src dst .lossyLink fn)
    else
      let (lost, self) := self.risk profile.dropP
      if lost then .ok (self.drop src dst .lost fn)
      else do
        let (delay, self) ← self.randint profile.minDelay profile.maxDelay
        let self ← self.schedule delay fn
        let (dup, self) := self.risk profile.dupP
        if dup then
          let (dupDelay, self) ← self.randint profile.minDelay profile.maxDelay
          let self := { self with net := { self.net with duplicated := self.net.duplicated + 1 } }.record (.dup src dst msg fn)
          self.schedule dupDelay fn
        else return self

/-- `_delivery`, up to the call of `_deliver`: is that reached? Only the nodes of the network are in a group. -/
def delivery (nodeIds : List NodeId) (self : Post R μ α) (src dst : NodeId) (msg : μ) (fn : α) : Except SimError (Bool × Post R μ α) :=
  if dst ∈ self.net.crashed then .ok (false, self.drop src dst .dstCrashed fn)
  else if link src dst ∈ self.net.downLinks then .ok (false, self.drop src dst .linkDown fn)
  else if src ∉ nodeIds ∨ dst ∉ nodeIds then .error (.raised .keyError)
  else if self.net.reachable src dst = false then .ok (false, self.drop src dst .partitioned fn)
  else .ok (true, { self with net := { self.net with delivered := self.net.delivered + 1 } }.record (.deliver src dst msg fn))

end Post

/-- A copy of a message under way, with the number of the `send` it comes from. -/
structure Copy (μ : Type) where
  src : NodeId
  dst : NodeId
  msg : μ
  serial : ℕ
  deriving DecidableEq

/-- What can be done to a network. The simulator is shared: others put callbacks `β` on its queue and draw from its random numbers. What
`_deliver` does comes after the step that calls it. -/
inductive PostOp (R : RandomSource) (μ β : Type) where
  | send (src dst : NodeId) (msg : μ)
  | setPartition (groups : List (Finset NodeId))
  | heal
  | setLinkDown (a b : NodeId)
  | setLinkUp (a b : NodeId)
  | setLinkLossy (a b : NodeId) (dropP : ℚ)
  | clearLinkLossy (a b : NodeId)
  | crash (n : NodeId)
  | resume (n : NodeId)
  | schedule (delay : Int) (fn : β)
  | draw (rng : R.State)
  | step

namespace Post

variable {R : RandomSource} {μ α β : Type} (nodeIds : List NodeId) (profile : FaultProfile)

/-- A network that has just been made. -/
def new (seed : R.State) : Post R μ α where
  sim := .new seed

/-- The network after an operation, or what the operation raises. -/
def apply (self : Post R μ (Copy μ ⊕ β)) : PostOp R μ β → Except SimError (Post R μ (Copy μ ⊕ β))
  | .send src dst msg => self.send profile src dst msg (.inl { src, dst, msg, serial := self.net.sent })
  | .setPartition groups =>
    match self.net.setPartition nodeIds groups with
    | (net, none) => .ok { self with net }
    | (_, some e) => .error e
  | .heal => .ok { self with net := self.net.heal nodeIds }
  | .setLinkDown a b => .ok { self with net := self.net.setLinkDown a b }
  | .setLinkUp a b => .ok { self with net := self.net.setLinkUp a b }
  | .setLinkLossy a b dropP => .ok { self with net := self.net.setLinkLossy a b dropP }
  | .clearLinkLossy a b => .ok { self with net := self.net.clearLinkLossy a b }
  | .crash n => .ok { self with net := { self.net with crashed := insert n self.net.crashed } }
  | .resume n => .ok { self with net := { self.net with crashed := self.net.crashed.erase n } }
  | .schedule delay fn => self.schedule delay (.inr fn)
  | .draw rng => .ok { self with sim := { self.sim with rng } }
  | .step =>
    match self.sim.clock.pop with
    | none => .ok self
    | some ((_, .inr _), clock) => .ok { self with sim := { self.sim with clock } }
    | some ((_, .inl copy), clock) =>
      Prod.snd <$> { self with sim := { self.sim with clock } }.delivery nodeIds copy.src copy.dst copy.msg (.inl copy)

/-- The network after some operations, or what one of them raises. -/
def exec (self : Post R μ (Copy μ ⊕ β)) (ops : List (PostOp R μ β)) : Except SimError (Post R μ (Copy μ ⊕ β)) :=
  ops.foldlM (apply nodeIds profile) self

end Post

/-! ## The network of a cluster -/

/-- The line of the trace. -/
def Notice.line {α : Type} : Notice Message α → Line
  | .send src dst msg _ => .send src dst msg
  | .drop src dst why _ => .drop src dst why
  | .dup src dst msg _ => .dup src dst msg
  | .deliver src dst msg _ => .deliver src dst msg

namespace Harness

variable {R : RandomSource} {settings : Settings} (self : Harness R) (p : Post R Message Callback)

/-- The network of a cluster. -/
def post (self : Harness R) : Post R Message Callback where
  sim := self.sim
  net := self.net

/-- The cluster once its network has come to `p`. -/
def carried (self : Harness R) (p : Post R Message Callback) : Harness R :=
  { self with sim := p.sim, net := p.net, trace := self.trace ++ p.notices.map fun x => (x.1, x.2.line) }

@[simp] theorem carried_net : (self.carried p).net = p.net := rfl

theorem carried_record (net : SimNetwork) (notice : Notice Message Callback) :
    { self.carried p with net }.record notice.line = self.carried ({ p with net }.record notice) := by
  simp only [carried, Harness.record, Post.record, List.map_append, List.map_cons, List.map_nil, List.append_assoc]

theorem carried_risk (q : ℚ) : (self.carried p).risk q = ((p.risk q).1, self.carried (p.risk q).2) := by
  unfold Harness.risk Post.risk
  split <;> rfl

theorem carried_lossyDraw (src dst : NodeId) :
    (self.carried p).lossyDraw src dst = ((p.lossyDraw src dst).1, self.carried (p.lossyDraw src dst).2) := by
  unfold Harness.lossyDraw Post.lossyDraw
  show (match p.net.lossyLinks.lookup (link src dst) with
    | some dropP => (self.carried p).chance dropP
    | none => (false, self.carried p)) = _
  split <;> rfl

theorem carried_drop (src dst : NodeId) (why : Loss) (fn : Callback) :
    (self.carried p).drop src dst why = self.carried (p.drop src dst why fn) :=
  carried_record self p { p.net with dropped := p.net.dropped + 1 } (.drop src dst why fn)

theorem carried_schedule (delay : Int) (fn : Callback) :
    (self.carried p).schedule delay fn = self.carried <$> p.schedule delay fn := by
  unfold Harness.schedule Post.schedule
  show (p.sim.schedule delay fn >>= fun sim => pure { self.carried p with sim }) = _
  cases p.sim.schedule delay fn <;> rfl

theorem carried_randint (lo hi : Int) :
    (self.carried p).randint lo hi = (fun draw => (draw.1, self.carried draw.2)) <$> p.randint lo hi := by
  unfold Harness.randint Post.randint
  show (p.sim.randint lo hi >>= fun draw => pure (draw.1, { self.carried p with sim := draw.2 })) = _
  cases p.sim.randint lo hi <;> rfl

/-- A cluster sends as its network does, and records it. -/
theorem send_carried (src dst : NodeId) (msg : Message) (k : ℕ) :
    (self.carried p).send settings src dst msg k = self.carried <$> p.send settings.profile src dst msg (.deliver k) := by
  have h0 : { self.carried p with net := { (self.carried p).net with sent := (self.carried p).net.sent + 1 } }.record (.send src dst msg) =
      self.carried ({ p with net := { p.net with sent := p.net.sent + 1 } }.record (.send src dst msg (.deliver k))) :=
    carried_record self p _ (.send src dst msg (.deliver k))
  unfold Harness.send Post.send
  rw [h0]
  simp only
  generalize ({ p with net := { p.net with sent := p.net.sent + 1 } }.record (.send src dst msg (.deliver k))) = p0
  rw [carried_net]
  by_cases hc : src ∈ p0.net.crashed
  · rw [if_pos hc, if_pos hc, carried_drop self p0 src dst _ (.deliver k)]
    rfl
  rw [if_neg hc, if_neg hc, carried_lossyDraw]
  generalize p0.lossyDraw src dst = draw
  obtain ⟨lossy, p1⟩ := draw
  simp only
  cases lossy with
  | true =>
    rw [if_pos rfl, if_pos rfl, carried_drop self p1 src dst _ (.deliver k)]
    rfl
  | false =>
    rw [if_neg Bool.false_ne_true, if_neg Bool.false_ne_true, carried_risk]
    generalize p1.risk settings.profile.dropP = draw
    obtain ⟨lost, p2⟩ := draw
    simp only
    cases lost with
    | true =>
      rw [if_pos rfl, if_pos rfl, carried_drop self p2 src dst _ (.deliver k)]
      rfl
    | false =>
      rw [if_neg Bool.false_ne_true, if_neg Bool.false_ne_true, carried_randint]
      generalize p2.randint settings.profile.minDelay settings.profile.maxDelay = draw
      rcases draw with e | ⟨delay, p3⟩
      · rfl
      show ((self.carried p3).schedule delay (.deliver k) >>= _) = self.carried <$> (p3.schedule delay (.deliver k) >>= _)
      rw [carried_schedule]
      generalize p3.schedule delay (.deliver k) = draw
      rcases draw with e | p4
      · rfl
      simp only [Functor.map, Except.map, bind, Except.bind, carried_risk]
      generalize p4.risk settings.profile.dupP = draw
      obtain ⟨dup, p5⟩ := draw
      cases dup with
      | false => rfl
      | true =>
        simp only [if_true]
        rw [carried_randint]
        generalize p5.randint settings.profile.minDelay settings.profile.maxDelay = draw
        rcases draw with e | ⟨dupDelay, p6⟩
        · rfl
        have h6 : { self.carried p6 with net := { (self.carried p6).net with duplicated := (self.carried p6).net.duplicated + 1 } }.record
            (.dup src dst msg) = self.carried ({ p6 with net := { p6.net with duplicated := p6.net.duplicated + 1 } }.record
              (.dup src dst msg (.deliver k))) := carried_record self p6 _ (.dup src dst msg (.deliver k))
        simp only [Functor.map, Except.map]
        rw [h6, carried_schedule]
        rfl

/-- A cluster delivers as its network does: what the network lets pass reaches the node. -/
theorem delivery_carried {src dst : NodeId} {msg : Message} {k : ℕ} (hk : self.cluster.world.trace[k]? = some (src, .send dst msg))
    (hs : src ∈ settings.ids) (hd : dst ∈ settings.ids) : (self.carried p).delivery settings k = (do
      let (reached, p) ← p.delivery settings.ids src dst msg (.deliver k)
      if reached then (self.carried p).act settings (.deliver k) else return self.carried p) := by
  have hk' : (self.carried p).cluster.world.trace[k]? = some (src, .send dst msg) := hk
  unfold Harness.delivery Post.delivery
  rw [hk']
  simp only
  rw [carried_net]
  by_cases hc : dst ∈ p.net.crashed
  · rw [if_pos hc, if_pos hc, carried_drop self p src dst _ (.deliver k)]
    rfl
  rw [if_neg hc, if_neg hc]
  by_cases hl : link src dst ∈ p.net.downLinks
  · rw [if_pos hl, if_pos hl, carried_drop self p src dst _ (.deliver k)]
    rfl
  have hids : ¬(src ∉ settings.ids ∨ dst ∉ settings.ids) := not_or.2 ⟨not_not.2 hs, not_not.2 hd⟩
  rw [if_neg hl, if_neg hl, if_neg hids]
  by_cases hr : p.net.reachable src dst = false
  · rw [if_pos hr, if_pos hr, carried_drop self p src dst _ (.deliver k)]
    rfl
  rw [if_neg hr, if_neg hr]
  have h0 : { self.carried p with net := { (self.carried p).net with delivered := (self.carried p).net.delivered + 1 } }.record
      (.deliver src dst msg) = self.carried ({ p with net := { p.net with delivered := p.net.delivered + 1 } }.record
        (.deliver src dst msg (.deliver k))) := carried_record self p _ (.deliver src dst msg (.deliver k))
  exact congrArg (fun s => s.act settings (.deliver k)) h0

end Harness

end DeterministicRaft
