import DeterministicRaft.Post

/-!
# The traffic on a network

What an operation on a network adds to what is recorded, takes from the queue and puts on it, and what that keeps: each copy of a message
that was sent is delivered, dropped or still queued.
-/

namespace DeterministicRaft

open Refinement

/-! ## What is recorded -/

namespace Notice

variable {μ α : Type}

/-- What a notice tells of. -/
inductive Kind where
  | send | drop | dup | deliver
  deriving DecidableEq

/-- What the notice tells of. -/
def kind : Notice μ α → Kind
  | .send _ _ _ _ => .send
  | .drop _ _ _ _ => .drop
  | .dup _ _ _ _ => .dup
  | .deliver _ _ _ _ => .deliver

/-- Whose copy it is about. -/
def fn : Notice μ α → α
  | .send _ _ _ fn => fn
  | .drop _ _ _ fn => fn
  | .dup _ _ _ fn => fn
  | .deliver _ _ _ fn => fn

/-- The callbacks that the notices of a kind are about. -/
def told (log : List (Notice μ α)) (kind : Kind) : List α := (log.filter (·.kind = kind)).map (·.fn)

/-- Nothing is told. -/
@[simp] theorem told_nil (k : Kind) : told ([] : List (Notice μ α)) k = [] := rfl

/-- One notice, and the others. -/
@[simp] theorem told_cons (notice : Notice μ α) (log : List (Notice μ α)) (k : Kind) :
    told (notice :: log) k = if notice.kind = k then notice.fn :: told log k else told log k := by
  unfold told
  rw [List.filter_cons]
  by_cases hk : notice.kind = k <;> simp [hk]

/-- Notices one after the other. -/
@[simp] theorem told_append (log log' : List (Notice μ α)) (k : Kind) : told (log ++ log') k = told log k ++ told log' k := by
  unfold told
  rw [List.filter_append, List.map_append]

end Notice

/-- The message that is recorded as sent. -/
def Notice.sent? {μ α : Type} : Notice μ α → Option (NodeId × NodeId × μ)
  | .send src dst msg _ => some (src, dst, msg)
  | _ => none

/-- The message that the operation sends. -/
def PostOp.sent? {R : RandomSource} {μ β : Type} : PostOp R μ β → Option (NodeId × NodeId × μ)
  | .send src dst msg => some (src, dst, msg)
  | _ => none

/-- How many messages went that way. -/
def SimNetwork.count (net : SimNetwork) : Notice.Kind → ℕ
  | .send => net.sent
  | .drop => net.dropped
  | .dup => net.duplicated
  | .deliver => net.delivered

namespace Post

open Notice (told)

variable {R : RandomSource} {μ α β : Type}

/-- The notices in order. -/
def log (self : Post R μ α) : List (Notice μ α) := self.notices.map (·.2)

/-- The callbacks that are due. -/
def queue (self : Post R μ α) : List α := self.sim.clock.pending.map (·.2)

/-! ## What an operation does -/

/-- The operation recorded the new notices, took some callbacks from the queue and put others on it; the network counts what was
recorded. -/
structure Turns (before after : Post R μ α) (new : List (Notice μ α)) (taken put : List α) : Prop where
  log : after.log = before.log ++ new
  queue : (taken ++ after.queue).Perm (put ++ before.queue)
  count : ∀ k, after.net.count k = before.net.count k + (told new k).length

namespace Turns

variable {self before mid after : Post R μ α} {new new' : List (Notice μ α)} {taken taken' put put' : List α}

/-- Only chance is drawn. -/
theorem of_sim (hl : after.notices = before.notices) (hc : after.sim.clock = before.sim.clock)
    (hn : ∀ k, after.net.count k = before.net.count k) : Turns before after [] [] [] where
  log := by rw [Post.log, Post.log, hl, List.append_nil]
  queue := by rw [Post.queue, Post.queue, hc]
  count k := by rw [hn k, Notice.told_nil, List.length_nil, Nat.add_zero]

/-- Nothing happens. -/
theorem refl (self : Post R μ α) : Turns self self [] [] [] := of_sim rfl rfl fun _ => rfl

/-- One part after the other. -/
theorem trans (h : Turns before mid new taken put) (h' : Turns mid after new' taken' put') :
    Turns before after (new ++ new') (taken ++ taken') (put' ++ put) where
  log := by rw [h'.log, h.log, List.append_assoc]
  queue := by
    rw [List.append_assoc, List.append_assoc]
    have h1 : (taken ++ (taken' ++ after.queue)).Perm (taken ++ (put' ++ mid.queue)) := h'.queue.append_left taken
    have h2 : (taken ++ (put' ++ mid.queue)).Perm (put' ++ (taken ++ mid.queue)) := by
      rw [← List.append_assoc, ← List.append_assoc]
      exact List.perm_append_comm.append_right _
    exact h1.trans (h2.trans (h.queue.append_left put'))
  count k := by
    rw [h'.count, h.count, Notice.told_append, List.length_append, Nat.add_assoc]

/-- One notice, with its counter. -/
theorem record (self : Post R μ α) (notice : Notice μ α) {net : SimNetwork}
    (hn : ∀ k, net.count k = self.net.count k + (told [notice] k).length) :
    Turns self ({ self with net }.record notice) [notice] [] [] where
  log := by rw [Post.log, Post.log, Post.record, List.map_append, List.map_singleton]
  queue := List.Perm.refl _
  count := hn

/-- One callback is put into the queue. -/
theorem schedule (self : Post R μ α) (delay : Int) (fn : α) : Ensures (self.schedule delay fn) fun after =>
    Turns self after [] [] [fn] := by
  unfold Post.schedule Simulator.schedule
  split
  · exact fun _ h => nomatch h
  · rename_i hd
    refine Ensures.pure ⟨by rw [Post.log, Post.log, List.append_nil], ?_, fun k => rfl⟩
    exact (Clock.pending_schedule self.sim.clock (Int.not_lt.1 hd)).map (·.2)

/-- Chance is drawn. -/
theorem chance (self : Post R μ α) (p : ℚ) : Turns self (self.chance p).2 [] [] [] := of_sim rfl rfl fun _ => rfl

/-- Chance is drawn where there is a risk. -/
theorem risk (self : Post R μ α) (p : ℚ) : Turns self (self.risk p).2 [] [] [] := by
  unfold Post.risk
  split
  · exact chance self p
  · exact refl self

/-- A lossy link draws. -/
theorem lossyDraw (self : Post R μ α) (src dst : NodeId) : Turns self (self.lossyDraw src dst).2 [] [] [] := by
  unfold Post.lossyDraw
  split
  · exact chance self _
  · exact refl self

/-- An integer is drawn. -/
theorem randint (self : Post R μ α) (lo hi : Int) : Ensures (self.randint lo hi) fun draw => Turns self draw.2 [] [] [] := by
  unfold Post.randint
  refine Ensures.bind (Q := fun draw => draw.2.clock = self.sim.clock) ?_ fun draw hd => Ensures.pure (of_sim rfl hd fun _ => rfl)
  unfold Simulator.randint
  split
  · exact fun _ h => nomatch h
  · exact Ensures.pure rfl

/-- A message is lost, and the notice says why. -/
theorem drop (self : Post R μ α) (src dst : NodeId) (why : Loss) (fn : α) :
    Turns self (self.drop src dst why fn) [.drop src dst why fn] [] [] :=
  record self _ fun k => by cases k <;> rfl

end Turns

/-- What becomes of a message that is sent: it is dropped, put on the queue, or put on it twice. -/
inductive Sends (src dst : NodeId) (msg : μ) (fn : α) (self after : Post R μ α) : Prop where
  | lost (why : Loss) (h : Turns self after [.send src dst msg fn, .drop src dst why fn] [] [])
  | once (h : Turns self after [.send src dst msg fn] [] [fn])
  | twice (h : Turns self after [.send src dst msg fn, .dup src dst msg fn] [] [fn, fn])

/-- Sending a message tells of it, and of its fate on the way. -/
theorem send_sends (profile : FaultProfile) (self : Post R μ α) (src dst : NodeId) (msg : μ) (fn : α) :
    Ensures (self.send profile src dst msg fn) (Sends src dst msg fn self) := by
  unfold Post.send
  simp only
  have h0 : Turns self ({ self with net := { self.net with sent := self.net.sent + 1 } }.record (.send src dst msg fn))
      [.send src dst msg fn] [] [] := Turns.record self _ fun k => by cases k <;> rfl
  generalize ({ self with net := { self.net with sent := self.net.sent + 1 } }.record (.send src dst msg fn)) = s0 at h0 ⊢
  split
  · exact Ensures.pure (.lost _ (h0.trans (.drop s0 src dst _ fn)))
  have h1 := h0.trans (.lossyDraw s0 src dst)
  generalize s0.lossyDraw src dst = draw at h1 ⊢
  obtain ⟨lossy, s1⟩ := draw
  simp only at h1 ⊢
  split
  · exact Ensures.pure (.lost _ (h1.trans (.drop s1 src dst _ fn)))
  have h2 := h1.trans (.risk s1 profile.dropP)
  generalize s1.risk profile.dropP = draw at h2 ⊢
  obtain ⟨lost, s2⟩ := draw
  simp only at h2 ⊢
  split
  · exact Ensures.pure (.lost _ (h2.trans (.drop s2 src dst _ fn)))
  refine Ensures.bind (Turns.randint s2 _ _) fun draw h3 => ?_
  obtain ⟨delay, s3⟩ := draw
  refine Ensures.bind (Turns.schedule s3 delay fn) fun s4 h4 => ?_
  have h5 := ((h2.trans h3).trans h4).trans (.risk s4 profile.dupP)
  generalize s4.risk profile.dupP = draw at h5 ⊢
  obtain ⟨dup, s5⟩ := draw
  simp only at h5 ⊢
  split
  · refine Ensures.bind (Turns.randint s5 _ _) fun draw h6 => ?_
    obtain ⟨dupDelay, s6⟩ := draw
    have h7 : Turns s6 ({ s6 with net := { s6.net with duplicated := s6.net.duplicated + 1 } }.record (.dup src dst msg fn))
        [.dup src dst msg fn] [] [] := Turns.record s6 _ fun k => by cases k <;> rfl
    exact (Turns.schedule _ dupDelay fn).mono fun _ h8 => .twice (((h5.trans h6).trans h7).trans h8)
  · exact Ensures.pure (.once h5)

/-- What becomes of a copy that is due: it is dropped, or delivered if nothing is in the way. -/
inductive Arrives (src dst : NodeId) (msg : μ) (fn : α) (self after : Post R μ α) : Prop where
  | lost (why : Loss) (h : Turns self after [.drop src dst why fn] [] [])
  | reached (h : Turns self after [.deliver src dst msg fn] [] []) (hc : dst ∉ self.net.crashed) (hl : link src dst ∉ self.net.downLinks)
      (hg : self.net.group src = self.net.group dst)

/-- A copy that is due arrives, or is lost on arrival. -/
theorem delivery_arrives (nodeIds : List NodeId) (self : Post R μ α) (src dst : NodeId) (msg : μ) (fn : α) :
    Ensures (self.delivery nodeIds src dst msg fn) fun result => Arrives src dst msg fn self result.2 := by
  unfold Post.delivery
  split
  · exact Ensures.pure (.lost _ (.drop self src dst _ fn))
  · rename_i hc
    split
    · exact Ensures.pure (.lost _ (.drop self src dst _ fn))
    · rename_i hl
      split
      · exact fun _ h => nomatch h
      · split
        · exact Ensures.pure (.lost _ (.drop self src dst _ fn))
        · rename_i hr
          refine Ensures.pure (.reached (Turns.record self _ fun k => by cases k <;> rfl) hc hl ?_)
          have hreach : self.net.reachable src dst = true := by simpa using hr
          exact (of_decide_eq_true hreach).1

/-! ## What every operation keeps -/

/-- The copies among the callbacks. -/
def copiesOf (fns : List (Copy μ ⊕ β)) : List (Copy μ) := fns.filterMap Sum.getLeft?

/-- The copies among callbacks one after the other. -/
@[simp] theorem copiesOf_append (fns fns' : List (Copy μ ⊕ β)) : copiesOf (fns ++ fns') = copiesOf fns ++ copiesOf fns' :=
  List.filterMap_append

/-- No callbacks, no copies. -/
@[simp] theorem copiesOf_nil : copiesOf ([] : List (Copy μ ⊕ β)) = [] := rfl

/-- A copy is one. -/
@[simp] theorem copiesOf_inl (copy : Copy μ) (fns : List (Copy μ ⊕ β)) : copiesOf (.inl copy :: fns) = copy :: copiesOf fns := rfl

/-- Other callbacks are none. -/
@[simp] theorem copiesOf_inr (fns : List β) : copiesOf (fns.map Sum.inr : List (Copy μ ⊕ β)) = [] := by
  induction fns with
  | nil => rfl
  | cons fn fns ih => exact ih

/-- The copies that the notices of a kind are about. -/
def copies (self : Post R μ (Copy μ ⊕ β)) (k : Notice.Kind) : List (Copy μ) := copiesOf (told self.log k)

/-- The copies that are still queued. -/
def queued (self : Post R μ (Copy μ ⊕ β)) : List (Copy μ) := copiesOf self.queue

/-- What an operation of the network comes to. -/
inductive Applies (self after : Post R μ (Copy μ ⊕ β)) : PostOp R μ β → Prop where
  | sends (src dst : NodeId) (msg : μ) (h : Sends src dst msg (.inl { src, dst, msg, serial := self.net.sent }) self after) :
      Applies self after (.send src dst msg)
  | arrives (copy : Copy μ) (mid : Post R μ (Copy μ ⊕ β)) (h : Turns self mid [] [.inl copy] []) (hn : mid.net = self.net)
      (ha : Arrives copy.src copy.dst copy.msg (.inl copy) mid after) : Applies self after .step
  | aside (op : PostOp R μ β) (hop : op.sent? = none) (taken put : List β)
      (h : Turns self after [] (taken.map Sum.inr) (put.map Sum.inr)) : Applies self after op

/-- The simulator takes the next callback. -/
theorem Turns.pop {self : Post R μ α} {due : Due} {fn : α} {clock : Clock α} (h : self.sim.clock.pop = some ((due, fn), clock)) :
    Turns self { self with sim := { self.sim with clock } } [] [fn] [] where
  log := by rw [Post.log, Post.log, List.append_nil]
  queue := by
    rw [List.nil_append, Post.queue, Post.queue, Clock.pending_of_pop h]
    exact List.Perm.refl _
  count _ := rfl

/-- What an operation does to the post. -/
theorem apply_applies (nodeIds : List NodeId) (profile : FaultProfile) (self : Post R μ (Copy μ ⊕ β)) (op : PostOp R μ β) :
    Ensures (self.apply nodeIds profile op) fun after => Applies self after op := by
  have hstill : ∀ {after : Post R μ (Copy μ ⊕ β)}, op.sent? = none → Turns self after [] [] [] → Applies self after op :=
    fun hop h => .aside op hop [] [] h
  cases op with
  | send src dst msg => exact (send_sends profile self src dst msg _).mono fun _ h => .sends src dst msg h
  | setPartition groups =>
    unfold apply SimNetwork.setPartition
    simp only
    split
    · rename_i net hnet
      split at hnet
      · cases hnet
      · cases hnet
        exact Ensures.pure (hstill rfl (.of_sim rfl rfl fun k => by cases k <;> rfl))
    · exact fun _ h => nomatch h
  | schedule delay fn => exact (Turns.schedule self delay _).mono fun _ h => .aside _ rfl [] [fn] h
  | step =>
    simp only [apply]
    split
    · exact Ensures.pure (hstill rfl (.refl self))
    · rename_i due fn clock hp
      exact Ensures.pure (.aside _ rfl [fn] [] (.pop hp))
    · rename_i due copy clock hp
      refine Ensures.map ((delivery_arrives nodeIds _ copy.src copy.dst copy.msg _).mono fun result h => ?_)
      exact .arrives copy _ (.pop hp) rfl h
  | _ => exact Ensures.pure (hstill rfl (.of_sim rfl rfl fun k => by cases k <;> rfl))

/-- As many messages are recorded as sent as there are notices of it. -/
theorem length_sent (log : List (Notice μ α)) : (log.filterMap Notice.sent?).length = (told log .send).length := by
  induction log with
  | nil => rfl
  | cons notice log ih =>
    cases notice with
    | send => simp [Notice.sent?, Notice.kind, ih]
    | _ => simpa [List.filterMap_cons, Notice.sent?, Notice.kind] using ih

/-- An operation records as sent what it sends, and counts it. -/
theorem Applies.sent {self after : Post R μ (Copy μ ⊕ β)} {op : PostOp R μ β} (h : Applies self after op) :
    after.log.filterMap Notice.sent? = self.log.filterMap Notice.sent? ++ op.sent?.toList ∧
      after.net.sent = self.net.sent + op.sent?.toList.length := by
  have hnew : ∀ {new : List (Notice μ (Copy μ ⊕ β))} {taken put : List (Copy μ ⊕ β)}, Turns self after new taken put →
      new.filterMap Notice.sent? = op.sent?.toList → after.log.filterMap Notice.sent? = self.log.filterMap Notice.sent? ++ op.sent?.toList ∧
        after.net.sent = self.net.sent + op.sent?.toList.length := fun h hop => by
    rw [← hop, h.log, List.filterMap_append, length_sent]
    exact ⟨rfl, h.count .send⟩
  cases h with
  | sends src dst msg h =>
    cases h with
    | lost why h => exact hnew h rfl
    | once h => exact hnew h rfl
    | twice h => exact hnew h rfl
  | arrives copy mid h hn ha =>
    cases ha with
    | lost why ha => exact hnew (h.trans ha) rfl
    | reached ha _ _ _ => exact hnew (h.trans ha) rfl
  | aside _ hop taken put h => exact hnew h (by rw [hop]; rfl)

/-- After some operations what is recorded as sent is what they sent, in order, and it is counted. -/
theorem exec_sent (nodeIds : List NodeId) (profile : FaultProfile) (ops : List (PostOp R μ β)) (self : Post R μ (Copy μ ⊕ β)) :
    Ensures (self.exec nodeIds profile ops) fun after =>
      after.log.filterMap Notice.sent? = self.log.filterMap Notice.sent? ++ ops.filterMap PostOp.sent? ∧
        after.net.sent = self.net.sent + (ops.filterMap PostOp.sent?).length := by
  induction ops generalizing self with
  | nil => exact Ensures.pure ⟨by rw [List.filterMap_nil, List.append_nil], rfl⟩
  | cons op ops ih =>
    unfold exec
    rw [List.foldlM_cons]
    refine Ensures.bind (apply_applies nodeIds profile self op) fun mid hmid => (ih mid).mono fun after hafter => ?_
    have hcons : (op :: ops).filterMap PostOp.sent? = op.sent?.toList ++ ops.filterMap PostOp.sent? := by
      cases hop : op.sent? <;> simp [hop]
    rw [hafter.1, hafter.2, hmid.sent.1, hmid.sent.2, hcons, List.length_append, List.append_assoc, Nat.add_assoc]
    exact ⟨rfl, rfl⟩

/-- The copies against what is recorded: each that was sent or duplicated was delivered, or dropped, or is queued. -/
structure Sound (s : Post R μ (Copy μ ⊕ β)) : Prop where
  count : ∀ k, s.net.count k = (s.copies k).length
  balance : ∀ p : Copy μ → Bool, (s.copies .send).countP p + (s.copies .dup).countP p =
    (s.copies .deliver).countP p + (s.copies .drop).countP p + s.queued.countP p
  serials : (s.copies .send).map (·.serial) = List.range s.net.sent
  dups : ((s.copies .dup).map (·.serial)).Nodup
  dup_lt : ∀ copy ∈ s.copies .dup, copy.serial < s.net.sent
  queued : ∀ copy ∈ s.queued, Notice.send copy.src copy.dst copy.msg (.inl copy) ∈ s.log
  earlier : ∀ (i : ℕ) (src dst : NodeId) (msg : μ) (fn : Copy μ ⊕ β), s.log[i]? = some (Notice.deliver src dst msg fn) →
    ∃ j < i, s.log[j]? = some (Notice.send src dst msg fn)

namespace Sound

variable {self after : Post R μ (Copy μ ⊕ β)} {new : List (Notice μ (Copy μ ⊕ β))} {taken put : List (Copy μ ⊕ β)}

/-- The copies that the notices tell of. -/
theorem copies_of_turns (h : Turns self after new taken put) (k : Notice.Kind) :
    after.copies k = self.copies k ++ copiesOf (told new k) := by
  rw [copies, copies, h.log, Notice.told_append, copiesOf_append]

/-- The copies in the queue. -/
theorem queued_of_turns (h : Turns self after new taken put) :
    (copiesOf taken ++ after.queued).Perm (copiesOf put ++ self.queued) := by
  have hp := h.queue.filterMap Sum.getLeft?
  rwa [List.filterMap_append, List.filterMap_append] at hp

/-- What an operation does to the counts, if it accounts for the copies it is about. -/
theorem counts (hs : Sound self) (h : Turns self after new taken put) (hnew : ∀ k, (copiesOf (told new k)).length = (told new k).length)
    (hbalance : ∀ p : Copy μ → Bool, (copiesOf (told new .send)).countP p + (copiesOf (told new .dup)).countP p +
      (copiesOf taken).countP p = (copiesOf (told new .deliver)).countP p + (copiesOf (told new .drop)).countP p +
      (copiesOf put).countP p) :
    (∀ k, after.net.count k = (after.copies k).length) ∧ ∀ p : Copy μ → Bool, (after.copies .send).countP p +
      (after.copies .dup).countP p = (after.copies .deliver).countP p + (after.copies .drop).countP p + after.queued.countP p := by
  refine ⟨fun k => ?_, fun p => ?_⟩
  · rw [h.count, hs.count, copies_of_turns h, List.length_append, hnew]
  · have hq := (queued_of_turns h).countP_eq p
    have hb := hbalance p
    have hold := hs.balance p
    simp only [copies_of_turns h, List.countP_append] at hq ⊢
    omega

/-- Nothing new is a delivery. -/
theorem earlier_of_not (hs : Sound self) (h : Turns self after new taken put) (hnew : ∀ notice ∈ new, notice.kind ≠ .deliver) :
    ∀ (i : ℕ) (src dst : NodeId) (msg : μ) (fn : Copy μ ⊕ β), after.log[i]? = some (Notice.deliver src dst msg fn) →
      ∃ j < i, after.log[j]? = some (Notice.send src dst msg fn) := by
  intro i src dst msg fn hi
  rw [h.log] at hi ⊢
  by_cases hlt : i < self.log.length
  · rw [List.getElem?_append_left hlt] at hi
    obtain ⟨j, hj, hjs⟩ := hs.earlier i src dst msg fn hi
    exact ⟨j, hj, by rwa [List.getElem?_append_left (hj.trans hlt)]⟩
  · rw [List.getElem?_append_right (not_lt.1 hlt)] at hi
    exact absurd rfl (hnew _ (List.mem_of_getElem? hi))

/-- A message is sent. -/
theorem sends (hs : Sound self) {src dst : NodeId} {msg : μ} {rest : List (Notice μ (Copy μ ⊕ β))} {put : List (Copy μ ⊕ β)}
    (h : Turns self after (.send src dst msg (.inl { src, dst, msg, serial := self.net.sent }) :: rest) [] put)
    (hcase : (∃ why, rest = [.drop src dst why (.inl { src, dst, msg, serial := self.net.sent })] ∧ put = []) ∨
      (rest = [] ∧ put = [.inl { src, dst, msg, serial := self.net.sent }]) ∨
      (rest = [.dup src dst msg (.inl { src, dst, msg, serial := self.net.sent })] ∧
        put = [.inl { src, dst, msg, serial := self.net.sent }, .inl { src, dst, msg, serial := self.net.sent }])) : Sound after := by
  generalize hcopy : ({ src, dst, msg, serial := self.net.sent } : Copy μ) = copy at h hcase
  have hserial : copy.serial = self.net.sent := hcopy ▸ rfl
  have hsend : (.send src dst msg (.inl copy) : Notice μ (Copy μ ⊕ β)) = .send copy.src copy.dst copy.msg (.inl copy) := by rw [← hcopy]
  have hrest : (copiesOf (told rest .send) = [] ∧ ∀ c ∈ copiesOf put, c = copy) ∧ (∀ notice ∈ rest, notice.kind ≠ .deliver) ∧
      (copiesOf (told rest .dup) = [] ∨ copiesOf (told rest .dup) = [copy]) := by
    rcases hcase with ⟨why, rfl, rfl⟩ | ⟨rfl, rfl⟩ | ⟨rfl, rfl⟩
    · simp [Notice.kind]
    · simp
    · simp [Notice.kind, Notice.fn]
  obtain ⟨⟨hsends, hput⟩, hnone, hdup⟩ := hrest
  obtain ⟨hcount, hbalance⟩ := counts hs h
    (by
      intro k
      rcases hcase with ⟨why, rfl, rfl⟩ | ⟨rfl, rfl⟩ | ⟨rfl, rfl⟩ <;> cases k <;> simp [Notice.kind, Notice.fn])
    (by
      intro p
      rcases hcase with ⟨why, rfl, rfl⟩ | ⟨rfl, rfl⟩ | ⟨rfl, rfl⟩ <;> simp [Notice.kind, Notice.fn, List.countP_cons])
  have hsent : after.net.sent = self.net.sent + 1 := by
    have hc := h.count .send
    rcases hcase with ⟨why, rfl, rfl⟩ | ⟨rfl, rfl⟩ | ⟨rfl, rfl⟩
    · simpa [Notice.kind, SimNetwork.count] using hc
    · simpa [Notice.kind, SimNetwork.count] using hc
    · simpa [Notice.kind, SimNetwork.count] using hc
  have hdups : after.copies .dup = self.copies .dup ++ copiesOf (told rest .dup) := by
    rw [copies_of_turns h]
    simp [Notice.kind]
  refine ⟨hcount, hbalance, ?_, ?_, ?_, ?_, earlier_of_not hs h ?_⟩
  · rw [copies_of_turns h, List.map_append, hs.serials, hsent, List.range_succ]
    simp [Notice.kind, Notice.fn, hsends, hserial]
  · rw [hdups, List.map_append]
    rcases hdup with hdup | hdup
    · rw [hdup, List.map_nil, List.append_nil]
      exact hs.dups
    · rw [hdup, List.map_singleton, List.nodup_append]
      refine ⟨hs.dups, List.nodup_singleton _, fun a ha b hb hab => ?_⟩
      obtain ⟨c, hc, rfl⟩ := List.mem_map.1 ha
      rw [List.mem_singleton.1 hb] at hab
      exact absurd (hs.dup_lt c hc) (by omega)
  · intro c hc
    rw [hdups] at hc
    rcases List.mem_append.1 hc with hc | hc
    · exact (hs.dup_lt c hc).trans (by omega)
    · rcases hdup with hdup | hdup
      · rw [hdup] at hc
        cases hc
      · rw [hdup] at hc
        rw [List.mem_singleton.1 hc]
        omega
  · intro c hc
    have hq := (queued_of_turns h).subset (List.mem_append_right _ hc)
    rw [h.log]
    rcases List.mem_append.1 hq with hq | hq
    · rw [hput c hq, ← hsend]
      exact List.mem_append_right _ List.mem_cons_self
    · exact List.mem_append_left _ (hs.queued c hq)
  · intro notice hm
    rcases List.mem_cons.1 hm with rfl | hm
    · exact nofun
    · exact hnone notice hm

/-- A copy is taken from the queue: it is dropped or delivered. -/
theorem takes (hs : Sound self) {copy : Copy μ} {notice : Notice μ (Copy μ ⊕ β)} (h : Turns self after [notice] [.inl copy] [])
    (hcase : (∃ why, notice = .drop copy.src copy.dst why (.inl copy)) ∨ notice = .deliver copy.src copy.dst copy.msg (.inl copy)) :
    Sound after := by
  obtain ⟨hcount, hbalance⟩ := counts hs h
    (by
      intro k
      rcases hcase with ⟨why, rfl⟩ | rfl <;> cases k <;> simp [Notice.kind, Notice.fn])
    (by
      intro p
      rcases hcase with ⟨why, rfl⟩ | rfl <;> simp [Notice.kind, Notice.fn])
  have hnone : copiesOf (told [notice] .send) = [] ∧ copiesOf (told [notice] .dup) = [] := by
    rcases hcase with ⟨why, rfl⟩ | rfl <;> simp [Notice.kind]
  have hsent : after.net.sent = self.net.sent := by
    have hc := h.count .send
    rcases hcase with ⟨why, rfl⟩ | rfl
    · simpa [Notice.kind, SimNetwork.count] using hc
    · simpa [Notice.kind, SimNetwork.count] using hc
  have hperm := queued_of_turns h
  have hcopy : copy ∈ self.queued := hperm.subset (by simp)
  refine ⟨hcount, hbalance, ?_, ?_, ?_, ?_, ?_⟩
  · rw [copies_of_turns h, hnone.1, List.append_nil, hsent]
    exact hs.serials
  · rw [copies_of_turns h, hnone.2, List.append_nil]
    exact hs.dups
  · rw [copies_of_turns h, hnone.2, List.append_nil, hsent]
    exact hs.dup_lt
  · intro c hc
    rw [h.log]
    exact List.mem_append_left _ (hs.queued c (hperm.subset (List.mem_append_right _ hc)))
  · rcases hcase with ⟨why, rfl⟩ | rfl
    · refine earlier_of_not hs h fun notice hm => ?_
      rw [List.mem_singleton.1 hm]
      exact nofun
    · intro i src dst msg fn hi
      rw [h.log] at hi ⊢
      by_cases hlt : i < self.log.length
      · rw [List.getElem?_append_left hlt] at hi
        obtain ⟨j, hj, hjs⟩ := hs.earlier i src dst msg fn hi
        exact ⟨j, hj, by rwa [List.getElem?_append_left (hj.trans hlt)]⟩
      · rw [List.getElem?_append_right (not_lt.1 hlt)] at hi
        cases List.mem_singleton.1 (List.mem_of_getElem? hi)
        obtain ⟨j, hj⟩ := List.mem_iff_getElem?.1 (hs.queued copy hcopy)
        have hjlt := (List.getElem?_eq_some_iff.1 hj).1
        exact ⟨j, by omega, by rwa [List.getElem?_append_left hjlt]⟩

/-- Others use the simulator. -/
theorem aside (hs : Sound self) {taken put : List β} (h : Turns self after [] (taken.map Sum.inr) (put.map Sum.inr)) : Sound after := by
  obtain ⟨hcount, hbalance⟩ := counts hs h (fun k => by simp) (fun p => by simp)
  have hcopies : ∀ k, after.copies k = self.copies k := fun k => by simp [copies_of_turns h]
  have hsent : after.net.sent = self.net.sent := by simpa [SimNetwork.count] using h.count .send
  have hperm := queued_of_turns h
  rw [copiesOf_inr, copiesOf_inr, List.nil_append, List.nil_append] at hperm
  refine ⟨hcount, hbalance, ?_, ?_, ?_, ?_, earlier_of_not hs h nofun⟩
  · rw [hcopies, hsent]
    exact hs.serials
  · rw [hcopies]
    exact hs.dups
  · rw [hcopies, hsent]
    exact hs.dup_lt
  · intro c hc
    rw [h.log, List.append_nil]
    exact hs.queued c (hperm.subset hc)

/-- Every operation keeps the books of the post. -/
theorem applies (hs : Sound self) {op : PostOp R μ β} (h : Applies self after op) : Sound after := by
  cases h with
  | sends src dst msg h =>
    cases h with
    | lost why h => exact hs.sends h (Or.inl ⟨why, rfl, rfl⟩)
    | once h => exact hs.sends h (Or.inr (Or.inl ⟨rfl, rfl⟩))
    | twice h => exact hs.sends h (Or.inr (Or.inr ⟨rfl, rfl⟩))
  | arrives copy mid h hn ha =>
    cases ha with
    | lost why ha => exact hs.takes (h.trans ha) (Or.inl ⟨why, rfl⟩)
    | reached ha _ _ _ => exact hs.takes (h.trans ha) (Or.inr rfl)
  | aside _ _ taken put h => exact hs.aside h

/-- A post without messages. -/
theorem of_new (seed : R.State) : Sound (Post.new seed : Post R μ (Copy μ ⊕ β)) where
  count k := by cases k <;> rfl
  balance _ := rfl
  serials := rfl
  dups := List.nodup_nil
  dup_lt _ h := absurd h List.not_mem_nil
  queued _ h := absurd h List.not_mem_nil
  earlier _ _ _ _ _ h := nomatch h

/-- Whatever is done to a network, and whatever is drawn. -/
theorem exec (hs : Sound self) (nodeIds : List NodeId) (profile : FaultProfile) (ops : List (PostOp R μ β)) :
    Ensures (self.exec nodeIds profile ops) Sound :=
  Ensures.foldlM (fun s op hs => (apply_applies nodeIds profile s op).mono fun _ h => hs.applies h) hs

end Sound

/-! ## Nothing raises -/

/-- An integer can be drawn from a range that is not empty. -/
theorem randint_ok {lo hi : Int} (h : lo ≤ hi) (self : Post R μ α) : ∃ draw, self.randint lo hi = .ok draw ∧ lo ≤ draw.1 := by
  unfold Post.randint Simulator.randint
  rw [if_neg (not_lt.2 h)]
  exact ⟨_, rfl, (R.randint_mem lo hi self.sim.rng h).1⟩

/-- A callback can be scheduled after any delay that is not negative. -/
theorem schedule_ok {delay : Int} (h : 0 ≤ delay) (self : Post R μ α) (fn : α) : ∃ after, self.schedule delay fn = .ok after := by
  unfold Post.schedule Simulator.schedule
  rw [dif_neg (not_lt.2 h)]
  exact ⟨_, rfl⟩

/-- The delays of the profile are delays. -/
def Delays (profile : FaultProfile) : Prop := 0 ≤ profile.minDelay ∧ profile.minDelay ≤ profile.maxDelay

/-- The delays of all fault profiles are ranges that are not empty. -/
theorem delays_profiles (faults : Faults) : Delays (PROFILES faults) := by
  cases faults <;> exact ⟨by decide, by decide⟩

/-- A message can be sent. -/
theorem send_ok {profile : FaultProfile} (h : Delays profile) (self : Post R μ α) (src dst : NodeId) (msg : μ) (fn : α) :
    ∃ after, self.send profile src dst msg fn = .ok after := by
  unfold Post.send
  simp only
  generalize ({ self with net := { self.net with sent := self.net.sent + 1 } }.record (.send src dst msg fn)) = s0
  split
  · exact ⟨_, rfl⟩
  split
  · exact ⟨_, rfl⟩
  split
  · exact ⟨_, rfl⟩
  obtain ⟨⟨delay, s3⟩, hdraw, hdelay⟩ := randint_ok h.2 ((s0.lossyDraw src dst).2.risk profile.dropP).2
  obtain ⟨s4, hs4⟩ := schedule_ok (h.1.trans hdelay) s3 fn
  rw [hdraw]
  simp only [bind, Except.bind, hs4]
  split
  · obtain ⟨⟨dupDelay, s6⟩, hdraw', hdelay'⟩ := randint_ok h.2 (s4.risk profile.dupP).2
    rw [hdraw']
    exact schedule_ok (h.1.trans hdelay') _ fn
  · exact ⟨_, rfl⟩

end Post

/-- The operation is about nodes of the network, splits all of them if it splits any, and schedules nothing in the past. -/
def PostOp.Valid {R : RandomSource} {μ β : Type} (nodeIds : List NodeId) : PostOp R μ β → Prop
  | .send src dst _ => src ∈ nodeIds ∧ dst ∈ nodeIds
  | .setPartition groups => groups.foldl (· ∪ ·) ∅ = nodeIds.toFinset
  | .schedule delay _ => 0 ≤ delay
  | _ => True

namespace Post

/-- The copies on the queue are between nodes of the network. -/
def Known (nodeIds : List NodeId) (self : Post R μ (Copy μ ⊕ β)) : Prop :=
  ∀ copy ∈ self.queued, copy.src ∈ nodeIds ∧ copy.dst ∈ nodeIds

variable {nodeIds : List NodeId} {profile : FaultProfile} {self after : Post R μ (Copy μ ⊕ β)} {op : PostOp R μ β}

/-- Every operation keeps the groups of the nodes known. -/
theorem Known.applies (hk : Known nodeIds self) (h : Applies self after op) (hv : op.Valid nodeIds) : Known nodeIds after := by
  have hturns : ∀ {self after : Post R μ (Copy μ ⊕ β)} {new : List (Notice μ (Copy μ ⊕ β))} {taken put : List (Copy μ ⊕ β)},
      Known nodeIds self → Turns self after new taken put → (∀ copy ∈ copiesOf put, copy.src ∈ nodeIds ∧ copy.dst ∈ nodeIds) →
      Known nodeIds after := by
    intro self after new taken put hk h hput copy hc
    rcases List.mem_append.1 ((Sound.queued_of_turns h).subset (List.mem_append_right _ hc)) with hc | hc
    · exact hput copy hc
    · exact hk copy hc
  cases h with
  | sends src dst msg h =>
    have hv : src ∈ nodeIds ∧ dst ∈ nodeIds := hv
    cases h with
    | lost why h => exact hturns hk h (by simp)
    | once h => exact hturns hk h (by simpa using hv)
    | twice h => exact hturns hk h (by simpa using hv)
  | arrives copy mid h hn ha =>
    cases ha with
    | lost why ha => exact hturns hk (h.trans ha) (by simp)
    | reached ha _ _ _ => exact hturns hk (h.trans ha) (by simp)
  | aside _ _ taken put h => exact hturns hk h (by simp)

/-- A copy between nodes can be delivered. -/
theorem delivery_ok (self : Post R μ α) {src dst : NodeId} (hs : src ∈ nodeIds) (hd : dst ∈ nodeIds) (msg : μ) (fn : α) :
    ∃ result, self.delivery nodeIds src dst msg fn = .ok result := by
  unfold Post.delivery
  rw [if_neg (not_or.2 ⟨not_not.2 hs, not_not.2 hd⟩)]
  split
  · exact ⟨_, rfl⟩
  split
  · exact ⟨_, rfl⟩
  split
  · exact ⟨_, rfl⟩
  · exact ⟨_, rfl⟩

/-- Every valid operation can be carried out. -/
theorem apply_ok (h : Delays profile) (hk : Known nodeIds self) (hv : op.Valid nodeIds) :
    ∃ after, self.apply nodeIds profile op = .ok after := by
  cases op with
  | send src dst msg => exact send_ok h self src dst msg _
  | setPartition groups =>
    have hv : groups.foldl (· ∪ ·) ∅ = nodeIds.toFinset := hv
    simp only [apply, SimNetwork.setPartition]
    rw [if_neg (not_not.2 hv)]
    exact ⟨_, rfl⟩
  | schedule delay fn => exact schedule_ok hv self _
  | step =>
    simp only [apply]
    split
    · exact ⟨_, rfl⟩
    · exact ⟨_, rfl⟩
    · rename_i due copy clock hp
      have hcopy : copy ∈ self.queued := (Sound.queued_of_turns (Turns.pop hp)).subset (by simp)
      obtain ⟨result, hr⟩ := delivery_ok { self with sim := { self.sim with clock } } (hk copy hcopy).1 (hk copy hcopy).2 copy.msg
        (.inl copy)
      exact ⟨result.2, by rw [hr]; rfl⟩
  | _ => exact ⟨_, rfl⟩

/-- Valid operations do not raise. -/
theorem exec_ok (h : Delays profile) {ops : List (PostOp R μ β)} (hk : Known nodeIds self) (hv : ∀ op ∈ ops, op.Valid nodeIds) :
    ∃ after, self.exec nodeIds profile ops = .ok after := by
  induction ops generalizing self with
  | nil => exact ⟨self, rfl⟩
  | cons op ops ih =>
    obtain ⟨mid, hmid⟩ := apply_ok h hk (hv op List.mem_cons_self)
    have hk' := hk.applies (apply_applies nodeIds profile self op mid hmid) (hv op List.mem_cons_self)
    obtain ⟨after, hafter⟩ := ih hk' fun op ho => hv op (List.mem_cons_of_mem _ ho)
    refine ⟨after, ?_⟩
    unfold exec at hafter ⊢
    rw [List.foldlM_cons, hmid]
    exact hafter

end Post

end DeterministicRaft
