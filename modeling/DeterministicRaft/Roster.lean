import DeterministicRaft.Addressees
import DeterministicRaft.Clients
import DeterministicRaft.Theorems.CrashPairing
import DeterministicRaft.Theorems.Quorums
import DeterministicRaft.Told

/-!
# The nodes of a run

In a run only nodes of the cluster do anything, crash and come back: messages go to voters and are answered to their senders, every
configuration names nodes of the cluster, and the drivers choose among them. So every event is about one of them.
-/

namespace DeterministicRaft

open RaftNode Refinement

variable {nodeIds : List NodeId}

/-! ## Worlds -/

/-- A message that tells the truth is from the node. -/
theorem Effect.Sound.replyTo {self : RaftNode} {dst : NodeId} {msg : Message} (h : (Effect.send dst msg).Sound self) {s : NodeId}
    (hs : msg.replyTo = some s) : s = self.id := by
  cases msg with
  | requestVote msg =>
    cases hs
    exact h.2.2
  | appendEntries msg =>
    cases hs
    exact h.2.2.1
  | appendReply msg =>
    cases hs
    exact h.2
  | installSnapshot msg =>
    cases hs
    exact h.2.2.1
  | readHeartbeat msg =>
    cases hs
    exact h.2.2
  | _ => cases hs

/-- The messages of some moves are from the node. -/
theorem Moved.senders {I : Inputs} {self after : RaftNode} (h : Moved I self after) : ∃ es, after.out = self.out ++ es ∧
    ∀ dst msg s, Effect.send dst msg ∈ es → msg.replyTo = some s → s = self.id := by
  induction h with
  | refl => exact ⟨[], (List.append_nil _).symm, fun _ _ _ h => absurd h List.not_mem_nil⟩
  | tail hms hm ih =>
    obtain ⟨es, hout, hes⟩ := ih
    obtain ⟨es', hcalls⟩ := hm.calls
    refine ⟨es ++ es', by rw [hcalls.out, hout, List.append_assoc], fun dst msg s he hs => ?_⟩
    rcases List.mem_append.1 he with he | he
    · exact hes dst msg s he hs
    · rw [← Moved.fixed hms |>.1]
      rcases hcalls.sends dst msg he with h | h | ⟨req, -, -, -, rfl⟩
      · exact h.replyTo hs
      · exact h.replyTo hs
      · cases hs

/-- The action is about one of the nodes, and what it proposes or submits names no others. -/
def Action.Within (nodeIds : List NodeId) : Action → Prop
  | .deliver _ | .fire _ => True
  | .clientCommand n command => n ∈ nodeIds ∧ decodeConfig command = none
  | .changeConfig n newVoters => n ∈ nodeIds ∧ newVoters ⊆ nodeIds
  | .requestRead n _ | .pause n | .resume n => n ∈ nodeIds

/-- Only these nodes have done anything, have crashed, are written to and answered, and are voters. -/
structure World.Sited (nodeIds : List NodeId) (w : World) : Prop where
  adopts : w.Adopts (· ⊆ nodeIds)
  ids : ∀ n, (w.nodes n).id = n
  callers : ∀ call ∈ w.trace, call.1 ∈ nodeIds
  sent : ∀ n dst msg, (n, Effect.send dst msg) ∈ w.trace → dst ∈ nodeIds ∧ ∀ s, msg.replyTo = some s → s ∈ nodeIds
  down : ∀ n, (w.nodes n).alive = false → n ∈ nodeIds

namespace World.Sited

variable {w after : World}

/-- What an action is about. -/
theorem operation (h : w.Sited nodeIds) {action : Action} (ha : action.Within nodeIds) {n : NodeId} {op : NodeOp}
    (hop : w.operation action = some (n, op)) : n ∈ nodeIds ∧
      (∀ msg s, op = .handle msg → msg.replyTo = some s → s ∈ nodeIds) ∧
      ∀ newVoters, op = .changeConfig newVoters → newVoters ⊆ nodeIds := by
  rcases World.operation_cases hop with ⟨src, msg, hsrc, rfl⟩ | ⟨kind, seq, hsrc, rfl⟩ | ⟨command, rfl, rfl⟩ |
    ⟨newVoters, rfl, rfl⟩ | ⟨command, rfl, rfl⟩ | ⟨rfl, rfl⟩ | ⟨rfl, rfl⟩
  · refine ⟨(h.sent src n msg hsrc).1, fun msg' s he hs => ?_, fun _ he => nomatch he⟩
    cases he
    exact (h.sent src n msg hsrc).2 s hs
  · cases kind <;> exact ⟨h.callers _ hsrc, fun _ _ he _ => (nomatch he), fun _ he => nomatch he⟩
  · exact ⟨ha.1, fun _ _ he _ => (nomatch he), fun _ he => nomatch he⟩
  · refine ⟨ha.1, fun _ _ he _ => (nomatch he), fun newVoters' he => ?_⟩
    cases he
    exact ha.2
  all_goals exact ⟨ha, fun _ _ he _ => (nomatch he), fun _ he => nomatch he⟩

theorem proposes {action : Action} (ha : action.Within nodeIds) : Proposes (· ⊆ nodeIds) w action := by
  cases action with
  | clientCommand n command =>
    intro _ _ voters hv
    rw [ha.2] at hv
    cases hv
  | changeConfig n newVoters =>
    intro after _ v hv
    exact ha.2 (List.mem_dedup.1 ((List.mem_insertionSort _).1 hv))
  | _ => trivial

theorem step (h : w.Sited nodeIds) {action : Action} (ha : action.Within nodeIds) : Ensures (w.step action) (World.Sited nodeIds) := by
  intro after hstep
  have hadopts := World.Adopts.step w action after (proposes ha) hstep h.adopts
  have hids := World.step_ids hstep h.ids
  rcases World.step_cases hstep with rfl | ⟨n, op, self, hop, hp, rfl⟩
  · exact h
  · obtain ⟨hn, hmsg, hconfig⟩ := h.operation ha hop
    obtain ⟨es, hout, hes⟩ := Writes.perform (P := (· ∈ nodeIds)) (fun v hv => (h.adopts.nodes n).current hv) hmsg
      (fun newVoters he v hv => hconfig newVoters he hv) self hp
    obtain ⟨es', hout', hes'⟩ := (h.adopts.moved (proposes ha) hop hp).senders
    rw [h.adopts.idle n, List.nil_append] at hout hout'
    have hsame : es' = es := hout'.symm.trans hout
    subst hsame
    refine ⟨hadopts, hids, fun call hc => ?_, fun m dst msg hm => ?_, fun m hm => ?_⟩
    · rcases List.mem_append.1 hc with hc | hc
      · exact h.callers call hc
      · obtain ⟨e, -, rfl⟩ := List.mem_map.1 hc
        exact hn
    · rcases List.mem_append.1 hm with hm | hm
      · exact h.sent m dst msg hm
      · obtain ⟨e, he, hpair⟩ := List.mem_map.1 hm
        cases hpair
        rw [hout] at he
        refine ⟨hes dst msg he, fun s hs => ?_⟩
        rw [hes' dst msg s he hs, h.ids n]
        exact hn
    · by_cases hmn : m = n
      · rw [hmn]
        exact hn
      · simp only [Function.update_of_ne hmn] at hm
        exact h.down m hm

end World.Sited

/-! ## Clusters -/

namespace Cluster

/-- Only these nodes take part, and what clients wait for names no others. -/
structure Sited (nodeIds : List NodeId) (c : Cluster) : Prop where
  world : c.world.Sited nodeIds
  asked : ∀ cid encoded, c.outstanding.lookup cid = some encoded → decodeConfig encoded = none

variable {c : Cluster} (net : Network)

theorem Sited.onApply (h : c.Sited nodeIds) (encoded result : String) : (c.onApply net encoded result).Sited nodeIds := by
  rw [onApply_eq]
  split
  · exact h
  · refine ⟨?_, fun cid x hx => ?_⟩
    · rw [note_world]
      split
      · exact h.world
      · exact h.world
    · rw [note_outstanding] at hx
      split at hx
      · have hx : (c.outstanding.erase (Command.decode encoded).clientId).lookup cid = some x := hx
        by_cases hcid : cid = (Command.decode encoded).clientId
        · rw [hcid, Finmap.lookup_erase] at hx
          cases hx
        · rw [Finmap.lookup_erase_ne hcid] at hx
          exact h.asked cid x hx
      · exact h.asked cid x hx

theorem Sited.act (h : c.Sited nodeIds) {action : Action} (ha : action.Within nodeIds) :
    Ensures (c.act net action) (Cluster.Sited nodeIds) := by
  have hheard : ∀ (calls : List (NodeId × Effect)) (c : Cluster), c.Sited nodeIds →
      (calls.foldl (fun self call => self.hear net call.2) c).Sited nodeIds := by
    intro calls
    induction calls with
    | nil => exact fun _ h => h
    | cons call calls ih =>
      intro c h
      refine ih _ ?_
      show (c.hear net call.2).Sited nodeIds
      cases call.2 with
      | onApply encoded result => exact h.onApply net encoded result
      | _ => exact h
  unfold Cluster.act
  exact Ensures.bind (h.world.step ha) fun w hw => Ensures.pure (hheard _ _ ⟨hw, h.asked⟩)

theorem Sited.submit (h : c.Sited nodeIds) {target : NodeId} (ht : target ∈ nodeIds) {encoded : String}
    (he : decodeConfig encoded = none) : Ensures (c.submit net target encoded) (Cluster.Sited nodeIds) := by
  unfold Cluster.submit
  simp only
  split
  · split
    · exact Ensures.pure (h.onApply net encoded _)
    · split
      · exact h.act net (by exact ht)
      · exact h.act net (by exact ⟨ht, he⟩)
  · exact Ensures.pure h

theorem invoke_outstanding (c : Cluster) (command : Command) (encoded : String) :
    (c.invoke net command encoded).outstanding = c.outstanding := by
  unfold Cluster.invoke
  split <;> rfl

theorem Sited.clientTick (h : c.Sited nodeIds) {target : NodeId} (ht : target ∈ nodeIds) :
    Ensures (c.clientTick net target) (Cluster.Sited nodeIds) := by
  unfold Cluster.clientTick
  simp only
  split
  · refine Sited.submit net ⟨?_, fun cid encoded hl => ?_⟩ ht (decodeConfig_encode _)
    · rw [invoke_world]
      exact h.world
    · rw [invoke_outstanding] at hl
      by_cases hcid : cid = ((c.clientTurn % WORKLOAD_CLIENTS : ℕ) : Int)
      · rw [hcid, Finmap.lookup_insert] at hl
        rw [← Option.some.inj hl]
        exact decodeConfig_encode _
      · rw [Finmap.lookup_insert_of_ne _ hcid] at hl
        exact h.asked cid encoded hl
  · rename_i encoded hl
    have hturn : ({ c with clientTurn := c.clientTurn + 1 } : Cluster).Sited nodeIds := ⟨h.world, h.asked⟩
    exact hturn.submit net ht (h.asked _ encoded hl)

end Cluster

/-! ## Events -/

namespace Harness

variable {R : RandomSource} {settings : Settings} {self mid after : Harness R}

/-- Only nodes of the cluster take part, and every event that is recorded is about one of them. -/
structure Sited (settings : Settings) (moment : Harness R) : Prop where
  cluster : moment.cluster.Sited settings.ids
  trace : ∀ x ∈ moment.trace, x.2.About settings.ids

namespace Sited

theorem of_apart (h : self.Sited settings) (ha : Apart self after) : after.Sited settings := by
  obtain ⟨lines, ht, hl⟩ := ha.trace
  refine ⟨by rw [ha.cluster]; exact h.cluster, fun x hx => ?_⟩
  rw [ht] at hx
  rcases List.mem_append.1 hx with hx | hx
  · exact h.trace x hx
  · exact (hl x hx).2.about

/-- What the nodes have asked for. -/
theorem follow (h : self.Sited settings) {c : Cluster} (hc : c.Sited settings.ids) :
    Ensures (self.follow settings c) (Harness.Sited settings) := by
  refine (Heard.follow self c).mono fun after hh => ?_
  obtain ⟨lines, ht, hl, -⟩ := hh.trace
  refine ⟨by rw [hh.cluster]; exact hc, fun x hx => ?_⟩
  rw [ht] at hx
  rcases List.mem_append.1 hx with hx | hx
  · exact h.trace x hx
  · obtain ⟨-, haside | ⟨m, event, he, hm⟩⟩ := hl x hx
    · exact haside.about
    · rw [he]
      exact hc.world.callers _ (List.mem_of_mem_drop hm)

theorem act (h : self.Sited settings) (action : Action) (ha : action.Within settings.ids) :
    Ensures (self.act settings action) (Harness.Sited settings) := by
  unfold Harness.act
  exact Ensures.bind (Ensures.raising (h.cluster.act settings.network ha)) fun c hc => h.follow hc

/-- Messages and timers. -/
theorem serve : Serve settings fun before after : Harness R => before.Sited settings → after.Sited settings where
  trans h h' hs := h' (h hs)
  aside _ hcl ht hs := ⟨hcl ▸ hs.cluster, ht ▸ hs.trace⟩
  schedule self delay fn := (Apart.schedule self delay fn).mono fun _ h hs => hs.of_apart h
  record self line hl hs := hs.of_apart (Apart.talk.record self line hl)
  deliver _ k := Ensures.given fun hs => hs.act (.deliver k) trivial
  fire _ k := Ensures.given fun hs => hs.act (.fire k) trivial

theorem clientTick (h : self.Sited settings) : Ensures (self.clientTick settings) (Harness.Sited settings) := by
  unfold Harness.clientTick
  simp only
  refine Ensures.bind (Q := fun draw => draw.1 ∈ settings.ids ∧ Apart self { self with sim := draw.2 })
    (fun draw hd => ⟨choice_mem self settings.ids draw hd, Apart.talk.choice self settings.ids draw hd⟩) ?_
  rintro ⟨target, sim⟩ ⟨htarget, hdraw⟩
  refine Ensures.bind (Ensures.raising (h.cluster.clientTick settings.network htarget)) fun c hc => ?_
  have hattempt := Apart.talk.trans hdraw
    (Apart.talk.recordAttempt { self with sim } (self.cluster.clientTurn % WORKLOAD_CLIENTS : ℕ) target)
  refine Ensures.bind ((h.of_apart hattempt).follow hc) fun s hs => ?_
  have hsched : ∀ delay, Ensures (s.schedule delay .clientTick) (Harness.Sited settings) := fun delay =>
    (Apart.schedule s delay _).mono fun _ ha => hs.of_apart ha
  split
  · exact hsched _
  · exact hsched _

/-- A leader proposes to add a node of the cluster, or to remove one. -/
theorem proposeChange (h : self.Sited settings) {leader : NodeId} (hl : leader ∈ settings.ids) :
    Ensures (self.proposeChange settings leader) (Harness.Sited settings) := by
  unfold Harness.proposeChange
  simp only
  have hvoters : (self.cluster.world.nodes leader).voters ⊆ settings.ids := (h.cluster.world.adopts.nodes leader).current
  refine Ensures.bind (Ensures.trivial _) fun accepted _ => ?_
  have hturn : ∀ (s : Harness R) (memberTurn : ℕ), s.Sited settings → ({ s with memberTurn } : Harness R).Sited settings :=
    fun _ _ hs => ⟨hs.cluster, hs.trace⟩
  refine Ensures.bind ((hturn self _ h).act _ ⟨hl, ?_⟩) fun s hs => ?_
  · intro v hv
    split at hv
    · rename_i n rest hmissing
      rcases List.mem_append.1 ((List.mem_insertionSort _).1 hv) with hv | hv
      · exact hvoters hv
      · have hn : n ∈ settings.ids.filter (· ∉ (self.cluster.world.nodes leader).voters) := by
          rw [hmissing]
          exact List.mem_cons_self
        rw [List.mem_singleton.1 hv]
        exact (List.mem_filter.1 hn).1
    · exact hvoters (List.mem_filter.1 hv).1
  · split
    · exact Ensures.pure (hturn s _ hs)
    · exact Ensures.pure hs

theorem membershipTick (h : self.Sited settings) : Ensures (self.membershipTick settings) (Harness.Sited settings) := by
  have hturns : ∀ (leaders : List NodeId) (s : Harness R), (∀ n ∈ leaders, n ∈ settings.ids) → s.Sited settings →
      Ensures (leaders.foldlM (Harness.proposeChange settings) s) (Harness.Sited settings) := by
    intro leaders
    induction leaders with
    | nil => exact fun s _ hs => Ensures.pure hs
    | cons n leaders ih =>
      intro s hn hs
      rw [List.foldlM_cons]
      exact Ensures.bind (hs.proposeChange (hn n List.mem_cons_self)) fun mid hmid =>
        ih mid (fun m hm => hn m (List.mem_cons_of_mem _ hm)) hmid
  unfold Harness.membershipTick
  refine Ensures.bind (hturns _ self (fun n hn => (List.mem_filter.1 hn).1) h) fun s hs => ?_
  exact (Apart.schedule s _ _).mono fun _ ha => hs.of_apart ha

/-- A crash, or a restart, of a node of the cluster. -/
theorem lifecycle (h : self.Sited settings) (net : SimNetwork) {action : Action} (ha : action.Within settings.ids) {line : Line}
    (hl : line.About settings.ids) : Ensures (do
      let mid ← ({ self with net } : Harness R).act settings action
      return mid.record line) (Harness.Sited settings) := by
  have hnet : ({ self with net } : Harness R).Sited settings := ⟨h.cluster, h.trace⟩
  refine Ensures.bind (hnet.act action ha) fun mid hmid => Ensures.pure ⟨hmid.cluster, fun x hx => ?_⟩
  rcases List.mem_append.1 hx with hx | hx
  · exact hmid.trace x hx
  · rw [List.mem_singleton.1 hx]
    exact hl

theorem drive : Drive settings (· ∈ settings.ids) fun before after : Harness R => before.Sited settings → after.Sited settings where
  toIdle := serve.toIdle
  pause self n hn _ := Ensures.given fun hs =>
    hs.lifecycle { self.net with crashed := insert n self.net.crashed } (by exact hn) (by exact hn)

/-- Only who is down comes back. -/
theorem maybeResume (h : self.Sited settings) (hc : self.Agreed) (n : NodeId) :
    Ensures (self.maybeResume settings n) (Harness.Sited settings) := by
  unfold Harness.maybeResume
  split
  · rename_i hn
    have hn : n ∈ settings.ids := h.cluster.world.down n ((hc n).1 hn)
    exact h.lifecycle { self.net with crashed := self.net.crashed.erase n } (by exact hn) (by exact hn)
  · exact Ensures.pure h

/-- Any event, if the crash of a fault schedule is one of a node of the cluster. -/
theorem call (h : self.Sited settings) (hc : self.Agreed) {fn : Callback}
    (hop : ∀ injection n start duration, fn = .nemesisFire injection → injection.op = .crashNode n start duration →
      n ∈ settings.ids) :
    Ensures (self.call settings fn) (Harness.Sited settings) := by
  cases fn with
  | clientTick => exact h.clientTick
  | membershipTick => exact h.membershipTick
  | maybeResume n => exact h.maybeResume hc n
  | deliver k => exact (serve.delivery self k).mono fun _ hs => hs h
  | fire k => exact (serve.fire self k).mono fun _ hs => hs h
  | _ => exact (drive.call self id (fun _ he => by cases he) (fun _ hn => hn) hop).mono fun _ hs => hs h

end Sited

/-- The start of a cluster. -/
theorem init_sited (seed : R.State) : Ensures (init settings seed) (Harness.Sited settings) := by
  have hworld : settings.world.Sited settings.ids := by
    refine ⟨World.Adopts.launch _ _ _ _ _ fun v hv => settings.voters_subset ((List.mem_insertionSort _).1 hv), fun _ => rfl,
      fun call hc => ?_, fun n dst msg hm => ?_, nofun⟩
    · obtain ⟨n, hn, hc⟩ := List.mem_flatMap.1 hc
      obtain ⟨e, -, rfl⟩ := List.mem_map.1 hc
      exact hn
    · obtain ⟨m, -, hm⟩ := List.mem_flatMap.1 hm
      obtain ⟨e, he, hpair⟩ := List.mem_map.1 hm
      rw [List.mem_singleton.1 he] at hpair
      cases hpair
  have hnobody : ({ settings.world with trace := [] } : World).Sited settings.ids :=
    ⟨⟨hworld.adopts.nodes, hworld.adopts.idle, fun _ hc => absurd hc List.not_mem_nil⟩, hworld.ids,
      fun _ hc => absurd hc List.not_mem_nil, fun _ _ _ hm => absurd hm List.not_mem_nil, hworld.down⟩
  have hstart : ({ cluster := { world := { settings.world with trace := [] } }, sim := .new seed } : Harness R).Sited settings :=
    ⟨⟨hnobody, fun _ _ hl => by cases hl⟩, fun _ hx => absurd hx List.not_mem_nil⟩
  exact init_ensures (fun _ _ ha hs => hs.of_apart ha) seed (hstart.follow ⟨hworld, fun _ _ hl => by cases hl⟩)

end Harness

/-! ## Runs -/

/-- An injection is one of a pattern of the schedule. -/
theorem NemesisSchedule.op_mem (schedule : NemesisSchedule) {injection : Injection} (h : injection ∈ schedule.injections) :
    injection.op ∈ schedule.ops := by
  obtain ⟨op, hop, hin⟩ := List.mem_flatMap.1 ((List.mem_insertionSort _).1 h)
  unfold expand at hin
  split at hin
  · obtain ⟨i, -, rfl⟩ := List.mem_map.1 hin
    exact hop
  · rw [List.mem_singleton.1 hin]
    exact hop

/-- No node that the schedule crashes is higher than the highest node. -/
theorem NemesisSchedule.le_maxNode (schedule : NemesisSchedule) {n : NodeId} {start duration : Int}
    (h : .crashNode n start duration ∈ schedule.ops) : n ≤ schedule.maxNode := by
  have hmax : ∀ (ops : List NemesisOp) (f : Int → NemesisOp → Int), (∀ top op, top ≤ f top op) →
      (∀ top, n ≤ f top (.crashNode n start duration)) → ∀ top,
      top ≤ ops.foldl f top ∧ (.crashNode n start duration ∈ ops → n ≤ ops.foldl f top) := by
    intro ops f hle hn
    induction ops with
    | nil => exact fun top => ⟨le_rfl, fun h => absurd h List.not_mem_nil⟩
    | cons op ops ih =>
      intro top
      obtain ⟨hstep, hmem⟩ := ih (f top op)
      refine ⟨(hle top op).trans hstep, fun h => ?_⟩
      rcases List.mem_cons.1 h with rfl | h
      · exact (hn top).trans hstep
      · exact hmem h
  refine (hmax schedule.ops _ (fun top op => ?_) (fun top => ?_) (-1)).2 h
  · cases op <;> simp
  · simp

/-- Only nodes of the cluster are crashed by the schedule. -/
theorem Settings.crashNode_mem (settings : Settings) {injection : Injection} (h : injection ∈ settings.injections) {n : NodeId}
    {start duration : Int} (hop : injection.op = .crashNode n start duration) : n ∈ settings.ids := by
  unfold Settings.injections at h
  split at h
  · rename_i schedule hs
    have hmem := schedule.op_mem h
    rw [hop] at hmem
    exact mem_pyRange.2 ⟨(schedule.valid _ hmem).1, (schedule.le_maxNode hmem).trans_lt (settings.knownNodes schedule hs)⟩
  · exact absurd h List.not_mem_nil

namespace HarnessRun

variable {settings : Settings} {R : RandomSource} (run : HarnessRun settings R)

/-- All injections that are due are of the schedule. -/
theorem awaiting_subset {k : ℕ} (hk : k ≤ run.length) : (run.state k).awaiting ⊆ settings.injections := by
  induction k with
  | zero => exact (Harness.init_paired run.seed _ run.start).2.2
  | succ k ih =>
    obtain ⟨fn, mid, hd, hp⟩ := run.passes (show k < run.length by omega)
    refine List.Subset.trans hp.awaiting (List.Subset.trans ?_ (ih (by omega)))
    rw [Harness.awaiting, Harness.awaiting, hd.pending]
    exact (List.sublist_cons_self _ _).filterMap _ |>.subset

/-- In every run only nodes of the cluster take part. -/
theorem sited {k : ℕ} (hk : k ≤ run.length) : (run.state k).Sited settings := by
  induction k with
  | zero => exact Harness.init_sited run.seed _ run.start
  | succ k ih =>
    obtain ⟨fn, mid, hd, hcall⟩ := Harness.due_of_step (run.next k hk)
    have h := ih (by omega)
    have hmid : mid.Sited settings := by
      refine ⟨⟨by rw [hd.world]; exact h.cluster.world, ?_⟩, by rw [hd.trace]; exact h.trace⟩
      rw [hd.asked]
      exact h.cluster.asked
    have hagreed : mid.Agreed := by
      intro n
      rw [hd.net, hd.world]
      exact (run.paired (by omega)).agreed n
    refine hmid.call hagreed (fun injection n start duration he hop => ?_) _ hcall
    have hwait : injection ∈ (run.state k).awaiting := by
      rw [Harness.mem_awaiting, hd.pending, he]
      exact ⟨_, List.mem_cons_self⟩
    exact settings.crashNode_mem (run.awaiting_subset (by omega) hwait) hop

end HarnessRun

end DeterministicRaft
