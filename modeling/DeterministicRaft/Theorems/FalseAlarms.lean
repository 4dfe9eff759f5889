import DeterministicRaft.Feasible
import DeterministicRaft.MidStep

/-!
# The checker raises no false alarm

The nodes of a cluster without defects stand for a state of the protocol, and the books of the checker agree with its history. So no
check fails, neither after an event nor in the middle of one, and the checker never reads past the end of a log.
-/

namespace DeterministicRaft

open Consensus RaftNode Refinement InvariantChecker

variable {net : Network} {a a' : State NodeId Entry} {C D : Int} {n : NodeId} {node seen : RaftNode} {entries : List Entry}

/-- The inputs of a cluster whose AppendEntries agree with what is committed, and whose snapshots cover nothing above `C`. -/
def Inputs.agreeing (C : Int) : Inputs := { Inputs.upTo C with agrees := True }

namespace Watched

variable {w w' : Watched}

/-- What holds of a cluster without defects: the nodes stand for a protocol state, the books agree with its history, nothing is
committed or told of above `C`, and a commit that is new to the checker is held by a majority. -/
structure Sound (net : Network) (a : State NodeId Entry) (C : Int) (w : Watched) : Prop where
  sim : Simulates net a w.world
  sited : w.world.Sited net.ids
  within : ∀ n, (w.world.nodes n).Within C
  capped : ∀ n dst msg, (n, Effect.send dst msg) ∈ w.world.trace → msg.Capped C
  truthful : w.checker.Truthful a
  remembers : ∀ n ∈ net.ids, w.checker.Remembers n (w.world.nodes n).view
  backed : ∀ n ∈ net.ids, w.checker.maxCommit < (w.world.nodes n).commitIndex → Backed net a n
  reached : C ≤ w.checker.maxCommit ∨ ∃ n ∈ net.ids, C ≤ (w.world.nodes n).commitIndex

/-- The checker may be shown the cluster. -/
theorem Sound.ready (h : w.Sound net a C) : Ready net a (view net w.world) w.checker where
  inv := h.sim.inv
  portrays i _ := (h.sim.node i).portrays
  ids _ hi := (mem_view_ids _).2 hi
  truthful := h.truthful
  remembers i hi := h.remembers i ((mem_view_ids _).1 hi)
  backed i hi := h.backed i ((mem_view_ids _).1 hi)

/-- The check after an event. -/
theorem Sound.check (h : w.Sound net a C) (step : Int) : Returns (w.checker.check (view net w.world) step true) fun c =>
    Sound net a c.maxCommit { w with checker := c } ∧ c.checksRun = w.checker.checksRun + 1 := by
  refine (check_passes h.ready true).mono fun c hc => ⟨?_, hc.checksRun⟩
  have hmax : ∀ i ∈ net.ids, (w.world.nodes i).commitIndex ≤ c.maxCommit := fun i hi => hc.maxCommit i ((mem_view_ids _).2 hi)
  have hC : C ≤ c.maxCommit := by
    rcases h.reached with hle | ⟨i, hi, hle⟩
    · exact hle.trans hc.grows
    · exact hle.trans (hmax i hi)
  refine ⟨h.sim, h.sited, fun i => ⟨(h.within i).bounded, (h.within i).commit.trans hC⟩,
    fun i dst msg hm => (h.capped i dst msg hm).mono hC, hc.truthful, fun i hi => ⟨fun hnone => ?_, fun x hx => ?_⟩,
    fun i hi hlt => absurd hlt (not_lt.2 (hmax i hi)), Or.inl le_rfl⟩
  · rw [hc.incarnation i ((mem_view_ids _).2 hi)] at hnone
    cases hnone
  · rw [hc.incarnation i ((mem_view_ids _).2 hi), Option.some.injEq] at hx
    exact ⟨hx.ge, fun _ => hc.prevCommit i ((mem_view_ids _).2 hi)⟩

/-- What the network and the drivers cause is orderly. -/
theorem Sound.admissible (h : w.Sound net a C) {action : Action} {op : NodeOp} (hop : w.world.operation action = some (n, op)) :
    op.Admissible (Inputs.agreeing C) (w.world.nodes n) := by
  rcases World.operation_cases hop with ⟨src, msg, hm, rfl⟩ | ⟨kind, seq, -, rfl⟩ | ⟨command, -, rfl⟩ | ⟨newVoters, -, rfl⟩ |
    ⟨command, -, rfl⟩ | ⟨-, rfl⟩ | ⟨-, rfl⟩
  · cases msg with
    | installSnapshot msg => exact h.capped src n _ hm
    | appendEntries msg => exact ⟨fun _ ht => h.sim.agrees hm ht, fun _ _ => trivial⟩
    | readHeartbeat msg => exact False.elim
    | _ => trivial
  · cases kind <;> trivial
  · exact fun _ _ => trivial
  all_goals trivial

/-- An operation on a node, before the checker looks. -/
theorem Sound.put (h : w.Sound net a C) (hC : C ≤ w.checker.maxCommit) (hn : n ∈ net.ids) {op : NodeOp}
    (hmsg : ∀ msg, op = .handle msg → msg.Capped C) (hp : (w.world.nodes n).perform op = .ok node)
    (x : a.Extends a') (hsim : Simulates net a' (w.world.put n node)) (hsited : (w.world.put n node).Sited net.ids) :
    Sound net a' (max C node.commitIndex) { w with world := w.world.put n node } := by
  have hself : (w.world.put n node).nodes n = { node with out := [] } := Function.update_self _ _ _
  have hother : ∀ i, i ≠ n → (w.world.put n node).nodes i = w.world.nodes i := fun i hi => Function.update_of_ne hi _ _
  obtain ⟨hwithin, hcapped⟩ := World.Capped.put ⟨h.within, h.capped⟩ (h.sim.out n) hmsg hp
  refine ⟨hsim, hsited, hwithin, hcapped, h.truthful.grow x, fun i hi => ?_, fun i hi hlt => ?_, ?_⟩
  · by_cases hin : i = n
    · subst hin
      simp only [hself]
      obtain ⟨hinc, hcommit⟩ := (h.within i).ages op node hp
      exact (h.remembers i hi).later hinc hcommit
    · simp only [hother i hin]
      exact h.remembers i hi
  · by_cases hin : i = n
    · subst hin
      simp only [hself] at hlt
      rcases (h.within i).commits op hmsg node hp with hle | hconfirmed
      · exact absurd hlt (not_lt.2 (hle.trans hC))
      · have hfits := hsim.fits i
        rw [hself] at hfits
        exact hfits.majority hconfirmed
    · simp only [hother i hin] at hlt
      exact absurd hlt (not_lt.2 ((h.within i).commit.trans hC))
  · rcases le_total node.commitIndex C with hle | hle
    · exact Or.inl (by rw [max_eq_left hle]; exact hC)
    · refine Or.inr ⟨n, hn, ?_⟩
      simp only [hself, max_eq_right hle]
      exact le_rfl

/-- The check in the middle of an operation that compacts. -/
theorem Sound.look (h : Sound net a' D { w with world := w.world.put n node }) (hD : D ≤ max w.checker.maxCommit node.commitIndex)
    (hn : n ∈ net.ids) (hg : (w.world.nodes n).Glimpse seen node entries) (hseen : seen.view.Portrays net a' n)
    (hprev : w.checker.Remembers n (w.world.nodes n).view) (step : Int) :
    Returns (w.checker.check (view net (w.world.put n seen)) step false) fun c =>
      Sound net a' D { w with world := w.world.put n node, checker := c } ∧ D ≤ c.maxCommit ∧
        c.checksRun = w.checker.checksRun := by
  have hself : (w.world.put n node).nodes n = { node with out := [] } := Function.update_self _ _ _
  have hother : ∀ i, i ≠ n → (w.world.put n node).nodes i = w.world.nodes i := fun i hi => Function.update_of_ne hi _ _
  have hlook : (view net (w.world.put n seen)).node n = seen.view := by
    rw [view_put]
    exact Function.update_self _ _ _
  have hbeside : ∀ i, i ≠ n → (view net (w.world.put n seen)).node i = ((w.world.put n node).nodes i).view := fun i hi => by
    rw [hother i hi]
    exact congrArg RaftNode.view (Function.update_of_ne hi _ _)
  obtain ⟨hinc, hinc'⟩ := hg.incarnation
  have hlen := hg.length
  have hcommit := hg.commitIndex
  have hready : Ready net a' (view net (w.world.put n seen)) w.checker := by
    refine ⟨h.sim.inv, fun i _ => ?_, fun i hi => (mem_view_ids _).2 hi, h.truthful, fun i hi => ?_, fun i hi hlt => ?_⟩
    · by_cases hin : i = n
      · subst hin
        rw [hlook]
        exact hseen
      · rw [hbeside i hin]
        exact (h.sim.node i).portrays
    · by_cases hin : i = n
      · subst hin
        rw [hlook]
        refine hprev.later hinc.ge fun _ => ?_
        show (w.world.nodes i).commitIndex ≤ seen.commitIndex
        omega
      · rw [hbeside i hin]
        exact h.remembers i ((mem_view_ids _).1 hi)
    · refine h.backed i ((mem_view_ids _).1 hi) ?_
      by_cases hin : i = n
      · subst hin
        rw [hlook] at hlt
        simp only [hself]
        exact hlt.trans_eq hcommit
      · rw [hbeside i hin] at hlt
        exact hlt
  refine (check_passes hready false).mono fun c hc => ?_
  have hmax : ∀ i ∈ net.ids, ((w.world.put n node).nodes i).commitIndex ≤ c.maxCommit := by
    intro i hi
    have hle := hc.maxCommit i ((mem_view_ids _).2 hi)
    by_cases hin : i = n
    · subst hin
      rw [hlook] at hle
      rw [hself]
      exact hcommit.symm.trans_le hle
    · rw [hbeside i hin] at hle
      exact hle
  have hDc : D ≤ c.maxCommit := by
    refine hD.trans (max_le hc.grows ?_)
    have := hmax n hn
    rw [hself] at this
    exact this
  refine ⟨⟨h.sim, h.sited, h.within, h.capped, hc.truthful, fun i hi => ⟨fun hnone => ?_, fun y hy => ?_⟩,
    fun i hi hlt => absurd hlt (not_lt.2 (hmax i hi)), Or.inl hDc⟩, hDc, hc.checksRun⟩
  · rw [hc.incarnation i ((mem_view_ids _).2 hi)] at hnone
    cases hnone
  · rw [hc.incarnation i ((mem_view_ids _).2 hi), Option.some.injEq] at hy
    have hle := hc.prevCommit i ((mem_view_ids _).2 hi)
    by_cases hin : i = n
    · subst hin
      rw [hlook] at hy hle
      simp only [hself]
      refine ⟨?_, fun _ => hle.trans_eq hcommit⟩
      rw [← hy]
      exact (hinc.trans hinc'.symm).le
    · rw [hbeside i hin] at hy hle
      exact ⟨hy.ge, fun _ => hle⟩

/-- Calls that do not let the checker look. -/
theorem foldlM_unseen (world : World) (step : Int) (c : InvariantChecker) {es : List Effect}
    (hes : ∀ v, Effect.beforeCompact v ∉ es) : (es.map fun e => (n, e)).foldlM (checkMidStep net world step) c = .ok c := by
  induction es with
  | nil => rfl
  | cons e es ih =>
    rw [List.map_cons, List.foldlM_cons]
    have hhead : checkMidStep net world step c (n, e) = .ok c := by
      cases e with
      | beforeCompact v => exact absurd List.mem_cons_self (hes v)
      | _ => rfl
    rw [hhead]
    exact ih fun v hv => hes v (List.mem_cons_of_mem _ hv)

/-- One action that clients, operators, the network or the fault drivers cause, before the checker looks: it reaches no node, or it is an
operation of one. -/
theorem Sound.step_put (h : w.Sound net a C) (hC : C ≤ w.checker.maxCommit) {action : Action} (hadm : net.Admits action)
    (hin : action.Within net.ids) : ∃ world a', w.world.step action = .ok world ∧ a.Extends a' ∧
      ((world = w.world ∧ w.Sound net a' C) ∨ ∃ n op node, w.world.operation action = some (n, op) ∧ n ∈ net.ids ∧
        op.Admissible (Inputs.agreeing C) (w.world.nodes n) ∧ (w.world.nodes n).perform op = .ok node ∧ world = w.world.put n node ∧
        Sound net a' (max C node.commitIndex) { w with world := w.world.put n node } ∧
        ((∀ i newVoters, action ≠ .changeConfig i newVoters) ∨ max C node.commitIndex ≤ w.checker.maxCommit)) := by
  obtain ⟨world, a', hstep, hsteps, -, -, hsim⟩ := h.sim.step hadm
  have x := (hsteps.inv_extends h.sim.inv).2
  have hsited := h.sited.step hin world hstep
  refine ⟨world, a', hstep, x, ?_⟩
  rcases World.step_put hstep with rfl | ⟨n, op, node, hop, hp, rfl⟩
  · refine Or.inl ⟨rfl, hsim, hsited, h.within, h.capped, h.truthful.grow x, h.remembers, fun i _ hlt => ?_, Or.inl hC⟩
    exact absurd hlt (not_lt.2 ((h.within i).commit.trans hC))
  · obtain ⟨hn, -⟩ := h.sited.operation hin hop
    have hmsg := World.Capped.handled ⟨h.within, h.capped⟩ hop
    refine Or.inr ⟨n, op, node, hop, hn, h.admissible hop, hp, rfl, h.put hC hn hmsg hp x hsim hsited, ?_⟩
    by_cases hchange : ∃ i newVoters, action = .changeConfig i newVoters
    · obtain ⟨i, newVoters, rfl⟩ := hchange
      obtain ⟨rfl, rfl⟩ := Prod.mk.inj (Option.some.inj hop)
      exact Or.inr (max_le hC (((h.within i).propose newVoters node hp).within.commit.trans hC))
    · push Not at hchange
      exact Or.inl hchange

/-- One action that clients, operators, the network or the fault drivers cause, under the checker. -/
theorem Sound.act (h : w.Sound net a C) (hC : C ≤ w.checker.maxCommit) {action : Action} (hadm : net.Admits action)
    (hin : action.Within net.ids) : Returns (w.act net action) fun w' => (∃ a' D, w'.Sound net a' D ∧
      ((∀ i newVoters, action ≠ .changeConfig i newVoters) ∨ D ≤ w'.checker.maxCommit)) ∧
      w'.checker.checksRun = w.checker.checksRun := by
  have hguard : ¬(w.world.operation action).any (fun target => target.1 ∉ net.ids) = true := by
    cases hop : w.world.operation action with
    | none => simp
    | some target =>
      have hmem : target.1 ∈ net.ids := (h.sited.operation hin hop).1
      simpa using hmem
  obtain ⟨world, a', hstep, x, hcases⟩ := h.step_put hC hadm hin
  unfold Watched.act
  rw [if_neg hguard, hstep]
  refine Returns.bind (Returns.pure (Q := fun world' => world' = world) rfl) fun world' hw => ?_
  subst hw
  rcases hcases with ⟨rfl, hsame⟩ | ⟨n, op, node, -, hn, ha, hp, rfl, hput, hcommit⟩
  · rw [List.drop_length]
    exact Returns.pure ⟨⟨a', C, hsame, Or.inr hC⟩, rfl⟩
  · rw [World.put_drop]
    rcases perform_looks op ha node hp with ⟨es, hout, hes⟩ | ⟨low, index, entries, hl⟩
    · rw [h.sim.out n, List.nil_append] at hout
      rw [hout, foldlM_unseen w.world w.steps w.checker hes]
      exact Returns.pure ⟨⟨a', _, hput, hcommit⟩, rfl⟩
    · have hglimpse := hl.glimpse trivial (h.within n).bounded
      obtain ⟨es, es', hout, hes, hes'⟩ := hl.calls
      rw [h.sim.out n, List.nil_append] at hout
      have hfold : (node.out.map fun e => (n, e)).foldlM (checkMidStep net w.world w.steps) w.checker =
          w.checker.check (view net (w.world.put n (low.committed index entries))) w.steps false := by
        rw [hout, List.map_append, List.foldlM_append, foldlM_unseen w.world w.steps w.checker hes, view_put]
        show (List.map _ (_ :: es')).foldlM (m := Except CheckError) (checkMidStep net w.world w.steps) w.checker = _
        rw [List.map_cons, List.foldlM_cons]
        have hrest : ∀ c, (es'.map fun e => (n, e)).foldlM (checkMidStep net w.world w.steps) c = .ok c := fun c =>
          foldlM_unseen w.world w.steps c hes'
        simp only [hrest]
        exact bind_pure (m := Except CheckError) _
      rw [hfold]
      refine Returns.bind (hput.look (max_le_max_right _ hC) hn hglimpse (h.sim.portrays_glimpse x hput.sim hglimpse)
        (h.remembers n hn) w.steps) fun c hc => ?_
      exact Returns.pure ⟨⟨a', _, hc.1, Or.inr hc.2.1⟩, hc.2.2⟩

/-- The events that clients, operators, the network and the fault drivers can cause. -/
theorem Sound.happen (h : w.Sound net a C) (hC : C ≤ w.checker.maxCommit) {event : WatchedEvent} (he : event.Admitted net) :
    Returns (w.happen net event) fun w' => (∃ a' D, w'.Sound net a' D) ∧ w'.checker.checksRun = w.checker.checksRun := by
  cases event with
  | idle => exact Returns.pure ⟨⟨a, C, h⟩, rfl⟩
  | act action =>
    refine (h.act hC he.1 he.2).mono ?_
    rintro w' ⟨⟨a', D, hs, -⟩, hcount⟩
    exact ⟨⟨a', D, hs⟩, hcount⟩
  | propose proposals =>
    refine (Returns.foldlM (Q := fun w' : Watched => (∃ a' D, w'.Sound net a' D ∧ D ≤ w'.checker.maxCommit) ∧
      w'.checker.checksRun = w.checker.checksRun) (fun p hp w' hw' => ?_) ⟨⟨a, C, h, hC⟩, rfl⟩).mono ?_
    · obtain ⟨⟨a', D, hs, hD⟩, hcount⟩ := hw'
      obtain ⟨hr, hn, hv⟩ := he p hp
      have hadm : net.Admits (.changeConfig p.1 p.2) := ⟨hr, hv⟩
      have hact : (Action.changeConfig p.1 p.2).Within net.ids := ⟨hn, hv⟩
      refine (hs.act hD hadm hact).mono ?_
      rintro w'' ⟨⟨a'', D', hs', hchange⟩, hcount'⟩
      exact ⟨⟨a'', D', hs', hchange.resolve_left fun hne => hne p.1 p.2 rfl⟩, hcount'.trans hcount⟩
    · rintro w' ⟨⟨a', D, hs, -⟩, hcount⟩
      exact ⟨⟨a', D, hs⟩, hcount⟩

/-- An event and the check after it. -/
theorem Sound.step (h : w.Sound net a C) (hC : C ≤ w.checker.maxCommit) {event : WatchedEvent} (he : event.Admitted net) :
    Returns (w.step net event) fun w' => (∃ a', w'.Sound net a' w'.checker.maxCommit) ∧
      w'.checker.checksRun = w.checker.checksRun + 1 := by
  unfold Watched.step
  have h' : Sound net a C { w with steps := w.steps + 1 } :=
    ⟨h.sim, h.sited, h.within, h.capped, h.truthful, h.remembers, h.backed, h.reached⟩
  refine Returns.bind (h'.happen hC he) ?_
  rintro mid ⟨⟨a', D, hs⟩, hcount⟩
  refine Returns.bind (hs.check mid.steps) fun c hc => Returns.pure ⟨⟨a', hc.1⟩, hc.2.trans ?_⟩
  rw [hcount]

/-- A cluster that has started has committed nothing. -/
theorem capped_init (net : Network) : net.init.Capped 0 where
  within := (covered_init net 0 "").within
  sent n dst msg hm := by
    obtain ⟨m, -, heq⟩ := World.mem_launch_trace hm
    cases heq

/-- A cluster that has started. -/
theorem sound_init (net : Network) (seed : Int) (replayHint : String) :
    (Watched.init net seed replayHint).Sound net State.init (Watched.init net seed replayHint).checker.maxCommit := by
  refine ⟨simulates_init net, World.sited_launch net.voters_subset, (capped_init net).within, (capped_init net).sent, ?_,
    fun n _ => ⟨fun _ => rfl, fun x hx => ?_⟩, fun n _ hlt => absurd hlt (lt_irrefl _), Or.inl le_rfl⟩
  · constructor
    · intro t i hi
      cases hi
    · intro i t ver base log hs
      cases hs
    · intro idx e t he
      cases he
    · intro idx cmd hc
      cases hc
  · cases hx

/-- Some events, each with the check after it. -/
theorem Sound.steps (h : w.Sound net a w.checker.maxCommit) {events : List WatchedEvent} (he : ∀ event ∈ events, event.Admitted net) :
    Returns (events.foldlM (Watched.step net) w) fun w' => (∃ a', w'.Sound net a' w'.checker.maxCommit) ∧
      w'.checker.checksRun = w.checker.checksRun + events.length := by
  induction events generalizing w a with
  | nil => exact Returns.pure ⟨⟨a, h⟩, rfl⟩
  | cons event events ih =>
    rw [List.foldlM_cons]
    refine Returns.bind (h.step le_rfl (he event List.mem_cons_self)) ?_
    rintro w' ⟨⟨a', h'⟩, hcount⟩
    refine (ih h' fun e hm => he e (List.mem_cons_of_mem _ hm)).mono ?_
    rintro w'' ⟨hs, hcount'⟩
    refine ⟨hs, ?_⟩
    rw [hcount', hcount, List.length_cons]
    omega

end Watched

/-- The checker raises no false alarm. Whatever clients, operators, the network and the fault drivers cause in a cluster without
defects, in whatever order, with or without compaction and membership changes, no check after an event or before a compaction finds
a violation, and neither a node nor the checker raises anything else. Every event is followed by one check. -/
theorem no_false_alarm (net : Network) (seed : Int) (replayHint : String) (events : List WatchedEvent)
    (h : ∀ event ∈ events, event.Admitted net) :
    ∃ w, events.foldlM (Watched.step net) (Watched.init net seed replayHint) = .ok w ∧ w.checker.checksRun = events.length := by
  obtain ⟨w, hw, -, hcount⟩ := (Watched.sound_init net seed replayHint).steps h
  exact ⟨w, hw, hcount.trans (Nat.zero_add _)⟩

theorem no_false_alarm_compacting : ∃ w, [.act (.fire 0), .act (.deliver 6), .act (.deliver 11), .act (.clientCommand 1 "a"),
    .act (.deliver 16), .act (.deliver 18)].foldlM (Watched.step compactingPair) (Watched.init compactingPair 0 "") = .ok w ∧
      w.checker.checksRun = 6 :=
  no_false_alarm compactingPair 0 "" _ (by
    simp [WatchedEvent.Admitted, Network.Admits, Action.Within, compactingPair]
    decide)

end DeterministicRaft
