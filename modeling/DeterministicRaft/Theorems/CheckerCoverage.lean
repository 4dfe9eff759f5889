import DeterministicRaft.Books
import DeterministicRaft.NodeInvariant
import DeterministicRaft.Watched

/-!
# The checker sees every commit

A check records what each node has committed since the last one. Nothing is missed because a node compacts only after a check, is
restarted only at its base, and is sent a snapshot only of what was committed elsewhere.
-/

namespace DeterministicRaft

open Refinement RaftNode InvariantChecker

variable {C : Int} {I : Inputs} {self mid after : RaftNode}

/-! ## One operation of one node -/

/-- The call shows the checker nothing, and sends no snapshot of more than is committed up to `C`. -/
def Effect.Plain (C : Int) : Effect → Prop
  | .send _ (.installSnapshot msg) => msg.lastIndex ≤ C
  | .beforeCompact _ => False
  | _ => True

/-- A call that is true of the node is plain. -/
theorem Effect.Sound.plain {e : Effect} (h : e.Sound self) (hb : self.Bounded) (hc : self.commitIndex ≤ C) : e.Plain C := by
  cases e with
  | send dst msg =>
    cases msg with
    | installSnapshot msg =>
      have hbase : msg.lastIndex = self.baseIndex := hb.snapEnds _ h.2.2.2
      exact hbase.trans_le (hb.commit.trans hc)
    | _ => trivial
  | beforeCompact view => exact h.elim
  | _ => trivial

/-- What is plain below one commit index is so below a higher one. -/
theorem Effect.Plain.mono {e : Effect} {D : Int} (h : e.Plain C) (hle : C ≤ D) : e.Plain D := by
  cases e with
  | send dst msg =>
    cases msg with
    | installSnapshot msg => exact le_trans h hle
    | _ => trivial
  | beforeCompact view => exact h.elim
  | _ => trivial

/-- A call that tells of an applied entry is plain. -/
theorem Effect.Tells.plain {e : Effect} (h : e.Tells) : e.Plain C := by
  cases e with
  | send dst msg => exact h.elim
  | beforeCompact view => exact h.elim
  | _ => trivial

/-- The node's indices are in order, and it has committed nothing above `C`. -/
structure RaftNode.Within (C : Int) (node : RaftNode) : Prop where
  bounded : node.Bounded
  commit : node.commitIndex ≤ C

/-- The inputs of operations that commit nothing above `C` of their own. -/
structure Inputs.Upto (C : Int) (J : Inputs) : Prop where
  installs : ∀ msg, J.installs msg → msg.lastIndex ≤ C
  commits : ¬J.commits
  compacts : ¬J.compacts
  crashes : ¬J.crashes

/-- The node has committed nothing above `C`, has not been restarted and has made plain calls. -/
structure RaftNode.Stays (C : Int) (node after : RaftNode) : Prop where
  within : after.Within C
  incarnation : after.incarnation = node.incarnation
  calls : ∃ es, after.out = node.out ++ es ∧ ∀ e ∈ es, e.Plain C

/-- A leader that begins anew is still. -/
theorem RaftNode.leading_still (self : RaftNode) : self.Still self.leading :=
  ⟨rfl, rfl, rfl, rfl, rfl, rfl, rfl, rfl, rfl, rfl⟩

/-- A move that commits nothing. -/
theorem Move.stays (hI : I.Upto C) (hm : Move I self after) (h : self.Within C) : self.Stays C after := by
  have hfields : after.commitIndex ≤ C ∧ after.incarnation = self.incarnation := by
    rcases hm.still_or with hs | ⟨hc, -⟩ | ⟨hc, -⟩ | ⟨msg, keep, hi, -, -, rfl⟩ | ⟨hc, -⟩ | ⟨hb, -⟩
    · exact ⟨hs.commitIndex.trans_le h.commit, hs.incarnation⟩
    · exact (hI.commits hc).elim
    · exact (hI.compacts hc).elim
    · exact ⟨hI.installs msg hi, rfl⟩
    · exact (hI.crashes hc).elim
    · rw [h.bounded.noRegression] at hb
      cases hb
  obtain ⟨es, hes⟩ := hm.calls
  refine ⟨⟨h.bounded.move hm, hfields.1⟩, hfields.2, es, hes.out, fun e he => ?_⟩
  cases e with
  | send dst msg =>
    rcases hes.sends dst msg he with hs | hs | ⟨req, -, -, -, rfl⟩
    · exact hs.plain h.bounded h.commit
    · exact hs.plain (h.bounded.still self.leading_still) h.commit
    · trivial
  | beforeCompact view => exact (hI.compacts (hes.looks view he)).elim
  | _ => trivial

/-- Moves that commit nothing. -/
theorem Moved.stays (hI : I.Upto C) (hm : Moved I self after) (h : self.Within C) : self.Stays C after := by
  induction hm with
  | refl => exact ⟨h, rfl, [], by simp, by simp⟩
  | tail _ hm ih =>
    obtain ⟨es, hout, hes⟩ := ih.calls
    obtain ⟨hw, hinc, es', hout', hes'⟩ := hm.stays hI ih.within
    refine ⟨hw, hinc.trans ih.incarnation, es ++ es', by rw [hout', hout, List.append_assoc], fun e he => ?_⟩
    exact (List.mem_append.1 he).elim (hes e) (hes' e)

/-- The node may have committed entries of its log, and it has applied them; it has not compacted its log since. -/
structure RaftNode.Grows (C : Int) (node after : RaftNode) : Prop where
  bounded : after.Bounded
  base : after.baseIndex ≤ C
  lives : C < after.commitIndex → after.incarnation = node.incarnation
  runs : ∀ idx x, C < idx → Read after.baseIndex after.commitIndex (Held after.view) idx x → Ran after.view idx x.1.command
  calls : ∃ es, after.out = node.out ++ es ∧ ∀ e ∈ es, e.Plain (max C after.commitIndex)

/-- A node that stays commits nothing new. -/
theorem RaftNode.Stays.grows (h : self.Stays C after) : self.Grows C after := by
  obtain ⟨es, hout, hes⟩ := h.calls
  refine ⟨h.within.bounded, h.within.bounded.commit.trans h.within.commit, fun _ => h.incarnation, fun idx x hlt hr => ?_, es, hout,
    fun e he => (hes e he).mono (le_max_left _ _)⟩
  have := h.within.commit
  have := hr.2.1
  omega

/-- A commit applies the entries it reads. -/
theorem RaftNode.Stays.committed (h : self.Stays C mid) {index : Int} {entries : List Entry} (hc : mid.Commits index entries) :
    self.Grows C (mid.committed index entries) := by
  obtain ⟨es, hout, hes⟩ := h.calls
  have hla := h.within.bounded.applied
  have hcom := h.within.commit
  have hcount := h.within.bounded.count
  have hlt := hc.lt
  have hlen := hc.length
  obtain ⟨es', htell, he⟩ := committed_eq mid index entries
  have hbounded := h.within.bounded.committed hc
  rw [he] at hbounded ⊢
  refine ⟨hbounded, h.within.bounded.commit.trans hcom, fun _ => h.incarnation, ?_, es ++ es', by simp only [hout, List.append_assoc], fun e hmem => ?_⟩
  · rintro idx x hidx ⟨hbase, htop, hheld⟩
    simp only at htop
    obtain ⟨e, hek⟩ : ∃ e, entries[(idx - mid.lastApplied - 1).toNat]? = some e :=
      ⟨_, List.getElem?_eq_getElem (by omega)⟩
    have hread := hc.entries _ e hek
    have hi : mid.lastApplied + 1 + ((idx - mid.lastApplied - 1).toNat : Int) = idx := by omega
    rw [hi] at hread
    have hxe : x.1 = e := Except.ok.inj (hheld.symm.trans hread)
    refine pyIndex_ok (n := mid.applied.length + (idx - mid.lastApplied - 1).toNat) ?_ ?_
    · show idx - mid.baseIndex - 1 = _
      push_cast
      omega
    · show (mid.applied ++ entries.map (·.command))[_]? = _
      rw [List.getElem?_append_right (by omega), Nat.add_sub_cancel_left, List.getElem?_map, hek, hxe]
      rfl
  · rcases List.mem_append.1 hmem with hmem | hmem
    · exact (hes e hmem).mono (le_max_left _ _)
    · exact (htell e hmem).plain

/-- The leader's books change afterwards. -/
theorem RaftNode.Grows.aside (h : self.Grows C mid) (ha : Aside mid after) : self.Grows C after := by
  obtain ⟨es, hout, hes⟩ := h.calls
  obtain ⟨n, m, c, es', rfl, hsound⟩ := ha
  refine ⟨h.bounded.still ⟨rfl, rfl, rfl, rfl, rfl, rfl, rfl, rfl, rfl, rfl⟩, h.base, h.lives, h.runs, es ++ es',
    by simp only [hout, List.append_assoc], fun e he => ?_⟩
  rcases List.mem_append.1 he with he | he
  · exact hes e he
  · exact (hsound e he).plain h.bounded (le_max_right _ _)

/-- The node has let the checker look and has compacted its log up to its commit index. -/
structure RaftNode.Folds (C : Int) (node after : RaftNode) (mid : RaftNode) : Prop where
  grows : node.Grows C mid
  bounded : after.Bounded
  base : after.baseIndex = after.commitIndex
  commit : after.commitIndex = mid.commitIndex
  incarnation : after.incarnation = mid.incarnation
  calls : ∃ es, after.out = mid.out ++ .beforeCompact mid.view :: es ∧ ∀ e ∈ es, e.Plain (max C mid.commitIndex)

/-- The node may compact afterwards. -/
theorem RaftNode.Grows.compacting (h : self.Grows C mid) (hc : Compacting mid after) :
    self.Grows C after ∨ ∃ low, self.Folds C after low := by
  rcases hc with ha | ⟨t, vs, -, ha⟩
  · exact Or.inl (h.aside ha)
  · obtain ⟨n, m, c, es, rfl, hsound⟩ := ha
    have hb := h.bounded.compacted t vs
    refine Or.inr ⟨mid, h, hb.still ⟨rfl, rfl, rfl, rfl, rfl, rfl, rfl, rfl, rfl, rfl⟩, h.bounded.applied, rfl, rfl, ?_⟩
    refine ⟨.record (.snapshot mid.lastApplied t) :: es, ?_, fun e he => ?_⟩
    · simp [compacted, RaftNode.record, emit]
    · rcases List.mem_cons.1 he with rfl | he
      · trivial
      · exact (hsound e he).plain hb (le_max_right _ _)

/-- The inputs of a cluster in which snapshots of nothing above `C` have been sent. -/
def Inputs.upTo (C : Int) : Inputs where
  agrees := False
  polite := False
  submits _ := True
  proposes _ := True
  replicates _ := True
  installs msg := msg.lastIndex ≤ C

/-- Operations that install nothing commit nothing of their own. -/
theorem Inputs.upTo_quiet (C : Int) : (Inputs.upTo C).quiet.Upto C :=
  ⟨fun _ hi => False.elim hi, fun h => h, fun h => h, fun h => h⟩

/-- Nor do those that install a snapshot of what is committed. -/
theorem Inputs.upTo_installing (C : Int) : (Inputs.upTo C).installing.Upto C :=
  ⟨fun _ hi => hi, fun h => h, fun h => h, fun h => h⟩

/-- What an operation does, as the checker sees it. -/
theorem RaftNode.Within.perform (h : self.Within C) (op : NodeOp) (ha : op.Admissible (Inputs.upTo C) self) :
    Ensures (self.perform op) fun after => self.Grows C after ∨ ∃ low, self.Folds C after low := by
  refine (perform_cases self op ha).mono ?_
  rintro after (⟨low, hm, hl⟩ | hm | ⟨-, rfl⟩)
  · have hlow := hm.stays (Inputs.upTo_quiet C) h
    rcases hl with ha | ⟨index, entries, hc, hl⟩
    · exact Or.inl (hlow.grows.aside ha)
    · exact (hlow.committed hc).compacting hl
  · exact Or.inl (hm.stays (Inputs.upTo_installing C) h).grows
  · have hbase : self.pause.commitIndex = self.baseIndex := by
      rw [pause_fields]
      exact h.bounded.snapshot_lastIndex
    have hle := h.bounded.commit.trans h.commit
    have hbound := h.bounded.pause
    refine Or.inl ⟨hbound, ?_, fun hlt => ?_, fun idx x hlt hr => ?_, [], ?_, by simp⟩
    · exact hbound.commit.trans (hbase.trans_le hle)
    · omega
    · have := hr.2.1
      omega
    · rw [pause_fields]
      simp

/-- A proposed configuration commits nothing. -/
theorem RaftNode.Within.propose (h : self.Within C) (newVoters : List NodeId) :
    Ensures (self.perform (.changeConfig newVoters)) (self.Stays C) :=
  (Makes.changeConfig (I := (Inputs.upTo C).quiet) self newVoters trivial).mono fun _ hm => hm.stays (Inputs.upTo_quiet C) h

/-! ## The cluster and its checker -/

/-- The world after an operation that made a node what it is. -/
def World.put (w : World) (n : NodeId) (node : RaftNode) : World where
  nodes := Function.update w.nodes n { node with out := [] }
  trace := w.trace ++ node.out.map fun e => (n, e)

/-- The new calls are the node's. -/
theorem World.put_drop (w : World) (n : NodeId) (node : RaftNode) :
    (w.put n node).trace.drop w.trace.length = node.out.map fun e => (n, e) := List.drop_left

/-- An action reaches no node, or it is an operation of one. -/
theorem World.step_put {w after : World} {act : Action} (h : w.step act = .ok after) : after = w ∨
    ∃ n op node, w.operation act = some (n, op) ∧ (w.nodes n).perform op = .ok node ∧ after = w.put n node := World.step_cases h

namespace Watched

variable {net : Network} {w w' : Watched} {n : NodeId}

/-- What a part of a run shows of a node: the node after it, and the node when it calls `before_compact`. -/
def Shown (w w' : Watched) (n : NodeId) (view : NodeView) : Prop :=
  view = (w'.world.nodes n).view ∨ (n, Effect.beforeCompact view) ∈ w'.world.trace.drop w.world.trace.length

/-- What holds between the actions: the checker has recorded all commits up to `C`, and there are no others; node `n` may have
committed since. -/
structure Pending (net : Network) (C : Int) (n : NodeId) (w : Watched) : Prop where
  within : ∀ i, i ≠ n → (w.world.nodes i).Within C
  bounded : (w.world.nodes n).Bounded
  base : (w.world.nodes n).baseIndex ≤ C
  runs : ∀ idx x, C < idx → Read (w.world.nodes n).baseIndex (w.world.nodes n).commitIndex (Held (w.world.nodes n).view) idx x →
    Ran (w.world.nodes n).view idx x.1.command
  out : ∀ i, (w.world.nodes i).out = []
  sent : ∀ i dst msg, (i, Effect.send dst (.installSnapshot msg)) ∈ w.world.trace →
    msg.lastIndex ≤ max C (w.world.nodes n).commitIndex
  lives : ∀ i ∈ net.ids, C < (w.world.nodes i).commitIndex →
    w.checker.incarnation.lookup i = none ∨ w.checker.incarnation.lookup i = some (w.world.nodes i).incarnation
  books : w.checker.Books C

/-- What holds between the events: the checker has recorded all commits, and they end at `C`. -/
structure Covered (net : Network) (C : Int) (w : Watched) : Prop where
  within : ∀ i, (w.world.nodes i).Within C
  out : ∀ i, (w.world.nodes i).out = []
  sent : ∀ i dst msg, (i, Effect.send dst (.installSnapshot msg)) ∈ w.world.trace → msg.lastIndex ≤ C
  lives : ∀ i ∈ net.ids,
    w.checker.incarnation.lookup i = none ∨ w.checker.incarnation.lookup i = some (w.world.nodes i).incarnation
  books : w.checker.Books C

/-- A cluster that is covered has nothing pending. -/
theorem Covered.pending (h : w.Covered net C) (n : NodeId) : w.Pending net C n where
  within i _ := h.within i
  bounded := (h.within n).bounded
  base := (h.within n).bounded.commit.trans (h.within n).commit
  runs idx x hlt hr := by
    have := (h.within n).commit
    have := hr.2.1
    omega
  out := h.out
  sent i dst msg hm := (h.sent i dst msg hm).trans (le_max_left _ _)
  lives i hi _ := h.lives i hi
  books := h.books

/-- The checker is shown the nodes of the cluster. -/
theorem mem_view_ids {i : NodeId} (world : World) : i ∈ (view net world).ids ↔ i ∈ net.ids := List.mem_insertionSort _

/-- The check after an event records what is pending. -/
theorem Pending.check (h : w.Pending net C n) (hn : n ∈ net.ids ∨ (w.world.nodes n).commitIndex ≤ C) (step : Int) (count : Bool) :
    Ensures (w.checker.check (view net w.world) step count) fun c =>
      Covered net (max C (w.world.nodes n).commitIndex) { w with checker := c } ∧
      Continues (fun idx x => n ∈ net.ids ∧
        Read (w.world.nodes n).baseIndex (w.world.nodes n).commitIndex (Held (w.world.nodes n).view) idx x)
        w.checker.committed c.committed C (max C (w.world.nodes n).commitIndex) := by
  have hle : ∀ i, (w.world.nodes i).commitIndex ≤ max C (w.world.nodes n).commitIndex := by
    intro i
    by_cases hi : i = n
    · rw [hi]
      exact le_max_right _ _
    · exact (h.within i hi).commit.trans (le_max_left _ _)
  have hbounded : ∀ i, (w.world.nodes i).Bounded ∧ (w.world.nodes i).baseIndex ≤ C := by
    intro i
    by_cases hi : i = n
    · rw [hi]
      exact ⟨h.bounded, h.base⟩
    · exact ⟨(h.within i hi).bounded, (h.within i hi).bounded.commit.trans (h.within i hi).commit⟩
  have hfits : Viewable (view net w.world) w.checker C (max C (w.world.nodes n).commitIndex) n := by
    refine ⟨fun i _ => ⟨(hbounded i).1.base, (hbounded i).2, hle i, (hbounded i).1.count.trans (hbounded i).1.applied⟩,
      le_max_left _ _, ?_, fun i hi hlt => ⟨?_, h.lives i ((mem_view_ids _).1 hi) hlt⟩, h.runs⟩
    · rcases le_total (w.world.nodes n).commitIndex C with hc | hc
      · exact Or.inl (max_eq_left hc)
      · rcases hn with hn | hn
        · exact Or.inr ⟨n, (mem_view_ids _).2 hn, (max_eq_right hc).symm⟩
        · exact Or.inl (max_eq_left hn)
    · by_contra hne
      exact absurd hlt (not_lt.2 (h.within i hne).commit)
  refine (check_books h.books hfits count).mono ?_
  rintro c ⟨hbooks, hcont, hinc⟩
  refine ⟨⟨fun i => ⟨(hbounded i).1, hle i⟩, h.out, h.sent, fun i hi => Or.inr (hinc i ((mem_view_ids _).2 hi)), hbooks⟩,
    hcont.mono fun idx x hr => ⟨(mem_view_ids _).1 hr.1, hr.2⟩⟩

/-- The checker is shown the node as it is now. -/
theorem view_put (world : World) (n : NodeId) (node : RaftNode) : view net (world.put n node) =
    { view net world with node := Function.update (view net world).node n node.view } := by
  refine congrArg (ClusterView.mk _) (funext fun i => ?_)
  by_cases hi : i = n
  · subst hi
    simp only [World.put, Function.update_self]
    rfl
  · simp only [World.put, Function.update_of_ne hi]
    rfl

/-- An operation that compacts nothing leaves what it commits pending. -/
theorem Covered.put (h : w.Covered net C) {node : RaftNode} (hg : (w.world.nodes n).Grows C node) :
    Pending net C n { w with world := w.world.put n node } := by
  obtain ⟨es, hout, hes⟩ := hg.calls
  rw [h.out n, List.nil_append] at hout
  have hself : (w.world.put n node).nodes n = { node with out := [] } := Function.update_self _ _ _
  have hother : ∀ i, i ≠ n → (w.world.put n node).nodes i = w.world.nodes i := fun i hi => Function.update_of_ne hi _ _
  refine ⟨fun i hi => ?_, ?_, ?_, ?_, fun i => ?_, fun i dst msg hm => ?_, fun i hi hlt => ?_, h.books⟩
  · rw [hother i hi]
    exact h.within i
  · rw [hself]
    exact hg.bounded.still ⟨rfl, rfl, rfl, rfl, rfl, rfl, rfl, rfl, rfl, rfl⟩
  · rw [hself]
    exact hg.base
  · simp only [hself]
    exact hg.runs
  · by_cases hi : i = n
    · rw [hi, hself]
    · rw [hother i hi]
      exact h.out i
  · simp only [hself]
    rcases List.mem_append.1 hm with hm | hm
    · exact (h.sent i dst msg hm).trans (le_max_left _ _)
    · obtain ⟨e, he, heq⟩ := List.mem_map.1 hm
      rw [hout] at he
      have hplain := hes e he
      rw [(Prod.mk.inj heq).2] at hplain
      exact hplain
  · by_cases hin : i = n
    · subst hin
      simp only [hself] at hlt ⊢
      rw [hg.lives hlt]
      exact h.lives i hi
    · simp only [hother i hin]
      exact h.lives i hi

/-- Plain calls do not let the checker look. -/
theorem foldlM_plain (world : World) (step : Int) (c : InvariantChecker) {es : List Effect} {D : Int}
    (hes : ∀ e ∈ es, e.Plain D) : (es.map fun e => (n, e)).foldlM (checkMidStep net world step) c = .ok c := by
  induction es with
  | nil => rfl
  | cons e es ih =>
    rw [List.map_cons, List.foldlM_cons]
    have hhead : checkMidStep net world step c (n, e) = .ok c := by
      have he := hes e List.mem_cons_self
      cases e with
      | beforeCompact view => exact he.elim
      | _ => rfl
    rw [hhead]
    exact ih fun e he => hes e (List.mem_cons_of_mem _ he)

/-- The commits up to `C'` have been recorded, each with the entry of the one node shown that has committed them. -/
structure Advances (net : Network) (w w' : Watched) (C C' : Int) : Prop where
  reached : C' = C ∨ ∃ i ∈ net.ids, (w'.world.nodes i).commitIndex = C'
  tells : ∃ n view, (∀ i v, Shown w w' i v → C < v.commitIndex → v.baseIndex < v.commitIndex → i = n ∧ v = view) ∧
    Continues (fun idx x => n ∈ net.ids ∧ idx ≤ (w'.world.nodes n).commitIndex ∧ Shown w w' n view ∧
      Read view.baseIndex view.commitIndex (Held view) idx x) w.checker.committed w'.checker.committed C C'

/-- What arrives at a covered cluster is admissible. -/
theorem Covered.admissible (h : w.Covered net C) {action : Action} {op : NodeOp} (hop : w.world.operation action = some (n, op)) :
    op.Admissible (Inputs.upTo C) (w.world.nodes n) := by
  rcases World.operation_cases hop with ⟨src, msg, hm, rfl⟩ | ⟨kind, seq, -, rfl⟩ | ⟨command, -, rfl⟩ | ⟨newVoters, -, rfl⟩ |
    ⟨command, -, rfl⟩ | ⟨-, rfl⟩ | ⟨-, rfl⟩
  · cases msg with
    | installSnapshot msg => exact h.sent src n msg hm
    | appendEntries msg => exact ⟨False.elim, fun _ _ => trivial⟩
    | readHeartbeat msg => exact False.elim
    | _ => trivial
  · cases kind <;> trivial
  · exact fun _ _ => trivial
  all_goals trivial

/-- An operation changes one node. -/
theorem put_nodes (world : World) (n : NodeId) (node : RaftNode) (i : NodeId) :
    (i = n ∧ (world.put n node).nodes i = { node with out := [] }) ∨ (i ≠ n ∧ (world.put n node).nodes i = world.nodes i) := by
  by_cases hi : i = n
  · subst hi
    exact Or.inl ⟨rfl, Function.update_self _ _ _⟩
  · exact Or.inr ⟨hi, Function.update_of_ne hi _ _⟩

/-- The one call of a compacting node at which the checker looks. -/
theorem foldlM_fold (w : Watched) {node low : RaftNode} {es es' : List Effect} {D D' : Int} (hlow : low.out = es)
    (hes : ∀ e ∈ es, e.Plain D) (hnode : node.out = low.out ++ .beforeCompact low.view :: es') (hes' : ∀ e ∈ es', e.Plain D') :
    (node.out.map fun e => (n, e)).foldlM (checkMidStep net w.world w.steps) w.checker =
      w.checker.check (view net (w.world.put n low)) w.steps false := by
  have hlast : ∀ c, (es'.map fun e => (n, e)).foldlM (checkMidStep net w.world w.steps) c = .ok c :=
    fun c => foldlM_plain w.world w.steps c hes'
  rw [hnode, hlow, List.map_append, List.foldlM_append, foldlM_plain w.world w.steps w.checker hes]
  show (List.map _ (_ :: es')).foldlM (m := Except CheckError) (checkMidStep net w.world w.steps) w.checker = _
  rw [List.map_cons, List.foldlM_cons, view_put]
  simp only [hlast]
  exact bind_pure (m := Except CheckError) _

/-- A node that compacts its log has let the checker look first, and everything is recorded. -/
theorem Covered.fold (h : w.Covered net C) (hn : n ∈ net.ids) {node low : RaftNode} (hf : (w.world.nodes n).Folds C node low) :
    Ensures ((node.out.map fun e => (n, e)).foldlM (checkMidStep net w.world w.steps) w.checker) fun c =>
      ∃ D, Covered net D { w with world := w.world.put n node, checker := c } ∧
        Advances net w { w with world := w.world.put n node, checker := c } C D := by
  obtain ⟨es, hlow, hes⟩ := hf.grows.calls
  rw [h.out n, List.nil_append] at hlow
  obtain ⟨es', hnode, hes'⟩ := hf.calls
  have hself : (w.world.put n low).nodes n = { low with out := [] } := Function.update_self _ _ _
  have hafter : (w.world.put n node).nodes n = { node with out := [] } := Function.update_self _ _ _
  have hcommit := hf.commit
  have hbase := hf.base
  rw [foldlM_fold w hlow hes hnode hes']
  refine ((h.put hf.grows).check (Or.inl hn) w.steps false).mono ?_
  simp only [hself]
  rintro c ⟨hcov, hcont⟩
  have hcalls : ∀ i v, (i, Effect.beforeCompact v) ∈ (w.world.put n node).trace.drop w.world.trace.length → i = n ∧ v = low.view := by
    intro i v hm
    rw [World.put_drop] at hm
    obtain ⟨e, he, heq⟩ := List.mem_map.1 hm
    obtain ⟨rfl, rfl⟩ := Prod.mk.inj heq
    rw [hnode, hlow] at he
    rcases List.mem_append.1 he with he | he
    · exact (hes _ he).elim
    · rcases List.mem_cons.1 he with he | he
      · exact ⟨rfl, Effect.beforeCompact.inj he⟩
      · exact (hes' _ he).elim
  refine ⟨max C low.commitIndex, ⟨fun i => ?_, fun i => ?_, fun i dst msg hm => ?_, fun i hi => ?_, hcov.books⟩, ?_, n, low.view, ?_, ?_⟩
  · rcases put_nodes w.world n node i with ⟨-, hi⟩ | ⟨-, hi⟩
    · simp only [hi]
      exact ⟨hf.bounded.still ⟨rfl, rfl, rfl, rfl, rfl, rfl, rfl, rfl, rfl, rfl⟩, hcommit.trans_le (le_max_right _ _)⟩
    · simp only [hi]
      exact ⟨(h.within i).bounded, (h.within i).commit.trans (le_max_left _ _)⟩
  · rcases put_nodes w.world n node i with ⟨-, hi⟩ | ⟨-, hi⟩
    · simp only [hi]
    · simp only [hi]
      exact h.out i
  · rcases List.mem_append.1 hm with hm | hm
    · exact (h.sent i dst msg hm).trans (le_max_left _ _)
    · obtain ⟨e, he, heq⟩ := List.mem_map.1 hm
      rw [(Prod.mk.inj heq).2, hnode, hlow] at he
      rcases List.mem_append.1 he with he | he
      · exact hes _ he
      · rcases List.mem_cons.1 he with he | he
        · cases he
        · exact hes' _ he
  · have hold := hcov.lives i hi
    rcases put_nodes w.world n node i with ⟨rfl, hi⟩ | ⟨hne, hi⟩
    · simp only [hself] at hold
      simp only [hi, hf.incarnation]
      exact hold
    · rcases put_nodes w.world n low i with ⟨heq, -⟩ | ⟨-, hi'⟩
      · exact (hne heq).elim
      · simp only [hi'] at hold
        simp only [hi]
        exact hold
  · rcases le_total low.commitIndex C with hc | hc
    · exact Or.inl (max_eq_left hc)
    · exact Or.inr ⟨n, hn, by rw [hafter, max_eq_right hc]; exact hcommit⟩
  · rintro i v (rfl | hm) hlt hread
    · rcases put_nodes w.world n node i with ⟨rfl, hi⟩ | ⟨-, hi⟩
      · simp only [hi] at hread
        exact absurd hbase (ne_of_lt hread)
      · simp only [hi] at hlt
        exact absurd hlt (not_lt.2 (h.within i).commit)
    · exact hcalls i v hm
  · refine hcont.mono fun idx x hr => ⟨hr.1, ?_, Or.inr ?_, hr.2⟩
    · simp only [hafter, hcommit]
      exact hr.2.2.1
    · rw [World.put_drop, hnode]
      exact List.mem_map_of_mem (List.mem_append_right _ List.mem_cons_self)

/-- What an event leaves to the check after it: a pending commit, or everything has been recorded. -/
def Settles (net : Network) (C : Int) (w w' : Watched) : Prop :=
  (∃ n, (n ∈ net.ids ∨ (w'.world.nodes n).commitIndex ≤ C) ∧ w'.Pending net C n ∧ w'.checker = w.checker ∧
    ∀ i v, (i, Effect.beforeCompact v) ∉ w'.world.trace.drop w.world.trace.length) ∨
  ∃ D, w'.Covered net D ∧ Advances net w w' C D

/-- One action: what it commits is pending, or the node has compacted it and it has been recorded. -/
theorem Covered.act (h : w.Covered net C) (action : Action) : Ensures (w.act net action) (Settles net C w) := by
  unfold Watched.act
  split
  · exact nofun
  · rename_i hany
    refine Ensures.bind Ensures.readings fun world hstep => ?_
    rcases World.step_put hstep with rfl | ⟨n, op, node, hop, hp, rfl⟩
    · rw [List.drop_length]
      refine Ensures.pure (Or.inl ⟨0, Or.inr (h.within 0).commit, h.pending 0, rfl, ?_⟩)
      simp
    · have hn : n ∈ net.ids := by simpa [hop] using hany
      have hput := w.world.put_drop n node
      rcases (h.within n).perform op (h.admissible hop) node hp with hg | ⟨low, hf⟩
      · obtain ⟨es, hout, hes⟩ := hg.calls
        rw [h.out n, List.nil_append] at hout
        rw [← hout] at hes
        rw [hput, foldlM_plain w.world w.steps w.checker hes]
        refine Ensures.pure (Or.inl ⟨n, Or.inl hn, h.put hg, rfl, fun i v hm => ?_⟩)
        rw [hput] at hm
        obtain ⟨e, he, heq⟩ := List.mem_map.1 hm
        have hplain := hes e he
        rw [(Prod.mk.inj heq).2] at hplain
        exact hplain
      · rw [hput]
        exact Ensures.bind (h.fold hn hf) fun c hc => Ensures.pure (Or.inr hc)

/-- An operation that commits nothing and is no crash. -/
theorem Covered.stay (h : w.Covered net C) {node : RaftNode} (hs : (w.world.nodes n).Stays C node) :
    Covered net C { w with world := w.world.put n node } := by
  have hself : (w.world.put n node).nodes n = { node with out := [] } := Function.update_self _ _ _
  have hput := h.put hs.grows
  refine ⟨fun i => ?_, hput.out, fun i dst msg hm => (hput.sent i dst msg hm).trans ?_, fun i hi => ?_, h.books⟩
  · rcases put_nodes w.world n node i with ⟨-, hi⟩ | ⟨hne, -⟩
    · simp only [hi]
      exact ⟨hs.within.bounded.still ⟨rfl, rfl, rfl, rfl, rfl, rfl, rfl, rfl, rfl, rfl⟩, hs.within.commit⟩
    · exact hput.within i hne
  · simp only [hself]
    exact max_le le_rfl hs.within.commit
  · rcases put_nodes w.world n node i with ⟨rfl, hi'⟩ | ⟨-, hi'⟩
    · simp only [hi', hs.incarnation]
      exact h.lives i hi
    · simp only [hi']
      exact h.lives i hi

/-- Nothing has been committed or shown since `w`. -/
structure Quiet (net : Network) (C : Int) (w w' : Watched) : Prop where
  covered : w'.Covered net C
  checker : w'.checker = w.checker
  calls : ∃ calls, w'.world.trace = w.world.trace ++ calls ∧ ∀ i v, (i, Effect.beforeCompact v) ∉ calls

/-- An event that reaches no node. -/
theorem Covered.quiet (h : w.Covered net C) : Quiet net C w w := ⟨h, rfl, [], by simp, by simp⟩

/-- One of the membership driver's proposals. -/
theorem Quiet.propose {start : Watched} (h : Quiet net C start w) (n : NodeId) (newVoters : List NodeId) :
    Ensures (w.act net (.changeConfig n newVoters)) (Quiet net C start) := by
  unfold Watched.act
  split
  · exact nofun
  · refine Ensures.bind Ensures.readings fun world hstep => ?_
    rcases World.step_put hstep with rfl | ⟨m, op, node, hop, hp, rfl⟩
    · rw [List.drop_length]
      exact Ensures.pure h
    · have hop' : (n, NodeOp.changeConfig newVoters) = (m, op) := Option.some.inj hop
      obtain ⟨rfl, rfl⟩ := Prod.mk.inj hop'
      have hs := (h.covered.within n).propose newVoters node hp
      obtain ⟨es, hout, hes⟩ := hs.calls
      rw [h.covered.out n, List.nil_append] at hout
      rw [← hout] at hes
      rw [World.put_drop, foldlM_plain w.world w.steps w.checker hes]
      obtain ⟨calls, htrace, hcalls⟩ := h.calls
      refine Ensures.pure ⟨h.covered.stay hs, h.checker, calls ++ node.out.map fun e => (n, e), ?_, fun i v hm => ?_⟩
      · simp only [World.put, htrace, List.append_assoc]
      · rcases List.mem_append.1 hm with hm | hm
        · exact hcalls i v hm
        · obtain ⟨e, he, heq⟩ := List.mem_map.1 hm
          have hplain := hes e he
          rw [(Prod.mk.inj heq).2] at hplain
          exact hplain

/-- A quiet part settles. -/
theorem Quiet.settles (h : Quiet net C w w') : Settles net C w w' := by
  obtain ⟨calls, htrace, hcalls⟩ := h.calls
  refine Or.inl ⟨0, Or.inr (h.covered.within 0).commit, h.covered.pending 0, h.checker, ?_⟩
  rw [htrace, List.drop_left]
  exact hcalls

/-- An event settles: what is committed in it is recorded in the middle of it, or is pending after it. -/
theorem Covered.happen (h : w.Covered net C) (event : WatchedEvent) : Ensures (w.happen net event) (Settles net C w) := by
  cases event with
  | idle => exact Ensures.pure h.quiet.settles
  | act action => exact h.act action
  | propose proposals =>
    exact (Ensures.foldlM (Q := Quiet net C w) (fun _ p hq => Quiet.propose hq p.1 p.2) h.quiet).mono fun _ hq => hq.settles

/-- The check after an event. -/
theorem Settles.check (h : Settles net C w w') (step : Int) :
    Ensures (w'.checker.check (view net w'.world) step true) fun c =>
      ∃ D, Covered net D { w' with checker := c } ∧ Advances net w { w' with checker := c } C D := by
  rcases h with ⟨n, hn, hp, hc, hcalls⟩ | ⟨D, hcov, hadv⟩
  · refine (hp.check hn step true).mono ?_
    rintro c ⟨hcov, hcont⟩
    rw [hc] at hcont
    refine ⟨_, hcov, ?_, n, (w'.world.nodes n).view, ?_, hcont.mono fun idx x hr => ⟨hr.1, hr.2.2.1, Or.inl rfl, hr.2⟩⟩
    · rcases le_total (w'.world.nodes n).commitIndex C with hle | hle
      · exact Or.inl (max_eq_left hle)
      · rcases hn with hn | hn
        · exact Or.inr ⟨n, hn, (max_eq_right hle).symm⟩
        · exact Or.inl (max_eq_left hn)
    · rintro i v (rfl | hm) hlt -
      · have hin : i = n := by
          by_contra hne
          exact absurd hlt (not_lt.2 (hp.within i hne).commit)
        rw [hin]
        exact ⟨rfl, rfl⟩
      · exact (hcalls i v hm).elim
  · refine ((hcov.pending 0).check (Or.inr (hcov.within 0).commit) step true).mono ?_
    rintro c ⟨hcov', hcont⟩
    rw [max_eq_left (hcov.within 0).commit] at hcov' hcont
    obtain ⟨hreach, n, v, honly, hold⟩ := hadv
    refine ⟨D, hcov', hreach, n, v, honly, hold.le, hold.grows.trans hcont.grows, fun idx h1 h2 => ?_⟩
    obtain ⟨x, hx, hP⟩ := hold.new idx h1 h2
    exact ⟨x, hcont.grows idx x hx, hP⟩

/-- An event and the check after it. -/
theorem Covered.step (h : w.Covered net C) (event : WatchedEvent) :
    Ensures (w.step net event) fun w' => ∃ D, w'.Covered net D ∧ Advances net w w' C D := by
  unfold Watched.step
  have h' : Covered net C { w with steps := w.steps + 1 } := ⟨h.within, h.out, h.sent, h.lives, h.books⟩
  refine Ensures.bind (h'.happen event) fun mid hm => Ensures.bind (hm.check mid.steps) ?_
  rintro c ⟨D, hcov, hadv⟩
  exact Ensures.pure ⟨D, hcov, hadv.reached, hadv.tells⟩

/-- A cluster that has started has committed nothing. -/
theorem covered_init (net : Network) (seed : Int) (replayHint : String) : Covered net 0 (Watched.init net seed replayHint) := by
  refine ⟨fun i => ⟨?_, le_rfl⟩, fun i => rfl, fun i dst msg hm => ?_, fun i hi => Or.inl rfl, ⟨⟨fun idx => ?_, fun i => le_rfl⟩,
    ⟨fun idx => ?_, fun i => le_rfl⟩, nofun⟩⟩
  · exact ((Bounded.new i _ net.config NO_BUGS _ rfl).move (.start (I := Inputs.upTo 0) _)).still
      ⟨rfl, rfl, rfl, rfl, rfl, rfl, rfl, rfl, rfl, rfl⟩
  · obtain ⟨n, -, he⟩ := List.mem_flatMap.1 hm
    obtain ⟨e, he, heq⟩ := List.mem_map.1 he
    rw [(Prod.mk.inj heq).2] at he
    simp [Network.newNode, RaftNode.new, RaftNode.start, RaftNode.armElectionTimer, emit] at he
  · constructor
    · rintro ⟨x, hx⟩
      cases hx
    · omega
  · constructor
    · rintro ⟨x, hx⟩
      cases hx
    · omega

end Watched

/-! ## Runs -/

namespace WatchedRun

variable {net : Network} {run : WatchedRun net} {j k : ℕ} {idx : Int}

/-- What has been reached stays so. -/
theorem Reached.mono (h : run.Reached j idx) (hjk : j ≤ k) : run.Reached k idx := by
  obtain ⟨i, hi, n, hn, hle⟩ := h
  exact ⟨i, hi.trans hjk, n, hn, hle⟩

/-- What the run has committed by a moment ends at `C`, and each record is of the first commit. -/
structure Recorded (run : WatchedRun net) (k : ℕ) (C : Int) : Prop where
  covered : (run.state k).Covered net C
  below : ∀ idx, 1 ≤ idx → idx ≤ C → run.Reached k idx
  above : ∀ idx, run.Reached k idx → idx ≤ C
  first : ∀ idx x, (run.state k).checker.committed.lookup idx = some x →
    (∃ j < k, ∃ n, run.FirstCommits j n idx x.1) ∧ ∀ j n e, run.FirstCommits j n idx e → e = x.1

/-- At the start nothing is recorded. -/
theorem recorded_init (run : WatchedRun net) : run.Recorded 0 0 := by
  have hcov : (run.state 0).Covered net 0 := by
    rw [run.start]
    exact Watched.covered_init net run.seed run.replayHint
  refine ⟨hcov, fun idx h1 h2 => by omega, ?_, fun idx x hx => ?_⟩
  · rintro idx ⟨i, hi, n, -, hle⟩
    rw [Nat.le_zero.1 hi] at hle
    exact hle.trans (hcov.within n).commit
  · rw [run.start] at hx
    cases hx

/-- One event: a new record is of the node that commits the index in it. -/
theorem Recorded.next {C : Int} (h : run.Recorded k C) (hk : k < run.length) : ∃ D, run.Recorded (k + 1) D := by
  obtain ⟨D, hcov, hreach, n, view, honly, hcont⟩ := h.covered.step (run.event k) _ (run.next k hk)
  refine ⟨D, hcov, fun idx h1 h2 => ?_, ?_, fun idx x hx => ?_⟩
  · by_cases hle : idx ≤ C
    · exact (h.below idx h1 hle).mono (Nat.le_succ k)
    · rcases hreach with rfl | ⟨i, hi, rfl⟩
      · exact absurd h2 hle
      · exact ⟨k + 1, le_rfl, i, hi, h2⟩
  · rintro idx ⟨i, hi, m, hm, hle⟩
    rcases Nat.le_succ_iff.1 hi with hi | rfl
    · exact (h.above idx ⟨i, hi, m, hm, hle⟩).trans hcont.le
    · exact hle.trans (hcov.within m).commit
  · by_cases hle : idx ≤ C
    · obtain ⟨y, hy⟩ := (h.covered.books.commits.recorded idx).2 ⟨((hcov.books.commits.recorded idx).1 ⟨x, hx⟩).1, hle⟩
      have hxy := Option.some.inj ((hcont.grows idx y hy).symm.trans hx)
      rw [← hxy]
      obtain ⟨⟨j, hj, m, hf⟩, huniq⟩ := h.first idx y hy
      exact ⟨⟨j, hj.trans (Nat.lt_succ_self k), m, hf⟩, huniq⟩
    · have hD := ((hcov.books.commits.recorded idx).1 ⟨x, hx⟩).2
      obtain ⟨y, hy, hn, hcom, hshown, hbase, htop, hheld⟩ := hcont.new idx (not_le.1 hle) hD
      have hxy := Option.some.inj (hy.symm.trans hx)
      rw [← hxy]
      refine ⟨⟨k, Nat.lt_succ_self k, n, fun hr => hle (h.above idx hr), hn, hcom, view, hshown, hbase, htop, hheld⟩, ?_⟩
      rintro j m e ⟨hnew, hm, hcom', v, hv, hb, ht, he⟩
      have hjk : j = k := by
        rcases Nat.lt_trichotomy j k with hlt | heq | hlt
        · exact absurd (h.above idx ⟨j + 1, hlt, m, hm, hcom'⟩) hle
        · exact heq
        · exact absurd ⟨k + 1, hlt, n, hn, hcom⟩ hnew
      subst hjk
      obtain ⟨rfl, rfl⟩ := honly m v hv ((not_le.1 hle).trans_le ht) (hb.trans_le ht)
      exact Except.ok.inj (he.symm.trans hheld)

/-- At every moment all that was committed is recorded. -/
theorem recorded (run : WatchedRun net) (hk : k ≤ run.length) : ∃ C, run.Recorded k C := by
  induction k with
  | zero => exact ⟨0, run.recorded_init⟩
  | succ k ih =>
    obtain ⟨C, hC⟩ := ih (Nat.le_of_succ_le hk)
    exact hC.next hk

end WatchedRun

/-- The checker sees every commit: after each event it has recorded, for the indices from 1 to the highest commit index any node has
reached and no others, the entry in the log of the node that first committed it, and its command as the one applied there. -/
theorem checker_sees_commits {net : Network} (run : WatchedRun net) {k : ℕ} (hk : k ≤ run.length) (idx : Int) :
    (1 ≤ idx ∧ run.Reached k idx → ∃ entry term, (run.state k).checker.committed.lookup idx = some (entry, term) ∧
      (run.state k).checker.appliedAt.lookup idx = some entry.command ∧ (∃ j < k, ∃ n, run.FirstCommits j n idx entry) ∧
      ∀ j n e, run.FirstCommits j n idx e → e = entry) ∧
    (¬(1 ≤ idx ∧ run.Reached k idx) → (run.state k).checker.committed.lookup idx = none ∧
      (run.state k).checker.appliedAt.lookup idx = none) := by
  obtain ⟨C, hC⟩ := run.recorded hk
  have hdom : 1 ≤ idx ∧ idx ≤ C ↔ 1 ≤ idx ∧ run.Reached k idx :=
    ⟨fun h => ⟨h.1, hC.below idx h.1 h.2⟩, fun h => ⟨h.1, hC.above idx h.2⟩⟩
  have hcom := hC.covered.books.commits.recorded idx
  have happ := hC.covered.books.applies.recorded idx
  rw [hdom] at hcom happ
  constructor
  · intro h
    obtain ⟨⟨entry, term⟩, hx⟩ := hcom.2 h
    obtain ⟨cmd, hcmd⟩ := happ.2 h
    obtain ⟨hfirst, huniq⟩ := hC.first idx _ hx
    exact ⟨entry, term, hx, by rw [hcmd, hC.covered.books.same idx _ cmd hx hcmd], hfirst, huniq⟩
  · intro h
    constructor
    · by_contra hne
      exact h (hcom.1 (Option.ne_none_iff_exists'.1 hne))
    · by_contra hne
      exact h (happ.1 (Option.ne_none_iff_exists'.1 hne))

/-- Two servers that compact at each commit. -/
def compactingPair : Network where
  ids := [1, 2]
  initialVoters := [1, 2]
  config := { snapshotThreshold := 1 }
  reconfigurable := false
  readIndex := false
  recordHistory := false
  ids_nodup := by decide
  voters_nodup := by decide
  voters_subset := by decide

/-- Server 1 is elected, replicates a command, commits it and compacts its log in the same step. -/
def compactingRun : WatchedRun compactingPair :=
  .ofEvents compactingPair 0 "" [.act (.fire 0), .act (.deliver 6), .act (.deliver 11), .act (.clientCommand 1 "a"),
    .act (.deliver 16), .act (.deliver 18)] (by decide +kernel)

/-- What a cluster that compacts has first committed at index 1 is what the checker has recorded there, and has seen applied. -/
theorem checker_sees_commits_compacting : ∃ entry term,
    (compactingRun.state 6).checker.committed.lookup 1 = some (entry, term) ∧
    (compactingRun.state 6).checker.appliedAt.lookup 1 = some entry.command ∧
    (∃ j < 6, ∃ n, compactingRun.FirstCommits j n 1 entry) ∧ ∀ j n e, compactingRun.FirstCommits j n 1 e → e = entry :=
  (checker_sees_commits compactingRun (k := 6) le_rfl 1).1
    ⟨le_rfl, 6, le_rfl, 1, List.mem_cons_self, by decide +kernel⟩

end DeterministicRaft
