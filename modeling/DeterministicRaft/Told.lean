import DeterministicRaft.Calm
import DeterministicRaft.Lanes
import DeterministicRaft.Theorems.Votes
import DeterministicRaft.Walks

/-!
# What the trace tells of a node

In what is no crash and no restart, a node tells of its role and its term whenever they change: who reads its `role` events in the trace
knows both. A crash makes the node a follower and is told of, but without a `role` event; a restart changes neither.
-/

namespace DeterministicRaft

open RaftNode Refinement

/-! ## Nodes -/

/-- In moves that are no crash the role and the term that a node tells last are its own. -/
theorem Moved.roles {I : Inputs} {self after : RaftNode} (hI : ¬I.crashes) (h : Moved I self after) : ∃ es,
    after.out = self.out ++ es ∧ es.foldl Effect.shown (self.role, self.term) = (after.role, after.term) := by
  induction h with
  | refl => exact ⟨[], (List.append_nil _).symm, rfl⟩
  | tail _ hm ih =>
    obtain ⟨es, hout, hshown⟩ := ih
    obtain ⟨es', hes⟩ := hm.calls
    rcases hes.roles with ⟨hq, -⟩ | hroles
    · exact absurd hq hI
    · exact ⟨es ++ es', by rw [hes.out, hout, List.append_assoc], by rw [List.foldl_append, hshown, hroles]⟩

/-- An operation that is no crash and no restart tells of every change of role and term. -/
theorem perform_roles (self : RaftNode) {op : NodeOp} (ho : op.Ordinary) : Ensures (self.perform op) fun after =>
    (∃ es, after.out = self.out ++ es ∧ es.foldl Effect.shown (self.role, self.term) = (after.role, after.term)) ∧
    self.term ≤ after.term := by
  refine (perform_cases self op (op.admissible_running self)).mono ?_
  have hmoved : ∀ {after}, Moved .running self after →
      (∃ es, after.out = self.out ++ es ∧ es.foldl Effect.shown (self.role, self.term) = (after.role, after.term)) ∧
        self.term ≤ after.term := fun h => ⟨h.roles fun hq => hq, h.term_le⟩
  rintro after (h | h | ⟨rfl, -⟩)
  · exact hmoved (h.moved trivial trivial)
  · exact hmoved h.of_installing
  · exact ho.elim

/-! ## Worlds -/

/-- All that the nodes have asked for has been heard. -/
def World.Silent (w : World) : Prop := ∀ n, (w.nodes n).out = []

/-- The role and the term of a node. -/
def World.post (w : World) (n : NodeId) : Role × Int := ((w.nodes n).role, (w.nodes n).term)

/-- The role and the term that a node has told last, after one more call. -/
def World.told (n : NodeId) (last : Role × Int) (call : NodeId × Effect) : Role × Int :=
  if call.1 = n then call.2.shown last else last

/-- The calls of one node tell of no other. -/
theorem foldl_told (n m : NodeId) (es : List Effect) (last : Role × Int) :
    (es.map fun e => (m, e)).foldl (World.told n) last = if m = n then es.foldl Effect.shown last else last := by
  induction es generalizing last with
  | nil => split <;> rfl
  | cons e es ih =>
    rw [List.map_cons, List.foldl_cons, ih]
    unfold World.told
    split
    · rfl
    · rfl

/-- From the one world to the other no node has crashed or come back, and who hears the calls in between knows all roles and terms. -/
structure World.Tells (before after : World) : Prop where
  silent : after.Silent
  alive : SameAlive before after
  term_le : ∀ n, (before.nodes n).term ≤ (after.nodes n).term
  calls : ∃ calls, after.trace = before.trace ++ calls ∧ ∀ n, calls.foldl (World.told n) (before.post n) = after.post n

/-- An action that reaches no node. -/
theorem World.Tells.refl {w : World} (h : w.Silent) : w.Tells w :=
  ⟨h, fun _ => rfl, fun _ => le_rfl, [], (List.append_nil _).symm, fun _ => rfl⟩

/-- All is heard after an operation whose calls are. -/
theorem World.silent_update {w after : World} (hs : w.Silent) {m : NodeId} {node : RaftNode}
    (h : after.nodes = Function.update w.nodes m node) (hnode : node.out = []) : after.Silent := by
  intro n
  rw [h]
  by_cases hn : n = m
  · rw [hn, Function.update_self, hnode]
  · rw [Function.update_of_ne hn, hs n]

/-- An action tells of the roles that it changes. -/
theorem World.step_tells {w : World} (hs : w.Silent) {action : Action} (ha : action.Ordinary) :
    Ensures (w.step action) w.Tells := by
  intro after h
  have halive := World.step_alive w ha after h
  rcases World.step_cases h with rfl | ⟨m, op, self, hop, hp, rfl⟩
  · exact .refl hs
  · obtain ⟨⟨es, hout, hshown⟩, hterm⟩ := perform_roles _ (ha.operation hop) self hp
    rw [hs m, List.nil_append] at hout
    refine ⟨World.silent_update hs rfl rfl, halive, fun n => ?_, es.map fun e => (m, e), by rw [← hout], fun n => ?_⟩
    · by_cases hn : n = m
      · subst hn
        simp only [Function.update_self]
        exact hterm
      · simp only [Function.update_of_ne hn]
        exact le_rfl
    · rw [foldl_told]
      by_cases hn : m = n
      · subst hn
        rw [if_pos rfl]
        simp only [World.post, Function.update_self]
        exact hshown
      · rw [if_neg hn]
        simp only [World.post, Function.update_of_ne (Ne.symm hn)]

/-! ## Clusters -/

namespace Cluster

variable (net : Network) {c : Cluster}

/-- An action on the nodes. -/
theorem act_tells (hs : c.world.Silent) {action : Action} (ha : action.Ordinary) :
    Ensures (c.act net action) fun c' => c.world.Tells c'.world :=
  (act_world net c action).mono fun _ h => World.step_tells hs ha _ h

/-- A command is submitted. -/
theorem submit_tells (hs : c.world.Silent) (target : NodeId) (encoded : String) :
    Ensures (c.submit net target encoded) fun c' => c.world.Tells c'.world := by
  unfold submit
  simp only
  split
  · split
    · refine Ensures.pure ?_
      rw [onApply_world]
      exact .refl hs
    · split
      · exact act_tells net hs trivial
      · exact act_tells net hs trivial
  · exact Ensures.pure (.refl hs)

/-- A client's tick. -/
theorem clientTick_tells (hs : c.world.Silent) (target : NodeId) :
    Ensures (c.clientTick net target) fun c' => c.world.Tells c'.world := by
  unfold clientTick
  simp only
  have hturn : ({ c with clientTurn := c.clientTurn + 1 } : Cluster).world.Silent := hs
  split
  · refine (submit_tells net ?_ target _).mono fun _ h => ?_
    · rw [invoke_world]
      exact hturn
    · rw [invoke_world] at h
      exact h
  · exact submit_tells net hturn target _

end Cluster

/-! ## Lines -/

/-- The role and the term that a node has told last, after one more line. -/
def Line.told (n : NodeId) (last : Role × Int) (x : Int × Line) : Role × Int :=
  match x.2 with
  | .node m event => World.told n last (m, .record event)
  | _ => last

/-- Whether a node is alive, as far as the crashes and restarts recorded tell, after one more line. -/
def Line.up (n : NodeId) (last : Bool) (x : Int × Line) : Bool :=
  match x.2 with
  | .crash m => if m = n then false else last
  | .resume m => if m = n then true else last
  | _ => last

/-- A line that is no role event tells of none. -/
theorem Line.told_of_aside {n : NodeId} {last : Role × Int} {x : Int × Line} (h : x.2.Aside) : Line.told n last x = last := by
  obtain ⟨t, line⟩ := x
  cases line with
  | node => exact h.elim
  | _ => rfl

/-- The line tells of no crash and no restart. -/
def Line.Ordinary : Line → Prop
  | .crash _ | .resume _ => False
  | _ => True

/-- A line that is aside is of no crash and no restart. -/
theorem Line.Aside.ordinary {line : Line} (h : line.Aside) : line.Ordinary := by
  cases line with
  | crash => exact h.elim
  | resume => exact h.elim
  | _ => trivial

/-- Ordinary lines leave aliveness alone. -/
theorem Line.up_of_ordinary {n : NodeId} {last : Bool} {x : Int × Line} (h : x.2.Ordinary) : Line.up n last x = last := by
  obtain ⟨t, line⟩ := x
  cases line with
  | crash => exact h.elim
  | resume => exact h.elim
  | _ => rfl

/-- Lines that change nothing for their reader. -/
theorem foldl_eq_self {σ ι : Type} {f : σ → ι → σ} {l : List ι} {s : σ} (h : ∀ i ∈ l, f s i = s) : l.foldl f s = s := by
  induction l with
  | nil => rfl
  | cons i l ih =>
    rw [List.foldl_cons, h i List.mem_cons_self]
    exact ih fun j hj => h j (List.mem_cons_of_mem _ hj)

namespace Harness

variable {R : RandomSource} {settings : Settings} {self before mid after : Harness R} {n : NodeId}

/-- What the nodes asked for has been done: what they recorded is in the trace, in the same order. -/
structure Heard (calls : List (NodeId × Effect)) (before after : Harness R) : Prop where
  cluster : after.cluster = before.cluster
  now : after.sim.clock.now = before.sim.clock.now
  trace : ∃ lines, after.trace = before.trace ++ lines ∧
    (∀ x ∈ lines, x.1 = before.sim.clock.now ∧
      (x.2.Aside ∨ ∃ m event, x.2 = .node m event ∧ (m, Effect.record event) ∈ calls)) ∧
    ∀ n last, lines.foldl (Line.told n) last = calls.foldl (World.told n) last

/-- One call is heard. -/
theorem Heard.hear (self : Harness R) (call : (NodeId × Effect) × ℕ) : Ensures (self.hear settings call) (Heard [call.1] self) := by
  by_cases hc : ∀ event, call.1.2 ≠ .record event
  · refine (Apart.hear self hc).mono fun after h => ⟨h.cluster, h.now, ?_⟩
    obtain ⟨lines, ht, hl⟩ := h.trace
    refine ⟨lines, ht, fun x hx => ⟨(hl x hx).1, Or.inl (hl x hx).2⟩, fun n last => ?_⟩
    rw [foldl_eq_self fun x hx => Line.told_of_aside (hl x hx).2, List.foldl_cons, List.foldl_nil]
    unfold World.told
    split
    · obtain ⟨⟨m, e⟩, k⟩ := call
      cases e with
      | record event => exact absurd rfl (hc event)
      | _ => rfl
    · rfl
  · push Not at hc
    obtain ⟨event, he⟩ := hc
    obtain ⟨⟨m, e⟩, k⟩ := call
    cases he
    refine Ensures.pure ⟨rfl, rfl, [(self.sim.clock.now, .node m event)], rfl, fun x hx => ?_, fun n last => rfl⟩
    rw [List.mem_singleton.1 hx]
    exact ⟨rfl, Or.inr ⟨m, event, rfl, List.mem_singleton_self _⟩⟩

/-- All calls are heard, in order. -/
theorem Heard.hearAll (self : Harness R) (calls : List ((NodeId × Effect) × ℕ)) :
    Ensures (calls.foldlM (Harness.hear settings) self) (Heard (calls.map Prod.fst) self) := by
  induction calls generalizing self with
  | nil => exact Ensures.pure ⟨rfl, rfl, [], (List.append_nil _).symm, fun x hx => absurd hx List.not_mem_nil, fun _ _ => rfl⟩
  | cons call calls ih =>
    rw [List.foldlM_cons]
    refine Ensures.bind (Heard.hear self call) fun mid h => (ih mid).mono fun after h' => ?_
    obtain ⟨lines, ht, hl, htold⟩ := h.trace
    obtain ⟨lines', ht', hl', htold'⟩ := h'.trace
    refine ⟨h'.cluster.trans h.cluster, h'.now.trans h.now, lines ++ lines', by rw [ht', ht, List.append_assoc], fun x hx => ?_,
      fun n last => ?_⟩
    · rcases List.mem_append.1 hx with hx | hx
      · obtain ⟨hstamp, haside | ⟨m, event, he, hm⟩⟩ := hl x hx
        · exact ⟨hstamp, Or.inl haside⟩
        · exact ⟨hstamp, Or.inr ⟨m, event, he, by rw [List.mem_singleton.1 hm]; exact List.mem_cons_self⟩⟩
      · obtain ⟨hstamp, haside | ⟨m, event, he, hm⟩⟩ := hl' x hx
        · exact ⟨hstamp.trans h.now, Or.inl haside⟩
        · exact ⟨hstamp.trans h.now, Or.inr ⟨m, event, he, List.mem_cons_of_mem _ hm⟩⟩
    · rw [List.foldl_append, htold, htold', List.map_cons, List.foldl_cons, List.foldl_cons, List.foldl_nil]

/-- What the nodes have asked for since. -/
theorem Heard.follow (self : Harness R) (cluster : Cluster) : Ensures (self.follow settings cluster)
    (Heard (cluster.world.trace.drop self.cluster.world.trace.length) { self with cluster }) := by
  have h : Ensures (self.follow settings cluster) _ := Heard.hearAll { self with cluster }
    (cluster.world.trace.zipIdx.drop self.cluster.world.trace.length)
  rw [List.map_drop, List.zipIdx_map_fst] at h
  exact h

/-! ## Nothing crashes and nothing comes back -/

/-- From the one moment to the other node `n` has not crashed or come back, and its `role` events tell its role and its term. -/
structure Told (n : NodeId) (before after : Harness R) : Prop where
  silent : after.cluster.world.Silent
  now : after.sim.clock.now = before.sim.clock.now
  alive : (after.cluster.world.nodes n).alive = (before.cluster.world.nodes n).alive
  term_le : (before.cluster.world.nodes n).term ≤ (after.cluster.world.nodes n).term
  trace : ∃ lines, after.trace = before.trace ++ lines ∧ (∀ x ∈ lines, x.1 = before.sim.clock.now ∧ x.2.Ordinary) ∧
    lines.foldl (Line.told n) (before.cluster.world.post n) = after.cluster.world.post n

namespace Told

/-- One part of an event after the other. -/
theorem trans (h : Told n before mid) (h' : Told n mid after) : Told n before after := by
  obtain ⟨lines, ht, hl, htold⟩ := h.trace
  obtain ⟨lines', ht', hl', htold'⟩ := h'.trace
  refine ⟨h'.silent, h'.now.trans h.now, h'.alive.trans h.alive, h.term_le.trans h'.term_le, lines ++ lines',
    by rw [ht', ht, List.append_assoc], fun x hx => ?_, by rw [List.foldl_append, htold, htold']⟩
  rcases List.mem_append.1 hx with hx | hx
  · exact hl x hx
  · exact ⟨(hl' x hx).1.trans h.now, (hl' x hx).2⟩

/-- The nodes did nothing. -/
theorem of_apart (hs : self.cluster.world.Silent) (h : Apart self after) : Told n self after := by
  obtain ⟨lines, ht, hl⟩ := h.trace
  refine ⟨by rw [h.cluster]; exact hs, h.now, by rw [h.cluster], by rw [h.cluster], lines, ht,
    fun x hx => ⟨(hl x hx).1, (hl x hx).2.ordinary⟩, ?_⟩
  rw [h.cluster]
  exact foldl_eq_self fun x hx => Line.told_of_aside (hl x hx).2

/-- The nodes have gone on, and what they asked for has been done. -/
theorem follow (self : Harness R) (n : NodeId) {c : Cluster} (h : self.cluster.world.Tells c.world) :
    Ensures (self.follow settings c) (Told n self) := by
  refine (Heard.follow self c).mono fun after hh => ?_
  obtain ⟨calls, hcalls, htold⟩ := h.calls
  obtain ⟨lines, ht, hl, hlines⟩ := hh.trace
  rw [hcalls, List.drop_left] at hlines
  refine ⟨by rw [hh.cluster]; exact h.silent, hh.now, by rw [hh.cluster]; exact h.alive n, by rw [hh.cluster]; exact h.term_le n,
    lines, ht, fun x hx => ?_, ?_⟩
  · obtain ⟨hstamp, haside | ⟨m, event, he, -⟩⟩ := hl x hx
    · exact ⟨hstamp, haside.ordinary⟩
    · exact ⟨hstamp, by rw [he]; trivial⟩
  · rw [hlines, htold, hh.cluster]

/-- An action that is no crash and no restart. -/
theorem act (hs : self.cluster.world.Silent) {action : Action} (ha : action.Ordinary) : Ensures (self.act settings action) (Told n self) :=
  Ensures.bind (Ensures.raising (Cluster.act_tells settings.network hs ha)) fun _ h => follow self n h

/-- What is no crash and no restart is told. -/
theorem work (n : NodeId) : Work settings fun before after : Harness R => before.cluster.world.Silent → Told n before after where
  trans h h' hs := (h hs).trans (h' (h hs).silent)
  aside hc hcl ht hs := of_apart hs
    ⟨hcl, by rw [hc], [], by rw [ht, List.append_nil], fun _ hm => absurd hm List.not_mem_nil⟩
  schedule self delay fn := (Apart.schedule self delay fn).mono fun _ h hs => of_apart hs h
  record self line hl hs := of_apart hs (Apart.talk.record self line hl)
  act self action ha := Ensures.given fun hs => act hs ha

/-- A client's tick. -/
theorem clientTick (hs : self.cluster.world.Silent) : Ensures (self.clientTick settings) (Told n self) := by
  unfold Harness.clientTick
  simp only
  refine Ensures.bind (Apart.talk.choice self settings.ids) fun draw hdraw => ?_
  obtain ⟨target, sim⟩ := draw
  refine Ensures.bind (Ensures.raising (Cluster.clientTick_tells settings.network hs target)) fun c hc => ?_
  have hattempt := Apart.talk.trans hdraw
    (Apart.talk.recordAttempt { self with sim } (self.cluster.clientTurn % WORKLOAD_CLIENTS : ℕ) target)
  generalize ({ self with sim } : Harness R).recordAttempt (self.cluster.clientTurn % WORKLOAD_CLIENTS : ℕ) target = s at hattempt ⊢
  refine Ensures.bind (follow s n (c := c) (by rw [hattempt.cluster]; exact hc)) fun s' hs' => ?_
  have hsched : ∀ delay, Ensures (s'.schedule delay .clientTick) (Told n self) := fun delay =>
    (Apart.schedule s' delay _).mono fun _ h => ((of_apart hs hattempt).trans hs').trans (of_apart hs'.silent h)
  split
  · exact hsched _
  · exact hsched _

end Told

/-! ## Crashes -/

/-- One node has done an operation of which it tells nothing itself, and the line tells of it. -/
structure Alone (m : NodeId) (node : RaftNode) (line : Line) (before after : Harness R) : Prop where
  nodes : after.cluster.world.nodes = Function.update before.cluster.world.nodes m { node with out := [] }
  now : after.sim.clock.now = before.sim.clock.now
  trace : ∃ lines, after.trace = before.trace ++ lines ∧
    (∀ x ∈ lines, x.1 = before.sim.clock.now ∧ ∀ n last, Line.told n last x = last) ∧
    ∀ n last, lines.foldl (Line.up n) last = Line.up n last (before.sim.clock.now, line)

/-- An operation of one node, and its line. -/
theorem Alone.act (self : Harness R) (net : SimNetwork) {action : Action} {m : NodeId} {op : NodeOp} {node : RaftNode} {line : Line}
    (hop : self.cluster.world.operation action = some (m, op)) (hp : (self.cluster.world.nodes m).perform op = .ok node)
    (hcalls : ∀ event, Effect.record event ∉ node.out) (hline : ∀ n t last, Line.told n last (t, line) = last) :
    Ensures (do
      let mid ← ({ self with net } : Harness R).act settings action
      return mid.record line) (Alone m node line self) := by
  refine Ensures.bind (Q := fun mid => mid.cluster.world.nodes = Function.update self.cluster.world.nodes m { node with out := [] } ∧
    mid.sim.clock.now = self.sim.clock.now ∧
    ∃ lines, mid.trace = self.trace ++ lines ∧ ∀ x ∈ lines, x.1 = self.sim.clock.now ∧ x.2.Aside) ?_ ?_
  · unfold Harness.act
    refine Ensures.bind (Ensures.raising (Cluster.act_world settings.network self.cluster action)) fun c hc => ?_
    refine (Heard.follow { self with net } c).mono fun after hh => ?_
    rw [World.step_eq, hop] at hc
    simp only [World.perform, hp] at hc
    have hworld := Except.ok.inj hc
    obtain ⟨lines, ht, hl, -⟩ := hh.trace
    refine ⟨by rw [hh.cluster, ← hworld], hh.now, lines, ht, fun x hx => ?_⟩
    obtain ⟨hstamp, haside | ⟨k, event, -, hk⟩⟩ := hl x hx
    · exact ⟨hstamp, haside⟩
    · rw [← hworld, List.drop_left] at hk
      obtain ⟨e, he, hpair⟩ := List.mem_map.1 hk
      rw [(Prod.mk.inj hpair).2] at he
      exact absurd he (hcalls event)
  · rintro mid ⟨hnodes, hnow, lines, ht, hl⟩
    refine Ensures.pure ⟨hnodes, hnow, lines ++ [(mid.sim.clock.now, line)], ?_, fun x hx => ?_, fun n last => ?_⟩
    · rw [← List.append_assoc, ← ht]
      rfl
    · rcases List.mem_append.1 hx with hx | hx
      · exact ⟨(hl x hx).1, fun n last => Line.told_of_aside (hl x hx).2⟩
      · rw [List.mem_singleton.1 hx]
        exact ⟨hnow, fun n last => hline n _ last⟩
    · rw [List.foldl_append, foldl_eq_self fun x hx => Line.up_of_ordinary (hl x hx).2.ordinary, hnow]
      rfl

/-- From the one moment to the other node `n` did nothing but crash: it may be down now, and a follower, which the crash that is recorded
tells, but no `role` event. -/
structure Falls (n : NodeId) (before after : Harness R) : Prop where
  silent : after.cluster.world.Silent
  now : after.sim.clock.now = before.sim.clock.now
  term : (after.cluster.world.nodes n).term = (before.cluster.world.nodes n).term
  role : ((after.cluster.world.nodes n).role = (before.cluster.world.nodes n).role ∧
      (after.cluster.world.nodes n).alive = (before.cluster.world.nodes n).alive) ∨
    ((before.cluster.world.nodes n).alive = true ∧ (after.cluster.world.nodes n).alive = false ∧
      (after.cluster.world.nodes n).role = .follower)
  trace : ∃ lines, after.trace = before.trace ++ lines ∧
    (∀ x ∈ lines, x.1 = before.sim.clock.now ∧ ∀ last, Line.told n last x = last) ∧
    lines.foldl (Line.up n) (before.cluster.world.nodes n).alive = (after.cluster.world.nodes n).alive

namespace Falls

/-- One part of an event after the other. -/
theorem trans (h : Falls n before mid) (h' : Falls n mid after) : Falls n before after := by
  obtain ⟨lines, ht, hl, hup⟩ := h.trace
  obtain ⟨lines', ht', hl', hup'⟩ := h'.trace
  refine ⟨h'.silent, h'.now.trans h.now, h'.term.trans h.term, ?_, lines ++ lines', by rw [ht', ht, List.append_assoc], fun x hx => ?_,
    by rw [List.foldl_append, hup, hup']⟩
  · rcases h.role with ⟨hr, ha⟩ | ⟨hup, hdown, hr⟩
    · rw [← hr, ← ha]
      exact h'.role
    · rcases h'.role with ⟨hr', ha'⟩ | ⟨hup', -, -⟩
      · exact Or.inr ⟨hup, ha'.trans hdown, hr'.trans hr⟩
      · rw [hdown] at hup'
        cases hup'
  · rcases List.mem_append.1 hx with hx | hx
    · exact hl x hx
    · exact ⟨(hl' x hx).1.trans h.now, (hl' x hx).2⟩

/-- What leaves the nodes alone. -/
theorem of_apart (hs : self.cluster.world.Silent) (h : Apart self after) : Falls n self after := by
  obtain ⟨lines, ht, hl⟩ := h.trace
  refine ⟨by rw [h.cluster]; exact hs, h.now, by rw [h.cluster], Or.inl (by rw [h.cluster]; exact ⟨rfl, rfl⟩), lines, ht,
    fun x hx => ⟨(hl x hx).1, fun last => Line.told_of_aside (hl x hx).2⟩, ?_⟩
  rw [h.cluster]
  exact foldl_eq_self fun x hx => Line.up_of_ordinary (hl x hx).2.ordinary

/-- A crash of another node, or of this one while it is alive. -/
theorem pause (hs : self.cluster.world.Silent) {m : NodeId} (ha : (self.cluster.world.nodes m).alive = true) :
    Ensures (self.pause settings m) (Falls n self) := by
  have hout : (self.cluster.world.nodes m).pause.out = [] := by
    rw [pause_fields]
    exact hs m
  have halone : Ensures (self.pause settings m) (Alone m (self.cluster.world.nodes m).pause (.crash m) self) :=
    Alone.act self { self.net with crashed := insert m self.net.crashed } rfl rfl (by simp [hout]) fun _ _ _ => rfl
  refine Ensures.mono halone fun after h => ?_
  obtain ⟨lines, ht, hl, hup⟩ := h.trace
  have hup := hup n (self.cluster.world.nodes n).alive
  by_cases hn : m = n
  · subst hn
    have hnode : after.cluster.world.nodes m = { (self.cluster.world.nodes m).pause with out := [] } := by
      rw [h.nodes, Function.update_self]
    rw [pause_fields] at hnode
    have hdown : (after.cluster.world.nodes m).alive = false := by rw [hnode]
    refine ⟨World.silent_update hs h.nodes rfl, h.now, by rw [hnode], Or.inr ⟨ha, hdown, by rw [hnode]⟩, lines, ht,
      fun x hx => ⟨(hl x hx).1, (hl x hx).2 m⟩, ?_⟩
    rw [hup, hdown]
    exact if_pos rfl
  · have hnode : after.cluster.world.nodes n = self.cluster.world.nodes n := by
      rw [h.nodes, Function.update_of_ne (Ne.symm hn)]
    refine ⟨World.silent_update hs h.nodes rfl, h.now, by rw [hnode], Or.inl (by rw [hnode]; exact ⟨rfl, rfl⟩), lines, ht,
      fun x hx => ⟨(hl x hx).1, (hl x hx).2 n⟩, ?_⟩
    rw [hup, hnode]
    exact if_neg hn

/-- What crashes only nodes that are alive. -/
theorem drive (n : NodeId) : Drive settings (fun _ => True) fun before after : Harness R =>
    before.cluster.world.Silent → Falls n before after where
  trans h h' hs := (h hs).trans (h' (h hs).silent)
  aside hc hcl ht hs := of_apart hs
    ⟨hcl, by rw [hc], [], by rw [ht, List.append_nil], fun _ hm => absurd hm List.not_mem_nil⟩
  schedule self delay fn := (Apart.schedule self delay fn).mono fun _ h hs => of_apart hs h
  record self line hl hs := of_apart hs (Apart.talk.record self line hl)
  pause self m _ ha := Ensures.given fun hs => pause hs ha

end Falls

/-! ## Restarts -/

/-- From the one moment to the other node `n` did nothing but come back, as what it was, and as the restart that is recorded tells. -/
structure Rises (n : NodeId) (before after : Harness R) : Prop where
  silent : after.cluster.world.Silent
  now : after.sim.clock.now = before.sim.clock.now
  post : after.cluster.world.post n = before.cluster.world.post n
  trace : ∃ lines, after.trace = before.trace ++ lines ∧
    (∀ x ∈ lines, x.1 = before.sim.clock.now ∧ ∀ last, Line.told n last x = last) ∧
    lines.foldl (Line.up n) (before.cluster.world.nodes n).alive = (after.cluster.world.nodes n).alive

/-- A node comes back, or is not down. -/
theorem Rises.maybeResume (hs : self.cluster.world.Silent) (m : NodeId) : Ensures (self.maybeResume settings m) (Rises n self) := by
  unfold Harness.maybeResume
  split
  · have hout : ∀ event, Effect.record event ∉ (self.cluster.world.nodes m).resume.out := by
      intro event he
      have he : Effect.record event ∈ (self.cluster.world.nodes m).out ++
        [.schedule .election ((self.cluster.world.nodes m).timerSeq + 1)] := he
      rw [hs m] at he
      exact nomatch List.mem_singleton.1 he
    have halone : Ensures (self.resume settings m) (Alone m (self.cluster.world.nodes m).resume (.resume m) self) :=
      Alone.act self { self.net with crashed := self.net.crashed.erase m } rfl rfl hout fun _ _ _ => rfl
    refine Ensures.mono halone fun after h => ?_
    obtain ⟨lines, ht, hl, hup⟩ := h.trace
    refine ⟨World.silent_update hs h.nodes rfl, h.now, ?_, lines, ht, fun x hx => ⟨(hl x hx).1, (hl x hx).2 n⟩, ?_⟩
    · rw [World.post, h.nodes]
      by_cases hn : m = n
      · rw [hn, Function.update_self]
        rfl
      · rw [Function.update_of_ne (Ne.symm hn)]
        rfl
    · rw [hup, h.nodes]
      by_cases hn : m = n
      · rw [hn, Function.update_self]
        exact if_pos rfl
      · rw [Function.update_of_ne (Ne.symm hn)]
        exact if_neg hn
  · exact Ensures.pure ⟨hs, rfl, rfl, [], (List.append_nil _).symm, fun _ hm => absurd hm List.not_mem_nil, rfl⟩

/-! ## Events -/

/-- From the one moment to the next the trace tells of node `n` what it is, unless it has crashed: then it tells its role before. -/
structure Recounts (n : NodeId) (before after : Harness R) : Prop where
  silent : after.cluster.world.Silent
  now_le : before.sim.clock.now ≤ after.sim.clock.now
  term_le : (before.cluster.world.nodes n).term ≤ (after.cluster.world.nodes n).term
  trace : ∃ lines, after.trace = before.trace ++ lines ∧ (∀ x ∈ lines, x.1 = after.sim.clock.now) ∧
    lines.foldl (Line.up n) (before.cluster.world.nodes n).alive = (after.cluster.world.nodes n).alive ∧
    (lines.foldl (Line.told n) (before.cluster.world.post n) = after.cluster.world.post n ∨
      lines.foldl (Line.told n) (before.cluster.world.post n) = before.cluster.world.post n ∧
        (after.cluster.world.nodes n).term = (before.cluster.world.nodes n).term ∧
        (before.cluster.world.nodes n).alive = true ∧ (after.cluster.world.nodes n).alive = false ∧
        (after.cluster.world.nodes n).role = .follower)

namespace Recounts

/-- The event is taken, and then it happens. -/
theorem of_due {fn : Callback} (hd : Due fn before mid) (h : Recounts n mid after) : Recounts n before after := by
  have hle : before.sim.clock.now ≤ mid.sim.clock.now :=
    Clock.timely_pending (by rw [← Harness.pending, hd.pending]; exact List.mem_cons_self)
  refine ⟨h.silent, hle.trans h.now_le, ?_, ?_⟩
  · rw [← hd.world]
    exact h.term_le
  · rw [← hd.world, ← hd.trace]
    exact h.trace

/-- An event that tells. -/
theorem of_told (h : Told n before after) : Recounts n before after := by
  obtain ⟨lines, ht, hl, htold⟩ := h.trace
  refine ⟨h.silent, h.now.ge, h.term_le, lines, ht, fun x hx => (hl x hx).1.trans h.now.symm, ?_, Or.inl htold⟩
  rw [h.alive]
  exact foldl_eq_self fun x hx => Line.up_of_ordinary (hl x hx).2

/-- An event in which the node may crash. -/
theorem of_falls (h : Falls n before after) : Recounts n before after := by
  obtain ⟨lines, ht, hl, hup⟩ := h.trace
  have htold : lines.foldl (Line.told n) (before.cluster.world.post n) = before.cluster.world.post n :=
    foldl_eq_self fun x hx => (hl x hx).2 _
  refine ⟨h.silent, h.now.ge, h.term.ge, lines, ht, fun x hx => (hl x hx).1.trans h.now.symm, hup, ?_⟩
  rcases h.role with ⟨hrole, -⟩ | ⟨halive, hdown, hrole⟩
  · exact Or.inl (htold.trans (Prod.ext hrole.symm h.term.symm))
  · exact Or.inr ⟨htold, h.term, halive, hdown, hrole⟩

/-- An event in which the node may come back. -/
theorem of_rises (h : Rises n before after) : Recounts n before after := by
  obtain ⟨lines, ht, hl, hup⟩ := h.trace
  have htold : lines.foldl (Line.told n) (before.cluster.world.post n) = before.cluster.world.post n :=
    foldl_eq_self fun x hx => (hl x hx).2 _
  exact ⟨h.silent, h.now.ge, (congrArg Prod.snd h.post).ge, lines, ht, fun x hx => (hl x hx).1.trans h.now.symm, hup,
    Or.inl (htold.trans h.post.symm)⟩

/-- One event. -/
theorem step (hs : before.cluster.world.Silent) (h : before.step settings = .ok (true, after)) (n : NodeId) : Recounts n before after := by
  obtain ⟨fn, mid, hd, hcall⟩ := due_of_step h
  have hmid : mid.cluster.world.Silent := by
    rw [hd.world]
    exact hs
  refine of_due hd ?_
  by_cases hplain : fn.Plain
  · by_cases hc : fn = .clientTick
    · subst hc
      exact of_told (Told.clientTick hmid _ hcall)
    · exact of_told ((Told.work n).call mid hplain hc _ hcall hmid)
  · by_cases hr : ∃ m, fn = .maybeResume m
    · obtain ⟨m, rfl⟩ := hr
      exact of_rises (Rises.maybeResume hmid m _ hcall)
    · push Not at hr
      exact of_falls ((Falls.drive n).call mid hplain hr (fun _ _ => trivial) (fun _ _ _ _ _ _ => trivial) _ hcall hmid)

end Recounts

/-- The start of a cluster is no crash and no restart. -/
theorem Told.init (n : NodeId) (seed : R.State) : Ensures (init settings seed)
    (Told n ({ cluster := { world := { settings.world with trace := [] } }, sim := .new seed } : Harness R)) := by
  have hsilent : settings.world.Silent := fun _ => rfl
  have hcalls : ∀ m last, settings.world.trace.foldl (World.told m) last = last := by
    intro m last
    refine foldl_eq_self fun call hc => ?_
    obtain ⟨k, -, hk⟩ := List.mem_flatMap.1 hc
    obtain ⟨e, he, rfl⟩ := List.mem_map.1 hk
    rw [List.mem_singleton.1 he]
    unfold World.told
    split <;> rfl
  have htells : ({ settings.world with trace := [] } : World).Tells settings.world :=
    ⟨hsilent, fun _ => rfl, fun _ => le_rfl, settings.world.trace, (List.nil_append _).symm, fun m => hcalls m _⟩
  exact init_ensures (fun _ _ ha h => h.trans (of_apart h.silent ha)) seed (Told.follow _ n htells)

end Harness

end DeterministicRaft
