import DeterministicRaft.Feasible
import DeterministicRaft.MidStep
import DeterministicRaft.Polls
import DeterministicRaft.Theorems.Safety

/-!
# What no defect breaks

The defects that can be injected touch what is committed, what is accepted and what is read, but not how votes are stored and counted.
As long as no configuration changes, a term has one leader whatever the defects of the nodes, and the checker never finds two.
-/

namespace DeterministicRaft

open Consensus RaftNode Refinement

variable {V : List NodeId} {w after : World} {v n m : NodeId} {t : Int} {c : NodeId}

/-! ## Ballots of a world -/

/-- The action submits and proposes no configuration. -/
def Action.Fixed : Action → Prop
  | .changeConfig _ _ => False
  | .clientCommand _ command => decodeConfig command = none
  | _ => True

/-- The node has told that its vote in the term is for the candidate. -/
def World.Balloted (w : World) (v : NodeId) (t : Int) (c : NodeId) : Prop := ∃ e, (v, e) ∈ w.trace ∧ e.ballot v = some (t, c)

/-- A majority of the voters has voted for the candidate in the term. -/
def World.Won (w : World) (V : List NodeId) (t : Int) (c : NodeId) : Prop := Majority V {v | w.Balloted v t c}

/-- All nodes have the same voters, remember what they have told of their votes, have voted once in a term, and count only votes that
were given; and who leads has a majority of them. -/
structure World.Polled (V : List NodeId) (w : World) : Prop where
  adopts : w.Adopts (· = V)
  ids : ∀ n, (w.nodes n).id = n
  selfVoted : ∀ n, SelfVoted (w.nodes n)
  backed : ∀ n t c, w.Balloted n t c → Backs (w.nodes n) t c
  single : ∀ n t c c', w.Balloted n t c → w.Balloted n t c' → c = c'
  voter : ∀ n dst msg, (n, Effect.send dst (.voteReply msg)) ∈ w.trace → msg.voter = n
  polled : ∀ n, (w.nodes n).role ≠ .follower → ∀ v ∈ (w.nodes n).votes, w.Balloted v (w.nodes n).term n
  outvotes : ∀ n, (w.nodes n).role = .leader → Outvotes (w.nodes n)

/-- What was told stays told. -/
theorem World.Balloted.mono (h : w.Balloted v t c) (hs : w.trace ⊆ after.trace) : after.Balloted v t c := by
  obtain ⟨e, he, hb⟩ := h
  exact ⟨e, hs he, hb⟩

/-- An election that was won stays so. -/
theorem World.Won.mono (h : w.Won V t c) (hs : w.trace ⊆ after.trace) : after.Won V t c :=
  Majority.mono h fun _ hv => hv.mono hs

namespace World.Polled

/-- Who leads a term has won it. -/
theorem won (h : w.Polled V) (hr : (w.nodes n).role = .leader) : w.Won V (w.nodes n).term n := by
  have hout := h.outvotes n hr
  rw [Outvotes, (h.adopts.nodes n).current] at hout
  refine (majority_of_card hout).mono fun v hv => h.polled n ?_ v hv
  rw [hr]
  decide

/-- A term is won by one candidate. -/
theorem won_unique (h : w.Polled V) (hn : w.Won V t n) (hm : w.Won V t m) : n = m := by
  obtain ⟨v, hv, hv'⟩ := Majority.overlap hn hm
  exact h.single v t n m hv hv'

/-- At the launch nobody has voted. -/
theorem launch (ids initialVoters : List NodeId) (peers : NodeId → List NodeId) (config : NodeId → RaftConfig) (bugs : NodeId → Bugs) :
    (World.launch ids initialVoters peers config bugs).Polled (initialVoters.insertionSort (· ≤ ·)) := by
  have hsched : ∀ call ∈ (World.launch ids initialVoters peers config bugs).trace, ∃ kind seq, call.2 = .schedule kind seq := by
    intro call hc
    obtain ⟨n, -, hc⟩ := List.mem_flatMap.1 hc
    obtain ⟨e, he, rfl⟩ := List.mem_map.1 hc
    rw [List.mem_singleton.1 he]
    exact ⟨_, _, rfl⟩
  have hnone : ∀ n t c, ¬(World.launch ids initialVoters peers config bugs).Balloted n t c := by
    rintro n t c ⟨e, he, hb⟩
    obtain ⟨kind, seq, heq⟩ := hsched _ he
    simp only at heq
    rw [heq] at hb
    cases hb
  refine ⟨.launch _ _ _ _ _ rfl, fun _ => rfl, fun n hr => absurd rfl hr, fun n t c h => absurd h (hnone n t c),
    fun n t c _ h => absurd h (hnone n t c), fun n dst msg h => ?_, fun n hr => absurd rfl hr, fun n hr => ?_⟩
  · obtain ⟨kind, seq, heq⟩ := hsched _ h
    cases heq
  · cases hr

/-- What is told of a vote after an operation was told before, or the operation tells it. -/
theorem balloted_cases {nodes : NodeId → RaftNode} {es : List Effect}
    (h : World.Balloted { nodes, trace := w.trace ++ es.map fun e => (n, e) } m t c) :
    w.Balloted m t c ∨ m = n ∧ ∃ e ∈ es, e.ballot n = some (t, c) := by
  obtain ⟨e, he, hb⟩ := h
  rcases List.mem_append.1 he with he | he
  · exact Or.inl ⟨e, he, hb⟩
  · obtain ⟨x, hx, heq⟩ := List.mem_map.1 he
    cases heq
    exact Or.inr ⟨rfl, e, hx, hb⟩

/-- What a node that stands or leads after an operation has counted was told, and is a majority if it leads. -/
theorem counts (h : w.Polled V) {op : NodeOp} {act : Action} {self : RaftNode} (hop : w.operation act = some (n, op))
    (hp : (w.nodes n).perform op = .ok self) (hvoters : self.voters = V) (nodes : NodeId → RaftNode) :
    (self.role ≠ .follower → ∀ v ∈ self.votes,
      World.Balloted { nodes, trace := w.trace ++ self.out.map fun e => (n, e) } v self.term n) ∧
    (self.role = .leader → Outvotes self) := by
  have hcurrent := (h.adopts.nodes n).current
  have hsub := List.subset_append_left w.trace (self.out.map fun e => (n, e))
  rcases Polls.perform (w.nodes n) op self hp with (hf | ⟨hrole, hterm, hvotes⟩) | ⟨hwins, hpoll⟩
  · exact ⟨fun hr => absurd hf hr, fun hl => by rw [hf] at hl; cases hl⟩
  · refine ⟨fun hr v hv => ?_, fun hl => ?_⟩
    · rw [hrole] at hr
      rw [hvotes] at hv
      rw [hterm]
      exact (h.polled n hr v hv).mono hsub
    · rw [hrole] at hl
      rw [Outvotes, hvotes, hvoters, ← hcurrent]
      exact h.outvotes n hl
  · refine ⟨fun hr v hv => ?_, hwins⟩
    rcases hpoll with hstands | ⟨msg, rfl, hcounts⟩
    · rw [hstands.votes, Finset.mem_singleton] at hv
      rw [hv, h.ids n]
      exact ⟨_, List.mem_append_right _ (List.mem_map.2 ⟨_, hstands.told, rfl⟩), rfl⟩
    · rw [hcounts.votes, Finset.mem_insert] at hv
      rw [hcounts.term]
      rcases hv with rfl | hv
      · rcases World.operation_cases hop with ⟨src, sent, hsrc, heq⟩ | ⟨kind, seq, -, heq⟩ | ⟨_, -, heq⟩ | ⟨_, -, heq⟩ | ⟨_, -, heq⟩ |
          ⟨-, heq⟩ | ⟨-, heq⟩
        · cases heq
          rw [h.voter src n msg hsrc]
          refine ⟨_, hsub hsrc, ?_⟩
          rw [Effect.ballot, if_pos hcounts.granted, hcounts.current]
        · cases kind <;> cases heq
        all_goals cases heq
      · refine (h.polled n ?_ v hv).mono hsub
        rw [hcounts.role]
        decide

/-- A step tells no second vote in a term, and counts none that was not told. -/
theorem step (h : w.Polled V) {act : Action} (ha : act.Fixed) (hstep : w.step act = .ok after) : after.Polled V := by
  have hproposes : Proposes (· = V) w act := by
    cases act with
    | changeConfig n newVoters => exact ha.elim
    | clientCommand n command =>
      intro _ _ voters hv
      rw [show decodeConfig command = none from ha] at hv
      cases hv
    | _ => trivial
  have hadopts := World.Adopts.step w act after hproposes hstep h.adopts
  rcases World.step_cases hstep with rfl | ⟨n, op, self, hop, hp, rfl⟩
  · exact h
  have hm := h.adopts.moved hproposes hop hp
  have hid := hm.fixed.1.trans (h.ids n)
  have hnode := (hadopts.nodes n).current
  simp only [Function.update_self] at hnode
  obtain ⟨es, hout, hback, hsingle⟩ := hm.ballots (h.selfVoted n)
  obtain ⟨es', hout', hvoter⟩ := hm.voters
  rw [h.adopts.idle n, List.nil_append] at hout hout'
  rw [← hout, h.ids n] at hback hsingle
  rw [← hout', h.ids n] at hvoter
  have hcounts := h.counts hop hp hnode (Function.update w.nodes n { self with out := [] })
  refine ⟨hadopts, World.step_ids hstep h.ids, fun m => ?_, fun m t c hb => ?_, fun m t c c' hb hb' => ?_, fun m dst msg hmem => ?_,
    fun m hr v hv => ?_, fun m hr => ?_⟩
  · by_cases hmn : m = n
    · subst hmn
      simp only [Function.update_self]
      have hself := (h.selfVoted m).moved hm
      exact hself
    · simp only [Function.update_of_ne hmn]
      exact h.selfVoted m
  · by_cases hmn : m = n
    · subst hmn
      simp only [Function.update_self]
      rcases balloted_cases hb with hb | ⟨-, e, he, hb⟩
      · have hself := (h.backed m t c hb).moved hm
        exact hself
      · exact (hback e he t c hb).1
    · simp only [Function.update_of_ne hmn]
      rcases balloted_cases hb with hb | ⟨heq, -⟩
      · exact h.backed m t c hb
      · exact absurd heq hmn
  · rcases balloted_cases hb with hold | ⟨rfl, e, he, hnew⟩
    · rcases balloted_cases hb' with hold' | ⟨rfl, e, he, hnew'⟩
      · exact h.single m t c c' hold hold'
      · exact (hback e he t c' hnew').2 c (h.backed m t c hold)
    · rcases balloted_cases hb' with hold' | ⟨-, e', he', hnew'⟩
      · exact ((hback e he t c hnew).2 c' (h.backed m t c' hold')).symm
      · exact hsingle e he e' he' t c c' hnew hnew'
  · rcases List.mem_append.1 hmem with hmem | hmem
    · exact h.voter m dst msg hmem
    · obtain ⟨e, he, heq⟩ := List.mem_map.1 hmem
      cases heq
      exact hvoter dst msg he
  · by_cases hmn : m = n
    · subst hmn
      simp only [Function.update_self] at hr hv ⊢
      exact hcounts.1 hr v hv
    · simp only [Function.update_of_ne hmn] at hr hv ⊢
      exact (h.polled m hr v hv).mono (List.subset_append_left _ _)
  · by_cases hmn : m = n
    · subst hmn
      simp only [Function.update_self] at hr ⊢
      exact hcounts.2 hr
    · simp only [Function.update_of_ne hmn] at hr ⊢
      exact h.outvotes m hr

end World.Polled

/-! ## The checker -/

/-- The error is not that a term has two leaders. -/
def CheckError.Elsewhere : CheckError → Prop
  | .violation v => v.detail.invariant ≠ "ElectionSafety"
  | .raised _ => True

namespace InvariantChecker

variable {α : Type} {self : InvariantChecker} {nodes : ClusterView} {step : Int}

/-- A part of a check that finds no two leaders of a term, and writes down none. -/
def Abstains (before : InvariantChecker) (x : Except CheckError InvariantChecker) : Prop :=
  Yields x (fun checker => checker.leadersByTerm = before.leadersByTerm) CheckError.Elsewhere

/-- A read yields what is read, or an error of the read. -/
theorem yields_reading (x : Except PyError α) : Yields (reading x) (fun a => x = .ok a) CheckError.Elsewhere := by
  cases x with
  | ok a => exact Yields.pure rfl
  | error e => exact Yields.error trivial

namespace Abstains

/-- A check that notes no leader. -/
theorem ok {checker : InvariantChecker} (h : checker.leadersByTerm = self.leadersByTerm) : self.Abstains (.ok checker) := Yields.pure h

/-- A check that fails for another reason. -/
theorem fail {checker : InvariantChecker} {detail : Violation} (h : detail.invariant ≠ "ElectionSafety") :
    self.Abstains (checker.fail step detail) := Yields.error h

/-- One check after the other. -/
theorem bind {x : Except CheckError InvariantChecker} {f : InvariantChecker → Except CheckError InvariantChecker} (h : self.Abstains x)
    (hf : ∀ checker : InvariantChecker, checker.Abstains (f checker)) : self.Abstains (x >>= f) :=
  Yields.bind h fun checker hc => (hf checker).mono fun _ ha => ha.trans hc

/-- A reading of a log. -/
theorem reading {x : Except PyError α} {f : α → Except CheckError InvariantChecker} (hf : ∀ a, self.Abstains (f a)) :
    self.Abstains (InvariantChecker.reading x >>= f) :=
  Yields.bind (yields_reading x) fun a _ => hf a

/-- Many checks. -/
theorem foldlM {f : InvariantChecker → α → Except CheckError InvariantChecker}
    (hf : ∀ (checker : InvariantChecker) i, checker.Abstains (f checker i)) (l : List α) (self : InvariantChecker) :
    self.Abstains (l.foldlM f self) :=
  Yields.foldlM (fun i _ checker hc => (hf checker i).mono fun _ ha => ha.trans hc) rfl

/-- Leader Append-Only is another check. -/
theorem checkLeaderAppendOnly (self : InvariantChecker) : self.Abstains (self.checkLeaderAppendOnly nodes step) := by
  refine foldlM (fun checker i => ?_) _ self
  unfold InvariantChecker.checkAppendOnly
  simp only
  split
  · exact ok rfl
  split
  · exact ok rfl
  split
  · exact ok rfl
  split
  · exact ok rfl
  · unfold InvariantChecker.compareLeader
    refine reading fun changed => ?_
    split
    · exact fail (by simp [Violation.invariant])
    · exact ok rfl

/-- Log Matching is another check. -/
theorem checkLogMatching (self : InvariantChecker) : self.Abstains (self.checkLogMatching nodes step) := by
  refine foldlM (fun checker i => ?_) _ self
  unfold InvariantChecker.checkPair
  simp only
  split
  · exact ok rfl
  · unfold InvariantChecker.comparePair
    refine reading fun found => ?_
    split
    · exact fail (by simp [Violation.invariant])
    · exact ok rfl

/-- Observing commits is another check. -/
theorem observeCommits (self : InvariantChecker) : self.Abstains (self.observeCommits nodes step) := by
  refine foldlM (fun checker i => ?_) _ self
  unfold InvariantChecker.observeNode
  simp only
  split
  · exact fail (by simp [Violation.invariant])
  · refine bind (foldlM (fun checker idx => ?_) _ checker) fun checker => ok rfl
    unfold InvariantChecker.observeCommit
    refine reading fun entry => bind ?_ fun checker => ?_
    · unfold InvariantChecker.recordCommit
      split
      · exact ok rfl
      · split
        · exact fail (by simp [Violation.invariant])
        · exact ok rfl
    · unfold InvariantChecker.checkQuorum
      split
      · refine reading fun holders => ?_
        split
        · exact fail (by simp [Violation.invariant])
        · exact ok rfl
      · exact ok rfl

/-- Leader Completeness is another check. -/
theorem checkLeaderCompleteness (self : InvariantChecker) : self.Abstains (self.checkLeaderCompleteness nodes step) := by
  refine foldlM (fun checker i => ?_) _ self
  unfold InvariantChecker.checkCompleteness
  simp only
  split
  · exact ok rfl
  split
  · exact ok rfl
  · unfold InvariantChecker.scanLeader
    refine reading fun found => ?_
    split
    · exact fail (by simp [Violation.invariant])
    · exact ok rfl

/-- State Machine Safety is another check. -/
theorem checkStateMachineSafety (self : InvariantChecker) : self.Abstains (self.checkStateMachineSafety nodes step) := by
  refine foldlM (fun checker i => ?_) _ self
  unfold InvariantChecker.checkApplied
  simp only
  refine bind (foldlM (fun checker logical => ?_) _ checker) fun checker => ok rfl
  unfold InvariantChecker.observeApplied
  refine reading fun cmd => ?_
  split
  · exact ok rfl
  · split
    · exact fail (by simp [Violation.invariant])
    · exact ok rfl

end Abstains

/-- The leaders of terms that the checker has written down are as `P` says. -/
def Knows (checker : InvariantChecker) (P : Int → NodeId → Prop) : Prop :=
  ∀ t n, checker.leadersByTerm.lookup t = some n → P t n

/-- If whoever leads a term is as `P` says, and only one node of a term is, then the check finds no two leaders. -/
theorem check_elections {P : Int → NodeId → Prop} (hone : ∀ t n m, P t n → P t m → n = m)
    (hled : ∀ i, (nodes.node i).role = .leader → P (nodes.node i).term (nodes.node i).id) (hknown : self.Knows P) (count : Bool) :
    Yields (self.check nodes step count) (fun after => after.Knows P) CheckError.Elsewhere := by
  have hturn : ∀ (checker : InvariantChecker) (i : NodeId), checker.Knows P →
      Returns (checkLeader nodes step checker i) fun after => after.Knows P := by
    intro checker i hc
    unfold InvariantChecker.checkLeader
    simp only
    split
    · rename_i hl
      split
      · refine Returns.pure fun t n hn => ?_
        by_cases ht : t = (nodes.node i).term
        · subst ht
          rw [Finmap.lookup_insert] at hn
          cases hn
          exact hled i hl
        · rw [Finmap.lookup_insert_of_ne _ ht] at hn
          exact hc t n hn
      · rename_i prev hprev
        rw [if_neg (not_not.2 (hone _ _ _ (hc _ _ hprev) (hled i hl)))]
        exact Returns.pure hc
    · exact Returns.pure hc
  have hrebased : ∀ (ids : List NodeId) (checker : InvariantChecker),
      (ids.foldl (handleRestart nodes) checker).leadersByTerm = checker.leadersByTerm := by
    intro ids
    induction ids with
    | nil => exact fun _ => rfl
    | cons i ids ih =>
      intro checker
      rw [List.foldl_cons, ih]
      unfold InvariantChecker.handleRestart
      simp only
      split <;> rfl
  have hrest : ∀ checker : InvariantChecker, checker.Abstains (do
      let self ← checker.checkLeaderAppendOnly nodes step
      let self ← self.checkLogMatching nodes step
      let self ← self.observeCommits nodes step
      let self ← self.checkLeaderCompleteness nodes step
      self.checkStateMachineSafety nodes step) := fun checker =>
    Abstains.bind (.checkLeaderAppendOnly checker) fun checker => Abstains.bind (.checkLogMatching checker) fun checker =>
      Abstains.bind (.observeCommits checker) fun checker => Abstains.bind (.checkLeaderCompleteness checker) fun checker =>
        .checkStateMachineSafety checker
  unfold InvariantChecker.check InvariantChecker.checkElectionSafety
  simp only
  generalize hself : InvariantChecker.handleRestarts nodes _ = rebased
  have hknown : rebased.Knows P := by
    rw [← hself, Knows, InvariantChecker.handleRestarts, hrebased]
    split <;> exact hknown
  obtain ⟨checker, hc, hk⟩ := Returns.foldlM (Q := fun checker => checker.Knows P) (l := nodes.ids) (fun i _ b hb => hturn b i hb) hknown
  rw [hc]
  refine (hrest checker).mono fun after ha => ?_
  rw [Knows, ha]
  exact hk

end InvariantChecker

/-! ## The cluster under its checker -/

/-- What the checker sees of a node in the middle of an operation has the role and the term that the node has after it. -/
theorem perform_seen (self : RaftNode) (op : NodeOp) : Ensures (self.perform op) fun after => ∃ es, after.out = self.out ++ es ∧
    ∀ v, .beforeCompact v ∈ es → v.id = after.id ∧ v.role = after.role ∧ v.term = after.term := by
  refine (perform_looks (I := .any) op (op.admissible_any self)).mono ?_
  rintro after (⟨es, hout, hes⟩ | ⟨low, index, entries, hlooks⟩)
  · exact ⟨es, hout, fun v hv => absurd hv (hes v)⟩
  · obtain ⟨es, es', hout, hes, hes'⟩ := hlooks.calls
    obtain ⟨t, vs, nx, mt, ct, es'', rfl, -⟩ := hlooks.compacts
    refine ⟨es ++ .beforeCompact (low.committed index entries).view :: es', by rw [hout, List.append_assoc], fun v hv => ?_⟩
    rcases List.mem_append.1 hv with hv | hv
    · exact absurd hv (hes v)
    · rcases List.mem_cons.1 hv with hv | hv
      · cases hv
        exact ⟨rfl, rfl, rfl⟩
      · exact absurd hv (hes' v)

/-- The same of a step of the world. -/
theorem World.Polled.seen (h : w.Polled V) {act : Action} (hstep : w.step act = .ok after) {v : NodeView}
    (hv : (n, Effect.beforeCompact v) ∈ after.trace.drop w.trace.length) :
    v.id = n ∧ v.role = (after.nodes n).role ∧ v.term = (after.nodes n).term := by
  have hids := World.step_ids hstep h.ids n
  rcases World.step_cases hstep with rfl | ⟨m, op, self, hop, hp, rfl⟩
  · rw [List.drop_length] at hv
    exact absurd hv List.not_mem_nil
  · obtain ⟨es, hout, hes⟩ := perform_seen (w.nodes m) op self hp
    rw [h.adopts.idle m, List.nil_append] at hout
    rw [List.drop_left] at hv
    obtain ⟨e, he, heq⟩ := List.mem_map.1 hv
    cases heq
    rw [hout] at he
    simp only [Function.update_self] at hids ⊢
    rw [← hids]
    exact hes v he

/-- The event changes no configuration. -/
def WatchedEvent.Fixed : WatchedEvent → Prop
  | .idle => True
  | .act action => action.Fixed
  | .propose _ => False

/-- The nodes have voted as they should, and the checker has written down only who has won a term. -/
structure Watched.Elects (V : List NodeId) (moment : Watched) : Prop where
  polled : moment.world.Polled V
  knows : moment.checker.Knows (moment.world.Won V)

namespace Watched.Elects

variable {net : Network} {self : Watched}

/-- Whoever leads has won its term. -/
theorem check (hw : w.Polled V) {checker : InvariantChecker} (hc : checker.Knows (w.Won V)) {nodes : ClusterView} (step : Int)
    (count : Bool) (hled : ∀ i, (nodes.node i).role = .leader → w.Won V (nodes.node i).term (nodes.node i).id) :
    Yields (checker.check nodes step count) (fun checker => checker.Knows (w.Won V)) CheckError.Elsewhere :=
  InvariantChecker.check_elections (P := w.Won V) (fun _ _ _ h h' => hw.won_unique h h') hled hc count

/-- An action under the checker. -/
theorem act (h : self.Elects V) {action : Action} (ha : action.Fixed) :
    Yields (self.act net action) (Watched.Elects V) CheckError.Elsewhere := by
  unfold Watched.act
  split
  · exact Yields.error trivial
  · refine Yields.bind (InvariantChecker.yields_reading (self.world.step action)) fun w hstep => ?_
    have hw := h.polled.step ha hstep
    have hsub : self.world.trace ⊆ w.trace := (World.step_trace hstep).subset
    have hknows : self.checker.Knows (w.Won V) := fun t n hn => (h.knows t n hn).mono hsub
    refine Yields.bind (Yields.foldlM (Q := fun checker => checker.Knows (w.Won V)) (fun call hcall checker hc => ?_) hknows)
      fun checker hc => Yields.pure ⟨hw, hc⟩
    obtain ⟨n, e⟩ := call
    unfold Watched.checkMidStep
    cases e with
    | beforeCompact v =>
      refine check hw hc _ _ fun i hi => ?_
      obtain ⟨hid, hrole, hterm⟩ := h.polled.seen hstep hcall
      by_cases hin : i = n
      · subst hin
        simp only [Function.update_self] at hi ⊢
        rw [hid, hterm]
        exact hw.won (hrole ▸ hi)
      · simp only [Function.update_of_ne hin] at hi ⊢
        have hwon := (h.polled.won (n := i) hi).mono hsub
        show w.Won V (self.world.nodes i).term (self.world.nodes i).id
        rw [h.polled.ids i]
        exact hwon
    | _ => exact Yields.pure hc

/-- An event and the check after it. -/
theorem step (h : self.Elects V) {event : WatchedEvent} (he : event.Fixed) :
    Yields (self.step net event) (Watched.Elects V) CheckError.Elsewhere := by
  unfold Watched.step
  have hcounted : ({ self with steps := self.steps + 1 } : Watched).Elects V := ⟨h.polled, h.knows⟩
  refine Yields.bind (Q := Watched.Elects V) ?_ fun after ha => ?_
  · cases event with
    | idle => exact Yields.pure hcounted
    | act action => exact hcounted.act he
    | propose proposals => exact he.elim
  · refine Yields.bind (check ha.polled ha.knows _ _ fun i hi => ?_) fun checker hc => Yields.pure ⟨ha.polled, hc⟩
    have hwon := ha.polled.won (n := i) hi
    show after.world.Won V (after.world.nodes i).term (after.world.nodes i).id
    rw [ha.polled.ids i]
    exact hwon

end Watched.Elects

/-! ## Runs -/

/-- What the nodes are after some events that change no configuration: the later ones have told all that the earlier ones had. -/
theorem World.Polled.happen (h : w.Polled V) {event : WatchedEvent} (he : event.Fixed) (hw : w.happen event = .ok after) :
    after.Polled V ∧ w.trace ⊆ after.trace := by
  cases event with
  | idle =>
    cases hw
    exact ⟨h, List.Subset.refl _⟩
  | act action => exact ⟨h.step he hw, (World.step_trace hw).subset⟩
  | propose proposals => exact he.elim

/-- Many events. -/
theorem World.Polled.events {events : List WatchedEvent} (h : w.Polled V) (he : ∀ event ∈ events, event.Fixed)
    (hw : events.foldlM World.happen w = .ok after) : after.Polled V ∧ w.trace ⊆ after.trace := by
  induction events generalizing w with
  | nil =>
    cases hw
    exact ⟨h, List.Subset.refl _⟩
  | cons event events ih =>
    rw [List.foldlM_cons] at hw
    obtain ⟨mid, hmid, hrest⟩ := bind_eq_ok.1 hw
    obtain ⟨hp, hsub⟩ := h.happen (he event List.mem_cons_self) hmid
    obtain ⟨hp', hsub'⟩ := ih hp (fun event hin => he event (List.mem_cons_of_mem _ hin)) hrest
    exact ⟨hp', fun _ hx => hsub' (hsub hx)⟩

/-- The later of two moments has all that was told at the earlier one. -/
theorem World.Polled.later {events : List WatchedEvent} {k l : ℕ} {mid : World} (h : w.Polled V) (he : ∀ event ∈ events, event.Fixed)
    (hkl : k ≤ l) (hk : (events.take k).foldlM World.happen w = .ok mid) (hl : (events.take l).foldlM World.happen w = .ok after) :
    mid.trace ⊆ after.trace := by
  have hsplit : events.take l = events.take k ++ (events.take l).drop k := by
    conv_lhs => rw [← List.take_append_drop k (events.take l), List.take_take, min_eq_left hkl]
  rw [hsplit, List.foldlM_append, hk] at hl
  have hmid := (h.events (fun event hin => he event (List.mem_of_mem_take hin)) hk).1
  exact (hmid.events (fun event hin => he event (List.mem_of_mem_take (List.mem_of_mem_drop hin))) hl).2

/-- Whatever the defects of the nodes, as long as no configuration changes: two nodes that lead the same term, at whatever moments, are
one, a majority of the voters has voted for it in the term, and each of them for nobody else. And the checker, after whatever events and
in the middle of them, reports no violation of Election Safety. -/
theorem elections_survive_defects (net : Network) (peers : NodeId → List NodeId) (config : NodeId → RaftConfig) (bugs : NodeId → Bugs)
    (seed : Int) (replayHint : String) (events : List WatchedEvent) (hfixed : ∀ event ∈ events, event.Fixed) :
    let start := World.launch net.ids net.initialVoters peers config bugs
    (∀ k w, (events.take k).foldlM World.happen start = .ok w → ∀ n, (w.nodes n).role = .leader →
      Majority (net.initialVoters.insertionSort (· ≤ ·))
        {v | w.Balloted v (w.nodes n).term n ∧ ∀ c, w.Balloted v (w.nodes n).term c → c = n} ∧
      ∀ l w', (events.take l).foldlM World.happen start = .ok w' → ∀ m, (w'.nodes m).role = .leader →
        (w'.nodes m).term = (w.nodes n).term → m = n) ∧
    Raises (events.foldlM (Watched.step net) { world := start, checker := { seed, replayHint } }) CheckError.Elsewhere := by
  intro start
  have hstart : start.Polled (net.initialVoters.insertionSort (· ≤ ·)) := .launch _ _ _ _ _
  refine ⟨fun k w hk n hn => ⟨?_, fun l w' hl m hm hterm => ?_⟩, ?_⟩
  · have hw := (hstart.events (fun event he => hfixed event (List.mem_of_mem_take he)) hk).1
    exact Majority.mono (hw.won hn) fun v hv => ⟨hv, fun c hc => hw.single v _ c n hc hv⟩
  · have hw := (hstart.events (fun event he => hfixed event (List.mem_of_mem_take he)) hk).1
    have hw' := (hstart.events (fun event he => hfixed event (List.mem_of_mem_take he)) hl).1
    have hwon := hw'.won hm
    rw [hterm] at hwon
    rcases le_total k l with hkl | hlk
    · exact hw'.won_unique hwon ((hw.won hn).mono (hstart.later hfixed hkl hk hl))
    · exact hw.won_unique (hwon.mono (hstart.later hfixed hlk hl hk)) (hw.won hn)
  · have hmoment : Watched.Elects (net.initialVoters.insertionSort (· ≤ ·))
        { world := start, checker := { seed, replayHint } } := ⟨hstart, fun t n hn => by cases hn⟩
    exact (Yields.foldlM (fun event he moment (hm : moment.Elects _) => hm.step (hfixed event he)) hmoment).2

/-- A node with all defects. -/
def allDefects : Bugs where
  dropCommitTermGuard := true
  voteForStaleCandidate := true
  skipLogConsistency := true
  allowCommitRegression := true
  staleLocalReads := true
  dropConfigCommitGuard := true

/-- Two servers with all defects, one of which is elected. -/
def defectivePair : World := World.launch [0, 1] [0, 1] (fun n => [0, 1].erase n) (fun _ => {}) fun _ => allDefects

/-- The node is elected; the deliveries are those of its request and of the vote. -/
def defectiveEvents : List WatchedEvent := [.act (.fire 0), .act (.deliver 6), .act (.deliver 11), .idle]

/-- Server 0 leads the first term, and server 1 never does. -/
theorem elections_survive_defects_pair :
    ((defectiveEvents.foldlM World.happen defectivePair).toOption.map fun w => ((w.nodes 0).role, (w.nodes 0).term)) = some (.leader, 1) ∧
    ∀ l w, (defectiveEvents.take l).foldlM World.happen defectivePair = .ok w → ∀ m, (w.nodes m).role = .leader → (w.nodes m).term = 1 →
      m = 0 := by
  have hrun : ((defectiveEvents.foldlM World.happen defectivePair).toOption.map fun w => ((w.nodes 0).role, (w.nodes 0).term)) =
      some (.leader, 1) := by decide +kernel
  refine ⟨hrun, fun l w hl m hm hterm => ?_⟩
  cases hw : defectiveEvents.foldlM World.happen defectivePair with
  | error e =>
    rw [hw] at hrun
    cases hrun
  | ok led =>
    rw [hw] at hrun
    obtain ⟨hrole, hone⟩ := Prod.mk.inj (Option.some.inj hrun)
    refine ((elections_survive_defects pair (fun n => [0, 1].erase n) (fun _ => {}) (fun _ => allDefects) 0 "" defectiveEvents ?_).1
      4 led hw 0 hrole).2 l w hl m hm (hterm.trans hone.symm)
    intro event he
    simp only [defectiveEvents, List.mem_cons, List.not_mem_nil, or_false] at he
    rcases he with rfl | rfl | rfl | rfl <;> trivial

end DeterministicRaft
