import DeterministicRaft.Operations.Message

/-!
# The cluster follows the protocol

`Simulates net a w` says that the world `w` stands for the protocol state `a`. Every action of a cluster keeps it, by steps of
the protocol, and does not raise. So every moment of a run has a protocol state, and between two moments the protocol takes
steps.
-/

namespace DeterministicRaft

open Consensus Refinement

variable {net : Network} {a a' : State NodeId Entry} {w w' : World} {tr tr' : Trace} {m n : NodeId} {self : RaftNode}

/-- The world stands for the protocol state: the invariant holds, and every node stands for its part. -/
structure Simulates (net : Network) (a : State NodeId Entry) (w : World) : Prop where
  inv : Inv net.scheme a
  node : ∀ n, Represents net a w.trace n (w.nodes n)
  out : ∀ n, (w.nodes n).out = []

namespace Simulates

theorem fits (h : Simulates net a w) (n : NodeId) : Fits net w.trace n a (w.nodes n) := ⟨h.inv, h.node n⟩

/-- Every call in the trace is justified. -/
theorem traced (h : Simulates net a w) : Traced net a w.trace := by
  have := (h.node 0).traced
  rwa [h.out 0, calls_nil, List.append_nil] at this

/-- Every entry a node knows to be committed was applied by some node. -/
theorem recorded (h : Simulates net a w) (n : NodeId) : Recorded w.trace ((a.log n).take (a.commit n)) := by
  have := (h.node n).recorded
  rwa [h.out n, calls_nil, List.append_nil] at this

end Simulates

/-- A node that does not act still stands for its part. -/
theorem Represents.frame (h : Represents net a tr m self) (hout : self.out = []) (hmn : m ≠ n) (hI : Inv net.scheme a)
    (hmv : Steps net.scheme a a') (hsame : a.SameBut n a') (htr : Traced net a' tr') (hsub : tr ⊆ tr') : Represents net a' tr' m self := by
  have x := (hmv.inv_extends hI).2
  have hlog := hsame.log m hmn
  have hcommit := hsame.commit m hmn
  have hterm := hsame.term m hmn
  exact { h with
    stored := by
      rw [hlog]
      exact h.stored
    term := h.term.trans hterm.symm
    votedFor := h.votedFor.trans (hsame.vote m hmn).symm
    role := h.role.trans (hsame.role m hmn).symm
    base_le := by
      rw [hcommit]
      exact h.base_le
    commitIndex := by
      rw [hcommit]
      exact h.commitIndex
    lastApplied := by
      rw [hcommit]
      exact h.lastApplied
    applied := by
      rw [hcommit, hlog]
      exact h.applied
    kv := by
      rw [hcommit, hlog]
      exact h.kv
    recorded := by
      rw [hcommit, hlog]
      refine h.recorded.mono fun y hy => ?_
      rw [hout, calls_nil, List.append_nil] at hy ⊢
      exact hsub hy
    votes := fun hr v hv => by
      obtain ⟨V, hV⟩ := h.votes hr v hv
      rw [hterm]
      exact ⟨V, x.ballot hV⟩
    leads := fun hr => by
      have habs : a.role m = .leader := by
        rw [← h.role, hr]
        rfl
      refine (h.leads hr).grow x hterm hlog hcommit fun c Y hc => ?_
      rcases hsame.committed _ c Y hc with h1 | h1
      · exact h1
      · have h2 := x.leader (hI.role_leader habs).1
        rw [h1, Option.some.injEq] at h2
        exact absurd h2.symm hmn
    traced := by
      rw [hout, calls_nil, List.append_nil]
      exact htr }

/-- What an action leads to: the protocol takes steps, a term's leader is new, or has built more, only where it leads still, and
what it appends is of `A`. -/
def Follows (net : Network) (A : Set Entry) (a : State NodeId Entry) (x : Except PyError World) : Prop :=
  ∃ w' a', x = .ok w' ∧ Steps net.scheme a a' ∧ (∃ n, a.Settled n a') ∧ a.Draws A a' ∧ Simulates net a' w'

/-- An operation on one node that follows the protocol is a step of the cluster that does. -/
theorem Simulates.perform (h : Simulates net a w) {op : RaftNode → Except PyError RaftNode}
    {A : Set Entry} (hop : Handles net A w.trace n a (op (w.nodes n))) : Follows net A a (w.perform n op) := by
  obtain ⟨b, hb, after, a', hx, hm, hf⟩ := hop
  have hmv := hb.1.trans hm.1
  have hsame := hb.2.1.trans hm.2.1
  unfold World.perform
  rw [hx]
  have hdraws : a.Draws A a' := (State.Draws.of_eq A hb.2.2.2.2 hb.2.2.2.1).trans hm.2.2.2.2
  refine ⟨_, a', rfl, hmv, ⟨n, hb.2.2.settled hm.2.2.2.1⟩, hdraws, hf.1, ?_, ?_⟩
  · intro m
    by_cases hmn : m = n
    · subst hmn
      have hr := hf.2
      simp only [Function.update_self]
      exact { hr with
        recorded := by
          show Recorded ((w.trace ++ calls m after.out) ++ calls m []) _
          rw [calls_nil, List.append_nil]
          exact hr.recorded
        traced := by
          show Traced net a' ((w.trace ++ calls m after.out) ++ calls m [])
          rw [calls_nil, List.append_nil]
          exact hr.traced }
    · simp only [Function.update_of_ne hmn]
      exact (h.node m).frame (h.out m) hmn h.inv hmv hsame hf.2.traced (List.subset_append_left ..)
  · intro m
    by_cases hmn : m = n
    · subst hmn
      simp
    · simp only [Function.update_of_ne hmn]
      exact h.out m

/-- The entries that an action may append. -/
def World.offers (w : World) : Action → Set Entry
  | .clientCommand n command => {e | (w.nodes n).Appends command ∧ e = { term := (w.nodes n).term, command }}
  | .changeConfig n newVoters => {{ term := (w.nodes n).term, command := encodeConfig (sortedSet newVoters) }}
  | _ => ∅

/-- Every action of a cluster follows the protocol, and does not raise. -/
theorem Simulates.step (h : Simulates net a w) {act : Action} (hact : net.Admits act) :
    Follows net (w.offers act) a (w.step act) := by
  have hstay : ∀ A, Follows net A a (.ok w) := fun A =>
    ⟨w, a, rfl, Steps.refl a, ⟨0, fun _ => Or.inl ⟨rfl, rfl⟩⟩, State.Draws.refl A a, h⟩
  cases act with
  | deliver k =>
    simp only [World.step]
    split
    · rename_i src dst msg hk
      obtain ⟨tr', hp, hj⟩ := h.traced.mem (List.mem_of_getElem? hk)
      exact h.perform ((h.fits dst).handle hp.subset hj)
    · exact hstay _
  | fire k =>
    simp only [World.step]
    split
    · rename_i n kind seq hk
      refine h.perform ?_
      cases kind with
      | election => exact (h.fits n).onElectionTimeout seq
      | heartbeat => exact Handles.of_acts (((h.fits n).onHeartbeat seq).mono fun _ _ _ hQ => hQ.1)
    · exact hstay _
  | clientCommand n command =>
    rw [World.step]
    exact h.perform (Handles.of_acts (Ends.map ((h.fits n).clientCommand hact fun happ => ⟨happ, rfl⟩)))
  | changeConfig n newVoters =>
    rw [World.step]
    exact h.perform (Handles.of_acts (Ends.map ((h.fits n).changeConfig hact.1 hact.2 rfl)))
  | requestRead n command =>
    rw [World.step]
    exact h.perform (Handles.of_acts (Ends.pure ((h.fits n).requestRead hact command)))
  | pause n =>
    rw [World.step]
    obtain ⟨b, hm, hf⟩ := (h.fits n).pause
    exact h.perform (Handles.of_yields hm hf)
  | resume n =>
    rw [World.step]
    exact h.perform (Handles.of_acts (Ends.pure (h.fits n).resume))

/-- The trace only grows. -/
theorem World.perform_trace {op : RaftNode → Except PyError RaftNode} (h : w.perform n op = .ok w') : w.trace <+: w'.trace := by
  unfold World.perform at h
  cases hop : op (w.nodes n) with
  | error err =>
    rw [hop] at h
    cases h
  | ok after =>
    rw [hop] at h
    cases h
    exact List.prefix_append _ _

/-- The trace only grows. -/
theorem World.step_trace {act : Action} (h : w.step act = .ok w') : w.trace <+: w'.trace := by
  have hstay : Except.ok w = (Except.ok w' : Except PyError World) → w.trace <+: w'.trace := by
    rintro ⟨⟩
    exact List.prefix_rfl
  cases act with
  | deliver k =>
    simp only [World.step] at h
    split at h
    · exact World.perform_trace h
    · exact hstay h
  | fire k =>
    simp only [World.step] at h
    split at h
    · exact World.perform_trace h
    · exact hstay h
  | clientCommand n command =>
    rw [World.step] at h
    exact World.perform_trace h
  | changeConfig n newVoters =>
    rw [World.step] at h
    exact World.perform_trace h
  | requestRead n command =>
    rw [World.step] at h
    exact World.perform_trace h
  | pause n =>
    rw [World.step] at h
    exact World.perform_trace h
  | resume n =>
    rw [World.step] at h
    exact World.perform_trace h

/-- A cluster that has started stands for the first state of the protocol. -/
theorem simulates_init (net : Network) : Simulates net State.init net.init := by
  have htraced : Traced net State.init net.init.trace := by
    show Traced net State.init (net.ids.flatMap fun n => (net.newNode n).start.out.map fun e => (n, e))
    suffices key : ∀ (ids : List NodeId) (tr : Trace), Traced net State.init tr →
        Traced net State.init (tr ++ ids.flatMap fun n => (net.newNode n).start.out.map fun e => (n, e)) from
      key net.ids [] .nil
    intro ids
    induction ids with
    | nil => intro tr h; simpa using h
    | cons n ids ih =>
      intro tr h
      have hone : (net.newNode n).start.out.map (fun e => (n, e)) = [(n, Effect.schedule .election 1)] := rfl
      rw [List.flatMap_cons, hone, ← List.append_assoc]
      exact ih _ (h.snoc trivial)
  refine ⟨inv_init, fun n => ?_, fun n => rfl⟩
  refine {
    id := rfl
    peers := fun p => ?_
    bugs := rfl
    stored := ⟨le_rfl, le_rfl, rfl, rfl, rfl, rfl, rfl, fun j e hj _ => absurd hj (by simp [State.init])⟩
    term := rfl
    votedFor := rfl
    role := rfl
    base_le := le_rfl
    commitIndex := rfl
    lastApplied := rfl
    applied := rfl
    kv := rfl
    recorded := Recorded.nil _
    votes := fun hr => absurd hr (by simp [Network.init, Network.newNode, RaftNode.new, RaftNode.start,
      RaftNode.armElectionTimer, RaftNode.emit])
    leads := fun hr => absurd hr (by simp [Network.init, Network.newNode, RaftNode.new, RaftNode.start,
      RaftNode.armElectionTimer, RaftNode.emit])
    reads := Or.inr rfl
    traced := ?_ }
  · show p ∈ (net.ids.filter (· ≠ n)).insertionSort (· ≤ ·) ↔ _
    rw [List.mem_insertionSort, List.mem_filter, decide_eq_true_eq]
  · show Traced net State.init (net.init.trace ++ calls n [])
    rwa [calls_nil, List.append_nil]

/-! ## What the world says about the history -/

namespace Simulates

/-- Two nodes that know a place to be committed know the same entry there. -/
theorem known_agree (hI : Inv net.scheme a) {t u : Int} {P Q : List Entry} (hP : a.Committed t P) (hQ : a.Committed u Q)
    {j : ℕ} {e e' : Entry} (he : P[j]? = some e) (he' : Q[j]? = some e') : e = e' := by
  rcases hP with rfl | ⟨t1, c1, Y1, -, h1, hp1⟩
  · simp at he
  rcases hQ with rfl | ⟨t2, c2, Y2, -, h2, hp2⟩
  · simp at he'
  have he1 := getElem?_extends hp1 he
  have he2 := getElem?_extends hp2 he'
  rcases hI.committed_total h1 h2 with h | h
  · rw [getElem?_extends h he1, Option.some.injEq] at he2
    exact he2
  · rw [getElem?_extends h he2, Option.some.injEq] at he1
    exact he1.symm

/-- An applied entry is a committed one. -/
theorem committed_of_apply (h : Simulates net a w) {i : Int} {e : Entry} (hm : (m, Effect.record (.apply i e)) ∈ w.trace) :
    ∃ (t : Int) (P : List Entry) (j : ℕ), i = j + 1 ∧ a.Committed t P ∧ P[j]? = some e := by
  obtain ⟨tr', -, t, P, j, h1, h2, h3, -⟩ := h.traced.mem hm
  exact ⟨t, P, j, h1, h2, h3⟩

/-- The entry first applied at a place that a node knows to be committed is the entry it has there. -/
theorem appliedAt_eq (h : Simulates net a w) (n : NodeId) {j : ℕ} (hj : j < a.commit n) :
    w.appliedAt (j + 1) = (a.log n)[j]? := by
  have hlen := h.inv.commit_le n
  obtain ⟨e, he⟩ : ∃ e, (a.log n)[j]? = some e := ⟨_, List.getElem?_eq_getElem (by omega)⟩
  have hk : ((a.log n).take (a.commit n))[j]? = some e := by rwa [List.getElem?_take_of_lt hj]
  obtain ⟨m, hm, -⟩ := h.recorded n j e hk
  rw [he]
  have hsome : (w.appliedAt (j + 1)).isSome := by
    unfold World.appliedAt
    rw [List.findSome?_isSome_iff]
    exact ⟨_, hm, by simp⟩
  obtain ⟨e', he'⟩ := Option.isSome_iff_exists.1 hsome
  rw [he', Option.some.injEq]
  unfold World.appliedAt at he'
  obtain ⟨call, hmem, hcall⟩ := List.exists_of_findSome?_eq_some he'
  obtain ⟨m', effect⟩ := call
  simp only at hcall
  split at hcall
  · split at hcall
    · rename_i hij
      simp only [Option.some.injEq] at hcall
      subst hcall
      subst hij
      obtain ⟨t, P, i, hi, hP, hPi⟩ := h.committed_of_apply hmem
      obtain rfl : i = j := by omega
      exact known_agree h.inv hP (h.inv.commit_known n) hPi hk
    · exact absurd hcall (by simp)
  · exact absurd hcall (by simp)

/-- The whole log of a node is its log in the protocol. -/
theorem logicalLog_eq (h : Simulates net a w) (n : NodeId) : w.logicalLog n = a.log n := by
  obtain ⟨b, hb, hbn, hle⟩ := (h.node n).stored.exists_base
  have hbc := (h.node n).base_le
  have hlive : (w.nodes n).log = (a.log n).drop (w.nodes n).baseIndex.toNat := (h.node n).stored.live
  have key : ∀ k, k ≤ b → (List.range k).filterMap (fun j : ℕ => w.appliedAt (j + 1)) = (a.log n).take k := by
    intro k
    induction k with
    | zero => exact fun _ => rfl
    | succ k ih =>
      intro hk
      obtain ⟨e, he⟩ : ∃ e, (a.log n)[k]? = some e := ⟨_, List.getElem?_eq_getElem (by omega)⟩
      rw [List.range_succ, List.filterMap_append, ih (by omega), take_succ_eq he]
      simp [h.appliedAt_eq n (show k < a.commit n by omega), he]
  unfold World.logicalLog
  rw [hlive, hbn, key b le_rfl, List.take_append_drop]

/-- A node that leads is the leader of its term, and its log is what the leader has built. -/
theorem leader (h : Simulates net a w) (hr : (w.nodes n).role = .leader) :
    a.leader (w.nodes n).term = some n ∧ w.logicalLog n = a.llog (w.nodes n).term := by
  obtain ⟨h1, h2⟩ := (h.fits n).leader hr
  rw [h.logicalLog_eq, (h.node n).term]
  exact ⟨h1, h2⟩

end Simulates

/-! ## Runs -/

namespace Run

variable (r : Run net)

/-- Protocol states for the moments of a run, with protocol steps between them. -/
structure Shadow (s : ℕ → State NodeId Entry) : Prop where
  start : s 0 = State.init
  sim : ∀ k, Simulates net (s k) (r.state k)
  steps : ∀ k, Steps net.scheme (s k) (s (k + 1))
  settled : ∀ k, ∃ n, (s k).Settled n (s (k + 1))
  draws : ∀ k, (s k).Draws ((r.state k).offers (r.action k)) (s (k + 1))

/-- Every run follows the protocol. -/
theorem exists_shadow : ∃ s, r.Shadow s := by
  have hstep : ∀ k a, Simulates net a (r.state k) → ∃ a', Simulates net a' (r.state (k + 1)) ∧ Steps net.scheme a a' ∧
      (∃ n, a.Settled n a') ∧ a.Draws ((r.state k).offers (r.action k)) a' := by
    intro k a h
    obtain ⟨w', a', hw, hs, hset, hdraws, h'⟩ := h.step (r.admits k)
    rw [r.next k, Except.ok.injEq] at hw
    exact ⟨a', hw ▸ h', hs, hset, hdraws⟩
  choose f hf using hstep
  let s : (k : ℕ) → { a // Simulates net a (r.state k) } := fun k =>
    Nat.rec ⟨State.init, r.start ▸ simulates_init net⟩ (fun k a => ⟨f k a.1 a.2, (hf k a.1 a.2).1⟩) k
  exact ⟨fun k => (s k).1, rfl, fun k => (s k).2, fun k => (hf k (s k).1 (s k).2).2.1, fun k => (hf k (s k).1 (s k).2).2.2.1,
    fun k => (hf k (s k).1 (s k).2).2.2.2⟩

/-- Between two moments of a run the protocol's history is continued. -/
theorem Shadow.extends_of_le {r : Run net} {s : ℕ → State NodeId Entry} (h : r.Shadow s) {k l : ℕ} (hkl : k ≤ l) :
    (s k).Extends (s l) := by
  induction hkl with
  | refl => exact State.Extends.refl _
  | step _ ih => exact ih.trans ((h.steps _).inv_extends (h.sim _).inv).2

end Run

/-- Actions a cluster admits can be taken, one after the other. -/
theorem exec_ok {l : List Action} (hacts : ∀ act ∈ l, net.Admits act) :
    ∃ w, net.init.exec l = .ok w ∧ ∃ a, Simulates net a w := by
  suffices key : ∀ (w : World) (a : State NodeId Entry), Simulates net a w →
      ∃ w', w.exec l = .ok w' ∧ ∃ a', Simulates net a' w' from key _ _ (simulates_init net)
  induction l with
  | nil => exact fun w a h => ⟨w, rfl, a, h⟩
  | cons act l ih =>
    intro w a h
    obtain ⟨w', a', hw, -, -, -, h'⟩ := h.step (hacts act List.mem_cons_self)
    obtain ⟨w'', hw'', a'', h''⟩ := ih (fun act' hm => hacts act' (List.mem_cons_of_mem _ hm)) w' a' h'
    refine ⟨w'', ?_, a'', h''⟩
    unfold World.exec at hw'' ⊢
    rw [List.foldlM_cons, hw]
    exact hw''

namespace Network

variable (net : Network) {acts : ℕ → Action} (hacts : ∀ k, net.Admits (acts k))

include hacts in
/-- The first actions of a sequence the cluster admits can be taken. -/
theorem exec_first (k : ℕ) : ∃ w, net.init.exec ((List.range k).map acts) = .ok w := by
  have hadm : ∀ act ∈ (List.range k).map acts, net.Admits act := by
    intro act hm
    obtain ⟨i, -, rfl⟩ := List.mem_map.1 hm
    exact hacts i
  obtain ⟨w, hw, -⟩ := exec_ok hadm
  exact ⟨w, hw⟩

/-- The run that takes the actions of a sequence the cluster admits. -/
noncomputable def runOf : Run net where
  state k := (net.exec_first hacts k).choose
  action := acts
  start := (Except.ok.inj (net.exec_first hacts 0).choose_spec).symm
  admits := hacts
  next k := by
    have h := (net.exec_first hacts k).choose_spec
    have h' := (net.exec_first hacts (k + 1)).choose_spec
    generalize (net.exec_first hacts k).choose = w at h
    generalize (net.exec_first hacts (k + 1)).choose = w' at h'
    unfold World.exec at h h'
    rw [List.range_succ, List.map_append, List.foldlM_append, h] at h'
    change (w.step (acts k) >>= pure) = _ at h'
    rwa [bind_pure] at h'

/-- The moments of such a run are what executing its first actions gives. -/
theorem exec_runOf (k : ℕ) : net.init.exec ((List.range k).map acts) = .ok ((net.runOf hacts).state k) :=
  (net.exec_first hacts k).choose_spec

end Network

/-! ## Runs that are given by their first actions -/

/-- A continuation of some actions: the network delivers what is at the first place of the trace, if it is a message. -/
def andIdle (acts : List Action) (k : ℕ) : Action := acts.getD k (.deliver 0)

theorem admits_andIdle {acts : List Action} (h : ∀ act ∈ acts, net.Admits act) (k : ℕ) : net.Admits (andIdle acts k) := by
  unfold andIdle
  rw [List.getD_eq_getElem?_getD]
  cases hk : acts[k]? with
  | none => exact trivial
  | some act => exact h act (List.mem_of_getElem? hk)

/-- What executing the first actions shows holds at that moment of the run. -/
theorem holds_of_exec {acts : ℕ → Action} (hacts : ∀ k, net.Admits (acts k)) (k : ℕ) (p : World → Bool)
    (h : ((net.init.exec ((List.range k).map acts)).toOption.map p) = some true) :
    p ((net.runOf hacts).state k) = true := by
  rw [net.exec_runOf hacts k] at h
  simpa [Except.toOption] using h

end DeterministicRaft
