import DeterministicRaft.Cluster
import DeterministicRaft.Simulation

/-!
# The clients of a cluster

What the client driver keeps, whatever the nodes do: a client's outstanding operation is its next request. An invariant of the
cluster is one of the nodes, of the driver, and of what the driver hears; `Cluster.Keeps` is the rule.
-/

namespace DeterministicRaft

open Consensus

variable {net : Network} {c c' : Cluster} {cid cid' : Int} {q q' : ℕ}

/-! ## Requests -/

/-- The string of a client's request. -/
def request (cid : Int) (q : ℕ) : String := (clientWorkload cid q).encode

/-- What a client's command can be. -/
theorem clientWorkload_cases (cid reqId : Int) : ∃ key value expected : String, ':' ∉ key.toList ∧ ':' ∉ value.toList ∧
    ':' ∉ expected.toList ∧ (clientWorkload cid reqId = { clientId := cid, reqId, op := GET, key, value, expected } ∨
      clientWorkload cid reqId = { clientId := cid, reqId, op := CAS, key, value, expected } ∨
      clientWorkload cid reqId = { clientId := cid, reqId, op := PUT, key, value, expected }) := by
  have hkey : ∀ i, ':' ∉ (WORKLOAD_KEYS.getD i "").toList := by
    intro i hi
    rw [List.getD_eq_getElem?_getD] at hi
    cases hk : WORKLOAD_KEYS[i]? with
    | none =>
      rw [hk] at hi
      simp at hi
    | some k =>
      rw [hk] at hi
      have hall : ∀ k ∈ WORKLOAD_KEYS, ':' ∉ k.toList := by decide
      exact hall k (List.mem_of_getElem? hk) hi
  have hval : ∀ i : Int, ':' ∉ ("v" ++ toString i).toList := by
    intro i hi
    rw [String.toList_append, List.mem_append] at hi
    rcases hi with hi | hi
    · exact absurd hi (by decide)
    · rcases mem_toString_int hi with h | h
      · exact absurd h (by decide)
      · exact absurd h (by decide)
  have hempty : ':' ∉ "".toList := by decide
  unfold clientWorkload
  simp only []
  split
  · exact ⟨_, _, _, hkey _, hempty, hempty, Or.inl rfl⟩
  · split
    · refine ⟨_, _, _, hkey _, hval _, ?_, Or.inr (Or.inl rfl)⟩
      split
      · exact hval _
      · exact hempty
    · exact ⟨_, _, _, hkey _, hval _, hempty, Or.inr (Or.inr rfl)⟩

/-- A client's request is its own. -/
theorem clientId_clientWorkload (cid reqId : Int) : (clientWorkload cid reqId).clientId = cid := by
  obtain ⟨key, value, expected, -, -, -, h | h | h⟩ := clientWorkload_cases cid reqId <;> rw [h]

/-- A client's request has the number that it is given. -/
theorem reqId_clientWorkload (cid reqId : Int) : (clientWorkload cid reqId).reqId = reqId := by
  obtain ⟨key, value, expected, -, -, -, h | h | h⟩ := clientWorkload_cases cid reqId <;> rw [h]

/-- A client's request is structured. -/
theorem isStructured_clientWorkload (h : 0 ≤ cid) (reqId : Int) : (clientWorkload cid reqId).isStructured = true := by
  obtain ⟨key, value, expected, -, -, -, he | he | he⟩ := clientWorkload_cases cid reqId
  all_goals simp [he, Command.isStructured, h]

/-- A request decodes to the client's command: nothing in it holds a colon. -/
theorem decode_request (cid : Int) (q : ℕ) : Command.decode (request cid q) = clientWorkload cid q := by
  unfold request
  obtain ⟨key, value, expected, hk, hv, he, h | h | h⟩ := clientWorkload_cases cid q
  · rw [h]
    exact Command.decode_encode _ (Or.inr (Or.inl rfl)) hk hv he
  · rw [h]
    exact Command.decode_encode _ (Or.inr (Or.inr rfl)) hk hv he
  · rw [h]
    exact Command.decode_encode _ (Or.inl rfl) hk hv he

/-- Different requests are different strings. -/
theorem request_inj (h : request cid q = request cid' q') : cid = cid' ∧ q = q' := by
  have hd := congrArg Command.decode h
  rw [decode_request, decode_request] at hd
  have h1 := congrArg Command.clientId hd
  have h2 := congrArg Command.reqId hd
  rw [clientId_clientWorkload, clientId_clientWorkload] at h1
  rw [reqId_clientWorkload, reqId_clientWorkload] at h2
  exact ⟨h1, by exact_mod_cast h2⟩

/-- No command is read as a configuration: it starts with a number. -/
theorem decodeConfig_encode (cmd : Command) : decodeConfig cmd.encode = none := by
  unfold decodeConfig
  rw [if_neg]
  intro hp
  unfold Command.encode at hp
  rw [toList_pyJoin] at hp
  have hpre : CONFIG_PREFIX.toList = 'c' :: ['f', 'g', ':'] := by decide
  rw [hpre] at hp
  cases hid : (toString cmd.clientId).toList with
  | nil =>
    have hread := pyInt_toString cmd.clientId
    rw [pyInt, hid] at hread
    cases hread
  | cons x xs =>
    rw [hid, List.cons_append, List.cons_prefix_cons] at hp
    have hx : x ∈ (toString cmd.clientId).toList := by
      rw [hid]
      exact List.mem_cons_self
    rcases mem_toString_int hx with h | h
    · rw [← hp.1] at h
      exact absurd h (by decide)
    · rw [← hp.1] at h
      exact absurd h (by decide)

/-! ## Rows -/

/-- The row when its operation has completed. -/
def HistoryEntry.complete (row : HistoryEntry) (step : Int) (result : String) : HistoryEntry :=
  { row with returnStep := some step, observed := some result }

/-- A property that the modified element keeps. -/
theorem forall_mem_modify {α : Type} {l : List α} {f : α → α} {p : α → Prop} (h : ∀ x ∈ l, p x) (hf : ∀ x, p x → p (f x)) (i : ℕ) :
    ∀ x ∈ l.modify i f, p x := by
  intro x hx
  obtain ⟨j, hj⟩ := List.mem_iff_getElem?.1 hx
  rw [List.getElem?_modify] at hj
  obtain ⟨y, hy, rfl⟩ := Option.map_eq_some_iff.1 hj
  have hpy := h y (List.mem_of_getElem? hy)
  split
  · exact hf y hpy
  · exact hpy

/-- What the modified element keeps, the list keeps. -/
theorem map_modify {α β : Type} (l : List α) {f : α → α} {g : α → β} (h : ∀ x, g (f x) = g x) (i : ℕ) :
    (l.modify i f).map g = l.map g := by
  induction l generalizing i with
  | nil => simp
  | cons x l ih =>
    cases i with
    | zero => simp [h]
    | succ i => simp [ih]

/-! ## The driver -/

namespace Cluster

/-- The string is an operation that its client has seen complete. -/
def Done (c : Cluster) (encoded : String) : Prop := ∃ (cid : Int) (q : ℕ), 0 ≤ cid ∧ q < c.nextReq cid ∧ encoded = request cid q

/-- The string is a client's outstanding operation. -/
def Open (c : Cluster) (encoded : String) : Prop := ∃ cid, c.outstanding.lookup cid = some encoded

/-- The driver's tables agree: an outstanding operation is its client's next request, and only an outstanding operation waits
for the end of its row. -/
structure Tidy (net : Network) (c : Cluster) : Prop where
  outstanding : ∀ cid encoded, c.outstanding.lookup cid = some encoded →
    0 ≤ cid ∧ cid < WORKLOAD_CLIENTS ∧ encoded = request cid (c.nextReq cid)
  pending : ∀ encoded i, c.pending.lookup encoded = some i → c.Open encoded
  unrecorded : net.recordHistory = false → c.history = [] ∧ c.pending = ∅

/-- A client sees its operation complete. -/
def close (c : Cluster) (cid : Int) : Cluster :=
  { c with outstanding := c.outstanding.erase cid, nextReq := Function.update c.nextReq cid (c.nextReq cid + 1) }

/-- The row of an operation is completed, if there is one. -/
def note (net : Network) (c : Cluster) (encoded result : String) : Cluster :=
  if net.recordHistory = true then
    match c.pending.lookup encoded with
    | none => c
    | some row => { c with
        pending := c.pending.erase encoded
        history := c.history.modify row fun r => { r with returnStep := some c.steps, observed := some result } }
  else c

/-- An idle client invokes its next request. -/
def begin (net : Network) (c : Cluster) (cid : Int) : Cluster :=
  { c with outstanding := c.outstanding.insert cid (request cid (c.nextReq cid)) }.invoke net (clientWorkload cid (c.nextReq cid))
    (request cid (c.nextReq cid))

/-- What the clients do when an entry is applied. -/
theorem onApply_eq (c : Cluster) (encoded result : String) : c.onApply net encoded result =
    if (Command.decode encoded).isStructured = false then c
    else (if c.outstanding.lookup (Command.decode encoded).clientId = some encoded then c.close (Command.decode encoded).clientId
      else c).note net encoded result := rfl

/-- A row that is completed leaves the nodes alone. -/
@[simp] theorem note_world (c : Cluster) (encoded result : String) : (c.note net encoded result).world = c.world := by
  unfold note
  split
  · split <;> rfl
  · rfl

/-- A row that is completed leaves the step count alone. -/
@[simp] theorem note_steps (c : Cluster) (encoded result : String) : (c.note net encoded result).steps = c.steps := by
  unfold note
  split
  · split <;> rfl
  · rfl

/-- A row that is completed leaves the outstanding operations alone. -/
@[simp] theorem note_outstanding (c : Cluster) (encoded result : String) :
    (c.note net encoded result).outstanding = c.outstanding := by
  unfold note
  split
  · split <;> rfl
  · rfl

/-- A row that is completed leaves the clients' next requests alone. -/
@[simp] theorem note_nextReq (c : Cluster) (encoded result : String) : (c.note net encoded result).nextReq = c.nextReq := by
  unfold note
  split
  · split <;> rfl
  · rfl

/-- A row that is completed leaves the clients' turn alone. -/
@[simp] theorem note_clientTurn (c : Cluster) (encoded result : String) :
    (c.note net encoded result).clientTurn = c.clientTurn := by
  unfold note
  split
  · split <;> rfl
  · rfl

/-- A new operation leaves the nodes alone. -/
@[simp] theorem begin_world (c : Cluster) (cid : Int) : (c.begin net cid).world = c.world := by
  unfold begin invoke
  split <;> rfl

/-- A new operation leaves the step count alone. -/
@[simp] theorem begin_steps (c : Cluster) (cid : Int) : (c.begin net cid).steps = c.steps := by
  unfold begin invoke
  split <;> rfl

/-- A new operation leaves the clients' next requests alone. -/
@[simp] theorem begin_nextReq (c : Cluster) (cid : Int) : (c.begin net cid).nextReq = c.nextReq := by
  unfold begin invoke
  split <;> rfl

/-- A new operation is outstanding. -/
@[simp] theorem begin_outstanding (c : Cluster) (cid : Int) :
    (c.begin net cid).outstanding = c.outstanding.insert cid (request cid (c.nextReq cid)) := by
  unfold begin invoke
  split <;> rfl

/-- How a row is completed. -/
theorem note_eq {encoded result : String} (hrec : net.recordHistory = true) {i : ℕ} (hp : c.pending.lookup encoded = some i) :
    c.note net encoded result = { c with
      pending := c.pending.erase encoded
      history := c.history.modify i (·.complete c.steps result) } := by
  unfold note
  rw [if_pos hrec, hp]
  rfl

/-- The clients' next requests do not go back. -/
theorem nextReq_le_close (c : Cluster) (cid cid' : Int) : c.nextReq cid' ≤ (c.close cid).nextReq cid' := by
  simp only [close]
  by_cases h : cid' = cid
  · subst h
    simp
  · simp [h]

/-- After a client has seen an operation complete, another one is outstanding if it was. -/
theorem lookup_close {c : Cluster} {cid cid' : Int} {encoded : String} :
    (c.close cid).outstanding.lookup cid' = some encoded ↔ cid' ≠ cid ∧ c.outstanding.lookup cid' = some encoded := by
  simp only [close]
  by_cases h : cid' = cid
  · subst h
    simp
  · simp [Finmap.lookup_erase_ne h, h]

namespace Tidy

variable {encoded : String}

/-- An outstanding operation has not completed. -/
theorem not_open (h : Tidy net c) (hd : c.Done encoded) : ¬c.Open encoded := by
  rintro ⟨cid', ho⟩
  obtain ⟨cid, q, -, hq, he⟩ := hd
  obtain ⟨-, -, he'⟩ := h.outstanding cid' encoded ho
  obtain ⟨rfl, rfl⟩ := request_inj (he.symm.trans he')
  exact absurd hq (lt_irrefl _)

/-- The client of an outstanding operation is the one it names. -/
theorem clientId_eq (h : Tidy net c) (ho : c.outstanding.lookup cid = some encoded) :
    (Command.decode encoded).clientId = cid ∧ (Command.decode encoded).isStructured = true := by
  obtain ⟨h0, -, he⟩ := h.outstanding cid encoded ho
  rw [he, decode_request]
  exact ⟨clientId_clientWorkload _ _, isStructured_clientWorkload h0 _⟩

/-- The application of an operation that is not outstanding changes nothing. -/
theorem onApply_other (h : Tidy net c) (ho : ¬c.Open encoded) (result : String) : c.onApply net encoded result = c := by
  rw [onApply_eq]
  split
  · rfl
  · rw [if_neg fun hl => ho ⟨_, hl⟩]
    unfold note
    split
    · have hp : c.pending.lookup encoded = none := by
        cases hp : c.pending.lookup encoded with
        | none => rfl
        | some i => exact absurd (h.pending encoded i hp) ho
      rw [hp]
    · rfl

/-- The application of an outstanding operation lets its client move on. -/
theorem onApply_open (h : Tidy net c) (ho : c.outstanding.lookup cid = some encoded) (result : String) :
    c.onApply net encoded result = (c.close cid).note net encoded result := by
  obtain ⟨hid, hs⟩ := h.clientId_eq ho
  rw [onApply_eq, if_neg (by simp [hs]), hid, if_pos ho]

/-- An outstanding operation completes. -/
theorem note_close (h : Tidy net c) (ho : c.outstanding.lookup cid = some encoded) (result : String) :
    Tidy net ((c.close cid).note net encoded result) where
  outstanding cid' encoded' hl := by
    rw [note_outstanding] at hl
    obtain ⟨hne, hl⟩ := lookup_close.1 hl
    rw [note_nextReq]
    simp only [close, Function.update_of_ne hne]
    exact h.outstanding cid' encoded' hl
  pending encoded' i hp := by
    have hp' : encoded' ≠ encoded ∧ c.pending.lookup encoded' = some i := by
      unfold note at hp
      split at hp
      · split at hp
        · rename_i hnone
          refine ⟨?_, hp⟩
          rintro rfl
          rw [hnone] at hp
          cases hp
        · by_cases he : encoded' = encoded
          · subst he
            simp at hp
          · exact ⟨he, by rwa [Finmap.lookup_erase_ne he] at hp⟩
      · rename_i hrec
        have hempty : c.pending.lookup encoded' = some i := hp
        rw [(h.unrecorded (by simpa using hrec)).2, Finmap.lookup_empty] at hempty
        cases hempty
    obtain ⟨cid', hl⟩ := h.pending encoded' i hp'.2
    refine ⟨cid', ?_⟩
    rw [note_outstanding]
    refine lookup_close.2 ⟨?_, hl⟩
    rintro rfl
    rw [ho, Option.some.injEq] at hl
    exact hp'.1 hl.symm
  unrecorded hrec := by
    unfold note
    rw [if_neg (by simp [hrec])]
    exact h.unrecorded hrec

/-- What a node calls keeps the tables tidy. -/
theorem hear (h : Tidy net c) (e : Effect) : Tidy net (c.hear net e) := by
  cases e with
  | onApply encoded result =>
    show Tidy net (c.onApply net encoded result)
    by_cases ho : c.Open encoded
    · obtain ⟨cid, ho⟩ := ho
      rw [h.onApply_open ho]
      exact h.note_close ho result
    · rw [h.onApply_other ho]
      exact h
  | _ => exact h

/-- A new operation keeps the tables tidy. -/
theorem begin (h : Tidy net c) (h0 : 0 ≤ cid) (hcid : cid < WORKLOAD_CLIENTS) (hnone : c.outstanding.lookup cid = none) :
    Tidy net (c.begin net cid) where
  outstanding cid' encoded hl := by
    rw [begin_outstanding] at hl
    rw [begin_nextReq]
    by_cases hc : cid' = cid
    · subst hc
      rw [Finmap.lookup_insert, Option.some.injEq] at hl
      exact ⟨h0, hcid, hl.symm⟩
    · rw [Finmap.lookup_insert_of_ne _ hc] at hl
      exact h.outstanding cid' encoded hl
  pending encoded i hp := by
    have hcases : encoded = request cid (c.nextReq cid) ∨ c.pending.lookup encoded = some i := by
      unfold Cluster.begin invoke at hp
      split at hp
      · exact Or.inr hp
      · by_cases he : encoded = request cid (c.nextReq cid)
        · exact Or.inl he
        · exact Or.inr (by rwa [Finmap.lookup_insert_of_ne _ he] at hp)
    rcases hcases with rfl | hp'
    · exact ⟨cid, by rw [begin_outstanding, Finmap.lookup_insert]⟩
    · obtain ⟨cid', hl⟩ := h.pending encoded i hp'
      refine ⟨cid', ?_⟩
      rw [begin_outstanding, Finmap.lookup_insert_of_ne]
      · exact hl
      · rintro rfl
        rw [hnone] at hl
        cases hl
  unrecorded hrec := by
    unfold Cluster.begin invoke
    rw [if_pos hrec]
    exact h.unrecorded hrec

end Tidy

/-- What an event may ask of the nodes: a client's attempt is at its outstanding operation. -/
def Offers (net : Network) (c : Cluster) : Action → Prop
  | .clientCommand _ encoded => c.Open encoded ∧ ¬(net.readIndex = true ∧ (Command.decode encoded).op = GET)
  | .requestRead _ encoded => c.Open encoded ∧ net.readIndex = true ∧ (Command.decode encoded).op = GET
  | .changeConfig _ _ => False
  | _ => True

/-- What clients and operators of a tidy cluster offer is admitted. -/
theorem Tidy.admits (h : Tidy net c) {action : Action} (ho : c.Offers net action) : net.Admits action := by
  cases action with
  | clientCommand n encoded =>
    obtain ⟨⟨cid, hl⟩, -⟩ := ho
    obtain ⟨-, -, he⟩ := h.outstanding cid encoded hl
    show decodeConfig encoded = none
    rw [he]
    exact decodeConfig_encode _
  | requestRead n encoded => exact ho.2.1
  | changeConfig n newVoters => exact ho.elim
  | _ => trivial

/-- An action the cluster may ask for succeeds, and the cluster hears the calls it makes. -/
theorem act_ok (ht : Tidy net c) {a : State NodeId Entry} (hs : Simulates net a c.world) {action : Action}
    (ho : c.Offers net action) : ∃ w a' new, c.world.step action = .ok w ∧ w.trace = c.world.trace ++ new ∧
      c.act net action = .ok (new.foldl (fun c call => c.hear net call.2) { c with world := w }) ∧
      Steps net.scheme a a' ∧ a.Draws (c.world.offers action) a' ∧ Simulates net a' w := by
  obtain ⟨w, a', hw, hsteps, -, hdraws, hs'⟩ := hs.step (ht.admits ho)
  obtain ⟨new, hnew⟩ := World.step_trace hw
  refine ⟨w, a', new, hw, hnew.symm, ?_, hsteps, hdraws, hs'⟩
  have hdrop : w.trace.drop c.world.trace.length = new := by rw [← hnew, List.drop_left]
  unfold act
  rw [hw]
  show Except.ok ((w.trace.drop c.world.trace.length).foldl (fun c call => c.hear net call.2) { c with world := w }) = _
  rw [hdrop]

/-! ## Invariants of a cluster -/

/-- What makes `I` an invariant of a cluster: the driver keeps it, and so does what the driver asks of the nodes and hears from
them. -/
structure Keeps (net : Network) (I : Cluster → Prop) : Prop where
  tidy : ∀ c, I c → Tidy net c
  bugs : ∀ c, I c → ∀ n, (c.world.nodes n).bugs.staleLocalReads = false
  tick : ∀ c, I c → I c.tick
  turn : ∀ c, I c → I { c with clientTurn := c.clientTurn + 1 }
  begin : ∀ c (cid : Int), I c → 0 ≤ cid → cid < WORKLOAD_CLIENTS → c.outstanding.lookup cid = none → I (c.begin net cid)
  act : ∀ c action, I c → c.Offers net action → ∃ c', c.act net action = .ok c' ∧ I c'

namespace Keeps

variable {I : Cluster → Prop}

/-- A leader gets the command, or its store is read. -/
theorem submit (h : Keeps net I) (hc : I c) {encoded : String} (ho : c.Open encoded) (target : NodeId) :
    ∃ c', c.submit net target encoded = .ok c' ∧ I c' := by
  unfold Cluster.submit
  simp only []
  split
  · rw [if_neg (by simp [h.bugs c hc target])]
    split
    · rename_i hread
      exact h.act c (.requestRead target encoded) hc ⟨ho, hread⟩
    · rename_i hread
      exact h.act c (.clientCommand target encoded) hc ⟨ho, hread⟩
  · exact ⟨c, rfl, hc⟩

/-- The client whose turn it is goes on. -/
theorem clientTick (h : Keeps net I) (hc : I c) (target : NodeId) : ∃ c', c.clientTick net target = .ok c' ∧ I c' := by
  have hturn := h.turn c hc
  unfold Cluster.clientTick
  simp only []
  split
  · rename_i hnone
    have hlt : c.clientTurn % WORKLOAD_CLIENTS < WORKLOAD_CLIENTS := Nat.mod_lt _ (by decide)
    refine h.submit (h.begin _ (c.clientTurn % WORKLOAD_CLIENTS : ℕ) hturn (by omega) (by omega) hnone)
      ⟨(c.clientTurn % WORKLOAD_CLIENTS : ℕ), ?_⟩ target
    rw [begin_outstanding, Finmap.lookup_insert]
    rfl
  · rename_i encoded hl
    exact h.submit hturn ⟨_, hl⟩ target

/-- Every event keeps an invariant, and does not raise. -/
theorem step (h : Keeps net I) (hc : I c) (event : SimEvent) : ∃ c', c.step net event = .ok c' ∧ I c' := by
  cases event with
  | deliver k => exact h.act _ (.deliver k) (h.tick c hc) trivial
  | fire k => exact h.act _ (.fire k) (h.tick c hc) trivial
  | clientTick target => exact h.clientTick (h.tick c hc) target
  | other => exact ⟨_, rfl, h.tick c hc⟩
  | pause n => exact h.act c (.pause n) hc trivial
  | resume n => exact h.act c (.resume n) hc trivial

/-- An invariant holds at every moment of a run. -/
theorem run (h : Keeps net I) (h0 : I net.cluster) (r : ClusterRun net) (k : ℕ) : I (r.state k) := by
  induction k with
  | zero =>
    rw [r.start]
    exact h0
  | succ k ih =>
    obtain ⟨c', hc, hI⟩ := h.step ih (r.event k)
    rw [r.next k, Except.ok.injEq] at hc
    exact hc ▸ hI

/-- An invariant holds after any events. -/
theorem exec (h : Keeps net I) (hc : I c) (events : List SimEvent) : ∃ c', c.exec net events = .ok c' ∧ I c' := by
  induction events generalizing c with
  | nil => exact ⟨c, rfl, hc⟩
  | cons event events ih =>
    obtain ⟨c1, h1, hc1⟩ := h.step hc event
    obtain ⟨c2, h2, hc2⟩ := ih hc1
    refine ⟨c2, ?_, hc2⟩
    unfold Cluster.exec at h2 ⊢
    rw [List.foldlM_cons, h1]
    exact h2

end Keeps

/-- The calls a cluster hears change neither its nodes nor the driver's agreement. -/
theorem Tidy.hearAll (h : Tidy net c) (new : Trace) :
    Tidy net (new.foldl (fun c call => c.hear net call.2) c) ∧ (new.foldl (fun c call => c.hear net call.2) c).world = c.world := by
  induction new generalizing c with
  | nil => exact ⟨h, rfl⟩
  | cons call new ih =>
    obtain ⟨h1, h2⟩ := ih (h.hear call.2)
    refine ⟨h1, h2.trans ?_⟩
    cases he : call.2 with
    | onApply encoded result =>
      show (c.onApply net encoded result).world = c.world
      by_cases ho : c.Open encoded
      · obtain ⟨cid, ho⟩ := ho
        rw [h.onApply_open ho, note_world]
        rfl
      · rw [h.onApply_other ho]
    | _ => rfl

/-- The nodes follow the protocol, and the driver's tables agree. -/
theorem keeps_hosted (net : Network) : Keeps net fun c => Tidy net c ∧ ∃ a, Simulates net a c.world where
  tidy _ h := h.1
  bugs c h n := by
    obtain ⟨-, a, hs⟩ := h
    rw [(hs.node n).bugs]
    rfl
  tick _ h := ⟨⟨h.1.outstanding, h.1.pending, h.1.unrecorded⟩, h.2⟩
  turn _ h := ⟨⟨h.1.outstanding, h.1.pending, h.1.unrecorded⟩, h.2⟩
  begin c cid h h0 hcid hnone := ⟨h.1.begin h0 hcid hnone, by rw [begin_world]; exact h.2⟩
  act c action h ho := by
    obtain ⟨ht, a, hs⟩ := h
    obtain ⟨w, a', new, -, -, hact, -, -, hs'⟩ := act_ok ht hs ho
    have htw : Tidy net { c with world := w } := ⟨ht.outstanding, ht.pending, ht.unrecorded⟩
    obtain ⟨h1, h2⟩ := htw.hearAll new
    refine ⟨_, hact, h1, a', ?_⟩
    rw [h2]
    exact hs'

/-- The tables of a new cluster are tidy. -/
theorem tidy_cluster (net : Network) : Tidy net net.cluster where
  outstanding cid encoded h := by
    rw [show net.cluster.outstanding = ∅ from rfl, Finmap.lookup_empty] at h
    cases h
  pending encoded i h := by
    rw [show net.cluster.pending = ∅ from rfl, Finmap.lookup_empty] at h
    cases h
  unrecorded _ := ⟨rfl, rfl⟩

/-- Any events can follow a start. -/
theorem exec_ok (net : Network) (events : List SimEvent) : ∃ c, net.cluster.exec net events = .ok c := by
  obtain ⟨c, hc, -⟩ := (keeps_hosted net).exec ⟨tidy_cluster net, State.init, simulates_init net⟩ events
  exact ⟨c, hc⟩

end Cluster

/-! ## Runs that are given by their events -/

namespace Network

variable (net : Network) (events : ℕ → SimEvent)

/-- The run of the cluster with these events. -/
noncomputable def clusterRun : ClusterRun net where
  state k := (Cluster.exec_ok net ((List.range k).map events)).choose
  event := events
  start := (Except.ok.inj (Cluster.exec_ok net ((List.range 0).map events)).choose_spec).symm
  next k := by
    have h := (Cluster.exec_ok net ((List.range k).map events)).choose_spec
    have h' := (Cluster.exec_ok net ((List.range (k + 1)).map events)).choose_spec
    generalize (Cluster.exec_ok net ((List.range k).map events)).choose = c at h
    generalize (Cluster.exec_ok net ((List.range (k + 1)).map events)).choose = c' at h'
    unfold Cluster.exec at h h'
    rw [List.range_succ, List.map_append, List.foldlM_append, h] at h'
    change (c.step net (events k) >>= pure) = _ at h'
    rwa [bind_pure] at h'

/-- What executing the first events shows holds at that moment of the run. -/
theorem holds_clusterRun (k : ℕ) (p : Cluster → Bool)
    (h : ((net.cluster.exec net ((List.range k).map events)).toOption.map p) = some true) :
    p ((net.clusterRun events).state k) = true := by
  have hk : net.cluster.exec net ((List.range k).map events) = .ok ((net.clusterRun events).state k) :=
    (Cluster.exec_ok net ((List.range k).map events)).choose_spec
  rw [hk] at h
  simpa [Except.toOption] using h

end Network
end DeterministicRaft
