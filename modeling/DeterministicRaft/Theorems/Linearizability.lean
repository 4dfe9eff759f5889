import DeterministicRaft.Clients
import DeterministicRaft.Theorems.Safety

/-!
# What the clients see is linearizable

Without ReadIndex an operation completes when its entry is first applied. The committed entries that were applied by then, in the
order of the log, give the order of the completed operations: a request that is in the log more than once changes the state machine
once, because the sessions and the driver's counters agree. `Books` says so for the nodes' part, `Recounts` for the history.
-/

namespace DeterministicRaft

open Consensus Linearizability

variable {net : Network} {a a' : State NodeId Entry} {tr : Trace} {G P : List Entry} {c : Cluster} {e : Entry} {n : NodeId}
  {order : List HistoryEntry}

/-- The driver's counters after the calls `tr`, against the committed entries `G` that count as applied. -/
structure Books (net : Network) (a : State NodeId Entry) (tr : Trace) (G : List Entry) (c : Cluster) : Prop where
  tidy : c.Tidy net
  known : ∃ t, a.Committed t G
  heard : ∀ m encoded result, (m, Effect.onApply encoded result) ∈ tr → c.Done encoded
  done : ∀ e ∈ G, c.Done e.command
  /-- Whatever is in a log is a client's operation. -/
  issued : ∀ e ∈ a.entries, c.Done e.command ∨ c.Open e.command
  /-- A session holds its client's last completed request. -/
  session : ∀ cid q result, (replay G).sessions.lookup cid = some (q, result) → q + 1 = c.nextReq cid
  fresh : ∀ cid, (replay G).sessions.lookup cid = none → c.nextReq cid = 0

/-- The completed rows of the history, in the order of the log, against the committed entries `G` that count as applied. -/
structure Recounts (G : List Entry) (c : Cluster) (order : List HistoryEntry) : Prop where
  linearization : Linearization (c.history.filter (·.completed)) order
  /-- The state machine of any of the entries is the reference store after some of the rows. -/
  stores : ∀ Q, Q <+: G → ∃ rows, rows <+: order ∧ after rows = (replay Q).store
  store : after order = (replay G).store
  stamps : ∀ row ∈ c.history, row.invokeStep ≤ c.steps
  keys : (c.history.map fun row => (row.clientId, row.reqId)).Nodup
  issued : ∀ row ∈ c.history, ∃ (cid : Int) (q : ℕ), row.command = clientWorkload cid q ∧
    (q < c.nextReq cid ∨ q = c.nextReq cid ∧ ∃ encoded, c.outstanding.lookup cid = some encoded)
  pending : ∀ encoded i, c.pending.lookup encoded = some i →
    ∃ row, c.history[i]? = some row ∧ row.completed = false ∧ row.command = Command.decode encoded
  outstanding : ∀ cid encoded, c.outstanding.lookup cid = some encoded → ∃ i, c.pending.lookup encoded = some i

namespace Books

/-- A request that has completed is old to its client's session. -/
theorem apply_done (h : Books net a tr G c) {encoded : String} (hd : c.Done encoded) :
    ((replay G).apply (Command.decode encoded)).1 = replay G := by
  obtain ⟨cid, q, -, hq, rfl⟩ := hd
  rw [decode_request]
  cases hl : (replay G).sessions.lookup cid with
  | none =>
    have := h.fresh cid hl
    omega
  | some last =>
    obtain ⟨q', result⟩ := last
    have hq' := h.session cid q' result hl
    rw [← clientId_clientWorkload cid q] at hl
    refine KVStateMachine.apply_old hl ?_
    rw [reqId_clientWorkload]
    omega

/-- An entry whose request has completed changes nothing when it counts as applied. -/
theorem again (h : Books net a tr G c) (hd : c.Done e.command) (hk : ∃ t, a.Committed t (G ++ [e])) :
    Books net a tr (G ++ [e]) c ∧ ∀ order, Recounts G c order → Recounts (G ++ [e]) c order := by
  have hreplay : replay (G ++ [e]) = replay G := by rw [replay_concat, h.apply_done hd]
  refine ⟨{ h with known := hk, done := ?_, session := ?_, fresh := ?_ }, fun order ho => { ho with stores := ?_, store := ?_ }⟩
  · intro e' he'
    rcases List.mem_append.1 he' with he' | he'
    · exact h.done e' he'
    · rw [List.mem_singleton.1 he']
      exact hd
  · rw [hreplay]
    exact h.session
  · rw [hreplay]
    exact h.fresh
  · intro Q hQ
    rcases List.prefix_concat_iff.1 hQ with rfl | hQ
    · exact ⟨order, List.prefix_rfl, by rw [hreplay]; exact ho.store⟩
    · exact ho.stores Q hQ
  · rw [hreplay]
    exact ho.store

/-- Committed entries that were applied may count as applied: those that did not have completed already. -/
theorem catchUp (h : Books net a tr G c) (hI : Inv net.scheme a) {t : Int} (hP : a.Committed t P) (hr : Recorded tr P) :
    ∃ G', P <+: G' ∧ Books net a tr G' c ∧ ∀ order, Recounts G c order → Recounts G' c order := by
  obtain ⟨u, hG⟩ := h.known
  rcases hI.known_total hP hG with hle | ⟨R, rfl⟩
  · exact ⟨G, hle, h, fun _ => id⟩
  · refine ⟨G ++ R, List.prefix_rfl, ?_⟩
    have hdone : ∀ e ∈ R, c.Done e.command := by
      intro e he
      obtain ⟨j, hj⟩ := List.mem_iff_getElem?.1 (List.mem_append_right G he)
      obtain ⟨m, -, hm⟩ := hr j e hj
      exact h.heard m _ _ hm
    clear hr
    induction R using List.reverseRecOn with
    | nil => simpa using h
    | append_singleton R e ih =>
      rw [← List.append_assoc] at hP ⊢
      obtain ⟨h1, h2⟩ := ih (hP.shorter (List.prefix_append _ _)) fun x hx => hdone x (List.mem_append_left _ hx)
      obtain ⟨h3, h4⟩ := h1.again (hdone e (by simp)) ⟨t, hP⟩
      exact ⟨h3, fun order ho => h4 order (h2 order ho)⟩

end Books

/-! ## An operation completes -/

namespace Cluster

variable {cid : Int} {encoded result : String}

/-- What has completed stays so. -/
theorem Done.close (h : c.Done encoded) (cid : Int) (encoded' result : String) :
    ((c.close cid).note net encoded' result).Done encoded := by
  obtain ⟨cid', q, h0, hq, he⟩ := h
  refine ⟨cid', q, h0, ?_, he⟩
  rw [note_nextReq]
  exact hq.trans_le (nextReq_le_close c cid cid')

/-- The operation has completed. -/
theorem Tidy.done_close (h : Tidy net c) (ho : c.outstanding.lookup cid = some encoded) (result : String) :
    ((c.close cid).note net encoded result).Done encoded := by
  obtain ⟨h0, -, he⟩ := h.outstanding cid encoded ho
  refine ⟨cid, c.nextReq cid, h0, ?_, he⟩
  rw [note_nextReq]
  simp [Cluster.close]

/-- Whatever was issued has completed or is still outstanding. -/
theorem Tidy.issued_close (h : Tidy net c) (ho : c.outstanding.lookup cid = some encoded) {encoded' : String}
    (hi : c.Done encoded' ∨ c.Open encoded') (result : String) :
    ((c.close cid).note net encoded result).Done encoded' ∨ ((c.close cid).note net encoded result).Open encoded' := by
  rcases hi with hd | ⟨cid', hl⟩
  · exact Or.inl (hd.close ..)
  · by_cases hc : cid' = cid
    · subst hc
      rw [ho, Option.some.injEq] at hl
      subst hl
      exact Or.inl (h.done_close ho result)
    · refine Or.inr ⟨cid', ?_⟩
      rw [note_outstanding]
      exact lookup_close.2 ⟨hc, hl⟩

end Cluster

/-- What the sessions become with the entry of an outstanding operation. -/
theorem Books.apply_open (h : Books net a tr G c) {cid : Int} {encoded : String} (ho : c.outstanding.lookup cid = some encoded) :
    (replay G).apply (Command.decode encoded) = ({ ((replay G).execute (Command.decode encoded)).1 with
      sessions := (replay G).sessions.insert cid (c.nextReq cid, ((replay G).execute (Command.decode encoded)).2) },
      ((replay G).execute (Command.decode encoded)).2) := by
  obtain ⟨h0, -, rfl⟩ := h.tidy.outstanding cid encoded ho
  rw [decode_request, KVStateMachine.apply_new (isStructured_clientWorkload h0 _)]
  · have hsessions : ((replay G).execute (clientWorkload cid (c.nextReq cid))).1.sessions = (replay G).sessions := by
      rw [show clientWorkload cid (c.nextReq cid) = (Cluster.newRow (clientWorkload cid (c.nextReq cid)) 0).command from rfl,
        KVStateMachine.execute_eq]
    rw [hsessions, clientId_clientWorkload, reqId_clientWorkload]
  · intro q result hl
    rw [clientId_clientWorkload] at hl
    rw [reqId_clientWorkload]
    have := h.session cid q result hl
    omega

/-- The entry of an outstanding operation counts as applied, and the client sees it complete. -/
theorem Books.commit (h : Books net a tr G c) {cid : Int} (ho : c.outstanding.lookup cid = some e.command)
    (hk : ∃ t, a.Committed t (G ++ [e])) (m : NodeId) (result : String) :
    Books net a (tr ++ [(m, .onApply e.command result)]) (G ++ [e]) ((c.close cid).note net e.command result) where
  tidy := h.tidy.note_close ho result
  known := hk
  heard m' encoded result' hm := by
    rcases List.mem_append.1 hm with hm | hm
    · exact (h.heard m' encoded result' hm).close ..
    · obtain ⟨rfl, rfl, rfl⟩ : m' = m ∧ encoded = e.command ∧ result' = result := by simpa using hm
      exact h.tidy.done_close ho _
  done e' he' := by
    rcases List.mem_append.1 he' with he' | he'
    · exact (h.done e' he').close ..
    · rw [List.mem_singleton.1 he']
      exact h.tidy.done_close ho _
  issued e' he' := h.tidy.issued_close ho (h.issued e' he') result
  session cid' q result' hl := by
    rw [replay_concat, h.apply_open ho] at hl
    rw [Cluster.note_nextReq]
    by_cases hc : cid' = cid
    · subst hc
      simp only [Finmap.lookup_insert, Option.some.injEq, Prod.mk.injEq] at hl
      simp only [Cluster.close, Function.update_self]
      omega
    · simp only [Finmap.lookup_insert_of_ne _ hc] at hl
      simp only [Cluster.close, Function.update_of_ne hc]
      exact h.session cid' q result' hl
  fresh cid' hl := by
    rw [replay_concat, h.apply_open ho] at hl
    rw [Cluster.note_nextReq]
    by_cases hc : cid' = cid
    · subst hc
      simp at hl
    · simp only [Finmap.lookup_insert_of_ne _ hc] at hl
      simp only [Cluster.close, Function.update_of_ne hc]
      exact h.fresh cid' hl

/-! ## Its row is completed -/

/-- Only the modified element is new to the ones with the property. -/
theorem filter_modify_perm {α : Type} {l : List α} {f : α → α} {p : α → Bool} {i : ℕ} {x : α} (hi : l[i]? = some x)
    (hx : p x = false) (hfx : p (f x) = true) : ((l.modify i f).filter p).Perm (l.filter p ++ [f x]) := by
  induction l generalizing i with
  | nil => simp at hi
  | cons y l ih =>
    cases i with
    | zero =>
      obtain rfl : y = x := by simpa using hi
      simpa [hx, hfx] using (List.perm_append_singleton (f y) (l.filter p)).symm
    | succ i =>
      have hperm := ih (i := i) (by simpa using hi)
      rw [List.modify_succ_cons]
      cases hy : p y with
      | true => simpa [hy] using hperm
      | false => simpa [hy] using hperm

/-- The row of an operation that completes comes last. -/
theorem Recounts.commit (h : Recounts G c order) (hb : Books net a tr G c) (hrec : net.recordHistory = true) {cid : Int}
    (ho : c.outstanding.lookup cid = some e.command) {result : String} (hres : result = resultAfter G e.command) :
    ∃ order', Recounts (G ++ [e]) ((c.close cid).note net e.command result) order' := by
  obtain ⟨i, hp⟩ := h.outstanding cid _ ho
  obtain ⟨row, hi, hcomp, hcmd⟩ := h.pending _ i hp
  have hopen := hb.apply_open ho
  rw [← hcmd, KVStateMachine.execute_eq, hcmd] at hopen
  have hp' : (c.close cid).pending.lookup e.command = some i := hp
  rw [Cluster.note_eq hrec hp']
  have hstore : (replay (G ++ [e])).store = (apply (after order) (row.complete c.steps result)).1 := by
    rw [replay_concat, hopen, h.store]
    rfl
  refine ⟨order ++ [row.complete c.steps result], ?_⟩
  exact {
    linearization := by
      refine h.linearization.concat (filter_modify_perm hi hcomp rfl) ?_ ?_
      · rintro x hx ⟨t, ht, hlt⟩
        have hstamp := h.stamps x (List.mem_of_mem_filter hx)
        obtain rfl : c.steps = t := by simpa [HistoryEntry.complete] using ht
        omega
      · show some result = _
        rw [hres, resultAfter, hopen, ← h.store]
        rfl
    stores := by
      intro Q hQ
      rcases List.prefix_concat_iff.1 hQ with rfl | hQ
      · exact ⟨_, List.prefix_rfl, by rw [after, History.after_concat, hstore]⟩
      · obtain ⟨rows, hrows, hst⟩ := h.stores Q hQ
        exact ⟨rows, hrows.trans (List.prefix_append _ _), hst⟩
    store := by rw [after, History.after_concat, hstore]
    stamps := by
      exact forall_mem_modify (f := (·.complete c.steps result)) h.stamps (fun _ hx => hx) i
    keys := by
      have hkeys := map_modify c.history (f := (·.complete c.steps result))
        (g := fun row => (row.clientId, row.reqId)) (fun _ => rfl) i
      exact hkeys ▸ h.keys
    issued := by
      suffices hrows : ∀ row ∈ c.history, ∃ (cid' : Int) (q : ℕ), row.command = clientWorkload cid' q ∧
          (q < (c.close cid).nextReq cid' ∨
            q = (c.close cid).nextReq cid' ∧ ∃ encoded, (c.close cid).outstanding.lookup cid' = some encoded) from
        forall_mem_modify (f := (HistoryEntry.complete · c.steps result)) hrows (fun _ hx => hx) i
      intro x hx
      obtain ⟨cid', q, hx, hq⟩ := h.issued x hx
      refine ⟨cid', q, hx, ?_⟩
      rcases hq with hq | ⟨hq, encoded, hl⟩
      · exact Or.inl (hq.trans_le (Cluster.nextReq_le_close c cid cid'))
      · by_cases hc : cid' = cid
        · subst hc
          exact Or.inl (by simp [Cluster.close, hq])
        · exact Or.inr ⟨by simpa [Cluster.close, hc] using hq, encoded, Cluster.lookup_close.2 ⟨hc, hl⟩⟩
    pending := by
      intro encoded j hl
      have hne : encoded ≠ e.command := by
        rintro rfl
        simp at hl
      have hl' : c.pending.lookup encoded = some j := by rwa [Finmap.lookup_erase_ne hne] at hl
      obtain ⟨row2, hj, hcomp2, hcmd2⟩ := h.pending encoded j hl'
      refine ⟨row2, ?_, hcomp2, hcmd2⟩
      have hji : i ≠ j := by
        rintro rfl
        rw [hi, Option.some.injEq] at hj
        subst hj
        obtain ⟨cid2, ho2⟩ := hb.tidy.pending encoded i hl'
        obtain ⟨-, -, he2⟩ := hb.tidy.outstanding cid2 encoded ho2
        obtain ⟨-, -, he1⟩ := hb.tidy.outstanding cid _ ho
        rw [hcmd2, he2, he1, decode_request, decode_request] at hcmd
        exact hne (by rw [he2, he1, request, request, hcmd])
      show (c.history.modify i _)[j]? = _
      rw [List.getElem?_modify, hj]
      simp [hji]
    outstanding := by
      intro cid' encoded hl
      obtain ⟨hc, hl⟩ := Cluster.lookup_close.1 hl
      obtain ⟨j, hj⟩ := h.outstanding cid' encoded hl
      refine ⟨j, ?_⟩
      show (c.pending.erase e.command).lookup encoded = _
      rw [Finmap.lookup_erase_ne, hj]
      rintro rfl
      obtain ⟨-, -, he1⟩ := hb.tidy.outstanding cid _ ho
      obtain ⟨-, -, he2⟩ := hb.tidy.outstanding cid' _ hl
      exact hc (request_inj (he2.symm.trans he1)).1 }

/-! ## What the cluster hears -/

/-- A call that completes nothing. -/
theorem Books.quiet (h : Books net a tr G c) (m : NodeId) {call : Effect}
    (hd : ∀ encoded result, call = .onApply encoded result → c.Done encoded) : Books net a (tr ++ [(m, call)]) G c := by
  refine { h with heard := fun m' encoded result hm => ?_ }
  rcases List.mem_append.1 hm with hm | hm
  · exact h.heard m' encoded result hm
  · simp only [List.mem_singleton, Prod.mk.injEq] at hm
    exact hd encoded result hm.2.symm

/-- A justified call: if an operation completes, the entry of its command comes next in the order of the log. That entry does not count as
applied yet, so those that do are the ones below it. -/
theorem Books.hear (hread : net.readIndex = false) (hI : Inv net.scheme a) (h : Books net a tr G c) {call : Effect}
    (hj : Justified net a tr n call) : ∃ G', Books net a (tr ++ [(n, call)]) G' (c.hear net call) ∧
      (net.recordHistory = true → ∀ order, Recounts G c order → ∃ order', Recounts G' (c.hear net call) order') := by
  cases call with
  | onApply encoded result =>
    show ∃ G', Books net a _ G' (c.onApply net encoded result) ∧ (_ → ∀ order, _ → ∃ order', Recounts G' (c.onApply net encoded result) order')
    rcases hj with ⟨t, P, j, e, hP, hPj, rfl, hres, hrec⟩ | ⟨hr, -⟩
    · have hjlt := (List.getElem?_eq_some_iff.1 hPj).1
      obtain ⟨G', hp, hb, hG'⟩ := h.catchUp hI (hP.shorter (List.take_prefix j P)) hrec
      have hmem : e ∈ a.entries := by
        rcases hP with rfl | ⟨t', k, Y, -, hY, hpre⟩
        · simp at hPj
        · have hl := (hI.committed_led hY).2.1
          exact Or.inr ⟨t', hl.subset (List.mem_of_mem_take (hpre.subset (List.mem_of_getElem? hPj)))⟩
      rcases hb.issued e hmem with hd | ⟨cid, ho⟩
      · rw [hb.tidy.onApply_other (hb.tidy.not_open hd)]
        refine ⟨G', hb.quiet n ?_, fun _ order ho => ⟨order, hG' order ho⟩⟩
        rintro encoded' result' ⟨⟩
        exact hd
      · obtain ⟨u, hk⟩ := hb.known
        have hlen : G'.length ≤ j := by
          by_contra hlt
          obtain ⟨e', he'⟩ : ∃ e', G'[j]? = some e' := ⟨_, List.getElem?_eq_getElem (by omega)⟩
          obtain rfl := Simulates.known_agree hI hP hk hPj he'
          exact hb.tidy.not_open (hb.done e (List.mem_of_getElem? he')) ⟨cid, ho⟩
        obtain rfl : P.take j = G' := hp.eq_of_length_le (by rw [List.length_take_of_le hjlt.le]; exact hlen)
        have hk' : ∃ t, a.Committed t (P.take j ++ [e]) := ⟨t, by
          rw [← take_succ_eq hPj]
          exact hP.shorter (List.take_prefix _ _)⟩
        rw [hb.tidy.onApply_open ho]
        exact ⟨_, hb.commit ho hk' n result, fun hrec order hr => (hG' order hr).commit hb hrec ho hres⟩
    · rw [hread] at hr
      cases hr
  | _ => exact ⟨G, h.quiet n (by rintro _ _ ⟨⟩), fun _ order ho => ⟨order, ho⟩⟩

/-- All the calls of an action. -/
theorem Books.hearAll (hread : net.readIndex = false) (hI : Inv net.scheme a) (h : Books net a tr G c) {new : Trace}
    (ht : Traced net a (tr ++ new)) : ∃ G', Books net a (tr ++ new) G' (new.foldl (fun c call => c.hear net call.2) c) ∧
      (net.recordHistory = true → ∀ order, Recounts G c order →
        ∃ order', Recounts G' (new.foldl (fun c call => c.hear net call.2) c) order') := by
  induction new using List.reverseRecOn with
  | nil => exact ⟨G, by simpa using h, fun _ order ho => ⟨order, ho⟩⟩
  | append_singleton new call ih =>
    rw [← List.append_assoc] at ht ⊢
    obtain ⟨m, call⟩ := call
    obtain ⟨ht, hj⟩ := ht.last
    obtain ⟨G1, hb1, hr1⟩ := ih ht
    obtain ⟨G2, hb2, hr2⟩ := hb1.hear hread hI hj
    rw [List.foldl_append]
    refine ⟨G2, hb2, fun hrec order ho => ?_⟩
    obtain ⟨order1, ho1⟩ := hr1 hrec order ho
    exact hr2 hrec order1 ho1

/-! ## What the driver does -/

/-- A new operation. -/
theorem Books.begin (h : Books net a tr G c) {cid : Int} (h0 : 0 ≤ cid) (hcid : cid < WORKLOAD_CLIENTS)
    (hnone : c.outstanding.lookup cid = none) : Books net a tr G (c.begin net cid) := by
  have hdone : ∀ encoded, c.Done encoded → (c.begin net cid).Done encoded := by
    rintro encoded ⟨cid', q, h1, hq, he⟩
    exact ⟨cid', q, h1, by rwa [Cluster.begin_nextReq], he⟩
  exact {
    tidy := h.tidy.begin h0 hcid hnone
    known := h.known
    heard := fun m encoded result hm => hdone _ (h.heard m encoded result hm)
    done := fun e he => hdone _ (h.done e he)
    issued := fun e he => by
      rcases h.issued e he with hd | ⟨cid', hl⟩
      · exact Or.inl (hdone _ hd)
      · refine Or.inr ⟨cid', ?_⟩
        rw [Cluster.begin_outstanding, Finmap.lookup_insert_of_ne]
        · exact hl
        · rintro rfl
          rw [hnone] at hl
          cases hl
    session := fun cid' q result hl => by
      rw [Cluster.begin_nextReq]
      exact h.session cid' q result hl
    fresh := fun cid' hl => by
      rw [Cluster.begin_nextReq]
      exact h.fresh cid' hl }

/-- A new operation has a new row. -/
theorem Recounts.begin (h : Recounts G c order) (ht : c.Tidy net) (hrec : net.recordHistory = true) {cid : Int}
    (hnone : c.outstanding.lookup cid = none) : Recounts G (c.begin net cid) order := by
  set row := Cluster.newRow (clientWorkload cid (c.nextReq cid)) c.steps with hrow
  have heq : c.begin net cid = { c with
      outstanding := c.outstanding.insert cid (request cid (c.nextReq cid))
      history := c.history ++ [row]
      pending := c.pending.insert (request cid (c.nextReq cid)) c.history.length } := by
    unfold Cluster.begin Cluster.invoke
    rw [if_neg (by simp [hrec])]
  have hcmd : row.command = clientWorkload cid (c.nextReq cid) := rfl
  rw [heq]
  exact {
    linearization := by
      have hfilter : (c.history ++ [row]).filter (·.completed) = c.history.filter (·.completed) := by
        rw [List.filter_append]
        exact List.append_nil _
      show Linearization ((c.history ++ [row]).filter (·.completed)) order
      rw [hfilter]
      exact h.linearization
    stores := h.stores
    store := h.store
    stamps := by
      intro x hx
      rcases List.mem_append.1 hx with hx | hx
      · exact h.stamps x hx
      · rw [List.mem_singleton.1 hx]
        exact le_rfl
    keys := by
      rw [List.map_append]
      refine List.Nodup.append h.keys (List.nodup_singleton _) ?_
      intro key hk hk'
      obtain ⟨x, hx, rfl⟩ := List.mem_map.1 hk
      obtain ⟨cid', q, hxc, hq⟩ := h.issued x hx
      have h1 : x.clientId = cid' := (congrArg Command.clientId hxc).trans (clientId_clientWorkload _ _)
      have h2 : x.reqId = q := (congrArg Command.reqId hxc).trans (reqId_clientWorkload _ _)
      have h3 : row.clientId = cid := (congrArg Command.clientId hcmd).trans (clientId_clientWorkload _ _)
      have h4 : row.reqId = c.nextReq cid := (congrArg Command.reqId hcmd).trans (reqId_clientWorkload _ _)
      obtain ⟨h5, h6⟩ : x.clientId = row.clientId ∧ x.reqId = row.reqId := by simpa using hk'
      obtain rfl : cid' = cid := by rw [← h1, h5, h3]
      obtain rfl : q = c.nextReq cid' := by omega
      rcases hq with hq | ⟨-, encoded, hl⟩
      · exact absurd hq (lt_irrefl _)
      · rw [hnone] at hl
        cases hl
    issued := by
      intro x hx
      rcases List.mem_append.1 hx with hx | hx
      · obtain ⟨cid', q, hxc, hq⟩ := h.issued x hx
        refine ⟨cid', q, hxc, hq.imp_right fun ⟨hq, encoded, hl⟩ => ⟨hq, encoded, ?_⟩⟩
        rw [Finmap.lookup_insert_of_ne]
        · exact hl
        · rintro rfl
          rw [hnone] at hl
          cases hl
      · rw [List.mem_singleton.1 hx]
        exact ⟨cid, _, hcmd, Or.inr ⟨rfl, _, Finmap.lookup_insert _⟩⟩
    pending := by
      intro encoded i hl
      by_cases he : encoded = request cid (c.nextReq cid)
      · subst he
        rw [Finmap.lookup_insert, Option.some.injEq] at hl
        subst hl
        exact ⟨row, by simp, rfl, by rw [hcmd, decode_request]⟩
      · rw [Finmap.lookup_insert_of_ne _ he] at hl
        obtain ⟨x, hi, h1, h2⟩ := h.pending encoded i hl
        exact ⟨x, getElem?_extends (List.prefix_append _ _) hi, h1, h2⟩
    outstanding := by
      intro cid' encoded hl
      by_cases hc : cid' = cid
      · subst hc
        rw [Finmap.lookup_insert, Option.some.injEq] at hl
        subst hl
        exact ⟨_, Finmap.lookup_insert _⟩
      · rw [Finmap.lookup_insert_of_ne _ hc] at hl
        obtain ⟨i, hi⟩ := h.outstanding cid' encoded hl
        refine ⟨i, ?_⟩
        rw [Finmap.lookup_insert_of_ne]
        · exact hi
        · rintro rfl
          obtain ⟨-, -, he⟩ := ht.outstanding cid' _ hl
          exact hc (request_inj he).1.symm }

/-- The nodes follow the protocol, the driver's counters agree with what was applied, and the rows are in the order of the log. -/
def Cluster.Accounted (net : Network) (c : Cluster) : Prop :=
  ∃ a G, Simulates net a c.world ∧ Books net a c.world.trace G c ∧
    (net.recordHistory = true → ∃ order, Recounts G c order)

/-- It is an invariant of a cluster without ReadIndex. -/
theorem keeps_accounted (hread : net.readIndex = false) : Cluster.Keeps net (Cluster.Accounted net) where
  tidy c h := by
    obtain ⟨a, G, -, hb, -⟩ := h
    exact hb.tidy
  bugs c h n := by
    obtain ⟨a, G, hs, -, -⟩ := h
    rw [(hs.node n).bugs]
    rfl
  tick c h := by
    obtain ⟨a, G, hs, hb, hr⟩ := h
    refine ⟨a, G, hs, { hb with tidy := ⟨hb.tidy.outstanding, hb.tidy.pending, hb.tidy.unrecorded⟩ }, fun hrec => ?_⟩
    obtain ⟨order, ho⟩ := hr hrec
    exact ⟨order, { ho with stamps := fun row hrow => (ho.stamps row hrow).trans (by simp [Cluster.tick]) }⟩
  turn c h := by
    obtain ⟨a, G, hs, hb, hr⟩ := h
    refine ⟨a, G, hs, { hb with tidy := ⟨hb.tidy.outstanding, hb.tidy.pending, hb.tidy.unrecorded⟩ }, fun hrec => ?_⟩
    obtain ⟨order, ho⟩ := hr hrec
    exact ⟨order, { ho with }⟩
  begin c cid h h0 hcid hnone := by
    obtain ⟨a, G, hs, hb, hr⟩ := h
    refine ⟨a, G, ?_, ?_, fun hrec => ?_⟩
    · rwa [Cluster.begin_world]
    · rw [Cluster.begin_world]
      exact hb.begin h0 hcid hnone
    · obtain ⟨order, ho⟩ := hr hrec
      exact ⟨order, ho.begin hb.tidy hrec hnone⟩
  act c action h ho := by
    obtain ⟨a, G, hs, hb, hr⟩ := h
    obtain ⟨w, a', new, -, htrace, hact, hsteps, hdraws, hs'⟩ := Cluster.act_ok hb.tidy hs ho
    have x := (hsteps.inv_extends hs.inv).2
    have hissued : ∀ e ∈ a'.entries, c.Done e.command ∨ c.Open e.command := by
      intro e he
      rcases hdraws he with he | he
      · exact hb.issued e he
      · cases action with
        | clientCommand n encoded =>
          obtain ⟨-, rfl⟩ := he
          exact Or.inr ho.1
        | changeConfig n newVoters => exact ho.elim
        | _ => exact he.elim
    have hb' : Books net a' c.world.trace G { c with world := w } := { hb with
      tidy := ⟨hb.tidy.outstanding, hb.tidy.pending, hb.tidy.unrecorded⟩
      known := hb.known.imp fun _ => x.known
      issued := hissued }
    obtain ⟨G', hb2, hr2⟩ := hb'.hearAll hread hs'.inv (htrace ▸ hs'.traced)
    have hworld := (hb'.tidy.hearAll new).2
    refine ⟨_, hact, a', G', ?_, ?_, fun hrec => ?_⟩
    · rw [hworld]
      exact hs'
    · rw [hworld]
      exact htrace ▸ hb2
    · obtain ⟨order, hro⟩ := hr hrec
      exact hr2 hrec order { hro with }

theorem accounted_cluster (net : Network) : net.cluster.Accounted net := by
  refine ⟨State.init, [], simulates_init net, ?_, fun _ => ⟨[], ?_⟩⟩
  · exact {
      tidy := Cluster.tidy_cluster net
      known := ⟨0, Or.inl rfl⟩
      heard := by
        intro m encoded result hm
        obtain ⟨v, -, hv⟩ := List.mem_flatMap.1 hm
        obtain ⟨call, hcall, hc⟩ := List.mem_map.1 hv
        have hone : (net.newNode v).start.out = [Effect.schedule .election 1] := rfl
        rw [hone, List.mem_singleton] at hcall
        subst hcall
        cases hc
      done := by simp
      issued := by
        rintro e (⟨v, he⟩ | ⟨t, he⟩)
        · simp [State.init] at he
        · simp [State.init] at he
      session := by simp
      fresh := fun _ _ => rfl }
  · exact {
      linearization := ⟨List.Perm.refl _, List.Pairwise.nil, trivial⟩
      stores := fun Q hQ => ⟨[], List.prefix_rfl, by rw [List.prefix_nil.1 hQ]; rfl⟩
      store := rfl
      stamps := by simp [Network.cluster]
      keys := by simp [Network.cluster]
      issued := by simp [Network.cluster]
      pending := by simp [Network.cluster]
      outstanding := by simp [Network.cluster] }

/-! ## Linearizability -/

/-- The history of a cluster without ReadIndex and with a fixed voting set is linearizable at every moment of every run: the
completed rows, each operation once, have an order that respects real time and in which the reference store gives what the clients
saw; and the store of every node is the reference store after some of them, so an operation that has not returned changed none. -/
theorem linearizability (hread : net.readIndex = false) (r : ClusterRun net) (k : ℕ) :
    ∃ order, Linearization ((r.state k).history.filter (·.completed)) order ∧
      (order.map fun row => (row.clientId, row.reqId)).Nodup ∧
      (net.recordHistory = true → ∀ n, ∃ rows, rows <+: order ∧ ((r.state k).world.nodes n).kv.store = after rows) := by
  obtain ⟨a, G, hs, hb, hr⟩ := (keeps_accounted hread).run (accounted_cluster net) r k
  cases hrec : net.recordHistory with
  | false =>
    rw [(hb.tidy.unrecorded hrec).1]
    exact ⟨[], ⟨List.Perm.refl _, List.Pairwise.nil, trivial⟩, List.nodup_nil, fun h => by cases h⟩
  | true =>
    obtain ⟨order, ho⟩ := hr hrec
    refine ⟨order, ho.linearization, ?_, fun _ n => ?_⟩
    · have hperm := ho.linearization.perm.map fun row => (row.clientId, row.reqId)
      exact hperm.nodup_iff.2 (ho.keys.sublist (List.filter_sublist.map _))
    · obtain ⟨G', hp, -, hG'⟩ := hb.catchUp hs.inv (hs.inv.commit_known n) (hs.recorded n)
      obtain ⟨rows, hrows, hst⟩ := (hG' order ho).stores _ hp
      exact ⟨rows, hrows, by rw [(hs.node n).kv, hst]⟩

/-- Server 0 is elected and commits the operations of two clients at once. -/
def twoClients (k : ℕ) : SimEvent :=
  [SimEvent.fire 0, .deliver 7, .deliver 12, .clientTick 0, .clientTick 0, .deliver 19, .deliver 21].getD k .other

/-- Both operations have returned, and have an order. -/
theorem linearizability_two_clients : growing.readIndex = false ∧
    (((growing.clusterRun twoClients).state 7).history.filter (·.completed)).length = 2 ∧
    ∃ order, Linearization (((growing.clusterRun twoClients).state 7).history.filter (·.completed)) order ∧
      (order.map fun row => (row.clientId, row.reqId)).Nodup ∧
      (growing.recordHistory = true → ∀ n, ∃ rows, rows <+: order ∧
        (((growing.clusterRun twoClients).state 7).world.nodes n).kv.store = after rows) := by
  have h := of_decide_eq_true (growing.holds_clusterRun twoClients 7
    (fun c => decide ((c.history.filter (·.completed)).length = 2)) (by decide +kernel))
  exact ⟨rfl, h, linearizability rfl _ 7⟩

end DeterministicRaft
