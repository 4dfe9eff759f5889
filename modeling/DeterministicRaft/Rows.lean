import DeterministicRaft.Clients

/-!
# The rows of a history

With a history recorded, a client's rows are its requests in order: each is invoked after the one before it has returned. This rests on
the driver alone, and holds however often a node, or several of them, apply an operation.
-/

namespace DeterministicRaft

open Refinement

/-- The client and the request of a row. -/
def HistoryEntry.tag (row : HistoryEntry) : Int × Int := (row.clientId, row.reqId)

/-- The rows of a client. -/
def rowsOf (history : List HistoryEntry) (cid : Int) : List HistoryEntry := history.filter fun row => row.clientId = cid

/-- The list after a change of one element that its key tells from all others. -/
theorem mem_modify_of_nodup {α β : Type} {l : List α} {f : α → α} {g : α → β} {i : ℕ} {a x : α} (hi : l[i]? = some a)
    (hn : (l.map g).Nodup) (hx : x ∈ l.modify i f) : x = f a ∨ (x ∈ l ∧ g x ≠ g a) := by
  obtain ⟨j, hj⟩ := List.mem_iff_getElem?.1 hx
  rw [List.getElem?_modify] at hj
  obtain ⟨y, hy, hyx⟩ := Option.map_eq_some_iff.1 hj
  by_cases hij : i = j
  · subst hij
    rw [hi] at hy
    cases hy
    rw [if_pos rfl] at hyx
    exact Or.inl hyx.symm
  · rw [if_neg hij] at hyx
    subst hyx
    refine Or.inr ⟨List.mem_of_getElem? hy, fun hg => hij ?_⟩
    have hgi : (l.map g)[i]? = some (g a) := by rw [List.getElem?_map, hi, Option.map_some]
    have hgj : (l.map g)[j]? = some (g a) := by rw [List.getElem?_map, hy, Option.map_some, hg]
    have hlen : i < (l.map g).length := (List.getElem?_eq_some_iff.1 hgi).1
    exact (List.getElem?_inj hlen hn).1 (hgi.trans hgj.symm)

/-- What the changed element keeps, the elements picked out keep. -/
theorem map_filter_modify {α β : Type} (l : List α) {f : α → α} {g : α → β} {p : α → Bool} (hg : ∀ x, g (f x) = g x)
    (hp : ∀ x, p (f x) = p x) (i : ℕ) : ((l.modify i f).filter p).map g = (l.filter p).map g := by
  induction l generalizing i with
  | nil => simp
  | cons x l ih =>
    cases i with
    | zero =>
      rw [List.modify_zero_cons, List.filter_cons, List.filter_cons, hp]
      split
      · rw [List.map_cons, List.map_cons, hg]
      · rfl
    | succ i =>
      rw [List.modify_succ_cons, List.filter_cons, List.filter_cons]
      split
      · rw [List.map_cons, List.map_cons, ih]
      · exact ih i

namespace Cluster

variable {net : Network} {c : Cluster} {cid : Int} {encoded : String}

/-- How many requests the client has invoked. -/
def invoked (c : Cluster) (cid : Int) : ℕ := c.nextReq cid + if (c.outstanding.lookup cid).isSome then 1 else 0

/-- The rows against the driver's tables: each client has one row for each of its requests, those before its next one have returned, and
each was invoked after the one before it had returned. -/
structure Rows (c : Cluster) : Prop where
  numbered : ∀ cid, (rowsOf c.history cid).map (·.reqId) = (List.range (c.invoked cid)).map (fun q : ℕ => (q : Int))
  distinct : (c.history.map (·.tag)).Nodup
  stamps : ∀ row ∈ c.history, row.invokeStep ≤ c.steps
  returns : ∀ row ∈ c.history, ∀ ret, row.returnStep = some ret → row.invokeStep ≤ ret ∧ ret ≤ c.steps
  settled : ∀ row ∈ c.history, row.reqId < c.nextReq row.clientId → ∃ ret, row.returnStep = some ret
  follows : ∀ row ∈ c.history, ∀ next ∈ c.history, next.clientId = row.clientId → next.reqId = row.reqId + 1 →
    ∃ ret, row.returnStep = some ret ∧ ret < next.invokeStep
  outstanding : ∀ cid encoded, c.outstanding.lookup cid = some encoded →
    ∃ i row, c.pending.lookup encoded = some i ∧ c.history[i]? = some row ∧ row.tag = (cid, (c.nextReq cid : Int))

namespace Rows

/-- A row's request has been invoked. -/
theorem reqId_lt (h : Rows c) {row : HistoryEntry} (hr : row ∈ c.history) :
    ∃ q : ℕ, row.reqId = q ∧ q < c.invoked row.clientId := by
  have hmem : row.reqId ∈ (rowsOf c.history row.clientId).map (·.reqId) :=
    List.mem_map.2 ⟨row, List.mem_filter.2 ⟨hr, by simp⟩, rfl⟩
  rw [h.numbered] at hmem
  obtain ⟨q, hq, he⟩ := List.mem_map.1 hmem
  exact ⟨q, he.symm, List.mem_range.1 hq⟩

/-- An outstanding request completes. -/
theorem note_close (h : Rows c) (ht : Tidy net c) (hrec : net.recordHistory = true) (ho : c.outstanding.lookup cid = some encoded)
    (result : String) : Rows ((c.close cid).note net encoded result) := by
  obtain ⟨i, row, hp, hi, htag⟩ := h.outstanding cid encoded ho
  have hp' : (c.close cid).pending.lookup encoded = some i := hp
  rw [note_eq hrec hp']
  have hcases : ∀ x ∈ c.history.modify i (·.complete c.steps result),
      x = row.complete c.steps result ∨ (x ∈ c.history ∧ x.tag ≠ row.tag) :=
    fun x hx => mem_modify_of_nodup hi h.distinct hx
  have hrow : row ∈ c.history := List.mem_of_getElem? hi
  have hcid : row.clientId = cid := congrArg Prod.fst htag
  have hreq : row.reqId = c.nextReq cid := congrArg Prod.snd htag
  have hinvoked : ∀ cid', invoked (c.close cid) cid' = c.invoked cid' := by
    intro cid'
    by_cases hc : cid' = cid
    · subst hc
      simp [invoked, close, ho]
    · simp [invoked, close, hc, Finmap.lookup_erase_ne hc]
  refine ⟨?_, ?_, ?_, ?_, ?_, ?_, ?_⟩
  · intro cid'
    show (rowsOf (c.history.modify i (·.complete c.steps result)) cid').map (·.reqId) = (List.range (invoked (c.close cid) cid')).map (fun q : ℕ => (q : Int))
    rw [rowsOf, map_filter_modify c.history (f := (·.complete c.steps result)) (fun _ => rfl) (fun _ => rfl), hinvoked]
    exact h.numbered cid'
  · have htags := map_modify c.history (f := (·.complete c.steps result)) (g := (·.tag)) (fun _ => rfl) i
    exact htags ▸ h.distinct
  · exact forall_mem_modify (f := (·.complete c.steps result)) h.stamps (fun _ hx => hx) i
  · intro x hx ret hret
    rcases hcases x hx with rfl | ⟨hx, -⟩
    · cases hret
      exact ⟨h.stamps row hrow, le_rfl⟩
    · exact h.returns x hx ret hret
  · intro x hx hlt
    rcases hcases x hx with rfl | ⟨hx, hne⟩
    · exact ⟨c.steps, rfl⟩
    · refine h.settled x hx ?_
      simp only [close] at hlt
      by_cases hc : x.clientId = cid
      · rw [hc, Function.update_self] at hlt
        rw [hc]
        have hneq : x.reqId ≠ c.nextReq cid := fun he => hne (by rw [HistoryEntry.tag, HistoryEntry.tag, hc, hcid, he, hreq])
        push_cast at hlt
        omega
      · rwa [Function.update_of_ne hc] at hlt
  · intro x hx y hy hclient hnext
    obtain ⟨y', hy', hyc, hyr, hyi⟩ : ∃ y' ∈ c.history, y'.clientId = y.clientId ∧ y'.reqId = y.reqId ∧ y'.invokeStep = y.invokeStep := by
      rcases hcases y hy with rfl | ⟨hy, -⟩
      · exact ⟨row, hrow, rfl, rfl, rfl⟩
      · exact ⟨y, hy, rfl, rfl, rfl⟩
    rcases hcases x hx with rfl | ⟨hx, -⟩
    · obtain ⟨q, hq, hlt⟩ := h.reqId_lt hy'
      have hclient : y.clientId = row.clientId := hclient
      have hnext : y.reqId = row.reqId + 1 := hnext
      rw [hyc, hclient, hcid] at hlt
      simp only [invoked, ho, Option.isSome_some, if_true] at hlt
      omega
    · obtain ⟨ret, hret, hlt⟩ := h.follows x hx y' hy' (hyc.trans hclient) (hyr.trans hnext)
      exact ⟨ret, hret, hyi ▸ hlt⟩
  · intro cid' encoded' hl
    obtain ⟨hc, hopen⟩ := lookup_close.1 hl
    obtain ⟨j, row', hj, hrow', htag'⟩ := h.outstanding cid' encoded' hopen
    have hne : encoded' ≠ encoded := by
      rintro rfl
      obtain ⟨-, -, he1⟩ := ht.outstanding cid _ ho
      obtain ⟨-, -, he2⟩ := ht.outstanding cid' _ hopen
      exact hc (request_inj (he2.symm.trans he1)).1
    have hij : i ≠ j := by
      rintro rfl
      rw [hi] at hrow'
      cases hrow'
      exact hc (congrArg Prod.fst (htag'.symm.trans htag))
    refine ⟨j, row', ?_, ?_, ?_⟩
    · show (c.pending.erase encoded).lookup encoded' = some j
      rw [Finmap.lookup_erase_ne hne]
      exact hj
    · show (c.history.modify i (·.complete c.steps result))[j]? = some row'
      rw [List.getElem?_modify, hrow']
      simp [hij]
    · simpa [close, Function.update_of_ne hc] using htag'

/-- An idle client invokes its next request, after all that have returned. -/
theorem begin (h : Rows c) (hrec : net.recordHistory = true) (hnone : c.outstanding.lookup cid = none)
    (hfresh : ∀ row ∈ c.history, ∀ ret, row.returnStep = some ret → ret < c.steps)
    (hother : ∀ cid' encoded', c.outstanding.lookup cid' = some encoded' → encoded' ≠ request cid (c.nextReq cid)) :
    Rows (c.begin net cid) := by
  have hbegin : c.begin net cid = { c with
      outstanding := c.outstanding.insert cid (request cid (c.nextReq cid))
      history := c.history ++ [newRow (clientWorkload cid (c.nextReq cid)) c.steps]
      pending := c.pending.insert (request cid (c.nextReq cid)) c.history.length } := by
    unfold Cluster.begin invoke
    rw [if_neg (by simp [hrec])]
  have hcid : (newRow (clientWorkload cid (c.nextReq cid)) c.steps).clientId = cid := clientId_clientWorkload _ _
  have hreq : (newRow (clientWorkload cid (c.nextReq cid)) c.steps).reqId = c.nextReq cid := reqId_clientWorkload _ _
  have hstep : (newRow (clientWorkload cid (c.nextReq cid)) c.steps).invokeStep = c.steps := rfl
  have hret : (newRow (clientWorkload cid (c.nextReq cid)) c.steps).returnStep = none := rfl
  have hidle : c.invoked cid = c.nextReq cid := by simp [invoked, hnone]
  rw [hbegin]
  generalize newRow (clientWorkload cid (c.nextReq cid)) c.steps = row at hcid hreq hstep hret
  have hlt : ∀ x ∈ c.history, x.clientId = cid → x.reqId < c.nextReq cid := by
    intro x hx hc
    obtain ⟨q, hq, hlt⟩ := h.reqId_lt hx
    rw [hc, hidle] at hlt
    omega
  refine ⟨?_, ?_, ?_, ?_, ?_, ?_, ?_⟩
  · intro cid'
    show (rowsOf (c.history ++ [row]) cid').map (·.reqId) = _
    have hrows := h.numbered cid'
    rw [rowsOf] at hrows ⊢
    rw [List.filter_append, List.map_append, hrows]
    by_cases hc : cid' = cid
    · subst hc
      simp [invoked, hnone, hcid, hreq, List.range_succ]
    · have hne : ¬row.clientId = cid' := fun he => hc (he.symm.trans hcid)
      simp [invoked, hne, Finmap.lookup_insert_of_ne _ hc]
  · rw [List.map_append, List.map_singleton, List.nodup_append]
    refine ⟨h.distinct, List.nodup_singleton _, fun a ha b hb hab => ?_⟩
    rw [List.mem_singleton.1 hb] at hab
    obtain ⟨x, hx, rfl⟩ := List.mem_map.1 ha
    have := hlt x hx ((congrArg Prod.fst hab).trans hcid)
    have hxr : x.reqId = row.reqId := congrArg Prod.snd hab
    omega
  · intro x hx
    rcases List.mem_append.1 hx with hx | hx
    · exact h.stamps x hx
    · rw [List.mem_singleton.1 hx, hstep]
  · intro x hx ret hxr
    rcases List.mem_append.1 hx with hx | hx
    · exact h.returns x hx ret hxr
    · rw [List.mem_singleton.1 hx, hret] at hxr
      cases hxr
  · intro x hx hxlt
    rcases List.mem_append.1 hx with hx | hx
    · exact h.settled x hx hxlt
    · rw [List.mem_singleton.1 hx, hcid, hreq] at hxlt
      exact absurd hxlt (lt_irrefl _)
  · intro x hx y hy hclient hnext
    rcases List.mem_append.1 hx with hx | hx
    · rcases List.mem_append.1 hy with hy | hy
      · exact h.follows x hx y hy hclient hnext
      · rw [List.mem_singleton.1 hy] at hclient hnext ⊢
        obtain ⟨ret, hxr⟩ := h.settled x hx (by rw [← hclient, hcid]; omega)
        exact ⟨ret, hxr, hstep ▸ hfresh x hx ret hxr⟩
    · rw [List.mem_singleton.1 hx, hcid] at hclient
      rw [List.mem_singleton.1 hx, hreq] at hnext
      rcases List.mem_append.1 hy with hy | hy
      · have := hlt y hy hclient
        omega
      · rw [List.mem_singleton.1 hy, hreq] at hnext
        omega
  · intro cid' encoded' hl
    by_cases hc : cid' = cid
    · subst hc
      rw [Finmap.lookup_insert, Option.some.injEq] at hl
      refine ⟨c.history.length, row, ?_, by simp, by rw [HistoryEntry.tag, hcid, hreq]⟩
      rw [← hl, Finmap.lookup_insert]
    · rw [Finmap.lookup_insert_of_ne _ hc] at hl
      obtain ⟨j, row', hj, hrow', htag'⟩ := h.outstanding cid' encoded' hl
      refine ⟨j, row', ?_, ?_, htag'⟩
      · rw [Finmap.lookup_insert_of_ne _ (hother cid' encoded' hl)]
        exact hj
      · rw [List.getElem?_append_left (List.getElem?_eq_some_iff.1 hrow').1]
        exact hrow'

end Rows

/-- The tables of the driver agree with each other, and with the rows. -/
structure Recorded (net : Network) (c : Cluster) : Prop where
  tidy : Tidy net c
  rows : Rows c

namespace Recorded

variable {c' : Cluster}

/-- The rows and the tables are about neither the nodes nor whose turn it is. -/
theorem congr (h : Recorded net c) (hs : c'.steps = c.steps) (hn : c'.nextReq = c.nextReq) (ho : c'.outstanding = c.outstanding)
    (hh : c'.history = c.history) (hp : c'.pending = c.pending) : Recorded net c' := by
  obtain ⟨world, steps, turn, nextReq, outstanding, history, pending⟩ := c
  obtain ⟨world', steps', turn', nextReq', outstanding', history', pending'⟩ := c'
  cases hs
  cases hn
  cases ho
  cases hh
  cases hp
  obtain ⟨⟨ht1, ht2, ht3⟩, ⟨hr1, hr2, hr3, hr4, hr5, hr6, hr7⟩⟩ := h
  exact ⟨⟨ht1, ht2, ht3⟩, ⟨hr1, hr2, hr3, hr4, hr5, hr6, hr7⟩⟩

/-- After the simulator has taken an event, every return lies before its step. -/
theorem tick (h : Recorded net c) :
    Recorded net c.tick ∧ ∀ row ∈ c.tick.history, ∀ ret, row.returnStep = some ret → ret < c.tick.steps := by
  refine ⟨⟨⟨h.tidy.outstanding, h.tidy.pending, h.tidy.unrecorded⟩, ?_⟩, fun row hr ret hret => ?_⟩
  · refine ⟨h.rows.numbered, h.rows.distinct, fun row hr => ?_, fun row hr ret hret => ?_, h.rows.settled, h.rows.follows,
      h.rows.outstanding⟩
    · exact (h.rows.stamps row hr).trans (Int.le_add_one le_rfl)
    · obtain ⟨h1, h2⟩ := h.rows.returns row hr ret hret
      exact ⟨h1, h2.trans (Int.le_add_one le_rfl)⟩
  · exact Int.lt_add_one_iff.2 (h.rows.returns row hr ret hret).2

variable (hrec : net.recordHistory = true)

include hrec

/-- However often an operation is applied, the first time alone counts. -/
theorem onApply (h : Recorded net c) (encoded result : String) : Recorded net (c.onApply net encoded result) := by
  by_cases ho : c.Open encoded
  · obtain ⟨cid, ho⟩ := ho
    rw [h.tidy.onApply_open ho]
    exact ⟨h.tidy.note_close ho result, h.rows.note_close h.tidy hrec ho result⟩
  · rw [h.tidy.onApply_other ho]
    exact h

theorem hear (h : Recorded net c) (e : Effect) : Recorded net (c.hear net e) := by
  cases e with
  | onApply encoded result => exact h.onApply hrec encoded result
  | _ => exact h

theorem hearAll (h : Recorded net c) (calls : Trace) : Recorded net (calls.foldl (fun c call => c.hear net call.2) c) := by
  induction calls generalizing c with
  | nil => exact h
  | cons call calls ih => exact ih (h.hear hrec call.2)

theorem act (h : Recorded net c) (action : Action) : Ensures (c.act net action) (Recorded net) := by
  unfold Cluster.act
  refine Ensures.bind (Ensures.trivial _) fun world _ => Ensures.pure ?_
  have hw : Recorded net { c with world } := h.congr rfl rfl rfl rfl rfl
  exact hw.hearAll hrec _

theorem submit (h : Recorded net c) (target : NodeId) (encoded : String) : Ensures (c.submit net target encoded) (Recorded net) := by
  unfold Cluster.submit
  simp only
  split
  · split
    · exact Ensures.pure (h.onApply hrec encoded _)
    · split
      · exact h.act hrec _
      · exact h.act hrec _
  · exact Ensures.pure h

/-- A client's tick, in an event that has only begun. -/
theorem clientTick (h : Recorded net c) (hfresh : ∀ row ∈ c.history, ∀ ret, row.returnStep = some ret → ret < c.steps)
    (target : NodeId) : Ensures (c.clientTick net target) (Recorded net) := by
  have hlt : c.clientTurn % WORKLOAD_CLIENTS < WORKLOAD_CLIENTS := Nat.mod_lt _ (by decide)
  unfold Cluster.clientTick
  simp only
  generalize hcid : ((c.clientTurn % WORKLOAD_CLIENTS : ℕ) : Int) = cid
  have h1 : Recorded net { c with clientTurn := c.clientTurn + 1 } := h.congr rfl rfl rfl rfl rfl
  split
  · rename_i hnone
    have hother : ∀ cid' encoded', c.outstanding.lookup cid' = some encoded' → encoded' ≠ request cid (c.nextReq cid) := by
      intro cid' encoded' hl he
      obtain ⟨-, -, he'⟩ := h.tidy.outstanding cid' encoded' hl
      obtain ⟨rfl, -⟩ := request_inj (he'.symm.trans he)
      rw [hl] at hnone
      cases hnone
    have hbegin : Recorded net ({ c with clientTurn := c.clientTurn + 1 }.begin net cid) :=
      ⟨h1.tidy.begin (by omega) (by omega) hnone, h1.rows.begin hrec hnone hfresh hother⟩
    exact hbegin.submit hrec target _
  · exact h1.submit hrec target _

end Recorded

end Cluster

end DeterministicRaft
