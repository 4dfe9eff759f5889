import DeterministicRaft.Linearizability

/-!
# Exactly-once sessions

A log may hold a client's request more than once. A client's requests come in increasing order, so its session, which holds only the
last one, tells the first occurrence of a request from every later one: the state machine ends where the first occurrences alone
take it, and these do what they do to the oracle's reference store.
-/

namespace DeterministicRaft

open History

namespace Command

/-- What a session tells commands apart by. -/
def requestId (c : Command) : Int × Int := (c.clientId, c.reqId)

/-- The first occurrences of the clients' requests, in order. -/
def firstOccurrences (cmds : List Command) : List Command :=
  cmds.foldl (fun kept c => if c.requestId ∈ kept.map requestId then kept else kept ++ [c]) []

/-- The first occurrences of each client's requests come in increasing order. -/
def Increasing (cmds : List Command) : Prop :=
  (firstOccurrences cmds).Pairwise fun c d => c.clientId = d.clientId → c.reqId < d.reqId

instance (cmds : List Command) : Decidable (Increasing cmds) := inferInstanceAs (Decidable (List.Pairwise _ _))

theorem firstOccurrences_concat (cmds : List Command) (c : Command) :
    firstOccurrences (cmds ++ [c]) =
      if c.requestId ∈ (firstOccurrences cmds).map requestId then firstOccurrences cmds else firstOccurrences cmds ++ [c] := by
  rw [firstOccurrences, List.foldl_append]
  rfl

/-- Every request occurs a first time. -/
theorem mem_firstOccurrences (cmds : List Command) (r : Int × Int) :
    r ∈ (firstOccurrences cmds).map requestId ↔ r ∈ cmds.map requestId := by
  induction cmds using List.reverseRecOn with
  | nil => exact Iff.rfl
  | append_singleton cmds c ih =>
    rw [firstOccurrences_concat, List.map_append, List.mem_append, ← ih]
    split
    · rename_i hold
      refine ⟨Or.inl, fun h => h.elim id fun h => ?_⟩
      rw [List.mem_singleton.1 h]
      exact hold
    · rw [List.map_append, List.mem_append]

theorem firstOccurrences_subset (cmds : List Command) : firstOccurrences cmds ⊆ cmds := by
  induction cmds using List.reverseRecOn with
  | nil => exact List.Subset.refl _
  | append_singleton cmds c ih =>
    rw [firstOccurrences_concat]
    split
    · exact List.Subset.trans ih (List.subset_append_left _ _)
    · exact List.append_subset.2 ⟨List.Subset.trans ih (List.subset_append_left _ _), List.subset_append_right _ _⟩

/-- The first occurrences in a prefix come first. -/
theorem firstOccurrences_append (cmds cmds' : List Command) : firstOccurrences cmds <+: firstOccurrences (cmds ++ cmds') := by
  induction cmds' using List.reverseRecOn with
  | nil => rw [List.append_nil]
  | append_singleton cmds' c ih =>
    rw [← List.append_assoc, firstOccurrences_concat]
    split
    · exact ih
    · exact ih.trans (List.prefix_append _ _)

theorem Increasing.of_append {cmds cmds' : List Command} (h : Increasing (cmds ++ cmds')) : Increasing cmds :=
  h.sublist (firstOccurrences_append cmds cmds').sublist

/-- A request that occurs for the first time is the client's highest. -/
theorem Increasing.lt {cmds : List Command} {c d : Command} (h : Increasing (cmds ++ [c])) (hnew : c.requestId ∉ cmds.map requestId)
    (hd : d ∈ firstOccurrences cmds) (hcid : d.clientId = c.clientId) : d.reqId < c.reqId := by
  rw [Increasing, firstOccurrences_concat, if_neg (by rwa [mem_firstOccurrences])] at h
  exact (List.pairwise_append.1 h).2.2 d hd c (List.mem_singleton.2 rfl) hcid

end Command

namespace KVStateMachine

open Command

variable {cmds pre mid : List Command} {c d : Command}

/-- The session of each client holds the last of its requests. -/
structure Tracked (firsts : List Command) (kv : KVStateMachine) : Prop where
  last : ∀ cid q result, kv.sessions.lookup cid = some (q, result) →
    (∃ c ∈ firsts, c.clientId = cid ∧ c.reqId = q) ∧ ∀ c ∈ firsts, c.clientId = cid → c.reqId ≤ q
  fresh : ∀ cid, kv.sessions.lookup cid = none → ∀ c ∈ firsts, c.clientId ≠ cid

variable {firsts : List Command} {kv : KVStateMachine}

/-- A later occurrence of a request finds its client's session, with a request that is no older. -/
theorem Tracked.old (h : Tracked firsts kv) (hold : c.requestId ∈ firsts.map requestId) :
    ∃ q result, kv.sessions.lookup c.clientId = some (q, result) ∧ c.reqId ≤ q := by
  obtain ⟨d, hd, hreq⟩ := List.mem_map.1 hold
  obtain ⟨hcid, hrid⟩ := Prod.mk.inj hreq
  cases hl : kv.sessions.lookup c.clientId with
  | none => exact absurd hcid (h.fresh _ hl d hd)
  | some last =>
    obtain ⟨q, result⟩ := last
    exact ⟨q, result, rfl, hrid ▸ (h.last _ _ _ hl).2 d hd hcid⟩

/-- The first occurrence of a request is executed, and the session records it. -/
theorem Tracked.apply_eq (h : Tracked firsts kv) (hs : c.isStructured = true)
    (hlt : ∀ d ∈ firsts, d.clientId = c.clientId → d.reqId < c.reqId) :
    kv.apply c = ({ (kv.execute c).1 with sessions := kv.sessions.insert c.clientId (c.reqId, (kv.execute c).2) }, (kv.execute c).2) := by
  have hsessions : (kv.execute c).1.sessions = kv.sessions := by
    unfold execute
    split_ifs <;> rfl
  rw [apply_new hs, hsessions]
  intro q result hl
  obtain ⟨⟨d, hd, hcid, hrid⟩, -⟩ := h.last _ _ _ hl
  exact hrid ▸ hlt d hd hcid

theorem Tracked.concat (h : Tracked firsts kv) (hs : c.isStructured = true)
    (hlt : ∀ d ∈ firsts, d.clientId = c.clientId → d.reqId < c.reqId) : Tracked (firsts ++ [c]) (kv.apply c).1 := by
  rw [h.apply_eq hs hlt]
  constructor
  · intro cid q result hl
    by_cases hcid : cid = c.clientId
    · subst hcid
      rw [Finmap.lookup_insert] at hl
      cases hl
      refine ⟨⟨c, by simp, rfl, rfl⟩, fun d hd hdc => ?_⟩
      rcases List.mem_append.1 hd with hd | hd
      · exact (hlt d hd hdc).le
      · rw [List.mem_singleton.1 hd]
    · rw [Finmap.lookup_insert_of_ne _ hcid] at hl
      obtain ⟨⟨d, hd, hdc⟩, hle⟩ := h.last _ _ _ hl
      refine ⟨⟨d, List.mem_append_left _ hd, hdc⟩, fun e he hec => ?_⟩
      rcases List.mem_append.1 he with he | he
      · exact hle e he hec
      · exact absurd (List.mem_singleton.1 he ▸ hec).symm hcid
  · intro cid hl d hd
    by_cases hcid : cid = c.clientId
    · subst hcid
      rw [Finmap.lookup_insert] at hl
      cases hl
    · rw [Finmap.lookup_insert_of_ne _ hcid] at hl
      rcases List.mem_append.1 hd with hd | hd
      · exact h.fresh cid hl d hd
      · exact List.mem_singleton.1 hd ▸ Ne.symm hcid

/-- The state machine ends where the first occurrences take it, and its sessions hold the last requests. -/
theorem after_firstOccurrences (hs : ∀ c ∈ cmds, c.isStructured = true) (hinc : Increasing cmds) :
    after apply {} cmds = after apply {} (firstOccurrences cmds) ∧ Tracked (firstOccurrences cmds) (after apply {} cmds) := by
  induction cmds using List.reverseRecOn with
  | nil => exact ⟨rfl, ⟨fun cid q result h => by simp [after] at h, fun _ _ _ hc => absurd hc List.not_mem_nil⟩⟩
  | append_singleton cmds c ih =>
    obtain ⟨heq, htrack⟩ := ih (fun c hc => hs c (List.mem_append_left _ hc)) hinc.of_append
    rw [after_concat, firstOccurrences_concat]
    split
    · rename_i hold
      obtain ⟨q, result, hl, hle⟩ := htrack.old hold
      rw [apply_old hl hle]
      exact ⟨heq, htrack⟩
    · rename_i hnew
      refine ⟨by rw [after_concat, heq], htrack.concat (hs c (by simp)) fun d hd => hinc.lt ?_ hd⟩
      rwa [← mem_firstOccurrences]

/-- A first occurrence returns what it returns after the first occurrences alone. -/
theorem apply_firstOccurrences (hs : ∀ c ∈ cmds, c.isStructured = true) (hinc : Increasing cmds) (h : cmds = pre ++ c :: mid)
    (hnew : c.requestId ∉ pre.map requestId) :
    (∃ later, firstOccurrences cmds = firstOccurrences pre ++ c :: later) ∧
    (apply (after apply {} pre) c).2 = (apply (after apply {} (firstOccurrences pre)) c).2 := by
  subst h
  constructor
  · obtain ⟨later, hlater⟩ := firstOccurrences_append (pre ++ [c]) mid
    rw [firstOccurrences_concat, if_neg (by rwa [mem_firstOccurrences]), List.append_assoc, List.append_assoc] at hlater
    exact ⟨later, hlater.symm⟩
  · rw [(after_firstOccurrences (fun c hc => hs c (List.mem_append_left _ hc)) hinc.of_append).1]

/-- Requests that come once each, in increasing order, do what they do to the reference store. -/
theorem results_reference (rows : List HistoryEntry) (hs : ∀ row ∈ rows, row.command.isStructured = true)
    (hinc : (rows.map HistoryEntry.command).Pairwise fun c d => c.clientId = d.clientId → c.reqId < d.reqId) :
    results Linearizability.apply ∅ rows = results apply {} (rows.map HistoryEntry.command) ∧
    Linearizability.after rows = (after apply {} (rows.map HistoryEntry.command)).store ∧
    Tracked (rows.map HistoryEntry.command) (after apply {} (rows.map HistoryEntry.command)) := by
  induction rows using List.reverseRecOn with
  | nil => exact ⟨rfl, rfl, fun cid q result h => by simp [after] at h, fun _ _ _ hc => absurd hc List.not_mem_nil⟩
  | append_singleton rows row ih =>
    rw [List.map_append, List.map_singleton] at hinc ⊢
    obtain ⟨hinc, -, hlt⟩ := List.pairwise_append.1 hinc
    obtain ⟨hres, hafter, htrack⟩ := ih (fun row hr => hs row (List.mem_append_left _ hr)) hinc
    have hstruct := hs row (by simp)
    have hlt : ∀ d ∈ rows.map HistoryEntry.command, d.clientId = row.command.clientId → d.reqId < row.command.reqId :=
      fun d hd => hlt d hd _ (List.mem_singleton.2 rfl)
    refine ⟨?_, ?_, ?_⟩
    · rw [results_concat, results_concat, hres, ← Linearizability.after, hafter, htrack.apply_eq hstruct hlt, execute_eq]
    · rw [Linearizability.after, after_concat, after_concat, ← Linearizability.after, hafter, htrack.apply_eq hstruct hlt, execute_eq]
    · rw [after_concat]
      exact htrack.concat hstruct hlt

/-- A session is left alone by the commands of other clients and by those that are old to it. -/
theorem lookup_after {cid q : Int} {result : String} (h : kv.sessions.lookup cid = some (q, result))
    (hmid : ∀ e ∈ mid, e.clientId = cid → e.reqId ≤ q) : (after apply kv mid).sessions.lookup cid = some (q, result) := by
  induction mid using List.reverseRecOn with
  | nil => exact h
  | append_singleton mid e ih =>
    have ih := ih fun e he => hmid e (List.mem_append_left _ he)
    rw [after_concat]
    by_cases hcid : e.clientId = cid
    · rw [apply_old (by rw [hcid, ih]) (hmid e (by simp) hcid)]
      exact ih
    · generalize after apply kv mid = kv at ih ⊢
      have hsessions : (kv.execute e).1.sessions = kv.sessions := by
        unfold execute
        split_ifs <;> rfl
      unfold apply
      split
      · exact ih
      · split
        · split
          · exact ih
          · simp only [hsessions]
            rw [Finmap.lookup_insert_of_ne _ (Ne.symm hcid), ih]
        · simp only [hsessions]
          rw [Finmap.lookup_insert_of_ne _ (Ne.symm hcid), ih]

/-- A later occurrence of a client's most recent request returns the result of the first one. -/
theorem apply_again (hs : ∀ x ∈ pre ++ [c], x.isStructured = true) (hinc : Increasing (pre ++ [c]))
    (hnew : c.requestId ∉ pre.map requestId) (hreq : d.requestId = c.requestId)
    (hmid : ∀ e ∈ mid, e.clientId = c.clientId → e.reqId ≤ c.reqId) (hd : d.isStructured = true) :
    (apply (after apply {} (pre ++ c :: mid)) d).2 = (apply (after apply {} pre) c).2 := by
  obtain ⟨hcid, hrid⟩ := Prod.mk.inj hreq
  have hstruct := hs c (by simp)
  have htrack := (after_firstOccurrences (fun c hc => hs c (List.mem_append_left _ hc)) hinc.of_append).2
  have hfirst := htrack.apply_eq hstruct fun e he => hinc.lt hnew he
  have hl : (apply (after apply {} pre) c).1.sessions.lookup c.clientId =
      some (c.reqId, (apply (after apply {} pre) c).2) := by
    rw [hfirst, Finmap.lookup_insert]
  rw [show pre ++ c :: mid = (pre ++ [c]) ++ mid by simp, after_append, after_concat, apply,
    if_neg (by simp [hd]), hcid, lookup_after hl hmid]
  simp only [hrid, le_rfl, if_true]

end KVStateMachine

open KVStateMachine Command in
/-- A sequence of commands in which each client's requests first occur in increasing order does what the first occurrences alone do.
These do what they do to the oracle's reference store, a later occurrence of a client's most recent request returns the result of
the first one, and a state machine restored from captured state goes on in the same way. -/
theorem exactly_once (cmds : List Command) (hs : ∀ c ∈ cmds, c.isStructured = true) (hinc : Increasing cmds) :
    after apply {} cmds = after apply {} (firstOccurrences cmds) ∧
    (∀ pre c post, cmds = pre ++ c :: post → c.requestId ∉ pre.map requestId →
      (∃ later, firstOccurrences cmds = firstOccurrences pre ++ c :: later) ∧
      (apply (after apply {} pre) c).2 = (apply (after apply {} (firstOccurrences pre)) c).2) ∧
    (∀ rows : List HistoryEntry, rows.map HistoryEntry.command = firstOccurrences cmds →
      results Linearizability.apply ∅ rows = results apply {} (firstOccurrences cmds) ∧
      Linearizability.after rows = (after apply {} (firstOccurrences cmds)).store) ∧
    (∀ pre c mid d post, cmds = pre ++ c :: (mid ++ d :: post) → c.requestId ∉ pre.map requestId → d.requestId = c.requestId →
      (∀ e ∈ mid, e.clientId = c.clientId → e.reqId ≤ c.reqId) →
      (apply (after apply {} (pre ++ c :: mid)) d).2 = (apply (after apply {} pre) c).2) ∧
    ∀ pre post (fresh : KVStateMachine), cmds = pre ++ post →
      let captured := (after apply {} pre).capture
      results apply {} cmds = results apply {} pre ++ results apply (fresh.restore captured.1 captured.2) post ∧
      after apply {} cmds = after apply (fresh.restore captured.1 captured.2) post := by
  refine ⟨(after_firstOccurrences hs hinc).1, fun pre c post h hnew => apply_firstOccurrences hs hinc h hnew, fun rows hrows => ?_,
    fun pre c mid d post h hnew hreq hmid => ?_, fun pre post fresh h => ?_⟩
  · have hkept : ∀ row ∈ rows, row.command.isStructured = true := fun row hrow =>
      hs _ (firstOccurrences_subset cmds (hrows ▸ List.mem_map_of_mem hrow))
    obtain ⟨hres, hafter, -⟩ := results_reference rows hkept (by rw [hrows]; exact hinc)
    rw [← hrows]
    exact ⟨hres, hafter⟩
  · subst h
    have hpre : ∀ x ∈ pre ++ [c], x.isStructured = true := fun x hx => hs x (by
      rw [List.mem_append, List.mem_singleton] at hx
      simp only [List.mem_append, List.mem_cons]
      tauto)
    refine apply_again hpre ?_ hnew hreq hmid (hs d (by simp))
    rw [show pre ++ c :: (mid ++ d :: post) = (pre ++ [c]) ++ (mid ++ d :: post) by simp] at hinc
    exact hinc.of_append
  · subst h
    exact ⟨results_append .., after_append ..⟩

/-- A write, a client that swaps what it wrote, both of them again, and the second write of the first client. -/
def retriedSwap : List Command :=
  [⟨0, 0, PUT, "k", "A", ""⟩, ⟨1, 4, CAS, "k", "B", "A"⟩, ⟨0, 0, PUT, "k", "A", ""⟩, ⟨0, 2, PUT, "k", "C", ""⟩,
    ⟨1, 4, CAS, "k", "B", "A"⟩]

/-- The swap that is retried would fail if it were executed again. -/
theorem exactly_once_retriedSwap :
    (KVStateMachine.apply (after KVStateMachine.apply {} (retriedSwap.take 4)) ⟨1, 4, CAS, "k", "B", "A"⟩).2 = "ok" :=
  ((exactly_once retriedSwap (by decide) (by decide)).2.2.2.1 [⟨0, 0, PUT, "k", "A", ""⟩] ⟨1, 4, CAS, "k", "B", "A"⟩
    [⟨0, 0, PUT, "k", "A", ""⟩, ⟨0, 2, PUT, "k", "C", ""⟩] ⟨1, 4, CAS, "k", "B", "A"⟩ [] rfl (by decide) rfl
    (by decide)).trans (by decide)

end DeterministicRaft
