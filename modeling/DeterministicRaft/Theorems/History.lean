import DeterministicRaft.Recording
import DeterministicRaft.Rows
import DeterministicRaft.Walks

/-!
# Recording a history is invisible

With or without a history a run is the same run. With one, its rows are what the oracle relies on: each client's requests, one after the
other.
-/

namespace DeterministicRaft

open Refinement

/-- What the oracle relies on: a client's rows are its requests from the first on, each that it has left behind is completed, and each
is completed before the next one is invoked. -/
structure WellRecorded (c : Cluster) : Prop where
  requests : ∀ cid, (rowsOf c.history cid).map (·.reqId) = (List.range (c.invoked cid)).map (fun q : ℕ => (q : Int))
  completed : ∀ row ∈ c.history, row.reqId < c.nextReq row.clientId → ∃ ret, row.returnStep = some ret
  returns : ∀ row ∈ c.history, ∀ ret, row.returnStep = some ret → row.invokeStep ≤ ret
  sequential : ∀ cid i row next, (rowsOf c.history cid)[i]? = some row → (rowsOf c.history cid)[i + 1]? = some next →
    ∃ ret, row.returnStep = some ret ∧ ret < next.invokeStep
  unique : (c.history.map (·.tag)).Nodup

/-- A row of a client, by its place among them. -/
theorem Cluster.Rows.get {c : Cluster} (h : c.Rows) {cid : Int} {i : ℕ} {row : HistoryEntry} (hr : (rowsOf c.history cid)[i]? = some row) :
    row ∈ c.history ∧ row.clientId = cid ∧ row.reqId = i := by
  obtain ⟨hm, hc⟩ := List.mem_filter.1 (List.mem_of_getElem? hr)
  refine ⟨hm, by simpa using hc, ?_⟩
  have hi := congrArg (·[i]?) (h.numbered cid)
  simp only [List.getElem?_map, hr, Option.map_some] at hi
  obtain ⟨q, hq, he⟩ := Option.map_eq_some_iff.1 hi.symm
  obtain ⟨hlt, rfl⟩ := List.getElem?_eq_some_iff.1 hq
  rw [← he, List.getElem_range]

/-- The rows a driver keeps are well recorded. -/
theorem Cluster.Rows.wellRecorded {c : Cluster} (h : c.Rows) : WellRecorded c where
  requests := h.numbered
  completed := h.settled
  returns row hr ret hret := (h.returns row hr ret hret).1
  sequential cid i row next hr hn := by
    obtain ⟨hrow, hrc, hrq⟩ := h.get hr
    obtain ⟨hnext, hnc, hnq⟩ := h.get hn
    refine h.follows row hrow next hnext (hnc.trans hrc.symm) ?_
    rw [hnq, hrq]
    push_cast
    rfl
  unique := h.distinct

namespace Harness

variable {R : RandomSource} {settings : Settings}

/-- Every event but a client's tick keeps what the driver has recorded. -/
theorem walk_recorded (hrec : settings.recordHistory = true) : Walk settings fun before after : Harness R =>
    Cluster.Recorded settings.network before.cluster → Cluster.Recorded settings.network after.cluster where
  trans h h' hr := h' (h hr)
  aside _ hcl _ hr := hcl ▸ hr
  schedule self delay fn := (Apart.schedule self delay fn).mono fun after h hr => h.cluster ▸ hr
  record _ _ _ hr := hr
  act self action _ := by
    by_cases hr : Cluster.Recorded settings.network self.cluster
    · exact (act_cluster self (hr.act hrec action)).mono fun _ h _ => h
    · exact fun _ _ h => absurd h hr
  pause self n _ _ := by
    unfold Harness.pause
    by_cases hr : Cluster.Recorded settings.network self.cluster
    · exact Ensures.bind (act_cluster _ (hr.act hrec _)) fun _ h => Ensures.pure fun _ => h
    · exact fun _ _ h => absurd h hr
  resume self n := by
    unfold Harness.resume
    by_cases hr : Cluster.Recorded settings.network self.cluster
    · exact Ensures.bind (act_cluster _ (hr.act hrec _)) fun _ h => Ensures.pure fun _ => h
    · exact fun _ _ h => absurd h hr

/-- A client's tick in an event that has only begun. -/
theorem clientTick_recorded (hrec : settings.recordHistory = true) {self : Harness R}
    (hr : Cluster.Recorded settings.network self.cluster)
    (hfresh : ∀ row ∈ self.cluster.history, ∀ ret, row.returnStep = some ret → ret < self.cluster.steps) :
    Ensures (self.clientTick settings) fun after => Cluster.Recorded settings.network after.cluster := by
  have hw := walk_recorded (R := R) hrec
  unfold Harness.clientTick
  simp only
  refine Ensures.bind (Ensures.trivial _) fun draw _ => ?_
  obtain ⟨target, sim⟩ := draw
  refine Ensures.bind (Ensures.raising (hr.clientTick hrec hfresh target)) fun c hc => ?_
  refine Ensures.bind (follow_cluster _ c) fun mid hmid => ?_
  subst hmid
  split
  · exact (hw.schedule mid _ _).mono fun _ h => h hc
  · exact (hw.schedule mid _ _).mono fun _ h => h hc

theorem step_recorded (hrec : settings.recordHistory = true) {self : Harness R}
    (hr : Cluster.Recorded settings.network self.cluster) :
    Ensures (self.step settings) fun result => Cluster.Recorded settings.network result.2.cluster := by
  unfold Harness.step
  split
  · exact Ensures.pure hr
  · rename_i due fn clock _
    obtain ⟨htick, hfresh⟩ := hr.tick
    refine Ensures.bind (Q := fun after => Cluster.Recorded settings.network after.cluster) ?_ fun _ h => Ensures.pure h
    by_cases hfn : fn = .clientTick
    · subst hfn
      exact clientTick_recorded hrec htick hfresh
    · exact ((walk_recorded hrec).call _ hfn).mono fun _ h => h htick

theorem init_recorded (seed : R.State) :
    Ensures (init settings seed) fun after => Cluster.Recorded settings.network after.cluster := by
  have h0 : Cluster.Recorded settings.network { world := settings.world } := by
    refine Cluster.Recorded.congr (c := settings.network.cluster) ⟨Cluster.tidy_cluster _, ?_⟩ rfl rfl rfl rfl rfl
    refine ⟨fun cid => ?_, List.nodup_nil, fun _ hx => ?_, fun _ hx => ?_, fun _ hx => ?_, fun _ hx => ?_, fun cid encoded hl => ?_⟩
    · simp [Network.cluster, rowsOf, Cluster.invoked]
    · cases hx
    · cases hx
    · cases hx
    · cases hx
    · simp [Network.cluster] at hl
  exact init_ensures (fun _ _ ha h => ha.cluster ▸ h) seed ((follow_cluster _ _).mono fun _ h => h ▸ h0)

/-- After every step the driver's tables agree with each other and with the rows. -/
theorem run_recorded (hrec : settings.recordHistory = true) (seed : R.State) (steps : ℕ) :
    Ensures (run settings seed steps) fun after => Cluster.Recorded settings.network after.cluster := by
  induction steps with
  | zero => exact init_recorded seed
  | succ steps ih => exact Ensures.bind ih fun _ h => Ensures.bind (step_recorded hrec h) fun _ h' => Ensures.pure h'

end Harness

/-- Whether or not the clients' history is recorded, after every step a run is the same in its nodes and clients, its queue, its network,
its draws and its trace. The history it records is well formed. -/
theorem history_recording_is_invisible {R : RandomSource} (settings : Settings) (seed : R.State) (steps : ℕ) :
    (∀ recordHistory, Agree Harness.Same (Harness.run settings seed steps)
      (Harness.run (settings.recording recordHistory) seed steps)) ∧
    Ensures (Harness.run (settings.recording true) seed steps) fun after => WellRecorded after.cluster :=
  ⟨fun recordHistory => Harness.Same.run settings recordHistory seed steps,
    (Harness.run_recorded rfl seed steps).mono fun _ h => h.rows.wellRecorded⟩

/-- What is read of a result that is there. -/
theorem exists_of_toOption {ε β γ : Type} {x : Except ε β} {f : β → γ} {c : γ} (h : x.toOption.map f = some c) :
    ∃ b, x = .ok b ∧ f b = c := by
  cases x with
  | error e => cases h
  | ok b => exact ⟨b, rfl, Option.some.inj h⟩

/-- After 39 events two operations have returned and a third one is under way, and without a history the run is the same. -/
theorem history_recording_is_invisible_pair : ∃ after silent : Harness congruential,
    Harness.run (undisturbed.recording true) (5 : Int) 39 = .ok after ∧ WellRecorded after.cluster ∧
    after.cluster.history.map (fun row => (row.tag, row.returnStep)) = [((0, 0), some 28), ((1, 0), some 39), ((2, 0), none)] ∧
    Harness.run (undisturbed.recording false) (5 : Int) 39 = .ok silent ∧ silent.cluster.history = [] ∧ Harness.Same after silent := by
  obtain ⟨hagree, hrecorded⟩ := history_recording_is_invisible (R := congruential) (undisturbed.recording true) (5 : Int) 39
  have hrows : (Harness.run (R := congruential) (undisturbed.recording true) (5 : Int) 39).toOption.map
      (fun after => after.cluster.history.map fun row => (row.tag, row.returnStep)) =
        some [((0, 0), some 28), ((1, 0), some 39), ((2, 0), none)] := by
    decide +kernel
  have hnone : (Harness.run (R := congruential) (undisturbed.recording false) (5 : Int) 39).toOption.map
      (fun silent => silent.cluster.history) = some [] := by
    decide +kernel
  have hsame := hagree false
  rw [show (undisturbed.recording true).recording false = undisturbed.recording false from rfl] at hsame
  obtain ⟨after, hrun, hhistory⟩ := exists_of_toOption hrows
  obtain ⟨silent, hrun', hempty⟩ := exists_of_toOption hnone
  rw [hrun, hrun'] at hsame
  cases hsame with
  | ok hsame => exact ⟨after, silent, hrun, hrecorded after hrun, hhistory, hrun', hempty, hsame⟩

end DeterministicRaft
