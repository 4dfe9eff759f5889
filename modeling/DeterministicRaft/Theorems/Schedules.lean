import DeterministicRaft.Schedules

/-!
# Fault schedules: what is read, what is written, and what is injected

A text is read as a schedule exactly if it is a list of objects that describe valid patterns, and every other text is a `ValueError`.
A schedule is read as it was written. Its injections are in the order of their times, those of one instant as they were declared.
-/

namespace DeterministicRaft

open Refinement

namespace NemesisSchedule

/-! ## Reading -/

/-- What is no `TypeError` is a `ValueError`. -/
theorem isValueError_of_ne {e : ScheduleError} (h : e ≠ .typeError) : e.IsValueError := by
  cases e with
  | typeError => exact absurd rfl h
  | _ => trivial

/-- A pattern that cannot be read is a `ValueError`, also where its class raises a `TypeError`. -/
theorem decode_raises (item : Json) : Raises (decode item) ScheduleError.IsValueError := by
  unfold decode
  split
  · split
    · split
      · split
        · exact Raises.error trivial
        · rename_i hresult
          exact fun e he => isValueError_of_ne fun h => hresult (h ▸ he)
      · exact Raises.error trivial
    · exact Raises.error trivial
  · exact Raises.error trivial

/-- A text that is no schedule is a `ValueError`. -/
theorem fromJson_raises (json : JsonText) (text : String) : Raises (fromJson json text) ScheduleError.IsValueError := by
  unfold fromJson
  split
  · exact Raises.error trivial
  · exact Raises.bind (Raises.mapM decode_raises _) fun ops => Raises.ok _
  · exact Raises.error trivial

/-! ## Injections -/

end NemesisSchedule

namespace NemesisOp

/-- How often a pattern strikes. -/
def strikes : NemesisOp → ℕ
  | flappingLink _ _ _ _ cycles => cycles.toNat
  | _ => 1

/-- When it does so for the `i`-th time. -/
def strikeTime (op : NemesisOp) (i : ℕ) : Int :=
  match op with
  | flappingLink _ _ at_ period _ => at_ + 2 * period * i
  | _ => op.start

end NemesisOp

namespace NemesisSchedule

/-- The injections in the order in which they were declared: one for each pattern, and one for each time a link goes down. -/
def declared (self : NemesisSchedule) : List Injection :=
  self.ops.flatMap fun op => (List.range op.strikes).map fun i => { at_ := op.strikeTime i, op }

theorem expand_eq (op : NemesisOp) : expand op = (List.range op.strikes).map fun i => { at_ := op.strikeTime i, op } := by
  cases op with
  | flappingLink a b at_ period cycles => simp [expand, pyRange, NemesisOp.strikes, NemesisOp.strikeTime]
  | _ => rfl

/-- The injections are what was declared, sorted by time. -/
theorem injections_eq (self : NemesisSchedule) :
    self.injections = self.declared.insertionSort fun x y => x.at_ ≤ y.at_ := by
  have hexpand : expand = fun op => (List.range op.strikes).map fun i => { at_ := op.strikeTime i, op } := funext expand_eq
  rw [injections, hexpand]
  rfl

instance : Std.Total fun x y : Injection => x.at_ ≤ y.at_ := ⟨fun x y => Int.le_total x.at_ y.at_⟩

instance : IsTrans Injection fun x y => x.at_ ≤ y.at_ := ⟨fun _ _ _ => Int.le_trans⟩

/-- Sorting keeps the order of what is due at one instant. -/
theorem filter_insertionSort (l : List Injection) (t : Int) :
    (l.insertionSort fun x y => x.at_ ≤ y.at_).filter (fun x => x.at_ = t) = l.filter fun x => x.at_ = t := by
  have hsorted : (l.filter fun x => x.at_ = t).Pairwise fun x y => x.at_ ≤ y.at_ := by
    refine List.pairwise_of_forall_mem_list fun x hx y hy => ?_
    have hx := of_decide_eq_true (List.mem_filter.1 hx).2
    have hy := of_decide_eq_true (List.mem_filter.1 hy).2
    omega
  have hsub := (List.sublist_insertionSort hsorted List.filter_sublist).filter fun x => x.at_ = t
  rw [List.filter_filter] at hsub
  simp only [Bool.and_self] at hsub
  have hlength := ((List.perm_insertionSort (fun x y : Injection => x.at_ ≤ y.at_) l).filter fun x => x.at_ = t).length_eq
  exact (hsub.eq_of_length hlength.symm).symm

end NemesisSchedule

/-! ## The theorem -/

/-- A text is read as a schedule exactly if it is a list of objects that describe valid patterns, these are the patterns of the
schedule, and every other text raises a `ValueError`. A schedule is read as it was written, also where a probability was written as
an integer. Its injections are those that its patterns declare, by time and within one instant in the order of declaration. -/
theorem schedules_exact (json : JsonText) :
    (∀ text, (∃ self, NemesisSchedule.fromJson json text = .ok self) ↔
      ∃ items, json.loads text = some (.arr items) ∧ ∀ item ∈ items, ∃ op, NemesisSchedule.IsPattern item op) ∧
    (∀ text e, NemesisSchedule.fromJson json text = .error e → e.IsValueError) ∧
    ∀ self : NemesisSchedule,
      (json.Faithful self.value → NemesisSchedule.fromJson json (self.toJson json) = .ok self) ∧
      (∀ items, json.Faithful (.arr items) → List.Forall₂ NemesisSchedule.IsPattern items self.ops →
        NemesisSchedule.fromJson json (json.dumps (.arr items)) = .ok self) ∧
      self.injections.Perm self.declared ∧
      (self.injections.Pairwise fun x y => x.at_ ≤ y.at_) ∧
      ∀ t, (self.injections.filter fun x => x.at_ = t) = self.declared.filter fun x => x.at_ = t := by
  refine ⟨fun text => ⟨?_, ?_⟩, NemesisSchedule.fromJson_raises json, fun self => ⟨NemesisSchedule.fromJson_toJson json self,
    fun items hf hops => (NemesisSchedule.fromJson_eq json).2 ⟨items, json.loads_dumps _ hf, hops⟩, ?_, ?_, ?_⟩⟩
  · rintro ⟨self, h⟩
    obtain ⟨items, hload, hops⟩ := (NemesisSchedule.fromJson_eq json).1 h
    refine ⟨items, hload, fun item hitem => ?_⟩
    obtain ⟨i, hi, rfl⟩ := List.getElem_of_mem hitem
    exact ⟨self.ops.get ⟨i, hops.length_eq ▸ hi⟩, hops.get hi (hops.length_eq ▸ hi)⟩
  · rintro ⟨items, hload, hitems⟩
    choose op hop using hitems
    refine ⟨⟨items.attach.map fun item => op item.1 item.2, ?_⟩, (NemesisSchedule.fromJson_eq json).2 ⟨items, hload, ?_⟩⟩
    · intro x hx
      obtain ⟨item, -, rfl⟩ := List.mem_map.1 hx
      exact (hop item.1 item.2).1
    · have hattach : List.Forall₂ (fun a b => NemesisSchedule.IsPattern a.1 (op b.1 b.2)) items.attach items.attach :=
        List.forall₂_same.2 fun item _ => hop item.1 item.2
      have hmap := List.forall₂_map_left_iff.2 (List.forall₂_map_right_iff.2 hattach)
      rwa [List.attach_map_subtype_val] at hmap
  · rw [NemesisSchedule.injections_eq]
    exact List.perm_insertionSort _ _
  · rw [NemesisSchedule.injections_eq]
    exact List.pairwise_insertionSort _ self.declared
  · rw [NemesisSchedule.injections_eq]
    exact NemesisSchedule.filter_insertionSort _

/-- A link that goes down three times, and a node that crashes in between. -/
def flappingSchedule : NemesisSchedule where
  ops := [.flappingLink 0 1 100 40 3, .crashNode 2 180 500]
  valid := by decide

/-- How it is written. -/
def flappingJson : String :=
  "[\x7b\"pattern\":\"flapping_link\",\"a\":0,\"b\":1,\"at\":100,\"period\":40,\"cycles\":3\x7d," ++
    "\x7b\"pattern\":\"crash_node\",\"node\":2,\"at\":180,\"duration\":500\x7d]"

/-- As much of JSON as this schedule needs. -/
def flappingText : JsonText :=
  .only (flappingSchedule.ops.map NemesisSchedule.encode) flappingJson (by decide +kernel) (by decide +kernel)

/-- The schedule is read as it was written. Its crash comes after the second strike of the link, due at the same instant. -/
theorem schedules_exact_flapping :
    NemesisSchedule.fromJson flappingText flappingJson = .ok flappingSchedule ∧
    (flappingSchedule.injections.filter fun x => x.at_ = 180) =
      [⟨180, .flappingLink 0 1 100 40 3⟩, ⟨180, .crashNode 2 180 500⟩] := by
  obtain ⟨-, -, hschedule⟩ := schedules_exact flappingText
  obtain ⟨hwritten, -, -, -, hinstants⟩ := hschedule flappingSchedule
  exact ⟨hwritten rfl, (hinstants 180).trans (by decide)⟩

end DeterministicRaft
