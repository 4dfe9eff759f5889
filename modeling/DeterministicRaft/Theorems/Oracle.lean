import DeterministicRaft.Oracle

/-!
# What the linearizability oracle decides

Two facts carry the proof: the candidates of a node are the pending rows no other pending row must precede, and the moves from the
root to a node without pending rows are the linearizations. The search itself follows the rules of the library.
-/

namespace DeterministicRaft.Linearizability

open Backtracking

section Search

variable {ops : List HistoryEntry}

/-! ## The candidates -/

/-- The pair is the two rows of the list that returned first. -/
def TwoSmallest (l : List (Fin ops.length)) : Option (Fin ops.length) × Option (Fin ops.length) → Prop
  | (none, min2) => l = [] ∧ min2 = none
  | (some min1, none) => l = [min1]
  | (some min1, some min2) => min1 ∈ l ∧ min2 ∈ l ∧ min1 ≠ min2 ∧ (∀ p ∈ l, ret ops min1 ≤ ret ops p) ∧
      ∀ p ∈ l, p ≠ min1 → ret ops min2 ≤ ret ops p

/-- One more row keeps the two that returned first. -/
theorem TwoSmallest.concat {l : List (Fin ops.length)} {mins : Option (Fin ops.length) × Option (Fin ops.length)}
    {p : Fin ops.length} (h : TwoSmallest l mins) (hp : p ∉ l) : TwoSmallest (l ++ [p]) (twoSmallest ops mins p) := by
  obtain ⟨min1, min2⟩ := mins
  cases min1 with
  | none =>
    obtain ⟨rfl, rfl⟩ := h
    rfl
  | some a =>
    cases min2 with
    | none =>
      have hl : l = [a] := h
      subst hl
      have hpa : p ≠ a := by simpa using hp
      simp only [twoSmallest]
      split
      · rename_i hlt
        refine ⟨by simp, by simp, hpa, ?_, ?_⟩
        · intro q hq
          simp only [List.cons_append, List.nil_append, List.mem_cons, List.not_mem_nil, or_false] at hq
          rcases hq with rfl | rfl <;> omega
        · intro q hq hqp
          simp only [List.cons_append, List.nil_append, List.mem_cons, List.not_mem_nil, or_false] at hq
          rcases hq with rfl | rfl
          · rfl
          · exact absurd rfl hqp
      · rename_i hlt
        refine ⟨by simp, by simp, hpa.symm, ?_, ?_⟩
        · intro q hq
          simp only [List.cons_append, List.nil_append, List.mem_cons, List.not_mem_nil, or_false] at hq
          rcases hq with rfl | rfl <;> omega
        · intro q hq hqp
          simp only [List.cons_append, List.nil_append, List.mem_cons, List.not_mem_nil, or_false] at hq
          rcases hq with rfl | rfl
          · exact absurd rfl hqp
          · rfl
    | some b =>
      obtain ⟨ha, hb, hab, hmin1, hmin2⟩ := h
      have hpa : p ≠ a := fun e => hp (e ▸ ha)
      have hpb : p ≠ b := fun e => hp (e ▸ hb)
      simp only [twoSmallest]
      have hmem : ∀ q, q ∈ l ++ [p] ↔ q ∈ l ∨ q = p := by simp
      split
      · rename_i hlt
        refine ⟨by simp, by simp [ha], hpa, ?_, ?_⟩
        · intro q hq
          rcases (hmem q).1 hq with hq | rfl
          · have := hmin1 q hq
            omega
          · rfl
        · intro q hq hqp
          exact hmin1 q (((hmem q).1 hq).resolve_right hqp)
      · rename_i hlt
        split
        · rename_i hlt2
          refine ⟨by simp [ha], by simp, hpa.symm, ?_, ?_⟩
          · intro q hq
            rcases (hmem q).1 hq with hq | rfl
            · exact hmin1 q hq
            · omega
          · intro q hq hqa
            rcases (hmem q).1 hq with hq | rfl
            · have := hmin2 q hq hqa
              omega
            · rfl
        · rename_i hlt2
          refine ⟨by simp [ha], by simp [hb], hab, ?_, ?_⟩
          · intro q hq
            rcases (hmem q).1 hq with hq | rfl
            · exact hmin1 q hq
            · omega
          · intro q hq hqa
            rcases (hmem q).1 hq with hq | rfl
            · exact hmin2 q hq hqa
            · omega

theorem TwoSmallest.foldl {l rest : List (Fin ops.length)} {mins : Option (Fin ops.length) × Option (Fin ops.length)}
    (h : TwoSmallest l mins) (hnd : (l ++ rest).Nodup) : TwoSmallest (l ++ rest) (rest.foldl (twoSmallest ops) mins) := by
  induction rest generalizing l mins with
  | nil => simpa using h
  | cons p rest ih =>
    have hp : p ∉ l := fun hl => (List.disjoint_of_nodup_append hnd) hl List.mem_cons_self
    have e : l ++ p :: rest = (l ++ [p]) ++ rest := by simp
    rw [e] at hnd ⊢
    exact ih (h.concat hp) hnd

/-- The candidates are the pending rows that no other pending row must precede. -/
theorem mem_minimal {pending : List (Fin ops.length)} (hnd : pending.Nodup) (p : Fin ops.length) :
    p ∈ minimal ops pending ↔ p ∈ pending ∧ ∀ q ∈ pending, q ≠ p → inv ops p ≤ ret ops q := by
  have hmins : TwoSmallest pending (pending.foldl (twoSmallest ops) (none, none)) :=
    TwoSmallest.foldl (show TwoSmallest [] (none, none) from ⟨rfl, rfl⟩) hnd
  unfold minimal
  split
  · rename_i a
    simp only [List.mem_singleton]
    constructor
    · rintro rfl
      exact ⟨rfl, fun q hq hqp => absurd hq hqp⟩
    · exact fun h => h.1
  · rename_i hone
    generalize pending.foldl (twoSmallest ops) (none, none) = mins at hmins
    obtain ⟨min1, min2⟩ := mins
    simp only [List.mem_filter]
    refine and_congr_right fun hp => ?_
    cases min1 with
    | none =>
      obtain ⟨rfl, -⟩ := hmins
      exact absurd hp List.not_mem_nil
    | some a =>
      cases min2 with
      | none => exact absurd hmins (hone a)
      | some b =>
        obtain ⟨ha, hb, hab, hmin1, hmin2⟩ := hmins
        by_cases hpa : p = a
        · subst hpa
          simp only [if_pos, decide_eq_true_eq]
          constructor
          · intro h q hq hqp
            exact le_trans h (hmin2 q hq hqp)
          · exact fun h => h b hb hab.symm
        · rw [if_neg (by simpa using hpa)]
          simp only [decide_eq_true_eq]
          constructor
          · intro h q hq _
            exact le_trans h (hmin1 q hq)
          · exact fun h => h a ha (Ne.symm hpa)

/-! ## The moves of the search are the linearizations -/

/-- The rows are placed one after the other, none before a pending one that had returned before it was invoked. -/
theorem reaches_iff {pending path : List (Fin ops.length)} {store : Dict String String} (hnd : pending.Nodup) :
    (∃ final, Reaches (fun node => minimal ops node.2) (place ops) (store, pending) path (final, [])) ↔
      path.Perm pending ∧ path.Pairwise (fun i j => ¬ret ops j < inv ops i) ∧
        History.Legal apply HistoryEntry.observed store (path.map ops.get) := by
  induction path generalizing store pending with
  | nil =>
    simp only [Reaches, Prod.mk.injEq, List.nil_perm, List.Pairwise.nil, List.map_nil, History.Legal, and_true]
    exact ⟨fun ⟨_, _, h⟩ => h, fun h => ⟨store, rfl, h⟩⟩
  | cons i path ih =>
    have hperm : i ∈ pending → (i :: pending.filter fun p => p ≠ i).Perm pending := by
      intro hi
      have e : (pending.filter fun p => p ≠ i) = pending.erase i := by
        rw [hnd.erase_eq_filter]
        exact List.filter_congr fun p _ => decide_not
      rw [e]
      exact (List.perm_cons_erase hi).symm
    have ih := @ih (pending.filter fun p => p ≠ i) (apply store (ops.get i)).1 (hnd.filter _)
    constructor
    · rintro ⟨final, hi, node, hplace, hlead⟩
      obtain ⟨hmem, hmin⟩ := (mem_minimal hnd i).1 hi
      unfold place at hplace
      split at hplace
      · rename_i hobs
        cases hplace
        obtain ⟨hp, ht, hl⟩ := ih.1 ⟨final, hlead⟩
        refine ⟨(hp.cons i).trans (hperm hmem), List.pairwise_cons.2 ⟨?_, ht⟩, hobs, hl⟩
        intro j hj
        have hjp := List.mem_filter.1 (hp.subset hj)
        exact not_lt.2 (hmin j hjp.1 (by simpa using hjp.2))
      · cases hplace
    · rintro ⟨hp, ht, hobs, hl⟩
      have hmem : i ∈ pending := hp.subset List.mem_cons_self
      obtain ⟨hfirst, ht⟩ := List.pairwise_cons.1 ht
      have hrest := (hp.trans (hperm hmem).symm).cons_inv
      obtain ⟨final, hlead⟩ := ih.2 ⟨hrest, ht, hl⟩
      refine ⟨final, (mem_minimal hnd i).2 ⟨hmem, ?_⟩, _, if_pos hobs, hlead⟩
      intro q hq hqi
      have hqr : q ∈ path := hrest.symm.subset (List.mem_filter.2 ⟨hq, by simpa using hqi⟩)
      exact not_lt.1 (hfirst q hqr)

/-- Real time between completed rows, by their steps. -/
theorem precedes_iff (hc : ∀ row ∈ ops, row.completed = true) (i j : Fin ops.length) :
    Precedes (ops.get j) (ops.get i) ↔ ret ops j < inv ops i := by
  have hj := hc (ops.get j) (List.getElem_mem j.isLt)
  unfold HistoryEntry.completed at hj
  unfold Precedes ret inv
  obtain ⟨t, ht⟩ := Option.isSome_iff_exists.1 hj
  rw [ht]
  simp

/-- An order of rows is an order of their positions. -/
theorem exists_perm_of_map {α β : Type} {f : α → β} {l : List α} {l' : List β} (h : l'.Perm (l.map f)) :
    ∃ path : List α, path.Perm l ∧ path.map f = l' := by
  have hf : List.Forall₂ (fun b a => b = f a) (l.map f) l := by
    rw [List.forall₂_map_left_iff, List.forall₂_same]
    exact fun _ _ => rfl
  obtain ⟨path, hpath, hperm⟩ := List.perm_comp_forall₂ h hf
  refine ⟨path, hperm, ?_⟩
  have := List.forall₂_map_right_iff.2 hpath
  exact (List.forall₂_eq_eq_eq ▸ this : l' = path.map f).symm

/-- The rows at a path are a linearization exactly when the path leads from the root to a node without pending rows. -/
theorem linearization_map_iff (hc : ∀ row ∈ ops, row.completed = true) {path : List (Fin ops.length)}
    (hp : path.Perm (List.finRange ops.length)) :
    Linearization ops (path.map ops.get) ↔
      ∃ final, Reaches (fun node => minimal ops node.2) (place ops) (∅, List.finRange ops.length) path (final, []) := by
  rw [reaches_iff (List.nodup_finRange _)]
  have htime : (path.map ops.get).Pairwise (fun x y => ¬Precedes y x) ↔
      path.Pairwise (fun i j => ¬ret ops j < inv ops i) := by
    rw [List.pairwise_map]
    simp only [precedes_iff hc]
  constructor
  · exact fun h => ⟨hp, htime.1 h.realTime, h.legal⟩
  · rintro ⟨-, ht, hl⟩
    refine ⟨?_, htime.2 ht, hl⟩
    have := hp.map ops.get
    rwa [List.map_get_finRange] at this

/-- The root of the search is solvable exactly when there is a linearization. -/
theorem solvable_root_iff (hc : ∀ row ∈ ops, row.completed = true) :
    Solvable (fun node => minimal ops node.2) (place ops) (fun node => node.2 = []) (∅, List.finRange ops.length) ↔
      ∃ order, Linearization ops order := by
  constructor
  · rintro ⟨path, ⟨final, pending⟩, hlead, rfl⟩
    have hp := ((reaches_iff (List.nodup_finRange _)).1 ⟨final, hlead⟩).1
    exact ⟨_, (linearization_map_iff hc hp).2 ⟨final, hlead⟩⟩
  · rintro ⟨order, h⟩
    have hrows : order.Perm ((List.finRange ops.length).map ops.get) := by
      rw [List.map_get_finRange]
      exact h.perm
    obtain ⟨path, hp, rfl⟩ := exists_perm_of_map hrows
    obtain ⟨final, hlead⟩ := (linearization_map_iff hc hp).1 h
    exact ⟨path, (final, []), hlead, rfl⟩

/-! ## The search follows the rules -/

/-- What holds of the search at each iteration. -/
structure SearchInv (s : Search ops) : Prop where
  /-- The candidates of a frame, once computed, are those of its node. -/
  cands : ∀ f ∈ s.stack, f.cands.getD (minimal ops f.pending) = minimal ops f.pending
  /-- The path of a frame leads to its node. -/
  leads : ∀ f ∈ s.stack,
    Reaches (fun node => minimal ops node.2) (place ops) (∅, List.finRange ops.length) f.path f.node
  /-- The entered nodes are the root and those in the memo. -/
  explored : Explored (fun node => minimal ops node.2) (place ops) (fun node => node.2 = []) (fun node => node.2.length)
    (fun node => node = (∅, List.finRange ops.length) ∨ node ∈ s.memo) (s.stack.map fun f => (f.node, f.todo))

theorem searchInv_start : SearchInv (start ops) where
  cands f hf := by
    cases List.mem_singleton.1 hf
    rfl
  leads f hf := by
    cases List.mem_singleton.1 hf
    rfl
  explored := by
    have h := Explored.start (fun node : Dict String String × List (Fin ops.length) => minimal ops node.2) (place ops)
      (fun node => node.2 = []) (fun node => node.2.length) (∅, List.finRange ops.length)
    simpa [start, Frame.node, Frame.todo] using h

/-- A candidate is pending. -/
theorem mem_of_mem_minimal {pending : List (Fin ops.length)} {p : Fin ops.length} (h : p ∈ minimal ops pending) : p ∈ pending := by
  unfold minimal at h
  split at h
  · exact h
  · exact (List.mem_filter.1 h).1

/-- Placing a candidate leaves fewer pending rows. -/
theorem place_lt {node node' : Dict String String × List (Fin ops.length)} {i : Fin ops.length}
    (h : place ops node i = some node') (hi : i ∈ node.2) : node'.2.length < node.2.length := by
  unfold place at h
  split at h
  · cases h
    exact List.length_filter_lt_length_iff_exists.2 ⟨i, hi, by simp⟩
  · cases h

/-- The row a frame tries next is a candidate of its node. -/
theorem SearchInv.next_mem {s : Search ops} (h : SearchInv s) {frame : Frame ops} {i : Fin ops.length} (hf : frame ∈ s.stack)
    (ht : frame.todo = i :: frame.taken.todo) : i ∈ minimal ops frame.pending := by
  have hi : i ∈ frame.todo := ht ▸ List.mem_cons_self
  rw [Frame.todo, h.cands frame hf] at hi
  exact List.mem_of_mem_drop hi

theorem SearchInv.iterated {budget : Int} {s s' : Search ops} (h : SearchInv s) (hi : Iterated ops budget s s') : SearchInv s' := by
  have hnext := @h.next_mem
  obtain ⟨hcands, hleads, hexp⟩ := h
  cases hi with
  | pop frame stack hs hp ht hs' hm he =>
    rw [hs] at hcands hleads hexp
    rw [List.map_cons, ht] at hexp
    refine ⟨?_, ?_, ?_⟩ <;> rw [hs']
    · exact fun f hf => hcands f (List.mem_cons_of_mem _ hf)
    · exact fun f hf => hleads f (List.mem_cons_of_mem _ hf)
    · rw [hm]
      exact hexp.pop hp
  | drop frame stack i hs hp ht hd hs' hm he =>
    rw [hs] at hcands hleads hexp
    have hmem : i ∈ frame.pending := mem_of_mem_minimal (hnext (hs ▸ List.mem_cons_self) ht)
    rw [List.map_cons, ht] at hexp
    refine ⟨?_, ?_, ?_⟩ <;> rw [hs']
    · intro f hf
      rcases List.mem_cons.1 hf with rfl | hf
      · exact hcands frame List.mem_cons_self
      · exact hcands f (List.mem_cons_of_mem _ hf)
    · intro f hf
      rcases List.mem_cons.1 hf with rfl | hf
      · exact hleads frame List.mem_cons_self
      · exact hleads f (List.mem_cons_of_mem _ hf)
    · rw [hm]
      exact hexp.drop fun node hnode => hexp.not_solvable (Or.inr (hd node hnode)) (place_lt hnode hmem)
  | push frame stack i node hs hp ht hd hs' hm he hb =>
    rw [hs] at hcands hleads hexp
    have hcand : i ∈ minimal ops frame.pending := hnext (hs ▸ List.mem_cons_self) ht
    rw [List.map_cons, ht] at hexp
    refine ⟨?_, ?_, ?_⟩ <;> rw [hs']
    · intro f hf
      rcases List.mem_cons.1 hf with rfl | hf
      · rfl
      · rcases List.mem_cons.1 hf with rfl | hf
        · exact hcands frame List.mem_cons_self
        · exact hcands f (List.mem_cons_of_mem _ hf)
    · intro f hf
      rcases List.mem_cons.1 hf with rfl | hf
      · exact (hleads frame List.mem_cons_self).concat hcand hd
      · rcases List.mem_cons.1 hf with rfl | hf
        · exact hleads frame List.mem_cons_self
        · exact hleads f (List.mem_cons_of_mem _ hf)
    · have hpush := hexp.push hd (place_lt hd (mem_of_mem_minimal hcand))
      refine hpush.congr fun k => ?_
      rw [hm, List.mem_cons]
      tauto

/-- What the search returns, unless it exceeds its budget. -/
def SearchPost (ops : List HistoryEntry) (r : LinearizabilityResult) : Prop :=
  ¬r.Undetermined →
    (r.linearizable = true → ∃ path final, r.linearization = some (path.map ops.get) ∧
      Reaches (fun node => minimal ops node.2) (place ops) (∅, List.finRange ops.length) path (final, [])) ∧
    (r.linearizable = false →
      ¬Solvable (fun node => minimal ops node.2) (place ops) (fun node => node.2 = []) (∅, List.finRange ops.length))

theorem SearchInv.returned {s : Search ops} {r : LinearizabilityResult} (h : SearchInv s) (hr : Returned ops s r) :
    SearchPost ops r := by
  intro hu
  cases hr with
  | stuck hs hlin =>
    refine ⟨fun ht => absurd ht (by simp [hlin]), fun _ => ?_⟩
    have hexp := h.explored
    rw [hs] at hexp
    exact hexp.finish (Or.inl rfl)
  | found frame stack hs hp hlin hl =>
    refine ⟨fun _ => ⟨frame.path, frame.store, hl, ?_⟩, fun hf => absurd hf (by simp [hlin])⟩
    have hlead := h.leads frame (hs ▸ List.mem_cons_self)
    rwa [Frame.node, hp] at hlead
  | undetermined hr => exact absurd hr hu

theorem search_post {budget : Int} {fuel : Nat} {r : LinearizabilityResult}
    (h : WhileLoop.run (iterate ops budget) fuel (start ops) = some r) : SearchPost ops r :=
  WhileLoop.run_post SearchInv (SearchPost ops) (fun _ _ hinv hi => hinv.iterated (iterated_of_inr hi)) (fun _ _ hinv hr => hinv.returned (returned_of_inl hr))
    searchInv_start h

/-! ## The depth of the search -/

/-- Each row of a path costs a state that is explored, and the budget bounds these. -/
structure Deep (budget : Int) (s : Search ops) : Prop where
  paths : ∀ f ∈ s.stack, f.path.length ≤ s.explored
  within : s.explored ≤ budget.toNat

/-- Nothing is explored yet. -/
theorem deep_start (budget : Int) : Deep budget (start ops) where
  paths f hf := by
    cases List.mem_singleton.1 hf
    exact le_rfl
  within := Nat.zero_le _

/-- A path grows by one row only when a state is explored. -/
theorem Deep.iterated {budget : Int} {s s' : Search ops} (h : Deep budget s) (hi : Iterated ops budget s s') : Deep budget s' := by
  obtain ⟨hpaths, hwithin⟩ := h
  cases hi with
  | pop frame stack hs hp ht hs' hm he =>
    rw [hs] at hpaths
    refine ⟨fun f hf => ?_, he ▸ hwithin⟩
    rw [hs'] at hf
    rw [he]
    exact hpaths f (List.mem_cons_of_mem _ hf)
  | drop frame stack i hs hp ht hd hs' hm he =>
    rw [hs] at hpaths
    refine ⟨fun f hf => ?_, he ▸ hwithin⟩
    rw [hs'] at hf
    rw [he]
    rcases List.mem_cons.1 hf with rfl | hf
    · exact hpaths frame List.mem_cons_self
    · exact hpaths f (List.mem_cons_of_mem _ hf)
  | push frame stack i node hs hp ht hd hs' hm he hb =>
    rw [hs] at hpaths
    have htop := hpaths frame List.mem_cons_self
    refine ⟨fun f hf => ?_, by omega⟩
    rw [hs'] at hf
    rcases List.mem_cons.1 hf with rfl | hf
    · rw [he, List.length_append]
      exact Nat.add_le_add_right htop 1
    · rcases List.mem_cons.1 hf with rfl | hf
      · rw [he]
        exact Nat.le_succ_of_le htop
      · rw [he]
        exact Nat.le_succ_of_le (hpaths f (List.mem_cons_of_mem _ hf))

/-- An order that is found has no more rows than the budget allows states. -/
theorem search_le {budget : Int} {fuel : Nat} {r : LinearizabilityResult}
    (h : WhileLoop.run (iterate ops budget) fuel (start ops) = some r) : r.linearizable = true → ops.length ≤ budget.toNat := by
  refine WhileLoop.run_post (fun s => SearchInv s ∧ Deep budget s) (fun r => r.linearizable = true → ops.length ≤ budget.toNat)
    (fun s s' hinv hi => ⟨hinv.1.iterated (iterated_of_inr hi), hinv.2.iterated (iterated_of_inr hi)⟩) (fun s r hinv hr hlin => ?_)
    ⟨searchInv_start, deep_start budget⟩ h
  cases returned_of_inl hr with
  | stuck hs hno =>
    rw [hno] at hlin
    cases hlin
  | found frame stack hs hp _ _ =>
    have hmem : frame ∈ s.stack := hs ▸ List.mem_cons_self
    have hlead := hinv.1.leads frame hmem
    rw [Frame.node, hp] at hlead
    have hperm := ((reaches_iff (List.nodup_finRange _)).1 ⟨_, hlead⟩).1
    have hlen := hperm.length_eq
    rw [List.length_finRange] at hlen
    have hpath := hinv.2.paths frame hmem
    have hwithin := hinv.2.within
    omega
  | undetermined hu =>
    rw [hu.1] at hlin
    cases hlin

end Search

/-! ## The verdict -/

/-- The rows that are checked are completed. -/
theorem completed_of_mem_checkedOps {history : List HistoryEntry} {maxOps : Option Int} {row : HistoryEntry}
    (h : row ∈ checkedOps history maxOps) : row.completed = true := by
  have key : ∀ x ∈ (history.filter HistoryEntry.completed).insertionSort (fun x y => x.sortKey ≤ y.sortKey), x.completed = true :=
    fun x hx => (List.mem_filter.1 ((List.mem_insertionSort _).1 hx)).2
  cases maxOps with
  | none => exact key row h
  | some k => exact key row (List.mem_of_mem_take h)

/-- What the check returns, for any cut, unless it exceeds its budget. -/
theorem check_spec {history : List HistoryEntry} {maxOps : Option Int} {budget : Int}
    (h : ¬(check history maxOps budget).Undetermined) :
    ((check history maxOps budget).linearizable = true →
      ∃ order, (check history maxOps budget).linearization = some order ∧ Linearization (checkedOps history maxOps) order) ∧
    ((check history maxOps budget).linearizable = false → ¬∃ order, Linearization (checkedOps history maxOps) order) := by
  have hc : ∀ row ∈ checkedOps history maxOps, row.completed = true := fun row hrow => completed_of_mem_checkedOps hrow
  unfold check at h ⊢
  by_cases hops : checkedOps history maxOps = []
  · simp only [hops, if_true] at h ⊢
    exact ⟨fun _ => ⟨[], rfl, List.Perm.refl _, List.Pairwise.nil, trivial⟩, fun hf => absurd hf (by simp)⟩
  · simp only [hops, if_false] at h ⊢
    obtain ⟨hyes, hno⟩ := search_post (Option.some_get _).symm h
    refine ⟨?_, ?_⟩
    · intro hlin
      obtain ⟨path, final, hpath, hlead⟩ := hyes hlin
      have hp := ((reaches_iff (List.nodup_finRange _)).1 ⟨final, hlead⟩).1
      exact ⟨_, hpath, (linearization_map_iff hc hp).2 ⟨final, hlead⟩⟩
    · exact fun hlin => (solvable_root_iff hc).not.1 (hno hlin)

/-- Without a cut the rows that are checked are all the completed ones. -/
theorem checkedOps_none_perm (history : List HistoryEntry) :
    (checkedOps history none).Perm (history.filter HistoryEntry.completed) := List.perm_insertionSort _ _

/-- What is found linearizable has no more completed rows than the budget allows states. -/
theorem completed_le_budget {history : List HistoryEntry} {budget : Int} (h : (check history none budget).linearizable = true) :
    (history.filter HistoryEntry.completed).length ≤ budget.toNat := by
  rw [← (checkedOps_none_perm history).length_eq]
  unfold check at h
  by_cases hops : checkedOps history none = []
  · rw [hops]
    exact Nat.zero_le _
  · simp only [hops, if_false] at h
    exact search_le (Option.some_get _).symm h

/-- A linearization is one of the rows in any order. -/
theorem linearization_congr {rows rows' order : List HistoryEntry} (h : rows.Perm rows') :
    Linearization rows order ↔ Linearization rows' order :=
  ⟨fun hl => ⟨hl.perm.trans h, hl.realTime, hl.legal⟩, fun hl => ⟨hl.perm.trans h.symm, hl.realTime, hl.legal⟩⟩

/-- The oracle is sound and complete: unless it exceeds its budget, it says a history is linearizable exactly when its completed
rows have a linearization, and the one it returns is one. -/
theorem check_sound_complete (history : List HistoryEntry) (budget : Int) (h : ¬(check history none budget).Undetermined) :
    ((check history none budget).linearizable = true ↔ ∃ order, Linearization (history.filter HistoryEntry.completed) order) ∧
    ((check history none budget).linearizable = true →
      ∃ order, (check history none budget).linearization = some order ∧
        Linearization (history.filter HistoryEntry.completed) order) := by
  obtain ⟨hyes, hno⟩ := check_spec h
  simp only [linearization_congr (checkedOps_none_perm history)] at hyes hno
  refine ⟨⟨?_, ?_⟩, hyes⟩
  · intro hlin
    obtain ⟨order, -, ho⟩ := hyes hlin
    exact ⟨order, ho⟩
  · intro ho
    by_contra hlin
    exact hno (Bool.eq_false_iff.2 hlin) ho

/-- A read that overlaps a write, and a compare-and-set after them. -/
def overlapping : List HistoryEntry :=
  [{ clientId := 0, reqId := 1, op := PUT, key := "x", value := "1", expected := "", invokeStep := 0, returnStep := some 4,
     observed := some "ok" },
   { clientId := 1, reqId := 1, op := GET, key := "x", value := "", expected := "", invokeStep := 1, returnStep := some 3,
     observed := some "" },
   { clientId := 0, reqId := 2, op := CAS, key := "x", value := "2", expected := "1", invokeStep := 5, returnStep := some 9,
     observed := some "ok" },
   { clientId := 1, reqId := 2, op := GET, key := "x", value := "", expected := "", invokeStep := 6, returnStep := none }]

theorem check_overlapping : ∃ order, (check overlapping none 500000).linearization = some order ∧
    Linearization (overlapping.filter HistoryEntry.completed) order :=
  (check_sound_complete overlapping 500000 (by decide +kernel)).2 (by decide +kernel)

/-! ## A check that is cut -/

/-- A row that writes its value: a put, or a compare-and-set that succeeded. -/
def Writes (x : HistoryEntry) : Prop := x.op = PUT ∨ x.op = CAS ∧ x.observed = some "ok"

/-- A write may have supplied the value that a get or a compare-and-set on its key saw: that row had not returned when the write
was invoked, and the written value gives the result it observed. -/
def Supplies (x p : HistoryEntry) : Prop :=
  Writes x ∧ (p.op = GET ∨ p.op = CAS) ∧ x.key = p.key ∧ ¬Precedes p x ∧
    p.observed = some (apply ((∅ : Dict String String).insert p.key x.value) p).2

instance (x : HistoryEntry) : Decidable (Writes x) := inferInstanceAs (Decidable (_ ∨ _))

instance (x p : HistoryEntry) : Decidable (Supplies x p) := inferInstanceAs (Decidable (_ ∧ _))

/-- The completed rows that the cut leaves out. -/
def beyondCut (history : List HistoryEntry) (k : Int) : List HistoryEntry :=
  (checkedOps history none).drop (checkedOps history (some k)).length

theorem checkedOps_append_beyondCut (history : List HistoryEntry) (k : Int) :
    checkedOps history (some k) ++ beyondCut history k = checkedOps history none := by
  have key : ∀ (l : List HistoryEntry) (n : Nat), l.take n ++ l.drop (l.take n).length = l := by
    intro l n
    rcases Nat.le_total n l.length with h | h
    · rw [List.length_take_of_le h, List.take_append_drop]
    · rw [List.take_of_length_le h, List.drop_length, List.append_nil]
  exact key _ _

/-- A row that gives its observed result leaves its value at its key if it writes, and nothing else changes. -/
theorem getD_apply {x : HistoryEntry} {store : Dict String String} (h : x.observed = some (apply store x).2) (k : String) :
    ((apply store x).1.getD k "" = x.value ∧ Writes x ∧ k = x.key) ∨
      ((apply store x).1.getD k "" = store.getD k "" ∧ ¬(Writes x ∧ k = x.key)) := by
  have hins : ∀ v, Dict.getD (store.insert x.key v) k "" = if k = x.key then v else store.getD k "" := by
    intro v
    unfold Dict.getD
    split
    · rename_i hk
      rw [hk, Finmap.lookup_insert]
      rfl
    · rename_i hk
      rw [Finmap.lookup_insert_of_ne _ hk]
  unfold Writes
  by_cases hput : x.op = PUT
  · simp only [apply, if_pos hput, hins]
    by_cases hk : k = x.key <;> simp [hk, hput]
  · by_cases hget : x.op = GET
    · simp [apply, hget, GET, PUT, CAS]
    · by_cases hcas : x.op = CAS
      · by_cases hexp : store.getD x.key "" = x.expected
        · simp only [apply, if_neg hput, if_neg hget, if_pos hcas, if_pos hexp, hins] at h ⊢
          by_cases hk : k = x.key <;> simp [hk, hcas, h]
        · simp only [apply, if_neg hput, if_neg hget, if_pos hcas, if_neg hexp] at h ⊢
          simp [h, hput]
      · simp [apply, hput, hget, hcas]

/-- The result of a row depends on the value at its key, and for a get or a compare-and-set only. -/
theorem result_congr {x : HistoryEntry} {store store' : Dict String String}
    (h : x.op = GET ∨ x.op = CAS → store.getD x.key "" = store'.getD x.key "") : (apply store x).2 = (apply store' x).2 := by
  unfold apply
  by_cases hput : x.op = PUT
  · simp only [if_pos hput]
  · by_cases hget : x.op = GET
    · simp only [if_neg hput, if_pos hget, h (Or.inl hget)]
    · by_cases hcas : x.op = CAS
      · simp only [if_neg hput, if_neg hget, if_pos hcas, h (Or.inr hcas)]
        split <;> rfl
      · simp only [if_neg hput, if_neg hget, if_neg hcas]

/-- Rows marked as kept or dropped, in a legal order: the kept ones are legal on their own. The two stores agree at each key, or
the first holds there what a dropped write left that no kept row still to come may have seen. -/
theorem legal_kept {rows : List (HistoryEntry × Bool)} {store store' : Dict String String}
    (htime : rows.Pairwise fun x y => ¬Precedes y.1 x.1)
    (hsup : ∀ x ∈ rows, x.2 = false → ∀ p ∈ rows, p.2 = true → ¬Supplies x.1 p.1)
    (hlegal : History.Legal apply HistoryEntry.observed store (rows.map Prod.fst))
    (hstores : ∀ k, store.getD k "" = store'.getD k "" ∨ ∃ x, Writes x ∧ x.key = k ∧ store.getD k "" = x.value ∧
      ∀ p ∈ rows, p.2 = true → ¬Precedes p.1 x ∧ ¬Supplies x p.1) :
    History.Legal apply HistoryEntry.observed store' ((rows.filter Prod.snd).map Prod.fst) := by
  induction rows generalizing store store' with
  | nil => trivial
  | cons row rows ih =>
    obtain ⟨row, kept⟩ := row
    obtain ⟨hfirst, hrest⟩ := List.pairwise_cons.1 htime
    obtain ⟨hobs, hlegal⟩ := hlegal
    have hsup' := fun x hx hf p hp ht => hsup x (List.mem_cons_of_mem _ hx) hf p (List.mem_cons_of_mem _ hp) ht
    cases kept with
    | false =>
      refine ih hrest hsup' hlegal fun k => ?_
      rcases getD_apply hobs k with ⟨hval, hw, hk⟩ | ⟨hval, -⟩
      · refine Or.inr ⟨row, hw, hk.symm, hval, fun p hp ht => ⟨hfirst p hp, ?_⟩⟩
        exact hsup (row, false) List.mem_cons_self rfl p (List.mem_cons_of_mem _ hp) ht
      · rw [hval]
        exact (hstores k).imp_right fun ⟨x, hx, hk, hv, hp⟩ =>
          ⟨x, hx, hk, hv, fun p hm => hp p (List.mem_cons_of_mem _ hm)⟩
    | true =>
      have hresult : (apply store row).2 = (apply store' row).2 := by
        refine result_congr fun hread => ?_
        rcases hstores row.key with h | ⟨x, hx, hk, hv, hp⟩
        · exact h
        · obtain ⟨hnp, hns⟩ := hp (row, true) List.mem_cons_self rfl
          refine absurd ⟨hx, hread, hk, hnp, ?_⟩ hns
          rw [hobs]
          refine congrArg some (result_congr fun _ => ?_)
          rw [hv, Dict.getD, Finmap.lookup_insert]
          rfl
      have hobs' : row.observed = some (apply store' row).2 := hresult ▸ hobs
      refine ⟨hobs', ih hrest hsup' hlegal fun k => ?_⟩
      rcases getD_apply hobs k with ⟨hval, hw, hk⟩ | ⟨hval, hw⟩
      · left
        rcases getD_apply hobs' k with ⟨hval', -, -⟩ | ⟨-, hnw⟩
        · exact hval.trans hval'.symm
        · exact absurd ⟨hw, hk⟩ hnw
      · rcases getD_apply hobs' k with ⟨-, hw', hk'⟩ | ⟨hval', -⟩
        · exact absurd ⟨hw', hk'⟩ hw
        · rw [hval, hval']
          exact (hstores k).imp_right fun ⟨x, hx, hk, hv, hp⟩ =>
            ⟨x, hx, hk, hv, fun p hm => hp p (List.mem_cons_of_mem _ hm)⟩

/-- The rows before a cut are linearizable if all are and no row beyond the cut may have supplied what one of them saw. -/
theorem linearization_of_append {rows late order : List HistoryEntry} (h : Linearization (rows ++ late) order)
    (hsup : ∀ x ∈ late, ∀ p ∈ rows, ¬Supplies x p) : ∃ order', Linearization rows order' := by
  have hmap : rows ++ late = (rows.map (·, true) ++ late.map (·, false)).map Prod.fst := by
    simp [Function.comp_def]
  obtain ⟨marked, hperm, rfl⟩ := exists_perm_of_map (hmap ▸ h.perm)
  have hmem : ∀ x ∈ marked, (x.2 = true ∧ x.1 ∈ rows) ∨ (x.2 = false ∧ x.1 ∈ late) := by
    intro x hx
    rcases List.mem_append.1 (hperm.subset hx) with hx | hx
    · obtain ⟨row, hrow, rfl⟩ := List.mem_map.1 hx
      exact Or.inl ⟨rfl, hrow⟩
    · obtain ⟨row, hrow, rfl⟩ := List.mem_map.1 hx
      exact Or.inr ⟨rfl, hrow⟩
  have htime := List.pairwise_map.1 h.realTime
  refine ⟨(marked.filter Prod.snd).map Prod.fst, ?_, ?_, ?_⟩
  · have hkept : ((rows.map (·, true) ++ late.map (·, false)).filter Prod.snd).map Prod.fst = rows := by
      rw [List.filter_append, List.filter_map, List.filter_map]
      simp [Function.comp_def]
    have := (hperm.filter Prod.snd).map Prod.fst
    rwa [hkept] at this
  · exact List.pairwise_map.2 (htime.filter _)
  · refine legal_kept htime ?_ h.legal fun k => Or.inl rfl
    intro x hx hf p hp ht
    have hxl := ((hmem x hx).resolve_left fun e => by simp [hf] at e).2
    have hpr := ((hmem p hp).resolve_right fun e => by simp [ht] at e).2
    exact hsup x.1 hxl p.1 hpr

/-- A check that is cut detects violations only, if no row beyond the cut may have supplied what a row before it saw. -/
theorem check_cut_sound (history : List HistoryEntry) (k budget : Int)
    (hsup : ∀ x ∈ beyondCut history k, ∀ p ∈ checkedOps history (some k), ¬Supplies x p)
    (hlin : (check history (some k) budget).linearizable = false) (hu : ¬(check history (some k) budget).Undetermined) :
    ¬∃ order, Linearization (history.filter HistoryEntry.completed) order := by
  rintro ⟨order, ho⟩
  rw [← linearization_congr (checkedOps_none_perm history), ← checkedOps_append_beyondCut history k] at ho
  exact (check_spec hu).2 hlin (linearization_of_append ho hsup)

/-- A read that sees a stale value, and a later write that is cut off. -/
def staleRead : List HistoryEntry :=
  [{ clientId := 0, reqId := 1, op := PUT, key := "x", value := "1", expected := "", invokeStep := 0, returnStep := some 2,
     observed := some "ok" },
   { clientId := 0, reqId := 2, op := PUT, key := "x", value := "2", expected := "", invokeStep := 3, returnStep := some 5,
     observed := some "ok" },
   { clientId := 1, reqId := 1, op := GET, key := "x", value := "", expected := "", invokeStep := 6, returnStep := some 9,
     observed := some "1" },
   { clientId := 0, reqId := 3, op := PUT, key := "x", value := "3", expected := "", invokeStep := 7, returnStep := some 8,
     observed := some "ok" }]

theorem check_cut_staleRead : ¬∃ order, Linearization (staleRead.filter HistoryEntry.completed) order :=
  check_cut_sound staleRead 3 500000 (by decide +kernel) (by decide +kernel) (by decide +kernel)

/-- A read that sees what a write supplied that was invoked after it and returned before it. -/
def suppliedRead : List HistoryEntry :=
  [{ clientId := 0, reqId := 1, op := GET, key := "x", value := "", expected := "", invokeStep := 0, returnStep := some 10,
     observed := some "1" },
   { clientId := 1, reqId := 1, op := PUT, key := "x", value := "1", expected := "", invokeStep := 1, returnStep := some 9,
     observed := some "ok" }]

/-- Cut to its first row this history is called not linearizable, and the whole history has a linearization. -/
theorem check_cut_suppliedRead : (check suppliedRead (some 1) 500000).linearizable = false ∧
    ¬(check suppliedRead (some 1) 500000).Undetermined ∧
    ∃ order, Linearization (suppliedRead.filter HistoryEntry.completed) order := by
  refine ⟨by decide +kernel, by decide +kernel, suppliedRead.reverse, ?_, ?_, ?_⟩
  · decide +kernel
  · decide +kernel
  · decide +kernel

end DeterministicRaft.Linearizability
