import DeterministicRaft.WhileLoop
import Mathlib.Data.Finset.Range
import Mathlib.Data.Finset.SDiff

/-!
# Schedule shrinking (`shrink.py`)

A failing scenario is reduced to fewer fault injections, by delta debugging over the fault ordinals, and then to fewer steps, by
binary search. A run of the cluster is a function of the scenario here: what shrinking reads of it is how it failed, how many fault
ordinals it reached and its events.
-/

namespace DeterministicRaft

/-- What a cluster is built from and run for. The bug flags and the nemesis schedule are carried and never read. -/
structure Scenario (β ν : Type) where
  nodes : Int
  seed : Int
  faults : String
  steps : Int
  bugs : β
  suppressed : Finset Nat := ∅
  membership : Bool := false
  nemesis : Option ν := none
  deriving DecidableEq

/-- What shrinking reads of a finished run: the invariant that was violated, whether the client history is linearizable, the number
of fault ordinals that were reached, and the events (time, kind, detail). -/
structure Outcome where
  violation : Option String := none
  linearizable : Bool := true
  faultCount : Nat := 0
  events : List (Int × String × String) := []
  deriving DecidableEq

/-- A reduced scenario and what is reported with it. -/
structure Counterexample (β ν : Type) where
  scenario : Scenario β ν
  signature : String
  faultEvents : List String
  injectionCount : Nat
  originalFaultCount : Nat
  originalSteps : Int
  deriving DecidableEq

/-! ## `ddmin` -/

section Ddmin

variable {α : Type} [DecidableEq α] (reproduces : List α → Bool)

/-- The slices of `kept` that one round tries to leave out. -/
def subsets (kept : List α) (n : Nat) : List (List α) :=
  let chunk := max 1 (kept.length / n)
  ((List.range kept.length).filter fun i => i % chunk = 0).map fun i => (kept.drop i).take chunk

/-- `kept` without a slice. -/
def complement (kept sub : List α) : List α := kept.filter fun e => e ∉ sub

/-- One round: leave out the first slice without which the failure is still reproduced, or make the slices smaller. -/
def ddminRound (s : List α × Nat) : List α ⊕ (List α × Nat) :=
  let (kept, n) := s
  if 2 ≤ kept.length then
    match (subsets kept n).find? fun sub => complement kept sub ≠ [] && reproduces (complement kept sub) with
    | some sub => .inr (complement kept sub, max (n - 1) 2)
    | none => if kept.length ≤ n then .inl kept else .inr (kept, min kept.length (n * 2))
  else .inl kept

/-- A round leaves fewer elements, or as many in more slices. -/
inductive Rounded (s s' : List α × Nat) : Prop
  | reduced (sub : List α) (hs : sub ∈ subsets s.1 s.2) (hk : s'.1 = complement s.1 sub) (hr : reproduces s'.1 = true)
      (hn : s'.2 = max (s.2 - 1) 2)
  | refined (hlt : s.2 < s.1.length) (hk : s'.1 = s.1) (hn : s'.2 = min s.1.length (s.2 * 2))
      (hnone : ∀ sub ∈ subsets s.1 s.2, complement s.1 sub ≠ [] → reproduces (complement s.1 sub) = false)

variable {reproduces}

theorem not_reproduces_of_find {kept : List α} {n : Nat}
    (h : ((subsets kept n).find? fun sub => complement kept sub ≠ [] && reproduces (complement kept sub)) = none) :
    ∀ sub ∈ subsets kept n, complement kept sub ≠ [] → reproduces (complement kept sub) = false := by
  intro sub hsub hne
  have hfail := List.find?_eq_none.1 h sub hsub
  simpa only [ne_eq, hne, not_false_eq_true, decide_true, Bool.true_and, Bool.not_eq_true] using hfail

theorem rounded_of_inr {s s' : List α × Nat} (h : ddminRound reproduces s = .inr s') :
    Rounded reproduces s s' := by
  unfold ddminRound at h
  simp only at h
  split at h
  · split at h
    · rename_i sub hsub
      cases h
      have hp := List.find?_some hsub
      simp only [Bool.and_eq_true] at hp
      exact .reduced sub (List.mem_of_find?_eq_some hsub) rfl hp.2 rfl
    · rename_i hnone
      split at h
      · cases h
      · rename_i hn
        cases h
        exact .refined (not_le.1 hn) rfl rfl (not_reproduces_of_find hnone)
  · cases h

/-- The last round: there are not two elements left, or no slice of one can be left out. -/
theorem returned_of_inl {s : List α × Nat} {kept : List α} (h : ddminRound reproduces s = .inl kept) :
    kept = s.1 ∧ (s.1.length < 2 ∨ s.1.length ≤ s.2 ∧
      ∀ sub ∈ subsets s.1 s.2, complement s.1 sub ≠ [] → reproduces (complement s.1 sub) = false) := by
  unfold ddminRound at h
  simp only at h
  split at h
  · split at h
    · cases h
    · rename_i hnone
      split at h
      · rename_i hn
        cases h
        exact ⟨rfl, Or.inr ⟨hn, not_reproduces_of_find hnone⟩⟩
      · cases h
  · rename_i hlen
    cases h
    exact ⟨rfl, Or.inl (by omega)⟩

/-- No slice is empty. -/
theorem complement_length_lt {kept sub : List α} {n : Nat} (h : sub ∈ subsets kept n) :
    (complement kept sub).length < kept.length := by
  obtain ⟨i, hi, rfl⟩ := List.mem_map.1 h
  have hi : i < kept.length := List.mem_range.1 (List.mem_filter.1 hi).1
  refine List.length_filter_lt_length_iff_exists.2 ⟨kept[i], List.getElem_mem hi, ?_⟩
  have hmem : kept[i] ∈ (kept.drop i).take (max 1 (kept.length / n)) := by
    rw [List.drop_eq_getElem_cons hi]
    obtain ⟨c, hc⟩ : ∃ c, max 1 (kept.length / n) = c + 1 := ⟨max 1 (kept.length / n) - 1, by omega⟩
    rw [hc, List.take_succ_cons]
    exact List.mem_cons_self
  simpa using hmem

/-- The rounds that are left, for `bound` elements at most. -/
def ddminRemaining (bound : Nat) (s : List α × Nat) : Nat := s.1.length * (bound + 2) + (bound + 1 - s.2)

theorem Rounded.remaining_lt {bound : Nat} {s s' : List α × Nat} (h : Rounded reproduces s s')
    (hs : s.1.length ≤ bound ∧ 2 ≤ s.2) : (s'.1.length ≤ bound ∧ 2 ≤ s'.2) ∧ ddminRemaining bound s' < ddminRemaining bound s := by
  unfold ddminRemaining
  cases h with
  | reduced sub hsub hk hr hn =>
    have hlt := complement_length_lt hsub
    rw [hk, hn]
    refine ⟨⟨by omega, by omega⟩, ?_⟩
    have hmul : (complement s.1 sub).length * (bound + 2) + (bound + 2) ≤ s.1.length * (bound + 2) := by
      rw [← Nat.succ_mul]
      exact Nat.mul_le_mul_right _ hlt
    omega
  | refined hlt hk hn _ =>
    rw [hk, hn]
    exact ⟨⟨hs.1, by omega⟩, by omega⟩

/-- Enough rounds for this many elements. -/
def ddminFuel (elements : List α) : Nat := (elements.length + 1) * (elements.length + 2)

theorem ddmin_isSome (reproduces : List α → Bool) (elements : List α) :
    (WhileLoop.run (ddminRound reproduces) (ddminFuel elements) (elements, 2)).isSome = true := by
  refine WhileLoop.run_isSome (fun s => s.1.length ≤ elements.length ∧ 2 ≤ s.2) (ddminRemaining elements.length)
    (fun s s' hs h => (rounded_of_inr h).remaining_lt hs)
    ⟨le_rfl, le_rfl⟩ ?_
  simp only [ddminRemaining, ddminFuel, Nat.succ_mul]
  omega

/-- `ddmin`: a subset of the elements that still reproduces the failure. -/
def ddmin (elements : List α) (reproduces : List α → Bool) : List α :=
  if reproduces [] = true then []
  else (WhileLoop.run (ddminRound reproduces) (ddminFuel elements) (elements, 2)).get (ddmin_isSome reproduces elements)

end Ddmin

/-! ## Runs of scenarios -/

section Shrink

variable {β ν : Type} (run : Scenario β ν → Outcome)

/-- How a scenario fails, if it does. -/
def failureSignature (scenario : Scenario β ν) : Option String :=
  match (run scenario).violation with
  | some invariant => some invariant
  | none => if (run scenario).linearizable = true then none else some "nonlinearizable"

def INJECTION_KINDS : List String := ["partition", "crash", "linkdown", "lossy"]

def RECOVERY_KINDS : List String := ["heal", "resume", "linkup", "lossyheal"]

/-- The events of a run that are fault injections and recoveries. -/
def faultEvents (scenario : Scenario β ν) : List (Int × String × String) :=
  (run scenario).events.filter fun e => e.2.1 ∈ INJECTION_KINDS ++ RECOVERY_KINDS

/-- One iteration of the binary search for the step budget. -/
def minStepsRound (reproduces : Int → Bool) (s : Int × Int) : Int ⊕ (Int × Int) :=
  let (lo, hi) := s
  if lo < hi then
    let mid := (lo + hi) / 2
    if reproduces mid then .inr (lo, mid) else .inr (mid + 1, hi)
  else .inl lo

theorem minSteps_isSome (reproduces : Int → Bool) (steps : Int) :
    (WhileLoop.run (minStepsRound reproduces) (steps.toNat + 1) (1, steps)).isSome = true := by
  refine WhileLoop.run_isSome (fun _ => True) (fun s => (s.2 - s.1).toNat) ?_ trivial (by simp only; omega)
  rintro ⟨lo, hi⟩ ⟨lo', hi'⟩ - h
  refine ⟨trivial, ?_⟩
  unfold minStepsRound at h
  simp only at h ⊢
  split at h
  · split at h <;> cases h <;> omega
  · cases h

/-- `_min_steps`: the least step budget the binary search finds. -/
def minSteps (scenario : Scenario β ν) (target : String) : Int :=
  let reproduces := fun mid => decide (failureSignature run { scenario with steps := mid } = some target)
  (WhileLoop.run (minStepsRound reproduces) (scenario.steps.toNat + 1) (1, scenario.steps)).get
    (minSteps_isSome reproduces scenario.steps)

/-- The ordinals outside `kept`, of `total` ones. -/
def suppressing (total : Nat) (kept : List Nat) : Finset Nat := Finset.range total \ kept.toFinset

/-- `shrink`: a reduced scenario that is reported to fail with the target, if the scenario fails with it. The second word of an
event's line is its kind. -/
def shrink (scenario : Scenario β ν) (target : Option String) : Option (Counterexample β ν) :=
  match failureSignature run scenario with
  | none => none
  | some signature =>
    let target := if target.getD "" = "" then signature else target.getD ""
    if signature ≠ target then none
    else
      let totalFaults := (run scenario).faultCount
      let reproduces := fun kept =>
        decide (failureSignature run { scenario with suppressed := suppressing totalFaults kept } = some target)
      let minimalKept := if totalFaults ≠ 0 then ddmin (List.range totalFaults) reproduces else []
      let reduced := { scenario with suppressed := suppressing totalFaults minimalKept }
      let reduced := { reduced with steps := minSteps run reduced target }
      let events := faultEvents run reduced
      some { scenario := reduced
             signature := target
             faultEvents := events.map fun (t, kind, detail) => s!"{t}ms {kind} {detail}"
             injectionCount := (events.filter fun e => e.2.1 ∈ INJECTION_KINDS).length
             originalFaultCount := totalFaults
             originalSteps := scenario.steps }

end Shrink
end DeterministicRaft
