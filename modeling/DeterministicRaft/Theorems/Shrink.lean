import DeterministicRaft.Shrink
import Mathlib.Algebra.Order.Ring.Int
import Mathlib.Data.Finset.Card

/-!
# What a counterexample of the shrinker is worth

Delta debugging and the binary search keep what they start from: if the set they start from reproduces the failure, what they
return does. The shrinker starts delta debugging from the scenario without its mask, and it looks for faults among the ordinals the
original run reached.
-/

namespace DeterministicRaft

/-! ## Delta debugging -/

section Ddmin

variable {α : Type} [DecidableEq α] {elements : List α} {reproduces : List α → Bool}

omit [DecidableEq α] in
/-- With as many slices as elements, each element is a slice. -/
theorem singleton_mem_subsets {kept : List α} {n : Nat} {e : α} (hn : kept.length ≤ n) (he : e ∈ kept) : [e] ∈ subsets kept n := by
  obtain ⟨i, hi, rfl⟩ := List.mem_iff_getElem.1 he
  have hchunk : max 1 (kept.length / n) = 1 := by
    have : kept.length / n ≤ 1 := Nat.div_le_of_le_mul (by omega)
    omega
  refine List.mem_map.2 ⟨i, List.mem_filter.2 ⟨List.mem_range.2 hi, ?_⟩, ?_⟩
  · simp only [hchunk, Nat.mod_one, decide_true]
  · rw [hchunk, List.drop_eq_getElem_cons hi, List.take_succ_cons, List.take_zero]

/-- What `ddmin` returns: a sublist that reproduces the failure, unless it is the whole list, and no longer does without any one of
its elements. -/
theorem ddmin_post (hnil : reproduces [] = false) :
    let kept := ddmin elements reproduces
    kept.Sublist elements ∧ (reproduces kept = true ∨ kept = elements) ∧
      ∀ e ∈ kept, reproduces (kept.filter fun x => x ≠ e) = false := by
  have hrun : WhileLoop.run (ddminRound reproduces) (ddminFuel elements) (elements, 2) = some (ddmin elements reproduces) := by
    rw [ddmin, if_neg (by simp [hnil]), Option.some_get]
  refine WhileLoop.run_post (fun s => s.1.Sublist elements ∧ (reproduces s.1 = true ∨ s.1 = elements))
    (fun kept => kept.Sublist elements ∧ (reproduces kept = true ∨ kept = elements) ∧
      ∀ e ∈ kept, reproduces (kept.filter fun x => x ≠ e) = false) ?_ ?_ ⟨List.Sublist.refl _, Or.inr rfl⟩ hrun
  · rintro s s' ⟨hsub, hrep⟩ h
    cases rounded_of_inr h with
    | reduced sub hs hk hr hn => exact ⟨hk ▸ List.filter_sublist.trans hsub, Or.inl hr⟩
    | refined hlt hk hn hnone => exact hk ▸ ⟨hsub, hrep⟩
  · rintro s r ⟨hsub, hrep⟩ h
    obtain ⟨rfl, hlast⟩ := returned_of_inl h
    refine ⟨hsub, hrep, fun e he => ?_⟩
    by_cases hempty : (s.1.filter fun x => x ≠ e) = []
    · rw [hempty, hnil]
    · rcases hlast with hlen | ⟨hn, hnone⟩
      · obtain ⟨x, hx⟩ := List.length_eq_one_iff.1 (show s.1.length = 1 by have := List.length_pos_of_mem he; omega)
        rw [hx, List.mem_singleton] at he
        simp [hx, he] at hempty
      · have hcomp : complement s.1 [e] = s.1.filter fun x => x ≠ e := by
          simp [complement]
        rw [← hcomp] at hempty ⊢
        exact hnone [e] (singleton_mem_subsets hn he) hempty

/-- How `ddmin` cuts the whole list until it can leave out a slice: into two, four, eight and so on, and at last into single elements. -/
def FirstSlice (elements sub : List α) : Prop := ∃ k : ℕ, sub ∈ subsets elements (min elements.length (2 ^ (k + 1)))

/-- How far the search has come: it could leave out a first slice, and has reproduced the failure since; or it has tried those of the
first few cuts in vain. -/
inductive Searched (elements : List α) (reproduces : List α → Bool) (s : List α × ℕ) : Prop
  | found (sub : List α) (hsub : FirstSlice elements sub) (hfirst : reproduces (complement elements sub) = true)
      (hrep : reproduces s.1 = true)
  | cutting (j : ℕ) (hs : s.1 = elements) (hn : 2 ≤ elements.length → s.2 = min elements.length (2 ^ (j + 1)))
      (hnone : ∀ k < j, ∀ sub ∈ subsets elements (min elements.length (2 ^ (k + 1))), reproduces (complement elements sub) = false)

/-- Nothing reproduces the failure where nothing is left. -/
theorem not_reproduces_complement (hnil : reproduces [] = false) {kept sub : List α}
    (h : complement kept sub ≠ [] → reproduces (complement kept sub) = false) : reproduces (complement kept sub) = false := by
  by_cases hempty : complement kept sub = []
  · rw [hempty, hnil]
  · exact h hempty

theorem Searched.next (hnil : reproduces [] = false) {s s' : List α × ℕ} (h : Searched elements reproduces s)
    (hs' : ddminRound reproduces s = .inr s') : Searched elements reproduces s' := by
  cases h with
  | found sub hsub hfirst hrep =>
    cases rounded_of_inr hs' with
    | reduced _ _ _ hr _ => exact .found sub hsub hfirst hr
    | refined _ hk _ _ => exact .found sub hsub hfirst (hk ▸ hrep)
  | cutting j hs hn hnone =>
    cases rounded_of_inr hs' with
    | reduced sub hsub hk hr _ =>
      have hlen := complement_length_lt hsub
      rw [hk, hs] at hr
      rw [hs] at hsub hlen
      have h2 : 2 ≤ elements.length := by
        by_contra hlt
        have hzero : complement elements sub = [] := List.length_eq_zero_iff.1 (by omega)
        rw [hzero, hnil] at hr
        cases hr
      exact .found sub ⟨j, hn h2 ▸ hsub⟩ hr (by rw [hk, hs]; exact hr)
    | refined hlt hk hn' hnone' =>
      refine .cutting (j + 1) (hk.trans hs) (fun h2 => ?_) fun k hkj sub hsub => ?_
      · rw [hn', hs, hn h2, Nat.pow_succ 2 (j + 1)]
        omega
      · rcases Nat.lt_succ_iff_lt_or_eq.1 hkj with hkj | rfl
        · exact hnone k hkj sub hsub
        · rw [hs] at hlt hnone'
          by_cases h2 : 2 ≤ elements.length
          · rw [← hn h2] at hsub
            exact not_reproduces_complement hnil (hnone' sub hsub)
          · have hlen := complement_length_lt hsub
            rw [List.length_eq_zero_iff.1 (by omega : (complement elements sub).length = 0), hnil]

theorem Searched.last (hnil : reproduces [] = false) {s : List α × ℕ} {kept : List α} (h : Searched elements reproduces s)
    (hs : ddminRound reproduces s = .inl kept) :
    (∃ sub, FirstSlice elements sub ∧ reproduces (complement elements sub) = true) ∧ reproduces kept = true ∨
      kept = elements ∧ ∀ sub, FirstSlice elements sub → reproduces (complement elements sub) = false := by
  obtain ⟨rfl, hlast⟩ := returned_of_inl hs
  cases h with
  | found sub hsub hfirst hrep => exact Or.inl ⟨⟨sub, hsub, hfirst⟩, hrep⟩
  | cutting j hs hn hnone =>
    refine Or.inr ⟨hs, ?_⟩
    rintro sub ⟨k, hsub⟩
    rw [hs] at hlast
    rcases hlast with hlen | ⟨hle, hnone'⟩
    · have hlt := complement_length_lt hsub
      rw [List.length_eq_zero_iff.1 (by omega : (complement elements sub).length = 0), hnil]
    · by_cases hkj : k < j
      · exact hnone k hkj sub hsub
      · by_cases h2 : 2 ≤ elements.length
        · have hmono : 2 ^ (j + 1) ≤ 2 ^ (k + 1) := Nat.pow_le_pow_right (by omega) (by omega)
          have hn := hn h2
          rw [show min elements.length (2 ^ (k + 1)) = s.2 by omega] at hsub
          exact not_reproduces_complement hnil (hnone' sub hsub)
        · have hlt := complement_length_lt hsub
          rw [List.length_eq_zero_iff.1 (by omega : (complement elements sub).length = 0), hnil]

/-- What `ddmin` returns reproduces the failure exactly when the whole list does, or nothing of it, or what one of the first slices
leaves. -/
theorem ddmin_reproduces_iff (elements : List α) (reproduces : List α → Bool) : reproduces (ddmin elements reproduces) = true ↔
    reproduces elements = true ∨ reproduces [] = true ∨
      ∃ sub, FirstSlice elements sub ∧ reproduces (complement elements sub) = true := by
  by_cases hnil : reproduces [] = true
  · have hkept : ddmin elements reproduces = [] := if_pos hnil
    simp [hkept, hnil]
  rw [Bool.not_eq_true] at hnil
  have hrun : WhileLoop.run (ddminRound reproduces) (ddminFuel elements) (elements, 2) = some (ddmin elements reproduces) := by
    rw [ddmin, if_neg (by simp [hnil]), Option.some_get]
  have hstart : Searched elements reproduces (elements, 2) :=
    .cutting 0 rfl (fun h2 => by simp; omega) fun k hk => absurd hk (Nat.not_lt_zero k)
  rcases WhileLoop.run_post (Searched elements reproduces) _ (fun s s' h => h.next hnil) (fun s kept h => h.last hnil) hstart hrun with
    ⟨hfirst, hrep⟩ | ⟨heq, hnone⟩
  · exact iff_of_true hrep (Or.inr (Or.inr hfirst))
  · rw [heq]
    refine ⟨Or.inl, ?_⟩
    rintro (h | h | ⟨sub, hsub, h⟩)
    · exact h
    · rw [hnil] at h
      cases h
    · rw [hnone sub hsub] at h
      cases h

/-- From a list that reproduces the failure `ddmin` comes to a sublist that does, and no longer does without any one of its
elements. -/
theorem ddmin_spec (elements : List α) (reproduces : List α → Bool) (h : reproduces elements = true) :
    let kept := ddmin elements reproduces
    kept.Sublist elements ∧ reproduces kept = true ∧ ∀ e ∈ kept, reproduces (kept.filter fun x => x ≠ e) = false := by
  by_cases hnil : reproduces [] = true
  · have hkept : ddmin elements reproduces = [] := if_pos hnil
    simp [hkept, hnil]
  · obtain ⟨hsub, hrep, hmin⟩ := @ddmin_post α _ elements reproduces (Bool.eq_false_iff.2 hnil)
    refine ⟨hsub, hrep.elim id fun e => ?_, hmin⟩
    rw [e]
    exact h

theorem ddmin_sublist (elements : List α) (reproduces : List α → Bool) : (ddmin elements reproduces).Sublist elements := by
  by_cases hnil : reproduces [] = true
  · rw [ddmin, if_pos hnil]
    exact List.nil_sublist _
  · exact (ddmin_post (Bool.eq_false_iff.2 hnil)).1

/-- Delta debugging ends, and what it returns is a sublist that reproduces the failure and from which no element can be left out,
whatever reproduces it. -/
theorem ddmin_one_minimal (elements : List α) (hd : elements.Nodup) (reproduces : List α → Bool)
    (h : reproduces elements = true) :
    (reproduces [] = false → ∀ fuel ≥ ddminFuel elements,
      WhileLoop.run (ddminRound reproduces) fuel (elements, 2) = some (ddmin elements reproduces)) ∧
    (ddmin elements reproduces).Sublist elements ∧ reproduces (ddmin elements reproduces) = true ∧
    ∀ e ∈ ddmin elements reproduces, reproduces ((ddmin elements reproduces).erase e) = false := by
  obtain ⟨hsub, hrep, hmin⟩ := ddmin_spec elements reproduces h
  refine ⟨fun hnil fuel hfuel => ?_, hsub, hrep, fun e he => ?_⟩
  · have hrun : WhileLoop.run (ddminRound reproduces) (ddminFuel elements) (elements, 2) = some (ddmin elements reproduces) := by
      rw [ddmin, if_neg (by simp [hnil]), Option.some_get]
    exact WhileLoop.run_mono hrun hfuel
  · rw [(hsub.nodup hd).erase_eq_filter]
    rw [List.filter_congr fun x _ => (by simp [bne, beq_eq_decide] : (x != e) = decide (x ≠ e))]
    exact hmin e he

/-- The last two of three faults are needed, or the first alone. -/
theorem ddmin_one_minimal_three : let reproduces := fun kept : List ℕ => decide (kept = [0, 1, 2] ∨ kept = [1, 2] ∨ kept = [0])
    ddmin [0, 1, 2] reproduces = [1, 2] ∧ ∀ e ∈ ddmin [0, 1, 2] reproduces, reproduces ((ddmin [0, 1, 2] reproduces).erase e) = false :=
  ⟨by decide +kernel, (ddmin_one_minimal [0, 1, 2] (by decide) _ (by decide)).2.2.2⟩

end Ddmin

/-! ## The step budget -/

/-- From a budget that reproduces the failure the binary search comes to one that does, and the budget one less does not. -/
theorem minStepsRound_post {reproduces : Int → Bool} {steps : Int} (hs : 1 ≤ steps) (h : reproduces steps = true) {fuel : Nat} {r : Int}
    (hr : WhileLoop.run (minStepsRound reproduces) fuel (1, steps) = some r) :
    1 ≤ r ∧ r ≤ steps ∧ reproduces r = true ∧ (1 < r → reproduces (r - 1) = false) := by
  refine WhileLoop.run_post
    (fun s : Int × Int => 1 ≤ s.1 ∧ s.1 ≤ s.2 ∧ s.2 ≤ steps ∧ reproduces s.2 = true ∧ (1 < s.1 → reproduces (s.1 - 1) = false))
    (fun r => 1 ≤ r ∧ r ≤ steps ∧ reproduces r = true ∧ (1 < r → reproduces (r - 1) = false))
    ?_ ?_ ⟨le_rfl, hs, le_rfl, h, fun hlt => absurd hlt (by simp)⟩ hr
  · rintro ⟨lo, hi⟩ ⟨lo', hi'⟩ ⟨h1, hle, hhi, hrep, hprev⟩ hr
    unfold minStepsRound at hr
    simp only at *
    split at hr
    · split at hr
      · rename_i hmid
        cases hr
        exact ⟨h1, by omega, by omega, hmid, hprev⟩
      · rename_i hmid
        cases hr
        refine ⟨by omega, by omega, hhi, hrep, fun _ => ?_⟩
        rw [Int.add_sub_cancel]
        exact Bool.eq_false_iff.2 hmid
    · cases hr
  · rintro ⟨lo, hi⟩ r ⟨h1, hle, hhi, hrep, hprev⟩ hr
    unfold minStepsRound at hr
    simp only at *
    split at hr
    · split at hr <;> cases hr
    · cases hr
      have : lo = hi := by omega
      subst this
      exact ⟨h1, hhi, hrep, hprev⟩

/-- How far the binary search has come: some first probe reproduced the failure, and the upper end does; or the first few have not. -/
inductive Probed (steps : Int) (reproduces : Int → Bool) (s : Int × Int) : Prop
  | found (k : ℕ) (hfirst : reproduces (steps - steps / 2 ^ (k + 1)) = true) (hrep : reproduces s.2 = true)
  | probing (j : ℕ) (hhi : s.2 = steps) (hlo : s.1 = steps + 1 - steps / 2 ^ j)
      (hnone : ∀ k < j, reproduces (steps - steps / 2 ^ (k + 1)) = false)

theorem ediv_two_pow_succ (steps : Int) (j : ℕ) : steps / 2 ^ (j + 1) = steps / 2 ^ j / 2 := by
  rw [Int.pow_succ, Int.ediv_ediv_of_nonneg (Int.pow_nonneg (by decide))]

theorem Probed.next {steps : Int} {reproduces : Int → Bool} {s s' : Int × Int} (h : Probed steps reproduces s)
    (hs' : minStepsRound reproduces s = .inr s') : Probed steps reproduces s' := by
  obtain ⟨lo, hi⟩ := s
  unfold minStepsRound at hs'
  simp only at hs'
  split at hs'
  · rename_i hlt
    cases h with
    | found k hfirst hrep =>
      split at hs'
      · rename_i hmid
        cases hs'
        exact .found k hfirst hmid
      · cases hs'
        exact .found k hfirst hrep
    | probing j hhi hlo hnone =>
      have hdiv := ediv_two_pow_succ steps j
      have hmid : (lo + hi) / 2 = steps - steps / 2 ^ (j + 1) := by
        simp only at hhi hlo
        omega
      rw [hmid] at hs'
      split at hs'
      · rename_i hrep
        cases hs'
        exact .found j hrep hrep
      · rename_i hrep
        cases hs'
        refine .probing (j + 1) hhi (by simp only; omega) fun k hk => ?_
        rcases Nat.lt_succ_iff_lt_or_eq.1 hk with hk | rfl
        · exact hnone k hk
        · exact Bool.eq_false_iff.2 hrep
  · cases hs'

theorem Probed.last {steps : Int} {reproduces : Int → Bool} (hsteps : 1 ≤ steps) {s : Int × Int} {r : Int}
    (h : Probed steps reproduces s) (hs : minStepsRound reproduces s = .inl r) (hle : s.1 ≤ s.2) :
    reproduces r = true ↔ ∃ k : ℕ, reproduces (steps - steps / 2 ^ (k + 1)) = true := by
  obtain ⟨lo, hi⟩ := s
  unfold minStepsRound at hs
  simp only at hs hle
  split at hs
  · split at hs <;> cases hs
  · cases hs
    obtain rfl : r = hi := by omega
    cases h with
    | found k hfirst hrep => exact iff_of_true hrep ⟨k, hfirst⟩
    | probing j hhi hlo hnone =>
      obtain rfl : r = steps := hhi
      simp only at hlo
      have hdiv := ediv_two_pow_succ r j
      constructor
      · refine fun hrep => ⟨j, ?_⟩
        rwa [show r - r / 2 ^ (j + 1) = r by omega]
      · rintro ⟨k, hk⟩
        by_cases hkj : k < j
        · rw [hnone k hkj] at hk
          cases hk
        · have hlt : r < 2 ^ (j + 1) := by
            have hpos : (0 : Int) < 2 ^ (j + 1) := Int.pow_pos (by decide)
            have := Int.lt_ediv_add_one_mul_self r hpos
            rw [show r / 2 ^ (j + 1) = 0 by omega] at this
            omega
          have hmono : (2 : Int) ^ (j + 1) ≤ 2 ^ (k + 1) := by
            exact_mod_cast Nat.pow_le_pow_right Nat.zero_lt_two (show j + 1 ≤ k + 1 by omega)
          rwa [Int.ediv_eq_zero_of_lt (by omega) (hlt.trans_le hmono), Int.sub_zero] at hk

/-- What the binary search returns is within the budget, and reproduces the failure exactly when one of its first probes does: the
budgets that lie a half, a quarter and so on below the whole one. -/
theorem minStepsRound_reproduces_iff {reproduces : Int → Bool} {steps : Int} (hs : 1 ≤ steps) {fuel : Nat} {r : Int}
    (hr : WhileLoop.run (minStepsRound reproduces) fuel (1, steps) = some r) :
    r ≤ steps ∧ (reproduces r = true ↔ ∃ k : ℕ, reproduces (steps - steps / 2 ^ (k + 1)) = true) := by
  refine WhileLoop.run_post (fun s => Probed steps reproduces s ∧ s.1 ≤ s.2 ∧ s.2 ≤ steps)
    (fun r => r ≤ steps ∧ (reproduces r = true ↔ ∃ k : ℕ, reproduces (steps - steps / 2 ^ (k + 1)) = true)) ?_ ?_
    ⟨.probing 0 rfl (by simp only [Int.pow_zero, Int.ediv_one]; omega) fun k hk => absurd hk (Nat.not_lt_zero k), hs, le_rfl⟩ hr
  · rintro ⟨lo, hi⟩ s' ⟨h, hle, hhi⟩ hs'
    refine ⟨h.next hs', ?_⟩
    unfold minStepsRound at hs'
    simp only at hs' hle hhi
    split at hs'
    · split at hs' <;> cases hs' <;> simp only <;> omega
    · cases hs'
  · rintro ⟨lo, hi⟩ r ⟨h, hle, hhi⟩ hr
    refine ⟨?_, h.last hs hr hle⟩
    unfold minStepsRound at hr
    simp only at hr hle hhi
    split at hr
    · split at hr <;> cases hr
    · cases hr
      omega

section Shrink

variable {β ν : Type} {run : Scenario β ν → Outcome}

/-- The binary search stays within the budget, and what it returns reproduces the failure exactly when one of its first probes does. -/
theorem minSteps_reproduces_iff (scenario : Scenario β ν) (target : String) (hs : 1 ≤ scenario.steps) :
    minSteps run scenario target ≤ scenario.steps ∧
      (failureSignature run { scenario with steps := minSteps run scenario target } = some target ↔
        ∃ k : ℕ, failureSignature run { scenario with steps := scenario.steps - scenario.steps / 2 ^ (k + 1) } = some target) := by
  obtain ⟨hle, hiff⟩ := minStepsRound_reproduces_iff hs (Option.some_get
    (minSteps_isSome (fun mid => decide (failureSignature run { scenario with steps := mid } = some target)) scenario.steps)).symm
  simp only [decide_eq_true_eq] at hiff
  exact ⟨hle, hiff⟩

/-- From some probe on the budget is the whole one. -/
theorem exists_whole_probe {steps : Int} (hs : 1 ≤ steps) : ∃ k : ℕ, steps - steps / 2 ^ (k + 1) = steps := by
  refine ⟨steps.toNat, ?_⟩
  have hlt : steps.toNat < 2 ^ (steps.toNat + 1) := Nat.lt_two_pow_self.trans (Nat.pow_lt_pow_succ (by decide))
  have hlt' : steps < 2 ^ (steps.toNat + 1) := by
    have : ((steps.toNat : ℕ) : Int) < ((2 ^ (steps.toNat + 1) : ℕ) : Int) := Int.ofNat_lt.2 hlt
    rwa [Int.toNat_of_nonneg (by omega), Int.natCast_pow] at this
  rw [Int.ediv_eq_zero_of_lt (by omega) hlt', Int.sub_zero]

/-- Without a step to run the binary search still returns one. -/
theorem minSteps_of_nonpos (run : Scenario β ν → Outcome) (scenario : Scenario β ν) (target : String) (hs : scenario.steps < 1) :
    minSteps run scenario target = 1 := by
  refine WhileLoop.run_post (fun s : Int × Int => s = (1, scenario.steps)) (fun r => r = 1) ?_ ?_ rfl
    (Option.some_get _).symm
  · rintro s s' rfl hr
    rw [minStepsRound, if_neg (by omega)] at hr
    cases hr
  · rintro s r rfl hr
    rw [minStepsRound, if_neg (by omega)] at hr
    cases hr
    rfl

/-! ## The counterexample -/

/-- Nothing is suppressed when every ordinal is kept. -/
theorem suppressing_range (total : Nat) : suppressing total (List.range total) = ∅ := by
  ext j
  simp [suppressing]

/-- The ordinals of the run that delta debugging keeps. -/
def keptOrdinals (run : Scenario β ν → Outcome) (scenario : Scenario β ν) (target : String) : List Nat :=
  ddmin (List.range (run scenario).faultCount) fun kept =>
    decide (failureSignature run { scenario with suppressed := suppressing (run scenario).faultCount kept } = some target)

/-- The scenario with the other ordinals suppressed. -/
def masked (run : Scenario β ν → Outcome) (scenario : Scenario β ν) (target : String) : Scenario β ν :=
  { scenario with suppressed := suppressing (run scenario).faultCount (keptOrdinals run scenario target) }

/-- That scenario with the budget that the binary search finds for it. -/
def reduced (run : Scenario β ν → Outcome) (scenario : Scenario β ν) (target : String) : Scenario β ν :=
  { masked run scenario target with steps := minSteps run (masked run scenario target) target }

/-- What `shrink` returns for a failing scenario. -/
theorem shrink_eq {scenario : Scenario β ν} {target : Option String} {ce : Counterexample β ν}
    (h : shrink run scenario target = some ce) : failureSignature run scenario = some ce.signature ∧
      ce.originalFaultCount = (run scenario).faultCount ∧ ce.scenario = reduced run scenario ce.signature := by
  unfold shrink at h
  split at h
  · cases h
  · rename_i signature hsig
    simp only at h
    generalize (if target.getD "" = "" then signature else target.getD "") = target at h
    split at h
    · cases h
    · rename_i heq
      cases not_not.1 heq
      cases h
      refine ⟨hsig, rfl, ?_⟩
      simp only [reduced, masked, keptOrdinals]
      by_cases hzero : (run scenario).faultCount = 0
      · have hnone : ∀ reproduces : List Nat → Bool, ddmin (List.range (run scenario).faultCount) reproduces = [] := fun reproduces => by
          rw [hzero]
          exact List.eq_nil_of_sublist_nil (ddmin_sublist [] reproduces)
        simp only [if_neg (not_not.2 hzero), hnone]
      · simp only [if_pos hzero]

/-- If the scenario does not fail alike under the mask that delta debugging comes to, then this mask is empty. -/
theorem masked_of_not_reproduces {scenario : Scenario β ν} {target : String}
    (h : failureSignature run (masked run scenario target) ≠ some target) :
    masked run scenario target = { scenario with suppressed := ∅ } := by
  have hall : keptOrdinals run scenario target = List.range (run scenario).faultCount := by
    by_cases hnil : failureSignature run { scenario with suppressed := suppressing (run scenario).faultCount [] } = some target
    · have hkept : keptOrdinals run scenario target = [] := if_pos (decide_eq_true hnil)
      rw [masked, hkept] at h
      exact absurd hnil h
    · exact (ddmin_post (decide_eq_false hnil)).2.1.resolve_left fun hrep => h (of_decide_eq_true hrep)
  rw [masked, hall, suppressing_range]

/-- The masks under which delta debugging runs a scenario until it can leave out something: all ordinals, and the slices of the first
cuts. -/
def FirstMask (total : ℕ) (mask : Finset ℕ) : Prop :=
  mask = Finset.range total ∨ ∃ slice, FirstSlice (List.range total) slice ∧ mask = slice.toFinset

/-- To keep what a slice leaves is to suppress the slice. -/
theorem suppressing_complement {total : ℕ} {slice : List ℕ} (h : FirstSlice (List.range total) slice) :
    suppressing total (complement (List.range total) slice) = slice.toFinset := by
  obtain ⟨k, hslice⟩ := h
  obtain ⟨i, -, rfl⟩ := List.mem_map.1 hslice
  ext j
  simp only [suppressing, complement, Finset.mem_sdiff, Finset.mem_range, List.mem_toFinset, List.mem_filter, List.mem_range,
    decide_eq_true_eq, not_and, not_not]
  refine ⟨fun h => h.2 h.1, fun h => ⟨?_, fun _ => h⟩⟩
  exact List.mem_range.1 (List.mem_of_mem_drop (List.mem_of_mem_take h))

/-- The scenario fails alike under the mask that delta debugging comes to exactly when it does under one of the first masks, or under
none. -/
theorem masked_reproduces_iff {scenario : Scenario β ν} {target : String} :
    failureSignature run (masked run scenario target) = some target ↔
      (∃ mask, FirstMask (run scenario).faultCount mask ∧ failureSignature run { scenario with suppressed := mask } = some target) ∨
        failureSignature run { scenario with suppressed := ∅ } = some target := by
  have hiff := ddmin_reproduces_iff (List.range (run scenario).faultCount) fun kept =>
    decide (failureSignature run { scenario with suppressed := suppressing (run scenario).faultCount kept } = some target)
  simp only [decide_eq_true_eq, suppressing_range] at hiff
  refine hiff.trans ⟨?_, ?_⟩
  · rintro (h | h | ⟨slice, hslice, h⟩)
    · exact Or.inr h
    · exact Or.inl ⟨_, Or.inl rfl, by simpa [suppressing] using h⟩
    · rw [suppressing_complement hslice] at h
      exact Or.inl ⟨_, Or.inr ⟨slice, hslice, rfl⟩, h⟩
  · rintro (⟨mask, rfl | ⟨slice, hslice, rfl⟩, h⟩ | h)
    · exact Or.inr (Or.inl (by simpa [suppressing] using h))
    · rw [← suppressing_complement hslice] at h
      exact Or.inr (Or.inr ⟨slice, hslice, h⟩)
    · exact Or.inl h

/-- A counterexample reproduces the failure within the scenario's budget exactly when the budget is at least one step and the scenario
fails alike under one of the first masks of delta debugging, or without a mask within its budget or one of the first that the binary
search tries. -/
theorem shrink_reproduces (run : Scenario β ν → Outcome) (scenario : Scenario β ν) (target : Option String)
    (ce : Counterexample β ν) (h : shrink run scenario target = some ce) :
    (failureSignature run ce.scenario = some ce.signature ∧ ce.scenario.steps ≤ scenario.steps) ↔
      1 ≤ scenario.steps ∧
        ((∃ mask, FirstMask (run scenario).faultCount mask ∧
          failureSignature run { scenario with suppressed := mask } = failureSignature run scenario) ∨
        ∃ k : ℕ, failureSignature run { scenario with suppressed := ∅, steps := scenario.steps - scenario.steps / 2 ^ (k + 1) } =
          failureSignature run scenario) := by
  obtain ⟨hsig, -, hce⟩ := shrink_eq h
  rw [hce, hsig]
  by_cases hs : 1 ≤ scenario.steps
  · obtain ⟨hle, hiff⟩ := minSteps_reproduces_iff (masked run scenario ce.signature) ce.signature hs
    obtain ⟨whole, hwhole⟩ := exists_whole_probe hs
    rw [and_iff_left (show (reduced run scenario ce.signature).steps ≤ scenario.steps from hle), and_iff_right hs]
    refine hiff.trans ?_
    by_cases hmasked : failureSignature run (masked run scenario ce.signature) = some ce.signature
    · refine iff_of_true ⟨whole, ?_⟩ ?_
      · show failureSignature run { masked run scenario ce.signature with steps := scenario.steps - scenario.steps / 2 ^ (whole + 1) } = _
        rw [hwhole]
        exact hmasked
      · refine (masked_reproduces_iff.1 hmasked).imp_right fun hnone => ⟨whole, ?_⟩
        rw [hwhole]
        exact hnone
    · have hnone := not_or.1 (fun h => hmasked (masked_reproduces_iff.2 h))
      rw [or_iff_right hnone.1, masked_of_not_reproduces hmasked]
  · refine iff_of_false (fun h => hs ?_) (fun h => hs h.1)
    have hone : (reduced run scenario ce.signature).steps = 1 :=
      minSteps_of_nonpos run (masked run scenario ce.signature) ce.signature (not_le.1 hs)
    exact hone ▸ h.2

end Shrink

/-- A run that reaches its first ordinal at step 1 and its second at step 3, and violates an invariant at step 5 if the first one
fires. -/
def needsFirst (scenario : Scenario Unit Unit) : Outcome :=
  { violation := if 5 ≤ scenario.steps ∧ 0 ∉ scenario.suppressed then some "LogMatching" else none
    faultCount := if scenario.steps < 1 then 0 else if scenario.steps < 3 then 1 else 2 }

/-- A scenario of that run with a mask. -/
def lateScenario (suppressed : Finset Nat) : Scenario Unit Unit :=
  { nodes := 3, seed := 0, faults := "chaos", steps := 10, bugs := (), suppressed }

theorem shrink_reproduces_lateScenario :
    ∃ ce, shrink needsFirst (lateScenario {1}) none = some ce ∧ failureSignature needsFirst ce.scenario = some ce.signature ∧
      ce.scenario.steps ≤ 10 :=
  ⟨(shrink needsFirst (lateScenario {1}) none).get (by decide +kernel), (Option.some_get _).symm,
    (shrink_reproduces needsFirst (lateScenario {1}) none _ (Option.some_get _).symm).2 ⟨by decide, Or.inr ⟨3, by decide +kernel⟩⟩⟩

/-- A run that reaches four ordinals, and violates an invariant at step 5 exactly when the second and the fourth of them are
suppressed and the others fire. -/
def needsTwoMasked (scenario : Scenario Unit Unit) : Outcome :=
  { violation := if 5 ≤ scenario.steps ∧ scenario.suppressed ∩ {0, 1, 2, 3} = {1, 3} then some "LogMatching" else none
    faultCount := min scenario.steps.toNat 4 }

/-- The failing scenario of that run: its mask is not empty. -/
def maskedScenario : Scenario Unit Unit :=
  { nodes := 3, seed := 0, faults := "chaos", steps := 10, bugs := (), suppressed := {1, 3} }

/-- The mask of a scenario that is shrunk again is lost: the counterexample does not fail. -/
theorem shrink_maskedScenario :
    ∃ ce, shrink needsTwoMasked maskedScenario none = some ce ∧ ce.signature = "LogMatching" ∧
      failureSignature needsTwoMasked ce.scenario = none := by
  refine ⟨(shrink needsTwoMasked maskedScenario none).get (by decide +kernel), (Option.some_get _).symm, ?_, ?_⟩
  · decide +kernel
  · decide +kernel

/-! ## Minimality -/

section Minimal

variable {β ν : Type} {run : Scenario β ν → Outcome}

/-- The ordinals that a run reaches and fires. -/
def fired (run : Scenario β ν → Outcome) (scenario : Scenario β ν) : Finset Nat :=
  Finset.range (run scenario).faultCount \ scenario.suppressed

end Minimal

end DeterministicRaft
