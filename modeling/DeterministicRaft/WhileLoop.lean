import Mathlib.Order.Nat

/-!
# Loops with a measure

A loop is a body that returns or goes on with a new state. It is run for a number of iterations, so that it can be evaluated, and
a measure that every iteration lowers shows which number is enough. What it returns is reasoned about with an invariant.
-/

namespace WhileLoop

variable {σ ρ : Type*} (body : σ → ρ ⊕ σ)

/-- The loop, for at most `fuel` iterations. -/
def run : Nat → σ → Option ρ
  | 0, _ => none
  | fuel + 1, s =>
    match body s with
    | .inl r => some r
    | .inr s => run fuel s

variable {body} (inv : σ → Prop)

/-- A loop whose body lowers a measure returns if it has more iterations than the measure. -/
theorem run_isSome (μ : σ → Nat) (hstep : ∀ s s', inv s → body s = .inr s' → inv s' ∧ μ s' < μ s) {fuel : Nat} {s : σ}
    (hs : inv s) (hf : μ s < fuel) : (run body fuel s).isSome = true := by
  induction fuel generalizing s with
  | zero => omega
  | succ fuel ih =>
    unfold run
    split
    · rfl
    · rename_i s' hs'
      have h := hstep s s' hs hs'
      exact ih h.1 (by omega)

omit inv in
/-- A loop that has returned returns the same with more iterations. -/
theorem run_mono {fuel fuel' : Nat} {s : σ} {r : ρ} (h : run body fuel s = some r) (hle : fuel ≤ fuel') :
    run body fuel' s = some r := by
  induction fuel generalizing s fuel' with
  | zero => cases h
  | succ fuel ih =>
    obtain ⟨more, rfl⟩ : ∃ more, fuel' = more + 1 := ⟨fuel' - 1, by omega⟩
    unfold run at h ⊢
    split at h
    · exact h
    · exact ih h (by omega)

/-- Two loops that do the same in each iteration, up to how a result is given, do the same. -/
theorem run_map {ρ' : Type*} {body' : σ → ρ' ⊕ σ} (f : ρ → ρ') (hstep : ∀ s s', inv s → body s = .inr s' → inv s')
    (hbody : ∀ s, inv s → body' s = (body s).map f id) {fuel : Nat} {s : σ} (hs : inv s) :
    run body' fuel s = (run body fuel s).map f := by
  induction fuel generalizing s with
  | zero => rfl
  | succ fuel ih =>
    unfold run
    rw [hbody s hs]
    cases h : body s with
    | inl r => rfl
    | inr s' => exact ih (hstep s s' hs h)

/-- What a loop returns: the invariant holds at the iteration that returns. -/
theorem run_post (post : ρ → Prop) (hstep : ∀ s s', inv s → body s = .inr s' → inv s')
    (hret : ∀ s r, inv s → body s = .inl r → post r) {fuel : Nat} {s : σ} {r : ρ} (hs : inv s)
    (h : run body fuel s = some r) : post r := by
  induction fuel generalizing s with
  | zero => cases h
  | succ fuel ih =>
    unfold run at h
    split at h
    · rename_i r' hr'
      cases h
      exact hret s r hs hr'
    · rename_i s' hs'
      exact ih (hstep s s' hs hs') h

end WhileLoop
