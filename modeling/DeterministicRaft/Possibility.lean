import Mathlib.Logic.Relation
import Mathlib.Data.Nat.Init
import Mathlib.Order.Basic

/-!
# What can still happen

A system that goes on in several ways. `Can next Q s` says that some steps lead from `s` to a state that satisfies `Q`: whoever chooses
the steps can bring it about. The rules are those of a program that is written backwards: a step, a sequence, and loops.
-/

namespace Possibility

variable {σ ι : Type*} {next : σ → σ → Prop} {Q R : σ → Prop} {s s' : σ}

/-- Some steps lead from here to a state that satisfies `Q`. -/
def Can (next : σ → σ → Prop) (Q : σ → Prop) (s : σ) : Prop := ∃ s', Relation.ReflTransGen next s s' ∧ Q s'

namespace Can

/-- Nothing is left to do. -/
theorem now (h : Q s) : Can next Q s := ⟨s, .refl, h⟩

/-- One step, and then the rest. -/
theorem step (hs : next s s') (h : Can next Q s') : Can next Q s := by
  obtain ⟨s'', hsteps, hQ⟩ := h
  exact ⟨s'', .head hs hsteps, hQ⟩

/-- More than is asked for. -/
theorem mono (h : Can next Q s) (hQ : ∀ s, Q s → R s) : Can next R s := by
  obtain ⟨s', hsteps, h⟩ := h
  exact ⟨s', hsteps, hQ s' h⟩

/-- One goal, and then another. -/
theorem bind (h : Can next Q s) (hQ : ∀ s, Q s → Can next R s) : Can next R s := by
  obtain ⟨s', hsteps, h⟩ := h
  obtain ⟨s'', hsteps', hR⟩ := hQ s' h
  exact ⟨s'', hsteps.trans hsteps', hR⟩

/-- Something is left to do: after some steps nothing is, or less. -/
theorem descend {P : ℕ → σ → Prop} (h : ∀ n s, P n s → Can next (fun s' => Q s' ∨ ∃ m < n, P m s') s) {n : ℕ} (hP : P n s) :
    Can next Q s := by
  induction n using Nat.strongRecOn generalizing s with
  | ind n ih =>
    refine (h n s hP).bind fun s' hs' => ?_
    rcases hs' with hQ | ⟨m, hm, hm'⟩
    · exact now hQ
    · exact ih m hm hm'

/-- One thing after the other is done; it may be enough to do some of them. -/
theorem each {P : List ι → σ → Prop} (hnil : ∀ s, P [] s → Can next Q s)
    (hcons : ∀ i rest s, P (i :: rest) s → Can next (fun s' => Q s' ∨ P rest s') s) {l : List ι} (hP : P l s) : Can next Q s := by
  induction l generalizing s with
  | nil => exact hnil s hP
  | cons i rest ih =>
    refine (hcons i rest s hP).bind fun s' hs' => ?_
    rcases hs' with hQ | hrest
    · exact now hQ
    · exact ih hrest

end Can

end Possibility
