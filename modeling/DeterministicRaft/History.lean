import Mathlib.Data.List.Perm.Basic
import Mathlib.Data.List.Induction

/-!
# Histories of a shared object

Operations on an object are rows of a history, each with the result that was observed. The object is sequential: `apply` gives
its next state and a result. A history is linearizable if its rows can be put in an order that respects real time and in which the
object gives every observed result.
-/

namespace History

variable {σ ρ ω : Type*} (apply : σ → ρ → σ × ω) (observed : ρ → Option ω)

/-- The object after some operations. -/
def after (s : σ) (rows : List ρ) : σ := rows.foldl (fun s row => (apply s row).1) s

/-- What the operations return, one after the other. -/
def results : σ → List ρ → List ω
  | _, [] => []
  | s, row :: rows => (apply s row).2 :: results (apply s row).1 rows

/-- Every operation gives its observed result, one after the other. -/
def Legal : σ → List ρ → Prop
  | _, [] => True
  | s, row :: rows => observed row = some (apply s row).2 ∧ Legal (apply s row).1 rows

instance Legal.decidable [DecidableEq ω] : ∀ (s : σ) (rows : List ρ), Decidable (Legal apply observed s rows)
  | _, [] => .isTrue trivial
  | s, row :: rows =>
    have := Legal.decidable (apply s row).1 rows
    inferInstanceAs (Decidable (observed row = some (apply s row).2 ∧ Legal apply observed (apply s row).1 rows))

@[simp] theorem after_nil (s : σ) : after apply s [] = s := rfl

@[simp] theorem after_concat (s : σ) (rows : List ρ) (row : ρ) :
    after apply s (rows ++ [row]) = (apply (after apply s rows) row).1 := by
  simp [after]

theorem after_append (s : σ) (rows rows' : List ρ) :
    after apply s (rows ++ rows') = after apply (after apply s rows) rows' := List.foldl_append

theorem results_append (s : σ) (rows rows' : List ρ) :
    results apply s (rows ++ rows') = results apply s rows ++ results apply (after apply s rows) rows' := by
  induction rows generalizing s with
  | nil => rfl
  | cons row rows ih => exact congrArg _ (ih _)

theorem results_concat (s : σ) (rows : List ρ) (row : ρ) :
    results apply s (rows ++ [row]) = results apply s rows ++ [(apply (after apply s rows) row).2] := results_append ..

variable {apply observed}

/-- One more operation is legal if it gives its result after the others. -/
theorem Legal.concat {s : σ} {rows : List ρ} {row : ρ} (h : Legal apply observed s rows)
    (hr : observed row = some (apply (after apply s rows) row).2) : Legal apply observed s (rows ++ [row]) := by
  induction rows generalizing s with
  | nil => exact ⟨hr, trivial⟩
  | cons x rows ih => exact ⟨h.1, ih h.2 hr⟩

/-- The order `order` of the rows respects real time (`precedes x y`: `x` had returned before `y` was invoked) and is legal from
the state `s`. -/
structure Linearization (apply : σ → ρ → σ × ω) (observed : ρ → Option ω) (precedes : ρ → ρ → Prop) (s : σ)
    (rows order : List ρ) : Prop where
  perm : order.Perm rows
  realTime : order.Pairwise fun x y => ¬precedes y x
  legal : Legal apply observed s order

/-- A row that completes now, when no row is to be invoked any more, comes last. -/
theorem Linearization.concat {precedes : ρ → ρ → Prop} {s : σ} {rows rows' order : List ρ} {row : ρ}
    (h : Linearization apply observed precedes s rows order) (hp : rows'.Perm (rows ++ [row]))
    (hr : ∀ x ∈ rows, ¬precedes row x) (ho : observed row = some (apply (after apply s order) row).2) :
    Linearization apply observed precedes s rows' (order ++ [row]) where
  perm := (h.perm.append_right _).trans hp.symm
  realTime := List.pairwise_append.2 ⟨h.realTime, List.pairwise_singleton _ _, fun x hx y hy => by
    rw [List.mem_singleton.1 hy]
    exact hr x (h.perm.subset hx)⟩
  legal := h.legal.concat ho

end History
