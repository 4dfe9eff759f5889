import Mathlib.Data.List.Basic
import Mathlib.Order.Nat

/-!
# Depth-first search with a memo

A search explores nodes by moves and remembers the nodes it has entered; a node it meets again is not entered. It is right to skip
also the nodes it has not finished, as long as every move lowers a rank: a node below the top of the stack is never met again.
The invariant and one rule for each thing the search does are here, for any nodes and moves.
-/

namespace Backtracking

variable {ν ι : Type*} (moves : ν → List ι) (step : ν → ι → Option ν) (goal : ν → Prop)

/-- The moves `path` go from the first node to the second. -/
def Reaches : ν → List ι → ν → Prop
  | n, [], m => n = m
  | n, i :: path, m => i ∈ moves n ∧ ∃ k, step n i = some k ∧ Reaches k path m

/-- Some moves go from the node to a goal. -/
def Solvable (n : ν) : Prop := ∃ path m, Reaches moves step n path m ∧ goal m

/-- A frame of the stack, a node with its moves to try, may still find a goal: it is one, or it has a move to a solvable node. -/
def Live (frame : ν × List ι) : Prop :=
  goal frame.1 ∨ ∃ i ∈ frame.2, ∃ m, step frame.1 i = some m ∧ Solvable moves step goal m

/-- What holds of the entered nodes and the stack, its top first: the stack goes up in rank, and if an entered node is solvable
then a frame that is not above it in rank is live. -/
structure Explored (rank : ν → ℕ) (entered : ν → Prop) (stack : List (ν × List ι)) : Prop where
  ranked : stack.Pairwise fun f g => rank f.1 < rank g.1
  live : ∀ n, entered n → Solvable moves step goal n → ∃ f ∈ stack, rank f.1 ≤ rank n ∧ Live moves step goal f

variable {moves step goal}

/-- One more move at the end of a path. -/
theorem Reaches.concat {n m k : ν} {path : List ι} {i : ι} (h : Reaches moves step n path m) (hi : i ∈ moves m)
    (hk : step m i = some k) : Reaches moves step n (path ++ [i]) k := by
  induction path generalizing n with
  | nil =>
    cases h
    exact ⟨hi, k, hk, rfl⟩
  | cons j path ih =>
    obtain ⟨hj, l, hl, hlead⟩ := h
    exact ⟨hj, l, hl, ih hlead⟩

/-- A solvable node with all its moves to try is live. -/
theorem Solvable.live {n : ν} (h : Solvable moves step goal n) : Live moves step goal (n, moves n) := by
  obtain ⟨path, m, hlead, hm⟩ := h
  cases path with
  | nil =>
    cases hlead
    exact Or.inl hm
  | cons i path =>
    obtain ⟨hi, k, hk, hrest⟩ := hlead
    exact Or.inr ⟨i, hi, k, hk, path, m, hrest, hm⟩

namespace Explored

variable {rank : ν → ℕ} {entered : ν → Prop} {stack : List (ν × List ι)} {n m : ν} {i : ι} {rest : List ι}

/-- Only which nodes were entered matters. -/
theorem congr {entered' : ν → Prop} (h : Explored moves step goal rank entered stack) (he : ∀ n, entered' n ↔ entered n) :
    Explored moves step goal rank entered' stack where
  ranked := h.ranked
  live k hk hs := h.live k ((he k).1 hk) hs

/-- The search starts at a node. -/
theorem start (moves : ν → List ι) (step : ν → ι → Option ν) (goal : ν → Prop) (rank : ν → ℕ) (root : ν) :
    Explored moves step goal rank (fun n => n = root) [(root, moves root)] where
  ranked := List.pairwise_singleton _ _
  live n hn hs := by
    subst hn
    exact ⟨_, List.mem_singleton_self _, le_rfl, hs.live⟩

/-- A move of the top frame that leads to no solvable node is given up. -/
theorem drop (h : Explored moves step goal rank entered ((n, i :: rest) :: stack))
    (hdead : ∀ m, step n i = some m → ¬Solvable moves step goal m) :
    Explored moves step goal rank entered ((n, rest) :: stack) where
  ranked := List.pairwise_cons.2 (List.pairwise_cons.1 h.ranked)
  live k hk hs := by
    obtain ⟨f, hf, hrank, hlive⟩ := h.live k hk hs
    rcases List.mem_cons.1 hf with rfl | hf
    · refine ⟨(n, rest), List.mem_cons_self, hrank, ?_⟩
      rcases hlive with hgoal | ⟨j, hj, m, hm, hsm⟩
      · exact Or.inl hgoal
      · rcases List.mem_cons.1 hj with rfl | hj
        · exact absurd hsm (hdead m hm)
        · exact Or.inr ⟨j, hj, m, hm, hsm⟩
    · exact ⟨f, List.mem_cons_of_mem _ hf, hrank, hlive⟩

/-- A node of lower rank than the whole stack that was entered before is not solvable. -/
theorem not_solvable (h : Explored moves step goal rank entered ((n, rest) :: stack)) (hm : entered m)
    (hrank : rank m < rank n) : ¬Solvable moves step goal m := by
  intro hs
  obtain ⟨f, hf, hle, -⟩ := h.live m hm hs
  rcases List.mem_cons.1 hf with rfl | hf
  · exact absurd hle (not_le.2 hrank)
  · have := (List.pairwise_cons.1 h.ranked).1 f hf
    simp only at this
    omega

/-- A move to a node that was not entered before enters it, and it becomes the top. -/
theorem push (h : Explored moves step goal rank entered ((n, i :: rest) :: stack)) (hm : step n i = some m)
    (hrank : rank m < rank n) :
    Explored moves step goal rank (fun k => entered k ∨ k = m) ((m, moves m) :: (n, rest) :: stack) where
  ranked := by
    have hp := List.pairwise_cons.1 h.ranked
    refine List.pairwise_cons.2 ⟨?_, List.pairwise_cons.2 hp⟩
    intro f hf
    rcases List.mem_cons.1 hf with rfl | hf
    · exact hrank
    · exact lt_trans hrank (hp.1 f hf)
  live k hk hs := by
    rcases hk with hk | rfl
    · obtain ⟨f, hf, hle, hlive⟩ := h.live k hk hs
      rcases List.mem_cons.1 hf with rfl | hf
      · simp only at hle
        by_cases hsm : Solvable moves step goal m
        · exact ⟨(m, moves m), List.mem_cons_self, (lt_of_lt_of_le hrank hle).le, hsm.live⟩
        · refine ⟨(n, rest), by simp, hle, ?_⟩
          rcases hlive with hgoal | ⟨j, hj, l, hl, hsl⟩
          · exact Or.inl hgoal
          · rcases List.mem_cons.1 hj with rfl | hj
            · cases hm.symm.trans hl
              exact absurd hsl hsm
            · exact Or.inr ⟨j, hj, l, hl, hsl⟩
      · exact ⟨f, by simp [hf], hle, hlive⟩
    · exact ⟨(k, moves k), List.mem_cons_self, le_rfl, hs.live⟩

/-- A frame that is no goal and has no move left is given up. -/
theorem pop (h : Explored moves step goal rank entered ((n, []) :: stack)) (hn : ¬goal n) :
    Explored moves step goal rank entered stack where
  ranked := (List.pairwise_cons.1 h.ranked).2
  live k hk hs := by
    obtain ⟨f, hf, hle, hlive⟩ := h.live k hk hs
    rcases List.mem_cons.1 hf with rfl | hf
    · rcases hlive with hgoal | ⟨j, hj, -⟩
      · exact absurd hgoal hn
      · exact absurd hj List.not_mem_nil
    · exact ⟨f, hf, hle, hlive⟩

/-- When the stack is empty no entered node is solvable. -/
theorem finish (h : Explored moves step goal rank entered []) (hn : entered n) : ¬Solvable moves step goal n := by
  intro hs
  obtain ⟨f, hf, -⟩ := h.live n hn hs
  exact absurd hf List.not_mem_nil

end Explored
end Backtracking
