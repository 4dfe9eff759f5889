import DeterministicRaft.Backtracking
import DeterministicRaft.Linearizability
import DeterministicRaft.WhileLoop
import Mathlib.Data.List.FinRange
import Mathlib.Data.List.Sort
import Mathlib.Data.Prod.Lex

/-!
# The linearizability oracle (`linearizability.py`)

`check` searches for a linearization of the completed rows depth first, on an explicit stack. At each node it tries the rows that
no other pending row must precede, and it does not enter a store with pending rows that it has entered before.
-/

namespace DeterministicRaft

/-- What the oracle says about a history. -/
structure LinearizabilityResult where
  linearizable : Bool
  message : String
  /-- The order that was found. -/
  linearization : Option (List HistoryEntry) := none
  /-- The rows that could not be placed. -/
  stuck : Option (List HistoryEntry) := none
  checkedOps : Nat := 0
  deriving DecidableEq, Repr

/-- The search ended by exceeding its budget: neither an order nor the rows it got stuck at. -/
def LinearizabilityResult.Undetermined (self : LinearizabilityResult) : Prop := self.linearizable = false ∧ self.stuck = none

instance (r : LinearizabilityResult) : Decidable r.Undetermined := inferInstanceAs (Decidable (_ ∧ _))

/-- The key the rows are sorted by. -/
def HistoryEntry.sortKey (o : HistoryEntry) : Int ×ₗ Int ×ₗ Int ×ₗ Int :=
  toLex (o.invokeStep, toLex (o.returnStep.getD 0, toLex (o.clientId, o.reqId)))

namespace Linearizability

/-- The completed rows, sorted, and cut to the first `max_ops`. -/
def checkedOps (history : List HistoryEntry) (maxOps : Option Int) : List HistoryEntry :=
  let ops := (history.filter HistoryEntry.completed).insertionSort fun x y => x.sortKey ≤ y.sortKey
  match maxOps with
  | none => ops
  | some k => delFrom ops k

section Search

variable (ops : List HistoryEntry)

def inv (p : Fin ops.length) : Int := (ops.get p).invokeStep

def ret (p : Fin ops.length) : Int := (ops.get p).returnStep.getD 0

/-- One step of the loop that finds the two pending rows that returned first. -/
def twoSmallest (mins : Option (Fin ops.length) × Option (Fin ops.length)) (p : Fin ops.length) :
    Option (Fin ops.length) × Option (Fin ops.length) :=
  match mins.1 with
  | none => (some p, none)
  | some min1 =>
    if ret ops p < ret ops min1 then (some p, some min1)
    else match mins.2 with
      | none => (some min1, some p)
      | some min2 => if ret ops p < ret ops min2 then (some min1, some p) else (some min1, some min2)

/-- The pending rows that no other pending row must precede. -/
def minimal (pending : List (Fin ops.length)) : List (Fin ops.length) :=
  match pending with
  | [p] => [p]
  | pending =>
    let mins := pending.foldl (twoSmallest ops) (none, none)
    pending.filter fun p =>
      match (if some p = mins.1 then mins.2 else mins.1) with
      | some q => inv ops p ≤ ret ops q
      | none => true

/-- A node of the search on the stack. -/
structure Frame where
  store : Dict String String
  pending : List (Fin ops.length)
  cands : Option (List (Fin ops.length)) := none
  ci : Nat := 0
  path : List (Fin ops.length) := []

/-- The variables of the search, the stack with its top first. The memo's keys hold the store itself: the sorted tuple of its
items is equal for equal stores only. -/
structure Search where
  memo : List (Dict String String × List (Fin ops.length)) := []
  deepest : List (Fin ops.length) := []
  explored : Nat := 0
  stack : List (Frame ops)

/-- One iteration of the search, which returns or goes on. -/
def iterate (budget : Int) (s : Search ops) : LinearizabilityResult ⊕ Search ops :=
  let n := ops.length
  match s.stack with
  | [] =>
    let depth := s.deepest.length
    let frontier := (((List.finRange n).filter fun i => i ∉ s.deepest).map ops.get).take 8
    .inl { linearizable := false
           message := s!"not linearizable: no legal ordering exists (linearized {depth}/{n} ops before getting stuck)"
           stuck := some frontier, checkedOps := n }
  | frame :: stack =>
    if frame.pending = [] then
      .inl { linearizable := true, message := "linearizable"
             linearization := some (frame.path.map ops.get), checkedOps := n }
    else
      let cands := frame.cands.getD (minimal ops frame.pending)
      let deepest := if frame.cands = none ∧ s.deepest.length < frame.path.length then frame.path else s.deepest
      match cands[frame.ci]? with
      | none => .inr { s with deepest, stack }
      | some i =>
        let stack := { frame with cands := some cands, ci := frame.ci + 1 } :: stack
        let (newStore, result) := apply frame.store (ops.get i)
        if (ops.get i).observed ≠ some result then .inr { s with deepest, stack }
        else
          let newPending := frame.pending.filter fun p => p ≠ i
          if (newStore, newPending) ∈ s.memo then .inr { s with deepest, stack }
          else
            let memo := (newStore, newPending) :: s.memo
            let explored := s.explored + 1
            if budget < explored then
              .inl { linearizable := false
                     message := s!"search budget ({budget}) exhausted; result undetermined"
                     checkedOps := n }
            else
              .inr { memo, deepest, explored
                     stack := { store := newStore, pending := newPending, path := frame.path ++ [i] } :: stack }

/-- The search before its first iteration. -/
def start : Search ops where
  stack := [{ store := ∅, pending := List.finRange ops.length }]

/-! ## What one iteration does -/

/-- Place a row after a store: it must give the result that was observed. -/
def place (node : Dict String String × List (Fin ops.length)) (i : Fin ops.length) :
    Option (Dict String String × List (Fin ops.length)) :=
  if (ops.get i).observed = some (apply node.1 (ops.get i)).2 then
    some ((apply node.1 (ops.get i)).1, node.2.filter fun p => p ≠ i)
  else none

namespace Frame

variable {ops}

def node (f : Frame ops) : Dict String String × List (Fin ops.length) := (f.store, f.pending)

/-- The rows the frame has still to try. -/
def todo (f : Frame ops) : List (Fin ops.length) := (f.cands.getD (minimal ops f.pending)).drop f.ci

/-- The frame once its next row has been taken. -/
def taken (f : Frame ops) : Frame ops := { f with cands := some (f.cands.getD (minimal ops f.pending)), ci := f.ci + 1 }

@[simp] theorem node_taken (f : Frame ops) : f.taken.node = f.node := rfl

@[simp] theorem pending_taken (f : Frame ops) : f.taken.pending = f.pending := rfl

@[simp] theorem path_taken (f : Frame ops) : f.taken.path = f.path := rfl

theorem todo_taken (f : Frame ops) : f.taken.todo = f.todo.tail := by
  simp [todo, taken]

end Frame

/-- What an iteration that goes on did: it gave up the top frame, or the top frame's next row, or it entered the node that row
leads to. -/
inductive Iterated (budget : Int) (s s' : Search ops) : Prop
  | pop (frame : Frame ops) (stack : List (Frame ops)) (hs : s.stack = frame :: stack) (hp : frame.pending ≠ [])
      (ht : frame.todo = []) (hs' : s'.stack = stack) (hm : s'.memo = s.memo) (he : s'.explored = s.explored)
  | drop (frame : Frame ops) (stack : List (Frame ops)) (i : Fin ops.length) (hs : s.stack = frame :: stack)
      (hp : frame.pending ≠ []) (ht : frame.todo = i :: frame.taken.todo)
      (hd : ∀ node, place ops frame.node i = some node → node ∈ s.memo) (hs' : s'.stack = frame.taken :: stack)
      (hm : s'.memo = s.memo) (he : s'.explored = s.explored)
  | push (frame : Frame ops) (stack : List (Frame ops)) (i : Fin ops.length) (node : Dict String String × List (Fin ops.length))
      (hs : s.stack = frame :: stack) (hp : frame.pending ≠ []) (ht : frame.todo = i :: frame.taken.todo)
      (hd : place ops frame.node i = some node)
      (hs' : s'.stack = { store := node.1, pending := node.2, path := frame.path ++ [i] } :: frame.taken :: stack)
      (hm : s'.memo = node :: s.memo) (he : s'.explored = s.explored + 1) (hb : (s'.explored : Int) ≤ budget)

/-- What an iteration that returns has found. -/
inductive Returned (s : Search ops) (r : LinearizabilityResult) : Prop
  | stuck (hs : s.stack = []) (hr : r.linearizable = false)
  | found (frame : Frame ops) (stack : List (Frame ops)) (hs : s.stack = frame :: stack) (hp : frame.pending = [])
      (hr : r.linearizable = true) (hl : r.linearization = some (frame.path.map ops.get))
  | undetermined (hr : r.Undetermined)

variable {ops}

theorem iterated_of_inr {budget : Int} {s s' : Search ops} (h : iterate ops budget s = .inr s') : Iterated ops budget s s' := by
  cases hs : s.stack with
  | nil =>
    simp only [iterate, hs] at h
    cases h
  | cons frame stack =>
    simp only [iterate, hs] at h
    by_cases hp : frame.pending = []
    · rw [if_pos hp] at h
      cases h
    · rw [if_neg hp] at h
      split at h
      · rename_i hnone
        cases h
        refine .pop frame stack hs hp ?_ rfl rfl rfl
        rw [Frame.todo, List.drop_eq_nil_iff]
        simpa using hnone
      · rename_i i hi
        have ht : frame.todo = i :: frame.taken.todo := by
          obtain ⟨hlt, hget⟩ := List.getElem?_eq_some_iff.1 hi
          rw [Frame.todo_taken, Frame.todo, List.drop_eq_getElem_cons hlt, hget, List.tail_cons]
        by_cases hobs : (ops.get i).observed = some (apply frame.store (ops.get i)).2
        · have hplace : place ops frame.node i =
              some ((apply frame.store (ops.get i)).1, frame.pending.filter fun p => p ≠ i) := if_pos hobs
          rw [if_neg (not_not.2 hobs)] at h
          split at h
          · rename_i hmemo
            cases h
            refine .drop frame stack i hs hp ht ?_ rfl rfl rfl
            intro node hnode
            cases hplace.symm.trans hnode
            exact hmemo
          · split at h
            · cases h
            · rename_i hb
              cases h
              exact .push frame stack i _ hs hp ht hplace rfl rfl rfl (not_lt.1 hb)
        · rw [if_pos hobs] at h
          cases h
          refine .drop frame stack i hs hp ht ?_ rfl rfl rfl
          intro node hnode
          rw [place, if_neg (by exact hobs)] at hnode
          cases hnode

theorem returned_of_inl {budget : Int} {s : Search ops} {r : LinearizabilityResult} (h : iterate ops budget s = .inl r) :
    Returned ops s r := by
  cases hs : s.stack with
  | nil =>
    simp only [iterate, hs] at h
    cases h
    exact .stuck hs rfl
  | cons frame stack =>
    simp only [iterate, hs] at h
    by_cases hp : frame.pending = []
    · rw [if_pos hp] at h
      cases h
      exact .found frame stack hs hp rfl rfl
    · rw [if_neg hp] at h
      split at h
      · cases h
      · split at h
        · cases h
        · split at h
          · cases h
          · split at h
            · cases h
              exact .undetermined ⟨rfl, rfl⟩
            · cases h

/-! ## The search ends -/

theorem minimal_length_le (pending : List (Fin ops.length)) : (minimal ops pending).length ≤ pending.length := by
  unfold minimal
  split
  · rfl
  · exact List.length_filter_le _ _

/-- A frame whose candidates are not computed yet has at most its pending rows to try. -/
theorem Frame.todo_length_le (f : Frame ops) (hc : f.cands = none) : f.todo.length ≤ f.pending.length := by
  simp only [Frame.todo, hc, Option.getD_none, List.length_drop]
  have := minimal_length_le f.pending
  omega

/-- The iterations the search has still to make: each node the budget allows is popped once and each of its rows tried once. -/
def Search.remaining (budget : Int) (s : Search ops) : Nat :=
  (budget.toNat - s.explored) * (ops.length + 2) + s.stack.foldr (fun f k => f.todo.length + 1 + k) 0

/-- No frame has more pending rows than there are rows. -/
def Search.Within (s : Search ops) : Prop := ∀ f ∈ s.stack, f.pending.length ≤ ops.length

theorem within_start : (start ops).Within := by
  intro f hf
  cases List.mem_singleton.1 hf
  simp

/-- An iteration lowers what remains. -/
theorem Iterated.remaining_lt {budget : Int} {s s' : Search ops} (h : Iterated ops budget s s') (hw : s.Within) :
    s'.Within ∧ s'.remaining budget < s.remaining budget := by
  unfold Search.Within Search.remaining at *
  cases h with
  | pop frame stack hs hp ht hs' hm he =>
    rw [hs] at hw
    refine ⟨fun f hf => hw f (List.mem_cons_of_mem _ (hs' ▸ hf)), ?_⟩
    rw [hs, hs', he]
    simp
  | drop frame stack i hs hp ht hd hs' hm he =>
    rw [hs] at hw
    refine ⟨?_, ?_⟩
    · intro f hf
      rcases List.mem_cons.1 (hs' ▸ hf) with rfl | hf
      · exact hw frame List.mem_cons_self
      · exact hw f (List.mem_cons_of_mem _ hf)
    · rw [hs, hs', he, List.foldr_cons, List.foldr_cons, ht]
      simp
  | push frame stack i node hs hp ht hd hs' hm he hb =>
    rw [hs] at hw
    have hnode : node.2.length ≤ ops.length := by
      unfold place at hd
      split at hd
      · cases hd
        exact le_trans (List.length_filter_le _ _) (hw frame List.mem_cons_self)
      · cases hd
    refine ⟨?_, ?_⟩
    · intro f hf
      rcases List.mem_cons.1 (hs' ▸ hf) with rfl | hf
      · exact hnode
      · rcases List.mem_cons.1 hf with rfl | hf
        · exact hw frame List.mem_cons_self
        · exact hw f (List.mem_cons_of_mem _ hf)
    · have hle := le_trans (Frame.todo_length_le ⟨node.1, node.2, none, 0, frame.path ++ [i]⟩ rfl) hnode
      have hstep : budget.toNat - s.explored = (budget.toNat - s'.explored) + 1 := by omega
      rw [hs, hs', hstep, Nat.add_mul, List.foldr_cons, List.foldr_cons, List.foldr_cons, ht]
      simp only [List.length_cons]
      omega

/-- Enough iterations for any search with this budget. -/
def searchFuel (ops : List HistoryEntry) (budget : Int) : Nat := (budget.toNat + 1) * (ops.length + 2)

theorem search_isSome (budget : Int) :
    (WhileLoop.run (iterate ops budget) (searchFuel ops budget) (start ops)).isSome = true := by
  refine WhileLoop.run_isSome Search.Within (Search.remaining budget) (fun s s' hw h => (iterated_of_inr h).remaining_lt hw) within_start ?_
  have hle := Frame.todo_length_le (⟨∅, List.finRange ops.length, none, 0, []⟩ : Frame ops) rfl
  simp only [List.length_finRange] at hle
  simp only [Search.remaining, start, searchFuel, List.foldr_cons, List.foldr_nil, Nat.sub_zero,
    Nat.add_mul]
  omega

end Search

/-- `check`: decide whether the completed rows are linearizable. -/
def check (history : List HistoryEntry) (maxOps : Option Int) (budget : Int) : LinearizabilityResult :=
  let ops := checkedOps history maxOps
  if ops = [] then { linearizable := true, message := "empty history is trivially linearizable", linearization := some [] }
  else (WhileLoop.run (iterate ops budget) (searchFuel ops budget) (start ops)).get (search_isSome budget)

end Linearizability
end DeterministicRaft
