import Mathlib.Data.List.Sort
import Mathlib.Data.Prod.Lex

/-!
# Priority queues and clocks

A heap hands out a value of the least key first. A clock takes its values from a heap whose keys are times, each with a number that
tells values of one time apart: it never goes back, whatever its values schedule.
-/

namespace DeterministicRaft

/-- A priority queue: values with their keys, in the order they come out. -/
structure Heap (κ α : Type) [LinearOrder κ] where
  items : List (κ × α)
  sorted : items.Pairwise fun x y => x.1 ≤ y.1

namespace Heap

variable {κ α : Type} [LinearOrder κ] {h h' : Heap κ α} {x : κ × α}

def empty : Heap κ α where
  items := []
  sorted := .nil

/-- Whether the item comes out before the other one. -/
def Before (x y : κ × α) : Prop := x.1 ≤ y.1

instance : DecidableRel (Before (κ := κ) (α := α)) := fun x y => inferInstanceAs (Decidable (x.1 ≤ y.1))

instance : Std.Total (Before (κ := κ) (α := α)) := ⟨fun x y => le_total x.1 y.1⟩

instance : IsTrans (κ × α) Before := ⟨fun _ _ _ => le_trans⟩

def push (h : Heap κ α) (x : κ × α) : Heap κ α where
  items := h.items.orderedInsert Before x
  sorted := h.sorted.orderedInsert x h.items

/-- The item of the least key, and the heap without it. -/
def pop (h : Heap κ α) : Option ((κ × α) × Heap κ α) :=
  match h with
  | ⟨[], _⟩ => none
  | ⟨x :: items, sorted⟩ => some (x, ⟨items, sorted.of_cons⟩)

theorem push_perm (h : Heap κ α) (x : κ × α) : (h.push x).items.Perm (x :: h.items) := List.perm_orderedInsert _ x h.items

theorem mem_push {y : κ × α} : y ∈ (h.push x).items ↔ y = x ∨ y ∈ h.items := by
  rw [(push_perm h x).mem_iff, List.mem_cons]

theorem items_of_pop (hp : h.pop = some (x, h')) : h.items = x :: h'.items := by
  obtain ⟨_ | ⟨y, items⟩, hs⟩ := h
  · cases hp
  · cases hp
    rfl

/-- What comes out is least. -/
theorem le_of_pop (hp : h.pop = some (x, h')) {y : κ × α} (hy : y ∈ h'.items) : x.1 ≤ y.1 := by
  have hs := h.sorted
  rw [items_of_pop hp] at hs
  exact List.rel_of_pairwise_cons hs hy

end Heap

/-- When a value is due: a time, and a number that grows with each value scheduled. -/
abbrev Due : Type := ℤ ×ₗ ℕ

/-- A clock and what is due: nothing that is due has been missed. -/
structure Clock (α : Type) where
  now : ℤ
  seq : ℕ
  heap : Heap Due α
  timely : ∀ x ∈ heap.items, now ≤ (ofLex x.1).1

namespace Clock

variable {α : Type} {c c' : Clock α} {x : Due × α} {delay : ℤ} {fn : α}

def start : Clock α where
  now := 0
  seq := 0
  heap := .empty
  timely := by simp [Heap.empty]

/-- The value is due after a delay. -/
def schedule (c : Clock α) (delay : ℤ) (fn : α) (h : 0 ≤ delay) : Clock α where
  now := c.now
  seq := c.seq + 1
  heap := c.heap.push (toLex (c.now + delay, c.seq), fn)
  timely x hx := by
    rcases Heap.mem_push.1 hx with rfl | hx
    · exact Int.le_add_of_nonneg_right h
    · exact c.timely x hx

/-- The next value, and the clock at the time it is due. -/
def pop (c : Clock α) : Option ((Due × α) × Clock α) :=
  match h : c.heap.pop with
  | none => none
  | some (x, heap) => some (x, {
      now := (ofLex x.1).1
      seq := c.seq
      heap
      timely := fun _ hy => Prod.Lex.monotone_fst _ _ (Heap.le_of_pop h hy) })

/-- What is due: the times and the values. -/
def pending (c : Clock α) : List (ℤ × α) := c.heap.items.map fun x => ((ofLex x.1).1, x.2)

theorem pending_schedule (c : Clock α) (h : 0 ≤ delay) :
    (c.schedule delay fn h).pending.Perm ((c.now + delay, fn) :: c.pending) := (Heap.push_perm _ _).map _

@[simp] theorem now_schedule (c : Clock α) (h : 0 ≤ delay) : (c.schedule delay fn h).now = c.now := rfl

theorem timely_pending {y : ℤ × α} (h : y ∈ c.pending) : c.now ≤ y.1 := by
  obtain ⟨x, hx, rfl⟩ := List.mem_map.1 h
  exact c.timely x hx

/-- The clock goes to the time of the value it takes, which no longer is due. -/
theorem pending_of_pop (h : c.pop = some (x, c')) : c.pending = (c'.now, x.2) :: c'.pending := by
  unfold pop at h
  split at h
  · cases h
  · rename_i y heap hp
    cases h
    unfold pending
    rw [Heap.items_of_pop hp]
    rfl

/-- A clock without a next value has nothing due. -/
theorem pending_of_pop_none (h : c.pop = none) : c.pending = [] := by
  obtain ⟨now, seq, ⟨_ | ⟨x, items⟩, hs⟩, timely⟩ := c
  · rfl
  · cases h

end Clock

end DeterministicRaft
