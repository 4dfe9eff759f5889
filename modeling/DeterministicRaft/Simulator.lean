import DeterministicRaft.Heap
import DeterministicRaft.Node
import Mathlib.Data.Rat.Defs

/-!
# The simulator and its network (`sim.py`)

A virtual clock, a seeded source of random numbers, and the state of the faulty network between the nodes. The simulator's count of
steps is with the cluster. A probability is the rational number it stands for.
-/

namespace DeterministicRaft

/-- What an event of a simulation can raise: what a node raises, or a `ValueError`. -/
inductive SimError where
  | raised (e : PyError)
  | valueError (message : String)
  deriving DecidableEq, Repr

/-- `random.Random`: any source whose draws are in their bounds. -/
structure RandomSource where
  State : Type
  random : State → ℚ × State
  randint : Int → Int → State → Int × State
  random_mem : ∀ s, 0 ≤ (random s).1 ∧ (random s).1 < 1
  randint_mem : ∀ lo hi s, lo ≤ hi → lo ≤ (randint lo hi s).1 ∧ (randint lo hi s).1 ≤ hi

/-- A source of random numbers that always draws the least. -/
def leastSource : RandomSource where
  State := Unit
  random _ := (0, ())
  randint lo _ _ := (lo, ())
  random_mem _ := ⟨by decide, by decide⟩
  randint_mem _ _ _ h := ⟨Int.le_refl _, h⟩

/-- A source of random numbers that lets chance decide nothing. -/
def congruential : RandomSource where
  State := Int
  random s := (1 / 2, s)
  randint lo hi s := (lo + s % (hi - lo + 1), (s * 31 + 7) % 1009)
  random_mem _ := (by decide +kernel : (0 : ℚ) ≤ 1 / 2 ∧ (1 / 2 : ℚ) < 1)
  randint_mem lo hi s h := by
    have hnonneg := Int.emod_nonneg s (show hi - lo + 1 ≠ 0 by omega)
    have hlt := Int.emod_lt_of_pos s (show 0 < hi - lo + 1 by omega)
    exact ⟨by simp only; omega, by simp only; omega⟩

/-- A virtual clock with the callbacks that are due, and the source of random numbers. -/
structure Simulator (R : RandomSource) (α : Type) where
  rng : R.State
  clock : Clock α

namespace Simulator

variable {R : RandomSource} {α : Type}

def new (seed : R.State) : Simulator R α where
  rng := seed
  clock := .start

/-- Schedule `fn` to run `delay` virtual milliseconds from now. -/
def schedule (self : Simulator R α) (delay : Int) (fn : α) : Except SimError (Simulator R α) :=
  if h : delay < 0 then .error (.valueError ("negative delay: " ++ toString delay))
  else .ok { self with clock := self.clock.schedule delay fn (Int.not_lt.1 h) }

/-- `rng.random()`. -/
def random (self : Simulator R α) : ℚ × Simulator R α :=
  let (x, rng) := R.random self.rng
  (x, { self with rng })

/-- `rng.randint(lo, hi)`. -/
def randint (self : Simulator R α) (lo hi : Int) : Except SimError (Int × Simulator R α) :=
  if hi < lo then .error (.valueError ("empty range in randrange(" ++ toString lo ++ ", " ++ toString (hi + 1) ++ ")"))
  else
    let (x, rng) := R.randint lo hi self.rng
    .ok (x, { self with rng })

/-- `rng.choice(seq)`. -/
def choice (self : Simulator R α) (seq : List NodeId) : Except SimError (NodeId × Simulator R α) :=
  let (i, rng) := R.randint 0 (seq.length - 1) self.rng
  match pyIndex seq i with
  | .ok x => .ok (x, { self with rng })
  | .error e => .error (.raised e)

end Simulator

/-- How hostile the network and the environment are. -/
structure FaultProfile where
  dropP : ℚ
  dupP : ℚ
  minDelay : Int
  maxDelay : Int
  partitions : Bool
  crashes : Bool
  deriving DecidableEq

inductive Faults where
  | none | light | chaos
  deriving DecidableEq

def PROFILES : Faults → FaultProfile
  | .none => { dropP := 0, dupP := 0, minDelay := 1, maxDelay := 5, partitions := false, crashes := false }
  | .light => { dropP := 1 / 20, dupP := 1 / 50, minDelay := 1, maxDelay := 20, partitions := false, crashes := false }
  | .chaos => { dropP := 1 / 10, dupP := 1 / 20, minDelay := 1, maxDelay := 50, partitions := true, crashes := true }

/-- An undirected link. -/
abbrev link (a b : NodeId) : Finset NodeId := {a, b}

/-- The state of the network: which group each node is in, who has crashed, the links that are down, and those that are lossy, each
with the probability of a drop; and how many messages went which way. -/
structure SimNetwork where
  group : NodeId → ℕ := fun _ => 0
  crashed : Finset NodeId := ∅
  downLinks : Finset (Finset NodeId) := ∅
  lossyLinks : Dict (Finset NodeId) ℚ := ∅
  sent : ℕ := 0
  delivered : ℕ := 0
  dropped : ℕ := 0
  duplicated : ℕ := 0

namespace SimNetwork

/-- The groups as `set_partition` writes them, one after the other. -/
def writeGroups (self : SimNetwork) (groups : List (Finset NodeId)) : SimNetwork :=
  { self with group := groups.zipIdx.foldl (fun group g n => if n ∈ g.1 then g.2 else group n) self.group }

/-- `set_partition`: the groups are written before it is known whether they name each node. -/
def setPartition (self : SimNetwork) (nodeIds : List NodeId) (groups : List (Finset NodeId)) : SimNetwork × Option SimError :=
  let self := self.writeGroups groups
  if groups.foldl (· ∪ ·) ∅ ≠ nodeIds.toFinset then
    (self, some (.valueError "partition groups must cover all nodes exactly once"))
  else (self, none)

def heal (self : SimNetwork) (nodeIds : List NodeId) : SimNetwork :=
  { self with group := fun n => if n ∈ nodeIds then 0 else self.group n }

def isPartitioned (self : SimNetwork) (nodeIds : List NodeId) : Bool := 1 < (nodeIds.map self.group).toFinset.card

def reachable (self : SimNetwork) (a b : NodeId) : Bool := self.group a = self.group b ∧ link a b ∉ self.downLinks

def setLinkDown (self : SimNetwork) (a b : NodeId) : SimNetwork := { self with downLinks := insert (link a b) self.downLinks }

def setLinkUp (self : SimNetwork) (a b : NodeId) : SimNetwork := { self with downLinks := self.downLinks.erase (link a b) }

def linkIsDown (self : SimNetwork) (a b : NodeId) : Bool := link a b ∈ self.downLinks

def setLinkLossy (self : SimNetwork) (a b : NodeId) (dropP : ℚ) : SimNetwork :=
  { self with lossyLinks := self.lossyLinks.insert (link a b) dropP }

def clearLinkLossy (self : SimNetwork) (a b : NodeId) : SimNetwork :=
  { self with lossyLinks := self.lossyLinks.erase (link a b) }

def linkIsLossy (self : SimNetwork) (a b : NodeId) : Bool := (self.lossyLinks.lookup (link a b)).isSome

end SimNetwork

end DeterministicRaft
