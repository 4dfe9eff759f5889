import DeterministicRaft.Node
import Mathlib.Data.Rat.Defs

/-!
# Fault schedules (`nemesis.py`)

A schedule is a list of fault patterns, each pinned to an instant in virtual milliseconds. A flapping link is expanded to one
injection for each time it goes down; every other pattern is a single injection. A fraction is the rational number it stands for.
-/

namespace DeterministicRaft

def MAX_FLAP_CYCLES : Int := 10000

/-- A fault pattern, as a user may write it. -/
inductive NemesisOp where
  | partitionHalves (at_ duration : Int)
  | isolateLeader (at_ duration : Int)
  | flappingLink (a b : NodeId) (at_ period cycles : Int)
  | lossyLink (a b : NodeId) (at_ duration : Int) (dropP : ℚ)
  | crashNode (node : NodeId) (at_ duration : Int)
  deriving DecidableEq

/-- `_check_window`. -/
abbrev CheckWindow (at_ duration : Int) : Prop := 0 ≤ at_ ∧ 1 ≤ duration

/-- `_check_link`. -/
abbrev CheckLink (a b : NodeId) : Prop := (0 ≤ a ∧ 0 ≤ b) ∧ a ≠ b

namespace NemesisOp

/-- `__post_init__`: what a pattern is checked for when it is made. -/
def Valid : NemesisOp → Prop
  | partitionHalves at_ duration => CheckWindow at_ duration
  | isolateLeader at_ duration => CheckWindow at_ duration
  | flappingLink a b at_ period cycles =>
    CheckLink a b ∧ 0 ≤ at_ ∧ 1 ≤ period ∧ 1 ≤ cycles ∧ cycles ≤ MAX_FLAP_CYCLES
  | lossyLink a b at_ duration dropP => CheckLink a b ∧ CheckWindow at_ duration ∧ 0 < dropP ∧ dropP ≤ 1
  | crashNode node at_ duration => 0 ≤ node ∧ CheckWindow at_ duration

instance : DecidablePred Valid
  | partitionHalves _ _ => inferInstanceAs (Decidable (_ ∧ _))
  | isolateLeader _ _ => inferInstanceAs (Decidable (_ ∧ _))
  | flappingLink _ _ _ _ _ => inferInstanceAs (Decidable (_ ∧ _))
  | lossyLink _ _ _ _ _ => inferInstanceAs (Decidable (_ ∧ _))
  | crashNode _ _ _ => inferInstanceAs (Decidable (_ ∧ _))

/-- When the pattern starts. -/
def start : NemesisOp → Int
  | partitionHalves at_ _ => at_
  | isolateLeader at_ _ => at_
  | flappingLink _ _ at_ _ _ => at_
  | lossyLink _ _ at_ _ _ => at_
  | crashNode _ at_ _ => at_

/-- How long each of its injections is in force. -/
def length : NemesisOp → Int
  | partitionHalves _ duration => duration
  | isolateLeader _ duration => duration
  | flappingLink _ _ _ period _ => period
  | lossyLink _ _ _ duration _ => duration
  | crashNode _ _ duration => duration

end NemesisOp

/-- One fault: a pattern that fires at an instant. -/
structure Injection where
  at_ : Int
  op : NemesisOp
  deriving DecidableEq

/-- The patterns, in the order in which they were declared. -/
structure NemesisSchedule where
  ops : List NemesisOp
  valid : ∀ op ∈ ops, op.Valid

namespace NemesisSchedule

/-- The injections of one pattern. -/
def expand (op : NemesisOp) : List Injection :=
  match op with
  | .flappingLink _ _ at_ period cycles => (pyRange 0 cycles).map fun i => { at_ := at_ + 2 * period * i, op }
  | _ => [{ at_ := op.start, op }]

/-- All injections by the time they fire; those of one instant keep the order in which they were declared. -/
def injections (self : NemesisSchedule) : List Injection :=
  (self.ops.flatMap expand).insertionSort fun x y => x.at_ ≤ y.at_

/-- The highest node the schedule names (-1 if it names none). -/
def maxNode (self : NemesisSchedule) : Int :=
  self.ops.foldl (fun top op =>
    match op with
    | .flappingLink a b _ _ _ => max top (max a b)
    | .lossyLink a b _ _ _ => max top (max a b)
    | .crashNode node _ _ => max top node
    | _ => top) (-1)

end NemesisSchedule

end DeterministicRaft
