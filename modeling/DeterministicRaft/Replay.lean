import DeterministicRaft.Argparse
import DeterministicRaft.Checker
import DeterministicRaft.Harness
import DeterministicRaft.Oracle
import DeterministicRaft.Schedules
import DeterministicRaft.Shrink

/-!
# Replaying a run (`cli.py`, `shrink.py`)

A cluster is a deterministic system: its arguments decide what each step leads to, and the suppression mask does so only from the first
fault on that it suppresses. Two places print a command for a failing run, and one program reads it.
-/

namespace DeterministicRaft

open Argparse

/-! ## Runs -/

/-- The keys of `PROFILES`. -/
def FAULT_NAMES : List String := ["none", "light", "chaos"]

/-- The arguments of a cluster that a scenario or a command line gives. -/
structure ClusterArgs where
  numNodes : Int
  seed : Int
  faults : String
  bugs : Bugs := NO_BUGS
  suppressed : Finset ℕ := ∅
  membership : Bool := false
  nemesis : Option NemesisSchedule := none

/-- The patterns of the schedule. No schedule is one without patterns. -/
def ClusterArgs.ops (self : ClusterArgs) : List NemesisOp :=
  match self.nemesis with
  | some schedule => schedule.ops
  | none => []

/-- The same configuration, with the same of the first `n` faults suppressed. -/
structure ClusterArgs.Alike (n : ℕ) (a b : ClusterArgs) : Prop where
  numNodes : b.numNodes = a.numNodes
  seed : b.seed = a.seed
  faults : b.faults = a.faults
  bugs : b.bugs = a.bugs
  membership : b.membership = a.membership
  ops : b.ops = a.ops
  suppressed : ∀ j < n, j ∈ b.suppressed ↔ j ∈ a.suppressed

/-- `_cluster`: the cluster of a scenario. -/
def Scenario.cluster (scenario : Scenario Bugs NemesisSchedule) : ClusterArgs where
  numNodes := scenario.nodes
  seed := scenario.seed
  faults := scenario.faults
  bugs := scenario.bugs
  suppressed := scenario.suppressed
  membership := scenario.membership
  nemesis := scenario.nemesis

/-- What a step comes to: the run goes on, there is no event left, the check after the event raises, or the event does. -/
inductive Stepped (σ : Type) where
  | next (s : σ)
  | idle (s : σ)
  | violated (v : InvariantViolation) (s : σ)
  | raised (e : SimError)

/-- The state after the step. -/
def Stepped.state? {σ : Type} : Stepped σ → Option σ
  | .next s => some s
  | .idle s => some s
  | .violated _ s => some s
  | .raised _ => none

/-- A system of clusters: what a cluster of some arguments does at each step, and what can be asked of it. The arguments decide it, the
mask only where it suppresses a fault that has its ordinal. -/
structure ClusterSystem where
  State : Type
  make : ClusterArgs → Except SimError State
  step : ClusterArgs → State → Stepped State
  faultCount : State → ℕ
  history : State → List HistoryEntry
  trace : State → List (Int × Line)
  known : ∀ {a s}, make a = .ok s → a.faults ∈ FAULT_NAMES
  make_alike : ∀ {a b}, a.Alike 0 b → make b = make a
  step_mono : ∀ {a s s'}, (step a s).state? = some s' → faultCount s ≤ faultCount s'
  step_alike : ∀ {a b s s'}, (step a s).state? = some s' → a.Alike (faultCount s') b → step b s = step a s

/-- A run that has ended: the last state, the steps it took, and the violation if there is one. -/
structure Ran (σ : Type) where
  state : σ
  steps : ℕ
  violation : Option InvariantViolation

/-- How a run fails: with an invariant, or with a history that the oracle does not accept. -/
inductive Failure where
  | violated (v : InvariantViolation)
  | nonlinearizable
  deriving DecidableEq

/-- What a failure is called. -/
def Failure.signature : Failure → String
  | violated v => v.detail.invariant
  | nonlinearizable => "nonlinearizable"

namespace ClusterSystem

variable (sys : ClusterSystem)

/-- The loop of `run`. -/
def runFor (a : ClusterArgs) : ℕ → sys.State → Except SimError (Ran sys.State)
  | 0, s => .ok { state := s, steps := 0, violation := none }
  | n + 1, s =>
    match sys.step a s with
    | .next s => (fun r => { r with steps := r.steps + 1 }) <$> runFor a n s
    | .idle s => .ok { state := s, steps := 0, violation := none }
    | .violated v s => .ok { state := s, steps := 1, violation := some v }
    | .raised e => .error e

/-- `Cluster(…).run(steps)`. -/
def run (a : ClusterArgs) (steps : Int) : Except SimError (Ran sys.State) := do
  let s ← sys.make a
  sys.runFor a steps.toNat s

/-- `failure_signature`, with all that there is to know of the violation. -/
def failure (r : Ran sys.State) : Option Failure :=
  match r.violation with
  | some v => some (.violated v)
  | none => if (Linearizability.check (sys.history r.state) none 500000).linearizable = true then none else some .nonlinearizable

/-- `failure_signature`. What is no violation is raised. -/
def failureSignature (scenario : Scenario Bugs NemesisSchedule) : Except SimError (Option String) := do
  let r ← sys.run scenario.cluster scenario.steps
  return (sys.failure r).map Failure.signature

/-- One iteration of the binary search of `_min_steps`. It ends as well when a run raises. -/
def minStepsIteration (scenario : Scenario Bugs NemesisSchedule) (target : String) (s : Int × Int) :
    Except SimError Int ⊕ (Int × Int) :=
  let (lo, hi) := s
  if lo < hi then
    let mid := (lo + hi) / 2
    match sys.failureSignature { scenario with steps := mid } with
    | .error e => .inl (.error e)
    | .ok signature => if signature = some target then .inr (lo, mid) else .inr (mid + 1, hi)
  else .inl (.ok lo)

theorem minStepsIteration_isSome (scenario : Scenario Bugs NemesisSchedule) (target : String) :
    (WhileLoop.run (sys.minStepsIteration scenario target) (scenario.steps.toNat + 1) (1, scenario.steps)).isSome = true := by
  refine WhileLoop.run_isSome (fun _ => True) (fun s => (s.2 - s.1).toNat) ?_ trivial (by simp only; omega)
  rintro ⟨lo, hi⟩ ⟨lo', hi'⟩ - h
  refine ⟨trivial, ?_⟩
  unfold minStepsIteration at h
  simp only at h ⊢
  split at h
  · split at h
    · cases h
    · split at h <;> cases h <;> omega
  · cases h

/-- `_min_steps`. -/
def minSteps (scenario : Scenario Bugs NemesisSchedule) (target : String) : Except SimError Int :=
  (WhileLoop.run (sys.minStepsIteration scenario target) (scenario.steps.toNat + 1) (1, scenario.steps)).get
    (sys.minStepsIteration_isSome scenario target)

end ClusterSystem

/-! ## Printed commands -/

section Commands

variable (json : JsonText)

/-- The option with the schedule, in quotes. -/
def nemesisOption (nemesis : Option NemesisSchedule) : String :=
  match nemesis with
  | some schedule => if schedule.ops = [] then "" else " --nemesis '" ++ schedule.toJson json ++ "'"
  | none => ""

/-- `replay_command`. -/
def Scenario.replayCommand (self : Scenario Bugs NemesisSchedule) : String :=
  "deterministic_raft replay --nodes " ++ toString self.nodes ++ " --seed " ++ toString self.seed ++ " --faults " ++ self.faults ++
    " --steps " ++ toString self.steps ++ (if self.membership then " --membership" else "") ++ nemesisOption json self.nemesis

/-- The hint that a cluster gives its checker. -/
def ClusterArgs.replayHint (self : ClusterArgs) : String :=
  "deterministic_raft replay --nodes " ++ toString self.numNodes ++ " --seed " ++ toString self.seed ++ " --faults " ++ self.faults ++
    (if self.membership then " --membership" else "") ++ nemesisOption json self.nemesis

/-! ## The command line -/

/-- What the parser gives: the options of the subcommand; those of the others have defaults. -/
structure Namespace where
  command : String
  nodes : Int := 5
  faults : String := "none"
  steps : Int
  membership : Bool := false
  nemesis : Option NemesisSchedule := none
  seed : Int := 0
  seeds : Int := 300
  timeline : Option String := none
  out : String := "deterministic_raft-report.html"

/-- An option with an integer. -/
def integer (set : Int → Namespace → Namespace) : Argparse.Action Namespace := .store fun text => (pyInt text).map set

/-- The option with a seed. -/
def seedOption (required : Bool) : Argument Namespace where
  name := "--seed"
  action := integer fun seed ns => { ns with seed }
  required

/-- The option with a profile, one of the known ones. -/
def faultsOption : Argument Namespace where
  name := "--faults"
  action := .store fun text => if text ∈ FAULT_NAMES then some fun ns => { ns with faults := text } else none

/-- The option with a schedule. -/
def scheduleOption : Argument Namespace where
  name := "--nemesis"
  action := .store fun text =>
    match NemesisSchedule.fromJson json text with
    | .ok schedule => some fun ns => { ns with nemesis := some schedule }
    | .error _ => none

/-- The options that all subcommands have. -/
def common : List (Argument Namespace) :=
  [{ name := "--nodes", action := integer fun nodes ns => { ns with nodes } },
    faultsOption,
    { name := "--steps", action := integer fun steps ns => { ns with steps } },
    { name := "--membership", action := .storeTrue fun ns => { ns with membership := true } },
    scheduleOption json]

def help : List (Argument Namespace) := [{ name := "-h", action := .exit }, { name := "--help", action := .exit }]

/-- The subcommands of `build_parser`: the options of each, and its defaults. -/
def subparser (command : String) : Option (List (Argument Namespace) × Namespace) :=
  if command = "run" then
    some (help ++ [seedOption false] ++ common json ++
      [{ name := "--timeline", action := .store fun text => some fun ns => { ns with timeline := some text } }],
      { command, steps := 20000 })
  else if command = "check" then
    some (help ++ [{ name := "--seeds", action := integer fun seeds ns => { ns with seeds } }] ++ common json,
      { command, steps := 5000 })
  else if command = "replay" then
    some (help ++ [seedOption true] ++ common json, { command, steps := 20000 })
  else if command = "report" then
    some (help ++ [seedOption false] ++ common json ++
      [{ name := "--out", action := .store fun text => some fun ns => { ns with out := text } }],
      { command, steps := 20000 })
  else none

/-- The options before the subcommand. -/
def globalOptions : List (Argument Namespace) := help ++ [{ name := "--version", action := .exit }]

/-- The arguments up to the subcommand, and those of the subcommand. What is left over is an error in the end, but help comes before. -/
def parseCommand : List String → List String → Except Usage Namespace
  | [], _ => .error (.required "command")
  | arg :: rest, extras =>
    if arg = "--" then .error (if rest = [] then .required "command" else .invalidCommand arg)
    else
      match resolve globalOptions arg with
      | .ambiguous => .error (.ambiguous arg)
      | .unknown => parseCommand rest (extras ++ [arg])
      | .option a explicit =>
        match explicit.elim (.ok ([], a, none, [])) (expand globalOptions a) with
        | .error e => .error e
        | .ok _ => .error .exit
      | .value =>
        match subparser json arg with
        | none => .error (.invalidCommand arg)
        | some (arguments, defaults) =>
          match parseKnownArgs arguments rest defaults with
          | .error e => .error e
          | .ok (ns, left) => if extras ++ left = [] then .ok ns else .error (.unrecognized (extras ++ left))

/-- `build_parser().parse_args(argv)`. -/
def parse (argv : List String) : Except Usage Namespace :=
  match (argv.takeWhile (· ≠ "--")).find? fun arg => (resolve globalOptions arg).isAmbiguous with
  | some arg => .error (.ambiguous arg)
  | none => parseCommand json argv []

/-- A line as a shell runs it: the name of the program, and its arguments. -/
def parseLine (line : String) : Except Usage Namespace :=
  match shlexSplit line with
  | some (_ :: argv) => parse json argv
  | _ => .error (.required "command")

end Commands

/-! ## The replay -/

/-- The cluster of a command line. -/
def Namespace.cluster (ns : Namespace) : ClusterArgs where
  numNodes := ns.nodes
  seed := ns.seed
  faults := ns.faults
  membership := ns.membership
  nemesis := ns.nemesis

/-- What `cmd_replay` reports. -/
inductive Report where
  | violation (attempt : ℕ) (v : InvariantViolation)
  | tracesDiffer
  | verified (events : ℕ)
  | raised (e : SimError)

/-- The failure that is reported. -/
def Report.failure : Report → Option Failure
  | violation _ v => some (.violated v)
  | _ => none

/-- `cmd_replay`: run twice, and compare the traces. -/
def ClusterSystem.cmdReplay (sys : ClusterSystem) (ns : Namespace) : Report :=
  match sys.run ns.cluster ns.steps with
  | .error e => .raised e
  | .ok a =>
    match a.violation with
    | some v => .violation 1 v
    | none =>
      match sys.run ns.cluster ns.steps with
      | .error e => .raised e
      | .ok b =>
        match b.violation with
        | some v => .violation 2 v
        | none => if sys.trace a.state = sys.trace b.state then .verified (sys.trace a.state).length else .tracesDiffer

end DeterministicRaft
