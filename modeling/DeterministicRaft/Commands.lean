import DeterministicRaft.Replay

/-!
# The command line (`cli.py`)

The four subcommands and what the process ends with. What they print, and what the files hold that they write, is left out.
-/

namespace DeterministicRaft

def EXIT_OK : Int := 0

def EXIT_VIOLATION : Int := 1

def EXIT_USAGE : Int := 2

/-- What writing a file comes to: it is written, or there is an `OSError`, or a `ValueError` where the path cannot be one. -/
inductive Written where
  | done
  | osError
  | valueError (message : String)

/-- What a command can raise: what a run raises, or the `OSError` of a file. -/
inductive CommandError where
  | sim (e : SimError)
  | os (path : String)

/-- What a process ends with: an exit code, or what nobody has caught. -/
inductive Exit where
  | code (n : Int)
  | traceback (e : CommandError)

/-- What `cmd_replay` returns or raises, where this is what it reports. -/
def Report.code : Report → Except CommandError Int
  | violation _ _ => .ok EXIT_VIOLATION
  | tracesDiffer => .ok EXIT_VIOLATION
  | verified _ => .ok EXIT_OK
  | raised e => .error (.sim e)

namespace ClusterSystem

variable (sys : ClusterSystem) (files : String → Written)

/-- `open(path, "w")`, and the write. -/
def writeFile (path : String) : Except CommandError Unit :=
  match files path with
  | .done => .ok ()
  | .osError => .error (.os path)
  | .valueError message => .error (.sim (.valueError message))

/-- `cmd_run`. An empty path is none. -/
def cmdRun (ns : Namespace) : Except CommandError Int := do
  let r ← (sys.run ns.cluster ns.steps).mapError .sim
  if r.violation.isSome then return EXIT_VIOLATION
  match ns.timeline with
  | some path => if path ≠ "" then writeFile files path
  | none => pure ()
  return EXIT_OK

/-- The sweep of `cmd_check`: the violations of some seeds. -/
def sweep (ns : Namespace) (seeds : List Int) : Except SimError (List (Int × InvariantViolation)) :=
  seeds.foldlM (fun violations seed => do
    let r ← sys.run { ns.cluster with seed } ns.steps
    return violations ++ (r.violation.map fun v => (seed, v)).toList) []

/-- `cmd_check`. -/
def cmdCheck (ns : Namespace) : Except CommandError Int := do
  let violations ← (sys.sweep ns (pyRange 0 ns.seeds)).mapError .sim
  return if violations.isEmpty then EXIT_OK else EXIT_VIOLATION

/-- `cmd_report`. Whether the history is linearizable is in the report, not in the exit code. -/
def cmdReport (ns : Namespace) : Except CommandError Int := do
  let r ← (sys.run ns.cluster ns.steps).mapError .sim
  if r.violation.isSome then return EXIT_VIOLATION
  writeFile files ns.out
  return EXIT_OK

/-- `args.fn(args)`. -/
def command (ns : Namespace) : Except CommandError Int :=
  if ns.command = "run" then sys.cmdRun files ns
  else if ns.command = "check" then sys.cmdCheck ns
  else if ns.command = "replay" then (sys.cmdReplay ns).code
  else sys.cmdReport files ns

end ClusterSystem

end DeterministicRaft
