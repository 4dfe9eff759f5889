import DeterministicRaft.Actions
import DeterministicRaft.Checker

/-!
# The cluster under its checker (`cluster.py`)

Every simulator event is followed by a check of all invariants. A node that is about to compact its log calls `before_compact`, at
which the checker looks at the cluster in the middle of the event.
-/

namespace DeterministicRaft

/-- The nodes and the checker, and how many events there were. -/
structure Watched where
  world : World
  checker : InvariantChecker
  steps : Int := 0

/-- One simulator event, as far as the nodes are concerned: it reaches none; or it is one action, such as a delivery, a timer, a
client's command, a crash or a restart; or it is the membership driver's, which proposes a configuration to several leaders. -/
inductive WatchedEvent where
  | idle
  | act (action : Action)
  | propose (proposals : List (NodeId × List NodeId))

namespace Watched

open InvariantChecker

variable (net : Network)

/-- The nodes as the checker sees them. -/
def view (w : World) : ClusterView where
  ids := net.ids.insertionSort (· ≤ ·)
  node i := (w.nodes i).view

/-- `_check_mid_step`, where a node calls `before_compact`: that node is seen as it is then. -/
def checkMidStep (w : World) (step : Int) (checker : InvariantChecker) (call : NodeId × Effect) :
    Except CheckError InvariantChecker :=
  match call.2 with
  | .beforeCompact n => checker.check { view net w with node := Function.update (view net w).node call.1 n } step false
  | _ => .ok checker

/-- An action on a node of the cluster. -/
def act (self : Watched) (action : Action) : Except CheckError Watched := do
  if (self.world.operation action).any (fun target => target.1 ∉ net.ids) then
    .error (.raised .keyError)
  else
    let world ← reading (self.world.step action)
    let checker ← (world.trace.drop self.world.trace.length).foldlM (checkMidStep net self.world self.steps) self.checker
    return { self with world, checker }

def happen (self : Watched) : WatchedEvent → Except CheckError Watched
  | .idle => .ok self
  | .act action => self.act net action
  | .propose proposals => proposals.foldlM (fun self p => self.act net (.changeConfig p.1 p.2)) self

/-- `Cluster.step`: an event and the check after it. -/
def step (self : Watched) (event : WatchedEvent) : Except CheckError Watched := do
  let self ← { self with steps := self.steps + 1 }.happen net event
  let checker ← self.checker.check (view net self.world) self.steps true
  return { self with checker }

/-- A cluster that has started. -/
def init (seed : Int) (replayHint : String) : Watched where
  world := net.init
  checker := { seed, replayHint }

end Watched

/-- A run of some events, none of which raises: the cluster at each moment, and the event from each moment to the next. -/
structure WatchedRun (net : Network) where
  seed : Int
  replayHint : String
  length : ℕ
  state : ℕ → Watched
  event : ℕ → WatchedEvent
  start : state 0 = Watched.init net seed replayHint
  next : ∀ k < length, (state k).step net (event k) = .ok (state (k + 1))

namespace WatchedRun

/-- A loop that does not raise has not raised before. -/
theorem foldlM_take {σ ι ε : Type} {f : σ → ι → Except ε σ} {s : σ} {l : List ι} (h : (l.foldlM f s).isOk = true) (k : ℕ) :
    ∃ s', (l.take k).foldlM f s = .ok s' := by
  rw [← List.take_append_drop k l, List.foldlM_append] at h
  cases hk : (l.take k).foldlM f s with
  | error e =>
    rw [hk] at h
    cases h
  | ok s' => exact ⟨s', rfl⟩

/-- The run of some events, if none of them raises. -/
def ofEvents (net : Network) (seed : Int) (replayHint : String) (events : List WatchedEvent)
    (h : (events.foldlM (Watched.step net) (Watched.init net seed replayHint)).isOk = true) : WatchedRun net where
  seed := seed
  replayHint := replayHint
  length := events.length
  state k := ((events.take k).foldlM (Watched.step net) (Watched.init net seed replayHint)).toOption.getD
    (Watched.init net seed replayHint)
  event k := events.getD k .idle
  start := rfl
  next k hk := by
    obtain ⟨w, hw⟩ := foldlM_take h k
    obtain ⟨w', hw'⟩ := foldlM_take h (k + 1)
    have hstep : w.step net events[k] = .ok w' := by
      rw [List.take_succ_eq_append_getElem hk, List.foldlM_append, hw] at hw'
      exact (bind_pure (m := Except CheckError) _).symm.trans hw'
    rw [hw, hw', List.getD_eq_getElem?_getD, List.getElem?_eq_getElem hk]
    exact hstep

variable {net : Network} (run : WatchedRun net)

/-- Some node has reached a commit index by moment `k`. -/
def Reached (k : ℕ) (idx : Int) : Prop :=
  ∃ j ≤ k, ∃ n ∈ net.ids, idx ≤ ((run.state j).world.nodes n).commitIndex

/-- What the event from moment `j` on shows of a node: the node after it, and the node when it calls `before_compact`. -/
def Shows (j : ℕ) (n : NodeId) (view : NodeView) : Prop :=
  view = ((run.state (j + 1)).world.nodes n).view ∨
  (n, Effect.beforeCompact view) ∈ (run.state (j + 1)).world.trace.drop (run.state j).world.trace.length

/-- In the event from moment `j` on, node `n` is the first to commit an index, and its log holds the entry there. -/
def FirstCommits (j : ℕ) (n : NodeId) (idx : Int) (entry : Entry) : Prop :=
  ¬run.Reached j idx ∧ n ∈ net.ids ∧ idx ≤ ((run.state (j + 1)).world.nodes n).commitIndex ∧
  ∃ view, run.Shows j n view ∧ view.baseIndex < idx ∧ idx ≤ view.commitIndex ∧ view.entryAt idx = .ok entry

end WatchedRun

end DeterministicRaft
