import DeterministicRaft.Python

/-!
# The replicated state machine (`kv.py`)

A string to string store with per-client sessions, and the structured client commands the log carries as strings. Decoding is
total: what is not a well-formed command is a NOOP.
-/

namespace DeterministicRaft

def PUT : String := "put"
def GET : String := "get"
def CAS : String := "cas"
def NOOP : String := "noop"

/-- A structured client command. -/
structure Command where
  clientId : Int
  reqId : Int
  op : String
  key : String := ""
  value : String := ""
  /-- For `cas` only: the value the client expects to overwrite. -/
  expected : String := ""
  deriving DecidableEq, Repr

namespace Command

/-- The command every malformed string decodes to. -/
def noop : Command := { clientId := -1, reqId := -1, op := NOOP }

/-- The canonical string stored in the log: six fields joined by colons. -/
def encode (c : Command) : String :=
  pyJoin ":" [toString c.clientId, toString c.reqId, c.op, c.key, c.value, c.expected]

/-- The command a string names. -/
def decode (s : String) : Command :=
  match pySplit s ':' with
  | [cid, rid, op, key, value, expected] =>
    match pyInt cid, pyInt rid with
    | some clientId, some reqId =>
      if op = PUT ∨ op = GET ∨ op = CAS then { clientId, reqId, op, key, value, expected } else noop
    | _, _ => noop
  | _ => noop

/-- The command is a client's: it has a client and one of the three operations. -/
def isStructured (c : Command) : Bool := 0 ≤ c.clientId ∧ (c.op = PUT ∨ c.op = GET ∨ c.op = CAS)

/-- A command whose string fields hold no colon and whose operation is known decodes back. -/
theorem decode_encode (c : Command) (hop : c.op = PUT ∨ c.op = GET ∨ c.op = CAS) (hk : ':' ∉ c.key.toList)
    (hv : ':' ∉ c.value.toList) (he : ':' ∉ c.expected.toList) : decode c.encode = c := by
  have hint : ∀ i : Int, ':' ∉ (toString i).toList := by
    intro i hi
    rcases mem_toString_int hi with h | h <;> simp [Char.isDigit] at h
  have ho : ':' ∉ c.op.toList := by
    rcases hop with h | h | h <;> rw [h] <;> decide
  have hs : pySplit c.encode ':' = [toString c.clientId, toString c.reqId, c.op, c.key, c.value, c.expected] := by
    refine pySplit_pyJoin ':' _ _ ?_
    intro q hq
    simp only [List.mem_cons, List.not_mem_nil, or_false] at hq
    rcases hq with rfl | rfl | rfl | rfl | rfl | rfl
    · exact hint _
    · exact hint _
    · exact ho
    · exact hk
    · exact hv
    · exact he
  simp only [decode, hs, pyInt_toString, if_pos hop]

end Command

/-- The key-value store with its sessions: for each client, its last applied request and that request's result. -/
structure KVStateMachine where
  store : Dict String String := ∅
  sessions : Dict Int (Int × String) := ∅
  deriving DecidableEq

namespace KVStateMachine

/-- What an operation does to the store, and the result the client sees. -/
def execute (self : KVStateMachine) (cmd : Command) : KVStateMachine × String :=
  if cmd.op = PUT then ({ self with store := self.store.insert cmd.key cmd.value }, "ok")
  else if cmd.op = GET then (self, self.store.getD cmd.key "")
  else if cmd.op = CAS then
    if self.store.getD cmd.key "" = cmd.expected then ({ self with store := self.store.insert cmd.key cmd.value }, "ok")
    else (self, "fail")
  else (self, "")

/-- Apply a command once: a duplicate returns the cached result and executes nothing. -/
def apply (self : KVStateMachine) (cmd : Command) : KVStateMachine × String :=
  if cmd.isStructured = false then (self, "")
  else match self.sessions.lookup cmd.clientId with
    | some last =>
      if cmd.reqId ≤ last.1 then (self, last.2)
      else
        let (self, result) := self.execute cmd
        ({ self with sessions := self.sessions.insert cmd.clientId (cmd.reqId, result) }, result)
    | none =>
      let (self, result) := self.execute cmd
      ({ self with sessions := self.sessions.insert cmd.clientId (cmd.reqId, result) }, result)

/-- Serve a read from the store, with no log entry and no session. -/
def applyRead (self : KVStateMachine) (cmd : Command) : String :=
  if cmd.op = GET then self.store.getD cmd.key "" else ""

/-- The replicated state for a snapshot. -/
def capture (self : KVStateMachine) : Dict String String × Dict Int (Int × String) := (self.store, self.sessions)

/-- Replace the state machine by captured state. -/
def restore (_self : KVStateMachine) (store : Dict String String) (sessions : Dict Int (Int × String)) : KVStateMachine :=
  { store, sessions }

/-- The state machine after command strings, in order. -/
def applyAll (self : KVStateMachine) (commands : List String) : KVStateMachine :=
  commands.foldl (fun kv c => (kv.apply (Command.decode c)).1) self

@[simp] theorem applyAll_nil (self : KVStateMachine) : self.applyAll [] = self := rfl

@[simp] theorem applyAll_append (self : KVStateMachine) (cs ds : List String) :
    self.applyAll (cs ++ ds) = (self.applyAll cs).applyAll ds := List.foldl_append

@[simp] theorem applyAll_singleton (self : KVStateMachine) (c : String) :
    self.applyAll [c] = (self.apply (Command.decode c)).1 := rfl

end KVStateMachine

/-- A compacted image of the state machine: everything committed up to `lastIndex`, and the configuration in force there. -/
structure Snapshot where
  lastIndex : Int
  lastTerm : Int
  store : Dict String String
  sessions : Dict Int (Int × String)
  voters : List Int
  deriving DecidableEq

/-- One operation as its client saw it: what was invoked and, once it completes, what the client saw and when. The stamps are
simulator steps. -/
structure HistoryEntry where
  clientId : Int
  reqId : Int
  op : String
  key : String
  value : String
  expected : String
  invokeStep : Int
  returnStep : Option Int := none
  observed : Option String := none
  deriving DecidableEq, Repr

def HistoryEntry.completed (self : HistoryEntry) : Bool := self.returnStep.isSome

end DeterministicRaft
