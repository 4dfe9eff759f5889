import DeterministicRaft.History
import DeterministicRaft.Kv

/-!
# The oracle's reference object (`linearizability.py`)

A plain store without sessions: the history has one row per logical operation.
-/

namespace DeterministicRaft

namespace Linearizability

/-- `_apply`: one operation on the reference store, and its result. -/
def apply (store : Dict String String) (op : HistoryEntry) : Dict String String × String :=
  if op.op = PUT then (store.insert op.key op.value, "ok")
  else if op.op = GET then (store, store.getD op.key "")
  else if op.op = CAS then
    if store.getD op.key "" = op.expected then (store.insert op.key op.value, "ok") else (store, "fail")
  else (store, "")

/-- One operation had returned before the other was invoked. -/
def Precedes (x y : HistoryEntry) : Prop := ∃ t, x.returnStep = some t ∧ t < y.invokeStep

instance (x y : HistoryEntry) : Decidable (Precedes x y) :=
  match h : x.returnStep with
  | none => .isFalse fun ⟨t, ht, _⟩ => by simp [h] at ht
  | some t => decidable_of_iff (t < y.invokeStep) ⟨fun hlt => ⟨t, h, hlt⟩, fun ⟨t', ht', hlt⟩ => by
      cases h.symm.trans ht'
      exact hlt⟩

/-- An order of rows that respects real time and explains every observed result, on an initially empty store. -/
abbrev Linearization (rows order : List HistoryEntry) : Prop :=
  History.Linearization apply HistoryEntry.observed Precedes ∅ rows order

/-- The store after rows, on an initially empty one. -/
abbrev after (rows : List HistoryEntry) : Dict String String := History.after apply ∅ rows

end Linearizability

/-- The operation a row is about. -/
def HistoryEntry.command (row : HistoryEntry) : Command where
  clientId := row.clientId
  reqId := row.reqId
  op := row.op
  key := row.key
  value := row.value
  expected := row.expected

namespace KVStateMachine

/-- Executing a command is what the reference store does. -/
theorem execute_eq (self : KVStateMachine) (row : HistoryEntry) :
    self.execute row.command = ({ self with store := (Linearizability.apply self.store row).1 },
      (Linearizability.apply self.store row).2) := by
  unfold execute Linearizability.apply
  by_cases hput : row.op = PUT
  · rw [if_pos (show row.command.op = PUT from hput), if_pos hput]
    rfl
  · rw [if_neg (show ¬row.command.op = PUT from hput), if_neg hput]
    by_cases hget : row.op = GET
    · rw [if_pos (show row.command.op = GET from hget), if_pos hget]
      rfl
    · rw [if_neg (show ¬row.command.op = GET from hget), if_neg hget]
      by_cases hcas : row.op = CAS
      · rw [if_pos (show row.command.op = CAS from hcas), if_pos hcas]
        by_cases hexp : self.store.getD row.key "" = row.expected
        · rw [if_pos (show self.store.getD row.command.key "" = row.command.expected from hexp), if_pos hexp]
          rfl
        · rw [if_neg (show ¬self.store.getD row.command.key "" = row.command.expected from hexp), if_neg hexp]
      · rw [if_neg (show ¬row.command.op = CAS from hcas), if_neg hcas]

/-- A request that is not new to its client's session is not executed. -/
theorem apply_old {self : KVStateMachine} {cmd : Command} {q : Int} {result : String}
    (h : self.sessions.lookup cmd.clientId = some (q, result)) (hq : cmd.reqId ≤ q) : (self.apply cmd).1 = self := by
  unfold apply
  split
  · rfl
  · rw [h]
    simp [hq]

/-- A request that is new to its client's session is executed, and the session records it. -/
theorem apply_new {self : KVStateMachine} {cmd : Command} (hs : cmd.isStructured = true)
    (hnew : ∀ q result, self.sessions.lookup cmd.clientId = some (q, result) → q < cmd.reqId) :
    self.apply cmd = ({ (self.execute cmd).1 with
      sessions := (self.execute cmd).1.sessions.insert cmd.clientId (cmd.reqId, (self.execute cmd).2) }, (self.execute cmd).2) := by
  unfold apply
  rw [if_neg (by simp [hs])]
  split
  · rename_i last hlast
    rw [if_neg (not_le.2 (hnew last.1 last.2 hlast))]
  · rfl

end KVStateMachine
end DeterministicRaft
