import DeterministicRaft.Theorems.Acknowledgement
import DeterministicRaft.Theorems.Safety

/-!
# What a leader's messages say stays true

The network may deliver a message late, twice, after its sender has crashed, stepped down or been overruled. Whatever a leader has sent
of its log is what its log was, and whatever it has called committed is committed for good.
-/

namespace DeterministicRaft

open Consensus

variable {net : Network} {r : Run net} {s : ℕ → State NodeId Entry}

namespace Run

/-- From moment `k` on, whoever leads the term `t`, or a later one, has these entries first in its log. -/
def Held (r : Run net) (k : ℕ) (t : Int) (P : List Entry) : Prop :=
  ∀ (l : ℕ) (n : NodeId), k ≤ l → ((r.state l).nodes n).role = .leader → t ≤ ((r.state l).nodes n).term →
    P <+: (r.state l).logicalLog n

/-- An AppendEntries tells of a log: its previous entry and its entries are in it, one after the other, and it is long enough for what
it calls committed. -/
structure Quotes (log : List Entry) (msg : AppendEntries) (p c : ℕ) : Prop where
  prevIndex : msg.prevIndex = p
  prevTerm : msg.prevTerm = ((log.take p).getLast?.map (·.term)).getD 0
  entries : msg.entries = (log.drop p).take msg.entries.length
  length : p + msg.entries.length ≤ log.length
  leaderCommit : msg.leaderCommit = c
  known : c ≤ log.length

/-- What was committed in a term up to `t` every later leader has. -/
theorem Shadow.held (hs : r.Shadow s) {k : ℕ} {t : Int} {P : List Entry} (h : (s k).Committed t P) : r.Held k t P := by
  intro l n hkl hrole hterm
  obtain ⟨hleads, hlog⟩ := (hs.sim l).leader hrole
  rw [hlog]
  exact (hs.sim l).inv.known_prefix_llog ((hs.extends_of_le hkl).known h) ⟨n, hleads⟩ hterm

end Run

/-- Whatever AppendEntries and InstallSnapshot were ever sent, their sender led their term, and of the log that it had built by then:
an AppendEntries quotes it, and the entries up to the commit index in it are first in the log of every leader of that term or a later
one, from then on; an InstallSnapshot holds the state after some first entries of it, and these too every such leader has. -/
theorem messages_stay_true (r : Run net) (k : ℕ) (src dst : NodeId) :
    (∀ msg : AppendEntries, (src, Effect.send dst (.appendEntries msg)) ∈ (r.state k).trace → msg.leader = src ∧
      ∃ j p c, r.LastLed k msg.term src j ∧ Run.Quotes ((r.state j).logicalLog src) msg p c ∧
        r.Held k msg.term (((r.state j).logicalLog src).take c)) ∧
    (∀ msg : InstallSnapshot, (src, Effect.send dst (.installSnapshot msg)) ∈ (r.state k).trace → msg.leader = src ∧
      ∃ j P, r.LastLed k msg.term src j ∧ P <+: (r.state j).logicalLog src ∧ r.Held k msg.term P ∧
        net.snapshotOf P = some {
          lastIndex := msg.lastIndex, lastTerm := msg.lastTerm, store := msg.store, sessions := msg.sessions,
          voters := msg.voters }) := by
  obtain ⟨s, hs⟩ := r.exists_shadow
  constructor
  · intro msg hmem
    obtain ⟨tr', -, hvouched⟩ := (hs.sim k).traced.mem hmem
    have hvouched : AppendVouched net (s k) src msg := hvouched
    obtain ⟨j, hj, hlog⟩ := Run.exists_lastLed hs hvouched.leads
    obtain ⟨p, hprev, hlen, hterm, hentries⟩ := hvouched.stretch
    obtain ⟨c, hc, hle, hknown⟩ := hvouched.known
    refine ⟨hvouched.leader, j, p, c, hj, ?_, hlog ▸ hs.held hknown⟩
    rw [hlog]
    refine ⟨hprev, hterm, hentries.trans ?_, hlen, hc, hle⟩
    rw [List.drop_take, Nat.add_sub_cancel_left]
  · intro msg hmem
    obtain ⟨tr', -, hvouched⟩ := (hs.sim k).traced.mem hmem
    have hvouched : SnapshotVouched net (s k) tr' src msg := hvouched
    obtain ⟨j, hj, hlog⟩ := Run.exists_lastLed hs hvouched.leads
    obtain ⟨P, -, hp, hknown, -, hsnap⟩ := hvouched.covers
    exact ⟨hvouched.leader, j, P, hj, hlog ▸ hp, hs.held hknown, hsnap⟩

/-- Server 0 has told of a commit; server 1, which leads a later term, has the entry. -/
theorem messages_stay_true_pair : (0, Effect.send 1 (.appendEntries ⟨1, 0, 1, 1, [], 1⟩)) ∈ (pairRun.state 7).trace ∧
    ((pairRun.state 11).nodes 1).role = .leader ∧ ∃ j P, pairRun.LastLed 7 1 0 j ∧ P <+: (pairRun.state j).logicalLog 0 ∧
      P.length = 1 ∧ P <+: (pairRun.state 11).logicalLog 1 := by
  have hsent := of_decide_eq_true (holds_of_exec admits_pairActions 7
    (fun w => decide ((0, Effect.send 1 (.appendEntries ⟨1, 0, 1, 1, [], 1⟩)) ∈ w.trace)) (by decide +kernel))
  have hlater := of_decide_eq_true (holds_of_exec admits_pairActions 11
    (fun w => decide ((w.nodes 1).role = .leader ∧ 1 ≤ (w.nodes 1).term)) (by decide +kernel))
  obtain ⟨-, j, p, c, hj, hquotes, hheld⟩ := (messages_stay_true pairRun 7 0 1).1 _ hsent
  have hc : c = 1 := by
    have := hquotes.leaderCommit
    simp only at this
    omega
  subst hc
  refine ⟨hsent, hlater.1, j, _, hj, List.take_prefix _ _, ?_, hheld 11 1 (by decide) hlater.1 hlater.2⟩
  rw [List.length_take]
  exact min_eq_left hquotes.known

end DeterministicRaft
