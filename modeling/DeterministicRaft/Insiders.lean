import Mathlib.Data.Finset.Order
import Mathlib.Data.Int.LeastGreatest
import DeterministicRaft.Consensus.Lasting
import DeterministicRaft.Theorems.Acknowledgement
import DeterministicRaft.Theorems.Quorums

/-!
# Leaders are voters

A node only campaigns while it is among its own voters. While it stands or leads it adopts no other voters but by its own proposals, and
a leader never removes itself. So whoever has led a term is a voter of the configuration that it has built.
-/

namespace DeterministicRaft

open RaftNode Consensus

variable {net : Network} {I : Inputs} {self after : RaftNode}

/-- A node that stands or leads is among its own voters. -/
def RaftNode.Inside (node : RaftNode) : Prop := node.role ≠ .follower → node.id ∈ node.voters

namespace RaftNode.Inside

theorem of_follower (h : self.role = .follower) : self.Inside := fun hne => absurd h hne

/-- The node changes elsewhere. -/
theorem of_eq (h : self.Inside) (hr : after.role = self.role) (hid : after.id = self.id) (hv : after.voters = self.voters) :
    after.Inside := by
  intro hne
  rw [hr] at hne
  rw [hid, hv]
  exact h hne

/-- Each move keeps a candidate or a leader among its voters. -/
theorem move (hm : Move I self after) (h : self.Inside) : after.Inside := by
  cases hm with
  | call | arm | armHeartbeat | follow | start | resume | countVote | keepBooks | regress | vote | compact => exact h.of_eq rfl rfl rfl
  | stepDown term =>
    rw [becomeFollower_eq]
    exact of_follower rfl
  | campaign ha hr hv => exact fun _ => hv
  | lead es ha hr =>
    have hmember : self.id ∈ self.voters := h (by rw [hr]; simp)
    exact fun _ => hmember
  | propose command ha hr hc =>
    obtain ⟨clientIndex, heq⟩ := proposed_eq self command
    rw [heq]
    exact h.of_eq rfl rfl rfl
  | reconfigure newVoters ha hr hp hd hs => exact fun _ => hs
  | truncate index t entry hr => exact of_follower ((Makes.truncateFrom_keeps self index).1.trans hr)
  | extend index entry he hr => exact of_follower ((Makes.appendReplicated_keeps self index entry).1.trans hr)
  | commit index entries =>
    obtain ⟨es, -, heq⟩ := committed_eq self index entries
    rw [heq]
    exact h.of_eq rfl rfl rfl
  | install msg keepTail hq hr => exact of_follower hr
  | pause =>
    rw [pause_fields]
    exact of_follower rfl

theorem moved (hm : Moved I self after) (h : self.Inside) : after.Inside := by
  induction hm with
  | refl => exact h
  | tail _ hm ih => exact ih.move hm

end RaftNode.Inside

/-- A step keeps candidates and leaders among their voters. -/
theorem World.step_inside {w w' : World} {act : Action} (hstep : w.step act = .ok w') (h : ∀ n, (w.nodes n).Inside) (n : NodeId) :
    (w'.nodes n).Inside := by
  rcases World.step_cases hstep with rfl | ⟨m, op, self, -, hp, rfl⟩
  · exact h n
  · have hmoved := perform_makes (I := .any) ⟨trivial, trivial, trivial⟩ _ op (op.admissible_any _) self hp
    by_cases hn : n = m
    · subst hn
      simp only [Function.update_self]
      exact ((h n).moved hmoved).of_eq rfl rfl rfl
    · simp only [Function.update_of_ne hn]
      exact h n

namespace Run

variable {r : Run net} {s : ℕ → State NodeId Entry} {k : ℕ} {t : Int} {l : NodeId}

/-- Candidates and leaders are among their voters at every moment. -/
theorem inside (r : Run net) (k : ℕ) (n : NodeId) : ((r.state k).nodes n).Inside := by
  induction k generalizing n with
  | zero =>
    rw [r.start]
    exact .of_follower rfl
  | succ k ih => exact World.step_inside (r.next k) ih n

/-- Whoever has led a term is a voter of the configuration that it has built. -/
theorem Shadow.leader_voter (hs : r.Shadow s) (hl : (s k).leader t = some l) : l ∈ net.scheme.cfg ((s k).llog t) := by
  obtain ⟨j, hj, hlog⟩ := exists_lastLed hs hl
  have hfits := (hs.sim j).fits l
  have hrole := hj.leads.1
  have hmember := r.inside j l (by rw [hrole]; simp)
  rwa [((hs.sim j).node l).id, hfits.voters, ← (hs.sim j).logicalLog_eq, hlog] at hmember

/-- Only servers lead. -/
theorem Shadow.leader_server (hs : r.Shadow s) (hl : (s k).leader t = some l) : l ∈ net.ids := by
  obtain ⟨j, hj, hlog⟩ := exists_lastLed hs hl
  have hfits := (hs.sim j).fits l
  have hmember := hs.leader_voter hl
  rw [← hlog, (hs.sim j).logicalLog_eq, ← hfits.voters] at hmember
  exact hfits.legal.2 hmember

/-- Nobody has led yet, or there is a latest term that somebody has led. -/
theorem Shadow.exists_latest (hs : r.Shadow s) (k : ℕ) : (∀ t, ¬(s k).Led t) ∨ ∃ t, (s k).Led t ∧ (s k).Latest t := by
  by_cases hnone : ∃ t, (s k).Led t
  · right
    obtain ⟨B, hB⟩ := (net.ids.map (s k).term).toFinset.exists_le
    refine Int.exists_greatest_of_bdd ⟨B, fun t ht => ?_⟩ hnone
    obtain ⟨l, hl⟩ := ht
    have hle := ((hs.sim k).inv.stood_le ((hs.sim k).inv.leader_stood hl)).2
    exact hle.trans (hB _ (List.mem_toFinset.2 (List.mem_map.2 ⟨l, hs.leader_server hl, rfl⟩)))
  · exact Or.inl fun t ht => hnone ⟨t, ht⟩

/-- What lasts until the next election lasts at every moment of a run. -/
theorem Shadow.lasting (hs : r.Shadow s) (k : ℕ) : Lasting net.scheme (s k) := by
  induction k with
  | zero =>
    rw [hs.start]
    exact lasting_init
  | succ k ih => exact (hs.steps k).lasting (hs.sim k).inv ih

end Run

end DeterministicRaft
