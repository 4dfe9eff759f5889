import DeterministicRaft.NodeInvariant

/-!
# The vote of a node

What a node has told others of its vote in a term is also what it has stored, as long as it is in that term: a node that runs or leads
has voted for itself, and whoever it has granted its vote to is the one that it remembers.
-/

namespace DeterministicRaft

open RaftNode

variable {I : Inputs} {self after : RaftNode} {t : Int} {c : NodeId}

/-- No move changes who the node is, or which bugs it has. -/
theorem Move.fixed (hm : Move I self after) : after.id = self.id ∧ after.bugs = self.bugs := by
  cases hm with
  | stepDown term =>
    rw [becomeFollower_eq]
    exact ⟨rfl, rfl⟩
  | propose command =>
    obtain ⟨ci, hp⟩ := proposed_eq self command
    rw [hp]
    exact ⟨rfl, rfl⟩
  | truncate index =>
    rw [OnlyLog.truncateFrom self index]
    exact ⟨rfl, rfl⟩
  | extend index entry =>
    rw [OnlyLog.appendReplicated self index entry]
    exact ⟨rfl, rfl⟩
  | commit index entries =>
    obtain ⟨es, -, he⟩ := committed_eq self index entries
    rw [he]
    exact ⟨rfl, rfl⟩
  | pause =>
    rw [pause_fields]
    exact ⟨rfl, rfl⟩
  | _ => exact ⟨rfl, rfl⟩

theorem Moved.fixed (hm : Moved I self after) : after.id = self.id ∧ after.bugs = self.bugs := by
  induction hm with
  | refl => exact ⟨rfl, rfl⟩
  | tail _ hm ih => exact ⟨hm.fixed.1.trans ih.1, hm.fixed.2.trans ih.2⟩

/-! ## A node that runs or leads -/

/-- A node that is no follower has voted for itself. -/
def SelfVoted (node : RaftNode) : Prop := node.role ≠ .follower → node.votedFor = some node.id

theorem SelfVoted.move (hm : Move I self after) (h : SelfVoted self) : SelfVoted after := by
  cases hm with
  | stepDown t =>
    rw [becomeFollower_eq]
    exact fun hr => absurd rfl hr
  | campaign => exact fun _ => rfl
  | lead es ha hr => exact fun _ => h (by rw [hr]; exact nofun)
  | vote msg hi ha ht hv =>
    intro hr
    have hself := h hr
    rcases hv with hv | hv
    · rw [hself] at hv
      cases hv
    · exact hv.symm.trans hself
  | propose command =>
    obtain ⟨ci, heq⟩ := proposed_eq self command
    rw [heq]
    exact h
  | truncate index =>
    rw [OnlyLog.truncateFrom self index]
    exact h
  | extend index entry =>
    rw [OnlyLog.appendReplicated self index entry]
    exact h
  | commit index entries =>
    obtain ⟨es, -, heq⟩ := committed_eq self index entries
    rw [heq]
    exact h
  | pause =>
    rw [pause_fields]
    exact fun hr => absurd rfl hr
  | _ => exact h

theorem SelfVoted.moved (hm : Moved I self after) (h : SelfVoted self) : SelfVoted after := by
  induction hm with
  | refl => exact h
  | tail _ hm ih => exact ih.move hm

/-! ## Ballots -/

/-- The term and the candidate of a call that tells of the node's vote: it grants it, or it is the node's own candidacy. -/
def Effect.ballot (id : NodeId) : Effect → Option (Int × NodeId)
  | .send dst (.voteReply msg) => if msg.granted = true then some (msg.term, dst) else none
  | .send _ (.requestVote msg) => some (msg.term, msg.candidate)
  | .record (.election term) => some (term, id)
  | _ => none

/-- The node's term has reached `t`, and as long as it is in it, it remembers `c` as the one it has voted for. -/
def Backs (node : RaftNode) (t : Int) (c : NodeId) : Prop := t ≤ node.term ∧ (node.term = t → node.votedFor = some c)

/-- A node does not forget its vote in a term, and does not return to an earlier one. -/
theorem Backs.move (hm : Move I self after) (h : Backs self t c) : Backs after t c := by
  obtain ⟨hle, hvote⟩ := h
  cases hm with
  | stepDown u ha hu =>
    rw [becomeFollower_eq]
    refine ⟨hle.trans hu, fun ht => ?_⟩
    have ht : u = t := ht
    rw [if_neg (by omega)]
    exact hvote (by omega)
  | campaign =>
    refine ⟨hle.trans (Int.le_of_lt (Int.lt_succ _)), fun ht => ?_⟩
    have ht : self.term + 1 = t := ht
    omega
  | vote msg hi ha hm hv =>
    refine ⟨hle, fun ht => ?_⟩
    have hmine := hvote ht
    rcases hv with hv | hv
    · rw [hmine] at hv
      cases hv
    · exact hv.symm.trans hmine
  | propose command =>
    obtain ⟨ci, heq⟩ := proposed_eq self command
    rw [heq]
    exact ⟨hle, hvote⟩
  | truncate index =>
    rw [OnlyLog.truncateFrom self index]
    exact ⟨hle, hvote⟩
  | extend index entry =>
    rw [OnlyLog.appendReplicated self index entry]
    exact ⟨hle, hvote⟩
  | commit index entries =>
    obtain ⟨es, -, heq⟩ := committed_eq self index entries
    rw [heq]
    exact ⟨hle, hvote⟩
  | pause =>
    rw [pause_fields]
    exact ⟨hle, hvote⟩
  | _ => exact ⟨hle, hvote⟩

/-- What a call tells of the vote is what the node has stored. -/
theorem Effect.Sound.backs {e : Effect} (he : e.Sound self) (h : SelfVoted self) (hb : e.ballot self.id = some (t, c)) :
    t = self.term ∧ self.votedFor = some c := by
  cases e with
  | send dst msg =>
    cases msg with
    | voteReply msg => simp [Effect.ballot, he.2.2] at hb
    | requestVote msg =>
      obtain ⟨hr, ht, hc⟩ := he
      have hself : self.votedFor = some self.id := h (by rw [hr]; exact nofun)
      cases hb
      exact ⟨ht, by rw [hc, hself]⟩
    | _ => cases hb
  | record event =>
    cases event with
    | election term => exact he.elim
    | _ => cases hb
  | _ => cases hb

/-- A node that is no follower has told that it stands for election in its term. -/
def Declared (node : RaftNode) : Prop := node.role ≠ .follower → .record (.election node.term) ∈ node.out

theorem Declared.move (hm : Move I self after) (h : Declared self) : Declared after := by
  obtain ⟨es, hes⟩ := hm.calls
  have hold : self.role ≠ .follower → .record (.election self.term) ∈ after.out := by
    intro hr
    rw [hes.out]
    exact List.mem_append_left _ (h hr)
  cases hm with
  | stepDown t =>
    rw [becomeFollower_eq]
    exact fun hr => absurd rfl hr
  | campaign => exact fun _ => by simp [campaigned, RaftNode.armElectionTimer, RaftNode.record, emit]
  | lead es ha hr => exact fun _ => hold (by rw [hr]; decide)
  | propose command =>
    obtain ⟨ci, heq⟩ := proposed_eq self command
    rw [heq] at hold ⊢
    exact hold
  | truncate index =>
    rw [OnlyLog.truncateFrom self index] at hold ⊢
    exact hold
  | extend index entry =>
    rw [OnlyLog.appendReplicated self index entry] at hold ⊢
    exact hold
  | commit index entries =>
    obtain ⟨es, -, heq⟩ := committed_eq self index entries
    rw [heq] at hold ⊢
    exact hold
  | pause =>
    rw [pause_fields]
    exact fun hr => absurd rfl hr
  | _ => exact hold

/-- What a node has told of its vote, and what it has stored. -/
structure Honest (node : RaftNode) : Prop where
  selfVoted : SelfVoted node
  declared : Declared node
  backs : ∀ e ∈ node.out, ∀ t c, e.ballot node.id = some (t, c) → Backs node t c
  single : ∀ e ∈ node.out, ∀ e' ∈ node.out, ∀ t c c', e.ballot node.id = some (t, c) → e'.ballot node.id = some (t, c') → c = c'

/-- The ballots of a move are those of the term that it ends in. -/
theorem Move.ballots (hm : Move I self after) (h : SelfVoted self) : ∃ es, after.out = self.out ++ es ∧
    ∀ e ∈ es, ∀ t c, e.ballot self.id = some (t, c) → t = after.term ∧ after.votedFor = some c := by
  obtain ⟨es, hes⟩ := hm.calls
  refine ⟨es, hes.out, fun e he t c hb => ?_⟩
  cases e with
  | send dst msg =>
    have hterm := hes.current dst msg he
    rcases hes.sends dst msg he with hs | hs | ⟨req, -, rfl, rfl, rfl⟩
    · obtain ⟨rfl, hvote⟩ := hs.backs h hb
      exact ⟨hterm.symm, (Backs.move hm ⟨le_rfl, fun _ => hvote⟩).2 hterm⟩
    · cases msg with
      | voteReply msg => simp [Effect.ballot, hs.2.2] at hb
      | requestVote msg => exact nomatch hs.1
      | _ => cases hb
    · cases hb
      exact ⟨rfl, rfl⟩
  | record event =>
    cases event with
    | election term =>
      obtain ⟨rfl, rfl⟩ := hes.elections term he
      cases hb
      exact ⟨rfl, rfl⟩
    | _ => cases hb
  | _ => cases hb

namespace Honest

/-- A move tells nothing of the vote but what is stored. -/
theorem move (hm : Move I self after) (h : Honest self) : Honest after := by
  obtain ⟨es, hout, hnew⟩ := hm.ballots h.selfVoted
  have hid := hm.fixed.1
  refine ⟨h.selfVoted.move hm, h.declared.move hm, ?_, ?_⟩
  · intro e he t c hb
    rw [hid] at hb
    rw [hout] at he
    rcases List.mem_append.1 he with he | he
    · exact (h.backs e he t c hb).move hm
    · obtain ⟨rfl, hvote⟩ := hnew e he t c hb
      exact ⟨le_rfl, fun _ => hvote⟩
  · have hold : ∀ e ∈ self.out, ∀ c, e.ballot self.id = some (after.term, c) → after.votedFor = some c := by
      intro e he c hb
      exact ((h.backs e he _ c hb).move hm).2 rfl
    intro e he e' he' t c c' hb hb'
    rw [hid] at hb hb'
    rw [hout] at he he'
    rcases List.mem_append.1 he with he | he
    · rcases List.mem_append.1 he' with he' | he'
      · exact h.single e he e' he' t c c' hb hb'
      · obtain ⟨rfl, hvote⟩ := hnew e' he' t c' hb'
        exact Option.some.inj ((hold e he c hb).symm.trans hvote)
    · obtain ⟨rfl, hvote⟩ := hnew e he t c hb
      rcases List.mem_append.1 he' with he' | he'
      · exact Option.some.inj (hvote.symm.trans (hold e' he' c' hb'))
      · exact Option.some.inj (hvote.symm.trans (hnew e' he' _ c' hb').2)

theorem moved (hm : Moved I self after) (h : Honest self) : Honest after := by
  induction hm with
  | refl => exact h
  | tail _ hm ih => exact ih.move hm

theorem new (id : NodeId) (peerIds : List NodeId) (config : RaftConfig) (bugs : Bugs) (initialVoters : Option (List NodeId)) :
    Honest (RaftNode.new id peerIds config bugs initialVoters) where
  selfVoted h := absurd rfl h
  declared h := absurd rfl h
  backs _ h := nomatch h
  single _ h := nomatch h

end Honest

end DeterministicRaft
