import DeterministicRaft.Consensus.Local
import DeterministicRaft.Consensus.Majority
import DeterministicRaft.Network

/-!
# The program as an instance of the protocol

Entries are the program's, a configuration is a list of voters, its quorums are the majorities, and one configuration follows
another when `change_config` would append it. Then what the program derives from a log: the configuration in force, the state
machine, the snapshot.
-/

namespace DeterministicRaft

open Consensus

/-! ## Configurations -/

theorem sortedSet_perm (l : List Int) : (sortedSet l).Perm l.dedup := List.perm_insertionSort _ _

theorem nodup_sortedSet (l : List Int) : (sortedSet l).Nodup := (sortedSet_perm l).nodup_iff.2 l.nodup_dedup

@[simp] theorem mem_sortedSet {l : List Int} {v : Int} : v ∈ sortedSet l ↔ v ∈ l := by
  rw [(sortedSet_perm l).mem_iff, List.mem_dedup]

/-- Sorting a sorted set again changes nothing. -/
theorem insertionSort_sortedSet (l : List Int) : (sortedSet l).insertionSort (· ≤ ·) = sortedSet l :=
  (List.pairwise_insertionSort (· ≤ ·) l.dedup).insertionSort_eq

/-- The numerals of a list of ids read back as the list. -/
theorem mapM_pyInt_toString (l : List Int) : (l.map toString).mapM pyInt = some l := by
  induction l with
  | nil => rfl
  | cons v l ih =>
    rw [List.map_cons, List.mapM_cons, pyInt_toString, ih]
    rfl

/-- A configuration entry names the configuration it was made of, as long as there is a voter. -/
theorem decodeConfig_encodeConfig {l : List NodeId} (hl : l ≠ []) :
    decodeConfig (encodeConfig l) = some (l.insertionSort (· ≤ ·)) := by
  have hp : (CONFIG_PREFIX ++ pyJoin "," ((l.insertionSort (· ≤ ·)).map toString)).toList =
      CONFIG_PREFIX.toList ++ (pyJoin "," ((l.insertionSort (· ≤ ·)).map toString)).toList := String.toList_append ..
  have hd : CONFIG_PREFIX.length = CONFIG_PREFIX.toList.length := by decide
  rw [encodeConfig, decodeConfig, hp, if_pos (List.prefix_append _ _), hd, List.drop_left]
  have hne : l.insertionSort (· ≤ ·) ≠ [] := by
    intro h
    have := (List.perm_insertionSort (· ≤ ·) l).length_eq
    rw [h] at this
    exact hl (List.length_eq_zero_iff.1 this.symm)
  obtain ⟨v, vs, hv⟩ := List.exists_cons_of_ne_nil hne
  rw [hv, List.map_cons, show (",": String) = String.singleton ',' by decide, String.ofList_toList, pySplit_pyJoin,
    ← List.map_cons, mapM_pyInt_toString]
  intro q hq hc
  rw [← List.map_cons] at hq
  obtain ⟨i, -, rfl⟩ := List.mem_map.1 hq
  rcases mem_toString_int hc with h | h <;> simp [Char.isDigit] at h

/-- What starts like a configuration entry decodes to a command that does nothing. -/
theorem Command.decode_of_prefix {s : String} (h : CONFIG_PREFIX.toList <+: s.toList) : Command.decode s = .noop := by
  obtain ⟨cs, hs⟩ := h
  have hp : pySplit s ':' = "cfg" :: (splitChars ':' cs).map String.ofList := by
    have hprefix : CONFIG_PREFIX.toList = "cfg".toList ++ [':'] := by decide
    rw [pySplit, ← hs, hprefix, List.append_assoc, List.singleton_append, splitChars_append ':' _ _ (by decide), List.map_cons,
      String.ofList_toList]
  have hcfg : pyInt "cfg" = none := by decide +kernel
  unfold Command.decode
  rw [hp]
  split
  · rename_i cid rid op key value expected heq
    rw [← (List.cons.inj heq).1, hcfg]
  · rfl

/-! ## The instance -/

namespace Network

variable (net : Network)

/-- The program's entries, configurations and quorums. -/
def scheme : Scheme NodeId Entry (List NodeId) where
  term e := e.term
  config e := decodeConfig e.command
  initial := net.initialVoters.insertionSort (· ≤ ·)
  quorum := Majority
  adjacent c c' := (c.Nodup ∧ c'.Nodup ∧ (symmDiff c.toFinset c'.toFinset).card = 1) ∧ net.reconfigurable = true ∧ c' ⊆ net.ids
  quorum_mono h hs := h.mono hs
  overlap h h' := h.overlap h'
  overlap_adjacent ha h h' := Majority.overlap_adjacent ha.1.1 ha.1.2.1 ha.1.2.2 h h'

@[simp] theorem scheme_term (e : Entry) : net.scheme.term e = e.term := rfl

@[simp] theorem scheme_config (e : Entry) : net.scheme.config e = decodeConfig e.command := rfl

@[simp] theorem scheme_initial : net.scheme.initial = net.initialVoters.insertionSort (· ≤ ·) := rfl

@[simp] theorem scheme_quorum : net.scheme.quorum = Majority := rfl

/-- A legal configuration: distinct servers. -/
def Legal (c : List NodeId) : Prop := c.Nodup ∧ c ⊆ net.ids

theorem legal_initial : net.Legal (net.initialVoters.insertionSort (· ≤ ·)) :=
  ⟨(List.perm_insertionSort _ _).nodup_iff.2 net.voters_nodup, fun _ hv =>
    net.voters_subset ((List.mem_insertionSort _).1 hv)⟩

variable {net} {a : State NodeId Entry}

/-- The configuration in force under a log made of leaders' logs is legal. -/
theorem legal_cfg (h : Inv net.scheme a) {X : List Entry} (hX : a.WellFormed net.scheme X) : net.Legal (net.scheme.cfg X) := by
  induction X using List.reverseRecOn with
  | nil => exact net.legal_initial
  | append_singleton X e ih =>
    rw [Scheme.cfg_concat]
    cases hc : net.scheme.config e with
    | none => exact ih (hX.mono (List.prefix_append _ _))
    | some c =>
      obtain ⟨⟨⟨-, hn, -⟩, -, hs⟩, -⟩ := h.guard hX (k := X.length) (e := e) (by simp) hc
      exact ⟨hn, hs⟩

/-- Where `change_config` is never called, no log names a configuration. -/
theorem config_none (hr : net.reconfigurable = false) (h : Inv net.scheme a) {X : List Entry}
    (hX : a.WellFormed net.scheme X) {e : Entry} (he : e ∈ X) : net.scheme.config e = none := by
  obtain ⟨k, hk⟩ := List.mem_iff_getElem?.1 he
  rw [Option.eq_none_iff_forall_ne_some]
  intro c hc
  obtain ⟨⟨-, ht, -⟩, -⟩ := h.guard hX hk hc
  rw [hr] at ht
  exact absurd ht (by decide)

/-- Where `change_config` is never called, the first voters are in force under every log. -/
theorem cfg_fixed (hr : net.reconfigurable = false) (h : Inv net.scheme a) {X : List Entry}
    (hX : a.WellFormed net.scheme X) : net.scheme.cfg X = net.scheme.initial := by
  induction X using List.reverseRecOn with
  | nil => rfl
  | append_singleton X e ih =>
    rw [Scheme.cfg_concat, config_none hr h hX (by simp)]
    exact ih (hX.mono (List.prefix_append _ _))

end Network

/-! ## What the program derives from a log -/

/-- The state machine after the commands of a log. -/
def replay (L : List Entry) : KVStateMachine := KVStateMachine.applyAll {} (L.map (·.command))

@[simp] theorem replay_nil : replay [] = {} := rfl

theorem replay_concat (L : List Entry) (e : Entry) :
    replay (L ++ [e]) = ((replay L).apply (Command.decode e.command)).1 := by
  simp [replay]

namespace Network

variable (net : Network)

/-- The snapshot that covers the entries `P`. -/
def snapshotOf (P : List Entry) : Option Snapshot :=
  if P = [] then none
  else some {
    lastIndex := P.length
    lastTerm := net.scheme.lastTerm P
    store := (replay P).store
    sessions := (replay P).sessions
    voters := net.scheme.cfg P }

@[simp] theorem snapshotOf_nil : net.snapshotOf [] = none := rfl

/-- The configuration in force after some more entries. -/
theorem cfg_append (P L : List Entry) :
    net.scheme.cfg (P ++ L) = L.foldl (fun c e => (decodeConfig e.command).getD c) (net.scheme.cfg P) := by
  simp [Scheme.cfg]

/-- The loop of `_rebuild_config` finds the configuration in force. -/
theorem lastConfig_fst (L : List Entry) (voters : List NodeId) (index next : Int) :
    (RaftNode.lastConfig voters index next L).1 = L.foldl (fun c e => (decodeConfig e.command).getD c) voters := by
  induction L generalizing voters index next with
  | nil => rfl
  | cons e L ih =>
    rw [RaftNode.lastConfig, List.foldl_cons]
    cases decodeConfig e.command <;> exact ih _ _ _

/-- The loop of `_rebuild_config` does not go back. -/
theorem le_lastConfig_snd (L : List Entry) (voters : List NodeId) {index next : Int} (h : index ≤ next) :
    index ≤ (RaftNode.lastConfig voters index next L).2 := by
  induction L generalizing voters index next with
  | nil => exact le_rfl
  | cons e L ih =>
    rw [RaftNode.lastConfig]
    cases decodeConfig e.command with
    | none => exact ih _ (by omega)
    | some c => exact h.trans (ih _ (by omega))

/-- The loop of `_rebuild_config` ends at the last configuration entry or behind it. -/
theorem config_le_lastConfig_snd (L : List Entry) (voters : List NodeId) (index next : Int) {j : ℕ} {e : Entry}
    (hj : L[j]? = some e) (he : decodeConfig e.command ≠ none) (h : index ≤ next) :
    next + j ≤ (RaftNode.lastConfig voters index next L).2 := by
  induction L generalizing voters index next j with
  | nil => simp at hj
  | cons x L ih =>
    rw [RaftNode.lastConfig]
    cases j with
    | zero =>
      simp only [List.getElem?_cons_zero, Option.some.injEq] at hj
      subst hj
      obtain ⟨c, hc⟩ := Option.ne_none_iff_exists'.1 he
      rw [hc]
      have : next ≤ _ := le_lastConfig_snd L c (show next ≤ next + 1 by omega)
      simpa using this
    | succ j =>
      rw [List.getElem?_cons_succ] at hj
      cases decodeConfig x.command with
      | none =>
        have := ih voters index (next + 1) hj (by omega)
        push_cast
        omega
      | some c =>
        have := ih c next (next + 1) hj (by omega)
        push_cast
        omega

/-- The loop of `_config_at` finds the last configuration among the first entries of a log. -/
theorem configBelow_eq (log : List Entry) {n : ℕ} (hn : n ≤ log.length) (voters : List NodeId) :
    ∃ c, RaftNode.configBelow log n = .ok c ∧
      c.getD voters = (log.take n).foldl (fun c e => (decodeConfig e.command).getD c) voters := by
  induction n with
  | zero => exact ⟨none, rfl, rfl⟩
  | succ i ih =>
    obtain ⟨e, he⟩ : ∃ e, log[i]? = some e := ⟨_, List.getElem?_eq_getElem (by omega)⟩
    rw [RaftNode.configBelow, pyIndex_ok rfl he, take_succ_eq he, List.foldl_append]
    obtain ⟨c, hc, hv⟩ := ih (by omega)
    cases hd : decodeConfig e.command with
    | none => exact ⟨c, by simpa [hd, bind, Except.bind] using hc, by simpa [hd] using hv⟩
    | some d => exact ⟨some d, by simp [hd, bind, Except.bind, pure, Except.pure], by simp [hd]⟩

end Network

end DeterministicRaft
