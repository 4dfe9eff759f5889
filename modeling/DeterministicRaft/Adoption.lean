import DeterministicRaft.Actions
import DeterministicRaft.Theorems.Membership

/-!
# Which configurations are adopted

A node adopts what the entries of its log name, what a snapshot holds, and what it started with. What holds of all of these, and of all
configurations that leaders propose and clients submit, holds of the voters of every node at any time.
-/

namespace DeterministicRaft

open RaftNode Refinement

variable {P : List NodeId → Prop} {self after : RaftNode}

/-- Any configuration that the string names is as `P` says. -/
def Names (P : List NodeId → Prop) (command : String) : Prop := ∀ voters, decodeConfig command = some voters → P voters

/-- Any configuration that a message carries is as `P` says. -/
def Effect.Carries (P : List NodeId → Prop) : Effect → Prop
  | .send _ (.appendEntries msg) => ∀ e ∈ msg.entries, Names P e.command
  | .send _ (.installSnapshot msg) => P msg.voters
  | _ => True

/-- The node's voters are as `P` says, and so is what it may adopt of its own. -/
structure RaftNode.Adopts (P : List NodeId → Prop) (node : RaftNode) : Prop where
  current : P node.voters
  initial : P node.initialVoters
  log : ∀ e ∈ node.log, Names P e.command
  snapshot : ∀ s, node.snapshot = some s → P s.voters

/-- Clients' strings, proposals, entries and snapshots name what is as `P` says. -/
def Inputs.naming (P : List NodeId → Prop) : Inputs where
  agrees := False
  polite := False
  submits := Names P
  proposes newVoters := P (sortedSet newVoters)
  replicates e := Names P e.command
  installs msg := P msg.voters

/-- The last configuration of a log, or the one below it. -/
theorem named_of_names {fallback : List NodeId} {log : List Entry} (hf : P fallback) (h : ∀ e ∈ log, Names P e.command) :
    P (named fallback log) := by
  induction log using List.reverseRecOn with
  | nil => exact hf
  | append_singleton log e ih =>
    rw [named_concat]
    cases hd : decodeConfig e.command with
    | none => exact ih fun x hx => h x (List.mem_append_left _ hx)
    | some voters => exact h e (by simp) voters hd

/-- A proposal is named by its entry. -/
theorem names_encodeConfig {voters : List NodeId} (hne : sortedSet voters ≠ []) (hp : P (sortedSet voters)) :
    Names P (encodeConfig (sortedSet voters)) := by
  intro c hc
  rw [decodeConfig_encodeConfig hne, insertionSort_sortedSet] at hc
  rwa [← Option.some.inj hc]

/-- A call that tells the truth about such a node carries nothing else. -/
theorem Effect.Sound.carries {e : Effect} (hs : e.Sound self) (hl : ∀ e ∈ self.log, Names P e.command)
    (hsnap : ∀ s, self.snapshot = some s → P s.voters) : e.Carries P := by
  cases e with
  | send dst msg =>
    cases msg with
    | appendEntries msg =>
      obtain ⟨-, -, -, -, -, hent, -⟩ := hs
      intro x hx
      rw [hent] at hx
      exact hl x (List.mem_of_mem_drop hx)
    | installSnapshot msg => exact hsnap _ hs.2.2.2
    | _ => trivial
  | _ => trivial

/-- What the loop of `_config_at` finds is in the log. -/
theorem mem_of_configBelow {log : List Entry} {n : ℕ} {d : List NodeId} (h : configBelow log n = .ok (some d)) :
    ∃ e ∈ log, decodeConfig e.command = some d := by
  induction n with
  | zero => cases h
  | succ n ih =>
    rw [configBelow, pyIndex] at h
    have hneg : ¬ (n : Int) < 0 := by omega
    simp only [if_neg hneg, Int.toNat_natCast] at h
    cases hn : log[n]? with
    | none =>
      rw [hn] at h
      cases h
    | some e =>
      rw [hn] at h
      simp only [bind, Except.bind] at h
      cases hd : decodeConfig e.command with
      | none =>
        rw [hd] at h
        exact ih h
      | some c =>
        rw [hd] at h
        cases h
        exact ⟨e, List.mem_of_getElem? hn, hd⟩

namespace RaftNode.Adopts

/-- The node changes elsewhere. -/
theorem of_eq (h : self.Adopts P) (hv : after.voters = self.voters) (hi : after.initialVoters = self.initialVoters)
    (hl : after.log = self.log) (hs : after.snapshot = self.snapshot) : after.Adopts P :=
  ⟨by rw [hv]; exact h.current, by rw [hi]; exact h.initial, by rw [hl]; exact h.log, by rw [hs]; exact h.snapshot⟩

theorem fallback (hi : P self.initialVoters) (hs : ∀ s, self.snapshot = some s → P s.voters) : P self.fallback := by
  unfold RaftNode.fallback
  cases h : self.snapshot with
  | none => exact hi
  | some s => exact hs s h

theorem rebuildConfig (hi : P self.initialVoters) (hs : ∀ s, self.snapshot = some s → P s.voters)
    (hl : ∀ e ∈ self.log, Names P e.command) : P self.rebuildConfig.voters := by
  have hstart : self.rebuildConfig.voters = named self.fallback self.log := by
    unfold RaftNode.rebuildConfig RaftNode.adoptConfig RaftNode.fallback
    simp only
    rw [Network.lastConfig_fst, named_eq_foldl]
    cases self.snapshot <;> rfl
  rw [hstart]
  exact named_of_names (fallback hi hs) hl

/-- What `_config_at` finds is a configuration of the log, or the one below it. -/
theorem configAt (h : self.Adopts P) {upto : Int} {c : List NodeId} (hc : self.configAt upto = .ok c) : P c := by
  unfold RaftNode.configAt at hc
  cases hb : configBelow self.log (upto - self.baseIndex).toNat with
  | error e =>
    rw [hb] at hc
    cases hc
  | ok found =>
    rw [hb] at hc
    cases found with
    | some d =>
      obtain ⟨e, he, hd⟩ := mem_of_configBelow hb
      rw [← Except.ok.inj hc]
      exact h.log e he d hd
    | none =>
      simp only [bind, Except.bind] at hc
      cases hs : self.snapshot with
      | none =>
        rw [hs] at hc
        rw [← Except.ok.inj hc]
        exact h.initial
      | some s =>
        rw [hs] at hc
        rw [← Except.ok.inj hc]
        exact h.snapshot s hs

/-- Each move adopts what it may. -/
theorem move (hm : Move (Inputs.naming P) self after) (h : self.Adopts P) : after.Adopts P := by
  cases hm with
  | call | arm | armHeartbeat | follow | start | resume | countVote | keepBooks | regress | campaign | lead | vote =>
    exact h.of_eq rfl rfl rfl rfl
  | stepDown term =>
    rw [becomeFollower_eq]
    exact h.of_eq rfl rfl rfl rfl
  | propose command ha hr hc =>
    obtain ⟨ci, hp⟩ := proposed_eq self command
    rw [hp]
    refine ⟨h.current, h.initial, fun e he => ?_, h.snapshot⟩
    rcases List.mem_append.1 he with he | he
    · exact h.log e he
    · rw [List.mem_singleton.1 he]
      exact hc
  | reconfigure newVoters ha hr hp hd hs =>
    refine ⟨hp, h.initial, fun e he => ?_, h.snapshot⟩
    rcases List.mem_append.1 he with he | he
    · exact h.log e he
    · rw [List.mem_singleton.1 he]
      exact names_encodeConfig (List.ne_nil_of_mem hs) hp
  | truncate index =>
    have hlog : ∀ e ∈ delFrom self.log (self.phys index), Names P e.command :=
      fun e he => h.log e (List.mem_of_mem_take he)
    unfold RaftNode.truncateFrom
    simp only
    split
    · exact ⟨rebuildConfig h.initial h.snapshot hlog, h.initial, hlog, h.snapshot⟩
    · exact ⟨h.current, h.initial, hlog, h.snapshot⟩
  | extend index entry he =>
    have hlog : ∀ e ∈ self.log ++ [entry], Names P e.command := by
      intro e hmem
      rcases List.mem_append.1 hmem with hmem | hmem
      · exact h.log e hmem
      · rw [List.mem_singleton.1 hmem]
        exact he
    unfold RaftNode.appendReplicated RaftNode.adoptConfig
    cases hd : decodeConfig entry.command with
    | none => exact ⟨h.current, h.initial, hlog, h.snapshot⟩
    | some voters => exact ⟨he voters hd, h.initial, hlog, h.snapshot⟩
  | commit index entries =>
    obtain ⟨es, -, he⟩ := committed_eq self index entries
    rw [he]
    exact h.of_eq rfl rfl rfl rfl
  | compact lastTerm snapVoters hq hc =>
    refine ⟨h.current, h.initial, fun e he => h.log e (List.mem_of_mem_drop he), ?_⟩
    intro s hs
    cases hs
    exact h.configAt hc.voters
  | install msg keepTail hq hr hk hc =>
    have hlog : ∀ e ∈ (if keepTail then sliceFrom self.log (msg.lastIndex - self.baseIndex) else []), Names P e.command := by
      intro e he
      split at he
      · exact h.log e (List.mem_of_mem_drop he)
      · cases he
    have hsnap : ∀ s, (some ⟨msg.lastIndex, msg.lastTerm, msg.store, msg.sessions, msg.voters⟩ : Option Snapshot) = some s →
        P s.voters := by
      intro s hs
      cases hs
      exact hq
    have hrebuilt : P (self.restored msg keepTail).rebuildConfig.voters := rebuildConfig (by exact h.initial) hsnap hlog
    exact ⟨hrebuilt, h.initial, hlog, hsnap⟩
  | pause =>
    rw [pause_fields]
    exact ⟨rebuildConfig h.initial h.snapshot h.log, h.initial, h.log, h.snapshot⟩

/-- The calls of a move carry nothing else. -/
theorem move_calls (hm : Move (Inputs.naming P) self after) (h : self.Adopts P) (hc : ∀ e ∈ self.out, e.Carries P) :
    ∀ e ∈ after.out, e.Carries P := by
  obtain ⟨es, hes⟩ := hm.calls
  intro e he
  rw [hes.out] at he
  rcases List.mem_append.1 he with he | he
  · exact hc e he
  · cases e with
    | send dst msg =>
      rcases hes.sends dst msg he with hs | hs | ⟨req, -, -, -, rfl⟩
      · exact hs.carries h.log h.snapshot
      · exact hs.carries h.log h.snapshot
      · trivial
    | _ => trivial

theorem moved (hm : Moved (Inputs.naming P) self after) (h : self.Adopts P) (hc : ∀ e ∈ self.out, e.Carries P) :
    after.Adopts P ∧ ∀ e ∈ after.out, e.Carries P := by
  induction hm with
  | refl => exact ⟨h, hc⟩
  | tail _ hm ih => exact ⟨ih.1.move hm, ih.1.move_calls hm ih.2⟩

end RaftNode.Adopts

/-! ## Runs -/

/-- A live leader is only given strings that name what is as `P` says, and what it accepts as a proposal is so too. -/
def Proposes (P : List NodeId → Prop) (w : World) : Action → Prop
  | .clientCommand n command => (w.nodes n).role = .leader → (w.nodes n).alive = true → Names P command
  | .changeConfig n newVoters => ∀ after, (w.nodes n).changeConfig newVoters = .ok (after, true) → P (sortedSet newVoters)
  | _ => True

/-- What the nodes adopt is as `P` says, and so is all that any message ever carried. -/
structure World.Adopts (P : List NodeId → Prop) (w : World) : Prop where
  nodes : ∀ n, (w.nodes n).Adopts P
  idle : ∀ n, (w.nodes n).out = []
  trace : ∀ call ∈ w.trace, call.2.Carries P

namespace World.Adopts

theorem launch (ids initialVoters : List NodeId) (peers : NodeId → List NodeId) (config : NodeId → RaftConfig)
    (bugs : NodeId → Bugs) (hp : P (initialVoters.insertionSort (· ≤ ·))) :
    (World.launch ids initialVoters peers config bugs).Adopts P := by
  refine ⟨fun n => ⟨hp, hp, nofun, nofun⟩, fun n => rfl, fun call hc => ?_⟩
  obtain ⟨n, -, hc⟩ := List.mem_flatMap.1 hc
  obtain ⟨e, he, rfl⟩ := List.mem_map.1 hc
  rw [List.mem_singleton.1 he]
  trivial

/-- An operation is some moves, or a proposal that was refused. -/
theorem moved {w : World} (h : w.Adopts P) {act : Action} (ha : Proposes P w act) {n : NodeId} {op : NodeOp}
    (hop : w.operation act = some (n, op)) (hp : (w.nodes n).perform op = .ok self) :
    Moved (Inputs.naming P) (w.nodes n) self := by
  have hmoved : op.Admissible (Inputs.naming P) (w.nodes n) → Moved (Inputs.naming P) (w.nodes n) self := fun hadm =>
    perform_makes ⟨trivial, trivial, trivial⟩ _ op hadm self hp
  rcases World.operation_cases hop with ⟨src, msg, hsrc, rfl⟩ | ⟨kind, seq, -, rfl⟩ | ⟨command, rfl, rfl⟩ |
    ⟨newVoters, rfl, rfl⟩ | ⟨command, rfl, rfl⟩ | ⟨rfl, rfl⟩ | ⟨rfl, rfl⟩
  · have hsent := h.trace _ hsrc
    refine hmoved ?_
    cases msg with
    | appendEntries msg => exact ⟨nofun, hsent⟩
    | installSnapshot msg => exact hsent
    | readHeartbeat msg => exact nofun
    | _ => trivial
  · exact hmoved (by cases kind <;> trivial)
  · exact hmoved ha
  · cases hc : (w.nodes n).changeConfig newVoters with
    | error e =>
      simp only [RaftNode.perform, hc] at hp
      cases hp
    | ok done =>
      obtain ⟨after, accepted⟩ := done
      rcases Makes.changeConfig_cases hc with ⟨-, rfl⟩ | ⟨rfl, -⟩
      · simp only [RaftNode.perform, hc] at hp
        cases hp
        exact Relation.ReflTransGen.refl
      · exact hmoved (ha after hc)
  all_goals exact hmoved trivial

/-- A step adopts what it may. -/
theorem step (w : World) (act : Action) (after : World) (ha : Proposes P w act) (hstep : w.step act = .ok after)
    (h : w.Adopts P) : after.Adopts P := by
  rcases World.step_cases hstep with rfl | ⟨n, op, self, hop, hp, rfl⟩
  · exact h
  · obtain ⟨hself, hcalls⟩ := (h.nodes n).moved (h.moved ha hop hp) (by simp [h.idle n])
    refine ⟨fun m => ?_, fun m => ?_, fun call hc => ?_⟩
    · show (Function.update w.nodes n _ m).Adopts P
      by_cases hm : m = n
      · subst hm
        rw [Function.update_self]
        exact hself.of_eq rfl rfl rfl rfl
      · rw [Function.update_of_ne hm]
        exact h.nodes m
    · show (Function.update w.nodes n _ m).out = []
      by_cases hm : m = n
      · subst hm
        rw [Function.update_self]
      · rw [Function.update_of_ne hm]
        exact h.idle m
    · rcases List.mem_append.1 hc with hc | hc
      · exact h.trace call hc
      · obtain ⟨e, he, rfl⟩ := List.mem_map.1 hc
        exact hcalls e he

end World.Adopts

end DeterministicRaft
