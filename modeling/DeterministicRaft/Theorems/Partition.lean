import DeterministicRaft.Simulator

/-!
# Is a partition exact and atomic?

Not always: the groups are written before they are checked, and the check compares only which ids occur. A node in two groups is
accepted, and a list that is refused may have changed who can reach whom.
-/

namespace DeterministicRaft

namespace SimNetwork

/-- Every node occurs in exactly one group, and no other id occurs. -/
structure ExactlyOnce (nodeIds : List NodeId) (groups : List (Finset NodeId)) : Prop where
  once : ∀ n ∈ nodeIds, ∃! i : ℕ, ∃ g : Finset NodeId, groups[i]? = some g ∧ n ∈ g
  known : ∀ g ∈ groups, ∀ n ∈ g, n ∈ nodeIds

/-- What a partition is to do: it succeeds exactly if the groups name each node once; then the nodes of a group reach each other, as far
as no link is down, and no others; and when it raises, who reaches whom is as before. -/
structure PartitionExact (net : SimNetwork) (nodeIds : List NodeId) (groups : List (Finset NodeId)) : Prop where
  succeeds : (net.setPartition nodeIds groups).2 = none ↔ ExactlyOnce nodeIds groups
  separates : (net.setPartition nodeIds groups).2 = none → ∀ a ∈ nodeIds, ∀ b ∈ nodeIds, link a b ∉ net.downLinks →
    ((net.setPartition nodeIds groups).1.reachable a b = true ↔ ∃ g ∈ groups, a ∈ g ∧ b ∈ g)
  atomic : (net.setPartition nodeIds groups).2 ≠ none → ∀ a ∈ nodeIds, ∀ b ∈ nodeIds,
    (net.setPartition nodeIds groups).1.reachable a b = net.reachable a b

/-! ## What is written -/

/-- The ids that occur are exactly the nodes. -/
def NamesAll (nodeIds : List NodeId) (groups : List (Finset NodeId)) : Prop := ∀ n, n ∈ nodeIds ↔ ∃ g ∈ groups, n ∈ g

/-- The last group that names the node. -/
def lastGroup (groups : List (Finset NodeId)) (n : NodeId) : Option ℕ :=
  groups.zipIdx.foldl (fun last g => if n ∈ g.1 then some g.2 else last) none

/-- Where a node is once the groups are written: in the last one that names it, or where it was. -/
def label (net : SimNetwork) (groups : List (Finset NodeId)) (n : NodeId) : ℕ := (lastGroup groups n).getD (net.group n)

variable {net : SimNetwork} {nodeIds : List NodeId} {groups : List (Finset NodeId)} {n : NodeId} {i : ℕ}

theorem lastGroup_concat (groups : List (Finset NodeId)) (g : Finset NodeId) (n : NodeId) :
    lastGroup (groups ++ [g]) n = if n ∈ g then some groups.length else lastGroup groups n := by
  rw [lastGroup, List.zipIdx_append, List.foldl_append]
  simp [lastGroup]

theorem writeGroups_concat (net : SimNetwork) (groups : List (Finset NodeId)) (g : Finset NodeId) (n : NodeId) :
    (net.writeGroups (groups ++ [g])).group n = if n ∈ g then groups.length else (net.writeGroups groups).group n := by
  simp only [writeGroups, List.zipIdx_append, List.foldl_append]
  simp

theorem writeGroups_group (net : SimNetwork) (groups : List (Finset NodeId)) (n : NodeId) :
    (net.writeGroups groups).group n = net.label groups n := by
  induction groups using List.reverseRecOn with
  | nil => rfl
  | append_singleton groups g ih =>
    rw [writeGroups_concat, label, lastGroup_concat]
    split
    · rfl
    · exact ih

/-- A node is in the last group that names it. -/
theorem mem_of_lastGroup (h : lastGroup groups n = some i) : ∃ g, groups[i]? = some g ∧ n ∈ g := by
  induction groups using List.reverseRecOn with
  | nil => cases h
  | append_singleton groups g ih =>
    rw [lastGroup_concat] at h
    split at h
    · rename_i hn
      cases h
      exact ⟨g, List.getElem?_concat_length, hn⟩
    · obtain ⟨g', hg', hn⟩ := ih h
      exact ⟨g', by rw [List.getElem?_append_left (List.getElem?_eq_some_iff.1 hg').1, hg'], hn⟩

/-- A node that is named has a last group. -/
theorem lastGroup_isSome {g : Finset NodeId} (hg : g ∈ groups) (hn : n ∈ g) : ∃ i, lastGroup groups n = some i := by
  induction groups using List.reverseRecOn with
  | nil => cases hg
  | append_singleton groups g' ih =>
    rw [lastGroup_concat]
    split
    · exact ⟨_, rfl⟩
    · rename_i hn'
      rcases List.mem_append.1 hg with hg | hg
      · exact ih hg
      · rw [List.mem_singleton.1 hg] at hn
        exact absurd hn hn'

/-- Of groups without a common node, only one names a node. -/
theorem eq_of_pairwise (h : groups.Pairwise Disjoint) {j : ℕ} {g g' : Finset NodeId} (hi : groups[i]? = some g)
    (hj : groups[j]? = some g') (hn : n ∈ g) (hn' : n ∈ g') : i = j := by
  obtain ⟨hil, rfl⟩ := List.getElem?_eq_some_iff.1 hi
  obtain ⟨hjl, rfl⟩ := List.getElem?_eq_some_iff.1 hj
  rcases Nat.lt_trichotomy i j with hlt | heq | hlt
  · exact absurd hn' (Finset.disjoint_left.1 (List.pairwise_iff_getElem.1 h i j hil hjl hlt) hn)
  · exact heq
  · exact absurd hn (Finset.disjoint_left.1 (List.pairwise_iff_getElem.1 h j i hjl hil hlt) hn')

/-- The groups name each node once if they name all nodes, and no node is in two of them. -/
theorem exactlyOnce_iff : ExactlyOnce nodeIds groups ↔ NamesAll nodeIds groups ∧ groups.Pairwise Disjoint := by
  constructor
  · intro h
    refine ⟨fun n => ⟨fun hn => ?_, fun ⟨g, hg, hn⟩ => h.known g hg n hn⟩, List.pairwise_iff_getElem.2 fun i j hi hj hij => ?_⟩
    · obtain ⟨i, ⟨g, hg, hng⟩, -⟩ := h.once n hn
      exact ⟨g, List.mem_of_getElem? hg, hng⟩
    · refine Finset.disjoint_left.2 fun n hn hn' => ?_
      have hunique := h.once n (h.known _ (List.getElem_mem hi) n hn)
      have heq := hunique.unique ⟨_, List.getElem?_eq_getElem hi, hn⟩ ⟨_, List.getElem?_eq_getElem hj, hn'⟩
      omega
  · rintro ⟨hnames, hdisjoint⟩
    refine ⟨fun n hn => ?_, fun g hg n hn => (hnames n).2 ⟨g, hg, hn⟩⟩
    obtain ⟨g, hg, hng⟩ := (hnames n).1 hn
    obtain ⟨i, hi, rfl⟩ := List.getElem_of_mem hg
    refine ⟨i, ⟨_, List.getElem?_eq_getElem hi, hng⟩, fun j ⟨g', hg', hn'⟩ => ?_⟩
    exact eq_of_pairwise hdisjoint hg' (List.getElem?_eq_getElem hi) hn' hng

theorem mem_foldl_union {l : List (Finset NodeId)} {s : Finset NodeId} : n ∈ l.foldl (· ∪ ·) s ↔ n ∈ s ∨ ∃ g ∈ l, n ∈ g := by
  induction l generalizing s with
  | nil => simp
  | cons g l ih => simp [ih, or_assoc]

/-- The check passes if the ids that occur are the nodes. -/
theorem setPartition_eq_none : (net.setPartition nodeIds groups).2 = none ↔ NamesAll nodeIds groups := by
  have hunion : groups.foldl (· ∪ ·) ∅ = nodeIds.toFinset ↔ NamesAll nodeIds groups := by
    rw [Finset.ext_iff]
    refine forall_congr' fun n => ?_
    rw [mem_foldl_union, List.mem_toFinset]
    simp [iff_comm]
  rw [← hunion]
  unfold setPartition
  simp only
  split
  · rename_i hne
    simp [hne]
  · rename_i heq
    simp [not_not.1 heq]

/-- Whether the call succeeds or not, the groups are written. -/
theorem setPartition_fst : (net.setPartition nodeIds groups).1 = net.writeGroups groups := by
  unfold setPartition
  simp only
  split
  · rfl
  · rfl

theorem setPartition_reachable {a b : NodeId} : (net.setPartition nodeIds groups).1.reachable a b = true ↔
    net.label groups a = net.label groups b ∧ link a b ∉ net.downLinks := by
  rw [setPartition_fst, reachable, decide_eq_true_eq, writeGroups_group, writeGroups_group]
  exact Iff.rfl

/-- Of groups that name each node once, two nodes have the same last group if they are in the same one. -/
theorem label_eq_iff (net : SimNetwork) (hnames : NamesAll nodeIds groups) (hdisjoint : groups.Pairwise Disjoint) {a b : NodeId}
    (ha : a ∈ nodeIds) (hb : b ∈ nodeIds) : net.label groups a = net.label groups b ↔ ∃ g ∈ groups, a ∈ g ∧ b ∈ g := by
  obtain ⟨g, hg, hag⟩ := (hnames a).1 ha
  obtain ⟨g', hg', hbg⟩ := (hnames b).1 hb
  obtain ⟨i, hi⟩ := lastGroup_isSome hg hag
  obtain ⟨j, hj⟩ := lastGroup_isSome hg' hbg
  obtain ⟨x, hx, hax⟩ := mem_of_lastGroup hi
  obtain ⟨y, hy, hby⟩ := mem_of_lastGroup hj
  rw [label, label, hi, hj, Option.getD_some, Option.getD_some]
  constructor
  · rintro rfl
    rw [hx] at hy
    cases hy
    exact ⟨x, List.mem_of_getElem? hx, hax, hby⟩
  · rintro ⟨z, hz, haz, hbz⟩
    obtain ⟨k, hk, rfl⟩ := List.getElem_of_mem hz
    have hik := eq_of_pairwise hdisjoint hx (List.getElem?_eq_getElem hk) hax haz
    have hjk := eq_of_pairwise hdisjoint hy (List.getElem?_eq_getElem hk) hby hbz
    exact hik.trans hjk.symm

/-- In one state of the network: where the groups name all nodes and nothing else, no node is in two of them; and where they do not,
writing them brings no two nodes together or apart, other than nodes whose link is down. -/
theorem partitionExact_iff : PartitionExact net nodeIds groups ↔ (NamesAll nodeIds groups → groups.Pairwise Disjoint) ∧
    (¬NamesAll nodeIds groups → ∀ a ∈ nodeIds, ∀ b ∈ nodeIds, link a b ∉ net.downLinks →
      (net.label groups a = net.label groups b ↔ net.group a = net.group b)) := by
  have hreach : ∀ a b, net.reachable a b = true ↔ net.group a = net.group b ∧ link a b ∉ net.downLinks := fun a b => decide_eq_true_iff
  constructor
  · intro h
    refine ⟨fun hnames => (exactlyOnce_iff.1 (h.succeeds.1 (setPartition_eq_none.2 hnames))).2, fun hnames a ha b hb hlink => ?_⟩
    have heq := h.atomic (fun hn => hnames (setPartition_eq_none.1 hn)) a ha b hb
    rw [Bool.eq_iff_iff, setPartition_reachable, hreach] at heq
    simpa [hlink] using heq
  · rintro ⟨hexact, hatomic⟩
    refine ⟨?_, fun hsome a ha b hb hlink => ?_, fun herror a ha b hb => ?_⟩
    · rw [setPartition_eq_none, exactlyOnce_iff]
      exact ⟨fun hnames => ⟨hnames, hexact hnames⟩, And.left⟩
    · have hnames := setPartition_eq_none.1 hsome
      rw [setPartition_reachable, ← label_eq_iff net hnames (hexact hnames) ha hb]
      exact and_iff_left hlink
    · have hnames : ¬NamesAll nodeIds groups := fun hn => herror (setPartition_eq_none.2 hn)
      rw [Bool.eq_iff_iff, setPartition_reachable, hreach]
      exact and_congr_left fun hlink => hatomic hnames a ha b hb hlink

/-- A node that no group names stays where it was. -/
theorem label_of_not_named (net : SimNetwork) (h : ∀ g ∈ groups, n ∉ g) : net.label groups n = net.group n := by
  unfold label
  cases hlast : lastGroup groups n with
  | none => rfl
  | some i =>
    obtain ⟨g, hg, hn⟩ := mem_of_lastGroup hlast
    exact absurd hn (h g (List.mem_of_getElem? hg))

/-- Where a node is named, writing the groups brings it together with any other node, or apart from it, in some state of the network. -/
theorem exists_moved {m : NodeId} {g : Finset NodeId} (hg : g ∈ groups) (hn : n ∈ g) (hne : m ≠ n) : ∃ net : SimNetwork,
    net.downLinks = ∅ ∧ ¬(net.label groups n = net.label groups m ↔ net.group n = net.group m) := by
  obtain ⟨i, hi⟩ := lastGroup_isSome hg hn
  have hlabel : ∀ net : SimNetwork, net.label groups n = i := fun net => by rw [label, hi, Option.getD_some]
  cases hm : lastGroup groups m with
  | none =>
    refine ⟨{ group := fun x => if x = m then i else i + 1 }, rfl, ?_⟩
    rw [hlabel, label, hm, Option.getD_none]
    simp [hne.symm]
  | some j =>
    have hlabel' : ∀ net : SimNetwork, net.label groups m = j := fun net => by rw [label, hm, Option.getD_some]
    by_cases hij : i = j
    · refine ⟨{ group := fun x => if x = m then 0 else 1 }, rfl, ?_⟩
      rw [hlabel, hlabel']
      simp only [if_true, if_neg hne.symm]
      omega
    · refine ⟨{}, rfl, ?_⟩
      rw [hlabel, hlabel']
      exact fun h => hij (h.2 rfl)

end SimNetwork

open SimNetwork

/-- In every state of the network a partition is exact and atomic for these groups and no others: they name all nodes and nothing else,
and no node is in two of them; or they do not name all nodes, or something else, and name no node at all, or there are not two nodes. -/
theorem setPartition_exact_iff (nodeIds : List NodeId) (groups : List (Finset NodeId)) :
    (∀ net, PartitionExact net nodeIds groups) ↔ (NamesAll nodeIds groups ∧ groups.Pairwise Disjoint) ∨
      (¬NamesAll nodeIds groups ∧ ((∀ g ∈ groups, ∀ n ∈ nodeIds, n ∉ g) ∨ ∀ a ∈ nodeIds, ∀ b ∈ nodeIds, a = b)) := by
  by_cases hnames : NamesAll nodeIds groups
  · rw [and_iff_right hnames, or_iff_left (fun h => h.1 hnames)]
    exact ⟨fun h => (partitionExact_iff.1 (h {})).1 hnames, fun h net => partitionExact_iff.2 ⟨fun _ => h, fun hn => absurd hnames hn⟩⟩
  rw [or_iff_right (fun h => hnames h.1), and_iff_right hnames]
  constructor
  · intro h
    by_contra hnot
    obtain ⟨hnamed, htwo⟩ := not_or.1 hnot
    push Not at hnamed htwo
    obtain ⟨g, hg, n, hn, hng⟩ := hnamed
    obtain ⟨m, hm, hne⟩ : ∃ m ∈ nodeIds, m ≠ n := by
      obtain ⟨a, ha, b, hb, hab⟩ := htwo
      by_cases han : a = n
      · exact ⟨b, hb, fun hbn => hab (han.trans hbn.symm)⟩
      · exact ⟨a, ha, han⟩
    obtain ⟨net, hlinks, hmoved⟩ := exists_moved hg hng hne
    exact hmoved ((partitionExact_iff.1 (h net)).2 hnames n hn m hm (by simp [hlinks]))
  · intro h net
    refine partitionExact_iff.2 ⟨fun hn => absurd hn hnames, fun _ a ha b hb _ => ?_⟩
    rcases h with hnone | hone
    · rw [label_of_not_named net fun g hg => hnone g hg a ha, label_of_not_named net fun g hg => hnone g hg b hb]
    · rw [hone a ha b hb]
      exact iff_of_true rfl rfl

/-- A node in two groups is accepted, and does not reach the others of the first one; a list without node 2 is refused, and separates the
other two nodes. -/
theorem setPartition_not_exact : ¬PartitionExact {} [0, 1, 2] [{0, 1}, {1, 2}] ∧ ¬PartitionExact {} [0, 1, 2] [{0}, {1}] := by
  constructor
  · intro h
    have hnone : (({} : SimNetwork).setPartition [0, 1, 2] [{0, 1}, {1, 2}]).2 = none := by decide
    have hreach := (h.separates hnone 0 (by decide) 1 (by decide) (by decide)).2 ⟨{0, 1}, by decide, by decide, by decide⟩
    exact absurd hreach (by decide)
  · intro h
    have herror : (({} : SimNetwork).setPartition [0, 1, 2] [{0}, {1}]).2 ≠ none := by decide
    exact absurd (h.atomic herror 0 (by decide) 1 (by decide)) (by decide)

end DeterministicRaft
