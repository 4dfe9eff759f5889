import DeterministicRaft.Checker
import DeterministicRaft.Refinement

/-!
# What a check records

A check goes over the nodes twice, for what they have committed and for what they have applied. Both loops are the same: above the
mark of the last check, each index is looked up in a book, and is entered there or compared.
-/

namespace DeterministicRaft

open Refinement

/-! ## Books -/

/-- What was recorded stays recorded. -/
def Extends {α : Type} (d d' : Dict Int α) : Prop := ∀ idx x, d.lookup idx = some x → d'.lookup idx = some x

namespace Extends

variable {α : Type} {d d' d'' : Dict Int α}

/-- A book as it is. -/
theorem refl (d : Dict Int α) : Extends d d := fun _ _ h => h

/-- A book that grows twice. -/
theorem trans (h : Extends d d') (h' : Extends d' d'') : Extends d d'' := fun idx x hx => h' idx x (h idx x hx)

/-- A new record. -/
theorem insert {idx : Int} (h : d.lookup idx = none) (x : α) : Extends d (d.insert idx x) := by
  intro j y hy
  have hne : j ≠ idx := by
    rintro rfl
    rw [h] at hy
    cases hy
  exact (Finmap.lookup_insert_of_ne _ hne).trans hy

end Extends

/-- The indices of a list have been recorded, each with what `P` says, and nothing else. -/
structure Records {α : Type} (P : Int → α → Prop) (l : List Int) (d d' : Dict Int α) : Prop where
  grows : Extends d d'
  new : ∀ idx ∈ l, ∃ x, d'.lookup idx = some x ∧ P idx x
  only : ∀ idx x, d'.lookup idx = some x → d.lookup idx = some x ∨ idx ∈ l

namespace Records

variable {α : Type} {P : Int → α → Prop} {d d' d'' : Dict Int α} {idx : Int} {l l' : List Int} {x : α}

/-- No index is read. -/
theorem nil (d : Dict Int α) : Records P [] d d := ⟨.refl d, by simp, fun _ _ h => Or.inl h⟩

/-- The index is in the book. -/
theorem known (h : d.lookup idx = some x) (hx : P idx x) : Records P [idx] d d := by
  refine ⟨.refl d, fun j hj => ?_, fun _ _ h => Or.inl h⟩
  rw [List.mem_singleton.1 hj]
  exact ⟨x, h, hx⟩

/-- The index is new. -/
theorem fresh (h : d.lookup idx = none) (hx : P idx x) : Records P [idx] d (d.insert idx x) := by
  refine ⟨.insert h x, fun j hj => ?_, fun j y hy => ?_⟩
  · rw [List.mem_singleton.1 hj]
    exact ⟨x, Finmap.lookup_insert _, hx⟩
  · by_cases hj : j = idx
    · exact Or.inr (List.mem_singleton.2 hj)
    · exact Or.inl ((Finmap.lookup_insert_of_ne _ hj).symm.trans hy)

/-- Indices one after the other. -/
theorem append (h : Records P l d d') (h' : Records P l' d' d'') : Records P (l ++ l') d d'' := by
  refine ⟨h.grows.trans h'.grows, fun j hj => ?_, fun j y hy => ?_⟩
  · rcases List.mem_append.1 hj with hj | hj
    · obtain ⟨y, hy, hP⟩ := h.new j hj
      exact ⟨y, h'.grows j y hy, hP⟩
    · exact h'.new j hj
  · rcases h'.only j y hy with hy | hj
    · exact (h.only j y hy).imp id (List.mem_append_left _)
    · exact Or.inr (List.mem_append_right _ hj)

end Records

/-- The book covers the indices from 1 to `C`, and no node's mark is above them. -/
structure Covers {α : Type} (book : Dict Int α) (marks : Dict NodeId Int) (C : Int) : Prop where
  recorded : ∀ idx, (∃ x, book.lookup idx = some x) ↔ 1 ≤ idx ∧ idx ≤ C
  marks : ∀ i, marks.getD i 0 ≤ C

/-- The book has been continued up to `C'`: with what `P` says. -/
structure Continues {α : Type} (P : Int → α → Prop) (book book' : Dict Int α) (C C' : Int) : Prop where
  le : C ≤ C'
  grows : Extends book book'
  new : ∀ idx, C < idx → idx ≤ C' → ∃ x, book'.lookup idx = some x ∧ P idx x

namespace Continues

variable {α : Type} {P : Int → α → Prop} {book mid book' : Dict Int α} {C D C' : Int}

/-- Nothing is committed. -/
theorem refl (book : Dict Int α) (C : Int) : Continues P book book C C :=
  ⟨le_rfl, .refl book, fun _ h1 h2 => absurd h2 (not_le.2 h1)⟩

/-- Commits up to one index, and then up to another. -/
theorem trans (h : Continues P book mid C D) (h' : Continues P mid book' D C') : Continues P book book' C C' := by
  refine ⟨h.le.trans h'.le, h.grows.trans h'.grows, fun idx h1 h2 => ?_⟩
  by_cases hle : idx ≤ D
  · obtain ⟨x, hx, hP⟩ := h.new idx h1 hle
    exact ⟨x, h'.grows idx x hx, hP⟩
  · exact h'.new idx (not_le.1 hle) h2

/-- The records are of a wider kind. -/
theorem mono {Q : Int → α → Prop} (h : Continues P book book' C C') (hPQ : ∀ idx x, P idx x → Q idx x) :
    Continues Q book book' C C' := by
  refine ⟨h.le, h.grows, fun idx h1 h2 => ?_⟩
  obtain ⟨x, hx, hP⟩ := h.new idx h1 h2
  exact ⟨x, hx, hPQ idx x hP⟩

end Continues

/-- A bound on a table of indices, after one of them is set. -/
theorem Dict.getD_insert_le {d : Dict NodeId Int} {i j : NodeId} {a C : Int} (ha : a ≤ C) (hd : d.getD j 0 ≤ C) :
    Dict.getD (Finmap.insert i a d) j 0 ≤ C := by
  by_cases hj : j = i
  · subst hj
    rw [Dict.getD, Finmap.lookup_insert]
    exact ha
  · rw [Dict.getD, Finmap.lookup_insert_of_ne _ hj]
    exact hd

/-- What is recorded of one node: what can be read at the indices from its base to `top`. -/
def Read {α : Type} (base top : Int) (Q : Int → α → Prop) (idx : Int) (x : α) : Prop := base < idx ∧ idx ≤ top ∧ Q idx x

/-- One node's turn: the indices above its mark and its base are recorded up to `top`. -/
theorem Covers.turn {α : Type} {Q : Int → α → Prop} {book book' : Dict Int α} {marks : Dict NodeId Int} {C base top mark : Int}
    (h : Covers book marks C) (i : NodeId) (hmark : mark ≤ max C top) (h0 : 0 ≤ base) (hb : base ≤ C)
    (hr : Records Q (pyRange (max (marks.getD i 0) base + 1) (top + 1)) book book') :
    Covers book' (marks.insert i mark) (max C top) ∧ Continues (Read base top Q) book book' C (max C top) := by
  have hprev := h.marks i
  have hnew : ∀ idx, C < idx → idx ≤ max C top → ∃ x, book'.lookup idx = some x ∧ Read base top Q idx x := by
    intro idx h1 h2
    obtain ⟨x, hx, hQ⟩ := hr.new idx (by rw [mem_pyRange]; omega)
    exact ⟨x, hx, by omega, by omega, hQ⟩
  refine ⟨⟨fun idx => ⟨?_, ?_⟩, fun j => ?_⟩, le_max_left _ _, hr.grows, hnew⟩
  · rintro ⟨x, hx⟩
    rcases hr.only idx x hx with hold | hmem
    · have := (h.recorded idx).1 ⟨x, hold⟩
      omega
    · rw [mem_pyRange] at hmem
      omega
  · rintro ⟨h1, h2⟩
    by_cases hle : idx ≤ C
    · obtain ⟨x, hx⟩ := (h.recorded idx).2 ⟨h1, hle⟩
      exact ⟨x, hr.grows idx x hx⟩
    · obtain ⟨x, hx, -⟩ := hnew idx (not_le.1 hle) h2
      exact ⟨x, hx⟩
  · exact Dict.getD_insert_le hmark ((h.marks j).trans (le_max_left _ _))

/-! ## The two loops -/

/-- What a reading gives is what was read. -/
theorem Ensures.readings {α : Type} {x : Except PyError α} : Ensures (InvariantChecker.reading x) fun a => x = .ok a := by
  intro a h
  cases x with
  | error e => cases h
  | ok b =>
    cases h
    rfl

namespace InvariantChecker

variable {nodes : ClusterView} {step : Int} {C D : Int}

/-- A loop whose turns record one index each records them all. -/
theorem loop_records {α β : Type} {book : InvariantChecker → Dict Int α} {rest : InvariantChecker → β} {Q : Int → α → Prop}
    {f : InvariantChecker → Int → Except CheckError InvariantChecker}
    (hf : ∀ c idx, Ensures (f c idx) fun c' => rest c' = rest c ∧ Records Q [idx] (book c) (book c'))
    (c : InvariantChecker) (l : List Int) :
    Ensures (l.foldlM f c) fun c' => rest c' = rest c ∧ Records Q l (book c) (book c') := by
  induction l generalizing c with
  | nil => exact Ensures.pure ⟨rfl, .nil _⟩
  | cons idx l ih =>
    rw [List.foldlM_cons]
    refine Ensures.bind (hf c idx) fun mid hm => (ih mid).mono fun after ha => ⟨ha.1.trans hm.1, ?_⟩
    exact hm.2.append ha.2

section

variable {α β : Type} {book : InvariantChecker → Dict Int α} {marks : InvariantChecker → Dict NodeId Int}
  {rest : InvariantChecker → β} {base top : NodeId → Int} {Q : NodeId → Int → α → Prop}
  {f : InvariantChecker → NodeId → Except CheckError InvariantChecker}

/-- The loop over the nodes continues the book, up to an index that is at least that of each of them. -/
theorem rounds_reach (hf : ∀ c i C, Covers (book c) (marks c) C → 0 ≤ base i → base i ≤ C → Ensures (f c i) fun c' =>
      rest c' = rest c ∧ Covers (book c') (marks c') (max C (top i)) ∧
      Continues (Read (base i) (top i) (Q i)) (book c) (book c') C (max C (top i)))
    {c : InvariantChecker} (hc : Covers (book c) (marks c) C) (hCD : C ≤ D) (ids : List NodeId)
    (hv : ∀ i ∈ ids, 0 ≤ base i ∧ base i ≤ C ∧ top i ≤ D) :
    Ensures (ids.foldlM f c) fun c' => rest c' = rest c ∧ ∃ C' ≤ D, (∀ i ∈ ids, top i ≤ C') ∧ Covers (book c') (marks c') C' ∧
      Continues (fun idx x => ∃ i ∈ ids, Read (base i) (top i) (Q i) idx x) (book c) (book c') C C' := by
  induction ids generalizing c C with
  | nil => exact Ensures.pure ⟨rfl, C, hCD, by simp, hc, .refl _ C⟩
  | cons i ids ih =>
    obtain ⟨h0, hb, ht⟩ := hv i List.mem_cons_self
    rw [List.foldlM_cons]
    refine Ensures.bind (hf c i C hc h0 hb) fun mid hm => ?_
    obtain ⟨hrest, hcov, hcont⟩ := hm
    refine (ih hcov (max_le hCD ht) fun j hj => ?_).mono ?_
    · obtain ⟨h1, h2, h3⟩ := hv j (List.mem_cons_of_mem _ hj)
      exact ⟨h1, h2.trans (le_max_left _ _), h3⟩
    · rintro after ⟨hrest', C', hD, htop, hcov', hcont'⟩
      refine ⟨hrest'.trans hrest, C', hD, fun j hj => ?_, hcov', ?_⟩
      · rcases List.mem_cons.1 hj with rfl | hj
        · exact (le_max_right _ _).trans hcont'.le
        · exact htop j hj
      · refine (hcont.mono fun idx x hr => ⟨i, List.mem_cons_self, hr⟩).trans (hcont'.mono ?_)
        rintro idx x ⟨j, hj, hr⟩
        exact ⟨j, List.mem_cons_of_mem _ hj, hr⟩

/-- The loop over the nodes continues the book up to the highest index of them. -/
theorem rounds (hf : ∀ c i C, Covers (book c) (marks c) C → 0 ≤ base i → base i ≤ C → Ensures (f c i) fun c' =>
      rest c' = rest c ∧ Covers (book c') (marks c') (max C (top i)) ∧
      Continues (Read (base i) (top i) (Q i)) (book c) (book c') C (max C (top i)))
    {c : InvariantChecker} (hc : Covers (book c) (marks c) C) (hCD : C ≤ D) (ids : List NodeId)
    (hv : ∀ i ∈ ids, 0 ≤ base i ∧ base i ≤ C ∧ top i ≤ D) (hD : D = C ∨ ∃ i ∈ ids, top i = D) :
    Ensures (ids.foldlM f c) fun c' => rest c' = rest c ∧ Covers (book c') (marks c') D ∧
      Continues (fun idx x => ∃ i ∈ ids, Read (base i) (top i) (Q i) idx x) (book c) (book c') C D := by
  refine (rounds_reach hf hc hCD ids hv).mono ?_
  rintro after ⟨hrest, C', hle, htop, hcov, hcont⟩
  have heq : C' = D := by
    refine le_antisymm hle ?_
    rcases hD with rfl | ⟨i, hi, rfl⟩
    · exact hcont.le
    · exact htop i hi
  subst heq
  exact ⟨hrest, hcov, hcont⟩

end

/-! ### Commits -/

/-- What a commit's record says of the committing node. -/
def Held (n : NodeView) (idx : Int) (x : Entry × Int) : Prop := n.entryAt idx = .ok x.1

/-- A commit that is recorded is the node's entry. -/
theorem recordCommit_records (c : InvariantChecker) {n : NodeView} {idx : Int} {e : Entry} (h : n.entryAt idx = .ok e) :
    Ensures (c.recordCommit step n idx e) fun c' =>
      (c'.appliedAt, c'.appliedSeen, c'.incarnation, c'.prevCommit) = (c.appliedAt, c.appliedSeen, c.incarnation, c.prevCommit) ∧
      Records (Held n) [idx] c.committed c'.committed := by
  unfold recordCommit
  cases hk : c.committed.lookup idx with
  | none => exact Ensures.pure ⟨rfl, .fresh hk h⟩
  | some known =>
    simp only
    split
    · exact nofun
    · rename_i he
      refine Ensures.pure ⟨rfl, .known hk ?_⟩
      rw [Held, not_not.1 he]
      exact h

/-- A majority is looked for and nothing is noted. -/
theorem checkQuorum_same (c : InvariantChecker) (n : NodeView) (idx : Int) (e : Entry) :
    Ensures (c.checkQuorum nodes step n idx e) fun c' => c' = c := by
  unfold checkQuorum
  split
  · refine Ensures.bind (Ensures.trivial _) fun holders _ => ?_
    split
    · exact nofun
    · exact Ensures.pure rfl
  · exact Ensures.pure rfl

/-- A commit that is observed is the node's entry. -/
theorem observeCommit_records (n : NodeView) (c : InvariantChecker) (idx : Int) :
    Ensures (c.observeCommit nodes step n idx) fun c' =>
      (c'.appliedAt, c'.appliedSeen, c'.incarnation, c'.prevCommit) = (c.appliedAt, c.appliedSeen, c.incarnation, c.prevCommit) ∧
      Records (Held n) [idx] c.committed c'.committed := by
  unfold observeCommit
  refine Ensures.bind Ensures.readings fun e he => ?_
  refine Ensures.bind (recordCommit_records c he) fun mid hm => (checkQuorum_same mid n idx e).mono ?_
  rintro after rfl
  exact hm

/-- The commits of a node are recorded, up to its commit index. -/
theorem observeNode_continues (c : InvariantChecker) (i : NodeId) (C : Int) (hc : Covers c.committed c.prevCommit C)
    (h0 : 0 ≤ (nodes.node i).baseIndex) (hb : (nodes.node i).baseIndex ≤ C) :
    Ensures (c.observeNode nodes step i) fun c' =>
      (c'.appliedAt, c'.appliedSeen, c'.incarnation) = (c.appliedAt, c.appliedSeen, c.incarnation) ∧
      Covers c'.committed c'.prevCommit (max C (nodes.node i).commitIndex) ∧
      Continues (Read (nodes.node i).baseIndex (nodes.node i).commitIndex (Held (nodes.node i))) c.committed c'.committed C
        (max C (nodes.node i).commitIndex) := by
  unfold observeNode
  simp only
  split
  · exact nofun
  · refine Ensures.bind (loop_records (observeCommit_records (nodes.node i)) c _) fun mid hm => Ensures.pure ?_
    simp only [Prod.mk.injEq] at hm ⊢
    obtain ⟨⟨h1, h2, h3, h4⟩, hrec⟩ := hm
    rw [h4]
    exact ⟨⟨h1, h2, h3⟩, hc.turn i (le_max_right _ _) h0 hb hrec⟩

/-! ### Applied commands -/

/-- What is recorded of an applied command. -/
def Ran (n : NodeView) (idx : Int) (x : String) : Prop := pyIndex n.applied (idx - n.baseIndex - 1) = .ok x

/-- A command that is observed is the node's. -/
theorem observeApplied_records (n : NodeView) (c : InvariantChecker) (idx : Int) :
    Ensures (c.observeApplied step n idx) fun c' =>
      (c'.committed, c'.prevCommit, c'.incarnation, c'.appliedSeen) = (c.committed, c.prevCommit, c.incarnation, c.appliedSeen) ∧
      Records (Ran n) [idx] c.appliedAt c'.appliedAt := by
  unfold observeApplied
  refine Ensures.bind Ensures.readings fun cmd hcmd => ?_
  cases hk : c.appliedAt.lookup idx with
  | none => exact Ensures.pure ⟨rfl, .fresh hk hcmd⟩
  | some known =>
    simp only
    split
    · exact nofun
    · rename_i he
      refine Ensures.pure ⟨rfl, .known hk ?_⟩
      rw [not_not.1 he]
      exact hcmd

/-- The commands of a node are recorded, up to what it has applied. -/
theorem checkApplied_continues (c : InvariantChecker) (i : NodeId) (C : Int) (hc : Covers c.appliedAt c.appliedSeen C)
    (h0 : 0 ≤ (nodes.node i).baseIndex) (hb : (nodes.node i).baseIndex ≤ C) :
    Ensures (c.checkApplied nodes step i) fun c' =>
      (c'.committed, c'.prevCommit, c'.incarnation) = (c.committed, c.prevCommit, c.incarnation) ∧
      Covers c'.appliedAt c'.appliedSeen (max C ((nodes.node i).baseIndex + (nodes.node i).applied.length)) ∧
      Continues (Read (nodes.node i).baseIndex ((nodes.node i).baseIndex + (nodes.node i).applied.length) (Ran (nodes.node i)))
        c.appliedAt c'.appliedAt C (max C ((nodes.node i).baseIndex + (nodes.node i).applied.length)) := by
  have hseen := hc.marks i
  unfold checkApplied
  simp only
  refine Ensures.bind (loop_records (observeApplied_records (nodes.node i)) c _) fun mid hm => Ensures.pure ?_
  simp only [Prod.mk.injEq] at hm ⊢
  obtain ⟨⟨h1, h2, h3, h4⟩, hrec⟩ := hm
  rw [h4]
  exact ⟨⟨h1, h2, h3⟩, hc.turn i (by omega) h0 hb hrec⟩

/-! ### The rest of the check -/

/-- The books and the marks. -/
def books (c : InvariantChecker) :
    Dict Int (Entry × Int) × Dict NodeId Int × Dict Int String × Dict NodeId Int × Dict NodeId Int :=
  (c.committed, c.prevCommit, c.appliedAt, c.appliedSeen, c.incarnation)

/-- What leaves the books alone for one item does so for many. -/
theorem loop_books {ι : Type} {f : InvariantChecker → ι → Except CheckError InvariantChecker}
    (hf : ∀ c i, Ensures (f c i) fun c' => c'.books = c.books) (c : InvariantChecker) (l : List ι) :
    Ensures (l.foldlM f c) fun c' => c'.books = c.books :=
  Ensures.foldlM (Q := fun c' => c'.books = c.books) (fun b i hb => (hf b i).mono fun _ h => h.trans hb) rfl

/-- Leaders are not in the books. -/
theorem checkLeader_books (c : InvariantChecker) (i : NodeId) :
    Ensures (c.checkLeader nodes step i) fun c' => c'.books = c.books := by
  unfold checkLeader
  simp only
  split
  · split
    · exact Ensures.pure rfl
    · split
      · exact nofun
      · exact Ensures.pure rfl
  · exact Ensures.pure rfl

/-- Nor are the leaders' logs. -/
theorem checkAppendOnly_books (c : InvariantChecker) (i : NodeId) :
    Ensures (c.checkAppendOnly nodes step i) fun c' => c'.books = c.books := by
  unfold checkAppendOnly
  simp only
  split
  · exact Ensures.pure rfl
  · split
    · exact Ensures.pure rfl
    · split
      · exact Ensures.pure rfl
      · split
        · exact Ensures.pure rfl
        · unfold compareLeader
          refine Ensures.bind (Ensures.trivial _) fun bad _ => ?_
          split
          · exact nofun
          · exact Ensures.pure rfl

/-- Nor are the comparisons of logs. -/
theorem checkPair_books (c : InvariantChecker) (ids : NodeId × NodeId) :
    Ensures (c.checkPair nodes step ids) fun c' => c'.books = c.books := by
  unfold checkPair
  simp only
  split
  · exact Ensures.pure rfl
  · unfold comparePair
    refine Ensures.bind (Ensures.trivial _) fun found _ => ?_
    split
    · exact nofun
    · exact Ensures.pure rfl

/-- Nor are the scans of leaders. -/
theorem checkCompleteness_books (c : InvariantChecker) (i : NodeId) :
    Ensures (c.checkCompleteness nodes step i) fun c' => c'.books = c.books := by
  unfold checkCompleteness
  simp only
  split
  · exact Ensures.pure rfl
  · split
    · exact Ensures.pure rfl
    · unfold scanLeader
      refine Ensures.bind (Ensures.trivial _) fun found _ => ?_
      split
      · exact nofun
      · exact Ensures.pure rfl

/-! ### The check -/

/-- The books cover the same indices, and at each index the applied command is that of the committed entry. -/
structure Books (C : Int) (c : InvariantChecker) : Prop where
  commits : Covers c.committed c.prevCommit C
  applies : Covers c.appliedAt c.appliedSeen C
  same : ∀ idx x cmd, c.committed.lookup idx = some x → c.appliedAt.lookup idx = some cmd → cmd = x.1.command

/-- What a check may be shown: the nodes' commits end at `D`, and above `C` there are only those of a node `n` that was not restarted
since the last check, and it has applied the entries of its log there. -/
structure Viewable (nodes : ClusterView) (c : InvariantChecker) (C D : Int) (n : NodeId) : Prop where
  counts : ∀ i ∈ nodes.ids, 0 ≤ (nodes.node i).baseIndex ∧ (nodes.node i).baseIndex ≤ C ∧ (nodes.node i).commitIndex ≤ D ∧
    (nodes.node i).baseIndex + (nodes.node i).applied.length = (nodes.node i).commitIndex
  le : C ≤ D
  reached : D = C ∨ ∃ i ∈ nodes.ids, (nodes.node i).commitIndex = D
  alone : ∀ i ∈ nodes.ids, C < (nodes.node i).commitIndex → i = n ∧
    (c.incarnation.lookup i = none ∨ c.incarnation.lookup i = some (nodes.node i).incarnation)
  runs : ∀ idx x, C < idx → Read (nodes.node n).baseIndex (nodes.node n).commitIndex (Held (nodes.node n)) idx x →
    Ran (nodes.node n) idx x.1.command

/-- A node that has restarted begins its commits anew. -/
theorem handleRestart_books {c : InvariantChecker} (hc : c.Books C) (i : NodeId)
    (hi : C < (nodes.node i).commitIndex →
      c.incarnation.lookup i = none ∨ c.incarnation.lookup i = some (nodes.node i).incarnation)
    (hcount : (nodes.node i).baseIndex + (nodes.node i).applied.length = (nodes.node i).commitIndex) :
    (c.handleRestart nodes i).Books C ∧ (c.handleRestart nodes i).committed = c.committed ∧
    (c.handleRestart nodes i).appliedAt = c.appliedAt ∧
    (c.handleRestart nodes i).incarnation = c.incarnation.insert i (nodes.node i).incarnation := by
  unfold handleRestart
  simp only
  split
  · rename_i hre
    have hle : (nodes.node i).commitIndex ≤ C := by
      by_contra hlt
      exact (hi (not_le.1 hlt)).elim hre.1 hre.2
    refine ⟨⟨⟨hc.commits.recorded, fun j => Dict.getD_insert_le hle (hc.commits.marks j)⟩,
      ⟨hc.applies.recorded, fun j => Dict.getD_insert_le (by omega) (hc.applies.marks j)⟩, hc.same⟩, rfl, rfl, rfl⟩
  · exact ⟨⟨hc.commits, hc.applies, hc.same⟩, rfl, rfl, rfl⟩

/-- A restarted node's marks go back to its base, which has been recorded. -/
theorem handleRestarts_books {c : InvariantChecker} (hc : c.Books C)
    (hi : ∀ i ∈ nodes.ids, C < (nodes.node i).commitIndex →
      c.incarnation.lookup i = none ∨ c.incarnation.lookup i = some (nodes.node i).incarnation)
    (hcount : ∀ i ∈ nodes.ids, (nodes.node i).baseIndex + (nodes.node i).applied.length = (nodes.node i).commitIndex) :
    (c.handleRestarts nodes).Books C ∧ (c.handleRestarts nodes).committed = c.committed ∧
    (c.handleRestarts nodes).appliedAt = c.appliedAt ∧
    ∀ j, (c.handleRestarts nodes).incarnation.lookup j =
      if j ∈ nodes.ids then some (nodes.node j).incarnation else c.incarnation.lookup j := by
  unfold handleRestarts
  generalize nodes.ids = ids at hi hcount
  induction ids generalizing c with
  | nil => exact ⟨hc, rfl, rfl, by simp⟩
  | cons i ids ih =>
    obtain ⟨h1, h2, h3, h4⟩ := handleRestart_books hc i (hi i List.mem_cons_self) (hcount i List.mem_cons_self)
    have hlook : ∀ j, (c.handleRestart nodes i).incarnation.lookup j =
        if j = i then some (nodes.node i).incarnation else c.incarnation.lookup j := by
      intro j
      rw [h4]
      split
      · rename_i hj
        rw [hj, Finmap.lookup_insert]
      · rename_i hj
        rw [Finmap.lookup_insert_of_ne _ hj]
    have hrest : ∀ j ∈ ids, C < (nodes.node j).commitIndex → (c.handleRestart nodes i).incarnation.lookup j = none ∨
        (c.handleRestart nodes i).incarnation.lookup j = some (nodes.node j).incarnation := by
      intro j hj hlt
      rw [hlook j]
      split
      · rename_i hji
        rw [hji]
        exact Or.inr rfl
      · exact hi j (List.mem_cons_of_mem _ hj) hlt
    obtain ⟨g1, g2, g3, g4⟩ := ih h1 hrest fun j hj => hcount j (List.mem_cons_of_mem _ hj)
    refine ⟨g1, g2.trans h2, g3.trans h3, fun j => ?_⟩
    rw [List.foldl_cons, g4 j, hlook j]
    by_cases hj : j = i
    · subst hj
      simp
    · simp [hj]

/-- A check of what it may be shown records the new commits, and the commands applied there. What is new comes from the one node that has
committed. -/
theorem check_books {c : InvariantChecker} {n : NodeId} (hc : c.Books C) (hf : Viewable nodes c C D n) (count : Bool) :
    Ensures (c.check nodes step count) fun c' => c'.Books D ∧
      Continues (fun idx x => n ∈ nodes.ids ∧ Read (nodes.node n).baseIndex (nodes.node n).commitIndex (Held (nodes.node n)) idx x)
        c.committed c'.committed C D ∧
      ∀ i ∈ nodes.ids, c'.incarnation.lookup i = some (nodes.node i).incarnation := by
  unfold check
  simp only
  generalize hk : (if count = true then { c with checksRun := c.checksRun + 1 } else c) = c₀
  have h₀ : c₀.books = c.books := by
    rw [← hk]
    split <;> rfl
  simp only [books, Prod.mk.injEq] at h₀
  obtain ⟨e1, e2, e3, e4, e5⟩ := h₀
  have hb₀ : c₀.Books C := ⟨by rw [e1, e2]; exact hc.commits, by rw [e3, e4]; exact hc.applies, by rw [e1, e3]; exact hc.same⟩
  obtain ⟨hb, r1, r2, r3⟩ := handleRestarts_books hb₀ (fun i hi hlt => e5 ▸ (hf.alone i hi hlt).2)
    fun i hi => (hf.counts i hi).2.2.2
  refine Ensures.bind (loop_books checkLeader_books _ _) fun c₁ h₁ => ?_
  refine Ensures.bind (loop_books checkAppendOnly_books _ _) fun c₂ h₂ => ?_
  refine Ensures.bind (loop_books checkPair_books _ _) fun c₃ h₃ => ?_
  have h := h₃.trans (h₂.trans h₁)
  simp only [books, Prod.mk.injEq] at h
  obtain ⟨f1, f2, f3, f4, f5⟩ := h
  have hv : ∀ i ∈ nodes.ids, 0 ≤ (nodes.node i).baseIndex ∧ (nodes.node i).baseIndex ≤ C ∧ (nodes.node i).commitIndex ≤ D :=
    fun i hi => ⟨(hf.counts i hi).1, (hf.counts i hi).2.1, (hf.counts i hi).2.2.1⟩
  refine Ensures.bind (rounds observeNode_continues (by rw [f1, f2]; exact hb.commits) hf.le nodes.ids hv hf.reached) fun c₄ h₄ => ?_
  refine Ensures.bind (loop_books checkCompleteness_books _ _) fun c₅ h₅ => ?_
  simp only [books, Prod.mk.injEq] at h₄ h₅
  obtain ⟨⟨g1, g2, g3⟩, hcov, hcont⟩ := h₄
  obtain ⟨k1, k2, k3, k4, k5⟩ := h₅
  refine (rounds checkApplied_continues (by rw [k3, k4, g1, g2, f3, f4]; exact hb.applies) hf.le nodes.ids
    (fun i hi => ⟨(hv i hi).1, (hv i hi).2.1, (hf.counts i hi).2.2.2.trans_le (hv i hi).2.2⟩)
    (hf.reached.imp id fun ⟨i, hi, h⟩ => ⟨i, hi, (hf.counts i hi).2.2.2.trans h⟩)).mono ?_
  intro c' h'
  simp only [Prod.mk.injEq] at h'
  obtain ⟨⟨l1, l2, l3⟩, hcov', hcont'⟩ := h'
  have hone : ∀ idx, C < idx → ∀ {α : Type} {x : α} {Q : NodeId → Int → α → Prop} {top : NodeId → Int},
      (∀ i ∈ nodes.ids, top i = (nodes.node i).commitIndex) →
      (∃ i ∈ nodes.ids, Read (nodes.node i).baseIndex (top i) (Q i) idx x) →
      n ∈ nodes.ids ∧ Read (nodes.node n).baseIndex (nodes.node n).commitIndex (Q n) idx x := by
    rintro idx hlt α x Q top htop ⟨i, hi, hr⟩
    have hin := (hf.alone i hi (hlt.trans_le (htop i hi ▸ hr.2.1))).1
    subst hin
    exact ⟨hi, htop i hi ▸ hr⟩
  have hcom : c'.committed = c₄.committed := l1.trans k1
  have hold : c₃.committed = c.committed := f1.trans (r1.trans e1)
  have holda : c₅.appliedAt = c.appliedAt := k3.trans (g1.trans (f3.trans (r2.trans e3)))
  rw [hold] at hcont
  rw [holda] at hcont'
  refine ⟨⟨?_, hcov', ?_⟩, ?_, ?_⟩
  · rw [hcom, l2, k2]
    exact hcov
  · intro idx x cmd hx hcmd
    rw [hcom] at hx
    by_cases hle : idx ≤ C
    · obtain ⟨y, hy⟩ := (hc.commits.recorded idx).2 ⟨((hcov.recorded idx).1 ⟨x, hx⟩).1, hle⟩
      obtain ⟨z, hz⟩ := (hc.applies.recorded idx).2 ((hc.commits.recorded idx).1 ⟨y, hy⟩)
      have hxy := Option.some.inj ((hcont.grows idx y hy).symm.trans hx)
      have hcz := Option.some.inj ((hcont'.grows idx z hz).symm.trans hcmd)
      rw [← hxy, ← hcz]
      exact hc.same idx y z hy hz
    · have hD := ((hcov.recorded idx).1 ⟨x, hx⟩).2
      obtain ⟨y, hy, hr⟩ := hcont.new idx (not_le.1 hle) hD
      obtain ⟨z, hz, hr'⟩ := hcont'.new idx (not_le.1 hle) hD
      have hxy := Option.some.inj (hy.symm.trans hx)
      have hcz := Option.some.inj (hz.symm.trans hcmd)
      have hheld := (hone idx (not_le.1 hle) (fun _ _ => rfl) hr).2
      have hran := (hone idx (not_le.1 hle) (fun i hi => (hf.counts i hi).2.2.2) hr').2.2.2
      rw [← hxy, ← hcz]
      exact Except.ok.inj (hran.symm.trans (hf.runs idx y (not_le.1 hle) hheld))
  · rw [hcom]
    refine ⟨hcont.le, hcont.grows, fun idx h1 h2 => ?_⟩
    obtain ⟨x, hx, hr⟩ := hcont.new idx h1 h2
    exact ⟨x, hx, hone idx h1 (fun _ _ => rfl) hr⟩
  · intro i hi
    rw [l3, k5, g3, f5, r3 i, if_pos hi]

end InvariantChecker

end DeterministicRaft
