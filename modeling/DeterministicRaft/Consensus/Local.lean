import DeterministicRaft.Consensus.Preserve
import DeterministicRaft.Refinement

/-!
# Steps at one node

An operation of an implementation runs on one node. First the node may yield to a later term, then it may act in the term it is
in: `yieldsAt` and `actsAt` are the runs of the protocol in which only one node's own state changes, for each of the two. What a
leader has built changes only in an operation after which the leader leads still (`State.Settled`).
-/

namespace Consensus

variable {ν ε γ : Type*}

open State

/-- The nodes other than `n` are as they were, and any new commit is one of `n` as a leader. -/
structure State.SameBut (n : ν) (s s' : State ν ε) : Prop where
  term : ∀ m, m ≠ n → s'.term m = s.term m
  vote : ∀ m, m ≠ n → s'.vote m = s.vote m
  role : ∀ m, m ≠ n → s'.role m = s.role m
  log : ∀ m, m ≠ n → s'.log m = s.log m
  commit : ∀ m, m ≠ n → s'.commit m = s.commit m
  leader : ∀ t, s.leader t = some n → s'.leader t = some n
  committed : ∀ t c Y, s'.committed t c Y → s.committed t c Y ∨ s'.leader t = some n

/-- A state and itself. -/
theorem State.SameBut.refl (n : ν) (s : State ν ε) : s.SameBut n s :=
  ⟨fun _ _ => rfl, fun _ _ => rfl, fun _ _ => rfl, fun _ _ => rfl, fun _ _ => rfl, fun _ => id, fun _ _ _ => Or.inl⟩

/-- One step of a node after the other. -/
theorem State.SameBut.trans {n : ν} {s s' s'' : State ν ε} (h : s.SameBut n s') (h' : s'.SameBut n s'') :
    s.SameBut n s'' where
  term m hm := (h'.term m hm).trans (h.term m hm)
  vote m hm := (h'.vote m hm).trans (h.vote m hm)
  role m hm := (h'.role m hm).trans (h.role m hm)
  log m hm := (h'.log m hm).trans (h.log m hm)
  commit m hm := (h'.commit m hm).trans (h.commit m hm)
  leader t ht := h'.leader t (h.leader t ht)
  committed t c Y hc := by
    rcases h'.committed t c Y hc with h1 | h1
    · rcases h.committed t c Y h1 with h2 | h2
      · exact Or.inl h2
      · exact Or.inr (h'.leader t h2)
    · exact Or.inr h1

/-- A step that changes one node's own state only, and neither the leaders nor the commits. -/
theorem State.SameBut.of_own {n : ν} {s s' : State ν ε}
    (h : ∀ m, m ≠ n → s'.term m = s.term m ∧ s'.vote m = s.vote m ∧ s'.role m = s.role m ∧ s'.log m = s.log m ∧
      s'.commit m = s.commit m) (hl : s'.leader = s.leader) (hc : s'.committed = s.committed) : s.SameBut n s' where
  term m hm := (h m hm).1
  vote m hm := (h m hm).2.1
  role m hm := (h m hm).2.2.1
  log m hm := (h m hm).2.2.2.1
  commit m hm := (h m hm).2.2.2.2
  leader t ht := by rwa [hl]
  committed t c Y hY := Or.inl (by rwa [hc] at hY)

/-- The leaders, what they have built, and the logs are as they were. -/
def State.Still (s s' : State ν ε) : Prop := s'.leader = s.leader ∧ s'.llog = s.llog ∧ s'.log = s.log

/-- Where a term's leader, or what it has built, is new, that leader is `n`, and it leads still. -/
def State.Settled (n : ν) (s s' : State ν ε) : Prop :=
  ∀ t, (s'.leader t = s.leader t ∧ s'.llog t = s.llog t) ∨ (s'.role n = .leader ∧ s'.term n = t)

/-- The entries that a node holds, or that a leader has built. -/
def State.entries (s : State ν ε) : Set ε := {e | (∃ n, e ∈ s.log n) ∨ ∃ t, e ∈ s.llog t}

/-- Whatever is in a log of `s'` was in one of `s`, or is one of `A`. -/
def State.Draws (A : Set ε) (s s' : State ν ε) : Prop := s'.entries ⊆ s.entries ∪ A

/-- Nothing new is drawn. -/
theorem State.Draws.refl (A : Set ε) (s : State ν ε) : s.Draws A s := Set.subset_union_left

/-- What is drawn in two parts. -/
theorem State.Draws.trans {A : Set ε} {s s' s'' : State ν ε} (h : s.Draws A s') (h' : s'.Draws A s'') : s.Draws A s'' :=
  fun _ he => (h' he).elim (fun h1 => h h1) Or.inr

/-- The logs are as they were. -/
theorem State.Draws.of_eq (A : Set ε) {s s' : State ν ε} (hl : s'.log = s.log) (hll : s'.llog = s.llog) : s.Draws A s' := by
  intro e he
  unfold State.entries at he ⊢
  rw [hl, hll] at he
  exact Or.inl he

/-- A leader stays one in its term. -/
def State.Reigns (n : ν) (s s' : State ν ε) : Prop := s.role n = .leader → s'.role n = .leader ∧ s'.term n = s.term n

/-- A node that settles stays settled while it reigns. -/
theorem State.Settled.trans {n : ν} {s s' s'' : State ν ε} (h : s.Settled n s') (h' : s'.Settled n s'')
    (hr : s'.Reigns n s'') : s.Settled n s'' := by
  intro t
  rcases h' t with ⟨h1, h2⟩ | h1
  · rcases h t with ⟨h3, h4⟩ | ⟨h3, h4⟩
    · exact Or.inl ⟨h1.trans h3, h2.trans h4⟩
    · obtain ⟨h5, h6⟩ := hr h3
      exact Or.inr ⟨h5, h6.trans h4⟩
  · exact Or.inr h1

/-- Nothing about the leaders changes before what settles. -/
theorem State.Still.settled {n : ν} {s s' s'' : State ν ε} (h : s.Still s') (h' : s'.Settled n s'') : s.Settled n s'' := by
  intro t
  rw [← h.1, ← h.2.1]
  exact h' t

variable [DecidableEq ν]

/-- The runs of the protocol in which only `n` acts and, where it leads or comes to lead, goes on leading; what it appends is
of `A`. -/
def actsAt (S : Scheme ν ε γ) (n : ν) (A : Set ε) : Refinement.Moves (State ν ε) where
  rel s s' := Steps S s s' ∧ s.SameBut n s' ∧ s.Reigns n s' ∧ s.Settled n s' ∧ s.Draws A s'
  refl s := ⟨Steps.refl s, State.SameBut.refl n s, fun h => ⟨h, rfl⟩, fun _ => Or.inl ⟨rfl, rfl⟩, State.Draws.refl A s⟩
  trans h h' := ⟨h.1.trans h'.1, h.2.1.trans h'.2.1,
    fun hr => ⟨(h'.2.2.1 (h.2.2.1 hr).1).1, (h'.2.2.1 (h.2.2.1 hr).1).2.trans (h.2.2.1 hr).2⟩,
    h.2.2.2.1.trans h'.2.2.2.1 h'.2.2.1, h.2.2.2.2.trans h'.2.2.2.2⟩

/-- The runs of the protocol in which only `n` acts and does nothing as a leader. -/
def yieldsAt (S : Scheme ν ε γ) (n : ν) : Refinement.Moves (State ν ε) where
  rel s s' := Steps S s s' ∧ s.SameBut n s' ∧ s.Still s'
  refl s := ⟨Steps.refl s, State.SameBut.refl n s, rfl, rfl, rfl⟩
  trans h h' := ⟨h.1.trans h'.1, h.2.1.trans h'.2.1, h'.2.2.1.trans h.2.2.1, h'.2.2.2.1.trans h.2.2.2.1,
    h'.2.2.2.2.trans h.2.2.2.2⟩

variable {S : Scheme ν ε γ} {s s' : State ν ε}

namespace yieldsAt

/-- A node moves to a later term. -/
theorem newTerm {n : ν} {u : ℤ} (hu : s.term n < u) : (yieldsAt S n).rel s (s.newTerm n u) :=
  ⟨Steps.single (Step.newTerm n u hu), .of_own (fun m hm => by simp [State.newTerm, hm]) rfl rfl, rfl, rfl, rfl⟩

/-- A node steps down. -/
theorem stepDown (n : ν) : (yieldsAt S n).rel s (s.stepDown n) :=
  ⟨Steps.single (Step.stepDown n), .of_own (fun m hm => by simp [State.stepDown, hm]) rfl rfl, rfl, rfl, rfl⟩

/-- A node stands. -/
theorem campaign {n : ν} {u : ℤ} (hu : s.term n < u) : (yieldsAt S n).rel s (s.campaign n u) :=
  ⟨Steps.single (Step.campaign n u hu), .of_own (fun m hm => by simp [State.campaign, hm]) rfl rfl, rfl, rfl, rfl⟩

/-- A node learns of a commit. -/
theorem learn {f : ν} {n : ℕ} (hn : n ≤ (s.log f).length) (hk : s.Committed (s.term f) ((s.log f).take n)) :
    (yieldsAt S f).rel s (s.learn f n) :=
  ⟨Steps.single (Step.learn f n hn hk), .of_own (fun m hm => by simp [State.learn, hm]) rfl rfl, rfl, rfl, rfl⟩

/-- A run keeps the invariant. -/
theorem inv {n : ν} (h : Inv S s) (hm : (yieldsAt S n).rel s s') : Inv S s' := (hm.1.inv_extends h).1

/-- A run continues the history. -/
theorem extends_of {n : ν} (h : Inv S s) (hm : (yieldsAt S n).rel s s') : s.Extends s' := (hm.1.inv_extends h).2

end yieldsAt

namespace actsAt

variable {A : Set ε}

/-- A step that touches neither the leaders nor the node's part. -/
theorem of_step {n : ν} (hs : Step S s s') (hb : s.SameBut n s') (hr : s'.role n = s.role n) (ht : s'.term n = s.term n)
    (hl : s'.leader = s.leader) (hll : s'.llog = s.llog) (hA : s.Draws A s') : (actsAt S n A).rel s s' :=
  ⟨Steps.single hs, hb, fun h => ⟨hr.trans h, ht⟩, fun _ => Or.inl ⟨by rw [hl], by rw [hll]⟩, hA⟩

/-- A node grants its vote. -/
theorem grant {v a : ν} {E : List ε} (hv : s.vote v = none) (hE : s.stood (s.term v) a = some E)
    (hup : S.UpToDate E (s.log v)) : (actsAt S v A).rel s (s.grant v a) :=
  of_step (Step.grant v a E hv hE hup) (.of_own (fun m hm => by simp [State.grant, hm]) rfl rfl) rfl rfl rfl rfl
    (.of_eq A rfl rfl)

/-- A candidate wins. -/
theorem win {a : ν} (hr : s.role a = .candidate)
    (hq : S.quorum (S.cfg (s.log a)) {v | ∃ V, s.ballot (s.term a) v = some (a, V)}) : (actsAt S a A).rel s (s.win a) := by
  refine ⟨Steps.single (Step.win a hr hq), ?_, fun _ => ⟨by simp [State.win], rfl⟩, fun t => ?_, ?_⟩
  · constructor
    case leader =>
      intro t ht
      by_cases hta : t = s.term a
      · subst hta
        simp [State.win]
      · simp [State.win, hta, ht]
    case committed => exact fun _ _ _ => Or.inl
    all_goals intro m hm; simp [State.win, hm]
  · by_cases hta : t = s.term a
    · exact Or.inr ⟨by simp [State.win], hta.symm⟩
    · exact Or.inl ⟨by simp [State.win, hta], by simp [State.win, hta]⟩
  · rintro e (he | ⟨t, he⟩)
    · exact Or.inl (Or.inl he)
    · by_cases hta : t = s.term a
      · subst hta
        simp only [State.win, Function.update_self] at he
        exact Or.inl (Or.inl ⟨a, he⟩)
      · simp only [State.win, Function.update_of_ne hta] at he
        exact Or.inl (Or.inr ⟨t, he⟩)

/-- An entry appended by a leader. -/
theorem append_step {a : ν} {e : ε} (hr : s.role a = .leader) (hs : Step S s (s.append a e)) (he : e ∈ A) :
    (actsAt S a A).rel s (s.append a e) := by
  refine ⟨Steps.single hs, .of_own (fun m hm => by simp [State.append, hm]) rfl rfl, fun h => ⟨h, rfl⟩, fun t => ?_, ?_⟩
  · by_cases hta : t = s.term a
    · exact Or.inr ⟨hr, hta.symm⟩
    · exact Or.inl ⟨rfl, by simp [State.append, hta]⟩
  · have hnew : ∀ x ∈ s.log a ++ [e], x ∈ s.entries ∪ A := by
      intro x hx
      rcases List.mem_append.1 hx with hx | hx
      · exact Or.inl (Or.inl ⟨a, hx⟩)
      · exact Or.inr (List.mem_singleton.1 hx ▸ he)
    rintro x (⟨m, hx⟩ | ⟨t, hx⟩)
    · by_cases hma : m = a
      · subst hma
        simp only [State.append, Function.update_self] at hx
        exact hnew x hx
      · simp only [State.append, Function.update_of_ne hma] at hx
        exact Or.inl (Or.inl ⟨m, hx⟩)
    · by_cases hta : t = s.term a
      · subst hta
        simp only [State.append, Function.update_self] at hx
        exact hnew x hx
      · simp only [State.append, Function.update_of_ne hta] at hx
        exact Or.inl (Or.inr ⟨t, hx⟩)

/-- A leader appends an entry. -/
theorem append {a : ν} {e : ε} (hr : s.role a = .leader) (he : S.term e = s.term a) (hc : S.config e = none) (hA : e ∈ A) :
    (actsAt S a A).rel s (s.append a e) := append_step hr (Step.append a e hr he hc) hA

/-- A leader appends a configuration. -/
theorem reconfigure {a : ν} {e : ε} {c : γ} {n : ℕ} {Y : List ε} (hr : s.role a = .leader) (he : S.term e = s.term a)
    (hc : S.config e = some c) (hadj : S.adjacent (S.cfg (s.log a)) c) (hcom : s.committed (s.term a) n Y)
    (hY : Y <+: s.log a) (hq : S.Quiet (s.log a) n (s.log a).length) (hA : e ∈ A) : (actsAt S a A).rel s (s.append a e) :=
  append_step hr (Step.reconfigure a e c n Y hr he hc hadj hcom hY hq) hA

/-- A follower takes over the leader's entries. -/
theorem accept {f : ν} {m : ℕ} (hr : s.role f = .follower) (hl : s.Led (s.term f))
    (hm : m ≤ (s.llog (s.term f)).length) : (actsAt S f A).rel s (s.accept f m) := by
  refine of_step (Step.accept f m hr hl hm) (.of_own (fun m hm => by simp [State.accept, hm]) rfl rfl) rfl rfl rfl rfl ?_
  rintro x (⟨v, hx⟩ | ⟨t, hx⟩)
  · by_cases hvf : v = f
    · subst hvf
      simp only [State.accept, Function.update_self] at hx
      rcases mem_merge hx with hx | hx
      · exact Or.inl (Or.inl ⟨v, hx⟩)
      · exact Or.inl (Or.inr ⟨_, List.mem_of_mem_take hx⟩)
    · simp only [State.accept, Function.update_of_ne hvf] at hx
      exact Or.inl (Or.inl ⟨v, hx⟩)
  · exact Or.inl (Or.inr ⟨t, hx⟩)

/-- A follower acknowledges them. -/
theorem ack {f : ν} {m : ℕ} (hl : s.Led (s.term f)) (hm : m ≤ (s.llog (s.term f)).length)
    (hp : (s.llog (s.term f)).take m <+: s.log f) : (actsAt S f A).rel s (s.ack f m) :=
  of_step (Step.ack f m hl hm hp) (.of_own (fun m _ => by simp [State.ack]) rfl rfl) rfl rfl rfl rfl (.of_eq A rfl rfl)

/-- A leader commits. -/
theorem commitTo {a : ν} {n : ℕ} {e : ε} (hr : s.role a = .leader) (hl : s.leader (s.term a) = some a) (hn : 0 < n)
    (he : (s.log a)[n - 1]? = some e) (ht : S.term e = s.term a)
    (hq : S.quorum (S.cfg (s.log a)) {v | ∃ m, n ≤ m ∧ s.acked v (s.term a) m}) : (actsAt S a A).rel s (s.commitTo a n) := by
  refine of_step (Step.commitTo a n e hr hn he ht hq) ?_ rfl rfl rfl rfl (.of_eq A rfl rfl)
  constructor
  case leader => exact fun _ => id
  case committed =>
    rintro t c Y (h | ⟨rfl, -, -⟩)
    · exact Or.inl h
    · exact Or.inr hl
  all_goals intro m hm; simp [State.commitTo, hm]

/-- A node learns of a commit. -/
theorem learn {f : ν} {n : ℕ} (hn : n ≤ (s.log f).length) (hk : s.Committed (s.term f) ((s.log f).take n)) :
    (actsAt S f A).rel s (s.learn f n) :=
  of_step (Step.learn f n hn hk) (.of_own (fun m hm => by simp [State.learn, hm]) rfl rfl) rfl rfl rfl rfl (.of_eq A rfl rfl)

/-- A run keeps the invariant. -/
theorem inv {n : ν} (h : Inv S s) (hm : (actsAt S n A).rel s s') : Inv S s' := (hm.1.inv_extends h).1

/-- A run continues the history. -/
theorem extends_of {n : ν} (h : Inv S s) (hm : (actsAt S n A).rel s s') : s.Extends s' := (hm.1.inv_extends h).2

end actsAt

end Consensus
