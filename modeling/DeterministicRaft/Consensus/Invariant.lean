import DeterministicRaft.Consensus.Protocol

/-!
# The invariant of the protocol

`Inv` is what every step keeps. It says where logs come from (`WellFormed`: every entry sits where the leader of its term put
it, under the same entries), what a ballot and an acknowledgement still vouch for (`Overruled` names the only way to lose
it), and what a commit rests on. It mentions neither that later leaders hold committed entries nor that the commits agree:
both follow from it (`Consensus.Safety`).
-/

namespace Consensus

variable {ν ε γ : Type*}

/-- A log made of leaders' logs: an entry of term `t` stands where the leader of `t` has it, under the entries it has there. -/
def State.WellFormed (S : Scheme ν ε γ) (s : State ν ε) (X : List ε) : Prop :=
  ∀ (k : ℕ) (e : ε), X[k]? = some e → s.Led (S.term e) ∧ X.take (k + 1) <+: s.llog (S.term e)

/-- What `v` acknowledged in terms before `u` is in the log `V`, but for what a leader up to term `w` overruled. -/
def State.Keeps (s : State ν ε) (v : ν) (V : List ε) (u w : ℤ) : Prop :=
  ∀ (t : ℤ) (m k : ℕ), s.acked v t m → t < u → k ≤ m →
    (s.llog t).take k <+: V ∨ s.Overruled ((s.llog t).take k) t w

/-- The invariant of the protocol. -/
structure Inv (S : Scheme ν ε γ) (s : State ν ε) : Prop where
  term_nonneg : ∀ n, 0 ≤ s.term n
  log_wf : ∀ n, s.WellFormed S (s.log n)
  log_term : ∀ n, ∀ e ∈ s.log n, S.term e ≤ s.term n
  /-- A node stood for a term with older entries only, and is in that term still or in a later one. -/
  stood_wf : ∀ {u : ℤ} {a : ν} {E : List ε}, s.stood u a = some E → s.WellFormed S E
  stood_term : ∀ {u : ℤ} {a : ν} {E : List ε}, s.stood u a = some E → ∀ e ∈ E, S.term e < u
  stood_le : ∀ {u : ℤ} {a : ν} {E : List ε}, s.stood u a = some E → 0 < u ∧ u ≤ s.term a
  stood_role : ∀ {a : ν}, s.role a = .candidate → s.stood (s.term a) a = some (s.log a)
  /-- A ballot is the vote of its term, for a node that stood then with a log at least as up to date. -/
  ballot_wf : ∀ {u : ℤ} {v a : ν} {V : List ε}, s.ballot u v = some (a, V) → s.WellFormed S V
  ballot_le : ∀ {u : ℤ} {v a : ν} {V : List ε}, s.ballot u v = some (a, V) →
    u ≤ s.term v ∧ (u = s.term v → s.vote v = some a)
  vote_ballot : ∀ {v a : ν}, s.vote v = some a → ∃ V, s.ballot (s.term v) v = some (a, V)
  ballot_fresh : ∀ {u : ℤ} {v a : ν} {V : List ε}, s.ballot u v = some (a, V) →
    ∃ E, s.stood u a = some E ∧ S.UpToDate E V
  ballot_keeps : ∀ {u : ℤ} {v a : ν} {V : List ε}, s.ballot u v = some (a, V) → s.Keeps v V u u
  /-- The leader of a term stood for it and was elected by a quorum of its own configuration. -/
  leader_le : ∀ {u : ℤ} {a : ν}, s.leader u = some a → u = s.term a → s.role a ≠ .candidate
  leader_stood : ∀ {u : ℤ} {a : ν}, s.leader u = some a → s.stood u a = some (s.elog u)
  leader_elected : ∀ {u : ℤ} {a : ν}, s.leader u = some a →
    S.quorum (S.cfg (s.elog u)) {v | ∃ V, s.ballot u v = some (a, V) ∧ s.Keeps v V u (u - 1)}
  role_leader : ∀ {a : ν}, s.role a = .leader → s.leader (s.term a) = some a ∧ s.log a = s.llog (s.term a)
  /-- A leader's log is the one it was elected with and entries of its own term. -/
  llog_wf : ∀ {t : ℤ}, s.Led t → s.WellFormed S (s.llog t)
  llog_elog : ∀ {t : ℤ}, s.Led t → s.elog t <+: s.llog t
  llog_tail : ∀ {t : ℤ} {k : ℕ} {e : ε}, s.Led t → (s.llog t)[k]? = some e → (s.elog t).length ≤ k → S.term e = t
  /-- A leader proposes a configuration after a commit of its own term above which the log is quiet. -/
  llog_guard : ∀ {t : ℤ} {k : ℕ} {e : ε} {c : γ}, s.Led t → (s.llog t)[k]? = some e → (s.elog t).length ≤ k →
    S.config e = some c → S.adjacent (S.cfg ((s.llog t).take k)) c ∧
      ∃ n Y, s.committed t n Y ∧ Y <+: (s.llog t).take k ∧ S.Quiet (s.llog t) n k
  acked_led : ∀ {v : ν} {t : ℤ} {m : ℕ}, s.acked v t m → s.Led t ∧ t ≤ s.term v ∧ m ≤ (s.llog t).length
  acked_keeps : ∀ v, s.Keeps v (s.log v) (s.term v + 1) (s.term v)
  committed_led : ∀ {t : ℤ} {n : ℕ} {Y : List ε}, s.committed t n Y → s.Led t ∧ Y <+: s.llog t ∧ 0 < n
  committed_own : ∀ {t : ℤ} {n : ℕ} {Y : List ε}, s.committed t n Y → ∃ e, Y[n - 1]? = some e ∧ S.term e = t
  committed_quorum : ∀ {t : ℤ} {n : ℕ} {Y : List ε}, s.committed t n Y →
    S.quorum (S.cfg Y) {v | ∃ m, n ≤ m ∧ s.acked v t m}
  commit_le : ∀ n, s.commit n ≤ (s.log n).length
  commit_known : ∀ n, s.Committed (s.term n) ((s.log n).take (s.commit n))

namespace State.WellFormed

variable {S : Scheme ν ε γ} {s : State ν ε}

/-- A prefix of a log made of leaders' logs is one. -/
theorem mono {X Y : List ε} (h : s.WellFormed S Y) (hp : X <+: Y) : s.WellFormed S X := by
  intro k e hk
  have hl : k < X.length := (List.getElem?_eq_some_iff.1 hk).1
  obtain ⟨h1, h2⟩ := h k e (getElem?_extends hp hk)
  exact ⟨h1, take_extends hp hl ▸ h2⟩

/-- The first entries of a log made of leaders' logs are one. -/
theorem take {X : List ε} (h : s.WellFormed S X) (n : ℕ) : s.WellFormed S (X.take n) := h.mono (List.take_prefix n X)

/-- The merge of two logs made of leaders' logs is one. -/
theorem merge {X A : List ε} (h : s.WellFormed S X) (hA : s.WellFormed S A) : s.WellFormed S (merge X A) := by
  by_cases hp : A <+: X
  · rwa [merge_eq_left hp]
  · rwa [merge_eq_right hp]

/-- Two logs with entries of one term at one place agree up to it. -/
theorem agree {X Y : List ε} (hX : s.WellFormed S X) (hY : s.WellFormed S Y) {k : ℕ} {e e' : ε} (hk : X[k]? = some e)
    (hk' : Y[k]? = some e') (ht : S.term e = S.term e') : X.take (k + 1) = Y.take (k + 1) := by
  have hx := (hX k e hk).2
  have hy := (hY k e' hk').2
  rw [ht] at hx
  have lx : (X.take (k + 1)).length = k + 1 :=
    List.length_take_of_le (List.getElem?_eq_some_iff.1 hk).1
  have ly : (Y.take (k + 1)).length = k + 1 :=
    List.length_take_of_le (List.getElem?_eq_some_iff.1 hk').1
  rw [List.prefix_iff_eq_take.1 hx, List.prefix_iff_eq_take.1 hy, lx, ly]

/-- The last term of a nonempty log is a leader's, whose log extends it. -/
theorem last {X : List ε} (h : s.WellFormed S X) (hne : X ≠ []) :
    s.Led (S.lastTerm X) ∧ X <+: s.llog (S.lastTerm X) ∧ ∃ e, X[X.length - 1]? = some e ∧ S.term e = S.lastTerm X := by
  have hpos : 0 < X.length := List.length_pos_iff.2 hne
  obtain ⟨e, he⟩ : ∃ e, X[X.length - 1]? = some e := ⟨_, List.getElem?_eq_getElem (by omega)⟩
  have hl : S.lastTerm X = S.term e := by
    rw [Scheme.lastTerm, List.getLast?_eq_getElem?, he]
    rfl
  obtain ⟨h1, h2⟩ := h _ e he
  rw [Nat.sub_add_cancel hpos, List.take_length] at h2
  exact ⟨hl ▸ h1, hl ▸ h2, e, he, hl.symm⟩

end State.WellFormed

end Consensus
