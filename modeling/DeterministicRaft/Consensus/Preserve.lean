import DeterministicRaft.Consensus.Safety

/-!
# Every step keeps the invariant

One lemma for each step of the protocol. `State.Extends` is what every step does to the history: it only grows, and a leader's
log only at its end. What was well formed, overruled or committed stays so.
-/

namespace Consensus

variable {ν ε γ : Type*} {S : Scheme ν ε γ} {s s' s'' : State ν ε}

open State

/-- The history of `s'` continues that of `s`, and no node has gone back to an earlier term. -/
structure State.Extends (s s' : State ν ε) : Prop where
  term : ∀ n, s.term n ≤ s'.term n
  stood : ∀ {u : ℤ} {a : ν} {E : List ε}, s.stood u a = some E → s'.stood u a = some E
  ballot : ∀ {u : ℤ} {v : ν} {b : ν × List ε}, s.ballot u v = some b → s'.ballot u v = some b
  leader : ∀ {t : ℤ} {a : ν}, s.leader t = some a → s'.leader t = some a
  elog : ∀ {t : ℤ}, s.Led t → s'.elog t = s.elog t
  llog : ∀ {t : ℤ}, s.Led t → s.llog t <+: s'.llog t
  acked : ∀ {v : ν} {t : ℤ} {m : ℕ}, s.acked v t m → s'.acked v t m
  committed : ∀ {t : ℤ} {n : ℕ} {Y : List ε}, s.committed t n Y → s'.committed t n Y

namespace State.Extends

/-- A state extends itself. -/
theorem refl (s : State ν ε) : s.Extends s :=
  ⟨fun _ => le_rfl, id, id, id, fun _ => rfl, fun _ => List.prefix_rfl, id, id⟩

/-- A term that was led stays led. -/
theorem led (x : s.Extends s') {t : ℤ} (h : s.Led t) : s'.Led t := by
  obtain ⟨a, ha⟩ := h
  exact ⟨a, x.leader ha⟩

/-- Histories grow one after the other. -/
theorem trans (x : s.Extends s') (y : s'.Extends s'') : s.Extends s'' where
  term n := (x.term n).trans (y.term n)
  stood h := y.stood (x.stood h)
  ballot h := y.ballot (x.ballot h)
  leader h := y.leader (x.leader h)
  elog h := (y.elog (x.led h)).trans (x.elog h)
  llog h := (x.llog h).trans (y.llog (x.led h))
  acked h := y.acked (x.acked h)
  committed h := y.committed (x.committed h)

/-- A log that was well formed stays so. -/
theorem wellFormed (x : s.Extends s') {X : List ε} (h : s.WellFormed S X) : s'.WellFormed S X := by
  intro k e hk
  obtain ⟨hl, hp⟩ := h k e hk
  exact ⟨x.led hl, hp.trans (x.llog hl)⟩

/-- A log that was overruled stays so. -/
theorem overruled (x : s.Extends s') {X : List ε} {t u : ℤ} (h : s.Overruled X t u) : s'.Overruled X t u := by
  obtain ⟨r, h1, h2, h3, h4⟩ := h
  exact ⟨r, h1, h2, x.led h3, by rwa [x.elog h3]⟩

/-- What was known to be committed stays so. -/
theorem known (x : s.Extends s') {t : ℤ} {P : List ε} (h : s.Committed t P) : s'.Committed t P := by
  rcases h with h | ⟨t', c, Y, h1, h2, h3⟩
  · exact Or.inl h
  · exact Or.inr ⟨t', c, Y, h1, x.committed h2, h3⟩

/-- The first entries of a leader's log stay what they are. -/
theorem llog_take (x : s.Extends s') {t : ℤ} (h : s.Led t) {k : ℕ} (hk : k ≤ (s.llog t).length) :
    (s'.llog t).take k = (s.llog t).take k := take_extends (x.llog h) hk

end State.Extends

/-- What a leader up to one term has overruled is overruled up to a later one. -/
theorem State.Overruled.mono {X : List ε} {t u w : ℤ} (h : s.Overruled X t u) (hw : u ≤ w) : s.Overruled X t w := by
  obtain ⟨r, h1, h2, h3⟩ := h
  exact ⟨r, h1, h2.trans hw, h3⟩

/-- What was committed up to one term was committed up to a later one. -/
theorem State.Committed.mono {P : List ε} {t u : ℤ} (h : s.Committed t P) (hu : t ≤ u) : s.Committed u P := by
  rcases h with h | ⟨t', c, Y, h1, h2⟩
  · exact Or.inl h
  · exact Or.inr ⟨t', c, Y, h1.trans hu, h2⟩

/-- A prefix of committed entries is committed. -/
theorem State.Committed.shorter {P P' : List ε} {t : ℤ} (h : s.Committed t P) (hp : P' <+: P) : s.Committed t P' := by
  rcases h with rfl | ⟨t', c, Y, h1, h2, h3⟩
  · exact Or.inl (List.prefix_nil.1 hp)
  · exact Or.inr ⟨t', c, Y, h1, h2, hp.trans h3⟩

/-- What is kept in some terms is kept in fewer, and may be overruled in more. -/
theorem State.Keeps.mono {v : ν} {V : List ε} {u u' w w' : ℤ} (h : s.Keeps v V u w) (hu : u' ≤ u) (hw : w ≤ w') :
    s.Keeps v V u' w' := by
  intro t m k ha ht hk
  rcases h t m k ha (by omega) hk with h1 | h1
  · exact Or.inl h1
  · exact Or.inr (h1.mono hw)

/-- What a log keeps, it keeps as the history grows, as long as the acknowledgements in question are old ones. -/
theorem State.Keeps.extends (h : Inv S s) (x : s.Extends s') {v : ν} {V : List ε} {u w : ℤ} (hk : s.Keeps v V u w)
    (hold : ∀ t m, s'.acked v t m → t < u → s.acked v t m) : s'.Keeps v V u w := by
  intro t m k ha ht hkm
  have ha' := hold t m ha ht
  obtain ⟨hl, -, hm⟩ := h.acked_led ha'
  rw [x.llog_take hl (hkm.trans hm)]
  rcases hk t m k ha' ht hkm with h1 | h1
  · exact Or.inl h1
  · exact Or.inr (x.overruled h1)

/-- Acknowledgements of the nodes' own terms leave alone what a ballot vouches for. -/
theorem State.Keeps.of_ballot (h : Inv S s) (x : s.Extends s') (hnew : ∀ {v t m}, s'.acked v t m → s.acked v t m ∨ t = s.term v)
    {v b : ν} {V X : List ε} {u w : ℤ} (hb : s.ballot u v = some (b, V)) (hk : s.Keeps v X u w) : s'.Keeps v X u w := by
  refine State.Keeps.extends h x hk fun t m ha ht => ?_
  rcases hnew ha with ha | rfl
  · exact ha
  · have := (h.ballot_le hb).1
    omega

/-- A leader of earlier is elected still. -/
theorem Inv.elected_later (h : Inv S s) (x : s.Extends s') (hnew : ∀ {v t m}, s'.acked v t m → s.acked v t m ∨ t = s.term v)
    {u : ℤ} {b : ν} (hb : s.leader u = some b) :
    S.quorum (S.cfg (s'.elog u)) {v | ∃ V, s'.ballot u v = some (b, V) ∧ s'.Keeps v V u (u - 1)} := by
  rw [x.elog ⟨b, hb⟩]
  refine S.quorum_mono (h.leader_elected hb) ?_
  rintro v ⟨V, hV, hk⟩
  exact ⟨V, x.ballot hV, hk.of_ballot h x hnew hV⟩

/-- An acknowledgement of earlier is of a leader's log still. -/
theorem Inv.acked_led_later (h : Inv S s) (x : s.Extends s') {v : ν} {t : ℤ} {m : ℕ} (ha : s.acked v t m) :
    s'.Led t ∧ t ≤ s'.term v ∧ m ≤ (s'.llog t).length := by
  obtain ⟨h1, h2, h3⟩ := h.acked_led ha
  exact ⟨x.led h1, h2.trans (x.term v), h3.trans (x.llog h1).length_le⟩

/-- What a node has acknowledged earlier, a longer log of it keeps. -/
theorem Inv.acked_keeps_later (h : Inv S s) (x : s.Extends s') {v : ν} (hp : s.log v <+: s'.log v) {t : ℤ} {m k : ℕ}
    (ha : s.acked v t m) (hk : k ≤ m) :
    (s'.llog t).take k <+: s'.log v ∨ s'.Overruled ((s'.llog t).take k) t (s.term v) := by
  obtain ⟨h1, h2, h3⟩ := h.acked_led ha
  rw [x.llog_take h1 (hk.trans h3)]
  rcases h.acked_keeps v t m k ha (by omega) hk with h4 | h4
  · exact Or.inl (h4.trans hp)
  · exact Or.inr (x.overruled h4)

/-- A commit of earlier is one of a leader's log still. -/
theorem Inv.committed_led_later (h : Inv S s) (x : s.Extends s') {t : ℤ} {n : ℕ} {Y : List ε} (hc : s.committed t n Y) :
    s'.Led t ∧ Y <+: s'.llog t ∧ 0 < n := by
  obtain ⟨h1, h2, h3⟩ := h.committed_led hc
  exact ⟨x.led h1, h2.trans (x.llog h1), h3⟩

/-- A commit of earlier rests on a quorum still. -/
theorem Inv.committed_quorum_later (h : Inv S s) (x : s.Extends s') {t : ℤ} {n : ℕ} {Y : List ε} (hc : s.committed t n Y) :
    S.quorum (S.cfg Y) {v | ∃ m, n ≤ m ∧ s'.acked v t m} := by
  refine S.quorum_mono (h.committed_quorum hc) ?_
  rintro v ⟨m, hm, ha⟩
  exact ⟨m, hm, x.acked ha⟩

/-- What a node's own log keeps, it keeps in a later term. -/
theorem Inv.keeps_later (h : Inv S s) (v : ν) {u w : ℤ} (hw : s.term v ≤ w) : s.Keeps v (s.log v) u w := by
  intro t m k ha _ hk
  have ht : t < s.term v + 1 := by have := (h.acked_led ha).2.1; omega
  rcases h.acked_keeps v t m k ha ht hk with h1 | h1
  · exact Or.inl h1
  · exact Or.inr (h1.mono hw)

variable [DecidableEq ν]

/-! ## Terms, roles and votes -/

/-- A new term takes nothing from the history. -/
theorem extends_newTerm {n : ν} {u : ℤ} (hu : s.term n < u) : s.Extends (s.newTerm n u) where
  term m := by
    by_cases hm : m = n
    · subst hm
      simpa [newTerm] using hu.le
    · simp [newTerm, hm]
  stood := id
  ballot := id
  leader := id
  elog _ := rfl
  llog _ := List.prefix_rfl
  acked := id
  committed := id

/-- A new term keeps the invariant: the node forgets its vote, not what it has told. -/
theorem inv_newTerm (h : Inv S s) {n : ν} {u : ℤ} (hu : s.term n < u) : Inv S (s.newTerm n u) := by
  have x := extends_newTerm hu
  have hn : (s.newTerm n u).term n = u := by simp [newTerm]
  have hne : ∀ m, m ≠ n → (s.newTerm n u).term m = s.term m := fun m hm => by simp [newTerm, hm]
  have hrole : ∀ m, (s.newTerm n u).role m ≠ .follower → m ≠ n ∧ (s.newTerm n u).role m = s.role m := by
    intro m hm
    by_cases hmn : m = n
    · subst hmn
      simp [newTerm] at hm
    · exact ⟨hmn, by simp [newTerm, hmn]⟩
  exact {
    term_nonneg := fun m => (h.term_nonneg m).trans (x.term m)
    log_wf := h.log_wf
    log_term := fun m e he => (h.log_term m e he).trans (x.term m)
    stood_wf := h.stood_wf
    stood_term := h.stood_term
    stood_le := fun hs => ⟨(h.stood_le hs).1, (h.stood_le hs).2.trans (x.term _)⟩
    stood_role := by
      intro a ha
      obtain ⟨hm, hr⟩ := hrole a (by rw [ha]; nofun)
      rw [hne a hm]
      exact h.stood_role (hr ▸ ha)
    ballot_wf := h.ballot_wf
    ballot_le := by
      intro w v a V hb
      obtain ⟨h1, h2⟩ := h.ballot_le hb
      refine ⟨h1.trans (x.term v), fun hw => ?_⟩
      by_cases hv : v = n
      · subst hv
        omega
      · rw [hne v hv] at hw
        simpa [newTerm, hv] using h2 hw
    vote_ballot := by
      intro v a hv
      by_cases hvn : v = n
      · subst hvn
        simp [newTerm] at hv
      · rw [hne v hvn]
        exact h.vote_ballot (by simpa [newTerm, hvn] using hv)
    ballot_fresh := h.ballot_fresh
    ballot_keeps := h.ballot_keeps
    leader_le := by
      intro w a ha hw hr
      obtain ⟨hm, hr'⟩ := hrole a (by rw [hr]; nofun)
      rw [hne a hm] at hw
      exact h.leader_le ha hw (hr' ▸ hr)
    leader_stood := h.leader_stood
    leader_elected := h.leader_elected
    role_leader := by
      intro a ha
      obtain ⟨hm, hr⟩ := hrole a (by rw [ha]; nofun)
      rw [hne a hm]
      exact h.role_leader (hr ▸ ha)
    llog_wf := h.llog_wf
    llog_elog := h.llog_elog
    llog_tail := h.llog_tail
    llog_guard := h.llog_guard
    acked_led := h.acked_led_later x
    acked_keeps := by
      intro v t m k ha _ hk
      have ht : t < s.term v + 1 := by have := (h.acked_led ha).2.1; omega
      rcases h.acked_keeps v t m k ha ht hk with h1 | h1
      · exact Or.inl h1
      · exact Or.inr (h1.mono (x.term v))
    committed_led := h.committed_led
    committed_own := h.committed_own
    committed_quorum := h.committed_quorum
    commit_le := h.commit_le
    commit_known := fun m => (h.commit_known m).mono (x.term m) }

/-- Stepping down takes nothing from the history. -/
theorem extends_stepDown (n : ν) : s.Extends (s.stepDown n) :=
  ⟨fun _ => le_rfl, id, id, id, fun _ => rfl, fun _ => List.prefix_rfl, id, id⟩

/-- Stepping down keeps the invariant. -/
theorem inv_stepDown (h : Inv S s) (n : ν) : Inv S (s.stepDown n) := by
  have hrole : ∀ m, (s.stepDown n).role m ≠ .follower → (s.stepDown n).role m = s.role m := by
    intro m hm
    by_cases hmn : m = n
    · subst hmn
      simp [stepDown] at hm
    · simp [stepDown, hmn]
  exact { h with
    stood_role := by
      intro a ha
      exact h.stood_role (hrole a (by rw [ha]; nofun) ▸ ha)
    leader_le := by
      intro w a ha hw hr
      exact h.leader_le ha hw (hrole a (by rw [hr]; nofun) ▸ hr)
    role_leader := by
      intro a ha
      exact h.role_leader (hrole a (by rw [ha]; nofun) ▸ ha) }

/-- A candidacy adds a log and a ballot to the history. -/
theorem extends_campaign (h : Inv S s) {n : ν} {u : ℤ} (hu : s.term n < u) : s.Extends (s.campaign n u) where
  term m := by
    by_cases hm : m = n
    · subst hm
      simpa [campaign] using hu.le
    · simp [campaign, hm]
  stood := by
    intro w a E hs
    have : ¬(w = u ∧ a = n) := by
      rintro ⟨rfl, rfl⟩
      have := (h.stood_le hs).2
      omega
    simpa [campaign, this] using hs
  ballot := by
    rintro w v ⟨a, V⟩ hb
    have : ¬(w = u ∧ v = n) := by
      rintro ⟨rfl, rfl⟩
      have := (h.ballot_le hb).1
      omega
    simpa [campaign, this] using hb
  leader := id
  elog _ := rfl
  llog _ := List.prefix_rfl
  acked := id
  committed := id

/-- The candidate is in its new term. -/
@[simp] theorem State.campaign_term (s : State ν ε) (n : ν) (u : ℤ) : (s.campaign n u).term n = u := by simp [campaign]

/-- The terms of the others stay what they are. -/
theorem State.campaign_term_of_ne {n m : ν} (u : ℤ) (hm : m ≠ n) : (s.campaign n u).term m = s.term m := by simp [campaign, hm]

/-- A log that a node stood with is the candidate's, or of earlier. -/
theorem State.stood_campaign {n a : ν} {u w : ℤ} {E : List ε} (hs : (s.campaign n u).stood w a = some E) :
    (w = u ∧ a = n ∧ E = s.log n) ∨ s.stood w a = some E := by
  by_cases hwa : w = u ∧ a = n
  · simp only [campaign, if_pos hwa, Option.some.injEq] at hs
    exact Or.inl ⟨hwa.1, hwa.2, hs.symm⟩
  · simp only [campaign, if_neg hwa] at hs
    exact Or.inr hs

/-- A ballot is the candidate's own, or of earlier. -/
theorem State.ballot_campaign {n v a : ν} {u w : ℤ} {V : List ε} (hb : (s.campaign n u).ballot w v = some (a, V)) :
    (w = u ∧ v = n ∧ a = n ∧ V = s.log n) ∨ s.ballot w v = some (a, V) := by
  by_cases hwv : w = u ∧ v = n
  · simp only [campaign, if_pos hwv, Option.some.injEq, Prod.mk.injEq] at hb
    exact Or.inl ⟨hwv.1, hwv.2, hb.1.symm, hb.2.symm⟩
  · simp only [campaign, if_neg hwv] at hb
    exact Or.inr hb

/-- A candidacy keeps the invariant: in a new term nobody has a ballot of the node yet. -/
theorem inv_campaign (h : Inv S s) {n : ν} {u : ℤ} (hu : s.term n < u) : Inv S (s.campaign n u) := by
  have x := extends_campaign h hu
  have hn := campaign_term s n u
  exact {
    term_nonneg := fun m => (h.term_nonneg m).trans (x.term m)
    log_wf := h.log_wf
    log_term := fun m e he => (h.log_term m e he).trans (x.term m)
    stood_wf := by
      intro w a E hs
      rcases stood_campaign hs with ⟨-, -, rfl⟩ | hs
      · exact h.log_wf n
      · exact h.stood_wf hs
    stood_term := by
      intro w a E hs e he
      rcases stood_campaign hs with ⟨rfl, -, rfl⟩ | hs
      · have := h.log_term n e he
        omega
      · exact h.stood_term hs e he
    stood_le := by
      intro w a E hs
      rcases stood_campaign hs with ⟨rfl, rfl, -⟩ | hs
      · have := h.term_nonneg a
        omega
      · exact ⟨(h.stood_le hs).1, (h.stood_le hs).2.trans (x.term a)⟩
    stood_role := by
      intro a ha
      by_cases han : a = n
      · subst han
        rw [hn]
        simp [campaign]
      · rw [campaign_term_of_ne u han]
        exact x.stood (h.stood_role (by simpa [campaign, han] using ha))
    ballot_wf := by
      intro w v a V hb
      rcases ballot_campaign hb with ⟨-, -, -, rfl⟩ | hb
      · exact h.log_wf n
      · exact h.ballot_wf hb
    ballot_le := by
      intro w v a V hb
      rcases ballot_campaign hb with ⟨rfl, rfl, rfl, -⟩ | hb
      · exact ⟨(campaign_term s _ _).ge, fun _ => by simp [campaign]⟩
      · obtain ⟨h1, h2⟩ := h.ballot_le hb
        refine ⟨h1.trans (x.term v), fun hw => ?_⟩
        by_cases hv : v = n
        · subst hv
          omega
        · rw [campaign_term_of_ne u hv] at hw
          simpa [campaign, hv] using h2 hw
    vote_ballot := by
      intro v a hv
      by_cases hvn : v = n
      · subst hvn
        rw [hn]
        have ha : a = v := by simpa [campaign, eq_comm] using hv
        subst ha
        exact ⟨s.log a, by simp [campaign]⟩
      · rw [campaign_term_of_ne u hvn]
        obtain ⟨V, hV⟩ := h.vote_ballot (v := v) (a := a) (by simpa [campaign, hvn] using hv)
        exact ⟨V, x.ballot hV⟩
    ballot_fresh := by
      intro w v a V hb
      rcases ballot_campaign hb with ⟨rfl, rfl, rfl, rfl⟩ | hb
      · exact ⟨s.log a, by simp [campaign], Or.inr ⟨rfl, le_rfl⟩⟩
      · obtain ⟨E, hE, hup⟩ := h.ballot_fresh hb
        exact ⟨E, x.stood hE, hup⟩
    ballot_keeps := by
      intro w v a V hb
      rcases ballot_campaign hb with ⟨rfl, rfl, rfl, rfl⟩ | hb
      · exact h.keeps_later a hu.le
      · exact h.ballot_keeps hb
    leader_le := by
      intro w a ha hw hr
      by_cases han : a = n
      · subst han
        have := (h.stood_le (h.leader_stood ha)).2
        omega
      · rw [campaign_term_of_ne u han] at hw
        exact h.leader_le ha hw (by simpa [campaign, han] using hr)
    leader_stood := fun ha => x.stood (h.leader_stood ha)
    leader_elected := h.elected_later x Or.inl
    role_leader := by
      intro a ha
      by_cases han : a = n
      · subst han
        simp [campaign] at ha
      · rw [campaign_term_of_ne u han]
        exact h.role_leader (by simpa [campaign, han] using ha)
    llog_wf := h.llog_wf
    llog_elog := h.llog_elog
    llog_tail := h.llog_tail
    llog_guard := h.llog_guard
    acked_led := h.acked_led_later x
    acked_keeps := fun v => h.keeps_later v (x.term v)
    committed_led := h.committed_led
    committed_own := h.committed_own
    committed_quorum := h.committed_quorum
    commit_le := h.commit_le
    commit_known := fun m => (h.commit_known m).mono (x.term m) }

/-- A vote adds a ballot to the history. -/
theorem extends_grant (h : Inv S s) {v a : ν} (hv : s.vote v = none) : s.Extends (s.grant v a) where
  term _ := le_rfl
  stood := id
  ballot := by
    rintro w v' ⟨b, V⟩ hb
    have : ¬(w = s.term v ∧ v' = v) := by
      rintro ⟨rfl, rfl⟩
      have := (h.ballot_le hb).2 rfl
      simp [hv] at this
    simpa [grant, this] using hb
  leader := id
  elog _ := rfl
  llog _ := List.prefix_rfl
  acked := id
  committed := id

/-- A vote keeps the invariant: it is the voter's only one in the term, for a log that is as up to date as its own. -/
theorem inv_grant (h : Inv S s) {v a : ν} {E : List ε} (hv : s.vote v = none) (hE : s.stood (s.term v) a = some E)
    (hup : S.UpToDate E (s.log v)) : Inv S (s.grant v a) := by
  have x := extends_grant h (a := a) hv
  have hballot : ∀ {w : ℤ} {v' b : ν} {V : List ε}, (s.grant v a).ballot w v' = some (b, V) →
      (w = s.term v ∧ v' = v ∧ b = a ∧ V = s.log v) ∨ s.ballot w v' = some (b, V) := by
    intro w v' b V hb
    by_cases hwv : w = s.term v ∧ v' = v
    · simp only [grant, if_pos hwv, Option.some.injEq, Prod.mk.injEq] at hb
      exact Or.inl ⟨hwv.1, hwv.2, hb.1.symm, hb.2.symm⟩
    · simp only [grant, if_neg hwv] at hb
      exact Or.inr hb
  exact { h with
    ballot_wf := by
      intro w v' b V hb
      rcases hballot hb with ⟨-, -, -, rfl⟩ | hb
      · exact h.log_wf v
      · exact h.ballot_wf hb
    ballot_le := by
      intro w v' b V hb
      rcases hballot hb with ⟨rfl, rfl, rfl, -⟩ | hb
      · exact ⟨le_rfl, fun _ => by simp [grant]⟩
      · obtain ⟨h1, h2⟩ := h.ballot_le hb
        refine ⟨h1, fun hw => ?_⟩
        have hvv : v' ≠ v := by
          rintro rfl
          simp [h2 hw] at hv
        simpa [grant, hvv] using h2 hw
    vote_ballot := by
      intro v' b hb
      by_cases hvv : v' = v
      · subst hvv
        have hab : b = a := by simpa [grant, eq_comm] using hb
        subst hab
        exact ⟨s.log v', by simp [grant]⟩
      · obtain ⟨V, hV⟩ := h.vote_ballot (v := v') (a := b) (by simpa [grant, hvv] using hb)
        exact ⟨V, x.ballot hV⟩
    ballot_fresh := by
      intro w v' b V hb
      rcases hballot hb with ⟨rfl, rfl, rfl, rfl⟩ | hb
      · exact ⟨E, hE, hup⟩
      · exact h.ballot_fresh hb
    ballot_keeps := by
      intro w v' b V hb
      rcases hballot hb with ⟨rfl, rfl, rfl, rfl⟩ | hb
      · exact h.keeps_later v' le_rfl
      · exact h.ballot_keeps hb
    leader_elected := h.elected_later x Or.inl }

/-! ## Elections -/

/-- A victory adds a leader to the history. -/
theorem extends_win {a : ν} (hl : ¬s.Led (s.term a)) : s.Extends (s.win a) where
  term _ := le_rfl
  stood := id
  ballot := id
  leader := by
    intro t b hb
    have ht : t ≠ s.term a := by
      rintro rfl
      exact hl ⟨b, hb⟩
    simpa [win, ht] using hb
  elog := by
    intro t ht
    have hne : t ≠ s.term a := fun e => hl (e ▸ ht)
    simp [win, hne]
  llog := by
    intro t ht
    have hne : t ≠ s.term a := fun e => hl (e ▸ ht)
    simp [win, hne]
  acked := Or.inl
  committed := id

/-- The winner was elected with the log that it has. -/
@[simp] theorem State.win_elog (s : State ν ε) (a : ν) : (s.win a).elog (s.term a) = s.log a := by simp [win]

/-- The log of the term is the winner's. -/
@[simp] theorem State.win_llog (s : State ν ε) (a : ν) : (s.win a).llog (s.term a) = s.log a := by simp [win]

/-- The logs of the terms that were led before stay what they are. -/
theorem State.win_llog_of_led {a : ν} (hl : ¬s.Led (s.term a)) {t : ℤ} (ht : s.Led t) : (s.win a).llog t = s.llog t := by
  have hne : t ≠ s.term a := fun e => hl (e ▸ ht)
  simp [win, hne]

/-- The winner leads its term, the others what they led before. -/
theorem State.leader_win {a b : ν} {t : ℤ} (h : (s.win a).leader t = some b) : (t = s.term a ∧ b = a) ∨ s.leader t = some b := by
  by_cases ht : t = s.term a
  · subst ht
    exact Or.inl ⟨rfl, by simpa [win, eq_comm] using h⟩
  · exact Or.inr (by simpa [win, ht] using h)

/-- A term that is led is the winner's, or was led before. -/
theorem State.led_win {a : ν} {t : ℤ} (h : (s.win a).Led t) : t = s.term a ∨ s.Led t := by
  obtain ⟨b, hb⟩ := h
  rcases leader_win hb with ⟨ht, -⟩ | hb
  · exact Or.inl ht
  · exact Or.inr ⟨b, hb⟩

/-- The roles of the others stay what they are. -/
theorem State.win_role_of_ne {a b : ν} (hb : b ≠ a) : (s.win a).role b = s.role b := by simp [win, hb]

/-- A victory adds an acknowledgement of the winner's own term. -/
theorem State.acked_win {a v : ν} {t : ℤ} {m : ℕ} (h : (s.win a).acked v t m) : s.acked v t m ∨ t = s.term v := by
  rcases h with h | ⟨rfl, rfl, -⟩
  · exact Or.inl h
  · exact Or.inr rfl

/-- The ballots of a quorum elect the winner: what one of them may have lost was overruled before the term. -/
theorem Inv.elected_win (h : Inv S s) {a : ν} (hl : ¬s.Led (s.term a))
    (hq : S.quorum (S.cfg (s.log a)) {v | ∃ V, s.ballot (s.term a) v = some (a, V)}) :
    S.quorum (S.cfg (s.log a))
      {v | ∃ V, (s.win a).ballot (s.term a) v = some (a, V) ∧ (s.win a).Keeps v V (s.term a) (s.term a - 1)} := by
  have x := extends_win hl
  refine S.quorum_mono hq ?_
  rintro v ⟨V, hV⟩
  refine ⟨V, hV, ?_⟩
  have hk : s.Keeps v V (s.term a) (s.term a - 1) := by
    intro t m k ha ht hk
    rcases h.ballot_keeps hV t m k ha ht hk with h1 | ⟨r, h1, h2, h3, h4⟩
    · exact Or.inl h1
    · have hne : r ≠ s.term a := fun e => hl (e ▸ h3)
      exact Or.inr ⟨r, h1, by omega, h3, h4⟩
  exact hk.of_ballot h x acked_win hV

/-- A victory keeps the invariant: with the ballots of a quorum the winner's log holds every earlier commit. -/
theorem inv_win (h : Inv S s) {a : ν} (hr : s.role a = .candidate)
    (hq : S.quorum (S.cfg (s.log a)) {v | ∃ V, s.ballot (s.term a) v = some (a, V)}) : Inv S (s.win a) := by
  have hl := h.not_led_of_quorum hr hq
  have x := extends_win hl
  have hnone : ∀ {k : ℕ} {e : ε}, ((s.win a).llog (s.term a))[k]? = some e → ((s.win a).elog (s.term a)).length ≤ k → False := by
    intro k e hk hke
    rw [win_llog] at hk
    rw [win_elog] at hke
    have := (List.getElem?_eq_some_iff.1 hk).1
    omega
  exact {
    term_nonneg := h.term_nonneg
    log_wf := fun n => x.wellFormed (h.log_wf n)
    log_term := h.log_term
    stood_wf := fun hs => x.wellFormed (h.stood_wf hs)
    stood_term := h.stood_term
    stood_le := h.stood_le
    stood_role := by
      intro b hb
      by_cases hba : b = a
      · subst hba
        simp [win] at hb
      · exact h.stood_role (win_role_of_ne hba ▸ hb)
    ballot_wf := fun hb => x.wellFormed (h.ballot_wf hb)
    ballot_le := h.ballot_le
    vote_ballot := h.vote_ballot
    ballot_fresh := h.ballot_fresh
    ballot_keeps := fun hb => (h.ballot_keeps hb).of_ballot h x acked_win hb
    leader_le := by
      intro u b hb hu hc
      by_cases hba : b = a
      · subst hba
        simp [win] at hc
      · rcases leader_win hb with ⟨-, rfl⟩ | hb'
        · exact hba rfl
        · exact h.leader_le hb' hu (win_role_of_ne hba ▸ hc)
    leader_stood := by
      intro u b hb
      rcases leader_win hb with ⟨rfl, rfl⟩ | hb
      · rw [win_elog]
        exact h.stood_role hr
      · rw [x.elog ⟨b, hb⟩]
        exact h.leader_stood hb
    leader_elected := by
      intro u b hb
      rcases leader_win hb with ⟨rfl, rfl⟩ | hb
      · rw [win_elog]
        exact h.elected_win hl hq
      · exact h.elected_later x acked_win hb
    role_leader := by
      intro b hb
      by_cases hba : b = a
      · subst hba
        exact ⟨by simp [win], (win_llog s b).symm⟩
      · obtain ⟨h1, h2⟩ := h.role_leader (win_role_of_ne hba ▸ hb)
        exact ⟨x.leader h1, h2.trans (win_llog_of_led hl ⟨b, h1⟩).symm⟩
    llog_wf := by
      intro t ht
      rcases led_win ht with rfl | ht
      · rw [win_llog]
        exact x.wellFormed (h.log_wf a)
      · rw [win_llog_of_led hl ht]
        exact x.wellFormed (h.llog_wf ht)
    llog_elog := by
      intro t ht
      rcases led_win ht with rfl | ht
      · rw [win_llog, win_elog]
      · rw [win_llog_of_led hl ht, x.elog ht]
        exact h.llog_elog ht
    llog_tail := by
      intro t k e ht hk hke
      rcases led_win ht with rfl | ht
      · exact (hnone hk hke).elim
      · rw [win_llog_of_led hl ht] at hk
        rw [x.elog ht] at hke
        exact h.llog_tail ht hk hke
    llog_guard := by
      intro t k e c ht hk hke hc
      rcases led_win ht with rfl | ht
      · exact (hnone hk hke).elim
      · rw [win_llog_of_led hl ht] at hk ⊢
        rw [x.elog ht] at hke
        exact h.llog_guard ht hk hke hc
    acked_led := by
      rintro v t m (ha | ⟨rfl, rfl, rfl⟩)
      · exact h.acked_led_later x ha
      · exact ⟨⟨v, by simp [win]⟩, le_rfl, by rw [win_llog]⟩
    acked_keeps := by
      rintro v t m k (ha | ⟨rfl, rfl, rfl⟩) ht hk
      · exact h.acked_keeps_later x List.prefix_rfl ha hk
      · rw [win_llog]
        exact Or.inl (List.take_prefix _ _)
    committed_led := h.committed_led_later x
    committed_own := h.committed_own
    committed_quorum := h.committed_quorum_later x
    commit_le := h.commit_le
    commit_known := fun n => x.known (h.commit_known n) }

/-! ## A leader's log -/

/-- An entry that a leader appends makes the log of its term longer. -/
theorem extends_append (h : Inv S s) {a : ν} (e : ε) (hr : s.role a = .leader) : s.Extends (s.append a e) where
  term _ := le_rfl
  stood := id
  ballot := id
  leader := id
  elog _ := rfl
  llog := by
    intro t _
    by_cases ht : t = s.term a
    · subst ht
      rw [← (h.role_leader hr).2]
      simp [append]
    · simp [append, ht]
  acked := Or.inl
  committed := id

/-- The leader's log has one entry more. -/
@[simp] theorem State.append_log (s : State ν ε) (a : ν) (e : ε) : (s.append a e).log a = s.log a ++ [e] := by simp [append]

/-- The logs of the others stay what they are. -/
theorem State.append_log_of_ne {a n : ν} (e : ε) (hn : n ≠ a) : (s.append a e).log n = s.log n := by simp [append, hn]

/-- So has the log of its term. -/
@[simp] theorem State.append_llog (s : State ν ε) (a : ν) (e : ε) : (s.append a e).llog (s.term a) = s.log a ++ [e] := by
  simp [append]

/-- The logs of the other terms stay what they are. -/
theorem State.append_llog_of_ne {a : ν} (e : ε) {t : ℤ} (ht : t ≠ s.term a) : (s.append a e).llog t = s.llog t := by
  simp [append, ht]

/-- An entry adds an acknowledgement of the leader's own term. -/
theorem State.acked_append {a v : ν} {e : ε} {t : ℤ} {m : ℕ} (h : (s.append a e).acked v t m) :
    s.acked v t m ∨ t = s.term v := by
  rcases h with h | ⟨rfl, rfl, -⟩
  · exact Or.inl h
  · exact Or.inr rfl

/-- No log becomes shorter. -/
theorem State.log_prefix_append (a : ν) (e : ε) : ∀ n, s.log n <+: (s.append a e).log n :=
  (Function.forall_update_iff s.log fun n X => s.log n <+: X).2 ⟨List.prefix_append _ _, fun _ _ => List.prefix_rfl⟩

/-- The longer log is made of leaders' logs: the entry stands where the leader of its term has it. -/
theorem Inv.wellFormed_append (h : Inv S s) {a : ν} {e : ε} (hr : s.role a = .leader) (he : S.term e = s.term a) :
    (s.append a e).WellFormed S (s.log a ++ [e]) := by
  have x := extends_append h e hr
  intro k e' hk
  rcases getElem?_concat_cases hk with hk' | ⟨rfl, rfl⟩
  · have hlt := (List.getElem?_eq_some_iff.1 hk').1
    rw [List.take_append_of_le_length hlt]
    exact x.wellFormed (h.log_wf a) k e' hk'
  · rw [he, append_llog]
    exact ⟨x.led ⟨a, (h.role_leader hr).1⟩, List.take_prefix _ _⟩

omit [DecidableEq ν] in
/-- Every configuration in the longer log was proposed after a commit of the term. -/
theorem Inv.guard_append (h : Inv S s) {a : ν} {e : ε} (hr : s.role a = .leader)
    (hg : ∀ c, S.config e = some c → S.adjacent (S.cfg (s.log a)) c ∧
      ∃ n Y, s.committed (s.term a) n Y ∧ Y <+: s.log a ∧ S.Quiet (s.log a) n (s.log a).length)
    {k : ℕ} {e' : ε} {c : γ} (hk : (s.log a ++ [e])[k]? = some e') (hke : (s.elog (s.term a)).length ≤ k) (hc : S.config e' = some c) :
    S.adjacent (S.cfg ((s.log a ++ [e]).take k)) c ∧
      ∃ n Y, s.committed (s.term a) n Y ∧ Y <+: (s.log a ++ [e]).take k ∧ S.Quiet (s.log a ++ [e]) n k := by
  obtain ⟨hlead, hlog⟩ := h.role_leader hr
  have hkl : k ≤ (s.log a).length := by
    have := (List.getElem?_eq_some_iff.1 hk).1
    simpa [Nat.lt_succ_iff] using this
  rw [List.take_append_of_le_length hkl]
  have hold : S.adjacent (S.cfg ((s.log a).take k)) c ∧
      ∃ n Y, s.committed (s.term a) n Y ∧ Y <+: (s.log a).take k ∧ S.Quiet (s.log a) n k := by
    rcases getElem?_concat_cases hk with hk | ⟨rfl, rfl⟩
    · rw [hlog] at hk ⊢
      exact h.llog_guard ⟨a, hlead⟩ hk hke hc
    · rw [List.take_length]
      exact hg c hc
  obtain ⟨h1, n, Y, h2, h3, hquiet⟩ := hold
  refine ⟨h1, n, Y, h2, h3, fun j e'' hj hjk hj' => hquiet j e'' hj hjk ?_⟩
  rwa [List.getElem?_append_left (by omega)] at hj'

/-- An entry that a leader appends keeps the invariant: a configuration comes next to the one before it, and rests on a commit of the term.
-/
theorem inv_append (h : Inv S s) {a : ν} {e : ε} (hr : s.role a = .leader) (he : S.term e = s.term a)
    (hg : ∀ c, S.config e = some c → S.adjacent (S.cfg (s.log a)) c ∧
      ∃ n Y, s.committed (s.term a) n Y ∧ Y <+: s.log a ∧ S.Quiet (s.log a) n (s.log a).length) :
    Inv S (s.append a e) := by
  have x := extends_append h e hr
  obtain ⟨hlead, hlog⟩ := h.role_leader hr
  exact {
    term_nonneg := h.term_nonneg
    log_wf := (Function.forall_update_iff s.log fun _ X => (s.append a e).WellFormed S X).2
      ⟨h.wellFormed_append hr he, fun n _ => x.wellFormed (h.log_wf n)⟩
    log_term := (Function.forall_update_iff s.log fun n X => ∀ e ∈ X, S.term e ≤ s.term n).2
      ⟨List.forall_mem_append.2 ⟨h.log_term a, List.forall_mem_singleton.2 he.le⟩, fun n _ => h.log_term n⟩
    stood_wf := fun hs => x.wellFormed (h.stood_wf hs)
    stood_term := h.stood_term
    stood_le := h.stood_le
    stood_role := by
      intro b hb
      have hba : b ≠ a := by
        rintro rfl
        exact absurd (hr.symm.trans hb) nofun
      rw [append_log_of_ne e hba]
      exact h.stood_role hb
    ballot_wf := fun hb => x.wellFormed (h.ballot_wf hb)
    ballot_le := h.ballot_le
    vote_ballot := h.vote_ballot
    ballot_fresh := h.ballot_fresh
    ballot_keeps := fun hb => (h.ballot_keeps hb).of_ballot h x acked_append hb
    leader_le := h.leader_le
    leader_stood := h.leader_stood
    leader_elected := h.elected_later x acked_append
    role_leader := by
      intro b hb
      obtain ⟨h1, h2⟩ := h.role_leader hb
      refine ⟨h1, ?_⟩
      by_cases hba : b = a
      · rw [hba, append_log]
        exact (append_llog s a e).symm
      · rw [append_log_of_ne e hba]
        have ht : s.term b ≠ s.term a := by
          intro ht
          rw [ht, hlead, Option.some.injEq] at h1
          exact hba h1.symm
        exact h2.trans (append_llog_of_ne e ht).symm
    llog_wf := by
      intro t ht
      by_cases hta : t = s.term a
      · rw [hta, append_llog]
        exact h.wellFormed_append hr he
      · rw [append_llog_of_ne e hta]
        exact x.wellFormed (h.llog_wf ht)
    llog_elog := fun ht => (h.llog_elog ht).trans (x.llog ht)
    llog_tail := by
      intro t k e' ht hk hke
      by_cases hta : t = s.term a
      · subst hta
        rw [append_llog] at hk
        rcases getElem?_concat_cases hk with hk | ⟨-, rfl⟩
        · exact h.llog_tail ht (hlog ▸ hk) hke
        · exact he
      · rw [append_llog_of_ne e hta] at hk
        exact h.llog_tail ht hk hke
    llog_guard := by
      intro t k e' c ht hk hke hc
      by_cases hta : t = s.term a
      · subst hta
        rw [append_llog] at hk ⊢
        exact h.guard_append hr hg hk hke hc
      · rw [append_llog_of_ne e hta] at hk ⊢
        exact h.llog_guard ht hk hke hc
    acked_led := by
      rintro v t m (ha | ⟨rfl, rfl, rfl⟩)
      · exact h.acked_led_later x ha
      · exact ⟨⟨v, hlead⟩, le_rfl, by rw [append_llog]; simp⟩
    acked_keeps := by
      rintro v t m k (ha | ⟨rfl, rfl, rfl⟩) ht hk
      · exact h.acked_keeps_later x (log_prefix_append a e v) ha hk
      · rw [append_llog, append_log]
        exact Or.inl (List.take_prefix _ _)
    committed_led := h.committed_led_later x
    committed_own := h.committed_own
    committed_quorum := h.committed_quorum_later x
    commit_le := (Function.forall_update_iff s.log fun n X => s.commit n ≤ X.length).2
      ⟨(h.commit_le a).trans (by simp), fun n _ => h.commit_le n⟩
    commit_known := by
      refine (Function.forall_update_iff s.log fun n X => s.Committed (s.term n) (X.take (s.commit n))).2 ⟨?_, fun n _ => h.commit_known n⟩
      rw [List.take_append_of_le_length (h.commit_le a)]
      exact h.commit_known a }

/-! ## Followers' logs and acknowledgements -/

/-- Taking over a leader's entries takes nothing from the history. -/
theorem extends_accept (f : ν) (m : ℕ) : s.Extends (s.accept f m) :=
  ⟨fun _ => le_rfl, id, id, id, fun _ => rfl, fun _ => List.prefix_rfl, id, id⟩

/-- Taking over a leader's entries keeps the invariant: committed entries are in the leader's log, so the merge leaves them alone, and what
the leader of the term does not hold it overrules. -/
theorem inv_accept (h : Inv S s) {f : ν} {m : ℕ} (hr : s.role f = .follower) (hl : s.Led (s.term f)) :
    Inv S (s.accept f m) := by
  have hla : (s.accept f m).log f = merge (s.log f) ((s.llog (s.term f)).take m) := by simp [accept]
  have hlne : ∀ n, n ≠ f → (s.accept f m).log n = s.log n := fun n hn => by simp [accept, hn]
  have hcom : (s.log f).take (s.commit f) <+: merge (s.log f) ((s.llog (s.term f)).take m) :=
    prefix_merge_both (List.take_prefix _ _) (h.known_prefix_llog (h.commit_known f) hl le_rfl)
  have hlen : ((s.log f).take (s.commit f)).length = s.commit f := List.length_take_of_le (h.commit_le f)
  exact { h with
    log_wf := (Function.forall_update_iff s.log fun _ X => s.WellFormed S X).2
      ⟨(h.log_wf f).merge ((h.llog_wf hl).take m), fun n _ => h.log_wf n⟩
    log_term := by
      refine (Function.forall_update_iff s.log fun n X => ∀ e ∈ X, S.term e ≤ s.term n).2 ⟨fun e he => ?_, fun n _ => h.log_term n⟩
      rcases mem_merge he with he | he
      · exact h.log_term f e he
      · exact h.llog_term hl (List.mem_of_mem_take he)
    stood_role := by
      intro b hb
      have hbf : b ≠ f := by
        rintro rfl
        exact absurd (hr.symm.trans hb) nofun
      rw [hlne b hbf]
      exact h.stood_role hb
    role_leader := by
      intro b hb
      have hbf : b ≠ f := by
        rintro rfl
        exact absurd (hr.symm.trans hb) nofun
      rw [hlne b hbf]
      exact h.role_leader hb
    acked_keeps := by
      intro v t n k ha ht hk
      by_cases hv : v = f
      · subst hv
        obtain ⟨h1, h2, -⟩ := h.acked_led ha
        rw [hla]
        rcases h.acked_keeps v t n k ha ht hk with h4 | h4
        · rcases lt_or_eq_of_le h2 with hlt | rfl
          · by_cases hp : (s.llog t).take k <+: s.elog (s.term v)
            · exact Or.inl (prefix_merge_both h4 (hp.trans (h.llog_elog hl)))
            · exact Or.inr ⟨s.term v, hlt, le_rfl, hl, hp⟩
          · exact Or.inl (prefix_merge_both h4 (List.take_prefix _ _))
        · exact Or.inr h4
      · rw [hlne v hv]
        exact h.acked_keeps v t n k ha ht hk
    commit_le := (Function.forall_update_iff s.log fun n X => s.commit n ≤ X.length).2
      ⟨hlen ▸ hcom.length_le, fun n _ => h.commit_le n⟩
    commit_known := by
      refine (Function.forall_update_iff s.log fun n X => s.Committed (s.term n) (X.take (s.commit n))).2 ⟨?_, fun n _ => h.commit_known n⟩
      rw [take_extends hcom hlen.ge, List.take_take, Nat.min_self]
      exact h.commit_known f }

omit [DecidableEq ν] in
/-- An acknowledgement adds to the history. -/
theorem extends_ack (f : ν) (m : ℕ) : s.Extends (s.ack f m) :=
  ⟨fun _ => le_rfl, id, id, id, fun _ => rfl, fun _ => List.prefix_rfl, Or.inl, id⟩

omit [DecidableEq ν] in
/-- An acknowledgement keeps the invariant. -/
theorem inv_ack (h : Inv S s) {f : ν} {m : ℕ} (hl : s.Led (s.term f)) (hm : m ≤ (s.llog (s.term f)).length)
    (hp : (s.llog (s.term f)).take m <+: s.log f) : Inv S (s.ack f m) := by
  have x : s.Extends (s.ack f m) := extends_ack f m
  have hnew : ∀ {v t n}, (s.ack f m).acked v t n → s.acked v t n ∨ t = s.term v := by
    rintro v t n (ha | ⟨rfl, rfl, -⟩)
    · exact Or.inl ha
    · exact Or.inr rfl
  exact { h with
    ballot_keeps := fun hb => (h.ballot_keeps hb).of_ballot h x hnew hb
    leader_elected := h.elected_later x hnew
    acked_led := by
      rintro v t n (ha | ⟨rfl, rfl, rfl⟩)
      · exact h.acked_led ha
      · exact ⟨hl, le_rfl, hm⟩
    acked_keeps := by
      rintro v t n k (ha | ⟨rfl, rfl, rfl⟩) ht hk
      · exact h.acked_keeps v t n k ha ht hk
      · exact Or.inl ((List.take_prefix_take_left hk).trans hp)
    committed_quorum := h.committed_quorum_later x }

/-! ## Commits -/

/-- A commit adds to the history. -/
theorem extends_commitTo (a : ν) (n : ℕ) : s.Extends (s.commitTo a n) :=
  ⟨fun _ => le_rfl, id, id, id, fun _ => rfl, fun _ => List.prefix_rfl, id, Or.inl⟩

/-- A commit keeps the invariant: a quorum of the leader's configuration has acknowledged an entry of its term. -/
theorem inv_commitTo (h : Inv S s) {a : ν} {n : ℕ} {e : ε} (hr : s.role a = .leader) (hn : 0 < n)
    (he : (s.log a)[n - 1]? = some e) (ht : S.term e = s.term a)
    (hq : S.quorum (S.cfg (s.log a)) {v | ∃ m, n ≤ m ∧ s.acked v (s.term a) m}) : Inv S (s.commitTo a n) := by
  obtain ⟨hlead, hlog⟩ := h.role_leader hr
  have x : s.Extends (s.commitTo a n) := extends_commitTo a n
  have hnl : n ≤ (s.log a).length := by
    have := (List.getElem?_eq_some_iff.1 he).1
    omega
  exact { h with
    llog_guard := by
      intro t k e' c hl hk hke hc
      obtain ⟨h1, m, Y, h2, h3⟩ := h.llog_guard hl hk hke hc
      exact ⟨h1, m, Y, Or.inl h2, h3⟩
    committed_led := by
      rintro t m Y (hc | ⟨rfl, rfl, rfl⟩)
      · exact h.committed_led hc
      · exact ⟨⟨a, hlead⟩, hlog ▸ List.prefix_rfl, hn⟩
    committed_own := by
      rintro t m Y (hc | ⟨rfl, rfl, rfl⟩)
      · exact h.committed_own hc
      · exact ⟨e, he, ht⟩
    committed_quorum := by
      rintro t m Y (hc | ⟨rfl, rfl, rfl⟩)
      · exact h.committed_quorum hc
      · exact hq
    commit_le := by
      intro m
      by_cases hm : m = a
      · subst hm
        simpa [commitTo] using hnl
      · simpa [commitTo, hm] using h.commit_le m
    commit_known := by
      intro m
      by_cases hm : m = a
      · subst hm
        have : (s.commitTo m n).commit m = n := by simp [commitTo]
        rw [this]
        exact Or.inr ⟨s.term m, n, s.log m, le_rfl, Or.inr ⟨rfl, rfl, rfl⟩, List.prefix_rfl⟩
      · have : (s.commitTo a n).commit m = s.commit m := by simp [commitTo, hm]
        rw [this]
        exact x.known (h.commit_known m) }

/-- What a node learns of commits is no part of the history. -/
theorem extends_learn (f : ν) (n : ℕ) : s.Extends (s.learn f n) :=
  ⟨fun _ => le_rfl, id, id, id, fun _ => rfl, fun _ => List.prefix_rfl, id, id⟩

/-- A node that learns of a commit knows of no more than was committed. -/
theorem inv_learn (h : Inv S s) {f : ν} {n : ℕ} (hn : n ≤ (s.log f).length)
    (hk : s.Committed (s.term f) ((s.log f).take n)) : Inv S (s.learn f n) := by
  exact { h with
    commit_le := by
      intro m
      by_cases hm : m = f
      · subst hm
        simpa [learn] using hn
      · simpa [learn, hm] using h.commit_le m
    commit_known := by
      intro m
      by_cases hm : m = f
      · subst hm
        have : (s.learn m n).commit m = n := by simp [learn]
        rw [this]
        exact hk
      · have : (s.learn f n).commit m = s.commit m := by simp [learn, hm]
        rw [this]
        exact h.commit_known m }

/-! ## Runs -/

omit [DecidableEq ν] in
/-- The first state satisfies the invariant. -/
theorem inv_init : Inv S (State.init : State ν ε) where
  term_nonneg _ := le_rfl
  log_wf _ _ _ hk := by simp [State.init] at hk
  log_term _ _ he := by simp [State.init] at he
  stood_wf hs := by simp [State.init] at hs
  stood_term hs := by simp [State.init] at hs
  stood_le hs := by simp [State.init] at hs
  stood_role hr := by simp [State.init] at hr
  ballot_wf hb := by simp [State.init] at hb
  ballot_le hb := by simp [State.init] at hb
  vote_ballot hv := by simp [State.init] at hv
  ballot_fresh hb := by simp [State.init] at hb
  ballot_keeps hb := by simp [State.init] at hb
  leader_le hl := by simp [State.init] at hl
  leader_stood hl := by simp [State.init] at hl
  leader_elected hl := by simp [State.init] at hl
  role_leader hr := by simp [State.init] at hr
  llog_wf hl := by simp [State.init, State.Led] at hl
  llog_elog hl := by simp [State.init, State.Led] at hl
  llog_tail hl := by simp [State.init, State.Led] at hl
  llog_guard hl := by simp [State.init, State.Led] at hl
  acked_led ha := by simp [State.init] at ha
  acked_keeps _ _ _ _ ha := by simp [State.init] at ha
  committed_led hc := by simp [State.init] at hc
  committed_own hc := by simp [State.init] at hc
  committed_quorum hc := by simp [State.init] at hc
  commit_le _ := le_rfl
  commit_known _ := Or.inl rfl

/-- Every step keeps the invariant. -/
theorem Step.inv (h : Inv S s) (hs : Step S s s') : Inv S s' := by
  cases hs with
  | newTerm n u hu => exact inv_newTerm h hu
  | stepDown n => exact inv_stepDown h n
  | campaign n u hu => exact inv_campaign h hu
  | grant v a E hv hE hup => exact inv_grant h hv hE hup
  | win a hr hq => exact inv_win h hr hq
  | append a e hr he hc => exact inv_append h hr he (by simp [hc])
  | reconfigure a e c n Y hr he hc hadj hcom hY hq =>
    refine inv_append h hr he fun c' hc' => ?_
    rw [hc, Option.some.injEq] at hc'
    subst hc'
    exact ⟨hadj, n, Y, hcom, hY, hq⟩
  | accept f m hr hl _ => exact inv_accept h hr hl
  | ack f m hl hm hp => exact inv_ack h hl hm hp
  | commitTo a n e hr hn he ht hq => exact inv_commitTo h hr hn he ht hq
  | learn f n hn hk => exact inv_learn h hn hk

/-- Every step continues the history. -/
theorem Step.extends (h : Inv S s) (hs : Step S s s') : s.Extends s' := by
  cases hs with
  | newTerm n u hu => exact extends_newTerm hu
  | stepDown n => exact extends_stepDown n
  | campaign n u hu => exact extends_campaign h hu
  | grant v a E hv _ _ => exact extends_grant h hv
  | win a hr hq => exact extends_win (h.not_led_of_quorum hr hq)
  | append a e hr _ _ => exact extends_append h e hr
  | reconfigure a e _ _ _ hr _ _ _ _ _ _ => exact extends_append h e hr
  | accept f m _ _ _ => exact extends_accept f m
  | ack f m _ _ _ => exact extends_ack f m
  | commitTo a n _ _ _ _ _ _ => exact extends_commitTo a n
  | learn f n _ _ => exact extends_learn f n

/-- A run keeps the invariant and continues the history. -/
theorem Steps.inv_extends (h : Inv S s) (hs : Steps S s s') : Inv S s' ∧ s.Extends s' := by
  induction hs with
  | refl => exact ⟨h, State.Extends.refl s⟩
  | tail _ hstep ih => exact ⟨hstep.inv ih.1, ih.2.trans (hstep.extends ih.1)⟩

end Consensus
