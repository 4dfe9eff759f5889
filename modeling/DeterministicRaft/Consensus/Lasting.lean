import DeterministicRaft.Consensus.Preserve

/-!
# What lasts until the next election

Entries get into a log only from the leader of the term that the node is in. So a node that has voted in a term has the log it voted
with, until somebody is elected in that term or a later one; and a leader has what it has built, until somebody is elected in a later
term. That is as up to date as the logs of those who have elected it.
-/

namespace Consensus

variable {ν ε γ : Type*} {S : Scheme ν ε γ} {s s' : State ν ε} {X Y Z : List ε} {u : ℤ} {a : ν}

/-- Nobody leads, or has led, a term after `u`. -/
def State.Latest (s : State ν ε) (u : ℤ) : Prop := ∀ t, s.Led t → t ≤ u

/-! ## Logs that are up to date -/

/-- What is as up to date as an up-to-date log. -/
theorem Scheme.UpToDate.trans (h : S.UpToDate X Y) (h' : S.UpToDate Y Z) : S.UpToDate X Z := by
  rcases h with hlt | ⟨heq, hle⟩
  · rcases h' with hlt' | ⟨heq', -⟩
    · exact Or.inl (hlt'.trans hlt)
    · exact Or.inl (heq'.trans_lt hlt)
  · rcases h' with hlt' | ⟨heq', hle'⟩
    · exact Or.inl (hlt'.trans_eq heq)
    · exact Or.inr ⟨heq'.trans heq, hle'.trans hle⟩

namespace Inv

/-- A log is as up to date as its first entries. -/
theorem upToDate_of_prefix (h : Inv S s) (hY : s.WellFormed S Y) (hp : X <+: Y) : S.UpToDate Y X := by
  by_cases hne : X = []
  · subst hne
    by_cases hnil : Y = []
    · subst hnil
      exact Or.inr ⟨rfl, le_rfl⟩
    · have hpos := h.led_pos (hY.last hnil).1
      exact Or.inl hpos
  · obtain ⟨-, -, e, he, ht⟩ := (hY.mono hp).last hne
    have hnil : Y ≠ [] := by
      rintro rfl
      exact hne (List.prefix_nil.1 hp)
    obtain ⟨-, -, e', he', ht'⟩ := hY.last hnil
    have hlen := hp.length_le
    have hle := h.sorted hY (getElem?_extends hp he) he' (by omega)
    rw [ht, ht'] at hle
    exact hle.lt_or_eq.imp id fun heq => ⟨heq, hlen⟩

/-- A last leader's log that ends in its own term is as up to date as any. -/
theorem upToDate_of_own (h : Inv S s) (hu : s.Led u) (hlast : s.Latest u) (hown : S.lastTerm (s.llog u) = u) (hX : s.WellFormed S X) :
    S.UpToDate (s.llog u) X := by
  by_cases hne : X = []
  · subst hne
    left
    rw [hown, S.lastTerm_nil]
    exact h.led_pos hu
  · obtain ⟨hled, hp, -⟩ := hX.last hne
    rcases (hlast _ hled).lt_or_eq with hlt | heq
    · left
      rwa [hown]
    · right
      rw [heq] at hp
      exact ⟨heq.trans hown.symm, hp.length_le⟩

/-- What a leader has built is what it was elected with, or it ends in its own term. -/
theorem llog_cases (h : Inv S s) (hu : s.Led u) : s.llog u = s.elog u ∨ S.lastTerm (s.llog u) = u := by
  have hp := h.llog_elog hu
  rcases Nat.lt_or_ge (s.elog u).length (s.llog u).length with hlt | hge
  · right
    have hne : s.llog u ≠ [] := List.ne_nil_of_length_pos (by omega)
    obtain ⟨-, -, e, he, ht⟩ := (h.llog_wf hu).last hne
    rw [← ht]
    exact h.llog_tail hu he (by omega)
  · exact Or.inl (hp.eq_of_length (hp.length_le.antisymm hge)).symm

end Inv

/-! ## Between elections -/

/-- What lasts until the next election. -/
structure Lasting (S : Scheme ν ε γ) (s : State ν ε) : Prop where
  /-- A voter has the log it voted with, until somebody is elected in that term or a later one. -/
  voter : ∀ {u : ℤ} {v a : ν} {V : List ε}, s.ballot u v = some (a, V) → (∀ t, s.Led t → t < u) → s.log v = V
  /-- A leader has what it has built, until somebody is elected in a later term. -/
  leader : ∀ {u : ℤ} {a : ν}, s.leader u = some a → s.Latest u → s.log a = s.llog u
  /-- And that is as up to date as the logs of its electors. -/
  elector : ∀ {u : ℤ} {v a : ν} {V : List ε}, s.ballot u v = some (a, V) → s.leader u = some a → s.Latest u →
    S.UpToDate (s.llog u) (s.log v)

/-- The last leader's log is as up to date as all others, or as those of a quorum of its configuration. -/
theorem Lasting.quorum (hl : Lasting S s) (h : Inv S s) (ha : s.leader u = some a) (hlast : s.Latest u) :
    (∀ v, S.UpToDate (s.log a) (s.log v)) ∨ S.quorum (S.cfg (s.log a)) {v | S.UpToDate (s.log a) (s.log v)} := by
  have hu : s.Led u := ⟨a, ha⟩
  rw [hl.leader ha hlast]
  rcases h.llog_cases hu with heq | hown
  · right
    have hq := h.leader_elected ha
    rw [← heq] at hq
    refine S.quorum_mono hq ?_
    rintro v ⟨V, hV, -⟩
    exact hl.elector hV ha hlast
  · exact Or.inl fun v => h.upToDate_of_own hu hlast hown (h.log_wf v)

theorem lasting_init [DecidableEq ν] : Lasting S (State.init : State ν ε) := by
  refine ⟨fun hb => ?_, fun ha => ?_, fun hb => ?_⟩
  · simp [State.init] at hb
  · simp [State.init] at ha
  · simp [State.init] at hb

/-- New ballots are cast with the logs that the voters have. -/
theorem Lasting.cast (hl : Lasting S s) (hlog : s'.log = s.log) (hleader : s'.leader = s.leader) (hllog : s'.llog = s.llog)
    (hb : ∀ {u : ℤ} {v a : ν} {V : List ε}, s'.ballot u v = some (a, V) → s.ballot u v = some (a, V) ∨
      (V = s.log v ∧ (s.leader u = some a → S.UpToDate (s.llog u) (s.log v)))) : Lasting S s' := by
  have hled : ∀ t, s.Led t → s'.Led t := by
    intro t ht
    rwa [State.Led, hleader]
  refine ⟨fun {u v a V} hV hlt => ?_, fun {u a} ha hlast => ?_, fun {u v a V} hV ha hlast => ?_⟩
  · rw [hlog]
    rcases hb hV with hV | ⟨rfl, -⟩
    · exact hl.voter hV fun t ht => hlt t (hled t ht)
    · rfl
  · rw [hlog, hllog]
    rw [hleader] at ha
    exact hl.leader ha fun t ht => hlast t (hled t ht)
  · rw [hlog, hllog]
    rw [hleader] at ha
    rcases hb hV with hV | ⟨-, hup⟩
    · exact hl.elector hV ha fun t ht => hlast t (hled t ht)
    · exact hup ha

variable [DecidableEq ν]

/-- A candidate that wins has a log as up to date as those of its electors. Where nobody has led that term or a later one, the electors
have the logs with which they voted. -/
theorem Lasting.win (hl : Lasting S s) (h : Inv S s) (hr : s.role a = .candidate)
    (hq : S.quorum (S.cfg (s.log a)) {v | ∃ V, s.ballot (s.term a) v = some (a, V)}) : Lasting S (s.win a) := by
  have hno := h.not_led_of_quorum hr hq
  have x := extends_win hno
  have hnow : (s.win a).Led (s.term a) := ⟨a, by simp [State.win]⟩
  have hleader : ∀ {t : ℤ} {b : ν}, (s.win a).leader t = some b → (t = s.term a ∧ b = a) ∨ (t ≠ s.term a ∧ s.leader t = some b) := by
    intro t b hb
    by_cases ht : t = s.term a
    · subst ht
      exact Or.inl ⟨rfl, by simpa [State.win, eq_comm] using hb⟩
    · exact Or.inr ⟨ht, by simpa [State.win, ht] using hb⟩
  have hllog : ∀ {t : ℤ}, t ≠ s.term a → (s.win a).llog t = s.llog t := fun ht => by simp [State.win, ht]
  have hllog' : (s.win a).llog (s.term a) = s.log a := by simp [State.win]
  refine ⟨fun {u v b V} hV hlt => ?_, fun {u b} hb hlast => ?_, fun {u v b V} hV hb hlast => ?_⟩
  · exact hl.voter hV fun t ht => hlt t (x.led ht)
  · rcases hleader hb with ⟨rfl, rfl⟩ | ⟨ht, hb⟩
    · exact hllog'.symm
    · rw [hllog ht]
      exact hl.leader hb fun t ht => hlast t (x.led ht)
  · rcases hleader hb with ⟨rfl, rfl⟩ | ⟨ht, hb⟩
    · have hlt : ∀ t, s.Led t → t < s.term b := by
        intro t ht
        refine lt_of_le_of_ne (hlast t (x.led ht)) ?_
        rintro rfl
        exact hno ht
      obtain ⟨E, hE, hup⟩ := h.ballot_fresh hV
      rw [h.stood_role hr, Option.some.injEq] at hE
      rw [hllog', show (s.win b).log v = V from hl.voter hV hlt, hE]
      exact hup
    · rw [hllog ht]
      exact hl.elector hV hb fun t ht => hlast t (x.led ht)

/-- An entry that a last leader appends is of its own term. -/
theorem Lasting.append (hl : Lasting S s) (h : Inv S s) {e : ε} (hr : s.role a = .leader) (ht : S.term e = s.term a)
    (h' : Inv S (s.append a e)) : Lasting S (s.append a e) := by
  obtain ⟨hlead, -⟩ := h.role_leader hr
  have hled : s.Led (s.term a) := ⟨a, hlead⟩
  have hlog : ∀ {v : ν}, v ≠ a → (s.append a e).log v = s.log v := fun hv => by simp [State.append, hv]
  have hllog : ∀ {t : ℤ}, t ≠ s.term a → (s.append a e).llog t = s.llog t := fun ht => by simp [State.append, ht]
  have hllog' : (s.append a e).llog (s.term a) = s.log a ++ [e] := by simp [State.append]
  refine ⟨fun {u v b V} hV hlt => ?_, fun {u b} hb hlast => ?_, fun {u v b V} hV hb hlast => ?_⟩
  · have hva : v ≠ a := by
      rintro rfl
      have hle := (h.ballot_le hV).1
      have hlt := hlt _ hled
      omega
    rw [hlog hva]
    exact hl.voter hV hlt
  · by_cases hba : b = a
    · subst hba
      have hle := (h.stood_le (h.leader_stood hb)).2
      obtain rfl : u = s.term b := hle.antisymm (hlast _ hled)
      rw [hllog']
      simp [State.append]
    · have hu : u ≠ s.term a := by
        rintro rfl
        exact hba (Option.some.inj ((show s.leader _ = some b from hb).symm.trans hlead))
      rw [hlog hba, hllog hu]
      exact hl.leader hb hlast
  · by_cases hu : u = s.term a
    · subst hu
      refine h'.upToDate_of_own ⟨b, hb⟩ hlast ?_ (h'.log_wf v)
      rw [hllog']
      simp [Scheme.lastTerm, ht]
    · have hva : v ≠ a := by
        rintro rfl
        exact hu ((h.ballot_le hV).1.antisymm (hlast _ hled))
      rw [hlog hva, hllog hu]
      exact hl.elector hV hb hlast

/-- What a node takes over from a last leader is no more up to date than what that leader has built. -/
theorem Lasting.accept (hl : Lasting S s) (h : Inv S s) {f : ν} {m : ℕ} (hled : s.Led (s.term f)) : Lasting S (s.accept f m) := by
  have hlog : ∀ {v : ν}, v ≠ f → (s.accept f m).log v = s.log v := fun hv => by simp [State.accept, hv]
  have hlog' : (s.accept f m).log f = merge (s.log f) ((s.llog (s.term f)).take m) := by simp [State.accept]
  refine ⟨fun {u v b V} hV hlt => ?_, fun {u b} hb hlast => ?_, fun {u v b V} hV hb hlast => ?_⟩
  · have hvf : v ≠ f := by
      rintro rfl
      have hle := (h.ballot_le hV).1
      have hlt := hlt _ hled
      omega
    rw [hlog hvf]
    exact hl.voter hV hlt
  · by_cases hbf : b = f
    · subst hbf
      obtain rfl : u = s.term b := (h.stood_le (h.leader_stood hb)).2.antisymm (hlast _ hled)
      have hsame := hl.leader hb hlast
      rw [hlog', hsame, merge_eq_left (List.take_prefix _ _)]
      rfl
    · rw [hlog hbf]
      exact hl.leader hb hlast
  · by_cases hvf : v = f
    · subst hvf
      obtain rfl : u = s.term v := (h.ballot_le hV).1.antisymm (hlast _ hled)
      rw [hlog']
      by_cases hp : (s.llog (s.term v)).take m <+: s.log v
      · rw [merge_eq_left hp]
        exact hl.elector hV hb hlast
      · rw [merge_eq_right hp]
        exact h.upToDate_of_prefix (h.llog_wf hled) (List.take_prefix _ _)
    · rw [hlog hvf]
      exact hl.elector hV hb hlast

/-- Every step keeps what lasts. -/
theorem Step.lasting (h : Inv S s) (hs : Step S s s') (hl : Lasting S s) : Lasting S s' := by
  have h' := ((Steps.single hs).inv_extends h).1
  cases hs with
  | newTerm | stepDown | ack | commitTo | learn => exact hl.cast rfl rfl rfl Or.inl
  | campaign n u hu =>
    refine hl.cast rfl rfl rfl fun {t v b V} hV => ?_
    by_cases htv : t = u ∧ v = n
    · simp only [State.campaign, if_pos htv, Option.some.injEq, Prod.mk.injEq] at hV
      obtain ⟨rfl, rfl⟩ := htv
      refine Or.inr ⟨hV.2.symm, fun hb => ?_⟩
      have hle := (h.stood_le (h.leader_stood hb)).2
      rw [← hV.1] at hle
      omega
    · simp only [State.campaign, if_neg htv] at hV
      exact Or.inl hV
  | grant v a E hv hE hup =>
    refine hl.cast rfl rfl rfl fun {t w b V} hV => ?_
    by_cases htw : t = s.term v ∧ w = v
    · simp only [State.grant, if_pos htw, Option.some.injEq, Prod.mk.injEq] at hV
      obtain ⟨rfl, rfl⟩ := htw
      refine Or.inr ⟨hV.2.symm, fun hb => ?_⟩
      rw [← hV.1] at hb
      have hled : s.Led (s.term w) := ⟨a, hb⟩
      rw [h.leader_stood hb, Option.some.injEq] at hE
      exact (h.upToDate_of_prefix (h.llog_wf hled) (hE ▸ h.llog_elog hled)).trans hup
    · simp only [State.grant, if_neg htw] at hV
      exact Or.inl hV
  | win a hr hq => exact hl.win h hr hq
  | append a e hr ht => exact hl.append h hr ht h'
  | reconfigure a e c n Y hr ht => exact hl.append h hr ht h'
  | accept f m hr hled => exact hl.accept h hled

/-- A run keeps what lasts. -/
theorem Steps.lasting (h : Inv S s) (hs : Steps S s s') (hl : Lasting S s) : Lasting S s' := by
  induction hs with
  | refl => exact hl
  | tail hs hstep ih => exact hstep.lasting (hs.inv_extends h).1 ih

end Consensus
