import DeterministicRaft.Consensus.Invariant

/-!
# What the invariant implies: complete leaders, one leader a term, commits that agree

The argument runs over the longest common prefix `Z` of a commit's log and a later leader's log. A configuration named in
either of them above `Z` was proposed after a commit of its term that lies inside `Z`, so each of the two names at most one
above `Z`, and if both do, both were proposed in the same term, by one leader, which is absurd. Hence the two
configurations are equal or one step apart, the two quorums meet (`quorums_meet`), and the voter in both carries the committed
entries over (`Evidence.complete`).
-/

namespace Consensus

variable {ν ε γ : Type*} {S : Scheme ν ε γ} {s : State ν ε}

open State

/-! ## Logs and terms -/

namespace Inv

/-- Only positive terms have leaders. -/
theorem led_pos (h : Inv S s) {t : ℤ} (ht : s.Led t) : 0 < t := by
  obtain ⟨a, ha⟩ := ht
  exact (h.stood_le (h.leader_stood ha)).1

/-- A leader was elected with older entries only. -/
theorem elog_term (h : Inv S s) {t : ℤ} (ht : s.Led t) {e : ε} (he : e ∈ s.elog t) : S.term e < t := by
  obtain ⟨a, ha⟩ := ht
  exact h.stood_term (h.leader_stood ha) e he

/-- No entry of a leader's log is of a later term. -/
theorem llog_term (h : Inv S s) {t : ℤ} (ht : s.Led t) {e : ε} (he : e ∈ s.llog t) : S.term e ≤ t := by
  obtain ⟨k, hk⟩ := List.mem_iff_getElem?.1 he
  rcases Nat.lt_or_ge k (s.elog t).length with hl | hl
  · exact (h.elog_term ht (List.mem_of_getElem? (getElem?_below (h.llog_elog ht) hk hl))).le
  · exact (h.llog_tail ht hk hl).le

/-- The terms of a log made of leaders' logs do not decrease. -/
theorem sorted (h : Inv S s) {X : List ε} (hX : s.WellFormed S X) {j k : ℕ} {e e' : ε} (hj : X[j]? = some e)
    (hk : X[k]? = some e') (hjk : j ≤ k) : S.term e ≤ S.term e' := by
  obtain ⟨hl, hp⟩ := hX k e' hk
  refine h.llog_term hl (List.mem_of_getElem? (getElem?_extends hp ?_) (i := j))
  rwa [List.getElem?_take_of_lt (Nat.lt_succ_of_le hjk)]

/-- A commit's last entry is of its own term, so it lies above what the leader was elected with. -/
theorem elog_lt_committed (h : Inv S s) {t : ℤ} {n : ℕ} {Y : List ε} (hc : s.committed t n Y) :
    (s.elog t).length < n := by
  obtain ⟨hl, hY, hn⟩ := h.committed_led hc
  obtain ⟨e, he, ht⟩ := h.committed_own hc
  by_contra hlt
  have hk := getElem?_below (h.llog_elog hl) (getElem?_extends hY he) (by omega)
  have := h.elog_term hl (List.mem_of_getElem? hk)
  omega

/-- A commit is within the log it was made under. -/
theorem committed_le (h : Inv S s) {t : ℤ} {n : ℕ} {Y : List ε} (hc : s.committed t n Y) : n ≤ Y.length := by
  obtain ⟨e, he, -⟩ := h.committed_own hc
  have := (List.getElem?_eq_some_iff.1 he).1
  omega

/-- The log a leader was elected with is under every commit of its term. -/
theorem elog_prefix_committed (h : Inv S s) {t : ℤ} {n : ℕ} {Y : List ε} (hc : s.committed t n Y) : s.elog t <+: Y := by
  obtain ⟨hl, hY, -⟩ := h.committed_led hc
  refine List.prefix_of_prefix_length_le (h.llog_elog hl) hY ?_
  have h1 := h.elog_lt_committed hc
  have h2 := h.committed_le hc
  omega

/-- A configuration named in a log made of leaders' logs was proposed after a commit of its term under it. -/
theorem guard (h : Inv S s) {X : List ε} (hX : s.WellFormed S X) {k : ℕ} {e : ε} {c : γ} (hk : X[k]? = some e)
    (hc : S.config e = some c) : S.adjacent (S.cfg (X.take k)) c ∧
      ∃ n Y, s.committed (S.term e) n Y ∧ Y <+: X.take k ∧ S.Quiet X n k := by
  obtain ⟨hl, hp⟩ := hX k e hk
  have hk' := getElem?_of_take_succ hp hk
  have hlen : k < X.length := (List.getElem?_eq_some_iff.1 hk).1
  have hge : (s.elog (S.term e)).length ≤ k := by
    by_contra hlt
    have := h.elog_term hl (List.mem_of_getElem? (getElem?_below (h.llog_elog hl) hk' (by omega)))
    omega
  have htake : (s.llog (S.term e)).take k = X.take k := by
    rw [take_extends hp (by rw [List.length_take_of_le hlen]; omega), List.take_take, Nat.min_eq_left (Nat.le_succ k)]
  obtain ⟨hadj, n, Y, hcom, hY, hq⟩ := h.llog_guard hl hk' hge hc
  rw [htake] at hadj hY
  refine ⟨hadj, n, Y, hcom, hY, fun j e' hj hjk he' => hq j e' hj hjk (getElem?_extends hp ?_)⟩
  rwa [List.getElem?_take_of_lt (by omega)]

end Inv

/-! ## Configurations above a common prefix -/

/-- Every configuration that `X` names above `Z` was proposed after a commit of its term that lies in `Z`. -/
def Anchored (S : Scheme ν ε γ) (s : State ν ε) (X Z : List ε) : Prop :=
  ∀ (k : ℕ) (e : ε) (c : γ), Z.length ≤ k → X[k]? = some e → S.config e = some c →
    ∃ n Y, s.committed (S.term e) n Y ∧ Y.take n <+: Z ∧ S.Quiet X n k

/-- An anchored log names at most one configuration above the anchor: the one in force is the anchor's or one step from it. -/
theorem Anchored.cfg_cases (h : Inv S s) {X Z : List ε} (hX : s.WellFormed S X) (hZ : Z <+: X)
    (ha : Anchored S s X Z) : S.cfg X = S.cfg Z ∨ (S.adjacent (S.cfg Z) (S.cfg X) ∧
      ∃ k e n Y, Z.length ≤ k ∧ X[k]? = some e ∧ s.committed (S.term e) n Y ∧ Y.take n <+: Z) := by
  obtain ⟨R, rfl⟩ := hZ
  induction R using List.reverseRecOn with
  | nil => exact Or.inl (by rw [List.append_nil])
  | append_singleton R e ih =>
    rw [← List.append_assoc] at hX ha ⊢
    have hX' : s.WellFormed S (Z ++ R) := hX.mono (List.prefix_append _ _)
    have hlast : (Z ++ R ++ [e])[(Z ++ R).length]? = some e := by simp
    rw [S.cfg_concat]
    cases hc : S.config e with
    | none =>
      have ha' : Anchored S s (Z ++ R) Z := by
        intro k e' c hk he' hc'
        obtain ⟨n, Y, h1, h2, h3⟩ := ha k e' c hk (getElem?_extends (List.prefix_append _ _) he') hc'
        exact ⟨n, Y, h1, h2, fun j e'' hj hjk hq => h3 j e'' hj hjk (getElem?_extends (List.prefix_append _ _) hq)⟩
      rw [Option.getD_none]
      rcases ih hX' ha' with h1 | ⟨h1, k, e', n, Y, h2, h3, h4⟩
      · exact Or.inl h1
      · exact Or.inr ⟨h1, k, e', n, Y, h2, getElem?_extends (List.prefix_append _ _) h3, h4⟩
    | some c =>
      obtain ⟨n, Y, hcom, hY, hq⟩ := ha _ e c (by simp) hlast hc
      have hn : n ≤ Z.length := by
        have := hY.length_le
        rwa [List.length_take_of_le (h.committed_le hcom)] at this
      have hsame : S.cfg (Z ++ R) = S.cfg Z := by
        have hR : ∀ e' ∈ R, S.config e' = none := by
          intro e' he'
          obtain ⟨j, hj⟩ := List.mem_iff_getElem?.1 he'
          refine hq (Z.length + j) e' (by omega) ?_ ?_
          · have := (List.getElem?_eq_some_iff.1 hj).1
            simp [this]
          · have hlt := (List.getElem?_eq_some_iff.1 hj).1
            rw [List.append_assoc, List.getElem?_append_right (by omega), Nat.add_sub_cancel_left,
              List.getElem?_append_left hlt]
            exact hj
        clear ih hX ha hX' hlast hq
        induction R using List.reverseRecOn with
        | nil => rw [List.append_nil]
        | append_singleton R e' ih' =>
          rw [← List.append_assoc, S.cfg_concat, hR e' (by simp), Option.getD_none]
          exact ih' (fun x hx => hR x (by simp [hx]))
      have hadj := (h.guard hX hlast hc).1
      rw [List.take_left, hsame] at hadj
      refine Or.inr ⟨?_, (Z ++ R).length, e, n, Y, by simp, hlast, hcom, hY⟩
      rwa [Option.getD_some]

/-- The quorums of two logs meet when both are anchored in their longest common prefix. Where both name a configuration, the two were
proposed in one term, by one leader, and the earlier one lies below the later. -/
theorem quorums_meet (h : Inv S s) {X X' Z : List ε} (hX : s.WellFormed S X) (hX' : s.WellFormed S X') (hZ : Z <+: X)
    (hZ' : Z <+: X') (hmax : ∀ W, W <+: X → W <+: X' → W <+: Z) (ha : Anchored S s X Z) (ha' : Anchored S s X' Z)
    {Q Q' : Set ν} (hQ : S.quorum (S.cfg X) Q) (hQ' : S.quorum (S.cfg X') Q') : ∃ v, v ∈ Q ∧ v ∈ Q' := by
  rcases ha.cfg_cases h hX hZ with h1 | ⟨h1, k, e, n, Y, hk, he, hcom, hY⟩
  · rcases ha'.cfg_cases h hX' hZ' with h2 | ⟨h2, -⟩
    · rw [h1] at hQ
      rw [h2] at hQ'
      exact S.overlap hQ hQ'
    · rw [h1] at hQ
      exact S.overlap_adjacent h2 hQ hQ'
  · rcases ha'.cfg_cases h hX' hZ' with h2 | ⟨-, k', e', n', Y', hk', he', hcom', hY'⟩
    · rw [h2] at hQ'
      obtain ⟨v, hv, hv'⟩ := S.overlap_adjacent h1 hQ' hQ
      exact ⟨v, hv', hv⟩
    · exfalso
      have inZ : ∀ {t : ℤ} {n : ℕ} {Y : List ε}, s.committed t n Y → Y.take n <+: Z →
          ∃ j x, j < Z.length ∧ Z[j]? = some x ∧ S.term x = t := by
        intro t n Y hc hp
        obtain ⟨x, hx, ht⟩ := h.committed_own hc
        have hpos := (h.committed_led hc).2.2
        have hx' : (Y.take n)[n - 1]? = some x := by rwa [List.getElem?_take_of_lt (by omega)]
        have hz := getElem?_extends hp hx'
        exact ⟨n - 1, x, (List.getElem?_eq_some_iff.1 hz).1, hz, ht⟩
      obtain ⟨j, x, hj, hx, hxt⟩ := inZ hcom hY
      obtain ⟨j', x', hj', hx', hxt'⟩ := inZ hcom' hY'
      have h3 : S.term e' ≤ S.term e := by
        rw [← hxt']
        exact h.sorted hX (getElem?_extends hZ hx') he (by omega)
      have h4 : S.term e ≤ S.term e' := by
        rw [← hxt]
        exact h.sorted hX' (getElem?_extends hZ' hx) he' (by omega)
      have hp := (hX k e he).2
      have hp' := (hX' k' e' he').2
      rw [le_antisymm h3 h4] at hp'
      have lk : (X.take (k + 1)).length = k + 1 := List.length_take_of_le (List.getElem?_eq_some_iff.1 he).1
      have lk' : (X'.take (k' + 1)).length = k' + 1 := List.length_take_of_le (List.getElem?_eq_some_iff.1 he').1
      rcases List.prefix_or_prefix_of_prefix hp hp' with hle | hle
      · have := (hmax _ (List.take_prefix _ _) (hle.trans (List.take_prefix _ _))).length_le
        omega
      · have := (hmax _ (hle.trans (List.take_prefix _ _)) (List.take_prefix _ _)).length_le
        omega

/-! ## Leader completeness -/

/-- The log `X` holds everything committed in terms before `u`. -/
def Complete (s : State ν ε) (X : List ε) (u : ℤ) : Prop :=
  ∀ (t : ℤ) (n : ℕ) (Y : List ε), s.committed t n Y → t < u → Y.take n <+: X

/-- What an election rests on: the log `E` was chosen over the logs of a quorum `Q` of its configuration, and each of these
logs keeps the commits its node acknowledged before, but for what leaders of terms before `u` overruled. -/
structure Evidence (S : Scheme ν ε γ) (s : State ν ε) (u : ℤ) (E : List ε) (Q : Set ν) : Prop where
  wf : s.WellFormed S E
  term_lt : ∀ e ∈ E, S.term e < u
  quorum : S.quorum (S.cfg E) Q
  voter : ∀ v ∈ Q, ∃ V, s.WellFormed S V ∧ S.UpToDate E V ∧
    ∀ (t : ℤ) (n : ℕ) (Y : List ε), s.committed t n Y → t < u → (∃ m, n ≤ m ∧ s.acked v t m) →
      Y.take n <+: V ∨ s.Overruled (Y.take n) t (u - 1)

/-- A log at least as up to date as one that holds a commit holds the commit, if every leader between does. Its last entry is of a later
leader, which holds the commit; or both logs end in the block of the commit's own leader, and it is the longer. -/
theorem carry (h : Inv S s) {u t : ℤ} {n : ℕ} {Y E V : List ε} (hE : s.WellFormed S E) (hEt : ∀ e ∈ E, S.term e < u)
    (hV : s.WellFormed S V) (hup : S.UpToDate E V) (hc : s.committed t n Y) (hYV : Y.take n <+: V)
    (hlt : ∀ r, t < r → r < u → s.Led r → Y.take n <+: s.elog r) : Y.take n <+: E := by
  obtain ⟨hl, hY, hn⟩ := h.committed_led hc
  have hlen := h.committed_le hc
  have hP : Y.take n <+: s.llog t := (List.take_prefix n Y).trans hY
  have hPl : (Y.take n).length = n := List.length_take_of_le hlen
  have hVne : V ≠ [] := by
    rintro rfl
    have := hYV.length_le
    simp only [List.length_nil] at this
    omega
  obtain ⟨-, hVp, y, hy, hyt⟩ := hV.last hVne
  obtain ⟨x, hx, hxt⟩ := h.committed_own hc
  have htV : t ≤ S.lastTerm V := by
    rw [← hxt, ← hyt]
    have hx' : (Y.take n)[n - 1]? = some x := by rwa [List.getElem?_take_of_lt (by omega)]
    refine h.sorted hV (getElem?_extends hYV hx') hy ?_
    have := hYV.length_le
    omega
  have htE : t ≤ S.lastTerm E := by
    rcases hup with h1 | ⟨h1, -⟩ <;> omega
  have hEne : E ≠ [] := by
    rintro rfl
    have := h.led_pos hl
    simp only [Scheme.lastTerm_nil] at htE
    omega
  obtain ⟨hEl, hEp, w, hw, hwt⟩ := hE.last hEne
  rcases lt_or_eq_of_le htE with hlt' | heq
  · have hlu : S.lastTerm E < u := hwt ▸ hEt w (List.mem_of_getElem? hw)
    have hPE : Y.take n <+: s.llog (S.lastTerm E) := (hlt _ hlt' hlu hEl).trans (h.llog_elog hEl)
    rcases Nat.lt_or_ge E.length n with hs | hs
    · exfalso
      have hEY : E <+: Y.take n := List.prefix_of_prefix_length_le hEp hPE (by omega)
      have := h.llog_term hl (List.mem_of_getElem? (getElem?_extends (hEY.trans hP) hw))
      omega
    · exact List.prefix_of_prefix_length_le hPE hEp (by omega)
  · rw [← heq] at hEp
    refine List.prefix_of_prefix_length_le hP hEp ?_
    have := hYV.length_le
    rcases hup with h1 | ⟨-, h1⟩ <;> omega

/-- A log chosen on evidence holds every earlier commit, if every earlier leader does. The induction is on the length of the log under
which the commit was made: a configuration of that log was proposed under a shorter one. -/
theorem Evidence.complete (h : Inv S s) {u : ℤ} {E : List ε} {Q : Set ν} (ev : Evidence S s u E Q)
    (hlt : ∀ r, r < u → s.Led r → Complete s (s.elog r) r) : Complete s E u := by
  suffices key : ∀ (b : ℕ) (t : ℤ) (n : ℕ) (Y : List ε), Y.length ≤ b → s.committed t n Y → t < u → Y.take n <+: E from
    fun t n Y => key Y.length t n Y le_rfl
  intro b
  induction b with
  | zero =>
    intro t n Y hb hc _
    have h1 := h.committed_le hc
    have h2 := (h.committed_led hc).2.2
    omega
  | succ b ih =>
    intro t n Y hb hc htu
    by_contra hno
    obtain ⟨hl, hY, hn⟩ := h.committed_led hc
    have hYwf : s.WellFormed S Y := (h.llog_wf hl).mono hY
    obtain ⟨Z, hZY, hZE, hmax⟩ := exists_meet Y E
    have haY : Anchored S s Y Z := by
      intro k e c hk he hcfg
      obtain ⟨-, n', Y', hc', hY', hq⟩ := h.guard hYwf he hcfg
      have hkY := (List.getElem?_eq_some_iff.1 he).1
      have hYl : Y'.length ≤ k := by
        have := hY'.length_le
        rwa [List.length_take_of_le hkY.le] at this
      have hte : S.term e ≤ t := h.llog_term hl (List.mem_of_getElem? (getElem?_extends hY he))
      have hE' := ih (S.term e) n' Y' (by omega) hc' (by omega)
      have hYY : Y'.take n' <+: Y := ((List.take_prefix _ _).trans hY').trans (List.take_prefix _ _)
      exact ⟨n', Y', hc', hmax _ hYY hE', hq⟩
    have haE : Anchored S s E Z := by
      intro k e c hk he hcfg
      obtain ⟨-, n', Y', hc', hY', hq⟩ := h.guard ev.wf he hcfg
      have hYE : Y'.take n' <+: E := ((List.take_prefix _ _).trans hY').trans (List.take_prefix _ _)
      obtain ⟨hel, hep⟩ := ev.wf k e he
      have heu := ev.term_lt e (List.mem_of_getElem? he)
      have hkl : (E.take (k + 1)).length = k + 1 := List.length_take_of_le (List.getElem?_eq_some_iff.1 he).1
      rcases lt_trichotomy (S.term e) t with hlt' | heq | hgt
      · have hYelog := hlt t htu hl (S.term e) n' Y' hc' hlt'
        exact ⟨n', Y', hc', hmax _ (hYelog.trans (h.elog_prefix_committed hc)) hYE, hq⟩
      · exfalso
        rw [heq] at hep
        rcases List.prefix_or_prefix_of_prefix hY hep with hp | hp
        · exact hno ((List.take_prefix _ _).trans (hp.trans (List.take_prefix _ _)))
        · have := (hmax _ hp (List.take_prefix _ _)).length_le
          omega
      · exfalso
        have hPelog := hlt (S.term e) heu hel t n Y hc hgt
        have hke : (s.elog (S.term e)).length ≤ k := by
          by_contra hk'
          have := h.elog_term hel (List.mem_of_getElem? (getElem?_below (h.llog_elog hel)
            (getElem?_of_take_succ hep he) (by omega)))
          omega
        have hPE : Y.take n <+: E.take (k + 1) := by
          refine List.prefix_of_prefix_length_le (hPelog.trans (h.llog_elog hel)) hep ?_
          have := hPelog.length_le
          omega
        exact hno (hPE.trans (List.take_prefix _ _))
    obtain ⟨v, hvQ, hvE⟩ := quorums_meet h hYwf ev.wf hZY hZE hmax haY haE (h.committed_quorum hc) ev.quorum
    obtain ⟨V, hV, hup, hkeep⟩ := ev.voter v hvE
    rcases hkeep t n Y hc htu hvQ with hYV | ⟨r, h1, h2, h3, h4⟩
    · exact hno (carry h ev.wf ev.term_lt hV hup hc hYV
        (fun r h1 h2 h3 => hlt r h2 h3 t n Y hc h1))
    · exact h4 (hlt r (by omega) h3 t n Y hc h1)

namespace Inv

/-- What a node keeps of its acknowledgements, it keeps of the commits it acknowledged. -/
theorem keeps_committed (h : Inv S s) {v : ν} {V : List ε} {u w : ℤ} (hk : s.Keeps v V u w) {t : ℤ} {n : ℕ} {Y : List ε}
    (hc : s.committed t n Y) (htu : t < u) (ha : ∃ m, n ≤ m ∧ s.acked v t m) :
    Y.take n <+: V ∨ s.Overruled (Y.take n) t w := by
  obtain ⟨m, hnm, hm⟩ := ha
  have he : (s.llog t).take n = Y.take n := take_extends (h.committed_led hc).2.1 (h.committed_le hc)
  have := hk t m n hm htu hnm
  rwa [he] at this

/-- Every election rests on evidence. -/
theorem evidence (h : Inv S s) {u : ℤ} {a : ν} (ha : s.leader u = some a) :
    Evidence S s u (s.elog u) {v | ∃ V, s.ballot u v = some (a, V) ∧ s.Keeps v V u (u - 1)} where
  wf := h.stood_wf (h.leader_stood ha)
  term_lt := h.stood_term (h.leader_stood ha)
  quorum := h.leader_elected ha
  voter := by
    rintro v ⟨V, hV, hkeep⟩
    obtain ⟨E, hE, hup⟩ := h.ballot_fresh hV
    rw [h.leader_stood ha, Option.some.injEq] at hE
    subst hE
    exact ⟨V, h.ballot_wf hV, hup, fun t n Y hc htu hq => h.keeps_committed hkeep hc htu hq⟩

/-- Leader completeness: the log a leader was elected with holds everything committed in earlier terms. -/
theorem complete (h : Inv S s) {u : ℤ} (hu : s.Led u) : Complete s (s.elog u) u := by
  suffices key : ∀ (b : ℕ) (u : ℤ), u.toNat ≤ b → s.Led u → Complete s (s.elog u) u from key u.toNat u le_rfl hu
  intro b
  induction b with
  | zero =>
    intro u hb hu
    have := h.led_pos hu
    omega
  | succ b ih =>
    intro u hb hu
    obtain ⟨a, ha⟩ := hu
    exact (h.evidence ha).complete h fun r hr hlr => ih r (by have := h.led_pos hlr; omega) hlr

/-- Committed entries are in the log that a leader of a later term was elected with. -/
theorem known_prefix_elog (h : Inv S s) {t u : ℤ} {P : List ε} (hP : s.Committed t P) (hu : s.Led u) (htu : t < u) :
    P <+: s.elog u := by
  rcases hP with rfl | ⟨t', c, Y, ht', hc, hp⟩
  · exact List.nil_prefix
  · exact hp.trans (h.complete hu t' c Y hc (by omega))

/-- A leader's log holds everything committed in terms up to its own. -/
theorem committed_prefix_llog (h : Inv S s) {t u : ℤ} {n : ℕ} {Y : List ε} (hc : s.committed t n Y) (hu : s.Led u)
    (htu : t ≤ u) : Y.take n <+: s.llog u := by
  rcases lt_or_eq_of_le htu with hlt | rfl
  · exact (h.complete hu t n Y hc hlt).trans (h.llog_elog hu)
  · exact (List.take_prefix _ _).trans (h.committed_led hc).2.1

/-- Committed entries are in the log of every leader of that term or a later one. -/
theorem known_prefix_llog (h : Inv S s) {t u : ℤ} {P : List ε} (hP : s.Committed t P) (hu : s.Led u) (htu : t ≤ u) :
    P <+: s.llog u := by
  rcases hP with rfl | ⟨t', c, Y, ht', hc, hp⟩
  · exact List.nil_prefix
  · exact hp.trans (h.committed_prefix_llog hc hu (by omega))

/-- Two commits agree: one of them is a prefix of the other. -/
theorem committed_total (h : Inv S s) {t t' : ℤ} {n n' : ℕ} {Y Y' : List ε} (hc : s.committed t n Y)
    (hc' : s.committed t' n' Y') : Y.take n <+: Y'.take n' ∨ Y'.take n' <+: Y.take n := by
  rcases le_total t t' with ht | ht
  · exact List.prefix_or_prefix_of_prefix (h.committed_prefix_llog hc (h.committed_led hc').1 ht)
      (h.committed_prefix_llog hc' (h.committed_led hc').1 le_rfl)
  · exact List.prefix_or_prefix_of_prefix (h.committed_prefix_llog hc (h.committed_led hc).1 le_rfl)
      (h.committed_prefix_llog hc' (h.committed_led hc).1 ht)

/-- Of two lists of committed entries one is a prefix of the other. -/
theorem known_total (h : Inv S s) {t u : ℤ} {P Q : List ε} (hP : s.Committed t P) (hQ : s.Committed u Q) : P <+: Q ∨ Q <+: P := by
  rcases hP with rfl | ⟨t1, c1, Y1, -, h1, hp1⟩
  · exact Or.inl List.nil_prefix
  rcases hQ with rfl | ⟨t2, c2, Y2, -, h2, hp2⟩
  · exact Or.inr List.nil_prefix
  rcases h.committed_total h1 h2 with hle | hle
  · exact List.prefix_or_prefix_of_prefix (hp1.trans hle) hp2
  · exact List.prefix_or_prefix_of_prefix hp1 (hp2.trans hle)

/-- Election safety: a candidate that a quorum voted for finds its term without a leader. -/
theorem not_led_of_quorum (h : Inv S s) {a : ν} (hr : s.role a = .candidate)
    (hq : S.quorum (S.cfg (s.log a)) {v | ∃ V, s.ballot (s.term a) v = some (a, V)}) : ¬s.Led (s.term a) := by
  rintro ⟨b, hb⟩
  have hst := h.stood_role hr
  have hled : s.Led (s.term a) := ⟨b, hb⟩
  have hlt : ∀ r, r < s.term a → s.Led r → Complete s (s.elog r) r := fun r _ hl => h.complete hl
  have hEb : Complete s (s.elog (s.term a)) (s.term a) := h.complete hled
  have ev : Evidence S s (s.term a) (s.log a) {v | ∃ V, s.ballot (s.term a) v = some (a, V)} := by
    refine ⟨h.log_wf a, h.stood_term hst, hq, ?_⟩
    rintro v ⟨V, hV⟩
    obtain ⟨E, hE, hup⟩ := h.ballot_fresh hV
    rw [hst, Option.some.injEq] at hE
    subst hE
    refine ⟨V, h.ballot_wf hV, hup, fun t n Y hc htu hk => ?_⟩
    rcases h.keeps_committed (h.ballot_keeps hV) hc htu hk with hp | ⟨r, h1, h2, h3, h4⟩
    · exact Or.inl hp
    · rcases lt_or_eq_of_le h2 with h2 | rfl
      · exact Or.inr ⟨r, h1, by omega, h3, h4⟩
      · exact absurd (hEb t n Y hc h1) h4
  have hEa : Complete s (s.log a) (s.term a) := ev.complete h hlt
  obtain ⟨Z, hZa, hZb, hmax⟩ := exists_meet (s.log a) (s.elog (s.term a))
  have hwfb : s.WellFormed S (s.elog (s.term a)) := h.stood_wf (h.leader_stood hb)
  have anchored : ∀ {X : List ε}, s.WellFormed S X → (∀ e ∈ X, S.term e < s.term a) → Anchored S s X Z := by
    intro X hX hXt k e c hk he hcfg
    obtain ⟨-, n, Y, hc, -, hQ⟩ := h.guard hX he hcfg
    have hlt' := hXt e (List.mem_of_getElem? he)
    exact ⟨n, Y, hc, hmax _ (hEa _ n Y hc hlt') (hEb _ n Y hc hlt'), hQ⟩
  obtain ⟨v, ⟨V, hV⟩, ⟨V', hV', -⟩⟩ := quorums_meet h (h.log_wf a) hwfb hZa hZb hmax
    (anchored (h.log_wf a) (h.stood_term hst)) (anchored hwfb (fun e he => h.elog_term hled he)) hq (h.leader_elected hb)
  rw [hV, Option.some.injEq, Prod.mk.injEq] at hV'
  obtain ⟨rfl, -⟩ := hV'
  exact h.leader_le hb rfl hr

end Inv

end Consensus
