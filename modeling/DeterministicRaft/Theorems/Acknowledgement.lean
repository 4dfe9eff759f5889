import DeterministicRaft.Simulation

/-!
# What an acknowledgement says

A successful reply of a follower, to whatever message, is about the log its term's leader had built by then: the follower holds
the entries it reports for as long as it stays in the term, and a leader's match indices report nothing else.
-/

namespace DeterministicRaft

open Consensus

variable {net : Network}

namespace Run

variable (r : Run net)

/-- Node `l` leads term `t` at the moment `k`. -/
def Leads (k : ℕ) (t : Int) (l : NodeId) : Prop := ((r.state k).nodes l).role = .leader ∧ ((r.state k).nodes l).term = t

/-- `j` is the last moment up to `k` at which `l` leads term `t`: the moment `k`, or the end of that leadership if it came
first. -/
structure LastLed (k : ℕ) (t : Int) (l : NodeId) (j : ℕ) : Prop where
  le : j ≤ k
  leads : r.Leads j t l
  ended : ∀ i, j < i → i ≤ k → ¬r.Leads i t l

variable {r}

/-- The leader of a term in the history has led it, and has built nothing after it led it last. -/
theorem exists_lastLed {s : ℕ → State NodeId Entry} (hs : r.Shadow s) {k : ℕ} {t : Int} {l : NodeId}
    (hl : (s k).leader t = some l) :
    ∃ j, r.LastLed k t l j ∧ (r.state j).logicalLog l = (s k).llog t := by
  induction k with
  | zero =>
    rw [hs.start] at hl
    exact absurd hl (by simp [State.init])
  | succ k ih =>
    by_cases hnow : r.Leads (k + 1) t l
    · refine ⟨k + 1, ⟨le_rfl, hnow, fun i h1 h2 => by omega⟩, ?_⟩
      rw [← hnow.2]
      exact ((hs.sim (k + 1)).leader hnow.1).2
    · obtain ⟨n, hn⟩ := hs.settled k
      rcases hn t with ⟨h1, h2⟩ | ⟨h1, h2⟩
      · rw [h1] at hl
        obtain ⟨j, hj, hlog⟩ := ih hl
        refine ⟨j, ⟨hj.le.trans (Nat.le_succ k), hj.leads, fun i h3 h4 => ?_⟩, hlog.trans h2.symm⟩
        rcases Nat.lt_or_ge k i with h5 | h5
        · obtain rfl : i = k + 1 := by omega
          exact hnow
        · exact hj.ended i h3 h5
      · have hr : ((r.state (k + 1)).nodes n).role = .leader := by
          rw [← Role.abs_inj, ((hs.sim (k + 1)).node n).role]
          exact h1
        have ht : ((r.state (k + 1)).nodes n).term = t := (((hs.sim (k + 1)).node n).term).trans h2
        have hln := ((hs.sim (k + 1)).leader hr).1
        rw [ht, hl, Option.some.injEq] at hln
        subst hln
        exact absurd ⟨hr, ht⟩ hnow

end Run

/-- A node holds what it has acknowledged in the term it is in. -/
theorem Simulates.holds_acked {a : State NodeId Entry} {w : World} (h : Simulates net a w) {f : NodeId} {t : Int} {m : ℕ}
    (hack : a.acked f t m) (ht : (w.nodes f).term = t) : (w.logicalLog f).take m = (a.llog t).take m := by
  have htf : a.term f = t := (h.node f).term.symm.trans ht
  have hle := (h.inv.acked_led hack).2.2
  rw [h.logicalLog_eq]
  rcases h.inv.acked_keeps f t m m hack (by omega) le_rfl with hp | ⟨u, h1, h2, -⟩
  · have := List.prefix_iff_eq_take.1 hp
    rw [List.length_take_of_le hle] at this
    exact this.symm
  · omega

/-- A successful reply of `f` with match index `m` in term `t`, to an `AppendEntries` or an `InstallSnapshot`: `f` sent it, the
log that the leader of `t` had built by then has at least `m` entries, and at every later moment at which `f` is still in the
term its log agrees with that one up to `m`. And whenever a node leads, each of its match indices is within its log, and the
follower, while it is in the leader's term, agrees with the leader up to it. -/
theorem acknowledgement (r : Run net) :
    (∀ (k : ℕ) (f dst : NodeId) (msg : AppendReply), (f, Effect.send dst (.appendReply msg)) ∈ (r.state k).trace →
      msg.success = true → msg.follower = f ∧ ∃ (l : NodeId) (j m : ℕ), r.LastLed k msg.term l j ∧ msg.matchIndex = m ∧
        m ≤ ((r.state j).logicalLog l).length ∧ ∀ k', k ≤ k' → ((r.state k').nodes f).term = msg.term →
          ((r.state k').logicalLog f).take m = ((r.state j).logicalLog l).take m) ∧
    ∀ (k : ℕ) (l f : NodeId) (x : Int), ((r.state k).nodes l).role = .leader →
      ((r.state k).nodes l).matchIndex.lookup f = some x → x ≤ ((r.state k).nodes l).lastLogIndex ∧
        (((r.state k).nodes f).term = ((r.state k).nodes l).term →
          ((r.state k).logicalLog f).take x.toNat = ((r.state k).logicalLog l).take x.toNat) := by
  obtain ⟨s, hs⟩ := r.exists_shadow
  constructor
  · intro k f dst msg hmem hsucc
    obtain ⟨_, _, hfol, hack⟩ := (hs.sim k).traced.mem hmem
    obtain ⟨m, hm, hack⟩ := hack hsucc
    obtain ⟨⟨l, hl⟩, -, hle⟩ := (hs.sim k).inv.acked_led hack
    obtain ⟨j, hj, hlog⟩ := Run.exists_lastLed hs hl
    refine ⟨hfol, l, j, m, hj, hm, hlog ▸ hle, fun k' hk ht => ?_⟩
    have x := hs.extends_of_le hk
    rw [(hs.sim k').holds_acked (x.acked hack) ht, hlog, x.llog_take ⟨l, hl⟩ hle]
  · intro k l f x hr hx
    have hlast := ((hs.sim k).fits l).lastLogIndex
    obtain ⟨-, hlog⟩ := (hs.sim k).leader hr
    rcases le_or_gt x 0 with hneg | hpos
    · refine ⟨by omega, fun _ => ?_⟩
      rw [Int.toNat_of_nonpos hneg, List.take_zero, List.take_zero]
    · obtain ⟨m, hm, hack⟩ := (((hs.sim k).node l).leads hr).matched f x hx hpos
      have hle := ((hs.sim k).inv.acked_led hack).2.2
      have hterm := ((hs.sim k).node l).term
      have hlen : (s k).log l = (s k).llog ((s k).term l) := ((hs.sim k).fits l).leader hr |>.2
      refine ⟨by rw [hlast, hlen]; omega, fun ht => ?_⟩
      have hagree := (hs.sim k).holds_acked hack (ht.trans hterm)
      rw [← hterm, ← hlog] at hagree
      have := congrArg (List.take x.toNat) hagree
      rwa [List.take_take, List.take_take, min_eq_left (by omega)] at this

end DeterministicRaft
