import DeterministicRaft.Consensus.Preserve

/-!
# What is committed is not lost

Entries that a node has and knows to be committed stay the first entries of its log: the only step that takes entries from a log
is the takeover of a leader's, and that leader has them.
-/

namespace Consensus

variable {ν ε γ : Type*} {S : Scheme ν ε γ} {s s' : State ν ε} {n : ν} {P : List ε}

/-- A node has the entries `P`, and they were committed in a term up to its own. -/
def State.Secures (s : State ν ε) (n : ν) (P : List ε) : Prop := P <+: s.log n ∧ s.Committed (s.term n) P

/-- What a node knows to be committed it has. -/
theorem Inv.secures (h : Inv S s) (n : ν) : s.Secures n ((s.log n).take (s.commit n)) :=
  ⟨List.take_prefix _ _, h.commit_known n⟩

variable [DecidableEq ν]

/-- No step of the protocol takes from a log what was committed. -/
theorem Step.log_secured (h : Inv S s) (hs : Step S s s') (hP : s.Secures n P) : P <+: s'.log n := by
  obtain ⟨hlog, hknown⟩ := hP
  have happend : ∀ (a : ν) (e : ε), P <+: (s.append a e).log n := by
    intro a e
    rcases eq_or_ne n a with rfl | hna
    · simp only [State.append, Function.update_self]
      exact hlog.trans (List.prefix_append _ _)
    · simpa only [State.append, Function.update_of_ne hna] using hlog
  cases hs with
  | append a e => exact happend a e
  | reconfigure a e => exact happend a e
  | accept f m hr hl hm =>
    rcases eq_or_ne n f with rfl | hnf
    · simp only [State.accept, Function.update_self]
      exact prefix_merge_both hlog (h.known_prefix_llog hknown hl le_rfl)
    · simpa only [State.accept, Function.update_of_ne hnf] using hlog
  | _ => exact hlog

/-- One step keeps what a node has secured. -/
theorem Step.secures (h : Inv S s) (hs : Step S s s') (hP : s.Secures n P) : s'.Secures n P := by
  have x := ((Steps.single hs).inv_extends h).2
  exact ⟨hs.log_secured h hP, (x.known hP.2).mono (x.term n)⟩

/-- A run keeps what a node has secured. -/
theorem Steps.secures (h : Inv S s) (hs : Steps S s s') (hP : s.Secures n P) : s'.Secures n P := by
  induction hs with
  | refl => exact hP
  | tail hs hstep ih => exact hstep.secures (hs.inv_extends h).1 ih

end Consensus
