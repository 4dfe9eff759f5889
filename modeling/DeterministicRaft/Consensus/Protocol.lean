import Mathlib.Data.Set.Basic
import Mathlib.Logic.Function.Basic
import DeterministicRaft.Consensus.Prefix

/-!
# Leader-based log replication with changing configurations

A message-free protocol over shared history. A node stands for a term, nodes cast ballots for it, a quorum of its own
configuration elects it, the leader of a term appends to its log, a node of the same term takes over the leader's first
entries and acknowledges them, and a quorum of the leader's configuration of acknowledgements commits.

Configurations travel in the log: the last entry of a log that names one is in force, committed or not. A leader appends one
only when it differs by a step from the one in force, when it has committed an entry of its own term, and when no entry above
that commit names a configuration.

The history is never forgotten: the ballots, the log a node stood with, the log a leader was elected with, the log it has
built, the acknowledgements and the commits. Messages of an implementation are facts about this history.
-/

namespace Consensus

/-- What the protocol needs to know of entries and configurations: the term stamped on an entry, the configuration an entry
names, the first configuration, which sets of nodes are quorums of a configuration, and which configurations are one step
apart. Quorums of one configuration meet, and so do quorums of two configurations one step apart. -/
structure Scheme (ν ε γ : Type*) where
  term : ε → ℤ
  config : ε → Option γ
  initial : γ
  quorum : γ → Set ν → Prop
  adjacent : γ → γ → Prop
  quorum_mono : ∀ {c : γ} {Q Q' : Set ν}, quorum c Q → Q ⊆ Q' → quorum c Q'
  overlap : ∀ {c : γ} {Q Q' : Set ν}, quorum c Q → quorum c Q' → ∃ v, v ∈ Q ∧ v ∈ Q'
  overlap_adjacent : ∀ {c c' : γ} {Q Q' : Set ν}, adjacent c c' → quorum c Q → quorum c' Q' → ∃ v, v ∈ Q ∧ v ∈ Q'

/-- The part a node plays in its term. -/
inductive Role where
  | follower | candidate | leader
  deriving DecidableEq, Repr

/-- The state of the protocol: five things for each node, and the history. -/
structure State (ν ε : Type*) where
  /-- The term a node is in. -/
  term : ν → ℤ
  /-- Whom a node has voted for in its term. -/
  vote : ν → Option ν
  role : ν → Role
  log : ν → List ε
  /-- How many entries of its log a node knows to be committed. -/
  commit : ν → ℕ
  /-- The ballot a node cast in a term: for whom, and the log it held then. -/
  ballot : ℤ → ν → Option (ν × List ε)
  /-- The log a node stood for a term with. -/
  stood : ℤ → ν → Option (List ε)
  leader : ℤ → Option ν
  /-- The log the leader of a term was elected with. -/
  elog : ℤ → List ε
  /-- The log the leader of a term has built so far. -/
  llog : ℤ → List ε
  /-- `acked v t m`: in term `t`, node `v` acknowledged the first `m` entries of the leader's log. -/
  acked : ν → ℤ → ℕ → Prop
  /-- `committed t n Y`: the leader of term `t` committed its first `n` entries when its log was `Y`. -/
  committed : ℤ → ℕ → List ε → Prop

variable {ν ε γ : Type*}

namespace Scheme

variable (S : Scheme ν ε γ)

/-- The configuration in force under a log: the last one named in it, or the first configuration. -/
def cfg (L : List ε) : γ := L.foldl (fun c e => (S.config e).getD c) S.initial

@[simp] theorem cfg_nil : S.cfg [] = S.initial := rfl

/-- One more entry puts the configuration it names in force, if it names one. -/
@[simp] theorem cfg_concat (L : List ε) (e : ε) : S.cfg (L ++ [e]) = (S.config e).getD (S.cfg L) := by
  simp [cfg]

/-- The term of the last entry of a log, and 0 for the empty log. -/
def lastTerm (L : List ε) : ℤ := (L.getLast?.map S.term).getD 0

@[simp] theorem lastTerm_nil : S.lastTerm [] = 0 := rfl

/-- The election restriction: `E` is at least as up to date as `V`. -/
def UpToDate (E V : List ε) : Prop :=
  S.lastTerm V < S.lastTerm E ∨ (S.lastTerm V = S.lastTerm E ∧ V.length ≤ E.length)

/-- No entry of `X` at the places from `n` on and below `k` names a configuration. -/
def Quiet (X : List ε) (n k : ℕ) : Prop := ∀ (j : ℕ) (e : ε), n ≤ j → j < k → X[j]? = some e → S.config e = none

end Scheme

namespace State

variable (s : State ν ε)

/-- Some node leads, or has led, term `t`. -/
def Led (t : ℤ) : Prop := ∃ a, s.leader t = some a

/-- A leader of a term after `t` and up to `u` was elected with a log that does not hold `X`. -/
def Overruled (X : List ε) (t u : ℤ) : Prop := ∃ r, t < r ∧ r ≤ u ∧ s.Led r ∧ ¬X <+: s.elog r

/-- The entries `P` were committed in a term up to `t`. -/
def Committed (t : ℤ) (P : List ε) : Prop := P = [] ∨ ∃ t' c Y, t' ≤ t ∧ s.committed t' c Y ∧ P <+: Y.take c

variable [DecidableEq ν]

/-- A node moves to a later term, in which it has not voted. -/
def newTerm (n : ν) (u : ℤ) : State ν ε :=
  { s with
    term := Function.update s.term n u
    vote := Function.update s.vote n none
    role := Function.update s.role n .follower }

/-- A node stops standing or leading. -/
def stepDown (n : ν) : State ν ε := { s with role := Function.update s.role n .follower }

/-- A node stands for a later term and votes for itself. -/
def campaign (n : ν) (u : ℤ) : State ν ε :=
  { s with
    term := Function.update s.term n u
    vote := Function.update s.vote n (some n)
    role := Function.update s.role n .candidate
    ballot := fun t v => if t = u ∧ v = n then some (n, s.log n) else s.ballot t v
    stood := fun t v => if t = u ∧ v = n then some (s.log n) else s.stood t v }

/-- A node casts its ballot for `a` in the term it is in. -/
def grant (v a : ν) : State ν ε :=
  { s with
    vote := Function.update s.vote v (some a)
    ballot := fun t w => if t = s.term v ∧ w = v then some (a, s.log v) else s.ballot t w }

/-- A candidate becomes the leader of its term. -/
def win (a : ν) : State ν ε :=
  { s with
    role := Function.update s.role a .leader
    leader := Function.update s.leader (s.term a) (some a)
    elog := Function.update s.elog (s.term a) (s.log a)
    llog := Function.update s.llog (s.term a) (s.log a)
    acked := fun v t m => s.acked v t m ∨ (v = a ∧ t = s.term a ∧ m = (s.log a).length) }

/-- A leader appends an entry to its log. -/
def append (a : ν) (e : ε) : State ν ε :=
  { s with
    log := Function.update s.log a (s.log a ++ [e])
    llog := Function.update s.llog (s.term a) (s.log a ++ [e])
    acked := fun v t m => s.acked v t m ∨ (v = a ∧ t = s.term a ∧ m = (s.log a).length + 1) }

/-- A node takes over the first `m` entries of the log of its term's leader. -/
noncomputable def accept (f : ν) (m : ℕ) : State ν ε :=
  { s with log := Function.update s.log f (merge (s.log f) ((s.llog (s.term f)).take m)) }

/-- A node acknowledges the first `m` entries of the log of its term's leader. -/
def ack (f : ν) (m : ℕ) : State ν ε :=
  { s with acked := fun v t k => s.acked v t k ∨ (v = f ∧ t = s.term f ∧ k = m) }

/-- A leader commits its first `n` entries. -/
def commitTo (a : ν) (n : ℕ) : State ν ε :=
  { s with
    commit := Function.update s.commit a n
    committed := fun t c Y => s.committed t c Y ∨ (t = s.term a ∧ c = n ∧ Y = s.log a) }

/-- A node learns how much is committed, or forgets it. -/
def learn (f : ν) (n : ℕ) : State ν ε := { s with commit := Function.update s.commit f n }

/-- The first state: every node a follower of term 0 with an empty log, and no history. -/
def init : State ν ε where
  term _ := 0
  vote _ := none
  role _ := .follower
  log _ := []
  commit _ := 0
  ballot _ _ := none
  stood _ _ := none
  leader _ := none
  elog _ := []
  llog _ := []
  acked _ _ _ := False
  committed _ _ _ := False

end State

open State

variable [DecidableEq ν]

/-- The steps of the protocol. -/
inductive Step (S : Scheme ν ε γ) : State ν ε → State ν ε → Prop where
  | newTerm {s : State ν ε} (n : ν) (u : ℤ) : s.term n < u → Step S s (s.newTerm n u)
  | stepDown {s : State ν ε} (n : ν) : Step S s (s.stepDown n)
  | campaign {s : State ν ε} (n : ν) (u : ℤ) : s.term n < u → Step S s (s.campaign n u)
  | grant {s : State ν ε} (v a : ν) (E : List ε) : s.vote v = none → s.stood (s.term v) a = some E →
      S.UpToDate E (s.log v) → Step S s (s.grant v a)
  | win {s : State ν ε} (a : ν) : s.role a = .candidate →
      S.quorum (S.cfg (s.log a)) {v | ∃ V, s.ballot (s.term a) v = some (a, V)} → Step S s (s.win a)
  | append {s : State ν ε} (a : ν) (e : ε) : s.role a = .leader → S.term e = s.term a → S.config e = none →
      Step S s (s.append a e)
  | reconfigure {s : State ν ε} (a : ν) (e : ε) (c : γ) (n : ℕ) (Y : List ε) : s.role a = .leader →
      S.term e = s.term a → S.config e = some c → S.adjacent (S.cfg (s.log a)) c → s.committed (s.term a) n Y →
      Y <+: s.log a → S.Quiet (s.log a) n (s.log a).length → Step S s (s.append a e)
  | accept {s : State ν ε} (f : ν) (m : ℕ) : s.role f = .follower → s.Led (s.term f) →
      m ≤ (s.llog (s.term f)).length → Step S s (s.accept f m)
  | ack {s : State ν ε} (f : ν) (m : ℕ) : s.Led (s.term f) → m ≤ (s.llog (s.term f)).length →
      (s.llog (s.term f)).take m <+: s.log f → Step S s (s.ack f m)
  | commitTo {s : State ν ε} (a : ν) (n : ℕ) (e : ε) : s.role a = .leader → 0 < n →
      (s.log a)[n - 1]? = some e → S.term e = s.term a →
      S.quorum (S.cfg (s.log a)) {v | ∃ m, n ≤ m ∧ s.acked v (s.term a) m} → Step S s (s.commitTo a n)
  | learn {s : State ν ε} (f : ν) (n : ℕ) : n ≤ (s.log f).length → s.Committed (s.term f) ((s.log f).take n) →
      Step S s (s.learn f n)

/-- Any number of steps. -/
inductive Steps (S : Scheme ν ε γ) : State ν ε → State ν ε → Prop where
  | refl (s : State ν ε) : Steps S s s
  | tail {s s' s'' : State ν ε} : Steps S s s' → Step S s' s'' → Steps S s s''

/-- Runs of the protocol compose. -/
theorem Steps.trans {S : Scheme ν ε γ} {s s' s'' : State ν ε} (h : Steps S s s') (h' : Steps S s' s'') : Steps S s s'' := by
  induction h' with
  | refl => exact h
  | tail _ hs ih => exact ih.tail hs

/-- One step is a run. -/
theorem Steps.single {S : Scheme ν ε γ} {s s' : State ν ε} (h : Step S s s') : Steps S s s' := (Steps.refl s).tail h

end Consensus
