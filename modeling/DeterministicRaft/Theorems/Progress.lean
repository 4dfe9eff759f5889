import DeterministicRaft.CatchingUp
import DeterministicRaft.Insiders
import DeterministicRaft.Leadership
import DeterministicRaft.Theorems.Safety

/-!
# The cluster is never stuck

No run leads to a moment from which the cluster cannot go on. Whatever has been lost, delayed or duplicated, whoever is down or leads,
however far the servers have come apart, and whatever changes of the configuration are under way: there are actions after which one
server leads, and a new command of a client is committed. It is enough that no configuration has fewer than two voters.
-/

namespace DeterministicRaft

open RaftNode Possibility Consensus

variable {net : Network} {c p q : NodeId} {V G : List NodeId} {command : String}

/-- The command is no request of a client, or a newer one than any that a server holds in its live log. -/
def World.Fresh (w : World) (command : String) : Prop :=
  (Command.decode command).isStructured = true → 0 ≤ (Command.decode command).reqId ∧
    ∀ n, ∀ e ∈ (w.nodes n).log, ∀ rid, e.Requests (Command.decode command).clientId rid → rid < (Command.decode command).reqId

/-- Server `c` leads and has committed and applied all of its log; its voters, and it is one of them, are live and have the same log. -/
structure World.United (w : World) (c : NodeId) : Prop where
  role : (w.nodes c).role = .leader
  alive : (w.nodes c).alive = true
  member : c ∈ (w.nodes c).voters
  committed : (w.nodes c).commitIndex = (w.logicalLog c).length
  applied : (w.nodes c).lastApplied = (w.logicalLog c).length
  kv : (w.nodes c).kv = replay (w.logicalLog c)
  voters : ∀ p ∈ (w.nodes c).voters, (w.nodes p).alive = true ∧ w.logicalLog p = w.logicalLog c

/-! ## Who can be elected -/

/-- A majority of voters, as a list. -/
theorem Moment.exists_most (hV : V.Nodup) {Q : Set NodeId} (h : Majority V Q) : ∃ G, Moment.Most V G ∧ ∀ p ∈ G, p ∈ Q := by
  classical
  refine ⟨V.filter (· ∈ Q), ⟨hV.filter _, fun p hp => (List.mem_filter.1 hp).1, ?_⟩, fun p hp => ?_⟩
  · rw [← List.countP_eq_length_filter]
    unfold Majority at h
    omega
  · simpa using (List.mem_filter.1 hp).2

/-- All voters are a majority, if there are any. -/
theorem majority_univ (hV : V ≠ []) {Q : Set NodeId} (h : ∀ p, p ∈ Q) : Majority V Q := by
  refine majority_of_countP (fun _ => true) (fun p _ => h p) ?_
  have hpos := List.length_pos_iff.2 hV
  simp only [List.countP_true]
  omega

/-- How up to date servers are depends on the logs that they hold. -/
theorem RaftNode.Holds.behind {u v : RaftNode} {L L' : List Entry} (hu : u.Holds L) (hv : v.Holds L')
    (h : lastTermOf L < lastTermOf L' ∨ (lastTermOf L = lastTermOf L' ∧ L.length ≤ L'.length)) : u.Behind v := by
  have hlast : ∀ {node : RaftNode} {K : List Entry}, node.Holds K →
      node.termAt node.lastLogIndex = .ok (lastTermOf K) := by
    intro node K hholds
    rw [hholds.lastLogIndex, hholds.termAt hholds.le le_rfl, List.take_length]
  refine ⟨_, _, hlast hu, hlast hv, ?_⟩
  rw [hu.lastLogIndex, hv.lastLogIndex]
  exact h.imp (fun hlt => hlt) fun heq => ⟨heq.1, Int.ofNat_le.2 heq.2⟩

/-- At every moment of a run, some server is among its voters, and its log is as up to date as those of a majority of them. It is the last
leader, or any server where nobody has led yet. -/
theorem Run.Shadow.exists_electable {r : Run net} {s : ℕ → State NodeId Entry} (hs : r.Shadow s) (hne : net.initialVoters ≠ [])
    (k : ℕ) : ∃ c G, c ∈ ((r.state k).nodes c).voters ∧ Moment.Most ((r.state k).nodes c).voters G ∧
      ∀ p ∈ G, ((r.state k).nodes p).Behind ((r.state k).nodes c) := by
  have hsim := hs.sim k
  have hvoters : ∀ n, ((r.state k).nodes n).voters = net.scheme.cfg ((s k).log n) := fun n => (hsim.fits n).voters
  suffices hmajority : ∃ c, c ∈ ((r.state k).nodes c).voters ∧
      Majority ((r.state k).nodes c).voters {v | net.scheme.UpToDate ((s k).log c) ((s k).log v)} by
    obtain ⟨c, hc, hmajority⟩ := hmajority
    obtain ⟨G, hG, hup⟩ := Moment.exists_most (hsim.fits c).legal.1 hmajority
    exact ⟨c, G, hc, hG, fun p hp => (hsim.node p).stored.holds.behind (hsim.node c).stored.holds (hup p hp)⟩
  rcases hs.exists_latest k with hnone | ⟨t, ⟨l, hl⟩, hlast⟩
  · have hempty : ∀ n, (s k).log n = [] := by
      intro n
      by_contra hlog
      exact hnone _ ((hsim.inv.log_wf n).last hlog).1
    obtain ⟨c, hc⟩ := List.exists_mem_of_ne_nil _ hne
    have hcfg : c ∈ ((r.state k).nodes c).voters := by
      rw [hvoters, hempty]
      exact (List.mem_insertionSort _).2 hc
    refine ⟨c, hcfg, majority_univ (List.ne_nil_of_mem hcfg) fun v => ?_⟩
    show net.scheme.UpToDate _ _
    rw [hempty, hempty]
    exact Or.inr ⟨rfl, le_rfl⟩
  · have hlasting := hs.lasting k
    have hlog := hlasting.leader hl hlast
    have hmember : l ∈ ((r.state k).nodes l).voters := by
      rw [hvoters, hlog]
      exact hs.leader_voter hl
    refine ⟨l, hmember, ?_⟩
    rcases hlasting.quorum hsim.inv hl hlast with hall | hq
    · exact majority_univ (List.ne_nil_of_mem hmember) hall
    · rw [hvoters]
      exact hq

namespace Moment

variable {m : Moment net}

/-! ## What it can do then -/

/-- Server `c` leads the voters, who have the same log as it, and has committed all of it, in its own term. -/
structure Ready (m : Moment net) (c : NodeId) (V : List NodeId) : Prop where
  serves : m.Serves c V
  own : (m.node c).committedThisTerm = true
  member : c ∈ V
  same : ∀ p ∈ V, m.log p = m.log c

/-- The voters whose leader knows that they have all of its log, the last entry of which is of its term, have that log. No leader of a
later term can have overruled what a voter has acknowledged, and its last entry is of the leader's term. -/
theorem Serves.log_eq (h : m.Serves c V) (hne : m.log c ≠ []) (hlast : lastTermOf (m.log c) = (m.node c).term) {p : NodeId} (hp : p ∈ V) :
    m.log p = m.log c := by
  by_cases hpc : p = c
  · rw [hpc]
  obtain ⟨a, hs⟩ := m.simulated
  have hlog : ∀ n, m.log n = a.log n := hs.logicalLog_eq
  have hpos := List.length_pos_iff.2 hne
  have hhas := h.has p hp
  obtain ⟨k, hk, hack, hkle⟩ := hs.acked (p := p) h.presides.role (show 0 < (m.node c).matchIndex.getD p 0 by omega)
  have hk : (m.node c).matchIndex.getD p 0 ≤ k := hk
  obtain ⟨hleads, hllog⟩ := (hs.fits c).leader h.presides.role
  have htc : (m.node c).term = a.term c := (hs.node c).term
  have htp : (m.node p).term = a.term p := (hs.node p).term
  have hle := (h.presides.others p hp hpc).2
  have hack : a.acked p (a.term c) k := by
    rw [← htc]
    exact hack
  rw [hlog] at hhas hlast hpos
  obtain rfl : k = (a.log c).length := by omega
  have hpre : a.log c <+: a.log p := by
    have hkeeps := hs.inv.acked_keeps p (a.term c) _ _ hack (by have := (hs.inv.acked_led hack).2.1; omega) le_rfl
    rw [← hllog, List.take_length] at hkeeps
    refine hkeeps.resolve_right ?_
    rintro ⟨r, hlt, hr, -⟩
    omega
  rw [hlog, hlog]
  refine (hpre.eq_of_length (hpre.length_le.antisymm ?_)).symm
  by_contra hlt
  obtain ⟨e, he⟩ : ∃ e, (a.log p)[(a.log p).length - 1]? = some e := ⟨_, List.getElem?_eq_getElem (by omega)⟩
  obtain ⟨e', he'⟩ : ∃ e', (a.log c)[(a.log c).length - 1]? = some e' := ⟨_, List.getElem?_eq_getElem (by omega)⟩
  have hterm' : e'.term = a.term c := by
    rw [← htc, ← hlast, ← lastTermOf_take he', Nat.sub_add_cancel (by omega), List.take_length]
  have hsorted := hs.inv.sorted (hs.inv.log_wf p) (getElem?_extends hpre he') he (by omega)
  have hbound := hs.inv.log_term p e (List.mem_of_getElem? he)
  have hsorted : e'.term ≤ e.term := hsorted
  have hbound : e.term ≤ a.term p := hbound
  have hown := (hs.inv.log_wf p _ e he).2
  rw [Nat.sub_add_cancel (by omega), List.take_length] at hown
  have hterm : net.scheme.term e = a.term c := show e.term = a.term c by omega
  rw [hterm, ← hllog] at hown
  exact hlt hown.length_le

/-- What a leader that is ready has, the world shows. -/
theorem Ready.united (h : m.Ready c V) : m.world.United c := by
  obtain ⟨a, hs⟩ := m.simulated
  obtain ⟨-, -, happlied, -⟩ := m.node_wellFormed c
  have hcommitted := h.serves.committed
  have hvoters : (m.world.nodes c).voters = V := h.serves.presides.voters
  refine ⟨h.serves.presides.role, h.serves.presides.alive, ?_, hcommitted, happlied.trans hcommitted, ?_, ?_⟩
  · rw [hvoters]
    exact h.member
  · have hkv : (m.node c).kv = replay ((a.log c).take (a.commit c)) := (hs.node c).kv
    have hcom : (m.node c).commitIndex = a.commit c := (hs.node c).commitIndex
    have hsame : m.log c = a.log c := hs.logicalLog_eq c
    rw [hcom, hsame] at hcommitted
    rw [List.take_of_length_le (by omega), ← hsame] at hkv
    exact hkv
  · intro p hp
    rw [hvoters] at hp
    refine ⟨?_, h.same p hp⟩
    by_cases hpc : p = c
    · rw [hpc]
      exact h.serves.presides.alive
    · exact (h.serves.presides.others p hp hpc).1

/-- A server that is among its voters, of which there are two or more, and whose log is as up to date as those of a majority of them, can
be elected and commit a new command. -/
theorem can_recover (m : Moment net) (hc : c ∈ (m.node c).voters) (htwo : 2 ≤ (m.node c).voters.length) (hG : Most (m.node c).voters G)
    (hup : ∀ p ∈ G, (m.node p).Behind (m.node c)) (hconfig : decodeConfig command = none) (hfresh : m.world.Fresh command) :
    Can Next (fun m' => m'.Ready c (m.node c).voters ∧ (m'.log c).getLast? = some ⟨(m'.node c).term, command⟩) m := by
  refine (can_elect_upToDate m hc htwo hG hup).bind fun m₁ helected => ?_
  obtain ⟨hpresides, hlog, hindex⟩ := helected
  have hnew : (Command.decode command).isStructured = true →
      (m₁.node c).clientIndex.getD (Command.decode command).clientId (-1) < (Command.decode command).reqId := by
    intro hs
    obtain ⟨hpos, hall⟩ := hfresh hs
    rw [hindex, Dict.getD]
    cases hq : (clientIndexOf ∅ (m.node c).log).lookup (Command.decode command).clientId with
    | none =>
      rw [Option.getD_none]
      omega
    | some q =>
      obtain ⟨e, he, hreq⟩ := (IndexOf.nil.rebuilt (m.node c).log).sound _ _ hq
      rw [List.nil_append] at he
      exact hall c e he q hreq
  refine (hpresides.can_append hconfig hnew).bind fun m₂ happended => ?_
  obtain ⟨hpresides₂, hlog₂, hown, hbelow⟩ := happended
  have hlast₂ : lastTermOf (m₂.log c) = (m₂.node c).term := by
    rw [hlog₂]
    simp [lastTermOf]
  refine (hpresides₂.can_serve htwo hlast₂ hown).mono fun m₃ hserved => ?_
  obtain ⟨hserves, hlog₃, hterm₃, hcredits⟩ := hserved
  have hend : (m₃.log c).getLast? = some ⟨(m₃.node c).term, command⟩ := by
    rw [hlog₃, hterm₃, hlog₂]
    simp
  have hne : m₃.log c ≠ [] := by
    intro hnil
    rw [hnil] at hend
    cases hend
  have hlast : lastTermOf (m₃.log c) = (m₃.node c).term := by rw [lastTermOf, hend]; rfl
  have hcommitted : (m₃.node c).committedThisTerm = true := by
    rcases hcredits with hcommitted | ⟨-, hcommit⟩
    · exact hcommitted
    · have hall := hserves.committed
      rw [hcommit, hlog₃] at hall
      omega
  exact ⟨⟨hserves, hcommitted, hc, fun p hp => hserves.log_eq hne hlast hp⟩, hend⟩

end Moment

/-! ## Runs -/

/-- If nobody proposes fewer than two voters, no server ever has fewer. -/
theorem Run.two_voters (r : Run net) (htwo : 2 ≤ net.initialVoters.length) (k : ℕ)
    (hproposals : ∀ j < k, ∀ n newVoters, r.action j = .changeConfig n newVoters → 2 ≤ (sortedSet newVoters).length) (n : NodeId) :
    2 ≤ ((r.state k).nodes n).voters.length := by
  have hworld : (r.state k).Adopts (fun voters => 2 ≤ voters.length) := by
    induction k with
    | zero =>
      rw [r.start]
      refine World.Adopts.launch net.ids net.initialVoters (fun n => net.ids.filter (· ≠ n)) (fun _ => net.config) (fun _ => NO_BUGS) ?_
      rwa [List.length_insertionSort]
    | succ k ih =>
      refine World.Adopts.step (r.state k) (r.action k) _ ?_ (r.next k) (ih fun j hj => hproposals j (by omega))
      have hadmits := r.admits k
      cases hact : r.action k with
      | clientCommand n command =>
        rw [hact] at hadmits
        have hnone : decodeConfig command = none := hadmits
        intro _ _ voters hnames
        rw [hnone] at hnames
        cases hnames
      | changeConfig n newVoters => exact fun _ _ => hproposals k (by omega) n newVoters hact
      | _ => trivial
  exact (hworld.nodes n).current

/-- From every moment of every run in which no configuration has fewer than two voters, there are actions, all of them admissible, after
which a server leads, has committed and applied all of its log, of which a given new command is the last entry, and all its voters are live
and have that log. -/
theorem always_recoverable (r : Run net) (htwo : 2 ≤ net.initialVoters.length) (k : ℕ)
    (hproposals : ∀ j < k, ∀ n newVoters, r.action j = .changeConfig n newVoters → 2 ≤ (sortedSet newVoters).length)
    (command : String) (hconfig : decodeConfig command = none) (hfresh : (r.state k).Fresh command) :
    ∃ (acts : List Action) (w : World), (∀ act ∈ acts, net.Admits act) ∧ (r.state k).exec acts = .ok w ∧
      ∃ c, w.United c ∧ (w.logicalLog c).getLast? = some ⟨(w.nodes c).term, command⟩ := by
  obtain ⟨s, hs⟩ := r.exists_shadow
  have hne : net.initialVoters ≠ [] := List.ne_nil_of_length_pos (by omega)
  obtain ⟨c, G, hc, hG, hup⟩ := hs.exists_electable hne k
  have hlen := r.two_voters htwo k hproposals c
  obtain ⟨m', hreach, hready, hend⟩ := (r.moment k).can_recover hc hlen hG hup hconfig hfresh
  obtain ⟨acts, hacts, hexec⟩ := Moment.exists_exec hreach
  exact ⟨acts, m'.world, hacts, hexec, c, hready.united, hend⟩

/-- The growing cluster's only proposal is of three voters. -/
theorem growing_proposals : ∀ j < 7, ∀ n newVoters, growingRun.action j = .changeConfig n newVoters → 2 ≤ (sortedSet newVoters).length := by
  intro j hj n newVoters hact
  have hlen : growingActions.length = 12 := rfl
  have hlt : j < growingActions.length := by omega
  have hat : andIdle growingActions j = growingActions[j] := by
    rw [andIdle, List.getD_eq_getElem?_getD, List.getElem?_eq_getElem hlt, Option.getD_some]
  have hmem : Action.changeConfig n newVoters ∈ growingActions := by
    rw [← hact, show growingRun.action j = growingActions[j] from hat]
    exact List.getElem_mem hlt
  simp only [growingActions, List.mem_cons, List.not_mem_nil, or_false] at hmem
  rcases hmem with h | h | h | h | h | h | h | h | h | h | h | h <;> cases h
  decide

/-- While the change to three voters is under way, the growing cluster can elect a leader that commits a further command. -/
theorem always_recoverable_growing : ∃ (acts : List Action) (w : World), (∀ act ∈ acts, growing.Admits act) ∧
    (growingRun.state 7).exec acts = .ok w ∧ ∃ c, w.United c ∧ (w.logicalLog c).getLast? = some ⟨(w.nodes c).term, "again"⟩ := by
  have hplain : (Command.decode "again").isStructured = false := by decide
  refine always_recoverable growingRun (by decide) 7 growing_proposals "again" (by decide) ?_
  intro hs
  rw [hplain] at hs
  cases hs

end DeterministicRaft
