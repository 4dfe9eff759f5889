import DeterministicRaft.Traffic

/-!
# The network neither invents nor loses messages

Over any operations and draws, the messages sent and duplicated are those delivered, dropped and queued; a delivery is of a message that
was sent, once, or twice if it was duplicated; and nothing in the way of a copy is overlooked when it arrives.
-/

namespace DeterministicRaft

open Refinement

namespace Post

variable {R : RandomSource} {μ β : Type} {self after : Post R μ (Copy μ ⊕ β)}

/-- The books of a network balance, for all messages and for each of them, and each delivery is of a message that was sent. -/
structure Balanced (s : Post R μ (Copy μ ⊕ β)) : Prop where
  balance : s.net.sent + s.net.duplicated = s.net.delivered + s.net.dropped + s.queued.length
  genuine : ∀ (i : ℕ) (src dst : NodeId) (msg : μ) (fn : Copy μ ⊕ β), s.log[i]? = some (Notice.deliver src dst msg fn) →
    ∃ j < i, s.log[j]? = some (Notice.send src dst msg fn)
  fates : ∀ q < s.net.sent, 1 + (s.copies .dup).countP (·.serial = q) =
    (s.copies .deliver).countP (·.serial = q) + (s.copies .drop).countP (·.serial = q) + s.queued.countP (·.serial = q)
  serials : (s.copies .send).map (·.serial) = List.range s.net.sent
  delivered : ∀ q, (s.copies .deliver).countP (·.serial = q) ≤ 1 + (s.copies .dup).countP (·.serial = q)
  duplicated : ∀ q, (s.copies .dup).countP (·.serial = q) ≤ 1
  count : ∀ k, s.net.count k = (s.copies k).length

/-- In a list without repetitions nothing is twice. -/
theorem countP_serial_le {l : List (Copy μ)} (h : (l.map (·.serial)).Nodup) (q : ℕ) : l.countP (·.serial = q) ≤ 1 := by
  have hc := List.nodup_iff_count_le_one.1 h q
  rw [List.count, List.countP_map] at hc
  refine le_trans (le_of_eq (List.countP_congr fun copy _ => ?_)) hc
  simp

/-- A message that was sent was sent once. -/
theorem countP_serial_eq {l : List (Copy μ)} {n q : ℕ} (h : l.map (·.serial) = List.range n) (hq : q < n) :
    l.countP (·.serial = q) = 1 := by
  have hle := countP_serial_le (h ▸ List.nodup_range : (l.map (·.serial)).Nodup) q
  have hpos : 0 < l.countP (·.serial = q) := by
    obtain ⟨copy, hc, hs⟩ := List.mem_map.1 (h ▸ List.mem_range.2 hq : q ∈ l.map (·.serial))
    exact List.countP_pos_iff.2 ⟨copy, hc, by simpa using hs⟩
  omega

theorem Sound.balanced (h : Sound self) : Balanced self where
  balance := by
    have hb := h.balance fun _ => true
    simp only [List.countP_true, ← h.count] at hb
    exact hb
  genuine := h.earlier
  fates q hq := by
    have hb := h.balance fun copy => copy.serial = q
    rwa [countP_serial_eq h.serials hq] at hb
  serials := h.serials
  delivered q := by
    have hb := h.balance fun copy => copy.serial = q
    have hs := countP_serial_le (h.serials ▸ List.nodup_range : ((self.copies .send).map (·.serial)).Nodup) q
    omega
  duplicated := countP_serial_le h.dups
  count := h.count

/-- A delivery is made in a step of the simulator, with nothing in its way. -/
theorem Applies.clear {op : PostOp R μ β} (h : Applies self after op) {src dst : NodeId} {msg : μ} {fn : Copy μ ⊕ β}
    (hd : Notice.deliver src dst msg fn ∈ after.log.drop self.log.length) :
    op = .step ∧ dst ∉ self.net.crashed ∧ link src dst ∉ self.net.downLinks ∧ self.net.group src = self.net.group dst := by
  have hnew : ∀ {new : List (Notice μ (Copy μ ⊕ β))} {taken put : List (Copy μ ⊕ β)}, Turns self after new taken put →
      Notice.deliver src dst msg fn ∈ new := fun h => by rwa [h.log, List.drop_left] at hd
  cases h with
  | sends src dst msg h =>
    cases h with
    | lost why h => exact absurd (hnew h) (by simp)
    | once h => exact absurd (hnew h) (by simp)
    | twice h => exact absurd (hnew h) (by simp)
  | arrives copy mid h hn ha =>
    cases ha with
    | lost why ha => exact absurd (hnew (h.trans ha)) (by simp)
    | reached ha hc hl hg =>
      cases List.mem_singleton.1 (hnew (h.trans ha))
      rw [hn] at hc hl hg
      exact ⟨rfl, hc, hl, hg⟩
  | aside _ _ taken put h => exact absurd (hnew h) List.not_mem_nil

end Post

/-- After any operations on a network the messages recorded and counted as sent are those that the operations sent, in order, and its books
balance; what the next operation delivers is neither for a node that is down nor over a link that is, nor to another group. Operations
that name nodes of the network do not raise. -/
theorem network_accounts_for_every_message {R : RandomSource} {μ β : Type} (nodeIds : List NodeId) (profile : FaultProfile)
    (seed : R.State) (ops : List (PostOp R μ β)) :
    (Ensures ((Post.new seed).exec nodeIds profile ops) fun self => self.log.filterMap Notice.sent? = ops.filterMap PostOp.sent? ∧
      self.net.sent = (ops.filterMap PostOp.sent?).length ∧ self.Balanced ∧ ∀ op : PostOp R μ β,
      Ensures (self.apply nodeIds profile op) fun after => ∀ src dst msg fn,
        Notice.deliver src dst msg fn ∈ after.log.drop self.log.length → op = .step ∧ dst ∉ self.net.crashed ∧
          link src dst ∉ self.net.downLinks ∧ self.net.group src = self.net.group dst) ∧
    (Post.Delays profile → (∀ op ∈ ops, op.Valid nodeIds) → ∃ self, (Post.new seed).exec nodeIds profile ops = .ok self) := by
  refine ⟨fun self hself => ?_, fun hd hv => ?_⟩
  · obtain ⟨hlog, hsent⟩ := Post.exec_sent nodeIds profile ops (Post.new seed) self hself
    have hs := (Post.Sound.of_new seed).exec nodeIds profile ops self hself
    refine ⟨hlog, hsent.trans (Nat.zero_add _), hs.balanced, fun op => ?_⟩
    exact (Post.apply_applies nodeIds profile self op).mono fun after h src dst msg fn hm => h.clear hm
  · exact Post.exec_ok hd (fun _ hc => absurd hc List.not_mem_nil) hv

/-- A source of random numbers that counts its draws: the first three numbers are a half, the others zero, and delays are the shortest. -/
def halves : RandomSource where
  State := ℕ
  random s := (if s < 3 then 1 / 2 else 0, s + 1)
  randint lo _ s := (lo, s)
  random_mem s := by
    have hdraws : ((0 : ℚ) ≤ 0 ∧ (0 : ℚ) < 1) ∧ (0 : ℚ) ≤ 1 / 2 ∧ (1 / 2 : ℚ) < 1 := by decide +kernel
    split
    · exact hdraws.2
    · exact hdraws.1
  randint_mem _ _ _ h := ⟨le_rfl, h⟩

/-- Three messages, of which chance duplicates the second and loses the third, and the steps that deliver the first and the copies of the
second. -/
def threeMessages : List (PostOp halves String Unit) :=
  [.send 0 1 "a", .send 0 1 "b", .send 1 0 "c", .step, .step]

theorem network_accounts_for_every_message_three : ∃ self : Post halves String (Copy String ⊕ Unit),
    (Post.new (0 : ℕ)).exec [0, 1] (PROFILES .chaos) threeMessages = .ok self ∧
      self.log.filterMap Notice.sent? = [(0, 1, "a"), (0, 1, "b"), (1, 0, "c")] ∧ self.net.sent = 3 ∧ self.Balanced ∧
      self.net.duplicated = 1 ∧ self.net.dropped = 1 ∧ self.net.delivered = 2 ∧ self.queued.length = 1 := by
  obtain ⟨hacc, hok⟩ := network_accounts_for_every_message [0, 1] (PROFILES .chaos) (0 : ℕ) threeMessages
  have hvalid : ∀ op ∈ threeMessages, op.Valid [0, 1] := by simp [threeMessages, PostOp.Valid]
  obtain ⟨self, hself⟩ := hok (Post.delays_profiles .chaos) hvalid
  obtain ⟨hlog, hsent, hbalanced, -⟩ := hacc self hself
  have hcounts : ((Post.new (0 : ℕ) : Post halves String (Copy String ⊕ Unit)).exec [0, 1] (PROFILES .chaos) threeMessages).toOption.map
      (fun s => (s.net.duplicated, s.net.dropped, s.net.delivered)) = some (1, 1, 2) := by decide +kernel
  rw [hself] at hcounts
  simp only [Except.toOption, Option.map_some, Option.some.injEq, Prod.mk.injEq] at hcounts
  have hsent3 : self.net.sent = 3 := hsent
  have hbalance := hbalanced.balance
  exact ⟨self, hself, hlog, hsent3, hbalanced, hcounts.1, hcounts.2.1, hcounts.2.2, by omega⟩

end DeterministicRaft
