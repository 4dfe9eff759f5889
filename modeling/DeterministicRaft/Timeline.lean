import DeterministicRaft.Harness
import Mathlib.Data.Finset.Sort

/-!
# The lanes of a timeline (`timeline.py`)

What `render_timeline` reconstructs from the recorded events before it draws: for each node the intervals of one term, role and aliveness.
The marks and the drawing itself are left out. An event is what the cluster records of it; the kinds the renderer passes over are left
out too.
-/

namespace DeterministicRaft

/-! ## Events -/

def Role.text : Role → String
  | .follower => "follower"
  | .candidate => "candidate"
  | .leader => "leader"

/-- How a node is written. -/
def nodeText (n : NodeId) : String := "n" ++ toString n

/-- The kind and the text of an event, as the node or the cluster records it, if the renderer looks at it. -/
def Line.event : Line → Option (String × String)
  | .node n (.role role term) => some ("role", nodeText n ++ "|" ++ role.text ++ "|term=" ++ toString term)
  | .node n (.election term) => some ("election", nodeText n ++ "|term=" ++ toString term)
  | .node n (.vote candidate term) => some ("vote", nodeText n ++ "->" ++ nodeText candidate ++ "|term=" ++ toString term)
  | .node n (.commit index) => some ("commit", nodeText n ++ "|index=" ++ toString index)
  | .node n (.snapshot index term) =>
    some ("snapshot", nodeText n ++ "|index=" ++ toString index ++ "|term=" ++ toString term)
  | .crash n => some ("crash", nodeText n)
  | .resume n => some ("resume", nodeText n)
  | .partition groups => some ("partition", pyJoin "/" (groups.map fun g => pyJoin "," ((g.sort (· ≤ ·)).map nodeText)))
  | .heal => some ("heal", "all")
  | _ => none

/-- The events of a cluster. -/
def Harness.events {R : RandomSource} (self : Harness R) : List (Int × String × String) :=
  self.trace.filterMap fun x => x.2.event.map fun e => (x.1, e)

/-! ## The texts of events -/

/-- What the renderer can raise: a `ValueError` for a text that names no node first, or what Python raises. -/
inductive TimelineError where
  | noNodePrefix (detail : String)
  | raised (e : PyError)
  deriving DecidableEq

/-- `(\d+)` at the start of a text, as an `int`. -/
def leadingNumber (cs : List Char) : Option Int :=
  match cs.takeWhile fun c => (toAscii c).isDigit with
  | [] => none
  | d :: ds => pyInt (String.ofList (d :: ds))

/-- `_node_of`. -/
def nodeOf (detail : String) : Except TimelineError NodeId :=
  match detail.toList with
  | 'n' :: cs =>
    match leadingNumber cs with
    | some node => .ok node
    | none => .error (.noNodePrefix detail)
  | _ => .error (.noNodePrefix detail)

/-- The number after the first occurrence of `key` that a number follows, or 0. -/
def searchNumber (key : List Char) : List Char → Int
  | [] => 0
  | c :: cs =>
    match if key.isPrefixOf (c :: cs) then leadingNumber ((c :: cs).drop key.length) else none with
    | some n => n
    | none => searchNumber key cs

/-- `_num`. -/
def num (detail key : String) : Int := searchNumber (key ++ "=").toList detail.toList

/-! ## Lanes -/

structure Segment where
  start : Int
  stop : Int
  term : Int
  role : String
  alive : Bool
  deriving DecidableEq

/-- A node's lane: its current term, role and aliveness, since when they are drawn, and the segments before. -/
structure Lane where
  term : Int := 0
  role : String := "follower"
  alive : Bool := true
  since : Int := 0
  segments : List Segment := []
  deriving DecidableEq

/-- `close_segment`. -/
def Lane.close (self : Lane) (t : Int) : Lane :=
  { self with
    segments := if self.since < t then
      self.segments ++ [{ start := self.since, stop := t, term := self.term, role := self.role, alive := self.alive }]
      else self.segments
    since := t }

/-- The lanes, and the intervals in which the network is partitioned. -/
structure Timeline where
  lanes : Dict NodeId Lane
  partitions : List (Int × Int) := []
  partStart : Option Int := none

namespace Timeline

/-- The node's lane changes. -/
def change (self : Timeline) (node : NodeId) (f : Lane → Lane) : Except TimelineError Timeline := do
  let lane ← (self.lanes.item node).mapError .raised
  return { self with lanes := self.lanes.insert node (f lane) }

/-- One event. -/
def event (self : Timeline) (e : Int × String × String) : Except TimelineError Timeline :=
  let (t, kind, detail) := e
  if kind = "role" then do
    let node ← nodeOf detail
    let role ← (pyIndex (pySplit detail '|') 1).mapError .raised
    self.change node fun lane => { lane.close t with role, term := num detail "term" }
  else if kind = "election" ∨ kind = "vote" ∨ kind = "commit" ∨ kind = "snapshot" then do
    let _ ← nodeOf detail
    return self
  else if kind = "crash" then do
    let node ← nodeOf detail
    self.change node fun lane => { lane.close t with alive := false }
  else if kind = "resume" then do
    let node ← nodeOf detail
    self.change node fun lane => { lane.close t with alive := true }
  else if kind = "partition" then .ok { self with partStart := self.partStart.or (some t) }
  else if kind = "heal" then
    match self.partStart with
    | some start => .ok { self with partitions := self.partitions ++ [(start, t)], partStart := none }
    | none => .ok self
  else .ok self

/-- `render_timeline`, up to the drawing. -/
def render (events : List (Int × String × String)) (numNodes : ℕ) (duration : Int) : Except TimelineError Timeline := do
  let duration := max duration 1
  let self ← events.foldlM event { lanes := Dict.fromKeys (pyRange 0 numNodes) {} }
  let self := match self.partStart with
    | some start => { self with partitions := self.partitions ++ [(start, duration)] }
    | none => self
  (pyRange 0 numNodes).foldlM (fun self node => self.change node (·.close duration)) self

end Timeline

/-! ## Reading the texts back -/

theorem isDigit_of_mem_toString {n : Int} (h : 0 ≤ n) {c : Char} (hc : c ∈ (toString n).toList) : c.isDigit = true := by
  obtain ⟨k, rfl⟩ := Int.eq_ofNat_of_zero_le h
  have hk : (toString (k : Int)).toList = Nat.toDigits 10 k := Nat.toList_repr
  rw [hk] at hc
  exact Nat.isDigit_of_mem_toDigits (by omega) (by omega) hc

theorem isDigit_toAscii {c : Char} (h : c.isDigit = true) : (toAscii c).isDigit = true := by
  rw [toAscii_of_lt (by have := toNat_ge_of_isDigit h; omega)]
  exact h

/-- A written number is read, if no digit follows it. -/
theorem leadingNumber_toString {n : Int} (h : 0 ≤ n) {rest : List Char} (hr : ∀ c ∈ rest.head?, (toAscii c).isDigit = false) :
    leadingNumber ((toString n).toList ++ rest) = some n := by
  have hstop : rest.takeWhile (fun c => (toAscii c).isDigit) = [] := by
    cases rest with
    | nil => rfl
    | cons c rest => rw [List.takeWhile_cons, hr c rfl, if_neg Bool.false_ne_true]
  have hdigits : ((toString n).toList ++ rest).takeWhile (fun c => (toAscii c).isDigit) = (toString n).toList := by
    rw [List.takeWhile_append_of_pos fun c hc => isDigit_toAscii (isDigit_of_mem_toString h hc), hstop, List.append_nil]
  unfold leadingNumber
  rw [hdigits]
  cases hd : (toString n).toList with
  | nil =>
    have hread := pyInt_toString n
    rw [pyInt, hd] at hread
    cases hread
  | cons c cs =>
    simp only
    rw [← hd, String.ofList_toList, pyInt_toString]

/-- A sign is not read. -/
theorem leadingNumber_neg {n : Int} (h : n < 0) (rest : List Char) : leadingNumber ((toString n).toList ++ rest) = none := by
  obtain ⟨k, rfl⟩ : ∃ k, n = Int.negSucc k := Int.eq_negSucc_of_lt_zero h
  have hk : (toString (Int.negSucc k)).toList = '-' :: Nat.toDigits 10 (k + 1) := by
    show ("-" ++ Nat.repr (k + 1)).toList = _
    simp
  rw [hk, List.cons_append]
  unfold leadingNumber
  rw [List.takeWhile_cons, if_neg (by decide)]

/-- The node of a text that begins with it. -/
theorem nodeOf_nodeText (n : NodeId) {rest : String} (hr : ∀ c ∈ rest.toList.head?, (toAscii c).isDigit = false) :
    nodeOf (nodeText n ++ rest) = if 0 ≤ n then .ok n else .error (.noNodePrefix (nodeText n ++ rest)) := by
  have htext : (nodeText n ++ rest).toList = 'n' :: ((toString n).toList ++ rest.toList) := by
    rw [nodeText, String.toList_append, String.toList_append]
    rfl
  unfold nodeOf
  rw [htext]
  simp only
  by_cases h : 0 ≤ n
  · rw [leadingNumber_toString h hr, if_pos h]
  · rw [leadingNumber_neg (not_le.1 h), if_neg h]

theorem nodeOf_only (n : NodeId) : nodeOf (nodeText n) = if 0 ≤ n then .ok n else .error (.noNodePrefix (nodeText n)) := by
  have hnone : ∀ c ∈ ("" : String).toList.head?, (toAscii c).isDigit = false := by simp
  have h := nodeOf_nodeText n hnone
  rwa [String.append_empty] at h

/-- No key starts before a `t`. -/
theorem searchNumber_skip (key : List Char) {pre : List Char} (hpre : ∀ c ∈ pre, c ≠ 't') (rest : List Char) :
    searchNumber ('t' :: key) (pre ++ rest) = searchNumber ('t' :: key) rest := by
  induction pre with
  | nil => rfl
  | cons c pre ih =>
    have hne : ('t' == c) = false := beq_false_of_ne (hpre c List.mem_cons_self).symm
    rw [List.cons_append, searchNumber]
    simp only [List.isPrefixOf, hne, Bool.false_and, Bool.false_eq_true, if_false]
    exact ih fun x hx => hpre x (List.mem_cons_of_mem _ hx)

theorem ne_of_mem_toString {i : Int} {c d : Char} (hc : c ∈ (toString i).toList) (hd : d.isDigit = false) (hm : d ≠ '-') : c ≠ d := by
  rintro rfl
  rcases mem_toString_int hc with h | h
  · rw [hd] at h
    cases h
  · exact hm h

/-- The text of a role event. -/
def roleText (n : NodeId) (role : Role) (term : Int) : String := nodeText n ++ "|" ++ role.text ++ "|term=" ++ toString term

/-- The term of a role event. -/
theorem num_roleText (n : NodeId) (role : Role) (term : Int) : num (roleText n role term) "term" = max term 0 := by
  have hkey : ("term" ++ "=").toList = ['t', 'e', 'r', 'm', '='] := by decide
  have htext : (roleText n role term).toList = ('n' :: (toString n).toList ++ ['|']) ++ (role.text.toList ++ '|' ::
      ['t', 'e', 'r', 'm', '='] ++ (toString term).toList) := by
    simp [roleText, nodeText]
  have hnone : ∀ c ∈ ([] : List Char).head?, (toAscii c).isDigit = false := by simp
  unfold num
  rw [hkey, htext, searchNumber_skip]
  · have hrole : searchNumber ['t', 'e', 'r', 'm', '='] (role.text.toList ++ '|' :: ['t', 'e', 'r', 'm', '='] ++ (toString term).toList) =
        searchNumber ['t', 'e', 'r', 'm', '='] (['t', 'e', 'r', 'm', '='] ++ (toString term).toList) := by
      cases role <;> simp [Role.text, searchNumber, List.isPrefixOf]
    rw [hrole, List.cons_append, searchNumber]
    simp only [List.isPrefixOf, beq_self_eq_true, Bool.and_self, if_true, List.cons_append, List.nil_append, List.drop_succ_cons,
      List.length_cons, List.length_nil, List.drop_zero]
    by_cases h : 0 ≤ term
    · have hread := leadingNumber_toString h hnone
      rw [List.append_nil] at hread
      rw [hread, max_eq_left h]
    · have hread := leadingNumber_neg (not_le.1 h) []
      rw [List.append_nil] at hread
      rw [hread]
      have hsign : ∀ c ∈ 'e' :: 'r' :: 'm' :: '=' :: (toString term).toList, c ≠ 't' := by
        intro c hc
        simp only [List.mem_cons] at hc
        rcases hc with rfl | rfl | rfl | rfl | hc
        · decide
        · decide
        · decide
        · decide
        · exact ne_of_mem_toString hc (by decide) (by decide)
      have hrest := searchNumber_skip ['e', 'r', 'm', '='] hsign []
      rw [List.append_nil] at hrest
      exact hrest.trans (max_eq_right (not_le.1 h).le).symm
  · intro c hc
    simp only [List.mem_append, List.mem_cons, List.not_mem_nil, or_false] at hc
    rcases hc with (rfl | hc) | rfl
    · decide
    · exact ne_of_mem_toString hc (by decide) (by decide)
    · decide

/-- The role of a role event. -/
theorem pySplit_roleText (n : NodeId) (role : Role) (term : Int) : pyIndex (pySplit (roleText n role term) '|') 1 = .ok role.text := by
  have hjoin : roleText n role term = pyJoin (String.singleton '|') [nodeText n, role.text, "term=" ++ toString term] := by
    refine String.toList_inj.1 ?_
    rw [toList_pyJoin]
    simp [roleText, nodeText]
  have hdigit : ∀ (pre : String) (i : Int), '|' ∉ pre.toList → '|' ∉ (pre ++ toString i).toList := by
    intro pre i hpre h
    rw [String.toList_append, List.mem_append] at h
    rcases h with h | h
    · exact hpre h
    · exact ne_of_mem_toString h (by decide) (by decide) rfl
  have hsep : ∀ q ∈ [nodeText n, role.text, "term=" ++ toString term], '|' ∉ q.toList := by
    intro q hq
    simp only [List.mem_cons, List.not_mem_nil, or_false] at hq
    rcases hq with rfl | rfl | rfl
    · exact hdigit "n" n (by decide)
    · cases role <;> decide
    · exact hdigit "term=" term (by decide)
  rw [hjoin, pySplit_pyJoin '|' _ _ hsep]
  rfl

end DeterministicRaft
