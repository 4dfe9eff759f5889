import DeterministicRaft.Frames
import DeterministicRaft.Timeline

/-!
# Lanes and their segments

On the lines of a trace the renderer does not raise, as long as they are about nodes that have a lane: each lane goes through the lines
about its node. Its segments follow one another up to the time since when it is as it is, and if the lane at each of some moments comes
from the one before by lines recorded at that moment, a segment shows the lane as it was at a moment in its time.
-/

namespace DeterministicRaft

/-! ## Lines -/

/-- A line about a node is about one of these. -/
def Line.About (nodeIds : List NodeId) : Line → Prop
  | .node n _ | .crash n | .resume n => n ∈ nodeIds
  | _ => True

theorem Line.Aside.about {nodeIds : List NodeId} {line : Line} (h : line.Aside) : line.About nodeIds := by
  cases line with
  | node => exact h.elim
  | crash => exact h.elim
  | resume => exact h.elim
  | _ => trivial

/-- What a line changes of the lane of node `n`. -/
def Lane.next (n : NodeId) (lane : Lane) (x : Int × Line) : Lane :=
  match x.2 with
  | .node m (.role role term) => if m = n then { lane.close x.1 with role := role.text, term := max term 0 } else lane
  | .crash m => if m = n then { lane.close x.1 with alive := false } else lane
  | .resume m => if m = n then { lane.close x.1 with alive := true } else lane
  | _ => lane

namespace Lane

/-- The lane that some lines lead to. -/
def after (n : NodeId) (lane : Lane) (lines : List (Int × Line)) : Lane := lines.foldl (Lane.next n) lane

theorem after_append (n : NodeId) (lane : Lane) (lines lines' : List (Int × Line)) :
    lane.after n (lines ++ lines') = (lane.after n lines).after n lines' := List.foldl_append

/-- A line that the renderer passes over. -/
theorem next_of_no_event {n : NodeId} {lane : Lane} {x : Int × Line} (he : x.2.event = none) : lane.next n x = lane := by
  obtain ⟨t, line⟩ := x
  cases line with
  | node m event =>
    cases event with
    | role => cases he
    | _ => rfl
  | crash => cases he
  | resume => cases he
  | _ => rfl

/-- A lane that is closed is not closed again. -/
theorem close_close (lane : Lane) (t : Int) : (lane.close t).close t = lane.close t := by
  unfold close
  rw [if_neg (lt_irrefl t)]

end Lane

namespace Timeline

variable {self : Timeline} {nodeIds : List NodeId} {lane : NodeId → Lane}

/-- The nodes have these lanes. -/
def Draws (self : Timeline) (nodeIds : List NodeId) (lane : NodeId → Lane) : Prop :=
  ∀ n ∈ nodeIds, self.lanes.lookup n = some (lane n)

/-- A lane that is there can be changed. -/
theorem Draws.change (h : self.Draws nodeIds lane) {node : NodeId} (hn : node ∈ nodeIds) (f : Lane → Lane) :
    ∃ after, self.change node f = .ok after ∧ after.Draws nodeIds (Function.update lane node (f (lane node))) := by
  have hitem : self.lanes.item node = .ok (lane node) := by
    unfold Dict.item
    rw [h node hn]
  refine ⟨_, by rw [Timeline.change, hitem]; rfl, fun m hm => ?_⟩
  by_cases hmn : m = node
  · subst hmn
    rw [Function.update_self]
    exact Finmap.lookup_insert _
  · rw [Function.update_of_ne hmn]
    exact (Finmap.lookup_insert_of_ne _ hmn).trans (h m hm)

/-- The lanes after a change of one. -/
theorem Draws.of_change (h : self.Draws nodeIds lane) {node : NodeId} (hn : node ∈ nodeIds) (f : Lane → Lane) (lane' : NodeId → Lane)
    (hself : lane' node = f (lane node)) (hother : ∀ n, node ≠ n → lane' n = lane n) :
    ∃ after, self.change node f = .ok after ∧ after.Draws nodeIds lane' := by
  obtain ⟨after, hok, hdraws⟩ := h.change hn f
  refine ⟨after, hok, fun m hm => (hdraws m hm).trans ?_⟩
  by_cases hmn : m = node
  · rw [hmn, Function.update_self, hself]
  · rw [Function.update_of_ne hmn, hother m (Ne.symm hmn)]

/-- An event that changes no lane names its node. -/
theorem Draws.mark (h : self.Draws nodeIds lane) {t : Int} {kind detail : String} {n : NodeId} (hnode : nodeOf detail = .ok n)
    (hrole : kind ≠ "role") (hkind : kind = "election" ∨ kind = "vote" ∨ kind = "commit" ∨ kind = "snapshot") :
    ∃ after, self.event (t, kind, detail) = .ok after ∧ after.Draws nodeIds lane := by
  refine ⟨self, ?_, h⟩
  unfold Timeline.event
  simp only
  rw [if_neg hrole, if_pos hkind, hnode]
  rfl

/-- The event of a line changes the lane of the node it is about. -/
theorem Draws.event (h : self.Draws nodeIds lane) (hpos : ∀ n ∈ nodeIds, 0 ≤ n) {x : Int × Line} (hx : x.2.About nodeIds)
    {e : String × String} (he : x.2.event = some e) :
    ∃ after, self.event (x.1, e) = .ok after ∧ after.Draws nodeIds fun n => (lane n).next n x := by
  obtain ⟨t, line⟩ := x
  have hnode : ∀ n ∈ nodeIds, ∀ (detail : String) (c : Char) (rest : List Char), detail.toList = (nodeText n).toList ++ c :: rest →
      (toAscii c).isDigit = false → nodeOf detail = .ok n := by
    intro n hn detail c rest htext hc
    have hdetail : detail = nodeText n ++ String.ofList (c :: rest) := by
      rw [← String.toList_inj, htext, String.toList_append, String.toList_ofList]
    rw [hdetail, nodeOf_nodeText, if_pos (hpos n hn)]
    intro d hd
    rw [String.toList_ofList] at hd
    cases Option.some.inj hd
    exact hc
  cases line with
  | node n event =>
    have hn : n ∈ nodeIds := hx
    cases event with
    | role role term =>
      cases he
      have htext : nodeOf (roleText n role term) = .ok n :=
        hnode n hn _ '|' (role.text ++ "|term=" ++ toString term).toList (by simp [roleText]) (by decide)
      obtain ⟨after, hok, hdraws⟩ := h.of_change hn (fun lane => { lane.close t with role := role.text, term := max term 0 })
        (fun m => (lane m).next m (t, .node n (.role role term))) (if_pos rfl) fun m hm => if_neg hm
      refine ⟨after, ?_, hdraws⟩
      rw [← hok]
      show (do
        let node ← nodeOf (roleText n role term)
        let role' ← (pyIndex (pySplit (roleText n role term) '|') 1).mapError .raised
        self.change node fun lane => { lane.close t with role := role', term := num (roleText n role term) "term" }) = _
      rw [htext, pySplit_roleText, num_roleText]
      rfl
    | election term =>
      cases he
      have htext := hnode n hn (nodeText n ++ "|term=" ++ toString term) '|' ("term=" ++ toString term).toList (by simp) (by decide)
      exact h.mark htext (by decide) (by decide)
    | vote candidate term =>
      cases he
      have htext := hnode n hn (nodeText n ++ "->" ++ nodeText candidate ++ "|term=" ++ toString term) '-'
        (">" ++ nodeText candidate ++ "|term=" ++ toString term).toList (by simp) (by decide)
      exact h.mark htext (by decide) (by decide)
    | commit index =>
      cases he
      have htext := hnode n hn (nodeText n ++ "|index=" ++ toString index) '|' ("index=" ++ toString index).toList (by simp) (by decide)
      exact h.mark htext (by decide) (by decide)
    | snapshot index term =>
      cases he
      have htext := hnode n hn (nodeText n ++ "|index=" ++ toString index ++ "|term=" ++ toString term) '|'
        ("index=" ++ toString index ++ "|term=" ++ toString term).toList (by simp) (by decide)
      exact h.mark htext (by decide) (by decide)
    | _ => cases he
  | crash n =>
    cases he
    have hn : n ∈ nodeIds := hx
    obtain ⟨after, hok, hdraws⟩ := h.of_change hn (fun lane => { lane.close t with alive := false })
      (fun m => (lane m).next m (t, .crash n)) (if_pos rfl) fun m hm => if_neg hm
    refine ⟨after, ?_, hdraws⟩
    rw [← hok]
    show (do
      let node ← nodeOf (nodeText n)
      self.change node fun lane => { lane.close t with alive := false }) = _
    rw [nodeOf_only, if_pos (hpos n hn)]
    rfl
  | resume n =>
    cases he
    have hn : n ∈ nodeIds := hx
    obtain ⟨after, hok, hdraws⟩ := h.of_change hn (fun lane => { lane.close t with alive := true })
      (fun m => (lane m).next m (t, .resume n)) (if_pos rfl) fun m hm => if_neg hm
    refine ⟨after, ?_, hdraws⟩
    rw [← hok]
    show (do
      let node ← nodeOf (nodeText n)
      self.change node fun lane => { lane.close t with alive := true }) = _
    rw [nodeOf_only, if_pos (hpos n hn)]
    rfl
  | partition groups =>
    cases he
    exact ⟨_, rfl, h⟩
  | heal =>
    cases he
    obtain ⟨lanes, partitions, partStart⟩ := self
    cases partStart with
    | none => exact ⟨_, rfl, h⟩
    | some start => exact ⟨_, rfl, h⟩
  | _ => cases he

/-- The events of some lines. -/
theorem Draws.events (h : self.Draws nodeIds lane) (hpos : ∀ n ∈ nodeIds, 0 ≤ n) {lines : List (Int × Line)}
    (hl : ∀ x ∈ lines, x.2.About nodeIds) :
    ∃ after, (lines.filterMap fun x => x.2.event.map fun e => (x.1, e)).foldlM Timeline.event self = .ok after ∧
      after.Draws nodeIds fun n => (lane n).after n lines := by
  induction lines generalizing self lane with
  | nil => exact ⟨self, rfl, h⟩
  | cons x lines ih =>
    have hrest := fun y hy => hl y (List.mem_cons_of_mem _ hy)
    cases he : x.2.event with
    | none =>
      have hsame : ∀ n, (lane n).after n (x :: lines) = (lane n).after n lines := fun n => by
        rw [Lane.after, List.foldl_cons, Lane.next_of_no_event he]
        rfl
      obtain ⟨after, hok, hdraws⟩ := ih h hrest
      refine ⟨after, ?_, fun n hn => (hdraws n hn).trans (congrArg some (hsame n).symm)⟩
      rw [List.filterMap_cons, he]
      exact hok
    | some e =>
      obtain ⟨mid, hmid, hdraws⟩ := h.event hpos (hl x List.mem_cons_self) he
      obtain ⟨after, hok, hdraws⟩ := ih hdraws hrest
      refine ⟨after, ?_, hdraws⟩
      rw [List.filterMap_cons, he]
      simp only [Option.map_some, List.foldlM_cons, hmid]
      exact hok

/-- At the end some lanes are closed. -/
theorem Draws.close (h : self.Draws nodeIds lane) (t : Int) {ns : List NodeId} (hns : ns ⊆ nodeIds) :
    ∃ after, ns.foldlM (fun self node => self.change node (·.close t)) self = .ok after ∧
      after.Draws nodeIds fun n => if n ∈ ns then (lane n).close t else lane n := by
  induction ns generalizing self lane with
  | nil => exact ⟨self, rfl, by simpa using h⟩
  | cons n ns ih =>
    obtain ⟨mid, hmid, hdraws⟩ := h.change (hns List.mem_cons_self) (·.close t)
    obtain ⟨after, hok, hdraws⟩ := ih hdraws fun m hm => hns (List.mem_cons_of_mem _ hm)
    refine ⟨after, ?_, fun m hm => (hdraws m hm).trans (congrArg some ?_)⟩
    · simp only [List.foldlM_cons, hmid]
      exact hok
    · by_cases hmn : m = n
      · subst hmn
        simp only [Function.update_self, List.mem_cons_self, if_true, Lane.close_close, ite_self]
      · simp only [Function.update_of_ne hmn, List.mem_cons, hmn, false_or]

end Timeline

/-- What the renderer reconstructs of a cluster's events: each node's lane, after all lines about it, closed at the end. -/
theorem Harness.render_events {R : RandomSource} (self : Harness R) {numNodes : ℕ} (duration : Int)
    (hl : ∀ x ∈ self.trace, x.2.About (pyRange 0 numNodes)) :
    ∃ timeline, Timeline.render self.events numNodes duration = .ok timeline ∧
      timeline.Draws (pyRange 0 numNodes) fun n => (({} : Lane).after n self.trace).close (max duration 1) := by
  have hpos : ∀ n ∈ pyRange 0 numNodes, (0 : Int) ≤ n := fun n hn => (mem_pyRange.1 hn).1
  have hinit : ({ lanes := Dict.fromKeys (pyRange 0 numNodes) {} } : Timeline).Draws (pyRange 0 numNodes) fun _ => {} :=
    fun n hn => by rw [Dict.lookup_fromKeys, if_pos hn]
  obtain ⟨mid, hmid, hdraws⟩ := hinit.events hpos hl
  have hclosed : ∀ timeline : Timeline, timeline.lanes = mid.lanes → ∃ after,
      (pyRange 0 numNodes).foldlM (fun self node => self.change node (·.close (max duration 1))) timeline = .ok after ∧
        after.Draws (pyRange 0 numNodes) fun n => (({} : Lane).after n self.trace).close (max duration 1) := by
    intro timeline hlanes
    have hdraws : timeline.Draws (pyRange 0 numNodes) fun n => ({} : Lane).after n self.trace := by
      unfold Timeline.Draws
      rw [hlanes]
      exact hdraws
    obtain ⟨after, hok, hafter⟩ := hdraws.close (max duration 1) (List.Subset.refl _)
    exact ⟨after, hok, fun n hn => (hafter n hn).trans (congrArg some (if_pos hn))⟩
  unfold Timeline.render
  simp only
  unfold Harness.events
  rw [hmid]
  exact hclosed _ (by cases mid.partStart <;> rfl)

/-! ## Segments -/

/-- The segments follow one another from the one time to the other, without gap or overlap. -/
def Tiles : Int → List Segment → Int → Prop
  | start, [], stop => start = stop
  | start, segment :: segments, stop => segment.start = start ∧ segment.start < segment.stop ∧ Tiles segment.stop segments stop

/-- One more segment where the others end. -/
theorem Tiles.concat {a : Int} {segments : List Segment} {segment : Segment} (h : Tiles a segments segment.start)
    (hlt : segment.start < segment.stop) : Tiles a (segments ++ [segment]) segment.stop := by
  induction segments generalizing a with
  | nil => exact ⟨h.symm, hlt, rfl⟩
  | cons s segments ih =>
    obtain ⟨hs, hpos, hrest⟩ := h
    exact ⟨hs, hpos, ih hrest⟩

/-- The segment shows the lane as it is. -/
def Segment.Shows (segment : Segment) (lane : Lane) : Prop :=
  segment.term = lane.term ∧ segment.role = lane.role ∧ segment.alive = lane.alive

/-- Moment `j` of `k` is present at the time `t`: it has begun, and the next one has begun at the earliest then. The last one is present
until `d`. -/
def Present (now : ℕ → Int) (k : ℕ) (d : Int) (j : ℕ) (t : Int) : Prop :=
  now j ≤ t ∧ (j < k ∧ t ≤ now (j + 1) ∨ j = k ∧ t ≤ d)

instance (now : ℕ → Int) (k : ℕ) (d : Int) (j : ℕ) (t : Int) : Decidable (Present now k d j t) :=
  inferInstanceAs (Decidable (_ ∧ _))

theorem Present.later {now : ℕ → Int} {k j : ℕ} {d d' t : Int} (h : Present now k d j t) (hd : d ≤ d') : Present now k d' j t := by
  obtain ⟨hj, ⟨hlt, ht⟩ | ⟨he, ht⟩⟩ := h
  · exact ⟨hj, Or.inl ⟨hlt, ht⟩⟩
  · exact ⟨hj, Or.inr ⟨he, ht.trans hd⟩⟩

/-- The last moment is present until the next one begins. -/
theorem Present.next {now : ℕ → Int} {k j : ℕ} {d t : Int} (h : Present now k (now (k + 1)) j t) : Present now (k + 1) d j t := by
  obtain ⟨hj, ⟨hlt, ht⟩ | ⟨rfl, ht⟩⟩ := h
  · exact ⟨hj, Or.inl ⟨hlt.trans (Nat.lt_succ_self k), ht⟩⟩
  · exact ⟨hj, Or.inl ⟨Nat.lt_succ_self j, ht⟩⟩

/-- Lines recorded at the time `t` lead from the one lane to the other: if they change it, they close it then. -/
def Lane.Turns (t : Int) (before after : Lane) : Prop :=
  after = before ∨ after.since = t ∧ after.segments = (before.close t).segments

theorem Lane.turns_next (n : NodeId) (lane : Lane) (x : Int × Line) : Lane.Turns x.1 lane (lane.next n x) := by
  obtain ⟨t, line⟩ := x
  have hclose : (lane.close t).since = t := rfl
  cases line with
  | node m event =>
    cases event with
    | role role term =>
      simp only [Lane.next]
      split
      · exact Or.inr ⟨hclose, rfl⟩
      · exact Or.inl rfl
    | _ => exact Or.inl rfl
  | crash m | resume m =>
    simp only [Lane.next]
    split
    · exact Or.inr ⟨hclose, rfl⟩
    · exact Or.inl rfl
  | _ => exact Or.inl rfl

theorem Lane.turns_after (n : NodeId) (lane : Lane) {lines : List (Int × Line)} {t : Int} (hl : ∀ x ∈ lines, x.1 = t) :
    Lane.Turns t lane (lane.after n lines) := by
  induction lines generalizing lane with
  | nil => exact Or.inl rfl
  | cons x lines ih =>
    have hrest := ih (lane.next n x) fun y hy => hl y (List.mem_cons_of_mem _ hy)
    have hx := Lane.turns_next n lane x
    rw [hl x List.mem_cons_self] at hx
    rcases hx with hx | ⟨hsince, hsegs⟩
    · rw [Lane.after, List.foldl_cons, hx]
      rw [hx] at hrest
      exact hrest
    · rw [Lane.after, List.foldl_cons]
      rcases hrest with hrest | ⟨hsince', hsegs'⟩
      · exact Or.inr (by rw [← Lane.after, hrest]; exact ⟨hsince, hsegs⟩)
      · refine Or.inr ⟨hsince', hsegs'.trans ?_⟩
        unfold Lane.close
        rw [hsince, if_neg (lt_irrefl t), hsegs]
        rfl

/-- At moment `k` the lane's segments end since when it is as it is, each shows it as it was at a moment in its time, and so does what will
be the next one. -/
structure Lane.Traced (now : ℕ → Int) (lane : ℕ → Lane) (k : ℕ) : Prop where
  tiles : Tiles 0 (lane k).segments (lane k).since
  since_le : (lane k).since ≤ now k
  segments : ∀ segment ∈ (lane k).segments, ∀ t, segment.start ≤ t → t ≤ segment.stop →
    ∃ j, Present now k (now k) j t ∧ segment.Shows (lane j)
  current : ∀ t, (lane k).since ≤ t → t ≤ now k → ∃ j, Present now k (now k) j t ∧ (lane j).term = (lane k).term ∧
    (lane j).role = (lane k).role ∧ (lane j).alive = (lane k).alive

namespace Lane.Traced

variable {now : ℕ → Int} {lane : ℕ → Lane} {k : ℕ}

theorem zero (hnow : now 0 = 0) (hlane : (lane 0).since = 0 ∧ (lane 0).segments = []) : Traced now lane 0 := by
  obtain ⟨hsince, hsegs⟩ := hlane
  refine ⟨by rw [hsince, hsegs]; rfl, by rw [hsince, hnow], fun segment hs => ?_, fun t ht ht' => ?_⟩
  · rw [hsegs] at hs
    exact absurd hs List.not_mem_nil
  · rw [hsince, ← hnow] at ht
    exact ⟨0, ⟨ht, Or.inr ⟨rfl, ht'⟩⟩, rfl, rfl, rfl⟩

/-- A lane that is closed. -/
theorem close (h : Traced now lane k) {d : Int} (hd : now k ≤ d) : Tiles 0 ((lane k).close d).segments d ∧
    ∀ segment ∈ ((lane k).close d).segments, ∀ t, segment.start ≤ t → t ≤ segment.stop →
      ∃ j, Present now k d j t ∧ segment.Shows (lane j) := by
  have hold : ∀ segment ∈ (lane k).segments, ∀ t, segment.start ≤ t → t ≤ segment.stop →
      ∃ j, Present now k d j t ∧ segment.Shows (lane j) := by
    intro segment hs t ht ht'
    obtain ⟨j, hj, hshow⟩ := h.segments segment hs t ht ht'
    exact ⟨j, hj.later hd, hshow⟩
  by_cases hlt : (lane k).since < d
  · have hsegs : ((lane k).close d).segments = (lane k).segments ++
        [{ start := (lane k).since, stop := d, term := (lane k).term, role := (lane k).role, alive := (lane k).alive }] := if_pos hlt
    rw [hsegs]
    refine ⟨Tiles.concat (by exact h.tiles) hlt, fun segment hs t ht ht' => ?_⟩
    rcases List.mem_append.1 hs with hs | hs
    · exact hold segment hs t ht ht'
    · cases List.mem_singleton.1 hs
      by_cases hk : t ≤ now k
      · obtain ⟨j, hj, hterm, hrole, halive⟩ := h.current t ht hk
        exact ⟨j, hj.later hd, hterm.symm, hrole.symm, halive.symm⟩
      · exact ⟨k, ⟨(not_le.1 hk).le, Or.inr ⟨rfl, ht'⟩⟩, rfl, rfl, rfl⟩
  · have hsegs : ((lane k).close d).segments = (lane k).segments := if_neg hlt
    have hd : (lane k).since = d := le_antisymm (h.since_le.trans hd) (not_lt.1 hlt)
    rw [hsegs]
    exact ⟨hd ▸ h.tiles, hold⟩

/-- Lines recorded at the next moment. -/
theorem next (h : Traced now lane k) (hnow : now k ≤ now (k + 1)) (hl : Lane.Turns (now (k + 1)) (lane k) (lane (k + 1))) :
    Traced now lane (k + 1) := by
  rcases hl with hl | ⟨hsince, hsegs⟩
  · refine ⟨by rw [hl]; exact h.tiles, by rw [hl]; exact h.since_le.trans hnow, fun segment hs t ht ht' => ?_, fun t ht ht' => ?_⟩
    · rw [hl] at hs
      obtain ⟨j, hj, hshow⟩ := h.segments segment hs t ht ht'
      exact ⟨j, (hj.later hnow).next, hshow⟩
    · rw [hl] at ht ⊢
      by_cases hk : t ≤ now k
      · obtain ⟨j, hj, hsame⟩ := h.current t ht hk
        exact ⟨j, (hj.later hnow).next, hsame⟩
      · exact ⟨k, ⟨(not_le.1 hk).le, Or.inl ⟨Nat.lt_succ_self k, ht'⟩⟩, rfl, rfl, rfl⟩
  · obtain ⟨htiles, hshows⟩ := h.close hnow
    refine ⟨by rw [hsince, hsegs]; exact htiles, hsince.le, fun segment hs t ht ht' => ?_, fun t ht ht' => ?_⟩
    · rw [hsegs] at hs
      obtain ⟨j, hj, hshow⟩ := hshows segment hs t ht ht'
      exact ⟨j, hj.next, hshow⟩
    · rw [hsince] at ht
      exact ⟨k + 1, ⟨ht, Or.inr ⟨rfl, ht'⟩⟩, rfl, rfl, rfl⟩

/-- All moments of a run. -/
theorem run {length : ℕ} (hzero : now 0 = 0) (hlane : (lane 0).since = 0 ∧ (lane 0).segments = [])
    (hnow : ∀ k < length, now k ≤ now (k + 1))
    (hturns : ∀ k < length, Lane.Turns (now (k + 1)) (lane k) (lane (k + 1))) : Traced now lane length := by
  have hall : ∀ k ≤ length, Traced now lane k := by
    intro k
    induction k with
    | zero => exact fun _ => zero hzero hlane
    | succ k ih => exact fun hk => (ih (Nat.le_of_succ_le hk)).next (hnow k hk) (hturns k hk)
  exact hall length le_rfl

end Lane.Traced

end DeterministicRaft
