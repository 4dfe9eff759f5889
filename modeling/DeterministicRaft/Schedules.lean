import DeterministicRaft.Nemesis
import DeterministicRaft.Refinement
import DeterministicRaft.Shell

/-!
# Fault schedules as text (`nemesis.py`)

A schedule is written as a JSON list with one object for each pattern, and read back from it. Writing and reading JSON is the
library's: any two functions of which the reading undoes the writing.
-/

namespace DeterministicRaft

open Refinement

/-- A JSON value. A fraction is the rational number it stands for. -/
inductive Json where
  | null
  | bool (b : Bool)
  | int (i : Int)
  | float (x : ℚ)
  | str (s : String)
  | arr (items : List Json)
  | obj (fields : List (String × Json))

/-- The string occurs in the value, as a value or as a key. -/
inductive Json.Mentions (s : String) : Json → Prop
  | str : Mentions s (.str s)
  | item {items : List Json} {v : Json} (hv : v ∈ items) (h : Mentions s v) : Mentions s (.arr items)
  | key {fields : List (String × Json)} {v : Json} (hv : (s, v) ∈ fields) : Mentions s (.obj fields)
  | field {fields : List (String × Json)} {k : String} {v : Json} (hv : (k, v) ∈ fields) (h : Mentions s v) : Mentions s (.obj fields)

/-- `json.dumps` with the separators `,` and `:`, and `json.loads`. What is faithful is read as it was written: each fraction is a
floating-point number and no object has a key twice. -/
structure JsonText where
  dumps : Json → String
  loads : String → Option Json
  Faithful : Json → Prop
  loads_dumps : ∀ v, Faithful v → loads (dumps v) = some v
  /-- A list starts with a bracket. -/
  bracket : ∀ items, Faithful (.arr items) → (dumps (.arr items)).toList.head? = some '['
  /-- There are no apostrophes but those of strings. -/
  apostrophe : ∀ v, Faithful v → (∀ s, v.Mentions s → APOSTROPHE ∉ s.toList) → APOSTROPHE ∉ (dumps v).toList

/-- As much of JSON as one list needs: nothing else is faithful, and no other text is read. -/
def JsonText.only (items : List Json) (text : String) (hbracket : text.toList.head? = some '[')
    (hapostrophe : APOSTROPHE ∉ text.toList) : JsonText where
  dumps _ := text
  loads t := if t = text then some (.arr items) else none
  Faithful v := v = .arr items
  loads_dumps v h := by rw [h, if_pos rfl]
  bracket _ _ := hbracket
  apostrophe _ _ _ := hapostrophe

/-- What reading a schedule can raise: a `TypeError`, or else a `ValueError` with what its text shows. -/
inductive ScheduleError where
  | typeError
  | invalidJson
  | notAList
  | notAnObject (item : Json)
  | unknownPattern (name : Option Json)
  | badFields (pattern : String)
  | notAnInteger (field : String) (value : Json)
  | notANumber (field : String) (value : Json)
  | tooSmall (field : String) (value : Int)
  | negativeEnd (a b : Int)
  | sameEnds (a b : Int)
  | outOfRange (field : String) (value : ℚ)

/-- Whether it is a `ValueError`. -/
def ScheduleError.IsValueError : ScheduleError → Prop
  | typeError => False
  | _ => True

namespace NemesisOp

/-- `_NAMES`. -/
def pattern : NemesisOp → String
  | partitionHalves .. => "partition_halves"
  | isolateLeader .. => "isolate_leader"
  | flappingLink .. => "flapping_link"
  | lossyLink .. => "lossy_link"
  | crashNode .. => "crash_node"

/-- The fields of a pattern, in the order in which its class declares them. -/
def fields : NemesisOp → List (String × Json)
  | partitionHalves at_ duration => [("at", .int at_), ("duration", .int duration)]
  | isolateLeader at_ duration => [("at", .int at_), ("duration", .int duration)]
  | flappingLink a b at_ period cycles =>
    [("a", .int a), ("b", .int b), ("at", .int at_), ("period", .int period), ("cycles", .int cycles)]
  | lossyLink a b at_ duration dropP =>
    [("a", .int a), ("b", .int b), ("at", .int at_), ("duration", .int duration), ("drop_p", .float dropP)]
  | crashNode node at_ duration => [("node", .int node), ("at", .int at_), ("duration", .int duration)]

end NemesisOp

namespace NemesisSchedule

/-- `_encode`. -/
def encode (op : NemesisOp) : Json := .obj (("pattern", .str op.pattern) :: op.fields)

/-- `_check_int`. A Boolean is no integer. -/
def checkInt (value : Json) (name : String) : Except ScheduleError Int :=
  match value with
  | .int i => .ok i
  | _ => .error (.notAnInteger name value)

/-- `_check_window`. -/
def checkWindow (at_ duration : Json) : Except ScheduleError { w : Int × Int // CheckWindow w.1 w.2 } := do
  let at_ ← checkInt at_ "at"
  let duration ← checkInt duration "duration"
  if h : 0 ≤ at_ then
    if h' : 1 ≤ duration then .ok ⟨(at_, duration), h, h'⟩ else .error (.tooSmall "duration" duration)
  else .error (.tooSmall "at" at_)

/-- `_check_link`. -/
def checkLink (a b : Json) : Except ScheduleError { l : Int × Int // CheckLink l.1 l.2 } := do
  let a ← checkInt a "a"
  let b ← checkInt b "b"
  if h : 0 ≤ a ∧ 0 ≤ b then
    if h' : a ≠ b then .ok ⟨(a, b), h, h'⟩ else .error (.sameEnds a b)
  else .error (.negativeEnd a b)

/-- The check of `drop_p`, which may be an integer. -/
def checkNumber (value : Json) (name : String) : Except ScheduleError ℚ :=
  match value with
  | .int i => .ok i
  | .float x => .ok x
  | _ => .error (.notANumber name value)

/-- A pattern that has passed its checks. -/
abbrev CheckedOp := { op : NemesisOp // op.Valid }

/-- `PartitionHalves.__post_init__`. -/
def checkPartitionHalves (at_ duration : Json) : Except ScheduleError CheckedOp := do
  let w ← checkWindow at_ duration
  return ⟨.partitionHalves w.1.1 w.1.2, w.2⟩

/-- `IsolateLeader.__post_init__`. -/
def checkIsolateLeader (at_ duration : Json) : Except ScheduleError CheckedOp := do
  let w ← checkWindow at_ duration
  return ⟨.isolateLeader w.1.1 w.1.2, w.2⟩

/-- `FlappingLink.__post_init__`. -/
def checkFlappingLink (a b at_ period cycles : Json) : Except ScheduleError CheckedOp := do
  let l ← checkLink a b
  let at_ ← checkInt at_ "at"
  let period ← checkInt period "period"
  let cycles ← checkInt cycles "cycles"
  if h : 0 ≤ at_ then
    if h' : 1 ≤ period then
      if h'' : 1 ≤ cycles ∧ cycles ≤ MAX_FLAP_CYCLES then .ok ⟨.flappingLink l.1.1 l.1.2 at_ period cycles, l.2, h, h', h''⟩
      else .error (.outOfRange "cycles" cycles)
    else .error (.tooSmall "period" period)
  else .error (.tooSmall "at" at_)

/-- `LossyLink.__post_init__`. -/
def checkLossyLink (a b at_ duration dropP : Json) : Except ScheduleError CheckedOp := do
  let l ← checkLink a b
  let w ← checkWindow at_ duration
  let dropP ← checkNumber dropP "drop_p"
  if h : 0 < dropP ∧ dropP ≤ 1 then .ok ⟨.lossyLink l.1.1 l.1.2 w.1.1 w.1.2 dropP, l.2, w.2, h⟩
  else .error (.outOfRange "drop_p" dropP)

/-- `CrashNode.__post_init__`. -/
def checkCrashNode (node at_ duration : Json) : Except ScheduleError CheckedOp := do
  let node ← checkInt node "node"
  if h : 0 ≤ node then
    let w ← checkWindow at_ duration
    return ⟨.crashNode node w.1.1 w.1.2, h, w.2⟩
  else .error (.tooSmall "node" node)

/-- A class of patterns: the names of its fields, and what makes a pattern of their values. -/
structure PatternClass where
  names : List String
  make : (String → Json) → Except ScheduleError CheckedOp

/-- `_PATTERNS`. -/
def PATTERNS (name : String) : Option PatternClass :=
  if name = "partition_halves" then
    some { names := ["at", "duration"], make := fun params => checkPartitionHalves (params "at") (params "duration") }
  else if name = "isolate_leader" then
    some { names := ["at", "duration"], make := fun params => checkIsolateLeader (params "at") (params "duration") }
  else if name = "flapping_link" then
    some {
      names := ["a", "b", "at", "period", "cycles"]
      make := fun params => checkFlappingLink (params "a") (params "b") (params "at") (params "period") (params "cycles") }
  else if name = "lossy_link" then
    some {
      names := ["a", "b", "at", "duration", "drop_p"]
      make := fun params => checkLossyLink (params "a") (params "b") (params "at") (params "duration") (params "drop_p") }
  else if name = "crash_node" then
    some {
      names := ["node", "at", "duration"]
      make := fun params => checkCrashNode (params "node") (params "at") (params "duration") }
  else none

/-- `cls(**params)`: a keyword that names no field, and a field without a keyword, is a `TypeError`. -/
def PatternClass.call (cls : PatternClass) (params : List (String × Json)) : Except ScheduleError CheckedOp :=
  if (∀ k ∈ params.map Prod.fst, k ∈ cls.names) ∧ ∀ k ∈ cls.names, k ∈ params.map Prod.fst then
    cls.make fun k => (params.lookup k).getD .null
  else .error .typeError

/-- `_decode`. -/
def decode (item : Json) : Except ScheduleError CheckedOp :=
  match item with
  | .obj fields =>
    match fields.lookup "pattern" with
    | some (.str name) =>
      match PATTERNS name with
      | some cls =>
        match cls.call (fields.filter fun f => f.1 ≠ "pattern") with
        | .error .typeError => .error (.badFields name)
        | result => result
      | none => .error (.unknownPattern (some (.str name)))
    | name => .error (.unknownPattern name)
  | _ => .error (.notAnObject item)

/-- The JSON value of a schedule. -/
def value (self : NemesisSchedule) : Json := .arr (self.ops.map encode)

/-- `to_json`. -/
def toJson (json : JsonText) (self : NemesisSchedule) : String := json.dumps self.value

/-- The schedule of some patterns that have been checked. -/
def ofChecked (ops : List CheckedOp) : NemesisSchedule where
  ops := ops.map Subtype.val
  valid op hop := by
    obtain ⟨x, -, rfl⟩ := List.mem_map.1 hop
    exact x.2

/-- `from_json`. -/
def fromJson (json : JsonText) (text : String) : Except ScheduleError NemesisSchedule :=
  match json.loads text with
  | none => .error .invalidJson
  | some (.arr items) => ofChecked <$> items.mapM decode
  | some _ => .error .notAList

/-! ## What is read -/

/-- The value stands for the other one: it is the same, or an integer in the place of a number. -/
def Reads (v w : Json) : Prop := v = w ∨ ∃ i : Int, v = .int i ∧ w = .float i

/-- Only an integer stands for an integer. -/
theorem reads_int {v : Json} {i : Int} : Reads v (.int i) ↔ v = .int i := by
  constructor
  · rintro (h | ⟨_, -, h⟩)
    · exact h
    · cases h
  · exact Or.inl

/-- The object describes the pattern: it has the pattern's name, and precisely the pattern's fields. -/
structure Describes (fields : List (String × Json)) (op : NemesisOp) : Prop where
  pattern : fields.lookup "pattern" = some (.str op.pattern)
  keys : ∀ k ≠ "pattern", k ∈ fields.map Prod.fst ↔ k ∈ op.fields.map Prod.fst
  values : ∀ f ∈ op.fields, ∃ v, fields.lookup f.1 = some v ∧ Reads v f.2

/-- What `_check_int` accepts. -/
theorem checkInt_eq {v : Json} {name : String} {i : Int} : checkInt v name = .ok i ↔ Reads v (.int i) := by
  rw [reads_int]
  unfold checkInt
  split
  · rename_i j
    exact ⟨fun h => by rw [Except.ok.inj h], fun h => by rw [Json.int.inj h]⟩
  · rename_i hv
    exact ⟨fun h => (nomatch h), fun h => absurd h (hv i)⟩

/-- What `_check_number` accepts. -/
theorem checkNumber_eq {v : Json} {name : String} {x : ℚ} : checkNumber v name = .ok x ↔ Reads v (.float x) := by
  unfold checkNumber Reads
  split
  · rename_i j
    constructor
    · intro h
      exact Or.inr ⟨j, rfl, by rw [Except.ok.inj h]⟩
    · rintro (h | ⟨i, hi, hx⟩)
      · cases h
      · rw [Json.int.inj hi, Json.float.inj hx]
  · rename_i y
    constructor
    · intro h
      exact Or.inl (by rw [Except.ok.inj h])
    · rintro (h | ⟨i, hi, -⟩)
      · rw [Json.float.inj h]
      · cases hi
  · rename_i hint hfloat
    constructor
    · intro h
      cases h
    · rintro (h | ⟨i, hi, -⟩)
      · exact absurd h (hfloat x)
      · exact absurd hi (hint i)

/-- What `_check_window` accepts. -/
theorem checkWindow_eq {a d : Json} {w : { w : Int × Int // CheckWindow w.1 w.2 }} :
    checkWindow a d = .ok w ↔ Reads a (.int w.1.1) ∧ Reads d (.int w.1.2) := by
  obtain ⟨⟨at_, duration⟩, h, h'⟩ := w
  simp only [checkWindow, bind_eq_ok, checkInt_eq]
  constructor
  · rintro ⟨i, hi, j, hj, hw⟩
    split at hw
    · split at hw
      · cases hw
        exact ⟨hi, hj⟩
      · cases hw
    · cases hw
  · rintro ⟨hi, hj⟩
    refine ⟨at_, hi, duration, hj, ?_⟩
    rw [dif_pos h, dif_pos h']

/-- What `_check_link` accepts. -/
theorem checkLink_eq {v w : Json} {l : { l : Int × Int // CheckLink l.1 l.2 }} :
    checkLink v w = .ok l ↔ Reads v (.int l.1.1) ∧ Reads w (.int l.1.2) := by
  obtain ⟨⟨a, b⟩, h, h'⟩ := l
  simp only [checkLink, bind_eq_ok, checkInt_eq]
  constructor
  · rintro ⟨i, hi, j, hj, hl⟩
    split at hl
    · split at hl
      · cases hl
        exact ⟨hi, hj⟩
      · cases hl
    · cases hl
  · rintro ⟨hi, hj⟩
    refine ⟨a, hi, b, hj, ?_⟩
    rw [dif_pos h, dif_pos h']

/-- The class makes the patterns of a name, from their fields. -/
structure PatternClass.Makes (cls : PatternClass) (name : String) : Prop where
  names : ∀ op : NemesisOp, op.pattern = name → op.fields.map Prod.fst = cls.names
  make : ∀ params (op : CheckedOp), cls.make params = .ok op ↔ op.1.pattern = name ∧ ∀ f ∈ op.1.fields, Reads (params f.1) f.2

/-- `PartitionHalves`. -/
theorem makes_partitionHalves :
    PatternClass.Makes ⟨["at", "duration"], fun params => checkPartitionHalves (params "at") (params "duration")⟩
      "partition_halves" where
  names op h := by
    cases op with
    | partitionHalves => rfl
    | _ => simp [NemesisOp.pattern] at h
  make params op := by
    obtain ⟨op, hv⟩ := op
    simp only [checkPartitionHalves, bind_eq_ok, checkWindow_eq]
    constructor
    · rintro ⟨w, hw, h⟩
      cases h
      exact ⟨rfl, by simp [NemesisOp.fields, hw]⟩
    · rintro ⟨hp, hf⟩
      cases op with
      | partitionHalves at_ duration =>
        simp only [NemesisOp.fields, List.forall_mem_cons] at hf
        exact ⟨⟨(at_, duration), hv⟩, ⟨hf.1, hf.2.1⟩, rfl⟩
      | _ => simp [NemesisOp.pattern] at hp

/-- `IsolateLeader`. -/
theorem makes_isolateLeader :
    PatternClass.Makes ⟨["at", "duration"], fun params => checkIsolateLeader (params "at") (params "duration")⟩
      "isolate_leader" where
  names op h := by
    cases op with
    | isolateLeader => rfl
    | _ => simp [NemesisOp.pattern] at h
  make params op := by
    obtain ⟨op, hv⟩ := op
    simp only [checkIsolateLeader, bind_eq_ok, checkWindow_eq]
    constructor
    · rintro ⟨w, hw, h⟩
      cases h
      exact ⟨rfl, by simp [NemesisOp.fields, hw]⟩
    · rintro ⟨hp, hf⟩
      cases op with
      | isolateLeader at_ duration =>
        simp only [NemesisOp.fields, List.forall_mem_cons] at hf
        exact ⟨⟨(at_, duration), hv⟩, ⟨hf.1, hf.2.1⟩, rfl⟩
      | _ => simp [NemesisOp.pattern] at hp

/-- `FlappingLink`. -/
theorem makes_flappingLink :
    PatternClass.Makes ⟨["a", "b", "at", "period", "cycles"], fun params =>
      checkFlappingLink (params "a") (params "b") (params "at") (params "period") (params "cycles")⟩ "flapping_link" where
  names op h := by
    cases op with
    | flappingLink => rfl
    | _ => simp [NemesisOp.pattern] at h
  make params op := by
    obtain ⟨op, hv⟩ := op
    simp only [checkFlappingLink, bind_eq_ok, checkLink_eq, checkInt_eq]
    constructor
    · rintro ⟨l, hl, i, hi, j, hj, k, hk, h⟩
      split at h
      · split at h
        · split at h
          · cases h
            exact ⟨rfl, by simp [NemesisOp.fields, hl, hi, hj, hk]⟩
          · cases h
        · cases h
      · cases h
    · rintro ⟨hp, hf⟩
      cases op with
      | flappingLink a b at_ period cycles =>
        simp only [NemesisOp.fields, List.forall_mem_cons] at hf
        obtain ⟨ha, hb, hi, hj, hk, -⟩ := hf
        have hvalid := hv
        obtain ⟨hlink, hat, hperiod, hcycles⟩ := hvalid
        refine ⟨⟨(a, b), hlink⟩, ⟨ha, hb⟩, at_, hi, period, hj, cycles, hk, ?_⟩
        rw [dif_pos hat, dif_pos hperiod, dif_pos hcycles]
      | _ => simp [NemesisOp.pattern] at hp

/-- `LossyLink`. -/
theorem makes_lossyLink :
    PatternClass.Makes ⟨["a", "b", "at", "duration", "drop_p"], fun params =>
      checkLossyLink (params "a") (params "b") (params "at") (params "duration") (params "drop_p")⟩ "lossy_link" where
  names op h := by
    cases op with
    | lossyLink => rfl
    | _ => simp [NemesisOp.pattern] at h
  make params op := by
    obtain ⟨op, hv⟩ := op
    simp only [checkLossyLink, bind_eq_ok, checkLink_eq, checkWindow_eq, checkNumber_eq]
    constructor
    · rintro ⟨l, hl, w, hw, x, hx, h⟩
      split at h
      · cases h
        exact ⟨rfl, by simp [NemesisOp.fields, hl, hw, hx]⟩
      · cases h
    · rintro ⟨hp, hf⟩
      cases op with
      | lossyLink a b at_ duration dropP =>
        simp only [NemesisOp.fields, List.forall_mem_cons] at hf
        obtain ⟨ha, hb, hi, hj, hx, -⟩ := hf
        have hvalid := hv
        obtain ⟨hlink, hwindow, hrange⟩ := hvalid
        refine ⟨⟨(a, b), hlink⟩, ⟨ha, hb⟩, ⟨(at_, duration), hwindow⟩, ⟨hi, hj⟩, dropP, hx, ?_⟩
        rw [dif_pos hrange]
      | _ => simp [NemesisOp.pattern] at hp

/-- `CrashNode`. -/
theorem makes_crashNode :
    PatternClass.Makes ⟨["node", "at", "duration"], fun params =>
      checkCrashNode (params "node") (params "at") (params "duration")⟩ "crash_node" where
  names op h := by
    cases op with
    | crashNode => rfl
    | _ => simp [NemesisOp.pattern] at h
  make params op := by
    obtain ⟨op, hv⟩ := op
    simp only [checkCrashNode, bind_eq_ok, checkInt_eq]
    constructor
    · rintro ⟨i, hi, h⟩
      split at h
      · obtain ⟨w, hw, h⟩ := bind_eq_ok.1 h
        cases h
        exact ⟨rfl, by simp [NemesisOp.fields, hi, checkWindow_eq.1 hw]⟩
      · cases h
    · rintro ⟨hp, hf⟩
      cases op with
      | crashNode node at_ duration =>
        simp only [NemesisOp.fields, List.forall_mem_cons] at hf
        obtain ⟨hi, ha, hd, -⟩ := hf
        have hvalid := hv
        obtain ⟨hnode, hwindow⟩ := hvalid
        refine ⟨node, hi, ?_⟩
        rw [dif_pos hnode]
        exact bind_eq_ok.2 ⟨⟨(at_, duration), hwindow⟩, checkWindow_eq.2 ⟨ha, hd⟩, rfl⟩
      | _ => simp [NemesisOp.pattern] at hp

/-- A known name has a class that makes its patterns. -/
theorem PATTERNS_makes {name : String} {cls : PatternClass} (h : PATTERNS name = some cls) : cls.Makes name := by
  unfold PATTERNS at h
  split at h
  · subst name
    cases h
    exact makes_partitionHalves
  · split at h
    · subst name
      cases h
      exact makes_isolateLeader
    · split at h
      · subst name
        cases h
        exact makes_flappingLink
      · split at h
        · subst name
          cases h
          exact makes_lossyLink
        · split at h
          · subst name
            cases h
            exact makes_crashNode
          · cases h

/-- Every pattern has a known name. -/
theorem PATTERNS_pattern (op : NemesisOp) : ∃ cls, PATTERNS op.pattern = some cls := by
  cases op <;> exact ⟨_, rfl⟩

/-- The fields of a pattern do not include its name. -/
theorem pattern_notMem_fields (op : NemesisOp) : "pattern" ∉ op.fields.map Prod.fst := by
  cases op <;> simp [NemesisOp.fields]

/-- Without the pattern's name the other fields are as they were. -/
theorem lookup_params {fields : List (String × Json)} {k : String} (hk : k ≠ "pattern") :
    (fields.filter fun f => f.1 ≠ "pattern").lookup k = fields.lookup k := by
  induction fields with
  | nil => rfl
  | cons f fields ih =>
    obtain ⟨k', v⟩ := f
    by_cases hk' : k' = "pattern"
    · subst hk'
      rw [List.filter_cons_of_neg (by simp), ih, List.lookup_cons, beq_false_of_ne hk]
    · rw [List.filter_cons_of_pos (by simp [hk']), List.lookup_cons, List.lookup_cons, ih]

/-- The parameters of a pattern are its fields but its name. -/
theorem mem_params {fields : List (String × Json)} {k : String} :
    k ∈ (fields.filter fun f => f.1 ≠ "pattern").map Prod.fst ↔ k ≠ "pattern" ∧ k ∈ fields.map Prod.fst := by
  simp only [List.mem_map, List.mem_filter, decide_eq_true_eq]
  constructor
  · rintro ⟨f, ⟨hf, hne⟩, rfl⟩
    exact ⟨hne, f, hf, rfl⟩
  · rintro ⟨hne, f, hf, rfl⟩
    exact ⟨f, ⟨hf, hne⟩, rfl⟩

/-- A key that occurs is found. -/
theorem lookup_of_mem {fields : List (String × Json)} {k : String} (h : k ∈ fields.map Prod.fst) :
    ∃ v, fields.lookup k = some v := by
  obtain ⟨f, hf, rfl⟩ := List.mem_map.1 h
  exact Option.isSome_iff_exists.1 (List.lookup_isSome_iff.2 ⟨f, hf, beq_self_eq_true _⟩)

/-- What is read as a pattern is an object that describes it, and nothing else. -/
theorem decode_eq {item : Json} {op : CheckedOp} : decode item = .ok op ↔ ∃ fields, item = .obj fields ∧ Describes fields op.1 := by
  constructor
  · intro h
    unfold decode at h
    split at h
    · rename_i fields
      split at h
      · rename_i name hname
        split at h
        · rename_i cls hcls
          have hmakes := PATTERNS_makes hcls
          have hcall : cls.call (fields.filter fun f => f.1 ≠ "pattern") = .ok op := by
            split at h
            · cases h
            · exact h
          unfold PatternClass.call at hcall
          split at hcall
          · rename_i hkeys
            obtain ⟨hpattern, hread⟩ := (hmakes.make _ op).1 hcall
            have hnames := hmakes.names op.1 hpattern
            refine ⟨fields, rfl, ?_, fun k hk => ⟨fun hmem => ?_, fun hmem => ?_⟩, fun f hf => ?_⟩
            · rw [hname, hpattern]
            · rw [hnames]
              exact hkeys.1 k (mem_params.2 ⟨hk, hmem⟩)
            · exact (mem_params.1 (hkeys.2 k (hnames ▸ hmem))).2
            · have hk : f.1 ∈ op.1.fields.map Prod.fst := List.mem_map_of_mem hf
              have hmem := mem_params.1 (hkeys.2 f.1 (hnames ▸ hk))
              obtain ⟨v, hv⟩ := lookup_of_mem hmem.2
              refine ⟨v, hv, ?_⟩
              have hreads := hread f hf
              rwa [lookup_params hmem.1, hv] at hreads
          · cases hcall
        · cases h
      · cases h
    · cases h
  · rintro ⟨fields, rfl, hpattern, hkeys, hvalues⟩
    obtain ⟨cls, hcls⟩ := PATTERNS_pattern op.1
    have hmakes := PATTERNS_makes hcls
    have hnames := hmakes.names op.1 rfl
    have hargs : (∀ k ∈ (fields.filter fun f => f.1 ≠ "pattern").map Prod.fst, k ∈ cls.names) ∧
        ∀ k ∈ cls.names, k ∈ (fields.filter fun f => f.1 ≠ "pattern").map Prod.fst := by
      constructor
      · intro k hk
        have hmem := mem_params.1 hk
        rw [← hnames]
        exact (hkeys k hmem.1).1 hmem.2
      · intro k hk
        rw [← hnames] at hk
        have hne : k ≠ "pattern" := fun h => pattern_notMem_fields op.1 (h ▸ hk)
        exact mem_params.2 ⟨hne, (hkeys k hne).2 hk⟩
    have hcall : cls.call (fields.filter fun f => f.1 ≠ "pattern") = .ok op := by
      unfold PatternClass.call
      rw [if_pos hargs]
      refine (hmakes.make _ op).2 ⟨rfl, fun f hf => ?_⟩
      obtain ⟨v, hv, hreads⟩ := hvalues f hf
      have hne : f.1 ≠ "pattern" := fun h => pattern_notMem_fields op.1 (h ▸ List.mem_map_of_mem hf)
      rwa [lookup_params hne, hv]
    unfold decode
    simp only [hpattern, hcls, hcall]

/-- What is written describes the pattern. -/
theorem describes_encode (op : NemesisOp) : Describes (("pattern", .str op.pattern) :: op.fields) op where
  pattern := List.lookup_cons_self
  keys k hk := by
    rw [List.map_cons, List.mem_cons]
    exact ⟨fun h => h.resolve_left hk, Or.inr⟩
  values := by
    cases op <;> simp [NemesisOp.fields, NemesisOp.pattern, List.lookup_cons, Reads]

/-- The strings that occur in schedules. -/
def WORDS : List String :=
  ["pattern", "partition_halves", "isolate_leader", "flapping_link", "lossy_link", "crash_node", "a", "b", "node", "at", "duration",
    "period", "cycles", "drop_p"]

/-- What is written of a pattern consists of known words. -/
theorem mem_words_of_mentions {op : NemesisOp} {s : String} (h : (encode op).Mentions s) : s ∈ WORDS := by
  have hkeys : ∀ k ∈ op.fields.map Prod.fst, k ∈ WORDS := by
    cases op with
    | partitionHalves => exact (by decide : ∀ k ∈ ["at", "duration"], k ∈ WORDS)
    | isolateLeader => exact (by decide : ∀ k ∈ ["at", "duration"], k ∈ WORDS)
    | flappingLink => exact (by decide : ∀ k ∈ ["a", "b", "at", "period", "cycles"], k ∈ WORDS)
    | lossyLink => exact (by decide : ∀ k ∈ ["a", "b", "at", "duration", "drop_p"], k ∈ WORDS)
    | crashNode => exact (by decide : ∀ k ∈ ["node", "at", "duration"], k ∈ WORDS)
  have hvalues : ∀ f ∈ op.fields, (∃ i, f.2 = .int i) ∨ ∃ x, f.2 = .float x := by
    cases op <;> simp [NemesisOp.fields]
  have hpattern : op.pattern ∈ WORDS := by
    cases op <;> simp [NemesisOp.pattern, WORDS]
  cases h with
  | key hv =>
    rcases List.mem_cons.1 hv with h | h
    · cases h
      decide
    · exact hkeys _ (List.mem_map_of_mem h)
  | field hv h =>
    rcases List.mem_cons.1 hv with heq | hmem
    · cases heq
      cases h
      exact hpattern
    · rcases hvalues _ hmem with ⟨i, hi⟩ | ⟨x, hx⟩
      · simp only at hi
        rw [hi] at h
        cases h
      · simp only at hx
        rw [hx] at h
        cases h

/-- What is written of a schedule has no apostrophe. -/
theorem apostrophe_notMem_toJson (json : JsonText) (self : NemesisSchedule) (hf : json.Faithful self.value) :
    APOSTROPHE ∉ (self.toJson json).toList := by
  refine json.apostrophe _ hf fun s hs => ?_
  have hwords : ∀ s ∈ WORDS, APOSTROPHE ∉ s.toList := by decide
  cases hs with
  | item hv h =>
    obtain ⟨op, -, rfl⟩ := List.mem_map.1 hv
    exact hwords s (mem_words_of_mentions h)

/-- The value describes a valid pattern: it is an object with a known name, precisely the fields of that name, and values in their
ranges. -/
def IsPattern (item : Json) (op : NemesisOp) : Prop := op.Valid ∧ ∃ fields, item = .obj fields ∧ Describes fields op

/-- What is read as a schedule is a list of objects that describe its patterns, and nothing else. -/
theorem fromJson_eq (json : JsonText) {text : String} {self : NemesisSchedule} :
    fromJson json text = .ok self ↔ ∃ items, json.loads text = some (.arr items) ∧ List.Forall₂ IsPattern items self.ops := by
  constructor
  · intro h
    unfold fromJson at h
    split at h
    · cases h
    · rename_i items hload
      obtain ⟨ops, hread, hself⟩ : ∃ ops, items.mapM decode = .ok ops ∧ ofChecked ops = self := by
        cases hread : items.mapM decode with
        | error e =>
          rw [hread] at h
          cases h
        | ok ops =>
          rw [hread] at h
          exact ⟨ops, rfl, Except.ok.inj h⟩
      subst hself
      refine ⟨items, hload, List.forall₂_map_right_iff.2 ((mapM_eq_ok.1 hread).imp fun item op hop => ?_)⟩
      exact ⟨op.2, decode_eq.1 hop⟩
    · cases h
  · rintro ⟨items, hload, hops⟩
    obtain ⟨ops, hvalid⟩ := self
    have hread : ∃ checked : List CheckedOp, items.mapM decode = .ok checked ∧ checked.map Subtype.val = ops := by
      refine ⟨ops.attach.map fun op => ⟨op.1, hvalid op.1 op.2⟩, mapM_eq_ok.2 ?_, ?_⟩
      · refine List.forall₂_map_right_iff.2 ?_
        have hattach : List.Forall₂ IsPattern items (ops.attach.map Subtype.val) := by
          rw [List.attach_map_subtype_val]
          exact hops
        exact (List.forall₂_map_right_iff.1 hattach).imp fun item op hop => decode_eq.2 hop.2
      · rw [List.map_map]
        exact List.attach_map_subtype_val ops
    obtain ⟨checked, hchecked, hops⟩ := hread
    unfold fromJson
    rw [hload]
    simp only [hchecked]
    subst hops
    rfl

/-- A schedule is read as it was written. -/
theorem fromJson_toJson (json : JsonText) (self : NemesisSchedule) (hf : json.Faithful self.value) :
    fromJson json (self.toJson json) = .ok self := by
  refine (fromJson_eq json).2 ⟨self.ops.map encode, json.loads_dumps _ hf, List.forall₂_map_left_iff.2 ?_⟩
  exact List.forall₂_same.2 fun op hop => ⟨self.valid op hop, _, rfl, describes_encode op⟩

end NemesisSchedule

end DeterministicRaft
