import DeterministicRaft.Replay

/-!
# Reading a printed command

The two printers print options of the `replay` subcommand, and what the parser reads is what was printed; where there is no budget in
the command, it reads the default.
-/

namespace DeterministicRaft

open Argparse

variable {json : JsonText} {a : ClusterArgs} {steps : Option Int}

/-! ## What is printed -/

/-- An option as it is printed, and as it is read: with a text for its value. -/
def printedOption (name text value : String) : List (String × String) := [(name, name), (text, value)]

/-- The option with the schedule. -/
def printedNemesis (json : JsonText) (nemesis : Option NemesisSchedule) : List (String × String) :=
  match nemesis with
  | some schedule =>
    if schedule.ops = [] then [] else printedOption "--nemesis" ("'" ++ schedule.toJson json ++ "'") (schedule.toJson json)
  | none => []

/-- The texts of a command's options, each with the word as which it is read. -/
def printedOptions (json : JsonText) (a : ClusterArgs) (steps : Option Int) : List (String × String) :=
  printedOption "--nodes" (toString a.numNodes) (toString a.numNodes) ++ printedOption "--seed" (toString a.seed) (toString a.seed) ++
    printedOption "--faults" a.faults a.faults ++
    (match steps with
      | some n => printedOption "--steps" (toString n) (toString n)
      | none => []) ++
    (if a.membership then [("--membership", "--membership")] else []) ++ printedNemesis json a.nemesis

/-- A command: the program, the subcommand and the options. -/
def printed (json : JsonText) (a : ClusterArgs) (steps : Option Int) : List (String × String) :=
  [("deterministic_raft", "deterministic_raft"), ("replay", "replay")] ++ printedOptions json a steps

/-- Joined strings, one by one. -/
theorem pyJoin_cons_cons (sep p q : String) (ps : List String) : pyJoin sep (p :: q :: ps) = p ++ (sep ++ pyJoin sep (q :: ps)) := by
  refine String.toList_inj.1 ?_
  rw [toList_pyJoin, String.toList_append, String.toList_append, toList_pyJoin, List.flatMap_cons, List.append_assoc]

theorem pyJoin_singleton (sep p : String) : pyJoin sep [p] = p := by
  refine String.toList_inj.1 ?_
  rw [toList_pyJoin, List.flatMap_nil, List.append_nil]

/-- The literals of the printers, word by word. -/
theorem literals : "deterministic_raft replay --nodes " = "deterministic_raft" ++ (" " ++ ("replay" ++ (" " ++ ("--nodes" ++ " ")))) ∧
    " --seed " = " " ++ ("--seed" ++ " ") ∧ " --faults " = " " ++ ("--faults" ++ " ") ∧ " --steps " = " " ++ ("--steps" ++ " ") ∧
    " --membership" = " " ++ "--membership" ∧ " --nemesis '" = " " ++ ("--nemesis" ++ (" " ++ "'")) := by
  decide

/-- The schedule's option, as the printers print it. -/
theorem nemesisOption_eq (nemesis : Option NemesisSchedule) : nemesisOption json nemesis = "" ∧ printedNemesis json nemesis = [] ∨
    ∃ schedule, nemesis = some schedule ∧ nemesisOption json nemesis = " --nemesis '" ++ schedule.toJson json ++ "'" ∧
      printedNemesis json nemesis = printedOption "--nemesis" ("'" ++ schedule.toJson json ++ "'") (schedule.toJson json) := by
  rcases nemesis with _ | schedule
  · exact Or.inl ⟨rfl, rfl⟩
  · by_cases hops : schedule.ops = []
    · exact Or.inl ⟨if_pos hops, if_pos hops⟩
    · exact Or.inr ⟨schedule, rfl, if_neg hops, if_neg hops⟩

/-- The printed options, joined with blanks, are what the printers print. -/
theorem pyJoin_printed (json : JsonText) (a : ClusterArgs) (steps : Option Int) :
    pyJoin " " ((printed json a steps).map Prod.fst) =
      "deterministic_raft replay --nodes " ++ toString a.numNodes ++ " --seed " ++ toString a.seed ++ " --faults " ++ a.faults ++
        (match steps with
          | some n => " --steps " ++ toString n
          | none => "") ++
        (if a.membership then " --membership" else "") ++ nemesisOption json a.nemesis := by
  obtain ⟨h1, h2, h3, h4, h5, h6⟩ := literals
  unfold printed printedOptions
  rw [h1, h2, h3, h4, h5]
  have hnemesis := @nemesisOption_eq json a.nemesis
  rw [h6] at hnemesis
  rcases hnemesis with ⟨ho, hp⟩ | ⟨schedule, -, ho, hp⟩
  all_goals
    rw [ho, hp]
    cases steps <;> cases a.membership
  all_goals
    simp only [-String.reduceAppend, List.map_cons, List.map_nil, List.cons_append, List.nil_append, List.append_nil, pyJoin_cons_cons,
      pyJoin_singleton, String.append_assoc, String.append_empty, if_true, if_false, Bool.false_eq_true, printedOption]

theorem replayCommand_eq (scenario : Scenario Bugs NemesisSchedule) :
    scenario.replayCommand json = pyJoin " " ((printed json scenario.cluster (some scenario.steps)).map Prod.fst) := by
  refine Eq.trans ?_ (pyJoin_printed json _ _).symm
  unfold Scenario.replayCommand Scenario.cluster
  simp only [-String.reduceAppend, String.append_assoc]

theorem replayHint_eq (a : ClusterArgs) : a.replayHint json = pyJoin " " ((printed json a none).map Prod.fst) := by
  refine Eq.trans ?_ (pyJoin_printed json _ _).symm
  unfold ClusterArgs.replayHint
  simp only [-String.reduceAppend, String.append_empty]

/-! ## What is read -/

/-- A written integer is a word. -/
theorem readsAs_int (i : Int) : ReadsAs (toString i) (toString i) := by
  refine readsAs_bare ?_ fun c hc => ?_
  · intro h
    have hread := pyInt_toString i
    have hnone : pyInt "" = none := by decide
    rw [h, hnone] at hread
    cases hread
  · rcases mem_toString_int hc with h | rfl
    · have hd := toNat_ge_of_isDigit h
      have hne : ∀ x : Char, x.toNat < 48 ∨ 57 < x.toNat → c ≠ x := by
        rintro x hx rfl
        omega
      simp [isBare, isSeparator, APOSTROPHE, hne]
    · decide

/-- Every text of a command is read as its word. -/
theorem readsAs_printed (hf : a.faults ∈ FAULT_NAMES) (hj : ∀ schedule, a.nemesis = some schedule → json.Faithful schedule.value) :
    ∀ p ∈ printed json a steps, ReadsAs p.1 p.2 := by
  have hword : ∀ name ∈ ["deterministic_raft", "replay", "--nodes", "--seed", "--faults", "--steps", "--membership", "--nemesis"] ++
      FAULT_NAMES, ReadsAs name name := by
    intro name hn
    have hbare : ∀ name ∈ ["deterministic_raft", "replay", "--nodes", "--seed", "--faults", "--steps", "--membership", "--nemesis"] ++
        FAULT_NAMES, name ≠ "" ∧ name.toList.all isBare = true := by decide
    exact readsAs_bare (hbare name hn).1 (List.all_eq_true.1 (hbare name hn).2)
  have hoption : ∀ {name text value : String}, ReadsAs name name → ReadsAs text value →
      ∀ p ∈ printedOption name text value, ReadsAs p.1 p.2 := by
    intro name text value h1 h2 p hp
    rcases List.mem_cons.1 hp with rfl | hp
    · exact h1
    · rw [List.mem_singleton.1 hp]
      exact h2
  intro p hp
  simp only [printed, printedOptions, List.mem_append, or_assoc] at hp
  rcases hp with hp | hp | hp | hp | hp | hp | hp
  · exact hoption (hword _ (by decide)) (hword _ (by decide)) p hp
  · exact hoption (hword _ (by decide)) (readsAs_int _) p hp
  · exact hoption (hword _ (by decide)) (readsAs_int _) p hp
  · exact hoption (hword _ (by decide)) (hword _ (List.mem_append_right _ hf)) p hp
  · cases steps with
    | none => cases hp
    | some n => exact hoption (hword _ (by decide)) (readsAs_int n) p hp
  · split at hp
    · rw [List.mem_singleton.1 hp]
      exact hword _ (by decide)
    · cases hp
  · rcases @nemesisOption_eq json a.nemesis with ⟨-, h⟩ | ⟨schedule, hs, -, h⟩
    · rw [h] at hp
      cases hp
    · rw [h] at hp
      exact hoption (hword _ (by decide)) (readsAs_quoted (NemesisSchedule.apostrophe_notMem_toJson json schedule (hj schedule hs))) p hp

/-- The options of the subcommand `replay`. -/
def replayOptions (json : JsonText) : List (Argument Namespace) := help ++ [seedOption true] ++ common json

theorem worded_replayOptions (json : JsonText) : Worded (replayOptions json) := by
  intro o ho
  have hname : o.name ∈ ["-h", "--help", "--seed", "--nodes", "--faults", "--steps", "--membership", "--nemesis"] := List.mem_map_of_mem ho
  have hall : ∀ name ∈ ["-h", "--help", "--seed", "--nodes", "--faults", "--steps", "--membership", "--nemesis"],
      name.toList.tail.head?.any isDecimal = false := by decide
  intro c hc
  have hany := hall _ hname
  rw [Option.mem_def.1 hc] at hany
  exact hany

/-- A written integer does not end the options. -/
theorem ne_dashes_int (i : Int) : toString i ≠ "--" := by
  intro h
  have hread := pyInt_toString i
  rw [h, show pyInt "--" = none by decide] at hread
  cases hread

/-- An option with an integer reads what was printed. -/
theorem reads_int {o : Argument Namespace} {name : String} {set : Int → Namespace → Namespace} (hn : name.toList.head? = some '-')
    (hd : name ≠ "--") (ho : (replayOptions json).find? (fun a => a.name = name) = some o) (hset : o.action = integer set) (i : Int) :
    Reads (replayOptions json) [name, toString i] (set i) [o.name] :=
  .store (resolve_name hn ho) hd hset (resolve_int (worded_replayOptions json) i) (ne_dashes_int i)
    (by rw [pyInt_toString, Option.map_some])

/-- What the printed options say. -/
def withOptions (a : ClusterArgs) (steps : Option Int) (ns : Namespace) : Namespace :=
  { ns with
    nodes := a.numNodes
    seed := a.seed
    faults := a.faults
    steps := steps.getD ns.steps
    membership := a.membership || ns.membership
    nemesis := if a.ops = [] then ns.nemesis else a.nemesis }

/-- An empty schedule is not printed, and no schedule is read. -/
theorem reads_nemesis (hj : ∀ schedule, a.nemesis = some schedule → json.Faithful schedule.value) :
    ∃ names, Reads (replayOptions json) ((printedNemesis json a.nemesis).map Prod.snd)
      (fun ns => { ns with nemesis := if a.ops = [] then ns.nemesis else a.nemesis }) names := by
  have hdash : "--nemesis".toList.head? = some '-' := by decide
  have hfind : (replayOptions json).find? (fun a => a.name = "--nemesis") = some (scheduleOption json) := rfl
  rcases hn : a.nemesis with _ | schedule
  · have hops : a.ops = [] := by rw [ClusterArgs.ops, hn]
    exact ⟨[], Reads.nil.congr fun ns => by rw [if_pos hops, id]⟩
  · have hops : a.ops = schedule.ops := by rw [ClusterArgs.ops, hn]
    by_cases hempty : schedule.ops = []
    · simp only [printedNemesis, if_pos hempty]
      exact ⟨[], Reads.nil.congr fun ns => by rw [if_pos (hops.trans hempty), id]⟩
    · have hhead : (schedule.toJson json).toList.head? = some '[' := json.bracket _ (hj schedule hn)
      simp only [printedNemesis, if_neg hempty]
      refine ⟨_, Reads.store (resolve_name hdash hfind) (by decide) rfl (resolve_value ?_) ?_ ?_⟩
      · rw [hhead]
        decide
      · intro heq
        rw [show schedule.toJson json = "--" from heq] at hhead
        exact absurd hhead (by decide)
      · simp only [NemesisSchedule.fromJson_toJson json schedule (hj schedule hn), hops, if_neg hempty]

/-- The options read what was printed. -/
theorem reads_printed (hf : a.faults ∈ FAULT_NAMES) (hj : ∀ schedule, a.nemesis = some schedule → json.Faithful schedule.value) :
    ∃ names, "--seed" ∈ names ∧ Reads (replayOptions json) ((printedOptions json a steps).map Prod.snd) (withOptions a steps) names := by
  have hdash : ("--nodes".toList.head? = some '-' ∧ "--seed".toList.head? = some '-') ∧ "--faults".toList.head? = some '-' ∧
      "--steps".toList.head? = some '-' ∧ "--membership".toList.head? = some '-' := by decide
  have hnodes : Reads (replayOptions json) ["--nodes", toString a.numNodes] _ _ := reads_int hdash.1.1 (by decide) rfl rfl a.numNodes
  have hseed : Reads (replayOptions json) ["--seed", toString a.seed] _ _ := reads_int hdash.1.2 (by decide) rfl rfl a.seed
  have hfaults : Reads (replayOptions json) ["--faults", a.faults] (fun ns => { ns with faults := a.faults }) ["--faults"] := by
    have hfind : (replayOptions json).find? (fun a => a.name = "--faults") = some faultsOption := rfl
    refine Reads.store (resolve_name hdash.2.1 hfind) (by decide) rfl (resolve_value ?_) ?_ ?_
    · have hhead : ∀ name ∈ FAULT_NAMES, name.toList.head? ≠ some '-' := by decide
      exact hhead _ hf
    · rintro heq
      rw [heq] at hf
      exact absurd hf (by decide)
    · exact if_pos hf
  obtain ⟨stepsNames, hsteps⟩ : ∃ names, Reads (replayOptions json) ((match steps with
      | some n => printedOption "--steps" (toString n) (toString n)
      | none => []).map Prod.snd) (fun ns => { ns with steps := steps.getD ns.steps }) names := by
    cases steps with
    | none => exact ⟨[], Reads.nil⟩
    | some n => exact ⟨_, reads_int hdash.2.2.1 (by decide) rfl rfl n⟩
  obtain ⟨memberNames, hmember⟩ : ∃ names, Reads (replayOptions json)
      ((if a.membership then [("--membership", "--membership")] else []).map Prod.snd)
      (fun ns => { ns with membership := a.membership || ns.membership }) names := by
    cases a.membership with
    | false => exact ⟨[], Reads.nil⟩
    | true => exact ⟨_, Reads.storeTrue (resolve_name hdash.2.2.2 rfl) (by decide) rfl⟩
  obtain ⟨nemesisNames, hnemesis⟩ := @reads_nemesis json a hj
  have hall := ((((hnodes.append hseed).append hfaults).append hsteps).append hmember).append hnemesis
  have hself : "--seed" ∈ [(seedOption true).name] := List.mem_singleton_self _
  have hmem : "--seed" ∈ nemesisNames ++ (memberNames ++ (stepsNames ++ (["--faults"] ++ ([(seedOption true).name] ++ ["--nodes"])))) := by
    simp only [List.mem_append]
    exact Or.inr (Or.inr (Or.inr (Or.inr (Or.inl hself))))
  refine ⟨_, hmem, ?_⟩
  unfold printedOptions
  simp only [List.map_append]
  exact hall

/-- None of the words is taken for one of the options before the subcommand, twice over. -/
theorem clear_printed (hf : a.faults ∈ FAULT_NAMES) (hj : ∀ schedule, a.nemesis = some schedule → json.Faithful schedule.value) :
    ∀ word ∈ (printed json a steps).map Prod.snd, (resolve globalOptions word).isAmbiguous = false := by
  have hname : ∀ name ∈ ["deterministic_raft", "replay", "--nodes", "--seed", "--faults", "--steps", "--membership", "--nemesis"] ++
      FAULT_NAMES, (resolve globalOptions name).isAmbiguous = false := by decide
  have hworded : Worded globalOptions := by
    intro o ho c hc
    have hmem : o.name ∈ ["-h", "--help", "--version"] := List.mem_map_of_mem ho
    have hall : ∀ name ∈ ["-h", "--help", "--version"], name.toList.tail.head?.any isDecimal = false := by decide
    have hany := hall _ hmem
    rw [Option.mem_def.1 hc] at hany
    exact hany
  have hvalue : ∀ {word : String}, resolve globalOptions word = .value → (resolve globalOptions word).isAmbiguous = false := fun h => by
    rw [h]
    rfl
  have hoption : ∀ {name text value : String}, (resolve globalOptions name).isAmbiguous = false →
      (resolve globalOptions value).isAmbiguous = false → ∀ word ∈ (printedOption name text value).map Prod.snd,
        (resolve globalOptions word).isAmbiguous = false := by
    intro name text value h1 h2 word hw
    rcases List.mem_cons.1 hw with rfl | hw
    · exact h1
    · rw [List.mem_singleton.1 hw]
      exact h2
  intro word hw
  simp only [printed, printedOptions, List.map_append, List.mem_append, or_assoc] at hw
  rcases hw with hw | hw | hw | hw | hw | hw | hw
  · exact hoption (hname _ (by decide)) (hname _ (by decide)) word hw
  · exact hoption (hname _ (by decide)) (hvalue (resolve_int hworded _)) word hw
  · exact hoption (hname _ (by decide)) (hvalue (resolve_int hworded _)) word hw
  · exact hoption (hname _ (by decide)) (hname _ (List.mem_append_right _ hf)) word hw
  · cases steps with
    | none => cases hw
    | some n => exact hoption (hname _ (by decide)) (hvalue (resolve_int hworded n)) word hw
  · split at hw
    · rw [List.mem_singleton.1 hw]
      exact hname _ (by decide)
    · cases hw
  · rcases @nemesisOption_eq json a.nemesis with ⟨-, h⟩ | ⟨schedule, hs, -, h⟩
    · rw [h] at hw
      cases hw
    · rw [h] at hw
      refine hoption (hname _ (by decide)) (hvalue (resolve_value ?_)) word hw
      rw [show (schedule.toJson json).toList.head? = some '[' from json.bracket _ (hj schedule hs)]
      decide

/-- The parser reads what was printed, and twenty thousand steps where no budget was. -/
theorem parseLine_printed (hf : a.faults ∈ FAULT_NAMES) (hj : ∀ schedule, a.nemesis = some schedule → json.Faithful schedule.value) :
    parseLine json (pyJoin " " ((printed json a steps).map Prod.fst)) =
      .ok (withOptions a steps { command := "replay", steps := 20000 }) := by
  obtain ⟨names, hseed, hreads⟩ := @reads_printed json a steps hf hj
  have hargs : parseKnownArgs (replayOptions json) ((printedOptions json a steps).map Prod.snd) { command := "replay", steps := 20000 } =
      .ok (withOptions a steps { command := "replay", steps := 20000 }, []) := by
    refine parseKnownArgs_of_reads hreads fun o ho hreq => ?_
    have hseed' : (seedOption true).name ∈ names := hseed
    simp only [replayOptions, help, common, List.cons_append, List.nil_append, List.mem_cons, List.not_mem_nil, or_false] at ho
    rcases ho with rfl | rfl | rfl | rfl | rfl | rfl | rfl | rfl
    · cases hreq
    · cases hreq
    · exact hseed'
    all_goals cases hreq
  have hclear : ((("replay" :: (printedOptions json a steps).map Prod.snd).takeWhile (· ≠ "--")).find? fun arg =>
      (resolve globalOptions arg).isAmbiguous) = none := by
    refine List.find?_eq_none.2 fun word hw => ?_
    have hword := clear_printed hf hj word (List.mem_cons_of_mem _ ((List.takeWhile_sublist _).subset hw))
    simp [hword]
  have hvalue : resolve globalOptions "replay" = .value := resolve_value (by decide)
  have hsub : subparser json "replay" = some (replayOptions json, { command := "replay", steps := 20000 }) := rfl
  rw [parseLine, shlexSplit_join (readsAs_printed hf hj)]
  show parse json ("replay" :: (printedOptions json a steps).map Prod.snd) = _
  rw [parse, hclear]
  simp only [parseCommand, hvalue, hsub, hargs]
  rfl

/-- The command replays the cluster, if no bugs are injected and none of the faults is suppressed. -/
theorem alike_withOptions {n : ℕ} {ns : Namespace} (hb : a.bugs = NO_BUGS) (hs : ∀ j < n, j ∉ a.suppressed)
    (hm : ns.membership = false) (hn : ns.nemesis = none) : a.Alike n (withOptions a steps ns).cluster where
  numNodes := rfl
  seed := rfl
  faults := rfl
  bugs := hb.symm
  membership := by
    have heq : (withOptions a steps ns).cluster.membership = (a.membership || ns.membership) := rfl
    rw [heq, hm, Bool.or_false]
  ops := by
    by_cases hops : a.ops = []
    · have heq : (withOptions a steps ns).cluster.nemesis = none := (if_pos hops).trans hn
      rw [hops, ClusterArgs.ops, heq]
    · have heq : (withOptions a steps ns).cluster.nemesis = a.nemesis := if_neg hops
      rw [ClusterArgs.ops, heq]
      rfl
  suppressed j hj := iff_of_false (Finset.notMem_empty j) (hs j hj)

end DeterministicRaft
