import DeterministicRaft.Python
import Mathlib.Data.List.TakeWhile

/-!
# Options of a command line (`argparse`)

The part of the argument parser of Python 3.11 that programs with options use. The value of an option follows or stands behind `=`, short
flags can be written together, a unique beginning of a long option's name is enough, and what looks like a negative number is a value.
What is no option is left over. There are no positional arguments but a subcommand, which is the program's own.
-/

namespace DeterministicRaft.Argparse

/-- What is wrong with a command line; `exit` is the end of the program after help or the version. -/
inductive Usage where
  | exit
  | required (option : String)
  | unrecognized (args : List String)
  | ambiguous (arg : String)
  | expectedArgument (option : String)
  | ignoredArgument (option value : String)
  | invalidValue (option value : String)
  | invalidCommand (command : String)
  deriving DecidableEq, Repr

/-- What an option does to the namespace. -/
inductive Action (σ : Type) where
  | storeTrue (set : σ → σ)
  | store (convert : String → Option (σ → σ))
  | exit

structure Argument (σ : Type) where
  name : String
  action : Action σ
  required : Bool := false

variable {σ : Type} (arguments : List (Argument σ))

/-- A decimal digit, of any script. -/
def isDecimal (c : Char) : Bool := (toAscii c).isDigit

/-- `^-\d+$|^-\d*\.\d+$`, where `$` also matches before a last line break. -/
def isNegativeNumber (cs : List Char) : Bool :=
  match if cs.getLast? = some '\n' then cs.dropLast else cs with
  | '-' :: cs =>
    match cs.dropWhile isDecimal with
    | [] => cs ≠ []
    | '.' :: fraction => fraction ≠ [] ∧ fraction.all isDecimal
    | _ => false
  | _ => false

/-- What stands before the first `=`, and the rest from it on if there is one. -/
def partition (cs : List Char) : List Char × Option (List Char) := (cs.takeWhile (· ≠ '='), match cs.dropWhile (· ≠ '=') with
  | [] => none
  | text => some text)

/-- The option has two dashes. -/
def isLong (name : List Char) : Bool := name.tail.head? = some '-'

/-- How an argument is read: as a value, as an option, perhaps with a text for it, or as an option that there is not, or not once. -/
inductive Word (σ : Type) where
  | value
  | option (a : Argument σ) (explicit : Option (List Char))
  | unknown
  | ambiguous

/-- `_get_option_tuples`: the options that an argument can be short for, and short flags with a text. -/
def optionTuples (arg : List Char) : List (Argument σ × Option (List Char)) :=
  let (name, explicit) := if isLong arg then partition arg else (arg, none)
  arguments.filterMap fun a =>
    if isLong arg = false ∧ a.name.toList = arg.take 2 then some (a, some (arg.drop 2))
    else if name.isPrefixOf a.name.toList then some (a, explicit)
    else none

/-- `_parse_optional`. -/
def resolve (arg : String) : Word σ :=
  if arg.toList.head? ≠ some '-' then .value
  else
    match arguments.find? fun a => a.name = arg with
    | some a => .option a none
    | none =>
      if arg = "-" then .value
      else
        let (name, explicit) := partition arg.toList
        match arguments.find? fun a => explicit.isSome ∧ a.name.toList = name with
        | some a => .option a explicit
        | none =>
          match optionTuples arguments arg.toList with
          | [] => if isNegativeNumber arg.toList = true ∨ ' ' ∈ arg.toList then .value else .unknown
          | [(a, explicit)] => .option a explicit
          | _ => .ambiguous

/-- The value in an option's text. -/
def textValue : List Char → String
  | '=' :: cs => String.ofList cs
  | cs => String.ofList cs

/-- An option with a text: the text is its value, or the names of more short flags and of an option. What names none is left over. -/
def expand (a : Argument σ) (text : List Char) : Except Usage (List (Argument σ) × Argument σ × Option String × List String) :=
  match a.action with
  | .store _ => .ok ([], a, some (textValue text), [])
  | _ =>
    match text with
    | [] => .error (.ignoredArgument a.name "")
    | c :: cs =>
      if isLong a.name.toList = true ∨ c = '=' ∨ c = '-' then .error (.ignoredArgument a.name (textValue text))
      else
        match arguments.find? fun b => b.name.toList = ['-', c] with
        | none => .ok ([], a, none, [String.ofList ('-' :: text)])
        | some b =>
          if cs = [] then .ok ([a], b, none, [])
          else (fun (flags, last) => (a :: flags, last)) <$> expand b cs

/-- What arguments are read into: the namespace, the options seen, and what is left over. -/
structure Parsed (σ : Type) where
  ns : σ
  seen : List String := []
  extras : List String := []

/-- What an option does to the namespace. A flag that ends the program is not gone past. -/
def take (a : Argument σ) (value : Option String) (p : Parsed σ) : Except Usage (Parsed σ) :=
  match a.action, value with
  | .exit, _ => .error .exit
  | .storeTrue set, _ => .ok { p with ns := set p.ns, seen := a.name :: p.seen }
  | .store _, none => .error (.expectedArgument a.name)
  | .store convert, some value =>
    match convert value with
    | some set => .ok { p with ns := set p.ns, seen := a.name :: p.seen }
    | none => .error (.invalidValue a.name value)

def Word.isValue : Word σ → Bool
  | .value => true
  | _ => false

def Word.isAmbiguous : Word σ → Bool
  | .ambiguous => true
  | _ => false

def Action.isStore : Action σ → Bool
  | .store _ => true
  | _ => false

/-- `_parse_known_args`, once every argument has been looked at. An option that has no text takes the next argument if that is a value. -/
def parseOptions : List String → Parsed σ → Except Usage (Parsed σ)
  | [], p => .ok p
  | arg :: rest, p =>
    if arg = "--" then .ok { p with extras := p.extras ++ arg :: rest }
    else
      match resolve arguments arg with
      | .ambiguous => .error (.ambiguous arg)
      | .value => parseOptions rest { p with extras := p.extras ++ [arg] }
      | .unknown => parseOptions rest { p with extras := p.extras ++ [arg] }
      | .option a explicit =>
        match explicit.elim (.ok ([], a, none, [])) (expand arguments a) with
        | .error e => .error e
        | .ok (flags, last, text, left) =>
          let p := { p with extras := p.extras ++ left }
          if last.action.isStore = true ∧ text = none then
            match rest with
            | [] => .error (.expectedArgument last.name)
            | value :: rest =>
              if value ≠ "--" ∧ (resolve arguments value).isValue = true then
                match flags.foldlM (fun p flag => take flag none p) p >>= take last (some value) with
                | .error e => .error e
                | .ok p => parseOptions rest p
              else .error (.expectedArgument last.name)
          else
            match flags.foldlM (fun p flag => take flag none p) p >>= take last text with
            | .error e => .error e
            | .ok p => parseOptions rest p

/-- `parse_known_args`, from a namespace of defaults: the namespace, and what is left over. -/
def parseKnownArgs (args : List String) (defaults : σ) : Except Usage (σ × List String) :=
  match (args.takeWhile (· ≠ "--")).find? fun arg => (resolve arguments arg).isAmbiguous with
  | some arg => .error (.ambiguous arg)
  | none =>
    match parseOptions arguments args { ns := defaults } with
    | .error e => .error e
    | .ok p =>
      match arguments.find? fun a => a.required = true ∧ a.name ∉ p.seen with
      | some a => .error (.required a.name)
      | none => .ok (p.ns, p.extras)

variable {arguments} {a : Argument σ} {ns : σ} {name value : String}

/-- An argument that does not start with a dash is a value. -/
theorem resolve_value (h : value.toList.head? ≠ some '-') : resolve arguments value = .value := if_pos h

/-- The name of an option. -/
theorem resolve_name (hn : name.toList.head? = some '-') (ha : arguments.find? (fun a => a.name = name) = some a) :
    resolve arguments name = .option a none := by
  rw [resolve, if_neg (by simp [hn]), ha]

/-- No option's name goes on with a digit behind the dash. -/
def Worded (arguments : List (Argument σ)) : Prop := ∀ a ∈ arguments, ∀ c ∈ a.name.toList.tail.head?, isDecimal c = false

/-- What has no `=` is not parted. -/
theorem partition_of_notMem {cs : List Char} (h : '=' ∉ cs) : partition cs = (cs, none) := by
  have hall : ∀ c ∈ cs, decide (c ≠ '=') = true := fun c hc => decide_eq_true fun heq => h (heq ▸ hc)
  rw [partition, List.takeWhile_eq_self_iff.2 hall, List.dropWhile_eq_nil_iff.2 hall]

/-- A negative integer is a value. -/
theorem resolve_negative (hw : Worded arguments) {d : Char} {ds : List Char} (hv : value.toList = '-' :: d :: ds)
    (hd : ∀ c ∈ d :: ds, isDecimal c = true) : resolve arguments value = .value := by
  have hmatch : ∀ a ∈ arguments, ∀ p : List Char, p.head? = some '-' → p.tail.head? = some d → ¬p <+: a.name.toList := by
    rintro a ha p h1 h2 ⟨t, ht⟩
    have hdigit := hd d List.mem_cons_self
    have hword := hw a ha d (by
      match p, h1, h2 with
      | _ :: x :: p, _, h2 =>
        rw [← ht]
        simpa using h2)
    rw [hdigit] at hword
    cases hword
  have hnot : ∀ x : Char, isDecimal x = false → x ∉ d :: ds := fun x hx hmem => by
    rw [hd x hmem] at hx
    cases hx
  have hpart : partition value.toList = (value.toList, none) := by
    refine partition_of_notMem ?_
    rw [hv]
    exact fun h => (List.mem_cons.1 h).elim (by decide) (hnot '=' (by decide))
  have hfind : arguments.find? (fun a => a.name = value) = none := by
    refine List.find?_eq_none.2 fun a ha heq => ?_
    have heq : a.name = value := of_decide_eq_true heq
    exact hmatch a ha value.toList (by rw [hv]; rfl) (by rw [hv]; rfl) (heq ▸ List.prefix_refl _)
  have hshort : isLong value.toList = false := by
    rw [hv]
    refine decide_eq_false fun h => hnot '-' (by decide) ?_
    rw [Option.some.inj h]
    exact List.mem_cons_self
  have htuples : optionTuples arguments value.toList = [] := by
    rw [optionTuples, if_neg (by simp [hshort])]
    refine List.filterMap_eq_nil_iff.2 fun a ha => ?_
    have htake : a.name.toList ≠ value.toList.take 2 := fun heq =>
      hmatch a ha (value.toList.take 2) (by rw [hv]; rfl) (by rw [hv]; rfl) (heq ▸ List.prefix_refl _)
    have hprefix : ¬value.toList.isPrefixOf a.name.toList = true := fun h =>
      hmatch a ha value.toList (by rw [hv]; rfl) (by rw [hv]; rfl) (List.isPrefixOf_iff_prefix.1 h)
    rw [if_neg fun h => htake h.2, if_neg hprefix]
  have hne : value ≠ "-" := by
    rintro rfl
    exact absurd hv (by simp)
  have hneg : isNegativeNumber value.toList = true := by
    have hdrop : (d :: ds).dropWhile isDecimal = [] := List.dropWhile_eq_nil_iff.2 hd
    have hlast : ('-' :: d :: ds).getLast? ≠ some '\n' := by
      rw [List.getLast?_cons_cons]
      exact fun h => hnot '\n' (by decide) (List.mem_of_getLast? h)
    rw [hv, isNegativeNumber, if_neg hlast]
    simp only [hdrop]
    rfl
  have hexplicit : arguments.find? (fun a => (none : Option (List Char)).isSome ∧ a.name.toList = value.toList) = none :=
    List.find?_eq_none.2 fun a _ h => by simp at h
  simp only [resolve, hfind, hpart, hexplicit, htuples, hneg, if_neg hne, true_or, if_true]
  rw [if_neg (by simp [hv])]

/-- A written integer is a value. -/
theorem resolve_int (hw : Worded arguments) (i : Int) : resolve arguments (toString i) = .value := by
  have hdigit : ∀ {n c}, c ∈ Nat.toDigits 10 n → c.isDigit = true ∧ c ≠ '-' := by
    intro n c hc
    have hd := Nat.isDigit_of_mem_toDigits (by omega) (by omega) hc
    refine ⟨hd, ?_⟩
    rintro rfl
    exact absurd hd (by decide)
  rcases toList_toString_int i with ⟨n, hn⟩ | ⟨n, hn⟩
  · refine resolve_value fun hhead => ?_
    rw [hn] at hhead
    exact (hdigit (List.mem_of_head? hhead)).2 rfl
  · cases hds : Nat.toDigits 10 n with
    | nil => exact absurd hds Nat.toDigits_ne_nil
    | cons d ds =>
      rw [hds] at hn
      refine resolve_negative hw hn fun c hc => ?_
      have hd := (hdigit (hds ▸ hc)).1
      have := toNat_ge_of_isDigit hd
      rwa [isDecimal, toAscii_of_lt (by omega)]

/-- These words are read as options and do this to the namespace; none of them can be short for several options, or ends the options. -/
structure Reads (arguments : List (Argument σ)) (words : List String) (set : σ → σ) (names : List String) : Prop where
  reads : ∀ rest p, parseOptions arguments (words ++ rest) p =
    parseOptions arguments rest { p with ns := set p.ns, seen := names ++ p.seen }
  clear : ∀ word ∈ words, (resolve arguments word).isAmbiguous = false

theorem Reads.nil : Reads arguments [] id [] := ⟨fun _ _ => rfl, fun _ h => absurd h List.not_mem_nil⟩

theorem Reads.congr {words names : List String} {set set' : σ → σ} (h : Reads arguments words set names) (hset : ∀ ns, set ns = set' ns) :
    Reads arguments words set' names := by
  have heq : set = set' := funext hset
  rwa [← heq]

theorem Reads.append {words words' names names' : List String} {set set' : σ → σ} (h : Reads arguments words set names)
    (h' : Reads arguments words' set' names') : Reads arguments (words ++ words') (set' ∘ set) (names' ++ names) := by
  refine ⟨fun rest p => ?_, fun word hword => (List.mem_append.1 hword).elim (h.clear word) (h'.clear word)⟩
  rw [List.append_assoc, h.reads, h'.reads, List.append_assoc]
  rfl

/-- An option and its value are read. -/
theorem Reads.store {convert : String → Option (σ → σ)} {set : σ → σ} (ha : resolve arguments name = .option a none) (hn : name ≠ "--")
    (hact : a.action = .store convert) (hv : resolve arguments value = .value) (hne : value ≠ "--") (hc : convert value = some set) :
    Reads arguments [name, value] set [a.name] := by
  refine ⟨fun rest p => ?_, fun word hword => ?_⟩
  · rw [List.cons_append, parseOptions, if_neg hn, ha]
    simp only [Option.elim_none, List.cons_append, List.nil_append, hact, Action.isStore, hv, Word.isValue, hne, hc, take, ne_eq,
      not_false_eq_true, and_self, if_true, List.foldlM_nil, pure_bind, List.append_nil]
  · rcases List.mem_cons.1 hword with rfl | hword
    · rw [ha]
      rfl
    · rw [List.mem_singleton.1 hword, hv]
      rfl

/-- A flag is read. -/
theorem Reads.storeTrue {set : σ → σ} (ha : resolve arguments name = .option a none) (hn : name ≠ "--") (hact : a.action = .storeTrue set) :
    Reads arguments [name] set [a.name] := by
  refine ⟨fun rest p => ?_, fun word hword => ?_⟩
  · rw [List.cons_append, parseOptions, if_neg hn, ha]
    simp only [Option.elim_none, List.nil_append, hact, Action.isStore, Bool.false_eq_true, false_and, if_false, List.foldlM_nil, pure_bind,
      take, List.cons_append, List.append_nil]
  · rw [List.mem_singleton.1 hword, ha]
    rfl

/-- A command line of options among which are the required ones. -/
theorem parseKnownArgs_of_reads {words names : List String} {set : σ → σ} (h : Reads arguments words set names)
    (hreq : ∀ a ∈ arguments, a.required = true → a.name ∈ names) : parseKnownArgs arguments words ns = .ok (set ns, []) := by
  have hread := h.reads [] { ns }
  rw [List.append_nil, List.append_nil] at hread
  have hclear : (words.takeWhile (· ≠ "--")).find? (fun arg => (resolve arguments arg).isAmbiguous) = none :=
    List.find?_eq_none.2 fun word hword => by simp [h.clear word ((List.takeWhile_sublist _).subset hword)]
  have hnone : arguments.find? (fun a => a.required = true ∧ a.name ∉ names) = none := by
    refine List.find?_eq_none.2 fun a ha hno => ?_
    obtain ⟨h1, h2⟩ := of_decide_eq_true hno
    exact h2 (hreq a ha h1)
  rw [parseKnownArgs, hclear, hread, parseOptions]
  simp only [hnone]

end DeterministicRaft.Argparse
