import DeterministicRaft.Python

/-!
# Words of a command line (`shlex.split`)

A command line is split at blanks. Quotes keep blanks, and within single quotes every character stands for itself.
-/

namespace DeterministicRaft

/-- Where the reader is: outside of quotes, in quotes, or behind a backslash. -/
inductive Quoting where
  | plain | escape | single | double | doubleEscape
  deriving DecidableEq

def APOSTROPHE : Char := '\''

/-- A character between two words. -/
def isSeparator (c : Char) : Bool := c = ' ' ∨ c = '\t' ∨ c = '\r' ∨ c = '\n'

/-- A character that stands for itself outside of quotes. -/
def isBare (c : Char) : Bool := isSeparator c = false ∧ c ≠ APOSTROPHE ∧ c ≠ '"' ∧ c ≠ '\\'

/-- The words from here on; `word` is the one that has begun, if one has. There are none if a quotation does not end. -/
def shlexWords : Quoting → Option (List Char) → List Char → Option (List (List Char))
  | .plain, word, [] => some word.toList
  | _, _, [] => none
  | .plain, word, c :: cs =>
    if isSeparator c then (word.toList ++ ·) <$> shlexWords .plain none cs
    else if c = APOSTROPHE then shlexWords .single (some (word.getD [])) cs
    else if c = '"' then shlexWords .double (some (word.getD [])) cs
    else if c = '\\' then shlexWords .escape (some (word.getD [])) cs
    else shlexWords .plain (some (word.getD [] ++ [c])) cs
  | .escape, word, c :: cs => shlexWords .plain (some (word.getD [] ++ [c])) cs
  | .single, word, c :: cs =>
    if c = APOSTROPHE then shlexWords .plain word cs else shlexWords .single (some (word.getD [] ++ [c])) cs
  | .double, word, c :: cs =>
    if c = '"' then shlexWords .plain word cs
    else if c = '\\' then shlexWords .doubleEscape word cs
    else shlexWords .double (some (word.getD [] ++ [c])) cs
  | .doubleEscape, word, c :: cs =>
    shlexWords .double (some (word.getD [] ++ if c = '"' ∨ c = '\\' then [c] else ['\\', c])) cs

def shlexSplit (s : String) : Option (List String) := (shlexWords .plain none s.toList).map (·.map String.ofList)

/-- The text is read as this word, whatever comes behind it. -/
def ReadsAs (text word : String) : Prop :=
  ∀ rest, shlexWords .plain none (text.toList ++ rest) = shlexWords .plain (some word.toList) rest

/-- Outside of quotes a word goes on with the characters that stand for themselves. -/
theorem shlexWords_bare {p : List Char} (hp : ∀ c ∈ p, isBare c = true) (w rest : List Char) :
    shlexWords .plain (some w) (p ++ rest) = shlexWords .plain (some (w ++ p)) rest := by
  induction p generalizing w with
  | nil => rw [List.append_nil, List.nil_append]
  | cons c p ih =>
    have hc := hp c List.mem_cons_self
    simp only [isBare, decide_eq_true_eq] at hc
    obtain ⟨h1, h2, h3, h4⟩ := hc
    rw [List.cons_append, shlexWords, if_neg (by simp [h1]), if_neg h2, if_neg h3, if_neg h4, Option.getD_some,
      ih fun x hx => hp x (List.mem_cons_of_mem c hx), List.append_assoc]
    rfl

/-- In single quotes every character but the quote stands for itself. -/
theorem shlexWords_single {p : List Char} (hp : APOSTROPHE ∉ p) (w rest : List Char) :
    shlexWords .single (some w) (p ++ APOSTROPHE :: rest) = shlexWords .plain (some (w ++ p)) rest := by
  induction p generalizing w with
  | nil => rw [List.nil_append, shlexWords, if_pos rfl, List.append_nil]
  | cons c p ih =>
    rw [List.mem_cons, not_or] at hp
    rw [List.cons_append, shlexWords, if_neg (Ne.symm hp.1), Option.getD_some, ih hp.2, List.append_assoc]
    rfl

/-- A text without blanks and quotes is a word. -/
theorem readsAs_bare {s : String} (hne : s ≠ "") (hs : ∀ c ∈ s.toList, isBare c = true) : ReadsAs s s := by
  intro rest
  cases hl : s.toList with
  | nil => exact absurd (String.toList_eq_nil_iff.1 hl) hne
  | cons c p =>
    rw [hl] at hs
    have hc := hs c List.mem_cons_self
    simp only [isBare, decide_eq_true_eq] at hc
    obtain ⟨h1, h2, h3, h4⟩ := hc
    rw [List.cons_append, shlexWords, if_neg (by simp [h1]), if_neg h2, if_neg h3, if_neg h4, Option.getD_none, List.nil_append,
      shlexWords_bare fun x hx => hs x (List.mem_cons_of_mem c hx)]
    rfl

/-- A text in single quotes is a word. -/
theorem readsAs_quoted {s : String} (hs : APOSTROPHE ∉ s.toList) : ReadsAs ("'" ++ s ++ "'") s := by
  intro rest
  have hquote : "'".toList = [APOSTROPHE] := by decide
  have hplain : isSeparator APOSTROPHE = false := by decide
  rw [String.toList_append, String.toList_append, hquote, List.append_assoc, List.append_assoc, List.singleton_append, List.cons_append,
    List.nil_append, shlexWords, if_neg (by simp [hplain]), if_pos rfl, Option.getD_none, shlexWords_single hs, List.nil_append]

/-- Texts with single blanks between them are read as their words, one by one. -/
theorem shlexSplit_join {printed : List (String × String)} (h : ∀ p ∈ printed, ReadsAs p.1 p.2) :
    shlexSplit (pyJoin " " (printed.map Prod.fst)) = some (printed.map Prod.snd) := by
  have hread : shlexWords .plain none (pyJoin " " (printed.map Prod.fst)).toList =
      some ((printed.map Prod.snd).map String.toList) := by
    cases printed with
    | nil => rfl
    | cons p ps =>
      rw [List.map_cons, toList_pyJoin, h p List.mem_cons_self]
      have hps : ∀ q ∈ ps, ReadsAs q.1 q.2 := fun q hq => h q (List.mem_cons_of_mem p hq)
      clear h
      induction ps generalizing p with
      | nil => rfl
      | cons q ps ih =>
        have hblank : " ".toList = [' '] := by decide
        have hsep : isSeparator ' ' = true := by decide
        rw [List.map_cons, List.flatMap_cons, hblank, List.append_assoc, List.singleton_append, shlexWords, if_pos hsep,
          hps q List.mem_cons_self, ← hblank, ih q fun r hr => hps r (List.mem_cons_of_mem q hr)]
        rfl
  rw [shlexSplit, hread, Option.map_some, List.map_map]
  simp [Function.comp_def]

end DeterministicRaft
