import Mathlib.Data.Finmap
import Mathlib.Data.List.Sort

/-!
# The Python built-ins the program uses

Lists are indexed from either end, dictionaries and sets are finite maps and sets (their equality ignores order), `str` is a
string of code points, and `int` reads a decimal numeral as CPython does: surrounding blanks, a sign, digits of any script,
single underscores between digits. The interpreter's configurable cap on the length of a numeral is not modelled.
-/

namespace DeterministicRaft

/-- What an operation can raise. -/
inductive PyError where
  | indexError | keyError
  deriving DecidableEq, Repr

/-! ## Lists -/

/-- `l[i]`: a negative index counts from the end. -/
def pyIndex {α : Type} (l : List α) (i : Int) : Except PyError α :=
  let j := if i < 0 then i + l.length else i
  if j < 0 then .error .indexError
  else match l[j.toNat]? with
    | some a => .ok a
    | none => .error .indexError

/-- Where a slice bound `i` of a list of length `n` falls. -/
def sliceBound (n : Nat) (i : Int) : Nat := if i < 0 then (i + n).toNat else min i.toNat n

/-- `del l[i:]`. -/
def delFrom {α : Type} (l : List α) (i : Int) : List α := l.take (sliceBound l.length i)

/-- `l[i:]`, and what `del l[:i]` leaves. -/
def sliceFrom {α : Type} (l : List α) (i : Int) : List α := l.drop (sliceBound l.length i)

/-- `range(lo, hi)`. -/
def pyRange (lo hi : Int) : List Int := (List.range (hi - lo).toNat).map fun k : Nat => lo + k

@[simp] theorem mem_pyRange {lo hi i : Int} : i ∈ pyRange lo hi ↔ lo ≤ i ∧ i < hi := by
  simp only [pyRange, List.mem_map, List.mem_range]
  constructor
  · rintro ⟨k, hk, rfl⟩
    omega
  · rintro ⟨hlo, hhi⟩
    exact ⟨(i - lo).toNat, by omega, by omega⟩

theorem pyRange_pairwise (lo hi : Int) : (pyRange lo hi).Pairwise (· < ·) :=
  List.pairwise_map.2 (List.pairwise_lt_range.imp fun h => by omega)

theorem pyIndex_ok {α : Type} {l : List α} {i : Int} {n : Nat} {a : α} (hi : i = n) (h : l[n]? = some a) :
    pyIndex l i = .ok a := by
  subst hi
  have hn : ¬(n : Int) < 0 := by omega
  simp [pyIndex, hn, h]

/-- What is at an index is in the list. -/
theorem mem_of_pyIndex {α : Type} {l : List α} {i : Int} {a : α} (h : pyIndex l i = .ok a) : a ∈ l := by
  rw [pyIndex] at h
  generalize (if i < 0 then i + (l.length : Int) else i) = j at h
  split at h
  · cases h
  · split at h
    · rename_i b hb
      cases h
      exact List.mem_of_getElem? hb
    · cases h

theorem delFrom_nat {α : Type} (l : List α) {i : Int} {n : Nat} (hi : i = n) : delFrom l i = l.take n := by
  subst hi
  have hn : ¬(n : Int) < 0 := by omega
  simp [delFrom, sliceBound, hn, List.take_eq_take_iff]

theorem sliceFrom_nat {α : Type} (l : List α) {i : Int} {n : Nat} (hi : i = n) : sliceFrom l i = l.drop n := by
  subst hi
  have hn : ¬(n : Int) < 0 := by omega
  rcases Nat.le_total n l.length with h | h
  · simp [sliceFrom, sliceBound, hn, Nat.min_eq_left h]
  · simp [sliceFrom, sliceBound, hn, Nat.min_eq_right h, List.drop_of_length_le h]

/-! ## Dictionaries and sets -/

/-- A dictionary. -/
abbrev Dict (κ α : Type) : Type := Finmap (fun _ : κ => α)

namespace Dict

variable {κ α : Type} [DecidableEq κ]

/-- `d.get(k, default)`. -/
def getD (d : Dict κ α) (k : κ) (default : α) : α := (d.lookup k).getD default

/-- `d[k]`. -/
def item (d : Dict κ α) (k : κ) : Except PyError α :=
  match d.lookup k with
  | some a => .ok a
  | none => .error .keyError

/-- `dict.fromkeys(ks, a)`. -/
def fromKeys (ks : List κ) (a : α) : Dict κ α := ks.foldl (fun d k => d.insert k a) ∅

theorem lookup_fromKeys (ks : List κ) (a : α) (k : κ) : (fromKeys ks a).lookup k = if k ∈ ks then some a else none := by
  have key : ∀ d : Dict κ α, (ks.foldl (fun d k => d.insert k a) d).lookup k = if k ∈ ks then some a else d.lookup k := by
    induction ks with
    | nil => simp
    | cons x ks ih =>
      intro d
      rw [List.foldl_cons, ih]
      by_cases hk : k ∈ ks
      · simp [hk]
      · by_cases hx : k = x
        · subst hx
          simp
        · simp [hk, hx, Finmap.lookup_insert_of_ne]
  rw [fromKeys, key]
  simp

end Dict

/-- `tuple(sorted(set(l)))`. -/
def sortedSet (l : List Int) : List Int := l.dedup.insertionSort (· ≤ ·)

/-! ## Strings -/

/-- `s.split(sep)` on code points. -/
def splitChars (sep : Char) : List Char → List (List Char)
  | [] => [[]]
  | c :: cs =>
    if c = sep then [] :: splitChars sep cs
    else match splitChars sep cs with
      | [] => [[c]]
      | p :: ps => (c :: p) :: ps

/-- `s.split(sep)`. -/
def pySplit (s : String) (sep : Char) : List String := (splitChars sep s.toList).map String.ofList

/-- The blanks outside ASCII that `int` accepts around a numeral. -/
def unicodeSpaces : List Nat :=
  [0x85, 0xa0, 0x1680, 0x2000, 0x2001, 0x2002, 0x2003, 0x2004, 0x2005, 0x2006, 0x2007, 0x2008, 0x2009, 0x200a, 0x2028,
    0x2029, 0x202f, 0x205f, 0x3000]

/-- The digit zero of each script outside ASCII: its ten decimal digits follow it (Unicode 14). -/
def decimalZeros : List Nat :=
  [0x660, 0x6f0, 0x7c0, 0x966, 0x9e6, 0xa66, 0xae6, 0xb66, 0xbe6, 0xc66, 0xce6, 0xd66, 0xde6, 0xe50, 0xed0, 0xf20,
    0x1040, 0x1090, 0x17e0, 0x1810, 0x1946, 0x19d0, 0x1a80, 0x1a90, 0x1b50, 0x1bb0, 0x1c40, 0x1c50, 0xa620, 0xa8d0,
    0xa900, 0xa9d0, 0xa9f0, 0xaa50, 0xabf0, 0xff10, 0x104a0, 0x10d30, 0x11066, 0x110f0, 0x11136, 0x111d0, 0x112f0,
    0x11450, 0x114d0, 0x11650, 0x116c0, 0x11730, 0x118e0, 0x11950, 0x11c50, 0x11d50, 0x11da0, 0x16a60, 0x16ac0, 0x16b50,
    0x1d7ce, 0x1d7d8, 0x1d7e2, 0x1d7ec, 0x1d7f6, 0x1e140, 0x1e2f0, 0x1e950, 0x1fbf0]

/-- The ASCII character `int` reads a code point as. -/
def toAscii (c : Char) : Char :=
  if c.toNat < 127 then c
  else if c.toNat ∈ unicodeSpaces then ' '
  else match decimalZeros.find? (fun z => decide (z ≤ c.toNat ∧ c.toNat < z + 10)) with
    | some z => Nat.digitChar (c.toNat - z)
    | none => '?'

/-- The ASCII blanks. -/
def isBlank (c : Char) : Bool := c.toNat = 32 || (9 ≤ c.toNat && c.toNat ≤ 13)

/-- The value of digits with single underscores between them; `digit` says whether the character before was a digit. -/
def readDigits (acc : Nat) (digit : Bool) : List Char → Option Nat
  | [] => if digit then some acc else none
  | c :: cs =>
    if c.isDigit then readDigits (10 * acc + (c.toNat - '0'.toNat)) true cs
    else if c = '_' ∧ digit = true then readDigits acc false cs
    else none

/-- A numeral with an optional sign. -/
def readSigned : List Char → Option Int
  | [] => none
  | c :: cs =>
    if c = '-' then (readDigits 0 false cs).map (fun n => -(n : Int))
    else if c = '+' then (readDigits 0 false cs).map (fun n => (n : Int))
    else (readDigits 0 false (c :: cs)).map (fun n => (n : Int))

/-- `int(s)`, with `none` for the `ValueError`. -/
def pyInt (s : String) : Option Int :=
  readSigned ((((s.toList.map toAscii).dropWhile isBlank).reverse.dropWhile isBlank).reverse)

/-- `sep.join(parts)`. -/
def pyJoin (sep : String) (parts : List String) : String := sep.intercalate parts

/-! ## Reading back what was written -/

theorem splitChars_ne_nil (sep : Char) (cs : List Char) : splitChars sep cs ≠ [] := by
  cases cs with
  | nil => simp [splitChars]
  | cons c cs =>
    unfold splitChars
    split
    · simp
    · split <;> simp

/-- Splitting at the first separator. -/
theorem splitChars_append (sep : Char) (p cs : List Char) (hp : sep ∉ p) :
    splitChars sep (p ++ sep :: cs) = p :: splitChars sep cs := by
  induction p with
  | nil => simp [splitChars]
  | cons c p ih =>
    simp only [List.mem_cons, not_or] at hp
    rw [List.cons_append, splitChars, if_neg (Ne.symm hp.1), ih hp.2]

/-- A string without the separator is not split. -/
theorem splitChars_of_notMem (sep : Char) (p : List Char) (hp : sep ∉ p) : splitChars sep p = [p] := by
  induction p with
  | nil => rfl
  | cons c p ih =>
    simp only [List.mem_cons, not_or] at hp
    rw [splitChars, if_neg (Ne.symm hp.1), ih hp.2]

/-- A string has one part more than separators. -/
theorem length_splitChars (sep : Char) (cs : List Char) : (splitChars sep cs).length = cs.count sep + 1 := by
  induction cs with
  | nil => rfl
  | cons c cs ih =>
    unfold splitChars
    split
    · rename_i hc
      rw [List.length_cons, ih, hc, List.count_cons_self]
    · rename_i hc
      rw [List.count_cons_of_ne hc, ← ih]
      split
      · rename_i hnil
        exact absurd hnil (splitChars_ne_nil sep cs)
      · rename_i hcons
        rw [hcons, List.length_cons, List.length_cons]

/-- The code points of joined strings. -/
theorem toList_pyJoin (sep : String) (p : String) (ps : List String) :
    (pyJoin sep (p :: ps)).toList = p.toList ++ ps.flatMap (fun q => sep.toList ++ q.toList) := by
  induction ps generalizing p with
  | nil => simp [pyJoin]
  | cons q ps ih =>
    have e : pyJoin sep (p :: q :: ps) = p ++ sep ++ pyJoin sep (q :: ps) := by
      simp [pyJoin, String.intercalate_cons_of_ne_nil]
    rw [e]
    simp [ih]

/-- Joined strings without the separator split into themselves. -/
theorem pySplit_pyJoin (sep : Char) (p : String) (ps : List String) (h : ∀ q ∈ p :: ps, sep ∉ q.toList) :
    pySplit (pyJoin (String.singleton sep) (p :: ps)) sep = p :: ps := by
  have key : ∀ (ps : List String) (p : String), (∀ q ∈ p :: ps, sep ∉ q.toList) →
      splitChars sep (p.toList ++ ps.flatMap (fun q => sep :: q.toList)) = (p :: ps).map String.toList := by
    intro ps
    induction ps with
    | nil =>
      intro p h
      simpa using splitChars_of_notMem sep p.toList (h p (by simp))
    | cons q ps ih =>
      intro p h
      rw [List.flatMap_cons, List.cons_append, splitChars_append sep _ _ (h p (by simp)),
        ih q (fun r hr => h r (List.mem_cons_of_mem _ hr))]
      rfl
  rw [pySplit, toList_pyJoin]
  have e : (String.singleton sep).toList = [sep] := by simp
  simp only [e, List.singleton_append]
  rw [key ps p h]
  simp [List.map_map, Function.comp_def]

theorem toAscii_of_lt {c : Char} (h : c.toNat < 127) : toAscii c = c := if_pos h

theorem not_isBlank_of_ge {c : Char} (h : 33 ≤ c.toNat) : isBlank c = false := by
  simp only [isBlank, Bool.or_eq_false_iff, Bool.and_eq_false_iff, decide_eq_false_iff_not]
  omega

/-- Digits are read as the number they write. -/
theorem readDigits_of_isDigit (ds : List Char) (h : ∀ c ∈ ds, c.isDigit = true) (acc : Nat) (b : Bool)
    (hb : b = true ∨ ds ≠ []) : readDigits acc b ds = some (Nat.ofDigitChars 10 ds acc) := by
  induction ds generalizing acc b with
  | nil =>
    rcases hb with rfl | hb
    · simp [readDigits]
    · exact absurd rfl hb
  | cons c ds ih =>
    rw [readDigits, if_pos (h c (by simp)), ih (fun x hx => h x (by simp [hx])) _ _ (Or.inl rfl), Nat.ofDigitChars_cons]

theorem toNat_ge_of_isDigit {c : Char} (h : c.isDigit = true) : 48 ≤ c.toNat ∧ c.toNat ≤ 57 := by
  simpa [Char.isDigit, UInt32.le_iff_toNat_le] using h

/-- Characters that are neither blank nor outside ASCII reach the reader of numerals unchanged. -/
theorem pyInt_of_plain (s : String) (h : ∀ c ∈ s.toList, 33 ≤ c.toNat ∧ c.toNat < 127) : pyInt s = readSigned s.toList := by
  have hmap : s.toList.map toAscii = s.toList := by
    conv_rhs => rw [← List.map_id s.toList]
    exact List.map_congr_left fun c hc => toAscii_of_lt (h c hc).2
  have hdrop : ∀ l : List Char, (∀ c ∈ l, 33 ≤ c.toNat) → l.dropWhile isBlank = l := by
    intro l hl
    cases l with
    | nil => rfl
    | cons c l =>
      rw [List.dropWhile_cons, not_isBlank_of_ge (hl c (by simp))]
      rfl
  rw [pyInt, hmap, hdrop _ (fun c hc => (h c hc).1), hdrop _ (fun c hc => (h c (by simpa using hc)).1), List.reverse_reverse]

/-- A natural number's decimal digits read back as that number. -/
theorem readDigits_toDigits (n : Nat) : readDigits 0 false (Nat.toDigits 10 n) = some n := by
  rw [readDigits_of_isDigit _ (fun c hc => Nat.isDigit_of_mem_toDigits (by omega) (by omega) hc) _ _
    (Or.inr Nat.toDigits_ne_nil), Nat.ofDigitChars_toDigits (by omega) (by omega)]

/-- `int(str(i)) == i`. -/
theorem pyInt_toString (i : Int) : pyInt (toString i) = some i := by
  have hd : ∀ (n : Nat), ∀ c ∈ Nat.toDigits 10 n, 48 ≤ c.toNat ∧ c.toNat ≤ 57 := fun n c hc =>
    toNat_ge_of_isDigit (Nat.isDigit_of_mem_toDigits (by omega) (by omega) hc)
  have hsign : ∀ (n : Nat), readSigned (Nat.toDigits 10 n) = some (n : Int) := by
    intro n
    have hread := readDigits_toDigits n
    cases hds : Nat.toDigits 10 n with
    | nil => exact absurd hds Nat.toDigits_ne_nil
    | cons c cs =>
      have hc := hd n c (by rw [hds]; simp)
      have h1 : c ≠ '-' := by
        rintro rfl
        simp at hc
      have h2 : c ≠ '+' := by
        rintro rfl
        simp at hc
      rw [readSigned, if_neg h1, if_neg h2, ← hds, hread]
      rfl
  cases i with
  | ofNat n =>
    have e : (toString (Int.ofNat n)).toList = Nat.toDigits 10 n := by
      show (Nat.repr n).toList = _
      exact Nat.toList_repr
    rw [pyInt_of_plain, e, hsign]
    · rfl
    · intro c hc
      have := hd n c (e ▸ hc)
      omega
  | negSucc n =>
    have e : (toString (Int.negSucc n)).toList = '-' :: Nat.toDigits 10 (n + 1) := by
      show ("-" ++ Nat.repr (n + 1)).toList = _
      simp
    rw [pyInt_of_plain, e, readSigned, if_pos rfl, readDigits_toDigits]
    · rfl
    · intro c hc
      rw [e, List.mem_cons] at hc
      rcases hc with rfl | hc
      · decide
      · have := hd (n + 1) c hc
        omega

/-- A written integer is its digits, with a minus sign before them if it is negative. -/
theorem toList_toString_int (i : Int) :
    (∃ n, (toString i).toList = Nat.toDigits 10 n) ∨ ∃ n, (toString i).toList = '-' :: Nat.toDigits 10 n := by
  cases i with
  | ofNat n =>
    refine Or.inl ⟨n, ?_⟩
    show (Nat.repr n).toList = _
    exact Nat.toList_repr
  | negSucc n =>
    refine Or.inr ⟨n + 1, ?_⟩
    show ("-" ++ Nat.repr (n + 1)).toList = _
    simp

/-- Every character of a written integer is a digit or a minus sign. -/
theorem mem_toString_int {i : Int} {c : Char} (hc : c ∈ (toString i).toList) : c.isDigit = true ∨ c = '-' := by
  have hdigit : ∀ {n}, c ∈ Nat.toDigits 10 n → c.isDigit = true := Nat.isDigit_of_mem_toDigits (by omega) (by omega)
  rcases toList_toString_int i with ⟨n, hn⟩ | ⟨n, hn⟩
  · exact Or.inl (hdigit (hn ▸ hc))
  · rw [hn, List.mem_cons] at hc
    exact hc.symm.imp_left hdigit

end DeterministicRaft
