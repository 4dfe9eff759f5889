import Mathlib.Data.List.Forall2

/-!
# Operations that follow an abstract system

An operation may fail; the abstract system it is compared with takes steps. `Ends` says that the operation does not fail and that
some steps of the abstract system lead to a state that fits what it gives. The rules are those of a program logic: return, bind,
and loops.
-/

namespace Refinement

universe u

variable {α ε : Type*} {β γ : Type u}

/-- Moves of an abstract system: they compose, and staying is one. -/
structure Moves (α : Type*) where
  rel : α → α → Prop
  refl : ∀ a, rel a a
  trans : ∀ {a b c}, rel a b → rel b c → rel a c

/-- The operation `x` gives a result, and a move from `a` leads to a state in which `Q` holds of it. -/
def Ends (m : Moves α) (a : α) (x : Except ε β) (Q : α → β → Prop) : Prop :=
  ∃ b a', x = .ok b ∧ m.rel a a' ∧ Q a' b

variable {m : Moves α} {a : α}

/-- An operation that only returns. -/
theorem Ends.pure {b : β} {Q : α → β → Prop} (h : Q a b) : Ends m a (.ok b : Except ε β) Q := ⟨b, a, rfl, m.refl a, h⟩

/-- An operation known to return. -/
theorem Ends.of_ok {x : Except ε β} {b : β} {Q : α → β → Prop} (hx : x = .ok b) (h : Q a b) : Ends m a x Q := by
  rw [hx]
  exact Ends.pure h

/-- An operation that returns after an abstract move. -/
theorem Ends.move {b : β} {Q : α → β → Prop} {a' : α} (hm : m.rel a a') (h : Q a' b) : Ends m a (.ok b : Except ε β) Q :=
  ⟨b, a', rfl, hm, h⟩

/-- An operation after an abstract move. -/
theorem Ends.after {x : Except ε β} {Q : α → β → Prop} {a' : α} (hm : m.rel a a') (h : Ends m a' x Q) : Ends m a x Q := by
  obtain ⟨b, a'', hx, hm', hQ⟩ := h
  exact ⟨b, a'', hx, m.trans hm hm', hQ⟩

/-- One operation and then another. -/
theorem Ends.bind {x : Except ε β} {f : β → Except ε γ} {Q : α → β → Prop} {R : α → γ → Prop} (h : Ends m a x Q)
    (hf : ∀ b a', m.rel a a' → Q a' b → Ends m a' (f b) R) : Ends m a (x >>= f) R := by
  obtain ⟨b, a', rfl, hm, hQ⟩ := h
  exact Ends.after hm (hf b a' hm hQ)

/-- A result put through a function. -/
theorem Ends.map {x : Except ε β} {f : β → γ} {R : α → γ → Prop} (h : Ends m a x fun a' b => R a' (f b)) :
    Ends m a (f <$> x) R := by
  obtain ⟨b, a', rfl, hm, hR⟩ := h
  exact ⟨f b, a', rfl, hm, hR⟩

/-- A weaker claim about the result. -/
theorem Ends.mono {x : Except ε β} {Q R : α → β → Prop} (h : Ends m a x Q) (hQ : ∀ b a', m.rel a a' → Q a' b → R a' b) :
    Ends m a x R := by
  obtain ⟨b, a', hx, hm, hb⟩ := h
  exact ⟨b, a', hx, hm, hQ b a' hm hb⟩

/-- A loop over a list keeps what each turn keeps. -/
theorem Ends.foldlM {ι : Type*} {l : List ι} {f : β → ι → Except ε β} {Q : α → β → Prop}
    (hf : ∀ i ∈ l, ∀ a b, Q a b → Ends m a (f b i) Q) {b : β} (h : Q a b) : Ends m a (l.foldlM f b) Q := by
  induction l generalizing a b with
  | nil => exact Ends.pure h
  | cons i l ih =>
    rw [List.foldlM_cons]
    exact Ends.bind (hf i List.mem_cons_self a b h) fun b' a' _ hQ =>
      ih (fun j hj => hf j (List.mem_cons_of_mem _ hj)) hQ

/-! ## What holds of a result -/

/-- Every result of the computation satisfies `Q`. -/
def Ensures (x : Except ε β) (Q : β → Prop) : Prop := ∀ b, x = .ok b → Q b

theorem Ensures.pure {b : β} {Q : β → Prop} (h : Q b) : Ensures (.ok b : Except ε β) Q := by
  intro b' hb
  cases hb
  exact h

/-- What holds of a result can be tested. -/
instance Ensures.decidable (x : Except ε β) (Q : β → Prop) [DecidablePred Q] : Decidable (Ensures x Q) :=
  match x with
  | .error _ => .isTrue fun _ h => nomatch h
  | .ok b => decidable_of_iff (Q b) ⟨Ensures.pure, fun h => h b rfl⟩

/-- Nothing is claimed of the result. -/
theorem Ensures.trivial (x : Except ε β) : Ensures x fun _ => True := fun _ _ => True.intro

/-- One computation and then another. -/
theorem Ensures.bind {x : Except ε β} {f : β → Except ε γ} {Q : β → Prop} {R : γ → Prop} (h : Ensures x Q)
    (hf : ∀ b, Q b → Ensures (f b) R) : Ensures (x >>= f) R := by
  intro c hc
  cases x with
  | error e => cases hc
  | ok b => exact hf b (h b rfl) c hc

/-- A result put through a function. -/
theorem Ensures.map {x : Except ε β} {f : β → γ} {R : γ → Prop} (h : Ensures x fun b => R (f b)) : Ensures (f <$> x) R := by
  intro c hc
  cases x with
  | error e => cases hc
  | ok b =>
    cases hc
    exact h b rfl

theorem Ensures.mono {x : Except ε β} {Q R : β → Prop} (h : Ensures x Q) (hQ : ∀ b, Q b → R b) : Ensures x R :=
  fun b hb => hQ b (h b hb)

/-- A result that is as it should be under a condition. -/
theorem Ensures.given {P : Prop} {x : Except ε β} {Q : β → Prop} (h : P → Ensures x Q) : Ensures x fun b => P → Q b :=
  fun b hb hP => h hP b hb

/-- A loop over a list keeps what each turn keeps. -/
theorem Ensures.foldlM {ι : Type*} {l : List ι} {f : β → ι → Except ε β} {Q : β → Prop} (hf : ∀ b i, Q b → Ensures (f b i) Q)
    {b : β} (h : Q b) : Ensures (l.foldlM f b) Q := by
  induction l generalizing b with
  | nil => exact Ensures.pure h
  | cons i l ih =>
    rw [List.foldlM_cons]
    exact Ensures.bind (hf b i h) fun b' hQ => ih hQ

/-- Of two computations in a row both give a result, or neither does. -/
theorem bind_eq_ok {x : Except ε β} {f : β → Except ε γ} {c : γ} : x >>= f = .ok c ↔ ∃ b, x = .ok b ∧ f b = .ok c := by
  cases x with
  | ok b => exact ⟨fun h => ⟨b, rfl, h⟩, fun ⟨_, hb, h⟩ => Except.ok.inj hb ▸ h⟩
  | error e => exact ⟨fun h => (nomatch h), fun ⟨_, hb, _⟩ => nomatch hb⟩

/-- A list is gone through successfully if each of its items is. -/
theorem mapM_eq_ok {ι : Type*} {f : ι → Except ε β} {l : List ι} {bs : List β} :
    l.mapM f = .ok bs ↔ List.Forall₂ (fun i b => f i = .ok b) l bs := by
  induction l generalizing bs with
  | nil =>
    rw [List.mapM_nil, List.forall₂_nil_left_iff]
    exact ⟨fun h => (Except.ok.inj h).symm, fun h => h ▸ rfl⟩
  | cons i l ih =>
    simp only [List.mapM_cons, bind_eq_ok, ih, List.forall₂_cons_left_iff]
    constructor
    · rintro ⟨b, hb, bs', hbs, h⟩
      exact ⟨b, bs', hb, hbs, (Except.ok.inj h).symm⟩
    · rintro ⟨b, bs', hb, hbs, rfl⟩
      exact ⟨b, hb, bs', hbs, rfl⟩

/-! ## What is raised -/

/-- Every error of the computation satisfies `P`. -/
def Raises (x : Except ε β) (P : ε → Prop) : Prop := ∀ e, x = .error e → P e

theorem Raises.ok {P : ε → Prop} (b : β) : Raises (.ok b) P := fun _ h => nomatch h

theorem Raises.error {P : ε → Prop} {e : ε} (h : P e) : Raises (.error e : Except ε β) P := by
  intro e' he
  cases he
  exact h

/-- One computation and then another. -/
theorem Raises.bind {P : ε → Prop} {x : Except ε β} {f : β → Except ε γ} (h : Raises x P) (hf : ∀ b, Raises (f b) P) :
    Raises (x >>= f) P := by
  intro e he
  cases x with
  | ok b => exact hf b e he
  | error e' =>
    cases he
    exact h _ rfl

/-- A list gone through raises what one of its items raises. -/
theorem Raises.mapM {ι : Type*} {P : ε → Prop} {f : ι → Except ε β} (hf : ∀ i, Raises (f i) P) (l : List ι) :
    Raises (l.mapM f) P := by
  induction l with
  | nil => exact Raises.ok []
  | cons i l ih =>
    rw [List.mapM_cons]
    exact Raises.bind (hf i) fun b => Raises.bind ih fun bs => Raises.ok (b :: bs)

/-! ## What is given or raised -/

/-- Every result of the computation satisfies `Q`, and every error `P`. -/
def Yields (x : Except ε β) (Q : β → Prop) (P : ε → Prop) : Prop := Ensures x Q ∧ Raises x P

namespace Yields

variable {x : Except ε β} {Q R : β → Prop} {P : ε → Prop}

theorem pure {b : β} (h : Q b) : Yields (.ok b : Except ε β) Q P := ⟨Ensures.pure h, Raises.ok b⟩

theorem error {e : ε} (h : P e) : Yields (.error e : Except ε β) Q P := ⟨fun _ hb => (nomatch hb), Raises.error h⟩

theorem mono (h : Yields x Q P) (hQ : ∀ b, Q b → R b) : Yields x R P := ⟨h.1.mono hQ, h.2⟩

/-- One computation and then another. -/
theorem bind {f : β → Except ε γ} {S : γ → Prop} (h : Yields x Q P) (hf : ∀ b, Q b → Yields (f b) S P) : Yields (x >>= f) S P := by
  cases x with
  | error e => exact error (h.2 e rfl)
  | ok b => exact hf b (h.1 b rfl)

/-- A loop over a list keeps what each turn keeps. -/
theorem foldlM {ι : Type*} {l : List ι} {f : β → ι → Except ε β} (hf : ∀ i ∈ l, ∀ b, Q b → Yields (f b i) Q P) {b : β} (h : Q b) :
    Yields (l.foldlM f b) Q P := by
  induction l generalizing b with
  | nil => exact pure h
  | cons i l ih =>
    rw [List.foldlM_cons]
    exact bind (hf i List.mem_cons_self b h) fun b' hb' => ih (fun j hj => hf j (List.mem_cons_of_mem _ hj)) hb'

end Yields

/-! ## What is returned -/

/-- The computation gives a result, and `Q` holds of it. -/
def Returns (x : Except ε β) (Q : β → Prop) : Prop := ∃ b, x = .ok b ∧ Q b

namespace Returns

variable {x : Except ε β} {Q R : β → Prop}

theorem pure {b : β} (h : Q b) : Returns (.ok b : Except ε β) Q := ⟨b, rfl, h⟩

/-- One computation and then another. -/
theorem bind {f : β → Except ε γ} {S : γ → Prop} (h : Returns x Q) (hf : ∀ b, Q b → Returns (f b) S) : Returns (x >>= f) S := by
  obtain ⟨b, rfl, hb⟩ := h
  exact hf b hb

theorem mono (h : Returns x Q) (hQ : ∀ b, Q b → R b) : Returns x R := by
  obtain ⟨b, hx, hb⟩ := h
  exact ⟨b, hx, hQ b hb⟩

/-- What every result satisfies, the one that is given satisfies too. -/
theorem and (h : Returns x Q) (h' : Ensures x R) : Returns x fun b => Q b ∧ R b := by
  obtain ⟨b, hx, hb⟩ := h
  exact ⟨b, hx, hb, h' b hx⟩

variable {ι : Type*} {l : List ι} {f : β → ι → Except ε β} {b : β}

/-- A loop over a list keeps what each turn keeps. -/
theorem foldlM (hf : ∀ i ∈ l, ∀ b, Q b → Returns (f b i) Q) (h : Q b) : Returns (l.foldlM f b) Q := by
  induction l generalizing b with
  | nil => exact pure h
  | cons i l ih =>
    rw [List.foldlM_cons]
    exact bind (hf i List.mem_cons_self b h) fun b' hb' => ih (fun j hj => hf j (List.mem_cons_of_mem _ hj)) hb'

/-- A loop over a list establishes what each turn establishes, if no turn undoes what another has. -/
theorem foldlM_each {P : ι → β → Prop}
    (hf : ∀ i ∈ l, ∀ b, Q b → Returns (f b i) fun b' => Q b' ∧ P i b' ∧ ∀ j, P j b → P j b') (h : Q b) :
    Returns (l.foldlM f b) fun b' => Q b' ∧ (∀ i ∈ l, P i b') ∧ ∀ j, P j b → P j b' := by
  induction l generalizing b with
  | nil => exact pure ⟨h, fun i hi => absurd hi List.not_mem_nil, fun _ hj => hj⟩
  | cons i l ih =>
    rw [List.foldlM_cons]
    refine bind (hf i List.mem_cons_self b h) fun b' hb' => ?_
    refine (ih (fun j hj => hf j (List.mem_cons_of_mem _ hj)) hb'.1).mono fun b'' hb'' => ?_
    refine ⟨hb''.1, fun j hj => ?_, fun j hj => hb''.2.2 j (hb'.2.2 j hj)⟩
    rcases List.mem_cons.1 hj with rfl | hj
    · exact hb''.2.2 j hb'.2.1
    · exact hb''.2.1 j hj

end Returns

/-! ## Two computations side by side -/

/-- Both computations fail with the same error, or both give results and `R` holds of them. -/
inductive Agree (R : β → γ → Prop) : Except ε β → Except ε γ → Prop
  | ok {b : β} {c : γ} (h : R b c) : Agree R (.ok b) (.ok c)
  | error (e : ε) : Agree R (.error e) (.error e)

theorem Agree.mono {R S : β → γ → Prop} {x : Except ε β} {y : Except ε γ} (h : Agree R x y) (hRS : ∀ b c, R b c → S b c) :
    Agree S x y := by
  cases h with
  | ok h => exact .ok (hRS _ _ h)
  | error e => exact .error e

/-- A computation next to itself. -/
theorem Agree.self (x : Except ε β) : Agree Eq x x := by
  cases x with
  | ok b => exact .ok rfl
  | error e => exact .error e

/-- One computation and then another, on both sides. -/
theorem Agree.bind {β' γ' : Type u} {R : β → γ → Prop} {S : β' → γ' → Prop} {x : Except ε β} {y : Except ε γ}
    {f : β → Except ε β'} {g : γ → Except ε γ'} (h : Agree R x y) (hfg : ∀ b c, R b c → Agree S (f b) (g c)) :
    Agree S (x >>= f) (y >>= g) := by
  cases h with
  | ok h => exact hfg _ _ h
  | error e => exact .error e

/-- What both sides give is turned into something else. -/
theorem Agree.map {β' γ' : Type u} {R : β' → γ' → Prop} {x : Except ε β} {y : Except ε γ} {f : β → β'} {g : γ → γ'}
    (h : Agree (fun b c => R (f b) (g c)) x y) : Agree R (f <$> x) (g <$> y) := by
  cases h with
  | ok h => exact .ok h
  | error e => exact .error e

/-- A test that comes out the same on both sides. -/
theorem Agree.ite {c c' : Prop} [Decidable c] [Decidable c'] (hc : c ↔ c') {R : β → γ → Prop} {x x' : Except ε β}
    {y y' : Except ε γ} (h : c → Agree R x y) (h' : ¬c → Agree R x' y') :
    Agree R (if c then x else x') (if c' then y else y') := by
  by_cases hp : c
  · rw [if_pos hp, if_pos (hc.1 hp)]
    exact h hp
  · rw [if_neg hp, if_neg fun hp' => hp (hc.2 hp')]
    exact h' hp

/-- Two loops over one list whose turns agree. -/
theorem Agree.foldlM {ι : Type*} {l : List ι} {f : β → ι → Except ε β} {g : γ → ι → Except ε γ} {R : β → γ → Prop}
    (hfg : ∀ i ∈ l, ∀ b c, R b c → Agree R (f b i) (g c i)) {b : β} {c : γ} (h : R b c) :
    Agree R (l.foldlM f b) (l.foldlM g c) := by
  induction l generalizing b c with
  | nil => exact .ok h
  | cons i l ih =>
    rw [List.foldlM_cons, List.foldlM_cons]
    exact Agree.bind (hfg i List.mem_cons_self b c h) fun b' c' hR => ih (fun j hj => hfg j (List.mem_cons_of_mem _ hj)) hR

/-- Both computations give results, and `R` holds of them. -/
def Both (R : β → γ → Prop) (x : Except ε β) (y : Except ε γ) : Prop := ∃ b c, x = .ok b ∧ y = .ok c ∧ R b c

theorem Both.pure {R : β → γ → Prop} {b : β} {c : γ} (h : R b c) : Both R (.ok b : Except ε β) (.ok c) := ⟨b, c, rfl, rfl, h⟩

theorem Both.mono {R S : β → γ → Prop} {x : Except ε β} {y : Except ε γ} (h : Both R x y) (hRS : ∀ b c, R b c → S b c) :
    Both S x y := by
  obtain ⟨b, c, hx, hy, hR⟩ := h
  exact ⟨b, c, hx, hy, hRS b c hR⟩

/-- Two computations known to give results, and then others. -/
theorem Both.bind_ok {β' γ' : Type u} {S : β' → γ' → Prop} {x : Except ε β} {y : Except ε γ} {f : β → Except ε β'}
    {g : γ → Except ε γ'} {b : β} {c : γ} (hx : x = .ok b) (hy : y = .ok c) (h : Both S (f b) (g c)) :
    Both S (x >>= f) (y >>= g) := by
  subst hx hy
  exact h

/-- One computation and then another, on both sides. -/
theorem Both.bind {β' γ' : Type u} {R : β → γ → Prop} {S : β' → γ' → Prop} {x : Except ε β} {y : Except ε γ}
    {f : β → Except ε β'} {g : γ → Except ε γ'} (h : Both R x y) (hfg : ∀ b c, R b c → Both S (f b) (g c)) :
    Both S (x >>= f) (y >>= g) := by
  obtain ⟨b, c, rfl, rfl, hR⟩ := h
  exact hfg b c hR

end Refinement
