import NfsCrust.Lib.StateExcept

/-!
# The language of a decoder

A decoder takes tokens off the front of a list and may fail.  What it accepts is a
language: a relation between the values it returns and the words it consumes for
them.  Two decoders with the same language succeed on the same inputs, with the same
values and the same rest, whatever the order of their checks is.

## Main definitions

* `Accepts m L` — `m` succeeds exactly on the inputs that start with a word of `L`.

## Main results

* `Accepts.bind`, `accepts_pure`, `accepts_lift` — the language of each combinator.
* `Accepts.run_eq_ok_iff` — decoders of one language have the same successful runs.
-/

namespace StateExcept

variable {τ ε α β : Type}

/-- `m` succeeds exactly on the inputs that start with a word of the language; it returns
the value of the word and leaves what follows. -/
def Accepts (m : StateT (List τ) (Except ε) α) (L : α → List τ → Prop) : Prop :=
  ∀ input a rest, m.run input = .ok (a, rest) ↔ ∃ word, L a word ∧ input = word ++ rest

section

variable {m m' : StateT (List τ) (Except ε) α} {f : α → StateT (List τ) (Except ε) β}
  {L L' : α → List τ → Prop} {M : α → β → List τ → Prop}

theorem accepts_pure (a : α) :
    Accepts (pure a : StateT (List τ) (Except ε) α) fun b word => b = a ∧ word = [] := by
  intro input b rest
  constructor
  · intro h
    cases h
    exact ⟨[], ⟨rfl, rfl⟩, rfl⟩
  · rintro ⟨word, ⟨rfl, rfl⟩, rfl⟩
    rfl

theorem accepts_throw (e : ε) :
    Accepts (throw e : StateT (List τ) (Except ε) α) fun _ _ => False := by
  intro input b rest
  constructor
  · intro h
    cases h
  · rintro ⟨word, h, _⟩
    exact h.elim

theorem accepts_lift (x : Except ε α) :
    Accepts (liftM x : StateT (List τ) (Except ε) α) fun a word => x = .ok a ∧ word = [] := by
  cases x with
  | ok a =>
    intro input b rest
    constructor
    · intro h
      cases h
      exact ⟨[], ⟨rfl, rfl⟩, rfl⟩
    · rintro ⟨word, ⟨hb, rfl⟩, rfl⟩
      cases hb
      rfl
  | error e =>
    intro input b rest
    constructor
    · intro h
      cases h
    · rintro ⟨word, ⟨hb, _⟩, _⟩
      cases hb

/-- The words of a bind are the words of its first part followed by those of the second. -/
theorem Accepts.bind (hm : Accepts m L) (hf : ∀ a, Accepts (f a) (M a)) :
    Accepts (m >>= f) fun b word => ∃ a u v, L a u ∧ M a b v ∧ word = u ++ v := by
  intro input b rest
  constructor
  · intro h
    obtain ⟨a, left, ha, hb⟩ := exists_of_run_bind h
    obtain ⟨u, hu, rfl⟩ := (hm input a left).mp ha
    obtain ⟨v, hv, rfl⟩ := (hf a left b rest).mp hb
    exact ⟨u ++ v, ⟨a, u, v, hu, hv, rfl⟩, (List.append_assoc u v rest).symm⟩
  · rintro ⟨word, ⟨a, u, v, hu, hv, rfl⟩, rfl⟩
    have ha : m.run (u ++ v ++ rest) = .ok (a, v ++ rest) :=
      (hm _ a _).mpr ⟨u, hu, List.append_assoc u v rest⟩
    rw [run_bind_ok ha]
    exact (hf a _ b rest).mpr ⟨v, hv, rfl⟩

theorem Accepts.congr (hm : Accepts m L) (h : ∀ a word, L a word ↔ L' a word) :
    Accepts m L' := by
  intro input a rest
  simp only [hm input a rest, h]

/-- **Decoders of one language have the same successful runs.** -/
theorem Accepts.run_eq_ok_iff (hm : Accepts m L) (hm' : Accepts m' L) (input rest : List τ)
    (a : α) : m.run input = .ok (a, rest) ↔ m'.run input = .ok (a, rest) :=
  (hm input a rest).trans (hm' input a rest).symm

end

end StateExcept
