import Mathlib.Algebra.Order.Ring.Nat
import Mathlib.Logic.Relation

/-!
# Transition systems

A system takes a step when it is given an action: `step s a` is the next state,
or nothing when the action is not possible in `s`.  Runs may be restricted to
steps that meet a condition, so that what holds in every run and what holds in
every run of a kind are stated in the same way.

## Main definitions

* `Transition.Reaches step ok s s'` — `s'` is reached from `s` by steps that meet
  `ok`.
* `Transition.run step s actions` — the state after a list of actions.

## Main results

* `Transition.Reaches.invariant` — what every step keeps holds in every state
  that is reached.
* `Transition.reaches_of_run`, `Transition.reaches_of_guarded_run` — a run of actions
  reaches its last state.
-/

namespace Transition

variable {σ α : Type} {step : σ → α → Option σ} {ok : σ → α → Prop} {s s' : σ}

/-- One step that meets `ok`. -/
def StepsTo (step : σ → α → Option σ) (ok : σ → α → Prop) (s s' : σ) : Prop :=
  ∃ a, ok s a ∧ step s a = some s'

/-- Any number of steps that meet `ok`. -/
def Reaches (step : σ → α → Option σ) (ok : σ → α → Prop) : σ → σ → Prop :=
  Relation.ReflTransGen (StepsTo step ok)

/-- The steps of an unrestricted run. -/
def anyStep (_ : σ) (_ : α) : Prop := True

theorem Reaches.invariant {I : σ → Prop} (h : Reaches step ok s s') (hs : I s)
    (hstep : ∀ s a s', I s → ok s a → step s a = some s' → I s') : I s' := by
  induction h with
  | refl => exact hs
  | tail _ hlast ih =>
    obtain ⟨a, hok, hnext⟩ := hlast
    exact hstep _ a _ ih hok hnext

theorem Reaches.refl (step : σ → α → Option σ) (ok : σ → α → Prop) (s : σ) :
    Reaches step ok s s := Relation.ReflTransGen.refl

theorem Reaches.next {a : α} {s'' : σ} (h : Reaches step ok s s') (hok : ok s' a)
    (hstep : step s' a = some s'') : Reaches step ok s s'' :=
  Relation.ReflTransGen.tail h ⟨a, hok, hstep⟩

/-- The state after a list of actions, if they are all possible. -/
def run (step : σ → α → Option σ) (s : σ) (actions : List α) : Option σ :=
  actions.foldlM step s

theorem reaches_of_run (actions : List α) (h : run step s actions = some s') :
    Reaches step anyStep s s' := by
  induction actions generalizing s with
  | nil =>
    obtain rfl : s = s' := Option.some.inj h
    exact Relation.ReflTransGen.refl
  | cons a actions ih =>
    obtain ⟨s₁, hfirst, hrest⟩ := Option.bind_eq_some_iff.mp h
    exact Relation.ReflTransGen.head ⟨a, trivial, hfirst⟩ (ih hrest)

/-- The steps that meet `ok`. -/
def guarded (step : σ → α → Option σ) (ok : σ → α → Prop) [∀ s a, Decidable (ok s a)] (s : σ)
    (a : α) : Option σ :=
  if ok s a then step s a else none

theorem reaches_of_guarded_run [∀ s a, Decidable (ok s a)] (actions : List α)
    (h : run (guarded step ok) s actions = some s') : Reaches step ok s s' := by
  induction actions generalizing s with
  | nil =>
    obtain rfl : s = s' := Option.some.inj h
    exact Relation.ReflTransGen.refl
  | cons a actions ih =>
    obtain ⟨s₁, hfirst, hrest⟩ := Option.bind_eq_some_iff.mp h
    unfold guarded at hfirst
    split at hfirst
    · next hok => exact Relation.ReflTransGen.head ⟨a, hok, hfirst⟩ (ih hrest)
    · cases hfirst

end Transition
