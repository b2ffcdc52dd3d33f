import Mathlib.Algebra.Order.Ring.Nat
import Mathlib.Data.List.Basic

/-!
# Obligations

Some events raise an obligation and some clear it.  An obligation is owed at the end of a
list of events when no event after the one that raised it clears it.

## Main definitions

* `Ledger`, `Ledger.Owed` — obligations, and which of them are open.

## Main results

* `Ledger.owed_append` — what is owed after more events.
-/

/-- The events that raise an obligation, and those that clear it. -/
structure Ledger (X K : Type) where
  raises : X → K → Prop
  clears : X → K → Prop

namespace Ledger

variable {X K : Type} (L : Ledger X K) {es fs : List X} {k : K}

/-- The obligation was raised and not cleared since. -/
def Owed (es : List X) (k : K) : Prop :=
  ∃ before x after, es = before ++ x :: after ∧ L.raises x k ∧ ∀ y ∈ after, ¬ L.clears y k

variable {L}

theorem Owed.raised (h : L.Owed es k) : ∃ x ∈ es, L.raises x k := by
  obtain ⟨before, x, after, rfl, hraises, -⟩ := h
  exact ⟨x, by simp, hraises⟩

@[simp] theorem not_owed_nil : ¬ L.Owed [] k := fun h => by
  obtain ⟨x, hx, -⟩ := h.raised
  cases hx

/-- What was raised and never cleared is owed. -/
theorem owed_of_mem {x : X} (hx : x ∈ es) (hraises : L.raises x k)
    (hclears : ∀ y ∈ es, ¬ L.clears y k) : L.Owed es k := by
  obtain ⟨before, after, rfl⟩ := List.append_of_mem hx
  exact ⟨before, x, after, rfl, hraises, fun y hy =>
    hclears y (List.mem_append_right _ (List.mem_cons_of_mem _ hy))⟩

/-- What is owed after more events was owed before and is not cleared by them, or is owed
because of them. -/
theorem owed_append (h : L.Owed (es ++ fs) k) :
    (L.Owed es k ∧ ∀ y ∈ fs, ¬ L.clears y k) ∨ L.Owed fs k := by
  obtain ⟨before, x, after, heq, hraises, hclears⟩ := h
  rcases List.append_eq_append_iff.mp heq with ⟨mid, rfl, hfs⟩ | ⟨mid, hes, hafter⟩
  · exact Or.inr ⟨mid, x, after, hfs, hraises, hclears⟩
  · cases mid with
    | nil =>
      rw [List.nil_append] at hafter
      exact Or.inr ⟨[], x, after, hafter.symm, hraises, hclears⟩
    | cons y mid =>
      rw [List.cons_append, List.cons.injEq] at hafter
      obtain ⟨rfl, rfl⟩ := hafter
      refine Or.inl ⟨⟨before, x, mid, hes, hraises, fun y hy => ?_⟩, fun y hy => ?_⟩
      · exact hclears y (List.mem_append_left _ hy)
      · exact hclears y (List.mem_append_right _ hy)

end Ledger
