import Mathlib.Algebra.Order.Ring.Nat
import Mathlib.Data.Nat.Bitwise

/-!
# The set bits of a number

The loop that takes the lowest set bit of a word and clears it visits the set bits in
increasing order, each once.

## Main definitions

* `Bits.setBits w n` — the positions below `w` of the set bits of `n`, in increasing order.

## Main results

* `Bits.testBit_and_pred` — `n &&& (n - 1)` has all bits of `n` but the lowest.
* `Bits.setBits_eq_cons` — one turn of the loop.
-/

namespace Bits

/-- The positions below `w` of the set bits of `n`, in increasing order. -/
def setBits (w n : ℕ) : List ℕ := (List.range w).filter n.testBit

theorem mem_setBits {w n i : ℕ} : i ∈ setBits w n ↔ i < w ∧ n.testBit i = true := by
  simp [setBits]

theorem pairwise_setBits (w n : ℕ) : (setBits w n).Pairwise (· < ·) :=
  List.pairwise_lt_range.filter n.testBit

theorem length_setBits_le (w n : ℕ) : (setBits w n).length ≤ w := by
  have h := List.length_filter_le n.testBit (List.range w)
  rwa [List.length_range] at h

@[simp] theorem setBits_zero (w : ℕ) : setBits w 0 = [] := by
  simp [setBits]

section

variable {n t : ℕ} (ht : n.testBit t = true) (hlow : ∀ j < t, n.testBit j = false)

include ht hlow

/-- A number as its part above the lowest set bit and that bit. -/
theorem eq_add_two_pow_of_lowest : n = 2 ^ (t + 1) * (n / 2 ^ (t + 1)) + 2 ^ t := by
  have hmod : n % 2 ^ (t + 1) = 2 ^ t := by
    apply Nat.eq_of_testBit_eq
    intro j
    rw [Nat.testBit_mod_two_pow, Nat.testBit_two_pow]
    rcases Nat.lt_trichotomy j t with hj | rfl | hj
    · rw [hlow j hj, Bool.and_false]
      exact (decide_eq_false (by omega)).symm
    · simp [ht]
    · have hge : ¬ j < t + 1 := by omega
      have hne : ¬ t = j := by omega
      simp [hge, hne]
  calc n = 2 ^ (t + 1) * (n / 2 ^ (t + 1)) + n % 2 ^ (t + 1) := (Nat.div_add_mod _ _).symm
    _ = _ := by rw [hmod]

/-- Clearing the lowest set bit. -/
theorem testBit_and_pred (j : ℕ) :
    (n &&& (n - 1)).testBit j = (n.testBit j && decide (j ≠ t)) := by
  have hn := eq_add_two_pow_of_lowest ht hlow
  have hpos : 0 < 2 ^ t := Nat.two_pow_pos t
  have hpow : 2 ^ t < 2 ^ (t + 1) := Nat.pow_lt_pow_right (by decide) (Nat.lt_succ_self t)
  have hpred : n - 1 = 2 ^ (t + 1) * (n / 2 ^ (t + 1)) + (2 ^ t - 1) := by omega
  -- above the bit the two numbers agree, and below it the first has no bits
  have hbit : (n - 1).testBit j
      = if j < t + 1 then decide (j < t) else (n / 2 ^ (t + 1)).testBit (j - (t + 1)) := by
    rw [hpred, Nat.testBit_two_pow_mul_add _ (by omega), Nat.testBit_two_pow_sub_one]
  have hbit' : n.testBit j
      = if j < t + 1 then decide (t = j) else (n / 2 ^ (t + 1)).testBit (j - (t + 1)) := by
    conv_lhs => rw [hn]
    rw [Nat.testBit_two_pow_mul_add _ hpow, Nat.testBit_two_pow]
  rw [Nat.testBit_and, hbit, hbit']
  split
  · by_cases hjt : t = j
    · subst hjt
      simp
    · simp [hjt]
  · have hne : j ≠ t := by omega
    simp [hne]

end

/-- Taking the first element that passes a test leaves the others. -/
theorem filter_eq_cons_of_find? {α : Type} [DecidableEq α] {l : List α} {p : α → Bool} {a : α}
    (hl : l.Nodup) (h : l.find? p = some a) :
    l.filter p = a :: l.filter fun b => p b && decide (b ≠ a) := by
  obtain ⟨hpa, before, after, rfl, hbefore⟩ := List.find?_eq_some_iff_append.mp h
  have hnil : before.filter p = [] := by
    rw [List.filter_eq_nil_iff]
    intro b hb
    simpa using hbefore b hb
  have hnil' : before.filter (fun b => p b && decide (b ≠ a)) = [] := by
    rw [List.filter_eq_nil_iff]
    intro b hb
    have hpb := hbefore b hb
    simp_all
  have hafter : after.filter (fun b => p b && decide (b ≠ a)) = after.filter p := by
    apply List.filter_congr
    intro b hb
    have hne : b ≠ a := by
      rintro rfl
      exact (List.nodup_cons.mp (List.nodup_append.mp hl).2.1).1 hb
    simp [hne]
  simp only [List.filter_append, List.filter_cons, hnil, hnil', hafter, hpa]
  simp

/-- **One turn of the loop**: the lowest set bit, and then the bits that remain when it is
cleared. -/
theorem setBits_eq_cons {w n t : ℕ} (h : (List.range w).find? n.testBit = some t) :
    setBits w n = t :: setBits w (n &&& (n - 1)) := by
  obtain ⟨ht, before, after, hrange, hbefore⟩ := List.find?_eq_some_iff_append.mp h
  have hlow : ∀ j < t, n.testBit j = false := by
    intro j hj
    have htw : t < w := List.mem_range.mp (List.mem_of_find?_eq_some h)
    have hmem : j ∈ before ++ t :: after := by
      rw [← hrange]
      exact List.mem_range.mpr (by omega)
    have hsorted : (before ++ t :: after).Pairwise (· < ·) := hrange ▸ List.pairwise_lt_range
    rcases List.mem_append.mp hmem with hj' | hj'
    · simpa using hbefore j hj'
    · -- an element from `t` on is not below `t`
      rcases List.mem_cons.mp hj' with rfl | hj'
      · omega
      · have := (List.pairwise_cons.mp (List.pairwise_append.mp hsorted).2.1).1 j hj'
        omega
  rw [setBits, filter_eq_cons_of_find? List.nodup_range h, setBits]
  congr 1
  apply List.filter_congr
  intro j _
  exact (testBit_and_pred ht hlow j).symm

end Bits
