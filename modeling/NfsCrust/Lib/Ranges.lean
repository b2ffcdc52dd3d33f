import Mathlib.Algebra.Order.Ring.Nat
import Mathlib.Algebra.BigOperators.Group.List.Basic
import Mathlib.Algebra.BigOperators.Ring.Finset
import Mathlib.Algebra.Order.BigOperators.Group.List
import Mathlib.Algebra.Order.Group.Nat
import Mathlib.Order.Interval.Finset.Nat
import Mathlib.Tactic.Common

/-!
# Counting how often ranges cover a position

A range is an offset and a length.  `hits l i` counts the ranges of `l` that contain
position `i`.  That ranges do not overlap is `hits l i ≤ 1` for every `i`, and that
they cover an interval is `1 ≤ hits l i` on it; both are kept by moving a range from
one list to another, and by cutting it in two.

## Main definitions

* `Ranges.cover`, `Ranges.hits` — whether a range contains a position, and how many
  ranges of a list do.
* `Ranges.Chain` — ranges that follow one another.

## Main results

* `Ranges.hits_append`, `Ranges.hits_perm` — counting is indifferent to order.
* `Ranges.cover_split` — a range cut in two.
* `Ranges.subset_of_cover_le`, `Ranges.apart_of_cover_add_le` — what the counts say
  about where ranges lie.
* `Ranges.sum_length_eq` — ranges that cover an interval once have its length in total.
* `Ranges.Chain.hits_eq` — ranges that follow one another cover each position once.
-/

namespace Ranges

/-- One if the range contains the position, else zero. -/
def cover (r : ℕ × ℕ) (i : ℕ) : ℕ := if r.1 ≤ i ∧ i < r.1 + r.2 then 1 else 0

/-- How many ranges contain the position. -/
def hits (l : List (ℕ × ℕ)) (i : ℕ) : ℕ := (l.map (cover · i)).sum

theorem cover_eq_one {r : ℕ × ℕ} {i : ℕ} (h₁ : r.1 ≤ i) (h₂ : i < r.1 + r.2) : cover r i = 1 :=
  if_pos ⟨h₁, h₂⟩

theorem cover_eq_zero {r : ℕ × ℕ} {i : ℕ} (h : i < r.1 ∨ r.1 + r.2 ≤ i) : cover r i = 0 :=
  if_neg (by omega)

theorem cover_split (offset m n i : ℕ) :
    cover (offset, m + n) i = cover (offset, m) i + cover (offset + m, n) i := by
  simp only [cover]
  split_ifs <;> omega

/-- A shorter range covers less. -/
theorem cover_mono {offset m n : ℕ} (h : m ≤ n) (i : ℕ) :
    cover (offset, m) i ≤ cover (offset, n) i := by
  simp only [cover]
  split_ifs <;> omega

theorem cover_le_one (r : ℕ × ℕ) (i : ℕ) : cover r i ≤ 1 := by
  unfold cover
  split <;> omega

/-- A range that covers no more than another lies in it. -/
theorem subset_of_cover_le {r q : ℕ × ℕ} (hr : 0 < r.2) (h : ∀ i, cover r i ≤ cover q i) :
    q.1 ≤ r.1 ∧ r.1 + r.2 ≤ q.1 + q.2 := by
  have hmem : ∀ i, r.1 ≤ i → i < r.1 + r.2 → q.1 ≤ i ∧ i < q.1 + q.2 := by
    intro i h₁ h₂
    by_contra hnot
    have hle := h i
    rw [cover_eq_one h₁ h₂, cover, if_neg hnot] at hle
    omega
  have hfirst := hmem r.1 (Nat.le_refl _) (by omega)
  have hlast := hmem (r.1 + r.2 - 1) (by omega) (by omega)
  omega

/-- Two ranges that cover no position twice lie apart. -/
theorem apart_of_cover_add_le {p r : ℕ × ℕ} (hp : 0 < p.2) (hr : 0 < r.2)
    (h : ∀ i, cover p i + cover r i ≤ 1) : p.1 + p.2 ≤ r.1 ∨ r.1 + r.2 ≤ p.1 := by
  by_contra hnot
  have hboth := h (max p.1 r.1)
  rw [cover_eq_one (by omega) (by omega), cover_eq_one (by omega) (by omega)] at hboth
  omega

@[simp] theorem hits_nil (i : ℕ) : hits [] i = 0 := rfl

@[simp] theorem hits_cons (r : ℕ × ℕ) (l : List (ℕ × ℕ)) (i : ℕ) :
    hits (r :: l) i = cover r i + hits l i := by
  simp [hits]

@[simp] theorem hits_append (l l' : List (ℕ × ℕ)) (i : ℕ) :
    hits (l ++ l') i = hits l i + hits l' i := by
  simp [hits]

theorem hits_perm {l l' : List (ℕ × ℕ)} (h : l.Perm l') (i : ℕ) : hits l i = hits l' i :=
  (h.map (cover · i)).sum_eq

theorem cover_le_hits {r : ℕ × ℕ} {l : List (ℕ × ℕ)} (h : r ∈ l) (i : ℕ) :
    cover r i ≤ hits l i := by
  obtain ⟨l₁, l₂, rfl⟩ := List.append_of_mem h
  rw [hits_append, hits_cons]
  omega

theorem exists_of_hits_pos {l : List (ℕ × ℕ)} {i : ℕ} (h : 1 ≤ hits l i) :
    ∃ r ∈ l, r.1 ≤ i ∧ i < r.1 + r.2 := by
  by_contra hnone
  have hzero : hits l i = 0 := by
    refine List.sum_eq_zero fun n hn => ?_
    obtain ⟨r, hr, rfl⟩ := List.mem_map.mp hn
    exact if_neg fun hmem => hnone ⟨r, hr, hmem⟩
  omega

/-! ### Lengths -/

theorem sum_cover {r : ℕ × ℕ} {n : ℕ} (h : r.1 + r.2 ≤ n) :
    ∑ i ∈ Finset.range n, cover r i = r.2 := by
  have hfilter : {i ∈ Finset.range n | r.1 ≤ i ∧ i < r.1 + r.2} = Finset.Ico r.1 (r.1 + r.2) := by
    ext i
    simp only [Finset.mem_filter, Finset.mem_range, Finset.mem_Ico]
    omega
  simp only [cover]
  rw [Finset.sum_boole, hfilter, Nat.card_Ico, Nat.add_sub_cancel_left, Nat.cast_id]

/-- The positions of some ranges, counted in two ways. -/
theorem sum_hits {l : List (ℕ × ℕ)} {n : ℕ} (h : ∀ r ∈ l, r.1 + r.2 ≤ n) :
    ∑ i ∈ Finset.range n, hits l i = (l.map (·.2)).sum := by
  induction l with
  | nil => simp
  | cons r l ih =>
    simp only [hits_cons, List.map_cons, List.sum_cons]
    rw [Finset.sum_add_distrib, sum_cover (h r List.mem_cons_self),
      ih fun r' hr' => h r' (List.mem_cons_of_mem r hr')]

/-- Ranges that cover an interval exactly once have its length in total. -/
theorem sum_length_eq {l : List (ℕ × ℕ)} {n : ℕ} (h : ∀ i, hits l i = cover (0, n) i) :
    (l.map (·.2)).sum = n := by
  obtain ⟨top, hn, htop⟩ : ∃ top, 0 + n ≤ top ∧ ∀ r ∈ l, r.1 + r.2 ≤ top := by
    refine ⟨n + (l.map fun r => r.1 + r.2).sum, by omega, fun r hr => ?_⟩
    have hle := List.le_sum_of_mem (List.mem_map_of_mem (f := fun r : ℕ × ℕ => r.1 + r.2) hr)
    exact Nat.le_trans hle (Nat.le_add_left _ _)
  rw [← sum_hits htop, Finset.sum_congr rfl fun i _ => h i]
  exact sum_cover (r := (0, n)) hn

/-! ### Ranges in a row -/

/-- Ranges that follow one another from `a` to `b`. -/
def Chain : ℕ → List (ℕ × ℕ) → ℕ → Prop
  | a, [], b => a = b
  | a, r :: rs, b => r.1 = a ∧ Chain (a + r.2) rs b

theorem Chain.append {a b c : ℕ} {l l' : List (ℕ × ℕ)} (h : Chain a l b) (h' : Chain b l' c) :
    Chain a (l ++ l') c := by
  induction l generalizing a with
  | nil =>
    cases h
    exact h'
  | cons r l ih => exact ⟨h.1, ih h.2⟩

theorem Chain.le {a b : ℕ} {l : List (ℕ × ℕ)} (h : Chain a l b) : a ≤ b := by
  induction l generalizing a with
  | nil => exact Nat.le_of_eq h
  | cons r l ih => exact Nat.le_trans (Nat.le_add_right a r.2) (ih h.2)

/-- Between its ends a chain covers every position once. -/
theorem Chain.hits_eq {a b : ℕ} {l : List (ℕ × ℕ)} (h : Chain a l b) (i : ℕ) :
    hits l i = cover (a, b - a) i := by
  induction l generalizing a with
  | nil =>
    cases h
    simp [cover]
  | cons r l ih =>
    obtain ⟨rfl, h⟩ := h
    have hle := h.le
    rw [hits_cons, ih h, show b - r.1 = r.2 + (b - (r.1 + r.2)) by omega, cover_split]

/-- Nonempty ranges of a chain begin one after the other. -/
theorem Chain.pairwise {a b : ℕ} {l : List (ℕ × ℕ)} (h : Chain a l b) (hpos : ∀ r ∈ l, 0 < r.2) :
    l.Pairwise fun r r' => r.1 < r'.1 := by
  have hbelow : ∀ {l : List (ℕ × ℕ)} {a b : ℕ}, Chain a l b → ∀ r ∈ l, a ≤ r.1 := by
    intro l
    induction l with
    | nil => exact fun _ => nofun
    | cons r l ih =>
      intro a b h r' hr'
      rcases List.mem_cons.mp hr' with rfl | hr'
      · exact Nat.le_of_eq h.1.symm
      · exact Nat.le_trans (Nat.le_add_right a r.2) (ih h.2 r' hr')
  induction l generalizing a with
  | nil => exact .nil
  | cons r l ih =>
    refine .cons ?_ (ih h.2 fun r' hr' => hpos r' (List.mem_cons_of_mem r hr'))
    intro r' hr'
    have hle := hbelow h.2 r' hr'
    have hr := hpos r List.mem_cons_self
    have hfirst := h.1
    omega

end Ranges
