import Mathlib.Algebra.Order.Ring.Nat
import Mathlib.Tactic.Common

/-!
# Big-endian words and fixed-length byte arrays

The byte-level arithmetic under every network format: a 32-bit or 64-bit word
is written most significant byte first, and an array of a fixed length is
written as it stands.  Reading is the partial inverse, on any list that starts
with enough bytes.

## Main definitions

* `be32`, `be64` — the bytes of a word.
* `takeWord32`, `takeWord64`, `takeVec` — read a word or an array off the front
  of a list, and return the rest.

## Main results

* `takeWord32_be32`, `takeWord64_be64`, `takeVec_toList` — reading back what
  was written.
* `takeWord32_eq_some_iff`, `takeWord64_eq_some_iff`, `takeVec_eq_some_iff` — what was read
  is what stood there.
-/

namespace BigEndian

/-! ### Words -/

/-- The four bytes of a 32-bit word. -/
def be32 (x : UInt32) : List UInt8 :=
  [.ofNat (x.toNat / 2 ^ 24), .ofNat (x.toNat / 2 ^ 16), .ofNat (x.toNat / 2 ^ 8), .ofNat x.toNat]

/-- The eight bytes of a 64-bit word: its high half, then its low half. -/
def be64 (x : UInt64) : List UInt8 :=
  be32 (.ofNat (x.toNat / 2 ^ 32)) ++ be32 (.ofNat x.toNat)

/-- Read a 32-bit word off the front of a list. -/
def takeWord32 : List UInt8 → Option (UInt32 × List UInt8)
  | a :: b :: c :: d :: rest =>
      some (.ofNat (((a.toNat * 256 + b.toNat) * 256 + c.toNat) * 256 + d.toNat), rest)
  | _ => none

/-- Read a 64-bit word off the front of a list. -/
def takeWord64 (bs : List UInt8) : Option (UInt64 × List UInt8) :=
  match takeWord32 bs with
  | none => none
  | some (hi, bs) =>
      match takeWord32 bs with
      | none => none
      | some (lo, bs) => some (.ofNat (hi.toNat * 2 ^ 32 + lo.toNat), bs)

theorem eq_append_of_takeWord32 {bs rest : List UInt8} {x : UInt32}
    (h : takeWord32 bs = some (x, rest)) : ∃ word, word.length = 4 ∧ bs = word ++ rest := by
  match bs, h with
  | a :: b :: c :: d :: _, rfl => exact ⟨[a, b, c, d], rfl, rfl⟩

@[simp] theorem length_be32 (x : UInt32) : (be32 x).length = 4 := rfl

@[simp] theorem length_be64 (x : UInt64) : (be64 x).length = 8 := rfl

/-- **Reading back a 32-bit word.** -/
@[simp] theorem takeWord32_be32 (x : UInt32) (rest : List UInt8) :
    takeWord32 (be32 x ++ rest) = some (x, rest) := by
  have hx := x.toNat_lt
  simp only [be32, List.cons_append, List.nil_append, takeWord32, Option.some.injEq,
    Prod.mk.injEq, and_true]
  apply UInt32.toNat_inj.mp
  simp only [UInt32.toNat_ofNat', UInt8.toNat_ofNat']
  omega

/-- **Reading back a 64-bit word.** -/
@[simp] theorem takeWord64_be64 (x : UInt64) (rest : List UInt8) :
    takeWord64 (be64 x ++ rest) = some (x, rest) := by
  have hx := x.toNat_lt
  simp only [be64, List.append_assoc, takeWord64, takeWord32_be32, Option.some.injEq,
    Prod.mk.injEq, and_true]
  apply UInt64.toNat_inj.mp
  simp only [UInt64.toNat_ofNat', UInt32.toNat_ofNat']
  omega

/-- Four bytes are the bytes of the word they spell. -/
theorem be32_ofNat_bytes (a b c d : UInt8) :
    be32 (.ofNat (((a.toNat * 256 + b.toNat) * 256 + c.toNat) * 256 + d.toNat)) = [a, b, c, d] := by
  have ha := a.toNat_lt
  have hb := b.toNat_lt
  have hc := c.toNat_lt
  have hd := d.toNat_lt
  simp only [be32, UInt32.toNat_ofNat', List.cons.injEq, and_true]
  refine ⟨?_, ?_, ?_, ?_⟩ <;>
    (apply UInt8.toNat_inj.mp; rw [UInt8.toNat_ofNat']; omega)

/-- A word was read off the front of a list iff its bytes stand there. -/
theorem takeWord32_eq_some_iff {bs rest : List UInt8} {x : UInt32} :
    takeWord32 bs = some (x, rest) ↔ bs = be32 x ++ rest := by
  constructor
  · intro h
    match bs, h with
    | a :: b :: c :: d :: _, rfl =>
      rw [be32_ofNat_bytes]
      rfl
  · rintro rfl
    exact takeWord32_be32 x rest

theorem takeWord64_eq_some_iff {bs rest : List UInt8} {x : UInt64} :
    takeWord64 bs = some (x, rest) ↔ bs = be64 x ++ rest := by
  constructor
  · intro h
    unfold takeWord64 at h
    split at h
    · cases h
    · next hi left hhi =>
      split at h
      · cases h
      · next lo left' hlo =>
        cases h
        rw [takeWord32_eq_some_iff] at hhi hlo
        have hhi_lt := hi.toNat_lt
        have hlo_lt := lo.toNat_lt
        have hword : (UInt64.ofNat (hi.toNat * 2 ^ 32 + lo.toNat)).toNat
            = hi.toNat * 2 ^ 32 + lo.toNat := by
          rw [UInt64.toNat_ofNat']
          omega
        have hhigh : UInt32.ofNat ((hi.toNat * 2 ^ 32 + lo.toNat) / 2 ^ 32) = hi := by
          apply UInt32.toNat_inj.mp
          rw [UInt32.toNat_ofNat']
          omega
        have hlow : UInt32.ofNat (hi.toNat * 2 ^ 32 + lo.toNat) = lo := by
          apply UInt32.toNat_inj.mp
          rw [UInt32.toNat_ofNat']
          omega
        rw [be64, hword, hhigh, hlow, hhi, hlo, List.append_assoc]
  · rintro rfl
    exact takeWord64_be64 x rest

/-! ### Fixed-length arrays -/

/-- Read `n` bytes off the front of a list. -/
def takeVec (n : ℕ) (bs : List UInt8) : Option (Vector UInt8 n × List UInt8) :=
  if h : n ≤ bs.length then
    some (⟨(bs.take n).toArray, by simp [h]⟩, bs.drop n)
  else none

/-- **Reading back an array.** -/
@[simp] theorem takeVec_toList {n : ℕ} (v : Vector UInt8 n) (rest : List UInt8) :
    takeVec n (v.toList ++ rest) = some (v, rest) := by
  have hlen : v.toList.length = n := by simp
  have hn : n ≤ (v.toList ++ rest).length := by simp
  rw [takeVec, dif_pos hn]
  have htake : (v.toList ++ rest).take n = v.toList := List.take_left' hlen
  have hdrop : (v.toList ++ rest).drop n = rest := List.drop_left' hlen
  simp only [hdrop, Option.some.injEq, Prod.mk.injEq, and_true]
  apply Vector.toArray_inj.mp
  simp only [htake]
  rfl

theorem takeVec_eq_some_iff {n : ℕ} {bs rest : List UInt8} {v : Vector UInt8 n} :
    takeVec n bs = some (v, rest) ↔ bs = v.toList ++ rest := by
  constructor
  · intro h
    unfold takeVec at h
    split at h
    · cases h
      exact (List.take_append_drop n bs).symm
    · cases h
  · rintro rfl
    exact takeVec_toList v rest

end BigEndian
