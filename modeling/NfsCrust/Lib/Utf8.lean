import Mathlib.Algebra.Order.Ring.Nat
import Mathlib.Tactic.Common

/-!
# The bytes of a string

A string is its UTF-8 encoding: the encodings of its characters one after the other.  A
character below 128 is one byte, that of its code; every byte of any other character is
128 or more.  So looking for an ASCII byte never looks inside a character.

## Main results

* `Utf8.toList_toUTF8` — the bytes of a string, character by character.
* `Utf8.fromUTF8?_eq_some_iff` — decoding is the inverse of encoding.
* `Utf8.encode_ascii`, `Utf8.mem_encode_ascii`, `Utf8.head_encode` — the bytes of one
  character.
-/

namespace Utf8

/-! ### Byte arrays as lists -/

theorem toList_loop (bs : ByteArray) (i : ℕ) (acc : List UInt8) :
    ByteArray.toList.loop bs i acc = acc.reverse ++ bs.data.toList.drop i := by
  fun_induction ByteArray.toList.loop bs i acc with
  | case1 i acc hlt ih =>
    have hi : i < bs.data.toList.length := by simpa using hlt
    have hget : bs.get! i = bs.data.toList[i] := by
      change bs.data[i]! = _
      rw [getElem!_pos bs.data i (by simpa using hi)]
      rfl
    rw [ih, hget, List.reverse_cons, List.append_assoc, List.drop_eq_getElem_cons hi]
    rfl
  | case2 i acc hge =>
    have hi : bs.data.toList.length ≤ i := by
      have hsize : bs.data.toList.length = bs.size := rfl
      omega
    rw [List.drop_eq_nil_of_le hi, List.append_nil]

theorem toList_eq_data (bs : ByteArray) : bs.toList = bs.data.toList := by
  rw [ByteArray.toList, toList_loop]
  rfl

/-! ### Strings -/

/-- **The bytes of a string** are those of its characters. -/
theorem toList_toUTF8 (s : String) : s.toUTF8.toList = s.toList.flatMap String.utf8EncodeChar := by
  have hs : s.toUTF8 = s.toList.utf8Encode := by
    rw [String.toUTF8_eq_toByteArray, ← String.toByteArray_ofList, String.ofList_toList]
  rw [hs, toList_eq_data, List.utf8Encode]
  simp

theorem fromUTF8?_eq_some_iff {bs : List UInt8} {s : String} :
    String.fromUTF8? ⟨bs.toArray⟩ = some s ↔ s.toUTF8.toList = bs := by
  unfold String.fromUTF8?
  constructor
  · intro h
    split at h
    · cases h
      rw [toList_eq_data]
      rfl
    · cases h
  · rintro rfl
    have harray : (⟨s.toUTF8.toList.toArray⟩ : ByteArray) = s.toUTF8 := by
      apply ByteArray.ext
      rw [toList_eq_data]
    rw [harray, String.toUTF8_eq_toByteArray, dif_pos s.isValidUTF8]
    rfl

/-! ### Characters -/

theorem encode_ascii {c : Char} (h : c.val.toNat < 128) :
    String.utf8EncodeChar c = [.ofNat c.val.toNat] := by
  unfold String.utf8EncodeChar
  exact if_pos (by omega)

/-- A character that is not ASCII has no ASCII byte. -/
theorem le_of_mem_encode {c : Char} (h : 128 ≤ c.val.toNat) {b : UInt8}
    (hb : b ∈ String.utf8EncodeChar c) : 128 ≤ b.toNat := by
  unfold String.utf8EncodeChar at hb
  dsimp only at hb
  rw [if_neg (by omega)] at hb
  split at hb
  · simp only [List.mem_cons, List.not_mem_nil, or_false] at hb
    obtain rfl | rfl := hb <;> rw [UInt8.toNat_ofNat'] <;> omega
  · split at hb
    · simp only [List.mem_cons, List.not_mem_nil, or_false] at hb
      obtain rfl | rfl | rfl := hb <;> rw [UInt8.toNat_ofNat'] <;> omega
    · simp only [List.mem_cons, List.not_mem_nil, or_false] at hb
      obtain rfl | rfl | rfl | rfl := hb <;> rw [UInt8.toNat_ofNat'] <;> omega

/-- An ASCII byte occurs in the encoding of its own character only. -/
theorem mem_encode_ascii {c : Char} {b : UInt8} (hb : b.toNat < 128) :
    b ∈ String.utf8EncodeChar c ↔ c.val.toNat = b.toNat := by
  constructor
  · intro hmem
    by_cases hc : c.val.toNat < 128
    · rw [encode_ascii hc, List.mem_singleton] at hmem
      rw [hmem, UInt8.toNat_ofNat']
      omega
    · have hge := le_of_mem_encode (by omega) hmem
      omega
  · intro hc
    rw [encode_ascii (by omega), List.mem_singleton, hc, UInt8.ofNat_toNat]

/-- The first byte of a character is not one that continues a character. -/
theorem head_encode (c : Char) :
    ∃ b bs, String.utf8EncodeChar c = b :: bs ∧ (b.toNat < 128 ∨ 192 ≤ b.toNat) := by
  unfold String.utf8EncodeChar
  dsimp only
  split
  · refine ⟨_, _, rfl, ?_⟩
    rw [UInt8.toNat_ofNat']
    omega
  · split
    · refine ⟨_, _, rfl, ?_⟩
      rw [UInt8.toNat_ofNat']
      omega
    · split
      · refine ⟨_, _, rfl, ?_⟩
        rw [UInt8.toNat_ofNat']
        omega
      · refine ⟨_, _, rfl, ?_⟩
        rw [UInt8.toNat_ofNat']
        omega

end Utf8
