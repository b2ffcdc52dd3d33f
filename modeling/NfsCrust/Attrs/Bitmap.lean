import NfsCrust.Codec
import NfsCrust.Lib.Bits

/-!
# Attribute bitmaps

The iterator `BitmapAttrs` of `src/nfs4/ops.rs`, one `next` at a time: it takes the lowest
set bit of the current word and clears it, and goes on to the next word when none is left.
Attribute values have no numbers on the wire, so the order and the exactness of the iterator
decide which bytes are read as which attribute.

## Main definitions

* `BitmapAttrs`, `BitmapAttrs.next`, `Bitmap.iter` — the iterator.
* `BitmapAttrs.Yields` — the items of an iterator until it ends.
* `SetAttrs.attributes` — the attributes of a `SetAttrs` with their encoded values.

## Main results

* `yields_attrs` — the iterator ends, and yields what `Bitmap.attrs` lists.
* `bitmapAttrs_exact` — it yields the numbers of the set bits, in increasing order, and for
  the words of `SetAttrs` the attributes whose values follow.
-/

namespace NfsCrust

open Bits

/-! ### The iterator -/

structure BitmapAttrs where
  words : List UInt32
  wordIndex : ℕ
  currentWord : UInt32
  currentWordIndex : UInt32

def Bitmap.iter (bitmap : Bitmap) : BitmapAttrs := ⟨bitmap.words, 0, 0, 0⟩

namespace BitmapAttrs

/-- The next attribute number, or the panic of its computation. -/
def next (it : BitmapAttrs) : Option (Except Error UInt32 × BitmapAttrs) :=
  if it.currentWord ≠ 0 then
    let bit := trailingZeros it.currentWord
    some (Bitmap.attrNumber it.currentWordIndex bit,
      { it with currentWord := it.currentWord &&& (it.currentWord - 1) })
  else
    match _h : it.words[it.wordIndex]? with
    | none => none
    | some word => next { it with
        currentWord := word
        currentWordIndex := .ofNat it.wordIndex
        wordIndex := it.wordIndex + 1 }
termination_by it.words.length - it.wordIndex
decreasing_by
  have hlt := (List.getElem?_eq_some_iff.mp _h).1
  omega

/-- The items of the iterator until it ends. -/
inductive Yields : BitmapAttrs → List (Except Error UInt32) → Prop
  | done {it : BitmapAttrs} : it.next = none → Yields it []
  | item {it it' : BitmapAttrs} {a : Except Error UInt32} {as : List (Except Error UInt32)} :
      it.next = some (a, it') → Yields it' as → Yields it (a :: as)

theorem next_of_ne_zero {it : BitmapAttrs} (h : it.currentWord ≠ 0) :
    it.next = some (Bitmap.attrNumber it.currentWordIndex (trailingZeros it.currentWord),
      { it with currentWord := it.currentWord &&& (it.currentWord - 1) }) := by
  rw [next, if_pos h]

theorem next_of_none {it : BitmapAttrs} (h : it.currentWord = 0)
    (hword : it.words[it.wordIndex]? = none) : it.next = none := by
  rw [next, if_neg (not_not_intro h)]
  split
  · rfl
  · next word hsome =>
    rw [hword] at hsome
    cases hsome

theorem next_of_some {it : BitmapAttrs} {word : UInt32} (h : it.currentWord = 0)
    (hword : it.words[it.wordIndex]? = some word) :
    it.next = BitmapAttrs.next ⟨it.words, it.wordIndex + 1, word, .ofNat it.wordIndex⟩ := by
  rw [next, if_neg (not_not_intro h)]
  split
  · next hnone =>
    rw [hword] at hnone
    cases hnone
  · next word' hsome =>
    rw [hword] at hsome
    cases hsome
    rfl

/-- Loading a word is not seen from outside. -/
theorem yields_of_next_eq {it it' : BitmapAttrs} {as : List (Except Error UInt32)}
    (h : it.next = it'.next) (hit : it'.Yields as) : it.Yields as := by
  cases hit with
  | done hnone => exact .done (h.trans hnone)
  | item hsome htail => exact .item (h.trans hsome) htail

end BitmapAttrs

/-! ### The bits of a word -/

theorem find?_eq_some_trailingZeros {word : UInt32} (h : word ≠ 0) :
    (List.range 32).find? word.toNat.testBit = some (trailingZeros word) := by
  have hne : word.toNat ≠ 0 := by
    intro h0
    exact h (UInt32.toNat_inj.mp h0)
  obtain ⟨i, hi⟩ := Nat.exists_testBit_of_ne_zero hne
  have hlt : i < 32 := by
    by_contra hge
    have hbound : word.toNat < 2 ^ i :=
      Nat.lt_of_lt_of_le word.toNat_lt (Nat.pow_le_pow_right (by decide) (by omega))
    rw [Nat.testBit_lt_two_pow hbound] at hi
    cases hi
  unfold trailingZeros
  cases hfind : (List.range 32).find? fun i => word.toNat.testBit i with
  | none => exact absurd hi (List.find?_eq_none.mp hfind i (List.mem_range.mpr hlt))
  | some j => rfl

theorem toNat_and_pred {word : UInt32} (h : word ≠ 0) :
    (word &&& (word - 1)).toNat = word.toNat &&& (word.toNat - 1) := by
  have hpos : 1 ≤ word := by
    rw [UInt32.le_iff_toNat_le]
    have hne : word.toNat ≠ 0 := by
      intro h0
      exact h (UInt32.toNat_inj.mp h0)
    have hone : (1 : UInt32).toNat = 1 := rfl
    omega
  rw [UInt32.toNat_and, UInt32.toNat_sub_of_le _ _ hpos]
  rfl

/-- One turn of the loop over the bits of a word. -/
theorem setBits_word {word : UInt32} (h : word ≠ 0) :
    setBits 32 word.toNat
      = trailingZeros word :: setBits 32 (word &&& (word - 1)).toNat := by
  rw [setBits_eq_cons (find?_eq_some_trailingZeros h), toNat_and_pred h]

/-- With enough fuel the attributes of a word are the numbers of its set bits. -/
theorem wordAttrs_eq {fuel : ℕ} {word : UInt32} (wordIndex : UInt32)
    (h : (setBits 32 word.toNat).length ≤ fuel) :
    Bitmap.wordAttrs wordIndex fuel word
      = (setBits 32 word.toNat).map (Bitmap.attrNumber wordIndex) := by
  induction fuel generalizing word with
  | zero =>
    rw [List.length_eq_zero_iff.mp (Nat.le_zero.mp h)]
    rfl
  | succ fuel ih =>
    unfold Bitmap.wordAttrs
    split
    · next h0 =>
      subst h0
      rfl
    · next h0 =>
      rw [setBits_word h0] at h ⊢
      rw [List.map_cons, ih (Nat.le_of_succ_le_succ h)]

theorem wordAttrs_thirtyTwo (wordIndex word : UInt32) :
    Bitmap.wordAttrs wordIndex 32 word
      = (setBits 32 word.toNat).map (Bitmap.attrNumber wordIndex) :=
  wordAttrs_eq wordIndex (length_setBits_le 32 word.toNat)

/-! ### What the iterator yields -/

namespace BitmapAttrs

/-- The iterator in the middle of a word: the bits that are left, then the words after it. -/
theorem yields_word {words : List UInt32} {wordIndex : ℕ} {currentWordIndex : UInt32}
    {later : List (Except Error UInt32)}
    (hlater : ∀ index, BitmapAttrs.Yields ⟨words, wordIndex, 0, index⟩ later) :
    ∀ bits currentWord, setBits 32 currentWord.toNat = bits →
      BitmapAttrs.Yields ⟨words, wordIndex, currentWord, currentWordIndex⟩
        (bits.map (Bitmap.attrNumber currentWordIndex) ++ later) := by
  intro bits
  induction bits with
  | nil =>
    intro currentWord hbits
    have h0 : currentWord = 0 := by
      by_contra hne
      rw [setBits_word hne] at hbits
      cases hbits
    subst h0
    exact hlater currentWordIndex
  | cons bit bits ih =>
    intro currentWord hbits
    have hne : currentWord ≠ 0 := by
      rintro rfl
      cases hbits
    rw [setBits_word hne] at hbits
    cases hbits
    exact .item (next_of_ne_zero hne) (ih _ rfl)

/-- The iterator at the start of a word, with the words that are left. -/
theorem yields_from (words : List UInt32) (left : List UInt32) :
    ∀ wordIndex index, words.drop wordIndex = left →
      BitmapAttrs.Yields ⟨words, wordIndex, 0, index⟩
        ((left.zipIdx wordIndex).map fun (word, index) =>
          Bitmap.wordAttrs (.ofNat index) 32 word).flatten := by
  induction left with
  | nil =>
    intro wordIndex index hleft
    refine .done (next_of_none rfl ?_)
    exact List.getElem?_eq_none (List.drop_eq_nil_iff.mp hleft)
  | cons word left ih =>
    intro wordIndex index hleft
    have hword : words[wordIndex]? = some word := by
      rw [← List.head?_drop, hleft]
      rfl
    have hdrop : words.drop (wordIndex + 1) = left := by
      rw [← List.drop_drop, hleft]
      rfl
    refine yields_of_next_eq (next_of_some rfl hword) ?_
    rw [List.zipIdx_cons, List.map_cons, List.flatten_cons]
    dsimp only
    rw [wordAttrs_thirtyTwo]
    exact yields_word (fun index => ih (wordIndex + 1) index hdrop) _ _ rfl

end BitmapAttrs

/-- **The iterator ends**, with the attributes that the decoder model loops over. -/
theorem yields_attrs (bitmap : Bitmap) : bitmap.iter.Yields bitmap.attrs :=
  BitmapAttrs.yields_from bitmap.words bitmap.words 0 0 rfl

/-! ### Which numbers these are -/

/-- The numbers of the set bits of the words, the first word having index `start`. -/
def attrNumbers (words : List UInt32) (start : ℕ) : List UInt32 :=
  ((words.zipIdx start).map fun (word, index) =>
    (setBits 32 word.toNat).map fun bit => .ofNat (32 * index + bit)).flatten

theorem attrNumber_ofNat {index bit : ℕ} (hindex : index < 2 ^ 27) (hbit : bit < 32) :
    Bitmap.attrNumber (.ofNat index) bit = .ok (.ofNat (32 * index + bit)) := by
  have htoNat : (UInt32.ofNat index).toNat = index := by
    rw [UInt32.toNat_ofNat']
    omega
  rw [Bitmap.attrNumber, htoNat, if_pos (by omega)]
  congr 1
  apply UInt32.toNat_inj.mp
  rw [UInt32.toNat_add, UInt32.toNat_mul, htoNat]
  simp only [UInt32.toNat_ofNat']
  have h32 : (32 : UInt32).toNat = 32 := rfl
  rw [h32]
  omega

theorem attrs_eq_map_ok {bitmap : Bitmap} (h : bitmap.words.length < 2 ^ 27) :
    bitmap.attrs = (attrNumbers bitmap.words 0).map .ok := by
  rw [Bitmap.attrs, attrNumbers, List.map_flatten, List.map_map]
  congr 1
  apply List.map_congr_left
  rintro ⟨word, index⟩ hmem
  have hindex : index < bitmap.words.length := by
    have := List.snd_lt_of_mem_zipIdx hmem
    omega
  dsimp only [Function.comp_apply]
  rw [wordAttrs_thirtyTwo, List.map_map]
  apply List.map_congr_left
  intro bit hbit
  exact attrNumber_ofNat (by omega) (mem_setBits.mp hbit).1

theorem mem_attrNumbers {words : List UInt32} (h : words.length < 2 ^ 27) {number : UInt32} :
    number ∈ attrNumbers words 0 ↔
      ∃ index bit word, words[index]? = some word ∧ bit < 32 ∧
        word.toNat.testBit bit = true ∧ number.toNat = 32 * index + bit := by
  have hsize : ∀ {index bit : ℕ}, index < words.length → bit < 32 →
      (UInt32.ofNat (32 * index + bit)).toNat = 32 * index + bit := by
    intro index bit hindex hbit
    rw [UInt32.toNat_ofNat']
    omega
  constructor
  · intro hmem
    obtain ⟨_, hnumbers, hnumber⟩ := List.mem_flatten.mp hmem
    obtain ⟨⟨word, index⟩, hword, rfl⟩ := List.mem_map.mp hnumbers
    obtain ⟨bit, hbit, rfl⟩ := List.mem_map.mp hnumber
    rw [mem_setBits] at hbit
    rw [List.mem_zipIdx_iff_getElem?] at hword
    exact ⟨index, bit, word, hword, hbit.1, hbit.2,
      hsize (List.getElem?_eq_some_iff.mp hword).1 hbit.1⟩
  · rintro ⟨index, bit, word, hword, hbit, htest, hnumber⟩
    have hlt := (List.getElem?_eq_some_iff.mp hword).1
    refine List.mem_flatten.mpr ⟨_, List.mem_map.mpr
      ⟨(word, index), List.mem_zipIdx_iff_getElem?.mpr hword, rfl⟩, ?_⟩
    refine List.mem_map.mpr ⟨bit, mem_setBits.mpr ⟨hbit, htest⟩, ?_⟩
    apply UInt32.toNat_inj.mp
    rw [hsize hlt hbit, hnumber]

theorem le_of_mem_attrNumbers {words : List UInt32} {start : ℕ}
    (h : start + words.length < 2 ^ 27) {number : UInt32}
    (hmem : number ∈ attrNumbers words start) : 32 * start ≤ number.toNat := by
  obtain ⟨_, hnumbers, hnumber⟩ := List.mem_flatten.mp hmem
  obtain ⟨⟨word, index⟩, hword, rfl⟩ := List.mem_map.mp hnumbers
  obtain ⟨bit, hbit, rfl⟩ := List.mem_map.mp hnumber
  have hlow := List.le_snd_of_mem_zipIdx hword
  have hhigh := List.snd_lt_of_mem_zipIdx hword
  have hbit' := (mem_setBits.mp hbit).1
  rw [UInt32.toNat_ofNat']
  omega

/-- The numbers of one word come before those of the next. -/
theorem pairwise_attrNumbers (words : List UInt32) :
    ∀ start, start + words.length < 2 ^ 27 → (attrNumbers words start).Pairwise (· < ·) := by
  induction words with
  | nil =>
    intro start _
    exact .nil
  | cons word words ih =>
    intro start h
    rw [List.length_cons] at h
    have hcons : attrNumbers (word :: words) start
        = (setBits 32 word.toNat).map (fun bit => .ofNat (32 * start + bit))
          ++ attrNumbers words (start + 1) := by
      rw [attrNumbers, List.zipIdx_cons, List.map_cons, List.flatten_cons]
      rfl
    have hnat : ∀ {bit : ℕ}, bit ∈ setBits 32 word.toNat →
        (UInt32.ofNat (32 * start + bit)).toNat = 32 * start + bit := by
      intro bit hbit
      have := (mem_setBits.mp hbit).1
      rw [UInt32.toNat_ofNat']
      omega
    rw [hcons, List.pairwise_append]
    refine ⟨?_, ih (start + 1) (by omega), ?_⟩
    · rw [List.pairwise_map]
      refine (pairwise_setBits 32 word.toNat).imp_of_mem fun {a b} ha hb hab => ?_
      rw [UInt32.lt_iff_toNat_lt, hnat ha, hnat hb]
      omega
    · intro x hx y hy
      obtain ⟨bit, hbit, rfl⟩ := List.mem_map.mp hx
      have hlow := le_of_mem_attrNumbers (by omega) hy
      have := (mem_setBits.mp hbit).1
      rw [UInt32.lt_iff_toNat_lt, hnat hbit]
      omega

/-! ### The words of `SetAttrs` -/

namespace SetAttrs

/-- The bitmap `encode` writes. -/
def bitmap (a : SetAttrs) : Bitmap := ⟨(List.range a.bitmapWords).map a.bitmapWord⟩

/-- The attributes that are set, with the encoding of their values. -/
def attributes (a : SetAttrs) : List (UInt32 × Bytes) :=
  (a.size.toList.map fun size => (FATTR4_SIZE, putU64 (.ofNat size)))
    ++ a.mode.toList.map fun mode => (FATTR4_MODE, putU32 mode)

theorem encode_eq (a : SetAttrs) :
    a.encode = a.bitmap.encode ++ putU32 (.ofNat a.valuesLen)
      ++ (a.attributes.map Prod.snd).flatten := by
  have hvalues : (a.size.elim [] fun size => putU64 (.ofNat size)) ++ a.mode.elim [] putU32
      = (a.attributes.map Prod.snd).flatten := by
    obtain ⟨size, mode⟩ := a
    cases size <;> cases mode <;> simp [attributes]
  rw [encode, ← hvalues, Bitmap.encode, bitmap, List.length_map, List.length_range, List.map_map]
  simp only [List.append_assoc]
  rfl

theorem valuesLen_eq (a : SetAttrs) :
    a.valuesLen = (a.attributes.map Prod.snd).flatten.length := by
  obtain ⟨size, mode⟩ := a
  cases size <;> cases mode <;> simp [attributes, valuesLen, putU32, putU64]

theorem attrs_bitmap (a : SetAttrs) :
    a.bitmap.attrs = a.attributes.map fun attr => .ok attr.1 := by
  obtain ⟨size, mode⟩ := a
  -- the bitmap says which attributes are set, not their values
  cases size with
  | none =>
    cases mode with
    | none => rfl
    | some mode =>
      show (bitmap ⟨none, some 0⟩).attrs = [.ok FATTR4_MODE]
      decide +kernel
  | some size =>
    cases mode with
    | none =>
      show (bitmap ⟨some 0, none⟩).attrs = [.ok FATTR4_SIZE]
      decide +kernel
    | some mode =>
      show (bitmap ⟨some 0, some 0⟩).attrs = [.ok FATTR4_SIZE, .ok FATTR4_MODE]
      decide +kernel

end SetAttrs

/-- **The iterator is exact.**  For a bitmap of fewer than `2 ^ 27` words it ends after
yielding the numbers `32 * i + b` of the set bits `b` of the words `i`, in strictly
increasing order, and no others; and for the words `SetAttrs` writes it yields the attributes
whose values follow, in the order of the values, `valuesLen` being their total length. -/
theorem bitmapAttrs_exact :
    (∀ bitmap : Bitmap, bitmap.words.length < 2 ^ 27 →
      ∃ numbers : List UInt32, bitmap.iter.Yields (numbers.map .ok) ∧
        numbers.Pairwise (· < ·) ∧
        ∀ number, number ∈ numbers ↔
          ∃ index bit word, bitmap.words[index]? = some word ∧ bit < 32 ∧
            word.toNat.testBit bit = true ∧ number.toNat = 32 * index + bit) ∧
    (∀ a : SetAttrs,
      a.encode = a.bitmap.encode ++ putU32 (.ofNat a.valuesLen)
        ++ (a.attributes.map Prod.snd).flatten ∧
      a.bitmap.iter.Yields (a.attributes.map fun attr => .ok attr.1) ∧
      a.valuesLen = (a.attributes.map Prod.snd).flatten.length) := by
  constructor
  · intro bitmap h
    refine ⟨attrNumbers bitmap.words 0, ?_, pairwise_attrNumbers bitmap.words 0 (by omega), ?_⟩
    · rw [← attrs_eq_map_ok h]
      exact yields_attrs bitmap
    · intro number
      exact mem_attrNumbers h
  · intro a
    refine ⟨a.encode_eq, ?_, a.valuesLen_eq⟩
    rw [← a.attrs_bitmap]
    exact yields_attrs a.bitmap

end NfsCrust
