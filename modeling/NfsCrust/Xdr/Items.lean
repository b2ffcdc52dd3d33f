import NfsCrust.Xdr.Language
import NfsCrust.Lib.Utf8
import Mathlib.Data.List.Forall2

/-!
# Sequences of XDR items

What is written with the encoder is read back by the matching reads, and what such reads
accept is what the encoder writes for the values they return, except that the decoder does
not look at the padding bytes.  An opaque value may also be skipped, or read in place and
finished; the decoder is then where reading it would have left it.

## Main definitions

* `Item`, `Item.encode` — a value and the encoder call that writes it.
* `Shape`, `Shape.read`, `readItems` — the read that matches an item, and a sequence of them.
* `Item.SameUpToPadding` — the encoding of an item, with any padding bytes.

## Main results

* `accepts_readItems` — the language of a sequence of reads.
* `xdr_round_trip` — reading is the inverse of writing, and all ways of passing an
  opaque value end at the same place.
-/

namespace NfsCrust

open BigEndian StateExcept

/-! ### Items and reads -/

/-- A value with the encoder call that writes it. -/
inductive Item
  | u32 (value : UInt32)
  | u64 (value : UInt64)
  | bool (value : Bool)
  | bytes (value : Bytes)
  | opaqueValue (value : Bytes)
  | string (value : String)
  deriving DecidableEq

/-- The reads, with the length of fixed bytes. -/
inductive Shape
  | u32
  | u64
  | bool
  | bytes (n : ℕ)
  | opaqueValue
  | string
  deriving DecidableEq

namespace Item

def encode : Item → Bytes
  | u32 value => putU32 value
  | u64 value => putU64 value
  | bool value => putBool value
  | bytes value => value
  | opaqueValue value => putOpaque value
  | string value => putString value

/-- The read that matches the item. -/
def shape : Item → Shape
  | u32 _ => .u32
  | u64 _ => .u64
  | bool _ => .bool
  | bytes value => .bytes value.length
  | opaqueValue _ => .opaqueValue
  | string _ => .string

/-- The length of the value fits the length word. -/
def Fits : Item → Prop
  | opaqueValue value => value.length < 2 ^ 32
  | string value => (utf8 value).length < 2 ^ 32
  | _ => True

/-- How many bytes of the encoding are padding; they come last. -/
def paddingLen : Item → ℕ
  | opaqueValue value => xdrPadding value.length
  | string value => xdrPadding (utf8 value).length
  | _ => 0

/-- The bytes are the encoding of the item up to the values of its padding bytes. -/
def SameUpToPadding (item : Item) (word : Bytes) : Prop :=
  word.length = item.encode.length ∧
    word.take (item.encode.length - item.paddingLen)
      = item.encode.take (item.encode.length - item.paddingLen)

end Item

/-- `read_string`. -/
def readString : XdrM String := do
  match ← readStringUnless fun _ => false with
  | some string => return string
  | none => throw (.xdr "string was unexpectedly skipped")

def Shape.read : Shape → XdrM Item
  | u32 => return .u32 (← readU32)
  | u64 => return .u64 (← readU64)
  | bool => return .bool (← readBool)
  | bytes n => return .bytes (← readBytes n).toList
  | opaqueValue => return .opaqueValue (← readOpaque)
  | string => return .string (← readString)

def encodeItems (items : List Item) : Bytes := (items.map Item.encode).flatten

def readItems : List Shape → XdrM (List Item)
  | [] => return []
  | shape :: shapes => do
      let item ← shape.read
      let items ← readItems shapes
      return item :: items

/-! ### One item -/

section

variable {α : Type} {m : XdrM α} {L : α → Bytes → Prop}

theorem accepts_map (hm : Accepts m L) (g : α → Item) :
    Accepts (do return g (← m)) fun item word => ∃ a, L a word ∧ item = g a :=
  (hm.bind fun _ => accepts_pure _).congr fun item word => by
    constructor
    · rintro ⟨a, u, _, ha, ⟨rfl, rfl⟩, rfl⟩
      exact ⟨a, by rwa [List.append_nil], rfl⟩
    · rintro ⟨a, ha, rfl⟩
      exact ⟨a, word, [], ha, ⟨rfl, rfl⟩, (List.append_nil word).symm⟩

end

theorem fromUtf8?_eq_some_iff {bs : Bytes} {s : String} : fromUtf8? bs = some s ↔ utf8 s = bs :=
  Utf8.fromUTF8?_eq_some_iff

theorem accepts_readString :
    Accepts readString fun string word => PaddedOpaque (utf8 string) word := by
  refine ((accepts_readStringUnless _).bind
    (M := fun found string word => found = some string ∧ word = []) fun found => ?_).congr
    fun string word => ?_
  · cases found with
    | some string =>
      refine (accepts_pure string).congr fun s word => ?_
      rw [Option.some.injEq, eq_comm]
    | none =>
      refine (accepts_throw _).congr fun s word => ?_
      simp
  · constructor
    · rintro ⟨_, u, _, ⟨value, hvalue, hu⟩, ⟨rfl, rfl⟩, rfl⟩
      rw [List.append_nil]
      have hutf8 : utf8 string = value := by
        rw [← fromUtf8?_eq_some_iff]
        unfold decodeString at hvalue
        rw [if_neg Bool.false_ne_true] at hvalue
        cases hfound : fromUtf8? value with
        | some found =>
          rw [hfound] at hvalue
          cases hvalue
          rfl
        | none =>
          rw [hfound] at hvalue
          cases hvalue
      rwa [hutf8]
    · intro hword
      refine ⟨some string, word, [], ⟨utf8 string, ?_, hword⟩, ⟨rfl, rfl⟩,
        (List.append_nil word).symm⟩
      rw [decodeString, if_neg Bool.false_ne_true, fromUtf8?_eq_some_iff.mpr rfl]

/-- An opaque value with any padding is its encoding up to the padding. -/
theorem paddedOpaque_iff_take {value word : Bytes} (h : value.length < 2 ^ 32) :
    PaddedOpaque value word ↔
      word.length = (putOpaque value).length ∧
        word.take ((putOpaque value).length - xdrPadding value.length)
          = (putOpaque value).take ((putOpaque value).length - xdrPadding value.length) := by
  have hlen : (putOpaque value).length = 4 + value.length + xdrPadding value.length := by
    rw [putOpaque_eq, List.length_append, length_opaqueBody, putU32, length_be32, Nat.add_assoc]
  have hcontent : (putU32 (.ofNat value.length) ++ value).length = 4 + value.length := by
    rw [List.length_append, putU32, length_be32]
  have htake : (putOpaque value).take (4 + value.length)
      = putU32 (.ofNat value.length) ++ value := by
    rw [putOpaque_eq, opaqueBody, ← List.append_assoc]
    exact List.take_left' hcontent
  rw [hlen, Nat.add_sub_cancel, htake]
  constructor
  · rintro ⟨_, _, ⟨padding, hpadding, rfl⟩, rfl⟩
    rw [← List.append_assoc]
    refine ⟨?_, List.take_left' hcontent⟩
    rw [List.length_append, hcontent, hpadding]
  · rintro ⟨hword, hfront⟩
    refine ⟨h, value ++ word.drop (4 + value.length),
      ⟨word.drop (4 + value.length), ?_, rfl⟩, ?_⟩
    · rw [List.length_drop]
      omega
    · rw [← List.append_assoc, ← hfront, List.take_append_drop]

/-- An item without padding is written in one way only. -/
theorem sameUpToPadding_iff_eq {item : Item} {word : Bytes} (h : item.paddingLen = 0) :
    item.SameUpToPadding word ↔ word = item.encode := by
  rw [Item.SameUpToPadding, h, Nat.sub_zero, List.take_length]
  constructor
  · rintro ⟨hlen, htake⟩
    rwa [← hlen, List.take_length] at htake
  · rintro rfl
    exact ⟨rfl, List.take_length⟩

section

variable {α : Type} {m : XdrM α} {g : α → Item} {shape : Shape}

/-- The items `g` makes, written without padding. -/
theorem accepts_unpadded (hm : Accepts m fun a word => word = (g a).encode)
    (hpad : ∀ a, (g a).paddingLen = 0) (hfits : ∀ a, (g a).Fits)
    (hshape : ∀ item, item.shape = shape ↔ ∃ a, item = g a) :
    Accepts (do return g (← m)) fun item word =>
      item.shape = shape ∧ item.Fits ∧ item.SameUpToPadding word :=
  (accepts_map hm g).congr fun item word => by
    rw [hshape]
    constructor
    · rintro ⟨a, rfl, rfl⟩
      exact ⟨⟨a, rfl⟩, hfits a, (sameUpToPadding_iff_eq (hpad a)).mpr rfl⟩
    · rintro ⟨⟨a, rfl⟩, _, hword⟩
      exact ⟨a, (sameUpToPadding_iff_eq (hpad a)).mp hword, rfl⟩

/-- The items `g` makes, written as the opaque value `content` gives. -/
theorem accepts_padded {content : α → Bytes}
    (hm : Accepts m fun a word => PaddedOpaque (content a) word)
    (henc : ∀ a, (g a).encode = putOpaque (content a))
    (hpad : ∀ a, (g a).paddingLen = xdrPadding (content a).length)
    (hfits : ∀ a, (g a).Fits ↔ (content a).length < 2 ^ 32)
    (hshape : ∀ item, item.shape = shape ↔ ∃ a, item = g a) :
    Accepts (do return g (← m)) fun item word =>
      item.shape = shape ∧ item.Fits ∧ item.SameUpToPadding word :=
  (accepts_map hm g).congr fun item word => by
    rw [hshape]
    constructor
    · rintro ⟨a, hword, rfl⟩
      refine ⟨⟨a, rfl⟩, (hfits a).mpr hword.1, ?_⟩
      rw [Item.SameUpToPadding, henc, hpad]
      exact (paddedOpaque_iff_take hword.1).mp hword
    · rintro ⟨⟨a, rfl⟩, hfit, hword⟩
      rw [Item.SameUpToPadding, henc, hpad] at hword
      exact ⟨a, (paddedOpaque_iff_take ((hfits a).mp hfit)).mpr hword, rfl⟩

end

/-- What a read accepts: an item of its shape, written with any padding. -/
theorem accepts_read (shape : Shape) :
    Accepts shape.read fun item word =>
      item.shape = shape ∧ item.Fits ∧ item.SameUpToPadding word := by
  cases shape with
  | u32 =>
    refine accepts_unpadded accepts_readU32 (fun _ => rfl) (fun _ => trivial) fun item => ?_
    cases item <;> simp [Item.shape]
  | u64 =>
    refine accepts_unpadded accepts_readU64 (fun _ => rfl) (fun _ => trivial) fun item => ?_
    cases item <;> simp [Item.shape]
  | bool =>
    refine accepts_unpadded accepts_readBool (fun _ => rfl) (fun _ => trivial) fun item => ?_
    cases item <;> simp [Item.shape]
  | bytes n =>
    refine accepts_unpadded (g := fun v : Vector UInt8 n => .bytes v.toList) (accepts_readBytes n) (fun _ => rfl)
      (fun _ => trivial) fun item => ?_
    constructor
    · intro h
      cases item with
      | bytes value =>
        cases h
        exact ⟨⟨value.toArray, rfl⟩, rfl⟩
      | u32 | u64 | bool | opaqueValue | string => cases h
    · rintro ⟨v, rfl⟩
      simp [Item.shape]
  | opaqueValue =>
    refine accepts_padded accepts_readOpaque (fun _ => rfl) (fun _ => rfl) (fun _ => Iff.rfl)
      fun item => ?_
    cases item <;> simp [Item.shape]
  | string =>
    refine accepts_padded accepts_readString (fun _ => rfl) (fun _ => rfl) (fun _ => Iff.rfl)
      fun item => ?_
    cases item <;> simp [Item.shape]

/-! ### Sequences -/

/-- The bytes are the encodings of the items one after the other, up to padding. -/
def ItemsSameUpToPadding (items : List Item) (bytes : Bytes) : Prop :=
  ∃ words, List.Forall₂ Item.SameUpToPadding items words ∧ bytes = words.flatten

/-- **The language of a sequence of reads.** -/
theorem accepts_readItems (shapes : List Shape) :
    Accepts (readItems shapes) fun items bytes =>
      items.map Item.shape = shapes ∧ (∀ item ∈ items, item.Fits) ∧
        ItemsSameUpToPadding items bytes := by
  induction shapes with
  | nil =>
    refine (accepts_pure []).congr fun items bytes => ?_
    constructor
    · rintro ⟨rfl, rfl⟩
      exact ⟨rfl, by simp, [], .nil, rfl⟩
    · rintro ⟨hshape, _, words, hwords, rfl⟩
      obtain rfl := List.map_eq_nil_iff.mp hshape
      cases hwords
      exact ⟨rfl, rfl⟩
  | cons shape shapes ih =>
    refine ((accepts_read shape).bind fun item =>
      ih.bind fun items => accepts_pure (item :: items)).congr fun items bytes => ?_
    constructor
    · rintro ⟨item, word, _, ⟨hshape, hfits, hword⟩,
        ⟨rest, _, _, ⟨hshapes, hrest, words, hwords, rfl⟩, ⟨rfl, rfl⟩, rfl⟩, rfl⟩
      refine ⟨by rw [List.map_cons, hshape, hshapes], ?_, word :: words, .cons hword hwords, ?_⟩
      · intro i hi
        cases List.mem_cons.mp hi with
        | inl h => exact h ▸ hfits
        | inr h => exact hrest i h
      · rw [List.append_nil, List.flatten_cons]
    · rintro ⟨hshape, hfits, words, hwords, rfl⟩
      cases hwords with
      | nil => cases hshape
      | @cons item word items words hword hwords =>
        cases hshape
        exact ⟨item, word, _, ⟨rfl, hfits item List.mem_cons_self, hword⟩,
          ⟨items, _, [], ⟨rfl, fun i hi => hfits i (List.mem_cons_of_mem item hi), words, hwords,
            rfl⟩, ⟨rfl, rfl⟩, (List.append_nil _).symm⟩, rfl⟩

theorem itemsSameUpToPadding_encodeItems (items : List Item) :
    ItemsSameUpToPadding items (encodeItems items) := by
  refine ⟨items.map Item.encode, ?_, rfl⟩
  rw [List.forall₂_map_right_iff, List.forall₂_same]
  intro item _
  exact ⟨rfl, rfl⟩

/-! ### Other ways past an opaque value -/

theorem run_skipBytesAfterRequire {n : ℕ} {buf : Bytes} (h : n ≤ buf.length) :
    (skipBytesAfterRequire n).run buf = .ok ((), buf.drop n) := by
  refine (accepts_skipBytesAfterRequire n buf () _).mpr ⟨buf.take n, ?_, ?_⟩
  · show (buf.take n).length = n
    rw [List.length_take]
    omega
  · exact (List.take_append_drop n buf).symm

/-- The extent of an opaque value: its length word, and then enough bytes. -/
theorem run_readOpaqueExtentLen {buf mid : Bytes} {len : ℕ} :
    readOpaqueExtentLen.run buf = .ok (len, mid) ↔
      ∃ word : UInt32, word.toNat = len ∧ buf = putU32 word ++ mid ∧
        len + xdrPadding len ≤ mid.length := by
  constructor
  · intro h
    obtain ⟨word, left, hword, hrest⟩ := exists_of_run_bind h
    obtain ⟨_, rfl, rfl⟩ := (accepts_readU32 buf word left).mp hword
    rw [run_lift_bind _ (opaquePaddedLen_eq word.toNat_lt)] at hrest
    by_cases henough : word.toNat + xdrPadding word.toNat ≤ left.length
    · rw [run_bind_ok (run_require henough)] at hrest
      cases hrest
      exact ⟨word, rfl, rfl, henough⟩
    · rw [require, bind_assoc, run_get_bind] at hrest
      dsimp only at hrest
      rw [if_pos (by omega)] at hrest
      cases hrest
  · rintro ⟨word, rfl, rfl, henough⟩
    have hword : readU32.run (putU32 word ++ mid) = .ok (word, mid) :=
      (accepts_readU32 _ word mid).mpr ⟨_, rfl, rfl⟩
    rw [readOpaqueExtentLen, run_bind_ok hword,
      run_lift_bind _ (opaquePaddedLen_eq word.toNat_lt), run_bind_ok (run_require henough)]
    rfl

/-- Where reading the value ends, in terms of its extent. -/
theorem run_readOpaque_of_extent {buf mid : Bytes} {len : ℕ}
    (h : readOpaqueExtentLen.run buf = .ok (len, mid)) :
    readOpaque.run buf = .ok (mid.take len, mid.drop (len + xdrPadding len)) := by
  obtain ⟨word, rfl, rfl, henough⟩ := run_readOpaqueExtentLen.mp h
  have hbody : (mid.take (word.toNat + xdrPadding word.toNat)).length
      = word.toNat + xdrPadding word.toNat := by
    rw [List.length_take]
    omega
  have htake : (mid.take (word.toNat + xdrPadding word.toNat)).take word.toNat
      = mid.take word.toNat := by
    rw [List.take_take]
    congr 1
    omega
  obtain ⟨hlen, hpadded⟩ := paddedBody_iff.mpr ⟨htake.symm, hbody⟩
  refine (accepts_readOpaque _ _ _).mpr ⟨_, paddedOpaque_iff.mpr ⟨word, _, hlen, hpadded, rfl⟩, ?_⟩
  rw [List.append_assoc, List.take_append_drop]

theorem exists_extent_of_readOpaque {buf value rest : Bytes}
    (h : readOpaque.run buf = .ok (value, rest)) :
    ∃ mid, readOpaqueExtentLen.run buf = .ok (value.length, mid) := by
  obtain ⟨_, hvalue, rfl⟩ := (accepts_readOpaque buf value rest).mp h
  obtain ⟨word, body, hlen, hbody, rfl⟩ := paddedOpaque_iff.mp hvalue
  refine ⟨body ++ rest, run_readOpaqueExtentLen.mpr
    ⟨word, hlen.symm, List.append_assoc _ _ _, ?_⟩⟩
  rw [List.length_append, hbody.length_eq]
  omega

theorem run_skipOpaque_iff {buf rest : Bytes} :
    skipOpaque.run buf = .ok ((), rest) ↔ ∃ value, readOpaque.run buf = .ok (value, rest) := by
  rw [accepts_skipOpaque buf () rest]
  constructor
  · rintro ⟨word, ⟨value, hvalue⟩, hbuf⟩
    exact ⟨value, (accepts_readOpaque buf value rest).mpr ⟨word, hvalue, hbuf⟩⟩
  · rintro ⟨value, hvalue⟩
    obtain ⟨word, hword, hbuf⟩ := (accepts_readOpaque buf value rest).mp hvalue
    exact ⟨word, ⟨value, hword⟩, hbuf⟩

/-- What was read in place is part of the value, and the rest of it is skipped. -/
theorem run_finishOpaqueAfterRequire {mid left : Bytes} {len : ℕ} (hlen : len < 2 ^ 32)
    (henough : len + xdrPadding len ≤ mid.length) (hleft : left <:+ mid)
    (hconsumed : mid.length - left.length ≤ len) :
    (finishOpaqueAfterRequire len (mid.length - left.length)).run left
      = .ok ((), mid.drop (len + xdrPadding len)) := by
  obtain ⟨taken, rfl⟩ := hleft
  have htaken : (taken ++ left).length - left.length = taken.length := by
    rw [List.length_append]
    omega
  rw [htaken] at hconsumed ⊢
  rw [List.length_append] at henough
  have hpad := xdrPadding_lt len
  have hremaining : opaqueRemainingLen len taken.length
      = .ok (len - taken.length + xdrPadding len) := by
    rw [opaqueRemainingLen, if_neg (by omega)]
    exact checkedAdd_eq _ (by omega)
  have hdrop : (taken ++ left).drop (len + xdrPadding len)
      = left.drop (len - taken.length + xdrPadding len) := by
    rw [List.drop_append, List.drop_eq_nil_of_le (by omega), List.nil_append]
    congr 1
    omega
  rw [finishOpaqueAfterRequire, run_lift_bind _ hremaining,
    run_skipBytesAfterRequire (by omega), hdrop]

/-- **Reading is the inverse of writing.**  Items that fit are read back from what the
encoder wrote for them, with exactly the suffix left; whatever a sequence of reads accepts is
what the encoder writes for the values, up to the values of the padding bytes; and skipping
an opaque value, or reading some of it in place and finishing it, ends where reading it
does. -/
theorem xdr_round_trip :
    (∀ (items : List Item) (suffix : Bytes), (∀ item ∈ items, item.Fits) →
      (readItems (items.map Item.shape)).run (encodeItems items ++ suffix) = .ok (items, suffix)) ∧
    (∀ (shapes : List Shape) (buf : Bytes) (items : List Item) (rest : Bytes),
      (readItems shapes).run buf = .ok (items, rest) →
        items.map Item.shape = shapes ∧ (∀ item ∈ items, item.Fits) ∧
          ∃ consumed, ItemsSameUpToPadding items consumed ∧ buf = consumed ++ rest) ∧
    (∀ buf rest : Bytes, skipOpaque.run buf = .ok ((), rest) ↔
      ∃ value, readOpaque.run buf = .ok (value, rest)) ∧
    (∀ (buf value rest : Bytes), readOpaque.run buf = .ok (value, rest) →
      ∃ mid, readOpaqueExtentLen.run buf = .ok (value.length, mid)) ∧
    (∀ (buf mid : Bytes) (len : ℕ), readOpaqueExtentLen.run buf = .ok (len, mid) →
      ∃ value rest, readOpaque.run buf = .ok (value, rest) ∧ value.length = len ∧
        ∀ {α : Type} (inPlace : XdrM α) (a : α) (left : Bytes),
          inPlace.run mid = .ok (a, left) → left <:+ mid → mid.length - left.length ≤ len →
            (finishOpaqueAfterRequire len (mid.length - left.length)).run left
              = .ok ((), rest)) := by
  refine ⟨?_, ?_, ?_, ?_, ?_⟩
  · intro items suffix hfits
    exact (accepts_readItems _ _ items suffix).mpr
      ⟨_, ⟨rfl, hfits, itemsSameUpToPadding_encodeItems items⟩, rfl⟩
  · intro shapes buf items rest h
    obtain ⟨consumed, ⟨hshapes, hfits, hsame⟩, hbuf⟩ := (accepts_readItems shapes _ _ _).mp h
    exact ⟨hshapes, hfits, consumed, hsame, hbuf⟩
  · intro buf rest
    exact run_skipOpaque_iff
  · intro buf value rest h
    exact exists_extent_of_readOpaque h
  · intro buf mid len h
    obtain ⟨word, rfl, _, henough⟩ := run_readOpaqueExtentLen.mp h
    refine ⟨_, _, run_readOpaque_of_extent h, ?_, ?_⟩
    · rw [List.length_take]
      omega
    · intro α inPlace a left _ hleft hconsumed
      exact run_finishOpaqueAfterRequire word.toNat_lt henough hleft hconsumed

example : (readItems [.opaqueValue, .bool]).run
    [0, 0, 0, 1, 97, 9, 9, 9, 0, 0, 0, 1, 5] = .ok ([.opaqueValue [97], .bool true], [5]) := by
  rfl

end NfsCrust
