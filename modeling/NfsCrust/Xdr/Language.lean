import NfsCrust.Xdr
import NfsCrust.Lib.Language

/-!
# The language of the XDR readers

What each reader of `src/xdr.rs` accepts: the bytes the encoder writes for the value it
returns, with any padding.  The order of the checks inside a reader, and how far ahead it
looks before it takes anything, do not show in its language.

## Main definitions

* `PaddedOpaque` — the words of an opaque value: its length, its bytes and any padding.

## Main results

* `accepts_readU32`, `accepts_readU64`, `accepts_readBool`, `accepts_readBytes`,
  `accepts_readOpaque`, `accepts_skipOpaque`, `accepts_readStringUnless` — one for each reader.
* `accepts_require_bind` — checking for bytes that will be taken anyway accepts the same.
-/

namespace NfsCrust

open BigEndian StateExcept

variable {α : Type}

/-! ### Looking ahead -/

/-- A check for bytes that every word of the language has changes nothing. -/
theorem accepts_require_bind {len : ℕ} {m : XdrM α} {L : α → Bytes → Prop}
    (hlen : ∀ a word, L a word → len ≤ word.length) (hm : Accepts m L) :
    Accepts (require len >>= fun _ => m) L := by
  intro input a rest
  constructor
  · intro h
    obtain ⟨_, left, hrequire, hrun⟩ := exists_of_run_bind h
    -- the check leaves the input as it was
    have hleft : left = input := by
      rw [require, run_get_bind] at hrequire
      dsimp only at hrequire
      split at hrequire
      · cases hrequire
      · cases hrequire
        rfl
    subst hleft
    exact (hm left a rest).mp hrun
  · rintro ⟨word, hword, rfl⟩
    have henough : len ≤ (word ++ rest).length := by
      rw [List.length_append]
      exact Nat.le_add_right_of_le (hlen a word hword)
    rw [run_bind_ok (run_require henough)]
    exact (hm _ a rest).mpr ⟨word, hword, rfl⟩

theorem accepts_lift_bind {β : Type} {x : Except Error α} {a : α} {f : α → XdrM β}
    {L : β → Bytes → Prop} (hx : x = .ok a) (hf : Accepts (f a) L) :
    Accepts (liftM x >>= f) L := by
  subst hx
  exact hf

/-! ### Taking bytes -/

theorem accepts_takeAfterRequire {take : Bytes → Option (α × Bytes)} {L : α → Bytes → Prop}
    (htake : ∀ bs a rest, take bs = some (a, rest) ↔ ∃ word, L a word ∧ bs = word ++ rest) :
    Accepts (takeAfterRequire take) L := by
  intro input a rest
  rw [← htake, takeAfterRequire, run_get_bind]
  cases take input with
  | none =>
    constructor
    · intro h
      cases h
    · intro h
      cases h
  | some taken =>
    obtain ⟨b, left⟩ := taken
    constructor
    · intro h
      cases h
      rfl
    · intro h
      cases h
      rfl

theorem accepts_readU32AfterRequire :
    Accepts readU32AfterRequire fun x word => word = putU32 x :=
  accepts_takeAfterRequire fun _ _ _ => by simp [takeWord32_eq_some_iff, putU32]

theorem accepts_readU64AfterRequire :
    Accepts readU64AfterRequire fun x word => word = putU64 x :=
  accepts_takeAfterRequire fun _ _ _ => by simp [takeWord64_eq_some_iff, putU64]

theorem accepts_copyToSlice (n : ℕ) :
    Accepts (copyToSlice n) fun v word => word = v.toList :=
  accepts_takeAfterRequire fun _ _ _ => by simp [takeVec_eq_some_iff]

theorem accepts_copyToBytes (n : ℕ) :
    Accepts (copyToBytes n) fun bytes word => word = bytes ∧ bytes.length = n := by
  apply accepts_takeAfterRequire
  intro bs bytes rest
  constructor
  · intro h
    split at h
    · cases h
      refine ⟨bs.take n, ⟨rfl, ?_⟩, (List.take_append_drop n bs).symm⟩
      rw [List.length_take]
      omega
    · cases h
  · rintro ⟨word, ⟨rfl, rfl⟩, rfl⟩
    simp

theorem accepts_skipBytesAfterRequire (n : ℕ) :
    Accepts (skipBytesAfterRequire n) fun _ word => word.length = n :=
  ((accepts_copyToBytes n).bind fun _ => accepts_pure ()).congr fun _ word => by
    constructor
    · rintro ⟨bytes, u, v, ⟨rfl, rfl⟩, ⟨_, rfl⟩, rfl⟩
      rw [List.append_nil]
    · rintro rfl
      exact ⟨word, word, [], ⟨rfl, rfl⟩, ⟨rfl, rfl⟩, (List.append_nil word).symm⟩

/-! ### Single readers -/

theorem accepts_readU32 : Accepts readU32 fun x word => word = putU32 x :=
  accepts_require_bind (fun _ _ h => by simp [h, putU32]) accepts_readU32AfterRequire

theorem accepts_readU64 : Accepts readU64 fun x word => word = putU64 x :=
  accepts_require_bind (fun _ _ h => by simp [h, putU64]) accepts_readU64AfterRequire

theorem accepts_readBytes (n : ℕ) : Accepts (readBytes n) fun v word => word = v.toList :=
  accepts_require_bind (fun _ _ h => by simp [h]) (accepts_copyToSlice n)

theorem accepts_skipBytes (n : ℕ) : Accepts (skipBytes n) fun _ word => word.length = n :=
  accepts_require_bind (fun _ _ h => Nat.le_of_eq h.symm) (accepts_skipBytesAfterRequire n)

theorem decodeBoolWord_eq_ok_iff {x : UInt32} {b : Bool} :
    decodeBoolWord x = .ok b ↔ x = if b then 1 else 0 := by
  constructor
  · intro h
    unfold decodeBoolWord at h
    split at h
    · next hx =>
      cases h
      exact hx
    · split at h
      · next hx =>
        cases h
        exact hx
      · cases h
  · rintro rfl
    exact decodeBoolWord_toWord b

theorem accepts_readBool : Accepts readBool fun b word => word = putBool b :=
  (accepts_readU32.bind fun x => accepts_lift (decodeBoolWord x)).congr fun b word => by
    constructor
    · rintro ⟨x, u, v, rfl, ⟨hb, rfl⟩, rfl⟩
      rw [decodeBoolWord_eq_ok_iff] at hb
      rw [List.append_nil, hb, putBool]
    · rintro rfl
      exact ⟨_, _, [], rfl, ⟨decodeBoolWord_toWord b, rfl⟩, (List.append_nil _).symm⟩

/-! ### Opaque values and strings -/

/-- The bytes of an opaque value after its length word, with any padding. -/
def PaddedBody (value word : Bytes) : Prop :=
  ∃ padding : Bytes, padding.length = xdrPadding value.length ∧ word = value ++ padding

/-- A word of an opaque value: its length, its bytes and any padding. -/
def PaddedOpaque (value word : Bytes) : Prop :=
  value.length < 2 ^ 32 ∧
    ∃ body, PaddedBody value body ∧ word = putU32 (.ofNat value.length) ++ body

theorem PaddedBody.length_eq {value word : Bytes} (h : PaddedBody value word) :
    word.length = value.length + xdrPadding value.length := by
  obtain ⟨padding, hpadding, rfl⟩ := h
  rw [List.length_append, hpadding]

theorem paddedOpaque_putOpaque {value : Bytes} (h : value.length < 2 ^ 32) :
    PaddedOpaque value (putOpaque value) :=
  ⟨h, opaqueBody value, ⟨putPadding value.length, by simp [putPadding], rfl⟩, putOpaque_eq value⟩

/-- A word followed by a body of that many bytes is a word of the opaque value. -/
theorem paddedOpaque_iff {value word : Bytes} :
    PaddedOpaque value word ↔
      ∃ (len : UInt32) (body : Bytes), value.length = len.toNat ∧ PaddedBody value body ∧
        word = putU32 len ++ body := by
  constructor
  · rintro ⟨hlen, body, hbody, rfl⟩
    exact ⟨.ofNat value.length, body, (toNat_ofNat_length hlen).symm, hbody, rfl⟩
  · rintro ⟨len, body, hlen, hbody, rfl⟩
    have hlt : value.length < 2 ^ 32 := hlen ▸ len.toNat_lt
    refine ⟨hlt, body, hbody, ?_⟩
    have hword : UInt32.ofNat value.length = len := by
      apply UInt32.toNat_inj.mp
      rw [toNat_ofNat_length hlt, hlen]
    rw [hword]

theorem accepts_readOpaqueBytes {len : ℕ} (hlen : len < 2 ^ 32) :
    Accepts (readOpaqueBytes len) fun value word =>
      value.length = len ∧ PaddedBody value word := by
  unfold readOpaqueBytes
  split
  · next h0 =>
    subst h0
    refine (accepts_pure []).congr fun value word => ?_
    constructor
    · rintro ⟨rfl, rfl⟩
      exact ⟨rfl, [], rfl, rfl⟩
    · rintro ⟨hvalue, padding, hpadding, rfl⟩
      obtain rfl := List.length_eq_zero_iff.mp hvalue
      obtain rfl := List.length_eq_zero_iff.mp hpadding
      exact ⟨rfl, rfl⟩
  · refine accepts_lift_bind (opaquePaddedLen_eq hlen) ?_
    apply accepts_require_bind
    · rintro value word ⟨rfl, hword⟩
      exact Nat.le_of_eq hword.length_eq.symm
    · refine ((accepts_copyToBytes len).bind fun _ =>
        (accepts_skipBytesAfterRequire _).bind fun _ => accepts_pure _).congr fun value word => ?_
      constructor
      · rintro ⟨_, _, _, ⟨rfl, rfl⟩, ⟨_, padding, _, hpadding, ⟨rfl, rfl⟩, rfl⟩, rfl⟩
        exact ⟨rfl, padding, hpadding, by rw [List.append_nil]⟩
      · rintro ⟨rfl, padding, hpadding, rfl⟩
        exact ⟨value, value, padding, ⟨rfl, rfl⟩,
          ⟨(), padding, [], hpadding, ⟨rfl, rfl⟩, (List.append_nil _).symm⟩, rfl⟩

theorem accepts_readOpaque : Accepts readOpaque PaddedOpaque :=
  (accepts_readU32.bind fun len => accepts_readOpaqueBytes len.toNat_lt).congr fun value word => by
    rw [paddedOpaque_iff]
    constructor
    · rintro ⟨len, _, body, rfl, ⟨hlen, hbody⟩, rfl⟩
      exact ⟨len, body, hlen, hbody, rfl⟩
    · rintro ⟨len, body, hlen, hbody, rfl⟩
      exact ⟨len, _, body, rfl, ⟨hlen, hbody⟩, rfl⟩

/-- Looking at the first `len` bytes before taking them. -/
theorem accepts_sliceTo_bind {len : ℕ} {f : Bytes → XdrM α} {L : Bytes → α → Bytes → Prop}
    (hlen : ∀ value a word, L value a word → len ≤ word.length)
    (hf : ∀ value, Accepts (f value) (L value)) :
    Accepts (sliceTo len >>= f) fun a word => L (word.take len) a word := by
  intro input a rest
  constructor
  · intro h
    obtain ⟨value, left, hslice, hrun⟩ := exists_of_run_bind h
    have hvalue : left = input ∧ value = input.take len := by
      rw [sliceTo, run_get_bind] at hslice
      split at hslice
      · cases hslice
      · cases hslice
        exact ⟨rfl, rfl⟩
    obtain ⟨rfl, rfl⟩ := hvalue
    obtain ⟨word, hword, hleft⟩ := (hf _ left a rest).mp hrun
    refine ⟨word, ?_, hleft⟩
    rw [hleft, List.take_append_of_le_length (hlen _ a word hword)] at hword
    exact hword
  · rintro ⟨word, hword, rfl⟩
    have hle := hlen _ a word hword
    have henough : ¬ (word ++ rest).length < len := by
      rw [List.length_append]
      omega
    rw [sliceTo, bind_assoc, run_get_bind, if_neg henough]
    refine (hf _ _ a rest).mpr ⟨word, ?_, rfl⟩
    rw [List.take_append_of_le_length hle]
    exact hword

/-- A word of `len` bytes and their padding is the body of its first `len` bytes. -/
theorem paddedBody_iff {len : ℕ} {value word : Bytes} :
    value.length = len ∧ PaddedBody value word ↔
      value = word.take len ∧ word.length = len + xdrPadding len := by
  constructor
  · rintro ⟨rfl, padding, hpadding, rfl⟩
    exact ⟨by simp, by rw [List.length_append, hpadding]⟩
  · rintro ⟨rfl, hword⟩
    have hlen : (word.take len).length = len := by
      rw [List.length_take]
      omega
    refine ⟨hlen, word.drop len, ?_, (List.take_append_drop len word).symm⟩
    rw [hlen, List.length_drop]
    omega

theorem accepts_readStringUnless (skip : Bytes → Bool) :
    Accepts (readStringUnless skip) fun string word =>
      ∃ value, decodeString skip value = .ok string ∧ PaddedOpaque value word := by
  have hbody : ∀ len : UInt32, Accepts (do
      let totalLen ← checkedAdd len.toNat (xdrPadding len.toNat) "string length overflow"
      require totalLen
      let value ← sliceTo len.toNat
      let string ← decodeString skip value
      skipBytesAfterRequire totalLen
      return string : XdrM (Option String)) fun string word =>
        decodeString skip (word.take len.toNat) = .ok string ∧
          word.length = len.toNat + xdrPadding len.toNat := by
    intro len
    have hlt := len.toNat_lt
    have hpad := xdrPadding_lt len.toNat
    refine accepts_lift_bind (checkedAdd_eq _ (by omega)) ?_
    apply accepts_require_bind
    · rintro string word ⟨_, hword⟩
      exact Nat.le_of_eq hword.symm
    · refine accepts_sliceTo_bind
        (L := fun value string word => decodeString skip value = .ok string ∧
          word.length = len.toNat + xdrPadding len.toNat) ?_ fun value => ?_
      · rintro value string word ⟨_, hword⟩
        omega
      · refine ((accepts_lift _).bind fun string =>
          (accepts_skipBytesAfterRequire _).bind fun _ => accepts_pure string).congr
          fun string word => ?_
        constructor
        · rintro ⟨_, _, _, ⟨hstring, rfl⟩, ⟨_, _, _, hword, ⟨rfl, rfl⟩, rfl⟩, rfl⟩
          rw [List.nil_append, List.append_nil]
          exact ⟨hstring, hword⟩
        · rintro ⟨hstring, hword⟩
          exact ⟨string, [], word, ⟨hstring, rfl⟩,
            ⟨(), word, [], hword, ⟨rfl, rfl⟩, (List.append_nil word).symm⟩, rfl⟩
  refine (accepts_readU32.bind hbody).congr fun string word => ?_
  constructor
  · rintro ⟨len, _, body, rfl, ⟨hstring, hbody⟩, rfl⟩
    obtain ⟨hvalue, hpadded⟩ := paddedBody_iff.mpr ⟨rfl, hbody⟩
    exact ⟨body.take len.toNat, hstring, paddedOpaque_iff.mpr ⟨len, body, hvalue, hpadded, rfl⟩⟩
  · rintro ⟨value, hstring, hword⟩
    obtain ⟨len, body, hlen, hpadded, rfl⟩ := paddedOpaque_iff.mp hword
    obtain ⟨rfl, hbody⟩ := paddedBody_iff.mp ⟨hlen, hpadded⟩
    exact ⟨len, _, body, rfl, ⟨hstring, hbody⟩, rfl⟩

theorem accepts_skipOpaque :
    Accepts skipOpaque fun _ word => ∃ value, PaddedOpaque value word := by
  have hbody : ∀ len : UInt32, Accepts (do
      let skipLen ← opaquePaddedLen len.toNat
      if skipLen = 0 then return ()
      require skipLen
      skipBytesAfterRequire skipLen : XdrM Unit) fun _ word =>
        word.length = len.toNat + xdrPadding len.toNat := by
    intro len
    refine accepts_lift_bind (opaquePaddedLen_eq len.toNat_lt) ?_
    split
    · next h0 =>
      refine (accepts_pure ()).congr fun _ word => ?_
      rw [h0, List.length_eq_zero_iff]
      exact ⟨fun h => h.2, fun h => ⟨rfl, h⟩⟩
    · exact accepts_skipBytes _
  refine (accepts_readU32.bind hbody).congr fun _ word => ?_
  constructor
  · rintro ⟨len, _, body, rfl, hbody, rfl⟩
    obtain ⟨hvalue, hpadded⟩ := paddedBody_iff.mpr ⟨rfl, hbody⟩
    exact ⟨body.take len.toNat, paddedOpaque_iff.mpr ⟨len, body, hvalue, hpadded, rfl⟩⟩
  · rintro ⟨value, hword⟩
    obtain ⟨len, body, hlen, hpadded, rfl⟩ := paddedOpaque_iff.mp hword
    exact ⟨len, _, body, rfl, (paddedBody_iff.mp ⟨hlen, hpadded⟩).2, rfl⟩

end NfsCrust
