import NfsCrust.Error
import NfsCrust.Lib.BigEndian
import NfsCrust.Lib.StateExcept

/-!
# XDR encoding and decoding

The encoder and the decoder of `src/xdr.rs`.  An encoder call appends bytes, so
it is the list of bytes it appends; a decoder is a computation on the bytes that
remain, which fails with an `Error`.  The `…AfterRequire` readers trust that a
`require` came before them and panic otherwise, as `Buf::get_u32` does.

## Main definitions

* `putU32`, `putU64`, `putBool`, `putOpaque`, `putString` — the encoder.
* `XdrM`, `require`, `readU32`, `readOpaque`, … — the decoder.
* `Reads` — a decoder consumes exactly the given bytes and returns the given
  value, whatever follows.

## Main results

* `reads_readU32`, `reads_readOpaque`, `reads_skipOpaque`, … — every reader
  gives back what the matching encoder call wrote.
-/

namespace NfsCrust

open BigEndian

/-- A byte string. -/
abbrev Bytes := List UInt8

/-! ### Lengths -/

/-- The number of zero bytes after a value of `len` bytes. -/
def xdrPadding (len : ℕ) : ℕ := (4 - (len &&& 3)) &&& 3

theorem xdrPadding_eq (len : ℕ) : xdrPadding len = (4 - len % 4) % 4 := by
  have h : ∀ n : ℕ, n &&& 3 = n % 4 := fun n => Nat.and_two_pow_sub_one_eq_mod n 2
  rw [xdrPadding, h, h]

/-- `usize` arithmetic that stops at the largest 64-bit value. -/
def saturatingAdd (a b : ℕ) : ℕ := min (a + b) (2 ^ 64 - 1)

def xdrFixedOpaqueLen (len : ℕ) : ℕ := saturatingAdd len (xdrPadding len)

def xdrOpaqueLen (len : ℕ) : ℕ := saturatingAdd 4 (xdrFixedOpaqueLen len)

/-- Subtraction in `usize`, which panics on underflow. -/
def usizeSub (a b : ℕ) : Except Error ℕ :=
  if a < b then .error (.panic "attempt to subtract with overflow") else .ok (a - b)

/-- Multiplication in `usize`, which panics on overflow. -/
def usizeMul (a b : ℕ) : Except Error ℕ :=
  if a * b < 2 ^ 64 then .ok (a * b) else .error (.panic "attempt to multiply with overflow")

/-- `usize::checked_add`, with the error of the caller. -/
def checkedAdd (a b : ℕ) (message : String) : Except Error ℕ :=
  if a + b < 2 ^ 64 then .ok (a + b) else .error (.xdr message)

def opaquePaddedLen (len : ℕ) : Except Error ℕ :=
  checkedAdd len (xdrPadding len) "opaque length overflow"

def opaqueRemainingLen (len consumed : ℕ) : Except Error ℕ :=
  if len < consumed then
    .error (.xdr s!"opaque decoder consumed {consumed} bytes from a {len} byte value")
  else checkedAdd (len - consumed) (xdrPadding len) "opaque length overflow"

/-! ### Encoder -/

def putU32 (value : UInt32) : Bytes := be32 value

def putU64 (value : UInt64) : Bytes := be64 value

def putBool (value : Bool) : Bytes := putU32 (if value then 1 else 0)

def putPadding (len : ℕ) : Bytes := List.replicate (xdrPadding len) 0

theorem length_flatten_putU32 (words : List UInt32) :
    (words.map putU32).flatten.length = words.length * 4 := by
  induction words with
  | nil => rfl
  | cons w ws ih =>
    simp only [List.map_cons, List.flatten_cons, List.length_append, ih, List.length_cons]
    simp only [putU32, BigEndian.length_be32]
    omega

/-- A length word, the bytes, and the padding.  The source panics on values of
`2 ^ 32` bytes and more. -/
def putOpaque (value : Bytes) : Bytes :=
  putU32 (.ofNat value.length) ++ if value.isEmpty then [] else value ++ putPadding value.length

/-- The bytes of a string. -/
def utf8 (value : String) : Bytes := value.toUTF8.toList

def putString (value : String) : Bytes := putOpaque (utf8 value)

/-! ### Decoder -/

/-- A decoder: it consumes some of the bytes that remain, or fails. -/
abbrev XdrM := StateT Bytes (Except Error)

/-- Fail unless `len` bytes remain. -/
def require (len : ℕ) : XdrM Unit := do
  let have_ := (← get).length
  if have_ < len then throw (.xdr s!"buffer underflow: need {len} bytes, have {have_}")

/-- Take from the front with `take`, which the caller has required; `Buf` panics
otherwise. -/
def takeAfterRequire {α : Type} (take : Bytes → Option (α × Bytes)) : XdrM α := do
  match take (← get) with
  | some (a, rest) => set rest; return a
  | none => throw (.panic "advance out of bounds")

def readU32AfterRequire : XdrM UInt32 := takeAfterRequire takeWord32

def readU64AfterRequire : XdrM UInt64 := takeAfterRequire takeWord64

/-- `Buf::copy_to_slice` into an array. -/
def copyToSlice (n : ℕ) : XdrM (Vector UInt8 n) := takeAfterRequire (takeVec n)

/-- `Buf::copy_to_bytes`. -/
def copyToBytes (n : ℕ) : XdrM Bytes :=
  takeAfterRequire fun bs => if n ≤ bs.length then some (bs.take n, bs.drop n) else none

/-- `&buf[..len]`, which panics when fewer bytes remain. -/
def sliceTo (len : ℕ) : XdrM Bytes := do
  let buf ← get
  if buf.length < len then throw (.panic "range end index out of range for slice")
  return buf.take len

/-- `with_capacity(count)` for values that take at least `size` bytes each on the wire.  A
count that was not checked against the bytes that remain could ask for any amount of memory;
here it panics. -/
def vecWithCapacity (count size : ℕ) : XdrM Unit := do
  if (← get).length < count * size then throw (.panic "capacity overflow")

/-- `Buf::advance`. -/
def skipBytesAfterRequire (n : ℕ) : XdrM Unit := do
  let _ ← copyToBytes n
  return ()

def readU32 : XdrM UInt32 := do
  require 4
  readU32AfterRequire

def readU64 : XdrM UInt64 := do
  require 8
  readU64AfterRequire

def readU32Pair : XdrM (UInt32 × UInt32) := do
  require 8
  let first ← readU32AfterRequire
  let second ← readU32AfterRequire
  return (first, second)

def readU32AndBytes (n : ℕ) : XdrM (UInt32 × Vector UInt8 n) := do
  let totalLen ← checkedAdd 4 n "fixed read length overflow"
  require totalLen
  let word ← readU32AfterRequire
  let bytes ← copyToSlice n
  return (word, bytes)

def readU32PairAndBytes (n : ℕ) : XdrM (UInt32 × UInt32 × Vector UInt8 n) := do
  let totalLen ← checkedAdd 8 n "fixed read length overflow"
  require totalLen
  let first ← readU32AfterRequire
  let second ← readU32AfterRequire
  let bytes ← copyToSlice n
  return (first, second, bytes)

def decodeBoolWord (value : UInt32) : Except Error Bool :=
  if value = 0 then .ok false
  else if value = 1 then .ok true
  else .error (.xdr s!"invalid XDR bool value {value}")

def readBool : XdrM Bool := do
  decodeBoolWord (← readU32)

def readBoolAndSkip (skipLen : ℕ) : XdrM Bool := do
  let totalLen ← checkedAdd 4 skipLen "bool skip length overflow"
  require totalLen
  let out ← decodeBoolWord (← readU32AfterRequire)
  skipBytesAfterRequire skipLen
  return out

def readOpaqueBytes (len : ℕ) : XdrM Bytes := do
  if len = 0 then return []
  let totalLen ← opaquePaddedLen len
  require totalLen
  let out ← copyToBytes len
  skipBytesAfterRequire (xdrPadding len)
  return out

def readBoolAndOpaque : XdrM (Bool × Bytes) := do
  let (value, len) ← readU32Pair
  let value ← decodeBoolWord value
  let data ← readOpaqueBytes len.toNat
  return (value, data)

def readBytes (n : ℕ) : XdrM (Vector UInt8 n) := do
  require n
  copyToSlice n

def skipBytes (len : ℕ) : XdrM Unit := do
  require len
  skipBytesAfterRequire len

def readOpaque : XdrM Bytes := do
  let len ← readU32
  readOpaqueBytes len.toNat

def readOpaqueExtentLen : XdrM ℕ := do
  let len ← readU32
  require (← opaquePaddedLen len.toNat)
  return len.toNat

def finishOpaqueAfterRequire (len consumed : ℕ) : XdrM Unit := do
  skipBytesAfterRequire (← opaqueRemainingLen len consumed)

/-- The string of a byte string, when it is UTF-8. -/
def fromUtf8? (bs : Bytes) : Option String := String.fromUTF8? ⟨bs.toArray⟩

/-- The string in `value`, unless it is to be skipped. -/
def decodeString (skip : Bytes → Bool) (value : Bytes) : Except Error (Option String) :=
  if skip value then .ok none
  else match fromUtf8? value with
    | some string => .ok (some string)
    | none => .error (.xdr "invalid utf-8 sequence")

def readStringUnless (skip : Bytes → Bool) : XdrM (Option String) := do
  let len := (← readU32).toNat
  let totalLen ← checkedAdd len (xdrPadding len) "string length overflow"
  require totalLen
  let value ← sliceTo len
  let string ← decodeString skip value
  skipBytesAfterRequire totalLen
  return string

def readU32SkipOpaqueAndReadU32 : XdrM (UInt32 × UInt32) := do
  let (first, len) ← readU32Pair
  let skipLen ← opaquePaddedLen len.toNat
  let totalLen ← checkedAdd skipLen 4 "opaque skip length overflow"
  require totalLen
  skipBytesAfterRequire skipLen
  let second ← readU32AfterRequire
  return (first, second)

def skipOpaque : XdrM Unit := do
  let len ← readU32
  let skipLen ← opaquePaddedLen len.toNat
  if skipLen = 0 then return ()
  require skipLen
  skipBytesAfterRequire skipLen

/-! ### Reading back what was written -/

/-- `m` consumes exactly `bs` and returns `a`, whatever bytes follow. -/
def Reads {α : Type} (m : XdrM α) (bs : Bytes) (a : α) : Prop :=
  ∀ rest, m.run (bs ++ rest) = .ok (a, rest)

variable {α β : Type}

theorem Reads.pure (a : α) : Reads (Pure.pure a) [] a := fun _ => rfl

theorem Reads.bind {m : XdrM α} {f : α → XdrM β} {bs bs' : Bytes} {a : α} {b : β}
    (hm : Reads m bs a) (hf : Reads (f a) bs' b) : Reads (m >>= f) (bs ++ bs') b := by
  intro rest
  rw [List.append_assoc, StateT.run_bind, hm]
  exact hf rest

/-- Only the last reader of a sequence consumes bytes. -/
theorem Reads.bind_nil {m : XdrM α} {f : α → XdrM β} {bs : Bytes} {a : α} {b : β}
    (hm : Reads m bs a) (hf : Reads (f a) [] b) : Reads (m >>= f) bs b := by
  simpa using hm.bind hf

/-- `m` returns `a` on bytes that start with `bs`; it may leave some of them. -/
def Yields {α : Type} (m : XdrM α) (bs : Bytes) (a : α) : Prop :=
  ∀ rest, ∃ left, m.run (bs ++ rest) = .ok (a, left)

theorem Reads.yields {m : XdrM α} {bs bs' : Bytes} {a : α} (hm : Reads m bs a) :
    Yields m (bs ++ bs') a := by
  intro rest
  rw [List.append_assoc]
  exact ⟨bs' ++ rest, hm (bs' ++ rest)⟩

theorem Reads.bind_yields {m : XdrM α} {f : α → XdrM β} {bs bs' : Bytes} {a : α} {b : β}
    (hm : Reads m bs a) (hf : Yields (f a) bs' b) : Yields (m >>= f) (bs ++ bs') b := by
  intro rest
  rw [List.append_assoc, StateT.run_bind, hm]
  exact hf rest

/-- `m` fails on `bs`, whatever bytes follow, with an error of the decoder. -/
def Fails {α : Type} (m : XdrM α) (bs : Bytes) : Prop :=
  ∀ rest, ∃ err, m.run (bs ++ rest) = .error err ∧ err.isForeign = true

theorem Fails.bind {m : XdrM α} {f : α → XdrM β} {bs bs' : Bytes} (hm : Fails m bs) :
    Fails (m >>= f) (bs ++ bs') := by
  intro rest
  obtain ⟨err, h, hf⟩ := hm (bs' ++ rest)
  refine ⟨err, ?_, hf⟩
  rw [List.append_assoc, StateT.run_bind, h]
  rfl

theorem Reads.bind_fails {m : XdrM α} {f : α → XdrM β} {bs bs' : Bytes} {a : α}
    (hm : Reads m bs a) (hf : Fails (f a) bs') : Fails (m >>= f) (bs ++ bs') := by
  intro rest
  rw [List.append_assoc, StateT.run_bind, hm]
  exact hf rest

theorem fails_throw {err : Error} (h : err.isForeign = true) (bs : Bytes) :
    Fails (throw err : XdrM α) bs := fun _ => ⟨err, rfl, h⟩

theorem run_require {len : ℕ} {buf : Bytes} (h : len ≤ buf.length) :
    (require len).run buf = .ok ((), buf) := by
  have h' : ¬ buf.length < len := by omega
  simp only [require, StateT.run_bind, StateT.run_get, pure_bind, h', if_false]
  rfl

theorem run_vecWithCapacity {count size : ℕ} {buf : Bytes} (h : count * size ≤ buf.length) :
    (vecWithCapacity count size).run buf = .ok ((), buf) := by
  rw [vecWithCapacity, StateExcept.run_get_bind, if_neg (by omega)]
  rfl

/-- A `require` that the bytes satisfy changes nothing. -/
theorem Reads.require_bind {len : ℕ} {f : Unit → XdrM β} {bs : Bytes} {b : β}
    (h : len ≤ bs.length) (hf : Reads (f ()) bs b) : Reads (require len >>= f) bs b := by
  intro rest
  rw [StateT.run_bind, run_require (by rw [List.length_append]; omega)]
  exact hf rest

/-- A pure check that passes changes nothing. -/
theorem Reads.lift_bind {x : Except Error α} {f : α → XdrM β} {bs : Bytes} {a : α} {b : β}
    (hx : x = .ok a) (hf : Reads (f a) bs b) : Reads (liftM x >>= f) bs b := by
  subst hx
  exact hf

theorem Reads.lift {x : Except Error α} {a : α} (hx : x = .ok a) :
    Reads (liftM x : XdrM α) [] a := by
  subst hx
  exact .pure a

theorem Reads.get_bind {f : Bytes → XdrM β} {bs : Bytes} {b : β}
    (h : ∀ rest, (f (bs ++ rest)).run (bs ++ rest) = .ok (b, rest)) :
    Reads (get >>= f) bs b := h

theorem Fails.get_bind {f : Bytes → XdrM β} {bs : Bytes}
    (h : ∀ rest, ∃ err, (f (bs ++ rest)).run (bs ++ rest) = .error err ∧ err.isForeign = true) :
    Fails (get >>= f) bs := h

theorem Fails.lift_ok_bind {x : Except Error α} {f : α → XdrM β} {bs : Bytes} {a : α}
    (hx : x = .ok a) (hf : Fails (f a) bs) : Fails (liftM x >>= f) bs := by
  subst hx
  exact hf

theorem Fails.lift_bind {x : Except Error α} {f : α → XdrM β} {err : Error}
    (hx : x = .error err) (h : err.isForeign = true) (bs : Bytes) :
    Fails (liftM x >>= f) bs := by
  subst hx
  exact fun _ => ⟨err, rfl, h⟩

theorem Fails.require_bind {len : ℕ} {f : Unit → XdrM β} {bs : Bytes}
    (h : len ≤ bs.length) (hf : Fails (f ()) bs) : Fails (require len >>= f) bs := by
  intro rest
  rw [StateT.run_bind, run_require (by rw [List.length_append]; omega)]
  exact hf rest

theorem reads_takeAfterRequire {take : Bytes → Option (α × Bytes)} {bs : Bytes} {a : α}
    (h : ∀ rest, take (bs ++ rest) = some (a, rest)) : Reads (takeAfterRequire take) bs a := by
  intro rest
  simp only [takeAfterRequire, StateT.run_bind, StateT.run_get]
  change StateT.run (match take (bs ++ rest) with | _ => _) _ = _
  rw [h]
  rfl

theorem reads_readU32AfterRequire (x : UInt32) : Reads readU32AfterRequire (putU32 x) x :=
  reads_takeAfterRequire (takeWord32_be32 x)

theorem reads_readU64AfterRequire (x : UInt64) : Reads readU64AfterRequire (putU64 x) x :=
  reads_takeAfterRequire (takeWord64_be64 x)

theorem reads_copyToSlice {n : ℕ} (v : Vector UInt8 n) : Reads (copyToSlice n) v.toList v :=
  reads_takeAfterRequire (takeVec_toList v)

theorem reads_copyToBytes (bs : Bytes) : Reads (copyToBytes bs.length) bs bs :=
  reads_takeAfterRequire fun rest => by simp

theorem reads_skipBytesAfterRequire {bs : Bytes} {n : ℕ} (h : bs.length = n) :
    Reads (skipBytesAfterRequire n) bs () := by
  subst h
  exact (reads_copyToBytes bs).bind_nil (.pure ())

theorem reads_readU32 (x : UInt32) : Reads readU32 (putU32 x) x :=
  .require_bind (by simp [putU32]) (reads_readU32AfterRequire x)

theorem reads_readU64 (x : UInt64) : Reads readU64 (putU64 x) x :=
  .require_bind (by simp [putU64]) (reads_readU64AfterRequire x)

theorem reads_readU32Pair (x y : UInt32) : Reads readU32Pair (putU32 x ++ putU32 y) (x, y) :=
  .require_bind (by simp [putU32])
    ((reads_readU32AfterRequire x).bind ((reads_readU32AfterRequire y).bind_nil (.pure _)))

theorem checkedAdd_eq {a b : ℕ} (message : String) (h : a + b < 2 ^ 64) :
    checkedAdd a b message = .ok (a + b) := if_pos h

theorem reads_readU32AndBytes {n : ℕ} (hn : 4 + n < 2 ^ 64) (x : UInt32) (v : Vector UInt8 n) :
    Reads (readU32AndBytes n) (putU32 x ++ v.toList) (x, v) :=
  .lift_bind (checkedAdd_eq _ hn) <| .require_bind (by simp [putU32])
    ((reads_readU32AfterRequire x).bind ((reads_copyToSlice v).bind_nil (.pure _)))

theorem reads_readU32PairAndBytes {n : ℕ} (hn : 8 + n < 2 ^ 64) (x y : UInt32)
    (v : Vector UInt8 n) :
    Reads (readU32PairAndBytes n) (putU32 x ++ (putU32 y ++ v.toList)) (x, y, v) :=
  .lift_bind (checkedAdd_eq _ hn) <| .require_bind (by simp [putU32]; omega)
    ((reads_readU32AfterRequire x).bind
      ((reads_readU32AfterRequire y).bind ((reads_copyToSlice v).bind_nil (.pure _))))

theorem decodeBoolWord_toWord (b : Bool) :
    decodeBoolWord (if b then 1 else 0) = .ok b := by
  cases b <;> rfl

theorem reads_readBool (b : Bool) : Reads readBool (putBool b) b :=
  (reads_readU32 _).bind_nil (.lift (decodeBoolWord_toWord b))

theorem reads_readBoolAndSkip {n : ℕ} (hn : 4 + n < 2 ^ 64) (b : Bool) {bs : Bytes}
    (h : bs.length = n) : Reads (readBoolAndSkip n) (putBool b ++ bs) b :=
  .lift_bind (checkedAdd_eq _ hn) <| .require_bind (by simp [putBool, putU32, h])
    ((reads_readU32AfterRequire _).bind
      (.lift_bind (decodeBoolWord_toWord b)
        ((reads_skipBytesAfterRequire h).bind_nil (.pure b))))

theorem reads_readBytes {n : ℕ} (v : Vector UInt8 n) : Reads (readBytes n) v.toList v :=
  .require_bind (by simp) (reads_copyToSlice v)

theorem reads_skipBytes {bs : Bytes} {n : ℕ} (h : bs.length = n) : Reads (skipBytes n) bs () :=
  .require_bind (by omega) (reads_skipBytesAfterRequire h)

/-! ### Opaque values -/

theorem xdrPadding_lt (len : ℕ) : xdrPadding len < 4 := by
  rw [xdrPadding_eq]
  omega

theorem xdrPadding_zero : xdrPadding 0 = 0 := rfl

/-- The bytes of an opaque value after its length word. -/
def opaqueBody (value : Bytes) : Bytes := value ++ putPadding value.length

theorem putOpaque_eq (value : Bytes) :
    putOpaque value = putU32 (.ofNat value.length) ++ opaqueBody value := by
  cases value with
  | nil => rfl
  | cons b bs => rfl

theorem length_opaqueBody (value : Bytes) :
    (opaqueBody value).length = value.length + xdrPadding value.length := by
  simp [opaqueBody, putPadding]

theorem opaquePaddedLen_eq {len : ℕ} (h : len < 2 ^ 32) :
    opaquePaddedLen len = .ok (len + xdrPadding len) := by
  have := xdrPadding_lt len
  exact checkedAdd_eq _ (by omega)

theorem toNat_ofNat_length {len : ℕ} (h : len < 2 ^ 32) : (UInt32.ofNat len).toNat = len := by
  rw [UInt32.toNat_ofNat']
  exact Nat.mod_eq_of_lt h

theorem reads_readOpaqueBytes {value : Bytes} (h : value.length < 2 ^ 32) :
    Reads (readOpaqueBytes value.length) (opaqueBody value) value := by
  by_cases h0 : value.length = 0
  · obtain rfl := List.length_eq_zero_iff.mp h0
    exact .pure []
  · rw [readOpaqueBytes, if_neg h0]
    exact .lift_bind (opaquePaddedLen_eq h) <|
      .require_bind (Nat.le_of_eq (length_opaqueBody value).symm)
      ((reads_copyToBytes value).bind
        ((reads_skipBytesAfterRequire (by simp [putPadding])).bind_nil (.pure value)))

theorem reads_readOpaque {value : Bytes} (h : value.length < 2 ^ 32) :
    Reads readOpaque (putOpaque value) value := by
  rw [putOpaque_eq]
  refine (reads_readU32 _).bind ?_
  rw [toNat_ofNat_length h]
  exact reads_readOpaqueBytes h

theorem reads_readBoolAndOpaque (b : Bool) {value : Bytes} (h : value.length < 2 ^ 32) :
    Reads readBoolAndOpaque (putBool b ++ putOpaque value) (b, value) := by
  rw [putOpaque_eq, ← List.append_assoc]
  refine (reads_readU32Pair _ _).bind (.lift_bind (decodeBoolWord_toWord b) ?_)
  rw [toNat_ofNat_length h]
  exact (reads_readOpaqueBytes h).bind_nil (.pure _)

theorem reads_skipOpaque {value : Bytes} (h : value.length < 2 ^ 32) :
    Reads skipOpaque (putOpaque value) () := by
  rw [putOpaque_eq]
  refine (reads_readU32 _).bind ?_
  rw [toNat_ofNat_length h]
  refine .lift_bind (opaquePaddedLen_eq h) ?_
  by_cases h0 : value.length + xdrPadding value.length = 0
  · obtain rfl := List.length_eq_zero_iff.mp (by omega : value.length = 0)
    exact .pure ()
  · rw [if_neg h0]
    exact .require_bind (Nat.le_of_eq (length_opaqueBody value).symm)
      (reads_skipBytesAfterRequire (length_opaqueBody value))

theorem run_sliceTo_opaqueBody (value rest : Bytes) :
    (sliceTo value.length).run (opaqueBody value ++ rest)
      = .ok (value, opaqueBody value ++ rest) := by
  have htake : (opaqueBody value ++ rest).take value.length = value := by simp [opaqueBody]
  have hlen : ¬ (opaqueBody value ++ rest).length < value.length := by
    rw [List.length_append, length_opaqueBody]
    omega
  rw [sliceTo, StateExcept.run_get_bind, if_neg hlen, htake]
  rfl

/-- Reading a string gives what `decodeString` says, on its own bytes. -/
theorem reads_readStringUnless {skip : Bytes → Bool} {value : Bytes} {r : Option String}
    (h : value.length < 2 ^ 32) (hr : decodeString skip value = .ok r) :
    Reads (readStringUnless skip) (putOpaque value) r := by
  have hpad := xdrPadding_lt value.length
  rw [putOpaque_eq]
  refine (reads_readU32 _).bind ?_
  rw [toNat_ofNat_length h]
  refine .lift_bind (checkedAdd_eq _ (by omega)) <|
    .require_bind (Nat.le_of_eq (length_opaqueBody value).symm) fun rest => ?_
  rw [StateExcept.run_bind_ok (run_sliceTo_opaqueBody value rest)]
  exact Reads.lift_bind hr
    ((reads_skipBytesAfterRequire (length_opaqueBody value)).bind_nil (.pure r)) rest

theorem fails_readStringUnless {skip : Bytes → Bool} {value : Bytes} {err : Error}
    (h : value.length < 2 ^ 32) (hr : decodeString skip value = .error err)
    (hf : err.isForeign = true) : Fails (readStringUnless skip) (putOpaque value) := by
  have hpad := xdrPadding_lt value.length
  rw [putOpaque_eq]
  refine (reads_readU32 _).bind_fails ?_
  rw [toNat_ofNat_length h]
  refine .lift_ok_bind (checkedAdd_eq _ (by omega)) <|
    .require_bind (Nat.le_of_eq (length_opaqueBody value).symm) fun rest => ?_
  rw [StateExcept.run_bind_ok (run_sliceTo_opaqueBody value rest)]
  exact Fails.lift_bind hr hf (opaqueBody value) rest

theorem reads_readU32SkipOpaqueAndReadU32 (x y : UInt32) {value : Bytes}
    (h : value.length < 2 ^ 32) :
    Reads readU32SkipOpaqueAndReadU32 (putU32 x ++ (putOpaque value ++ putU32 y)) (x, y) := by
  have hpad := xdrPadding_lt value.length
  rw [putOpaque_eq, List.append_assoc, ← List.append_assoc]
  refine (reads_readU32Pair _ _).bind ?_
  dsimp only
  rw [toNat_ofNat_length h]
  exact .lift_bind (opaquePaddedLen_eq h) <| .lift_bind (checkedAdd_eq _ (by omega)) <|
    .require_bind (by simp [length_opaqueBody, putU32])
      ((reads_skipBytesAfterRequire (length_opaqueBody value)).bind
        ((reads_readU32AfterRequire y).bind_nil (.pure _)))

end NfsCrust
