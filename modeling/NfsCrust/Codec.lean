import NfsCrust.Ops

/-!
# Result bodies of a compound reply

The decoders of `src/nfs4/codec.rs` for what one operation returns: handles,
read and write results, open state, attributes and directory pages.

## Main definitions

* `decodeSequenceResult` — the check every reply has to pass first.
* `decodeFileHandle`, `decodeReadData`, `decodeWriteData`, `decodeOpenStateid`.
* `decodeFattr`, with its fast paths `decodeSizeAttr`, `decodeTypeAndSizeAttrs`.
* `decodeReaddir`.
-/

namespace NfsCrust

/-! ### `SEQUENCE` -/

structure SequenceResult where
  highestSlotid : UInt32
  targetHighestSlotid : UInt32
  statusFlags : UInt32
  deriving DecidableEq, Repr

/-- The `SEQUENCE` result a reply begins with: it must echo the session, the
sequence id and the slot of the request. -/
def decodeSequence (expectedSessionid : Vector UInt8 16)
    (expectedSequenceid expectedSlotid : UInt32) : XdrM SequenceResult := do
  let (compoundStatus, replyCount) ← readU32SkipOpaqueAndReadU32
  if replyCount = 0 then
    let status : NfsStatus := ⟨compoundStatus⟩
    if status.isOk then
      throw (.protocol "successful compound response omitted its SEQUENCE result")
    else throw (.ofStatus status .sequence)
  else
    let (op, statusRaw) ← readU32Pair
    if op ≠ OpCode.sequence.toU32 then
      match OpCode.fromU32? op with
      | none => throw (.protocol s!"unknown NFS operation {op}")
      | some returned =>
          throw (.protocol ("compound response began with " ++ returned.debug
            ++ ", expected SEQUENCE"))
    else
      let status : NfsStatus := ⟨statusRaw⟩
      if !status.isOk then throw (.ofStatus status .sequence)
      else
        let sessionid ← readBytes 16
        let sequenceid ← readU32
        let slotid ← readU32
        let highestSlotid ← readU32
        let targetHighestSlotid ← readU32
        let statusFlags ← readU32
        if sessionid ≠ expectedSessionid then
          throw (.protocol "SEQUENCE response session ID mismatch")
        else if sequenceid ≠ expectedSequenceid then
          throw (.protocol (s!"SEQUENCE response sequence ID {sequenceid} did not match request "
            ++ s!"{expectedSequenceid}"))
        else if slotid ≠ expectedSlotid then
          throw (.protocol (s!"SEQUENCE response slot ID {slotid} did not match request "
            ++ s!"{expectedSlotid}"))
        else return { highestSlotid, targetHighestSlotid, statusFlags }

def decodeSequenceResult (response : Bytes) (expectedSessionid : Vector UInt8 16)
    (expectedSequenceid expectedSlotid : UInt32) : Except Error SequenceResult :=
  (decodeSequence expectedSessionid expectedSequenceid expectedSlotid).run' response

/-! ### Result bodies -/

def skipSequenceData : XdrM Unit := skipBytes (16 + 5 * 4)

def decodeFileHandle : XdrM FileHandle := do
  let handle ← readOpaque
  let len := handle.length
  if len > 128 then
    throw (.protocol (s!"server returned a {len}-byte filehandle, "
      ++ "exceeding the NFSv4 maximum of 128"))
  return ⟨handle⟩

def decodeReadData : XdrM ReadData := do
  let (eof, data) ← readBoolAndOpaque
  return { eof, data }

def decodeWriteData : XdrM WriteData := do
  let (count, committed, verifier) ← readU32PairAndBytes 8
  let committed ← WriteStability.fromRaw committed
  return { count, committed, verifier }

/-- A changed verifier means the server lost what was written. -/
def ensureWriteVerifier (expected actual : Verifier) : Except Error Unit :=
  if actual ≠ expected then
    .error (.connectionLost "NFS write verifier changed before COMMIT completed")
  else .ok ()

theorem ensureWriteVerifier_self (v : Verifier) : ensureWriteVerifier v v = .ok () :=
  if_neg (not_not_intro rfl)

theorem ensureWriteVerifier_of_ne {expected actual : Verifier} (h : actual ≠ expected) :
    ensureWriteVerifier expected actual
      = .error (.connectionLost "NFS write verifier changed before COMMIT completed") := if_pos h

def skipStateid : XdrM Unit := skipBytes StateId.encodedLen

def skipChangeInfo : XdrM Unit := do
  let _atomic ← readBoolAndSkip (2 * 8)
  return ()

def requireBitmapWords (len : ℕ) : XdrM ℕ := do
  if len * 4 ≥ 2 ^ 64 then throw (.xdr "bitmap byte length overflow")
  if len * 4 > (← get).length then
    throw (.xdr s!"bitmap length {len} exceeds remaining XDR words")
  return len * 4

def skipBitmapAfterLen (len : ℕ) : XdrM Unit := do
  let bytes ← requireBitmapWords len
  skipBytesAfterRequire bytes

def skipBitmap : XdrM Unit := do
  let len ← readU32
  skipBitmapAfterLen len.toNat

def decodeOpenDelegation : XdrM Unit := do
  let delegationType ← readU32
  if delegationType = 0 then return ()
  else if delegationType = 3 then
    let why ← readU32
    if why = 1 ∨ why = 2 then
      let _serverWillSignal ← readBool
    return ()
  else if delegationType = 1 ∨ delegationType = 2 then
    throw (.unsupported "server returned an OPEN delegation; callbacks are not implemented")
  else throw (.protocol s!"server returned invalid OPEN delegation type {delegationType}")

def decodeOpenStateid : XdrM StateId := do
  let stateid ← StateId.decode
  skipChangeInfo
  let (rflags, attrsSetLen) ← readU32Pair
  skipBitmapAfterLen attrsSetLen.toNat
  decodeOpenDelegation
  if rflags &&& 0x2 ≠ 0 then
    throw (.unsupported "server requested OPEN_CONFIRM, which is obsolete in NFSv4.1")
  return stateid

/-! ### Attributes -/

def Bitmap.decodeWords : ℕ → XdrM (List UInt32)
  | 0 => return []
  | n + 1 => do
      let word ← readU32AfterRequire
      let words ← decodeWords n
      return word :: words

def Bitmap.decodeAfterLen (len : ℕ) : XdrM Bitmap := do
  let _ ← requireBitmapWords len
  vecWithCapacity len 4
  return ⟨← Bitmap.decodeWords len⟩

/-- The number of zero bits below the lowest set bit. -/
def trailingZeros (word : UInt32) : ℕ :=
  ((List.range 32).find? fun i => word.toNat.testBit i).getD 32

/-- `current_word_index * 32 + bit` in `u32`, which panics on overflow. -/
def Bitmap.attrNumber (wordIndex : UInt32) (bit : ℕ) : Except Error UInt32 :=
  if wordIndex.toNat * 32 + bit < 2 ^ 32 then .ok (wordIndex * 32 + .ofNat bit)
  else .error (.panic "attempt to multiply with overflow")

/-- The attributes of one bitmap word: the lowest set bit is taken and cleared,
until none is left. -/
def Bitmap.wordAttrs (wordIndex : UInt32) : ℕ → UInt32 → List (Except Error UInt32)
  | 0, _ => []
  | fuel + 1, word =>
      if word = 0 then []
      else Bitmap.attrNumber wordIndex (trailingZeros word)
        :: wordAttrs wordIndex fuel (word &&& (word - 1))

/-- The attribute numbers `BitmapAttrs` yields, one `next` at a time. -/
def Bitmap.attrs (bitmap : Bitmap) : List (Except Error UInt32) :=
  (bitmap.words.zipIdx.map fun (word, index) => Bitmap.wordAttrs (.ofNat index) 32 word).flatten

def consumeAttrBytes (valueRemaining : ℕ) (attr : UInt32) (needed : ℕ) : Except Error ℕ :=
  if valueRemaining < needed then
    .error (.xdr s!"attribute {attr} requires {needed} bytes, only {valueRemaining} remain")
  else .ok (valueRemaining - needed)

/-- Read the value of one attribute, with the bytes of the value list that
remain. -/
def decodeAttr (state : ℕ × FileAttrs) (attr : UInt32) : XdrM (ℕ × FileAttrs) := do
  let (valueRemaining, attrs) := state
  if attr = FATTR4_TYPE then
    let valueRemaining ← consumeAttrBytes valueRemaining attr 4
    let raw ← readU32AfterRequire
    return (valueRemaining, { attrs with fileType := some (.fromRaw raw) })
  else if attr = FATTR4_SIZE then
    let valueRemaining ← consumeAttrBytes valueRemaining attr 8
    let size ← readU64AfterRequire
    return (valueRemaining, { attrs with size := some size })
  else if attr = FATTR4_MODE then
    let valueRemaining ← consumeAttrBytes valueRemaining attr 4
    let _mode ← readU32AfterRequire
    return (valueRemaining, attrs)
  else
    throw (.unsupported s!"server returned unrequested or unsupported attribute {attr}")

/-- A turn of the loop over `BitmapAttrs`. -/
def decodeNextAttr (state : ℕ × FileAttrs) (next : Except Error UInt32) :
    XdrM (ℕ × FileAttrs) := do
  decodeAttr state (← next)

def decodeFattrValues (bitmap : Bitmap) : XdrM FileAttrs := do
  let len ← readOpaqueExtentLen
  let (valueRemaining, attrs) ← bitmap.attrs.foldlM decodeNextAttr (len, {})
  finishOpaqueAfterRequire len (← usizeSub len valueRemaining)
  return attrs

def requireAttrLen (actual needed : ℕ) : Except Error Unit :=
  if actual < needed then
    .error (.xdr s!"attribute value length {actual} is shorter than required {needed} bytes")
  else .ok ()

def decodeSizeAttr : XdrM FileAttrs := do
  let len ← readOpaqueExtentLen
  requireAttrLen len 8
  let size ← readU64AfterRequire
  if len > 8 then finishOpaqueAfterRequire len 8
  return { size := some size }

def decodeTypeAndSizeAttrs : XdrM FileAttrs := do
  let len ← readOpaqueExtentLen
  requireAttrLen len 12
  let fileType ← readU32AfterRequire
  let size ← readU64AfterRequire
  if len > 12 then finishOpaqueAfterRequire len 12
  return { fileType := some (.fromRaw fileType), size := some size }

def decodeFattrSingleBitmapWord (bitmapWord : UInt32) : XdrM FileAttrs :=
  if bitmapWord = 1 <<< FATTR4_SIZE then decodeSizeAttr
  else if bitmapWord = (1 <<< FATTR4_TYPE) ||| (1 <<< FATTR4_SIZE) then decodeTypeAndSizeAttrs
  else decodeFattrValues ⟨[bitmapWord]⟩

def decodeFattr : XdrM FileAttrs := do
  let bitmapLen := (← readU32).toNat
  if bitmapLen = 1 then
    let bitmapWord ← readU32
    decodeFattrSingleBitmapWord bitmapWord
  else
    let bitmap ← Bitmap.decodeAfterLen bitmapLen
    decodeFattrValues bitmap

def skipFattr : XdrM Unit := do
  skipBitmap
  skipOpaque

/-! ### Directory pages -/

def isDotReaddirName (name : Bytes) : Bool := name == utf8 "." || name == utf8 ".."

/-- The loop of `decode_readdir`.  Every round consumes bytes, so the number of
bytes is enough fuel. -/
def decodeReaddirEntries (entryLimit : Option ℕ) (verifier : Verifier) :
    ℕ → List DirEntry → UInt64 → XdrM DirPage
  | 0, _, _ => throw (.panic "READDIR reply without end")
  | fuel + 1, entries, lastCookie => do
      let hasEntry ← readBool
      if !hasEntry then
        let eof ← readBool
        return { entries, eof, verifier, lastCookie }
      if entryLimit = some entries.length then
        return { entries, eof := false, verifier, lastCookie }
      let cookie ← readU64
      let name ← readStringUnless isDotReaddirName
      skipFattr
      let entries := entries ++ (name.map DirEntry.mk).toList
      decodeReaddirEntries entryLimit verifier fuel entries cookie

def READDIR_DECODE_PREALLOC_LIMIT : ℕ := 256

def readdirEntriesCapacity (remaining : ℕ) (maxEntries : Option ℕ) : ℕ :=
  let hinted := min (remaining / READDIR_ENTRY_BYTE_HINT) READDIR_DECODE_PREALLOC_LIMIT
  (maxEntries.map (min hinted)).getD hinted

theorem readdirEntriesCapacity_le (remaining : ℕ) (maxEntries : Option ℕ) :
    readdirEntriesCapacity remaining maxEntries * READDIR_ENTRY_BYTE_HINT ≤ remaining := by
  have hhint : readdirEntriesCapacity remaining maxEntries
      ≤ remaining / READDIR_ENTRY_BYTE_HINT := by
    cases maxEntries with
    | none => exact Nat.min_le_left _ _
    | some maxEntries => exact Nat.le_trans (Nat.min_le_left _ _) (Nat.min_le_left _ _)
  exact (Nat.le_div_iff_mul_le (by decide)).mp hhint

/-- The space for the entries is always there to reserve. -/
theorem run_reserveEntries {α : Type} (maxEntries : Option ℕ) (decode : ℕ → XdrM α)
    (buf : Bytes) :
    StateT.run (do
      let remaining := (← get).length
      vecWithCapacity (readdirEntriesCapacity remaining maxEntries) READDIR_ENTRY_BYTE_HINT
      decode remaining) buf = (decode buf.length).run buf := by
  rw [StateExcept.run_get_bind]
  exact StateExcept.run_bind_ok (run_vecWithCapacity (readdirEntriesCapacity_le _ maxEntries))

def decodeReaddir (maxEntries : Option ℕ) : XdrM DirPage := do
  let verifier ← readBytes 8
  let remaining := (← get).length
  vecWithCapacity (readdirEntriesCapacity remaining maxEntries) READDIR_ENTRY_BYTE_HINT
  decodeReaddirEntries maxEntries verifier (remaining + 1) [] 0

end NfsCrust
