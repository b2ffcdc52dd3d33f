import NfsCrust.Compound

/-!
# Replies of a server

What a server sends back for a compound: the result of every operation it
executed successfully and, when it stopped early, the status of the operation it
stopped at.  The results are typed; `OpRes.body` and `CompoundReply.encode` are
their XDR encoding in RFC 5661, which the decoders of `NfsCrust.Compound` read.

## Main definitions

* `OpRes` — the result of a successful operation.
* `Failure` — the operation a server stopped at.
* `Replies`, `Replies.Answers` — a sequence of replies, and that it answers a
  request in order and up to its first failure.
* `CompoundReply` — a whole reply.

## Main results

* `reads_decodeFileHandle`, `reads_decodeReadData`, `reads_decodeFattr`, … — each
  body decoder reads the body the server wrote.
-/

namespace NfsCrust

open BigEndian

/-! ### Values on the wire -/

/-- A byte string that an XDR length word can describe. -/
structure Opaque where
  bytes : Bytes
  short : bytes.length < 2 ^ 32

theorem Opaque.short_nil : ([] : Bytes).length < 2 ^ 32 := by decide

/-- A bitmap that an XDR length word can describe. -/
structure WireBitmap where
  words : List UInt32
  short : words.length < 2 ^ 32

theorem WireBitmap.short_nil : ([] : List UInt32).length < 2 ^ 32 := by decide

def WireBitmap.encode (b : WireBitmap) : Bytes := Bitmap.encode ⟨b.words⟩

structure ChangeInfo where
  atomic : Bool
  before : UInt64
  after : UInt64

def ChangeInfo.encode (c : ChangeInfo) : Bytes :=
  putBool c.atomic ++ (putU64 c.before ++ putU64 c.after)

/-- The delegation an `OPEN` result carries. -/
inductive Delegation
  | none
  /-- `OPEN_DELEGATE_NONE_EXT` with a reason and, for contention and resource
  shortage, whether the server will signal. -/
  | noneExt (why : UInt32) (willSignal : Bool)
  /-- A read or write delegation. -/
  | granted (write : Bool) (body : Bytes)

def Delegation.encode : Delegation → Bytes
  | none => putU32 0
  | noneExt why willSignal =>
      putU32 3 ++ (putU32 why ++ if why = 1 ∨ why = 2 then putBool willSignal else [])
  | granted write body => putU32 (if write then 2 else 1) ++ body

structure OpenRes where
  stateid : StateId
  cinfo : ChangeInfo
  rflags : UInt32
  attrset : WireBitmap
  delegation : Delegation

def OpenRes.encode (r : OpenRes) : Bytes :=
  r.stateid.encode ++ (r.cinfo.encode ++ ((putU32 r.rflags ++ r.attrset.encode)
    ++ r.delegation.encode))

/-- Attributes, as a server returns them: those of the requested ones that it
has, in a bitmap that may end in empty words. -/
structure Fattr where
  fileType : Option UInt32
  size : Option UInt64
  emptyWords : ℕ
  short : emptyWords + 1 < 2 ^ 32

namespace Fattr

def word (a : Fattr) : UInt32 :=
  match a.fileType, a.size with
  | none, none => 0
  | none, some _ => 1 <<< FATTR4_SIZE
  | some _, none => 1 <<< FATTR4_TYPE
  | some _, some _ => (1 <<< FATTR4_TYPE) ||| (1 <<< FATTR4_SIZE)

def values (a : Fattr) : Bytes := a.fileType.elim [] putU32 ++ a.size.elim [] putU64

def encode (a : Fattr) : Bytes :=
  Bitmap.encode ⟨a.word :: List.replicate a.emptyWords 0⟩ ++ putOpaque a.values

/-- The attributes as the client names them. -/
def attrs (a : Fattr) : FileAttrs := { fileType := a.fileType.map .fromRaw, size := a.size }

end Fattr

/-- An entry of a directory listing. -/
structure DirEntryRes where
  cookie : UInt64
  name : Opaque
  bitmap : WireBitmap
  values : Opaque

def DirEntryRes.encode (e : DirEntryRes) : Bytes :=
  putBool true ++ (putU64 e.cookie ++ (putOpaque e.name.bytes
    ++ (e.bitmap.encode ++ putOpaque e.values.bytes)))

/-! ### Results of operations -/

/-- The result of an operation that succeeded. -/
inductive OpRes
  | sequence (sessionid : Vector UInt8 16)
      (sequenceid slotid highestSlotid targetHighestSlotid statusFlags : UInt32)
  | putRootFh
  | putFh
  | lookup
  | saveFh
  | restoreFh
  | verify
  | reclaimComplete
  | getFh (handle : Opaque)
  | getAttr (attrs : Fattr)
  | «open» (res : OpenRes)
  | close (stateid : StateId)
  | read (eof : Bool) (data : Opaque)
  | write (count : UInt32) (committed : WriteStability) (verifier : Verifier)
  | commit (verifier : Verifier)
  | link (cinfo : ChangeInfo)
  | remove (cinfo : ChangeInfo)
  | rename (source target : ChangeInfo)
  | create (cinfo : ChangeInfo) (attrset : WireBitmap)
  | readDir (verifier : Verifier) (entries : List DirEntryRes) (eof : Bool)

namespace OpRes

def opcode : OpRes → OpCode
  | sequence .. => .sequence
  | putRootFh => .putRootFh
  | putFh => .putFh
  | lookup => .lookup
  | saveFh => .saveFh
  | restoreFh => .restoreFh
  | verify => .verify
  | reclaimComplete => .reclaimComplete
  | getFh _ => .getFh
  | getAttr _ => .getAttr
  | «open» _ => .«open»
  | close _ => .close
  | read .. => .read
  | write .. => .write
  | commit _ => .commit
  | link _ => .link
  | remove _ => .remove
  | rename .. => .rename
  | create .. => .create
  | readDir .. => .readDir

/-- The bytes of a result after its operation code and status. -/
def body : OpRes → Bytes
  | sequence sessionid sequenceid slotid highestSlotid targetHighestSlotid statusFlags =>
      sessionid.toList ++ (putU32 sequenceid ++ (putU32 slotid ++ (putU32 highestSlotid
        ++ (putU32 targetHighestSlotid ++ putU32 statusFlags))))
  | putRootFh | putFh | lookup | saveFh | restoreFh | verify | reclaimComplete => []
  | getFh handle => putOpaque handle.bytes
  | getAttr attrs => attrs.encode
  | «open» res => res.encode
  | close stateid => stateid.encode
  | read eof data => putBool eof ++ putOpaque data.bytes
  | write count committed verifier =>
      putU32 count ++ (putU32 committed.toRaw ++ verifier.toList)
  | commit verifier => verifier.toList
  | link cinfo | remove cinfo => cinfo.encode
  | rename source target => source.encode ++ target.encode
  | create cinfo attrset => cinfo.encode ++ attrset.encode
  | readDir verifier entries eof =>
      verifier.toList ++ ((entries.map DirEntryRes.encode).flatten
        ++ (putBool false ++ putBool eof))

def encode (r : OpRes) : Bytes := (putU32 r.opcode.toU32 ++ putU32 0) ++ r.body

end OpRes

/-- The operation a server stopped at, as its reply names it. -/
structure Failure where
  op : OpCode
  status : NfsStatus

namespace Failure

def encode (f : Failure) : Bytes := putU32 f.op.toU32 ++ putU32 f.status.code

/-- `f` is how a server can refuse `op`: with a status other than `OK`, under
the operation's own code or, for an operation it does not know, under
`OP_ILLEGAL`. -/
def Answers (op : OpCode) (f : Failure) : Prop :=
  f.status ≠ .OK ∧ (f.op = op ∨ f.op = .illegal ∧ f.status = .OP_ILLEGAL)

end Failure

/-! ### Replies -/

/-- The replies to the operations of a compound. -/
structure Replies where
  results : List OpRes
  failure : Option Failure

namespace Replies

def encode (t : Replies) : Bytes :=
  (t.results.map OpRes.encode).flatten ++ t.failure.elim [] Failure.encode

def length (t : Replies) : ℕ := t.results.length + if t.failure.isSome then 1 else 0

def status (t : Replies) : NfsStatus := t.failure.elim .OK Failure.status

/-- `t` answers the operations `ops` in order, up to the first that fails. -/
def Answers : List OpCode → Replies → Prop
  | [], t => t.results = [] ∧ t.failure = none
  | op :: _, ⟨[], failure⟩ => ∃ f, failure = some f ∧ f.Answers op
  | op :: ops, ⟨r :: results, failure⟩ => r.opcode = op ∧ Answers ops ⟨results, failure⟩

end Replies

/-- A whole compound reply, with as many replies as an XDR length word can
announce. -/
structure CompoundReply where
  tag : Opaque
  replies : Replies
  short : replies.length < 2 ^ 32

def CompoundReply.encode (r : CompoundReply) : Bytes :=
  putU32 r.replies.status.code ++ (putOpaque r.tag.bytes ++ putU32 (.ofNat r.replies.length))
    ++ r.replies.encode

/-! ### Reading the bodies -/

theorem reads_skipSequenceData (sessionid : Vector UInt8 16) (a b c d e : UInt32) :
    Reads skipSequenceData (OpRes.sequence sessionid a b c d e).body () :=
  reads_skipBytes (by simp [OpRes.body, putU32])

theorem reads_decodeFileHandle {handle : Opaque} (h : handle.bytes.length ≤ 128) :
    Reads decodeFileHandle (putOpaque handle.bytes) ⟨handle.bytes⟩ := by
  refine (reads_readOpaque handle.short).bind_nil ?_
  rw [if_neg (by omega)]
  exact .pure _

theorem fails_decodeFileHandle {handle : Opaque} (h : ¬ handle.bytes.length ≤ 128) :
    Fails decodeFileHandle (putOpaque handle.bytes) := by
  rw [← List.append_nil (putOpaque handle.bytes)]
  refine (reads_readOpaque handle.short).bind_fails ?_
  rw [if_pos (by omega)]
  exact (fails_throw rfl []).bind

theorem reads_decodeReadData (eof : Bool) (data : Opaque) :
    Reads decodeReadData (OpRes.read eof data).body ⟨eof, data.bytes⟩ :=
  (reads_readBoolAndOpaque eof data.short).bind_nil (.pure _)

theorem reads_decodeWriteData (count : UInt32) (committed : WriteStability)
    (verifier : Verifier) :
    Reads decodeWriteData (OpRes.write count committed verifier).body
      ⟨count, committed, verifier⟩ :=
  (reads_readU32PairAndBytes (n := 8) (by omega) _ _ _).bind_nil
    (.lift_bind (WriteStability.fromRaw_toRaw committed) (.pure _))

theorem length_stateid (s : StateId) : s.encode.length = StateId.encodedLen := by
  simp [StateId.encode, putU32, StateId.encodedLen, xdrFixedOpaqueLen, xdrPadding,
    saturatingAdd]

theorem reads_skipStateid (s : StateId) : Reads skipStateid s.encode () :=
  reads_skipBytes (length_stateid s)

theorem reads_decodeStateid (s : StateId) : Reads StateId.decode s.encode s :=
  (reads_readU32AndBytes (n := 12) (by omega) _ _).bind_nil (.pure _)

theorem reads_skipChangeInfo (c : ChangeInfo) : Reads skipChangeInfo c.encode () :=
  (reads_readBoolAndSkip (n := 2 * 8) (by omega) _ (by simp [putU64])).bind_nil (.pure _)

/-! ### Bitmaps and open results -/

/-- A bitmap whose words are there passes the length check. -/
theorem run_requireBitmapWords {len : ℕ} {buf : Bytes} (h : len * 4 ≤ buf.length)
    (hlen : len < 2 ^ 32) : (requireBitmapWords len).run buf = .ok (len * 4, buf) := by
  have h1 : ¬ len * 4 ≥ 2 ^ 64 := by omega
  have h2 : ¬ len * 4 > buf.length := by omega
  simp only [requireBitmapWords, h1, if_false]
  simp only [pure_bind, StateT.run_bind, StateT.run_get, h2, if_false]
  rfl

theorem reads_skipBitmapAfterLen {words : List UInt32} (h : words.length < 2 ^ 32) :
    Reads (skipBitmapAfterLen words.length) (words.map putU32).flatten () := by
  intro rest
  have hlen := length_flatten_putU32 words
  rw [skipBitmapAfterLen, StateT.run_bind,
    run_requireBitmapWords (by rw [List.length_append]; omega) h]
  exact reads_skipBytesAfterRequire hlen rest

theorem reads_skipBitmap (b : WireBitmap) : Reads skipBitmap b.encode () := by
  refine (reads_readU32 _).bind ?_
  rw [toNat_ofNat_length b.short]
  exact reads_skipBitmapAfterLen b.short

/-- A delegation the client can do without. -/
def Delegation.Refused : Delegation → Prop
  | granted .. => False
  | _ => True

theorem reads_decodeOpenDelegation {d : Delegation} (h : d.Refused) :
    Reads decodeOpenDelegation d.encode () := by
  cases d with
  | none => exact (reads_readU32 0).bind_nil (.pure _)
  | noneExt why willSignal =>
    refine (reads_readU32 3).bind ((reads_readU32 why).bind ?_)
    by_cases hw : why = 1 ∨ why = 2
    · rw [if_pos hw, if_pos hw]
      exact (reads_readBool willSignal).bind_nil (.pure _)
    · rw [if_neg hw, if_neg hw]
      exact .pure ()
  | granted write body => exact h.elim

theorem fails_decodeOpenDelegation {d : Delegation} (h : ¬ d.Refused) :
    Fails decodeOpenDelegation d.encode := by
  cases d with
  | none => exact absurd trivial h
  | noneExt why willSignal => exact absurd trivial h
  | granted write body =>
    cases write with
    | false => exact (reads_readU32 1).bind_fails (fails_throw rfl body)
    | true => exact (reads_readU32 2).bind_fails (fails_throw rfl body)

/-- An `OPEN` result the client supports: no delegation, no confirmation. -/
def OpenRes.Supported (r : OpenRes) : Prop := r.delegation.Refused ∧ r.rflags &&& 0x2 = 0

theorem OpenRes.encode_eq (r : OpenRes) :
    r.encode = r.stateid.encode ++ (r.cinfo.encode
      ++ ((putU32 r.rflags ++ putU32 (.ofNat r.attrset.words.length))
        ++ ((r.attrset.words.map putU32).flatten ++ (r.delegation.encode ++ [])))) := by
  simp [OpenRes.encode, WireBitmap.encode, Bitmap.encode]

theorem reads_decodeOpenStateid {r : OpenRes} (h : r.Supported) :
    Reads decodeOpenStateid r.encode r.stateid := by
  rw [r.encode_eq]
  refine (reads_decodeStateid _).bind ((reads_skipChangeInfo _).bind
    ((reads_readU32Pair _ _).bind ?_))
  dsimp only
  rw [toNat_ofNat_length r.attrset.short]
  refine (reads_skipBitmapAfterLen r.attrset.short).bind
    ((reads_decodeOpenDelegation h.1).bind ?_)
  rw [if_neg (by simp [h.2])]
  exact .pure _

theorem fails_decodeOpenStateid {r : OpenRes} (h : ¬ r.Supported) :
    Fails decodeOpenStateid r.encode := by
  rw [r.encode_eq]
  refine (reads_decodeStateid _).bind_fails ((reads_skipChangeInfo _).bind_fails
    ((reads_readU32Pair _ _).bind_fails ?_))
  dsimp only
  rw [toNat_ofNat_length r.attrset.short]
  refine (reads_skipBitmapAfterLen r.attrset.short).bind_fails ?_
  by_cases hd : r.delegation.Refused
  · refine (reads_decodeOpenDelegation hd).bind_fails ?_
    have hr : r.rflags &&& 0x2 ≠ 0 := fun hr => h ⟨hd, hr⟩
    rw [if_pos hr]
    exact (fails_throw rfl []).bind
  · exact (fails_decodeOpenDelegation hd).bind

/-! ### Attributes -/

theorem reads_decodeWords (words : List UInt32) :
    Reads (Bitmap.decodeWords words.length) (words.map putU32).flatten words := by
  induction words with
  | nil => exact .pure []
  | cons w ws ih => exact (reads_readU32AfterRequire w).bind (ih.bind_nil (.pure _))

theorem reads_decodeAfterLen {words : List UInt32} (h : words.length < 2 ^ 32) :
    Reads (Bitmap.decodeAfterLen words.length) (words.map putU32).flatten ⟨words⟩ := by
  intro rest
  have hlen := length_flatten_putU32 words
  rw [Bitmap.decodeAfterLen,
    StateExcept.run_bind_ok (run_requireBitmapWords (by rw [List.length_append]; omega) h),
    StateExcept.run_bind_ok (run_vecWithCapacity (by rw [List.length_append]; omega))]
  exact (reads_decodeWords words).bind_nil (f := fun ws => pure (⟨ws⟩ : Bitmap)) (.pure _) rest

/-- The value of an attribute list may be read once its length is known. -/
theorem Reads.opaqueExtent_bind {β : Type} {f : ℕ → XdrM β} {value : Bytes} {b : β}
    (h : value.length < 2 ^ 32) (hf : Reads (f value.length) (opaqueBody value) b) :
    Reads (readOpaqueExtentLen >>= f) (putOpaque value) b := by
  intro rest
  rw [putOpaque_eq, List.append_assoc, readOpaqueExtentLen, bind_assoc, StateT.run_bind,
    reads_readU32]
  change StateT.run ((liftM (opaquePaddedLen (UInt32.ofNat value.length).toNat) >>= _) >>= f) _ = _
  rw [toNat_ofNat_length h, opaquePaddedLen_eq h, bind_assoc]
  change StateT.run ((require _ >>= _) >>= f) _ = _
  rw [bind_assoc, StateT.run_bind,
    run_require (by rw [List.length_append, length_opaqueBody]; omega)]
  exact hf rest

/-- The attribute numbers a server sets in its bitmap. -/
def Fattr.attrNumbers (a : Fattr) : List UInt32 :=
  match a.fileType, a.size with
  | none, none => []
  | none, some _ => [FATTR4_SIZE]
  | some _, none => [FATTR4_TYPE]
  | some _, some _ => [FATTR4_TYPE, FATTR4_SIZE]

theorem Bitmap.wordAttrs_zero (wordIndex : UInt32) : Bitmap.wordAttrs wordIndex 32 0 = [] := rfl

theorem Fattr.attrs_bitmap (a : Fattr) :
    Bitmap.attrs ⟨a.word :: List.replicate a.emptyWords 0⟩ = a.attrNumbers.map .ok := by
  have hword : Bitmap.wordAttrs (.ofNat 0) 32 a.word = a.attrNumbers.map .ok := by
    obtain ⟨fileType, size, _, _⟩ := a
    cases fileType <;> cases size <;> simp only [Fattr.word, Fattr.attrNumbers] <;> rfl
  have hrest : ∀ l ∈ ((List.replicate a.emptyWords (0 : UInt32)).zipIdx 1).map
      (fun p => Bitmap.wordAttrs (.ofNat p.2) 32 p.1), l = [] := by
    intro l hl
    obtain ⟨⟨w, i⟩, hp, rfl⟩ := List.mem_map.mp hl
    obtain rfl : w = 0 := List.eq_of_mem_replicate (List.fst_mem_of_mem_zipIdx hp)
    exact Bitmap.wordAttrs_zero _
  simp only [Bitmap.attrs, List.zipIdx_cons, List.map_cons, List.flatten_cons, hword]
  rw [List.flatten_eq_nil_iff.mpr hrest, List.append_nil]

/-- The whole value list was consumed, and it needs no padding. -/
theorem reads_finishOpaque {len : ℕ} (h : xdrPadding len = 0) :
    Reads (finishOpaqueAfterRequire len len) [] () := by
  have hlen : opaqueRemainingLen len len = .ok 0 := by
    simp [opaqueRemainingLen, checkedAdd, h]
  exact .lift_bind hlen (reads_skipBytesAfterRequire rfl)

theorem consumeAttrBytes_eq {remaining needed : ℕ} (attr : UInt32) (h : needed ≤ remaining) :
    consumeAttrBytes remaining attr needed = .ok (remaining - needed) := if_neg (by omega)

theorem reads_decodeAttr_type {remaining : ℕ} (attrs : FileAttrs) (raw : UInt32)
    (h : 4 ≤ remaining) :
    Reads (decodeNextAttr (remaining, attrs) (.ok FATTR4_TYPE)) (putU32 raw)
      (remaining - 4, { attrs with fileType := some (.fromRaw raw) }) :=
  .lift_bind rfl <|
    .lift_bind (consumeAttrBytes_eq _ h) ((reads_readU32AfterRequire raw).bind_nil (.pure _))

theorem reads_decodeAttr_size {remaining : ℕ} (attrs : FileAttrs) (size : UInt64)
    (h : 8 ≤ remaining) :
    Reads (decodeNextAttr (remaining, attrs) (.ok FATTR4_SIZE)) (putU64 size)
      (remaining - 8, { attrs with size := some size }) :=
  .lift_bind rfl <|
    .lift_bind (consumeAttrBytes_eq _ h) ((reads_readU64AfterRequire size).bind_nil (.pure _))

theorem Fattr.length_values (a : Fattr) :
    a.values.length = (if a.fileType.isSome then 4 else 0) + if a.size.isSome then 8 else 0 := by
  obtain ⟨fileType, size, _, _⟩ := a
  cases fileType <;> cases size <;> rfl

/-- The values are read in the order of the bitmap, and nothing is left. -/
theorem reads_attrValues (a : Fattr) :
    Reads ((a.attrNumbers.map Except.ok).foldlM decodeNextAttr (a.values.length, {})) a.values
      (0, a.attrs) := by
  rw [a.length_values]
  obtain ⟨fileType, size, _, _⟩ := a
  cases fileType with
  | none =>
    cases size with
    | none => exact .pure _
    | some size => exact (reads_decodeAttr_size {} size (by simp)).bind_nil (.pure _)
  | some fileType =>
    have hroom : 4 ≤ 4 + if size.isSome then 8 else 0 := Nat.le_add_right ..
    have htype := reads_decodeAttr_type {} fileType hroom
    cases size with
    | none => exact htype.bind (.pure _)
    | some size => exact htype.bind ((reads_decodeAttr_size _ size (by simp)).bind_nil (.pure _))

theorem opaqueBody_of_aligned {value : Bytes} (h : xdrPadding value.length = 0) :
    opaqueBody value = value := by
  simp [opaqueBody, putPadding, h]

theorem reads_decodeFattrValues {bitmap : Bitmap} {a : Fattr}
    (h : bitmap.attrs = a.attrNumbers.map .ok) :
    Reads (decodeFattrValues bitmap) (putOpaque a.values) a.attrs := by
  have hlen := a.length_values
  have hpad : xdrPadding a.values.length = 0 := by
    rw [hlen]
    cases a.fileType.isSome <;> cases a.size.isSome <;> rfl
  refine .opaqueExtent_bind (by rw [hlen]; split <;> split <;> omega) ?_
  rw [h, opaqueBody_of_aligned hpad]
  refine (reads_attrValues a).bind_nil ?_
  exact .lift_bind (if_neg (Nat.not_lt_zero _)) ((reads_finishOpaque hpad).bind_nil (.pure _))

theorem reads_decodeSizeAttr (size : UInt64) :
    Reads decodeSizeAttr (putOpaque (putU64 size)) { size := some size } := by
  have hlen : (putU64 size).length = 8 := rfl
  refine .opaqueExtent_bind (by simp [hlen]) <| .lift_bind rfl ?_
  rw [opaqueBody_of_aligned (by rw [hlen]; rfl)]
  refine (reads_readU64AfterRequire size).bind_nil ?_
  rw [if_neg (by simp [hlen])]
  exact .pure _

theorem reads_decodeTypeAndSizeAttrs (fileType : UInt32) (size : UInt64) :
    Reads decodeTypeAndSizeAttrs (putOpaque (putU32 fileType ++ putU64 size))
      { fileType := some (.fromRaw fileType), size := some size } := by
  have hlen : (putU32 fileType ++ putU64 size).length = 12 := rfl
  refine .opaqueExtent_bind (by simp [hlen]) <| .lift_bind rfl ?_
  rw [opaqueBody_of_aligned (by rw [hlen]; rfl)]
  refine (reads_readU32AfterRequire fileType).bind ((reads_readU64AfterRequire size).bind_nil ?_)
  rw [if_neg (by simp [hlen])]
  exact .pure _

/-- The fast paths for one bitmap word give what the general path gives. -/
theorem reads_decodeFattrSingleBitmapWord {a : Fattr} (h : a.emptyWords = 0) :
    Reads (decodeFattrSingleBitmapWord a.word) (putOpaque a.values) a.attrs := by
  have hgeneral := reads_decodeFattrValues a.attrs_bitmap
  rw [h] at hgeneral
  obtain ⟨fileType, size, emptyWords, short⟩ := a
  cases fileType with
  | none =>
    cases size with
    | none =>
      have hw : Fattr.word ⟨none, none, emptyWords, short⟩ = 0 := rfl
      rw [hw] at hgeneral ⊢
      exact hgeneral
    | some size =>
      have hw : Fattr.word ⟨none, some size, emptyWords, short⟩ = 1 <<< FATTR4_SIZE := rfl
      rw [hw, decodeFattrSingleBitmapWord, if_pos rfl]
      exact reads_decodeSizeAttr size
  | some fileType =>
    cases size with
    | none =>
      have hw : Fattr.word ⟨some fileType, none, emptyWords, short⟩ = 1 <<< FATTR4_TYPE := rfl
      rw [hw] at hgeneral ⊢
      exact hgeneral
    | some size =>
      have hw : Fattr.word ⟨some fileType, some size, emptyWords, short⟩
          = (1 <<< FATTR4_TYPE) ||| (1 <<< FATTR4_SIZE) := rfl
      rw [hw, decodeFattrSingleBitmapWord, if_neg (by decide), if_pos rfl]
      exact reads_decodeTypeAndSizeAttrs fileType size

theorem reads_decodeFattr (a : Fattr) : Reads decodeFattr a.encode a.attrs := by
  have hlen : (a.word :: List.replicate a.emptyWords 0).length = a.emptyWords + 1 := by simp
  have hshort := a.short
  rw [Fattr.encode, Bitmap.encode, List.append_assoc, hlen]
  refine (reads_readU32 _).bind ?_
  dsimp only
  rw [toNat_ofNat_length hshort]
  by_cases h : a.emptyWords = 0
  · rw [if_pos (by omega), h]
    simp only [List.replicate_zero, List.map_cons, List.map_nil, List.flatten_cons,
      List.flatten_nil, List.append_nil]
    exact (reads_readU32 _).bind (reads_decodeFattrSingleBitmapWord h)
  · rw [if_neg (by omega), ← hlen]
    exact (reads_decodeAfterLen (by rw [hlen]; exact hshort)).bind
      (reads_decodeFattrValues a.attrs_bitmap)

/-! ### Directory pages -/

/-- A name the client can represent, or skips. -/
def DirEntryRes.Supported (e : DirEntryRes) : Prop :=
  isDotReaddirName e.name.bytes = true ∨ (fromUtf8? e.name.bytes).isSome = true

/-- The entry the client keeps for a listed name. -/
def DirEntryRes.entry? (e : DirEntryRes) : Option DirEntry :=
  if isDotReaddirName e.name.bytes then none else (fromUtf8? e.name.bytes).map .mk

/-- The page a listing gives: the first `limit` entries that are kept, and the
cookie of the last entry consumed. -/
def listingPage (limit : Option ℕ) (verifier : Verifier) (eof : Bool) :
    List DirEntryRes → List DirEntry → UInt64 → DirPage
  | [], entries, lastCookie => { entries, eof, verifier, lastCookie }
  | e :: listed, entries, lastCookie =>
      if limit = some entries.length then { entries, eof := false, verifier, lastCookie }
      else listingPage limit verifier eof listed (entries ++ e.entry?.toList) e.cookie

theorem reads_skipFattr (e : DirEntryRes) :
    Reads skipFattr (e.bitmap.encode ++ putOpaque e.values.bytes) () :=
  (reads_skipBitmap e.bitmap).bind (reads_skipOpaque e.values.short)

theorem DirEntryRes.decodeString_eq {e : DirEntryRes} (h : e.Supported) :
    ∃ name, decodeString isDotReaddirName e.name.bytes = .ok name ∧
      name.map DirEntry.mk = e.entry? := by
  rw [decodeString, DirEntryRes.entry?]
  by_cases hdot : isDotReaddirName e.name.bytes = true
  · exact ⟨none, by simp [hdot], by simp [hdot]⟩
  · obtain ⟨name, hname⟩ := Option.isSome_iff_exists.mp (h.resolve_left hdot)
    exact ⟨some name, by simp [hdot, hname], by simp [hdot, hname]⟩

theorem DirEntryRes.decodeString_error {e : DirEntryRes} (h : ¬ e.Supported) :
    decodeString isDotReaddirName e.name.bytes = .error (.xdr "invalid utf-8 sequence") := by
  obtain ⟨hdot, hname⟩ := not_or.mp h
  rw [decodeString, if_neg hdot, Option.not_isSome_iff_eq_none.mp hname]

/-- The bytes of a listing after its verifier. -/
def listingBody (listed : List DirEntryRes) (eof : Bool) : Bytes :=
  (listed.map DirEntryRes.encode).flatten ++ (putBool false ++ putBool eof)

/-- **Reading a listing.**  The loop gives the page of the listing, or stops at a
name that is not UTF-8. -/
theorem decodeReaddirEntries_spec (limit : Option ℕ) (verifier : Verifier) (eof : Bool) :
    ∀ (listed : List DirEntryRes) (entries : List DirEntry) (lastCookie : UInt64),
      (∀ fuel, listed.length < fuel →
        Yields (decodeReaddirEntries limit verifier fuel entries lastCookie)
          (listingBody listed eof) (listingPage limit verifier eof listed entries lastCookie)) ∨
      (∀ fuel, listed.length < fuel →
        Fails (decodeReaddirEntries limit verifier fuel entries lastCookie)
          (listingBody listed eof)) ∧ ∃ e ∈ listed, ¬ e.Supported := by
  intro listed
  induction listed with
  | nil =>
    refine fun entries lastCookie => Or.inl fun fuel hfuel => ?_
    obtain ⟨fuel, rfl⟩ := Nat.exists_eq_succ_of_ne_zero (by omega : fuel ≠ 0)
    rw [← List.append_nil (listingBody [] eof)]
    refine ((reads_readBool false).bind ?_).yields
    rw [if_pos (by rfl)]
    exact (reads_readBool eof).bind_nil (.pure _)
  | cons e listed ih =>
    intro entries lastCookie
    have hbody : listingBody (e :: listed) eof = putBool true ++ (putU64 e.cookie
        ++ (putOpaque e.name.bytes ++ ((e.bitmap.encode ++ putOpaque e.values.bytes)
          ++ listingBody listed eof))) := by
      simp [listingBody, DirEntryRes.encode]
    have hsucc : ∀ fuel, (e :: listed).length < fuel → ∃ k, fuel = k + 1 ∧ listed.length < k :=
      fun fuel h => ⟨fuel - 1, by simp only [List.length_cons] at h; omega,
        by simp only [List.length_cons] at h; omega⟩
    rw [hbody, listingPage]
    by_cases hlimit : limit = some entries.length
    · -- the page is full: the rest of the listing is left unread
      refine Or.inl fun fuel hfuel => ?_
      obtain ⟨k, rfl, _⟩ := hsucc fuel hfuel
      refine (reads_readBool true).bind_yields ?_
      rw [if_neg (by decide), if_pos hlimit, if_pos hlimit]
      exact (Reads.pure _).yields
    · rw [if_neg hlimit]
      by_cases hname : e.Supported
      · obtain ⟨name, hstring, hentry⟩ := e.decodeString_eq hname
        rcases ih (entries ++ e.entry?.toList) e.cookie with hpage | ⟨hfail, e', he', hbad⟩
        · refine Or.inl fun fuel hfuel => ?_
          obtain ⟨k, rfl, hk⟩ := hsucc fuel hfuel
          refine (reads_readBool true).bind_yields ?_
          rw [if_neg (by decide), if_neg hlimit]
          refine (reads_readU64 _).bind_yields
            ((reads_readStringUnless e.name.short hstring).bind_yields
              ((reads_skipFattr e).bind_yields ?_))
          rw [hentry]
          exact hpage k hk
        · refine Or.inr ⟨fun fuel hfuel => ?_, e', List.mem_cons_of_mem _ he', hbad⟩
          obtain ⟨k, rfl, hk⟩ := hsucc fuel hfuel
          refine (reads_readBool true).bind_fails ?_
          rw [if_neg (by decide), if_neg hlimit]
          refine (reads_readU64 _).bind_fails
            ((reads_readStringUnless e.name.short hstring).bind_fails
              ((reads_skipFattr e).bind_fails ?_))
          rw [hentry]
          exact hfail k hk
      · refine Or.inr ⟨fun fuel hfuel => ?_, e, List.mem_cons_self, hname⟩
        obtain ⟨k, rfl, hk⟩ := hsucc fuel hfuel
        refine (reads_readBool true).bind_fails ?_
        rw [if_neg (by decide), if_neg hlimit]
        exact (reads_readU64 _).bind_fails
          (fails_readStringUnless e.name.short (e.decodeString_error hname) rfl).bind

theorem length_le_listingBody (listed : List DirEntryRes) (eof : Bool) :
    listed.length ≤ (listingBody listed eof).length := by
  induction listed with
  | nil => simp
  | cons e listed ih =>
    have : listingBody (e :: listed) eof = e.encode ++ listingBody listed eof := by
      simp [listingBody]
    rw [this, List.length_append, List.length_cons]
    simp only [DirEntryRes.encode, List.length_append, putBool, putU32, BigEndian.length_be32]
    omega

theorem decodeReaddir_spec (limit : Option ℕ) (verifier : Verifier) (eof : Bool)
    (listed : List DirEntryRes) :
    Yields (decodeReaddir limit) (OpRes.readDir verifier listed eof).body
        (listingPage limit verifier eof listed [] 0) ∨
      Fails (decodeReaddir limit) (OpRes.readDir verifier listed eof).body ∧
        ∃ e ∈ listed, ¬ e.Supported := by
  have hfuel : ∀ rest : Bytes, listed.length < (listingBody listed eof ++ rest).length + 1 := by
    intro rest
    have := length_le_listingBody listed eof
    rw [List.length_append]
    omega
  rcases decodeReaddirEntries_spec limit verifier eof listed [] 0 with hpage | ⟨hfail, hbad⟩
  · refine Or.inl ((reads_readBytes verifier).bind_yields fun rest => ?_)
    rw [run_reserveEntries limit fun n => decodeReaddirEntries limit verifier (n + 1) [] 0]
    exact hpage _ (hfuel rest) rest
  · refine Or.inr ⟨(reads_readBytes verifier).bind_fails fun rest => ?_, hbad⟩
    rw [run_reserveEntries limit fun n => decodeReaddirEntries limit verifier (n + 1) [] 0]
    exact hfail _ (hfuel rest) rest

end NfsCrust
