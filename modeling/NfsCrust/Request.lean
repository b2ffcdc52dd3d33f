import NfsCrust.Exchange
import NfsCrust.Limits
import NfsCrust.Rpc.Writing

/-!
# Requests on the wire

How a compound becomes the bytes of a call, from `src/nfs4/codec.rs`.  The session
decides whether a request fits from lengths it computes without encoding it; here
these lengths are compared with the bytes.

A compound with a `SEQUENCE` is encoded in segments, so that the data of a `WRITE`
is not copied: a segment ends with the length word of the data, the data is a segment
of its own, and the next one begins with its padding.

## Main definitions

* `SequenceArgs`, `encodeCompound`, `encodeCompoundWithSequence` — the encoders.

## Main results

* `NfsOp.encodedLen_eq`, `compoundEncodedLen_eq_length` — the computed lengths.
* `segments_encodeCompoundWithSequence` — the segments are the compound, and the data of a
  `WRITE` is one of them.
* `request_lengths` — the lengths of a request and of its record, and the requests that
  reach the transport.
-/

namespace NfsCrust

open BigEndian Interaction Rpc.Framing

def NFS_PROGRAM : UInt32 := 100003

def NFS_VERSION : UInt32 := 4

def NFS_MINOR_VERSION : UInt32 := 1

def NFSPROC4_COMPOUND : UInt32 := 1

/-- The arguments of `SEQUENCE`. -/
structure SequenceArgs where
  sessionid : Vector UInt8 16
  sequenceid : UInt32
  slotid : UInt32
  highestSlotid : UInt32
  cachethis : Bool
  deriving DecidableEq, Repr, Inhabited

/-! ### Encoders -/

def encodeSequenceOp (sequence : SequenceArgs) : Bytes :=
  putU32 OpCode.sequence.toU32 ++ sequence.sessionid.toList ++ putU32 sequence.sequenceid
    ++ putU32 sequence.slotid ++ putU32 sequence.highestSlotid ++ putBool sequence.cachethis

def encodeCompoundInner (tag : String) (sequence : Option SequenceArgs) (ops : List NfsOp) :
    Bytes :=
  let opCount := if sequence.isSome then saturatingAdd ops.length 1 else ops.length
  putString tag ++ putU32 NFS_MINOR_VERSION ++ putU32 (.ofNat opCount)
    ++ sequence.elim [] encodeSequenceOp ++ ops.flatMap NfsOp.encode

def encodeCompound (tag : String) (ops : List NfsOp) : Bytes := encodeCompoundInner tag none ops

/-- The loop over the operations, with the finished segments and the one that is being
written. -/
def encodeSegments : List NfsOp → List Bytes → Bytes → List Bytes
  | [], segments, enc => segments ++ [enc]
  | .write stateid offset data :: ops, segments, enc =>
      let enc := enc ++ putU32 OpCode.write.toU32 ++ stateid.encode ++ putU64 (.ofNat offset)
        ++ putU32 WriteStability.unstable.toRaw ++ putU32 (.ofNat data.length)
      encodeSegments ops (segments ++ [enc, data]) (zeroPadding (xdrPadding data.length))
  | op :: ops, segments, enc => encodeSegments ops segments (enc ++ op.encode)

def encodeCompoundWithSequence (tag : String) (sequence : SequenceArgs) (ops : List NfsOp) :
    RpcPayload :=
  let enc := putString tag ++ putU32 NFS_MINOR_VERSION
    ++ putU32 (.ofNat (saturatingAdd ops.length 1)) ++ encodeSequenceOp sequence
  .fromSegments (encodeSegments ops [] enc)

/-! ### Segments -/

theorem flatten_push (payload : RpcPayload) (segment : Bytes) :
    (payload.push segment).segments.flatten = payload.segments.flatten ++ segment := by
  unfold RpcPayload.push
  split
  · next hempty => rw [List.isEmpty_iff.mp hempty, List.append_nil]
  · rw [List.flatten_append, List.flatten_singleton]

theorem flatten_fromSegments (segments : List Bytes) :
    (RpcPayload.fromSegments segments).segments.flatten = segments.flatten := by
  have hfold : ∀ payload : RpcPayload, (segments.foldl RpcPayload.push payload).segments.flatten =
      payload.segments.flatten ++ segments.flatten := by
    induction segments with
    | nil => exact fun payload => (List.append_nil _).symm
    | cons segment segments ih =>
      intro payload
      rw [List.foldl_cons, ih, flatten_push, List.flatten_cons, List.append_assoc]
  exact hfold .empty

/-- The data of a `WRITE` is where its operation has it. -/
theorem flatten_encodeSegments (ops : List NfsOp) (segments : List Bytes) (enc : Bytes) :
    (encodeSegments ops segments enc).flatten =
      segments.flatten ++ enc ++ ops.flatMap NfsOp.encode := by
  fun_induction encodeSegments ops segments enc with
  | case1 segments enc => simp
  | case2 stateid offset data ops segments enc enc' ih =>
    have hpadding : zeroPadding (xdrPadding data.length) = putPadding data.length := rfl
    rw [ih, hpadding]
    simp [enc', NfsOp.encode, NfsOp.opcode, NfsOp.encodeArgs, putOpaque_eq, opaqueBody]
  | case3 segments enc op ops hne ih => rw [ih, List.flatMap_cons]; simp

/-- **The segments of a request are the compound.** -/
theorem flatten_encodeCompoundWithSequence (tag : String) (sequence : SequenceArgs)
    (ops : List NfsOp) : (encodeCompoundWithSequence tag sequence ops).segments.flatten =
      encodeCompoundInner tag (some sequence) ops := by
  unfold encodeCompoundWithSequence
  rw [flatten_fromSegments, flatten_encodeSegments]
  simp [encodeCompoundInner]

/-- The finished segments stay in front. -/
theorem encodeSegments_append (finished : List Bytes) (ops : List NfsOp) (segments : List Bytes)
    (enc : Bytes) :
    encodeSegments ops (finished ++ segments) enc = finished ++ encodeSegments ops segments enc := by
  fun_induction encodeSegments ops segments enc with
  | case1 segments enc => exact List.append_assoc _ _ _
  | case2 stateid offset data ops segments enc enc' ih =>
    rw [← ih, ← List.append_assoc]
    rfl
  | case3 segments enc op ops hne ih => rw [← ih, encodeSegments.eq_3 _ _ _ _ hne]

/-- The loop in the middle of its operations. -/
theorem exists_encodeSegments_append (before after : List NfsOp) (segments : List Bytes)
    (enc : Bytes) : ∃ segments' enc',
      encodeSegments (before ++ after) segments enc = encodeSegments after segments' enc' ∧
      segments'.flatten ++ enc' = segments.flatten ++ enc ++ before.flatMap NfsOp.encode := by
  fun_induction encodeSegments before segments enc with
  | case1 segments enc => exact ⟨segments, enc, rfl, by simp⟩
  | case2 stateid offset data ops segments enc enc' ih =>
    obtain ⟨segments', enc'', hloop, hbytes⟩ := ih
    refine ⟨segments', enc'', hloop, ?_⟩
    have hpadding : zeroPadding (xdrPadding data.length) = putPadding data.length := rfl
    rw [hbytes, hpadding]
    simp [enc', NfsOp.encode, NfsOp.opcode, NfsOp.encodeArgs, putOpaque_eq, opaqueBody]
  | case3 segments enc op ops hne ih =>
    obtain ⟨segments', enc', hloop, hbytes⟩ := ih
    refine ⟨segments', enc', ?_, ?_⟩
    · rw [List.cons_append, encodeSegments.eq_3 _ _ _ _ hne, hloop]
    · rw [hbytes, List.flatMap_cons]
      simp

theorem segments_push (payload : RpcPayload) (segment : Bytes) :
    (payload.push segment).segments
      = payload.segments ++ [segment].filter fun segment => !segment.isEmpty := by
  unfold RpcPayload.push
  split
  · next hempty => simp [hempty]
  · next hempty => simp [hempty]

/-- Only empty segments are left out. -/
theorem segments_fromSegments (segments : List Bytes) :
    (RpcPayload.fromSegments segments).segments = segments.filter fun segment => !segment.isEmpty := by
  have hfold : ∀ payload : RpcPayload, (segments.foldl RpcPayload.push payload).segments
      = payload.segments ++ segments.filter fun segment => !segment.isEmpty := by
    induction segments with
    | nil => exact fun payload => (List.append_nil _).symm
    | cons segment segments ih =>
      intro payload
      rw [List.foldl_cons, ih, segments_push, List.append_assoc, ← List.filter_append]
      rfl
  exact hfold .empty

/-- A `WRITE` up to its data. -/
def writeHead (stateid : StateId) (offset : ℕ) (data : Bytes) : Bytes :=
  putU32 OpCode.write.toU32 ++ stateid.encode ++ putU64 (.ofNat offset)
    ++ putU32 WriteStability.unstable.toRaw ++ putU32 (.ofNat data.length)

theorem encodeSegments_write (stateid : StateId) (offset : ℕ) (data : Bytes) (ops : List NfsOp)
    (segments : List Bytes) (enc : Bytes) :
    encodeSegments (.write stateid offset data :: ops) segments enc
      = (segments ++ [enc ++ writeHead stateid offset data])
        ++ data :: encodeSegments ops [] (zeroPadding (xdrPadding data.length)) := by
  have hfinished := encodeSegments_append
    (segments ++ [enc ++ writeHead stateid offset data, data]) ops []
    (zeroPadding (xdrPadding data.length))
  rw [List.append_nil] at hfinished
  rw [encodeSegments]
  simpa [writeHead] using hfinished

/-- What a request has before its operations. -/
def compoundHead (tag : String) (sequence : SequenceArgs) (ops : List NfsOp) : Bytes :=
  putString tag ++ putU32 NFS_MINOR_VERSION ++ putU32 (.ofNat (saturatingAdd ops.length 1))
    ++ encodeSequenceOp sequence

/-- **Scatter and gather.**  The segments of a request, one after the other, are the bytes of
the plain encoder; the data of each `WRITE` that has any is a segment of its own, between the
bytes that come before it and the rest; and the length of the payload is that of its segments,
which is exact as long as it is a `usize`. -/
theorem segments_encodeCompoundWithSequence (tag : String) (sequence : SequenceArgs)
    (ops : List NfsOp) :
    (encodeCompoundWithSequence tag sequence ops).segments.flatten
      = encodeCompoundInner tag (some sequence) ops ∧
    (∀ before stateid offset data after, ops = before ++ .write stateid offset data :: after →
      data ≠ [] → ∃ front back,
        (encodeCompoundWithSequence tag sequence ops).segments = front ++ data :: back ∧
        front.flatten = compoundHead tag sequence ops ++ before.flatMap NfsOp.encode
          ++ writeHead stateid offset data) ∧
    (encodeCompoundWithSequence tag sequence ops).len
      = min ((encodeCompoundWithSequence tag sequence ops).segments.map List.length).sum
        (2 ^ 64 - 1) := by
  refine ⟨flatten_encodeCompoundWithSequence tag sequence ops, ?_, ?_⟩
  · rintro before stateid offset data after rfl hdata
    obtain ⟨segments, enc, hloop, hbytes⟩ := exists_encodeSegments_append before
      (.write stateid offset data :: after) []
      (compoundHead tag sequence (before ++ .write stateid offset data :: after))
    have hsegments : (encodeCompoundWithSequence tag sequence
        (before ++ .write stateid offset data :: after)).segments
        = ((segments ++ [enc ++ writeHead stateid offset data])
          ++ data :: encodeSegments after [] (zeroPadding (xdrPadding data.length))).filter
            fun segment => !segment.isEmpty := by
      rw [← encodeSegments_write, ← hloop, ← segments_fromSegments]
      rfl
    have hfront : ((segments ++ [enc ++ writeHead stateid offset data]).filter
        fun segment => !segment.isEmpty).flatten
          = compoundHead tag sequence (before ++ .write stateid offset data :: after)
            ++ before.flatMap NfsOp.encode ++ writeHead stateid offset data := by
      rw [← segments_fromSegments, flatten_fromSegments, List.flatten_append,
        List.flatten_singleton, ← List.append_assoc, hbytes]
      rfl
    rw [List.filter_append, List.filter_cons_of_pos (by simpa using hdata)] at hsegments
    exact ⟨_, _, hsegments, hfront⟩
  · rw [RpcPayload.len_eq, List.length_flatten]

/-! ### Lengths -/

@[simp] theorem length_putU32 (x : UInt32) : (putU32 x).length = 4 := rfl

@[simp] theorem length_putU64 (x : UInt64) : (putU64 x).length = 8 := rfl

@[simp] theorem length_putBool (b : Bool) : (putBool b).length = 4 := rfl

theorem length_putOpaque (value : Bytes) :
    (putOpaque value).length = 4 + (value.length + xdrPadding value.length) := by
  rw [putOpaque_eq, List.length_append, length_putU32, length_opaqueBody]

theorem StateId.encodedLen_eq : StateId.encodedLen = 16 := rfl

@[simp] theorem StateId.length_encode (s : StateId) : s.encode.length = 16 := by
  simp [StateId.encode]

theorem Bitmap.encodedLen_eq (b : Bitmap) :
    b.encodedLen = min b.encode.length (2 ^ 64 - 1) := by
  rw [Bitmap.encodedLen, Bitmap.encode, List.length_append, length_flatten_putU32,
    length_putU32, saturatingAdd]
  omega

theorem xdrOpaqueLen_eq (value : Bytes) :
    xdrOpaqueLen value.length = min (putOpaque value).length (2 ^ 64 - 1) := by
  rw [length_putOpaque, xdrOpaqueLen, xdrFixedOpaqueLen, saturatingAdd, saturatingAdd]
  omega

theorem xdrStringLen_eq (value : String) :
    xdrStringLen value = min (putString value).length (2 ^ 64 - 1) :=
  xdrOpaqueLen_eq (utf8 value)

theorem SetAttrs.length_encode (a : SetAttrs) :
    a.encode.length = 8 + a.bitmapWords * 4 + a.valuesLen := by
  have hwords : ((List.range a.bitmapWords).map fun i => putU32 (a.bitmapWord i)).flatten.length
      = a.bitmapWords * 4 := by
    have := length_flatten_putU32 ((List.range a.bitmapWords).map a.bitmapWord)
    rwa [List.map_map, List.length_map, List.length_range] at this
  have hvalues : (a.size.elim [] fun size => putU64 (.ofNat size)).length
      + (a.mode.elim [] putU32).length = a.valuesLen := by
    obtain ⟨size, mode⟩ := a
    cases size <;> cases mode <;> rfl
  simp only [encode, List.length_append, length_putU32, hwords]
  omega

/-- Only which attributes are set matters. -/
theorem SetAttrs.encodedLen_eq {a b : SetAttrs} (hsize : a.size.isSome = b.size.isSome)
    (hmode : a.mode.isSome = b.mode.isSome) : a.encodedLen = b.encode.length := by
  have hwords : b.bitmapWords = a.bitmapWords := by rw [bitmapWords, bitmapWords, hsize, hmode]
  have hvalues : b.valuesLen = a.valuesLen := by rw [valuesLen, valuesLen, hsize, hmode]
  have hle : a.bitmapWords ≤ 2 := by
    unfold bitmapWords
    split
    · decide
    · split <;> decide
  have hpadding : xdrPadding a.valuesLen = 0 := by
    unfold valuesLen
    split <;> split <;> rfl
  have hlen : a.valuesLen ≤ 12 := by
    unfold valuesLen
    split <;> split <;> decide
  rw [length_encode, encodedLen, xdrOpaqueLen, xdrFixedOpaqueLen, hpadding, hwords, hvalues]
  simp only [saturatingAdd]
  omega

theorem saturatingEncodedLen_eq (parts : List ℕ) :
    saturatingEncodedLen parts = min parts.sum (2 ^ 64 - 1) := by
  have hfold : ∀ total, parts.foldl saturatingAdd (min total (2 ^ 64 - 1))
      = min (total + parts.sum) (2 ^ 64 - 1) := by
    induction parts with
    | nil => exact fun total => rfl
    | cons part parts ih =>
      intro total
      have hstep : saturatingAdd (min total (2 ^ 64 - 1)) part = min (total + part) (2 ^ 64 - 1) := by
        rw [saturatingAdd]
        omega
      rw [List.foldl_cons, hstep, ih, List.sum_cons, Nat.add_assoc]
  have := hfold 0
  rwa [Nat.zero_add, Nat.zero_min] at this

/-- **The length of an operation.** -/
theorem NfsOp.encodedLen_eq (op : NfsOp) :
    op.encodedLen = min op.encode.length (2 ^ 64 - 1) := by
  have hargs : op.argsLen = min op.encodeArgs.length (2 ^ 64 - 1) := by
    cases op with
    | putRootFh | saveFh | restoreFh | getFh => rfl
    | putFh fh => exact xdrOpaqueLen_eq fh.bytes
    | lookup name | link name | remove name => exact xdrStringLen_eq name
    | verify size =>
      have hattrs := SetAttrs.encodedLen_eq (a := ⟨some 0, none⟩) (b := ⟨some size, none⟩) rfl rfl
      have hle : SetAttrs.encodedLen ⟨some 0, none⟩ ≤ 2 ^ 64 - 1 := Nat.min_le_right _ _
      rw [argsLen, encodeArgs, ← hattrs]
      omega
    | getAttr bitmap => exact bitmap.encodedLen_eq
    | «open» seqid clientid owner name fileMode =>
      have hattrs := SetAttrs.encodedLen_eq (a := ⟨some 0, some 0⟩) (b := ⟨some 0, some fileMode⟩)
        rfl rfl
      have howner := xdrOpaqueLen_eq owner
      have hname := xdrStringLen_eq name
      simp only [argsLen, encodeArgs, saturatingEncodedLen_eq, saturatingAdd, List.sum_cons,
        List.sum_nil, List.length_append, length_putU32, length_putU64]
      omega
    | close seqid stateid => simp [argsLen, encodeArgs, saturatingAdd, StateId.encodedLen_eq]
    | read stateid offset count =>
      simp [argsLen, encodeArgs, saturatingEncodedLen_eq, StateId.encodedLen_eq]
    | write stateid offset data =>
      have hdata := xdrOpaqueLen_eq data
      simp only [argsLen, encodeArgs, saturatingEncodedLen_eq, List.sum_cons, List.sum_nil,
        List.length_append, length_putU32, length_putU64, StateId.encodedLen_eq,
        StateId.length_encode]
      omega
    | commit offset count => rfl
    | rename oldName newName =>
      have hold := xdrStringLen_eq oldName
      have hnew := xdrStringLen_eq newName
      simp only [argsLen, encodeArgs, saturatingAdd, List.length_append]
      omega
    | createDir name mode =>
      have hattrs := SetAttrs.encodedLen_eq (a := ⟨none, some 0⟩) (b := ⟨none, some mode⟩) rfl rfl
      have hname := xdrStringLen_eq name
      simp only [argsLen, encodeArgs, saturatingEncodedLen_eq, List.sum_cons, List.sum_nil,
        List.length_append, length_putU32]
      omega
    | readDir cookie verifier dircount maxcount attrs =>
      have hattrs := attrs.encodedLen_eq
      have hverifier : xdrFixedOpaqueLen 8 = 8 := rfl
      simp only [argsLen, encodeArgs, saturatingEncodedLen_eq, List.sum_cons, List.sum_nil,
        List.length_append, length_putU32, length_putU64, Vector.length_toList]
      omega
    | exchangeId verifier owner =>
      have howner := xdrOpaqueLen_eq owner
      have hverifier : xdrFixedOpaqueLen 8 = 8 := rfl
      simp only [argsLen, encodeArgs, saturatingEncodedLen_eq, List.sum_cons, List.sum_nil,
        List.length_append, length_putU32, Vector.length_toList]
      omega
    | createSession clientid sequenceid config => rfl
    | reclaimComplete oneFs => rfl
  rw [encodedLen, encode, hargs, List.length_append, length_putU32, saturatingAdd]
  omega

/-! ### Requests -/

theorem min_opsLen (ops : List NfsOp) :
    min (opsLen ops) (2 ^ 64 - 1) = min (ops.flatMap NfsOp.encode).length (2 ^ 64 - 1) := by
  induction ops with
  | nil => rfl
  | cons op ops ih =>
    have hop := op.encodedLen_eq
    rw [opsLen_cons, List.flatMap_cons, List.length_append]
    omega

theorem length_encodeSequenceOp (sequence : SequenceArgs) :
    (encodeSequenceOp sequence).length = sequenceOpEncodedLen := by
  simp only [encodeSequenceOp, List.length_append, length_putU32, length_putBool,
    Vector.length_toList]
  rfl

/-- **The length of a compound.** -/
theorem compoundEncodedLen_eq_length (tag : String) (ops : List NfsOp) :
    compoundEncodedLen tag ops = min (encodeCompound tag ops).length (2 ^ 64 - 1) := by
  have htag := xdrStringLen_eq tag
  have hops := min_opsLen ops
  simp only [compoundEncodedLen_eq, encodeCompound, encodeCompoundInner, List.length_append,
    length_putU32, Option.elim_none, List.length_nil]
  omega

theorem compoundWithSequenceEncodedLen_eq_length (tag : String) (sequence : SequenceArgs)
    (ops : List NfsOp) : compoundWithSequenceEncodedLen tag ops =
      min (encodeCompoundInner tag (some sequence) ops).length (2 ^ 64 - 1) := by
  have hsequence := length_encodeSequenceOp sequence
  have hcompound := compoundEncodedLen_eq_length tag ops
  simp only [encodeCompound, encodeCompoundInner, List.length_append, length_putU32,
    Option.elim_none, List.length_nil] at hcompound
  simp only [compoundWithSequenceEncodedLen, saturatingAdd, encodeCompoundInner,
    List.length_append, length_putU32, Option.elim_some]
  omega

theorem len_encodeCompoundWithSequence (tag : String) (sequence : SequenceArgs)
    (ops : List NfsOp) : (encodeCompoundWithSequence tag sequence ops).len =
      compoundWithSequenceEncodedLen tag ops := by
  rw [RpcPayload.len_eq, flatten_encodeCompoundWithSequence,
    ← compoundWithSequenceEncodedLen_eq_length]

/-- The record of a compound, as the client sends it. -/
def compoundRecord (client : RpcClient) (tag : String) (ops : List NfsOp)
    (sequence : SequenceArgs) (xid : UInt32) : Bytes :=
  client.record (client.encodeCall xid NFS_PROGRAM NFS_VERSION NFSPROC4_COMPOUND
    (encodeCompoundWithSequence tag sequence ops))

/-- The length the session compares with the negotiated limit is that of the record. -/
theorem encodedCallLen_eq_length {client : RpcClient} {s : NfsSession}
    (hauth : s.authBodyLen = client.authBody.length) (tag : String) (ops : List NfsOp)
    (sequence : SequenceArgs) (xid : UInt32) :
    s.encodedCallLen (compoundWithSequenceEncodedLen tag ops) =
      min (compoundRecord client tag ops sequence xid).length (2 ^ 64 - 1) := by
  rw [compoundRecord, ← client.recordLen_eq, RpcClient.encodeCall,
    len_encodeCompoundWithSequence, NfsSession.encodedCallLen, hauth]
  rfl

/-- **A request fits if and only if it respects both limits.** -/
theorem validateCompoundRequest_iff {client : RpcClient} {s : NfsSession}
    (hauth : s.authBodyLen = client.authBody.length) {tag : String} {ops : List NfsOp}
    (sequence : SequenceArgs) (xid : UInt32) :
    s.validateCompoundRequest tag ops = .ok () ↔
      ops.length + 1 ≤ s.config.maxCompoundOps.toNat ∧
      (compoundRecord client tag ops sequence xid).length ≤ s.config.maxRequestSize.toNat := by
  have hops := s.config.maxCompoundOps.toNat_lt
  have hsize := s.config.maxRequestSize.toNat_lt
  rw [NfsSession.validateCompoundRequest_eq_ok, encodedCallLen_eq_length hauth tag ops sequence xid,
    saturatingAdd]
  omega

/-- **Requests on the wire.**  The lengths the client computes are those of the bytes:
for a compound, for a compound with a `SEQUENCE`, and for the record the writer puts
behind the marker.  What `compound_raw_once` hands to the transport respects both
limits, and a request is refused only if it exceeds one of them. -/
theorem request_lengths (client : RpcClient) (s : NfsSession)
    (hauth : s.authBodyLen = client.authBody.length) (tag : String) (ops : List NfsOp) :
    ((encodeCompound tag ops).length < 2 ^ 64 →
      (encodeCompound tag ops).length = compoundEncodedLen tag ops) ∧
    (∀ sequence,
      (encodeCompoundWithSequence tag sequence ops).segments.flatten.length < 2 ^ 64 →
      (encodeCompoundWithSequence tag sequence ops).segments.flatten.length =
        compoundWithSequenceEncodedLen tag ops) ∧
    (∀ xid program version procedure payload request,
      request = client.encodeCall xid program version procedure payload →
      (client.record request).length < 2 ^ 64 →
      request.recordLen = client.encodedCallLen payload.len ∧
      request.recordLen = (client.record request).length ∧ request.marker.length = 4 ∧
      (request.recordLen < 2 ^ 31 → ∀ c, Must (E := transfers) Connection.serves
        (fun r c' => r = .ok () ∧
          c'.written = c.written ++ (request.marker ++ client.record request))
        (writeRecordBatch client [request]).run c)) ∧
    (s.compoundRawOnce tag ops).run.Asks (fun e : Effect => ∃ tag' ops',
      e = .exchange s tag' ops' ∧ ops'.length + 1 ≤ s.config.maxCompoundOps.toNat ∧
        ∀ sequence xid, (compoundRecord client tag' ops' sequence xid).length ≤
          s.config.maxRequestSize.toNat) ∧
    (∀ err, s.validateCompoundRequest tag ops = .error err →
      s.config.maxCompoundOps.toNat < ops.length + 1 ∨ ∀ sequence xid,
        s.config.maxRequestSize.toNat < (compoundRecord client tag ops sequence xid).length) := by
  refine ⟨fun h => ?_, fun sequence h => ?_, ?_, ?_, fun err herr => ?_⟩
  · rw [compoundEncodedLen_eq_length]
    omega
  · rw [compoundWithSequenceEncodedLen_eq_length tag sequence, flatten_encodeCompoundWithSequence]
    rw [flatten_encodeCompoundWithSequence] at h
    omega
  · rintro xid program version procedure payload request rfl h
    have hrecord := client.recordLen_eq xid program version procedure payload
    refine ⟨rfl, by omega, rfl, fun hlt c => ?_⟩
    refine (client.must_writeRecordBatch (Nat.le_of_ble_eq_true rfl) ?_).mono
      fun r c' hr => ⟨hr.1, ?_⟩
    · intro request hmem
      rw [List.mem_singleton.mp hmem]
      exact hlt
    · rw [hr.2, List.flatMap_singleton]
  · unfold NfsSession.compoundRawOnce
    cases hvalid : s.validateCompoundRequest tag ops with
    | error err => exact trivial
    | ok _ =>
      have hfits := fun sequence xid => (validateCompoundRequest_iff hauth sequence xid).mp hvalid
      refine Thread.asks_bind ⟨⟨tag, ops, rfl, (hfits default 0).1, fun sequence xid =>
        (hfits sequence xid).2⟩, fun r => trivial⟩ fun r => ?_
      -- no other request is made after the exchange
      cases r with
      | error err => exact trivial
      | ok response => exact Thread.asks_bind trivial fun r => by cases r <;> exact trivial
  · refine Nat.lt_or_ge _ _ |>.imp_right fun hops sequence xid => Nat.lt_of_not_le fun hle => ?_
    rw [(validateCompoundRequest_iff hauth sequence xid).mpr ⟨hops, hle⟩] at herr
    cases herr

/-- A session without a credential, for a compound with a `WRITE` of three bytes. -/
def bareSession : NfsSession where
  exportRoot := ⟨[7]⟩
  clientid := 1
  authBodyLen := 0
  config := { «export» := "/" }

theorem request_lengths_write :
    (encodeCompound "write" [.putFh ⟨[7]⟩, .write .anonymous 0 [1, 2, 3]]).length < 2 ^ 64 ∧
    (encodeCompound "write" [.putFh ⟨[7]⟩, .write .anonymous 0 [1, 2, 3]]).length =
      compoundEncodedLen "write" [.putFh ⟨[7]⟩, .write .anonymous 0 [1, 2, 3]] ∧
    (encodeCompoundWithSequence "write" default
        [.putFh ⟨[7]⟩, .write .anonymous 0 [1, 2, 3]]).segments.flatten.length =
      compoundWithSequenceEncodedLen "write" [.putFh ⟨[7]⟩, .write .anonymous 0 [1, 2, 3]] := by
  have hall := request_lengths ⟨[], by decide⟩ bareSession rfl "write"
    [.putFh ⟨[7]⟩, .write .anonymous 0 [1, 2, 3]]
  have hlt : (encodeCompound "write"
      [.putFh ⟨[7]⟩, .write .anonymous 0 [1, 2, 3]]).length < 2 ^ 64 := by decide +kernel
  exact ⟨hlt, hall.1 hlt, hall.2.1 default (by decide +kernel)⟩

end NfsCrust
