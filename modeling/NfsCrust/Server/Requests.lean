import NfsCrust.Attrs.Bitmap
import NfsCrust.Negotiation
import NfsCrust.Request
import NfsCrust.Rpc.Reading
import NfsCrust.Xdr.Items

/-!
# What a server reads

The other end of a connection: a server that takes the bytes of a client apart as the protocol
says, from the marker of a record down to the arguments of each operation.  Nothing here is
translated from the client, whose encoders are in `Ops`, `Request` and `Rpc.Writing`; the
server is what these encoders are for.

A length word of the wire has 32 bits and so wraps for what is too long; that the session refuses
such requests is what makes the others readable.

## Main definitions

* `NfsOp.readArgs`, `readOp`, `readCompoundRequest` — the operations of a compound.
* `readCall`, `readCallRecord` — a call, and the record that carries it.
* `NfsOp.InRange`, `NfsOp.Fits` — operations whose numbers and lengths the wire can hold.

## Main results

* `reads_readOp`, `reads_readCompoundRequest` — the encoding of a compound is read as the
  compound.
* `readable_of_validate` — the session lets only such compounds pass.
* `batch_understood` — the calls of a batch, as the server reads them off the connection.
-/

namespace NfsCrust

open BigEndian Interaction Rpc.Framing

/-! ### Operations -/

/-- A word that can have one value only. -/
def expectWord (word : UInt32) : XdrM Unit := do
  let value ← readU32
  if value ≠ word then throw (.protocol s!"unexpected word {value}")

def expectWords : List UInt32 → XdrM Unit
  | [] => return ()
  | word :: words => do
      expectWord word
      expectWords words

def readWords : ℕ → XdrM (List UInt32)
  | 0 => return []
  | n + 1 => return (← readU32) :: (← readWords n)

def readBitmap : XdrM Bitmap := do
  let count ← readU32
  return ⟨← readWords count.toNat⟩

def Bitmap.has (b : Bitmap) (attr : UInt32) : Bool :=
  (b.words.getD (attr / 32).toNat 0 >>> (attr % 32)) &&& 1 = 1

def readIf {α : Type} (present : Bool) (read : XdrM α) : XdrM (Option α) := do
  if present then return some (← read) else return none

/-- The values of the attributes that the client sets, in the order of their numbers. -/
def readSetAttrs : XdrM SetAttrs := do
  let bitmap ← readBitmap
  let valuesLen ← readU32
  let size ← readIf (bitmap.has FATTR4_SIZE) readU64
  let mode ← readIf (bitmap.has FATTR4_MODE) readU32
  let attrs : SetAttrs := ⟨size.map UInt64.toNat, mode⟩
  if valuesLen ≠ .ofNat attrs.valuesLen then throw (.protocol "bad attribute length")
  return attrs

/-- What a `CREATE_SESSION` says of the client's configuration. -/
def NfsConfig.channels (config : NfsConfig) : NfsConfig :=
  { «export» := "", sessionSlots := config.sessionSlots, maxRequestSize := config.maxRequestSize,
    maxResponseSize := config.maxResponseSize }

/-- The fore channel a client asks for. -/
def readForeChannel : XdrM NfsConfig := do
  expectWord 0
  let maxRequestSize ← readU32
  let maxResponseSize ← readU32
  expectWords [maxResponseSize, 64]
  let sessionSlots ← readU32
  expectWord 0
  return { «export» := "", sessionSlots, maxRequestSize, maxResponseSize }

namespace NfsOp

/-- The arguments of an operation. -/
def readArgs : OpCode → XdrM NfsOp
  | .putRootFh => return putRootFh
  | .saveFh => return saveFh
  | .restoreFh => return restoreFh
  | .getFh => return getFh
  | .putFh => return putFh ⟨← readOpaque⟩
  | .lookup => return lookup (← readString)
  | .link => return link (← readString)
  | .remove => return remove (← readString)
  | .getAttr => return getAttr (← readBitmap)
  | .verify => do
      match ← readSetAttrs with
      | ⟨some size, none⟩ => return verify size
      | _ => throw (.protocol "VERIFY compares the size only")
  | .«open» => do
      let seqid ← readU32
      expectWords [0x2 ||| 0x400, 0]
      let clientid ← readU64
      let owner ← readOpaque
      expectWords [1, 1]
      match ← readSetAttrs with
      | ⟨some 0, some fileMode⟩ =>
        expectWord 0
        return «open» seqid clientid owner (← readString) fileMode
      | _ => throw (.protocol "OPEN creates an empty file with a mode")
  | .close => return close (← readU32) (← StateId.decode)
  | .read => return read (← StateId.decode) (← readU64).toNat (← readU32).toNat
  | .write => do
      let stateid ← StateId.decode
      let offset ← readU64
      expectWord WriteStability.unstable.toRaw
      return write stateid offset.toNat (← readOpaque)
  | .commit => return commit (← readU64).toNat (← readU32).toNat
  | .rename => return rename (← readString) (← readString)
  | .create => do
      expectWord 2
      let name ← readString
      match ← readSetAttrs with
      | ⟨none, some mode⟩ => return createDir name mode
      | _ => throw (.protocol "CREATE makes a directory with a mode")
  | .readDir =>
      return readDir (← readU64) (← readBytes 8) (← readU32) (← readU32) (← readBitmap)
  | .exchangeId => do
      let verifier ← readBytes 8
      let owner ← readOpaque
      expectWords [0x10000, 0, 0]
      return exchangeId verifier owner
  | .createSession => do
      let clientid ← readU64
      let sequenceid ← readU32
      expectWord 0
      let config ← readForeChannel
      expectWords [0, 8192, 8192, 8192, 64, 1, 0, 0, 0]
      return createSession clientid sequenceid config
  | .reclaimComplete => return reclaimComplete (← readBool)
  | _ => throw (.protocol "operation not supported")

/-- The operation as its arguments tell it: the configuration of a client is more than its
channels. -/
def asSent : NfsOp → NfsOp
  | createSession clientid sequenceid config => createSession clientid sequenceid config.channels
  | op => op

/-- The numbers of an operation are of the widths that the source's types have. -/
def InRange : NfsOp → Prop
  | read _ offset count | commit offset count => offset < 2 ^ 64 ∧ count < 2 ^ 32
  | write _ offset _ => offset < 2 ^ 64
  | verify size => size < 2 ^ 64
  | _ => True

/-- What the length words of an operation say. -/
def lengths : NfsOp → List ℕ
  | putFh fh => [fh.bytes.length]
  | lookup name | link name | remove name | createDir name _ => [(utf8 name).length]
  | getAttr bitmap | readDir _ _ _ _ bitmap => [bitmap.words.length]
  | «open» _ _ owner name _ => [owner.length, (utf8 name).length]
  | write _ _ data => [data.length]
  | rename oldName newName => [(utf8 oldName).length, (utf8 newName).length]
  | exchangeId _ owner => [owner.length]
  | _ => []

/-- The wire can hold the operation. -/
def Fits (op : NfsOp) : Prop := op.InRange ∧ ∀ len ∈ op.lengths, len < 2 ^ 32

end NfsOp

/-- An operation of a compound, which may be its `SEQUENCE`. -/
inductive RequestOp
  | sequence (args : SequenceArgs)
  | op (op : NfsOp)

def readSequenceArgs : XdrM SequenceArgs :=
  return ⟨← readBytes 16, ← readU32, ← readU32, ← readU32, ← readBool⟩

def readOp : XdrM RequestOp := do
  match OpCode.fromU32? (← readU32) with
  | some .sequence => return .sequence (← readSequenceArgs)
  | some code => return .op (← NfsOp.readArgs code)
  | none => throw (.protocol "operation not known")

def readOps : ℕ → XdrM (List RequestOp)
  | 0 => return []
  | n + 1 => return (← readOp) :: (← readOps n)

structure CompoundRequest where
  tag : String
  ops : List RequestOp

def readCompoundRequest : XdrM CompoundRequest := do
  let tag ← readString
  expectWord NFS_MINOR_VERSION
  let count ← readU32
  return ⟨tag, ← readOps count.toNat⟩

/-! ### Calls -/

/-- Read all of `bytes`. -/
def readWhole {α : Type} (read : XdrM α) (bytes : Bytes) : Except Error α :=
  match read.run bytes with
  | .ok (value, []) => .ok value
  | .ok _ => .error (.protocol "bytes are left over")
  | .error err => .error err

/-- An `AUTH_SYS` credential, behind its stamp. -/
def readCredential : XdrM (UInt32 × AuthSys) := do
  let stamp ← readU32
  let machineName ← readString
  let uid ← readU32
  let gid ← readU32
  let count ← readU32
  return (stamp, ⟨machineName, uid, gid, ← readWords count.toNat⟩)

structure ServerCall where
  xid : UInt32
  program : UInt32
  version : UInt32
  procedure : UInt32
  stamp : UInt32
  auth : AuthSys
  compound : CompoundRequest

def readCall : XdrM ServerCall := do
  let xid ← readU32
  expectWords [CALL, RPC_VERSION]
  let program ← readU32
  let version ← readU32
  let procedure ← readU32
  expectWord AUTH_SYS
  let body ← readOpaque
  let (stamp, auth) ← liftM (readWhole readCredential body)
  expectWords [0, 0]
  return ⟨xid, program, version, procedure, stamp, auth, ← readCompoundRequest⟩

/-- A call in a record of one fragment. -/
def readCallRecord : XdrM ServerCall := do
  let (last, size) := decodeMarker (← readU32)
  if !last then throw (.protocol "the record goes on")
  require size
  let record ← copyToBytes size
  liftM (readWhole readCall record)

def readCallRecords : ℕ → XdrM (List ServerCall)
  | 0 => return []
  | n + 1 => return (← readCallRecord) :: (← readCallRecords n)

/-! ### Reading operations back -/

theorem reads_expectWord (word : UInt32) : Reads (expectWord word) (putU32 word) () := by
  apply (reads_readU32 word).bind_nil
  rw [if_neg (fun h => h rfl)]
  exact .pure ()

theorem reads_expectWords (words : List UInt32) :
    Reads (expectWords words) (words.map putU32).flatten () := by
  induction words with
  | nil => exact .pure ()
  | cons word words ih => exact (reads_expectWord word).bind ih

theorem reads_readString {value : String} (h : (utf8 value).length < 2 ^ 32) :
    Reads readString (putString value) value := by
  have hdecode : decodeString (fun _ => false) (utf8 value) = .ok (some value) := by
    unfold decodeString
    rw [fromUtf8?_eq_some_iff.mpr rfl]
    rfl
  exact (reads_readStringUnless h hdecode).bind_nil (.pure value)

theorem reads_readWords (words : List UInt32) :
    Reads (readWords words.length) (words.map putU32).flatten words := by
  induction words with
  | nil => exact .pure []
  | cons word words ih => exact (reads_readU32 word).bind (ih.bind_nil (.pure _))

theorem reads_readBitmap {b : Bitmap} (h : b.words.length < 2 ^ 32) :
    Reads readBitmap b.encode b := by
  apply (reads_readU32 _).bind
  rw [toNat_ofNat_length h]
  exact (reads_readWords b.words).bind_nil (.pure b)

theorem reads_readIf {α : Type} {read : XdrM α} {put : α → Bytes} {x : Option α}
    (h : ∀ a, Reads read (put a) a) : Reads (readIf x.isSome read) (x.elim [] put) x := by
  cases x with
  | none => exact .pure none
  | some a => exact (h a).bind_nil (.pure (some a))

namespace SetAttrs

theorem encode_eq_values (a : SetAttrs) : a.encode = a.bitmap.encode ++ (putU32 (.ofNat a.valuesLen)
    ++ ((a.size.map UInt64.ofNat).elim [] putU64 ++ a.mode.elim [] putU32)) := by
  rw [encode_eq]
  obtain ⟨size, mode⟩ := a
  cases size <;> cases mode <;> simp [attributes]

/-- The bitmap tells which attributes are set, not their values. -/
theorem bitmap_eq (a : SetAttrs) : a.bitmap =
    bitmap ⟨if a.size.isSome then some 0 else none, if a.mode.isSome then some 0 else none⟩ := by
  obtain ⟨size, mode⟩ := a
  cases size <;> cases mode <;> rfl

theorem has_bitmap (a : SetAttrs) :
    a.bitmap.has FATTR4_SIZE = a.size.isSome ∧ a.bitmap.has FATTR4_MODE = a.mode.isSome := by
  rw [bitmap_eq]
  cases a.size.isSome <;> cases a.mode.isSome <;> decide

theorem length_words_bitmap (a : SetAttrs) : a.bitmap.words.length < 2 ^ 32 := by
  rw [bitmap_eq]
  cases a.size.isSome <;> cases a.mode.isSome <;> decide

end SetAttrs

theorem reads_readSetAttrs {a : SetAttrs} (h : ∀ size, a.size = some size → size < 2 ^ 64) :
    Reads readSetAttrs a.encode a := by
  have hsize : (a.size.map UInt64.ofNat).map UInt64.toNat = a.size := by
    cases hs : a.size with
    | none => rfl
    | some size => exact congrArg some (UInt64.toNat_ofNat_of_lt' (h size hs))
  have hsome : (a.size.map UInt64.ofNat).isSome = a.size.isSome := Option.isSome_map
  rw [a.encode_eq_values]
  apply (reads_readBitmap a.length_words_bitmap).bind
  apply (reads_readU32 _).bind
  rw [a.has_bitmap.1, a.has_bitmap.2, ← hsome]
  apply (reads_readIf reads_readU64).bind
  apply (reads_readIf reads_readU32).bind_nil
  rw [hsize, if_neg (fun h => h rfl)]
  exact .pure a

theorem reads_stateId (s : StateId) : Reads StateId.decode s.encode s :=
  (reads_readU32AndBytes (by decide) s.seqid s.other).bind_nil (.pure s)

theorem reads_readForeChannel (config : NfsConfig) : Reads readForeChannel
    (encodeChannelAttrs config.maxRequestSize config.maxResponseSize config.sessionSlots)
    config.channels := by
  have hwords : encodeChannelAttrs config.maxRequestSize config.maxResponseSize config.sessionSlots
      = putU32 0 ++ (putU32 config.maxRequestSize ++ (putU32 config.maxResponseSize ++
        (([config.maxResponseSize, 64].map putU32).flatten ++
          (putU32 config.sessionSlots ++ putU32 0)))) := rfl
  rw [hwords]
  apply (reads_expectWord 0).bind
  apply (reads_readU32 _).bind
  apply (reads_readU32 _).bind
  apply (reads_expectWords _).bind
  apply (reads_readU32 _).bind
  exact (reads_expectWord 0).bind_nil (.pure _)

namespace NfsOp

variable {op : NfsOp}

/-- What is announced is there. -/
theorem le_length_encode (op : NfsOp) : ∀ len ∈ op.lengths, len ≤ op.encode.length := by
  intro len hlen
  have hflatten := length_flatten_putU32
  cases op with
  | putRootFh | saveFh | restoreFh | getFh | close | read | commit | verify | createSession
    | reclaimComplete => cases hlen
  | putFh | lookup | link | remove | createDir | getAttr | readDir | write | exchangeId =>
    cases List.mem_singleton.mp hlen
    simp only [encode, encodeArgs, putString, Bitmap.encode, List.length_append, length_putOpaque,
      hflatten]
    omega
  | «open» | rename =>
    simp only [lengths, List.mem_cons, List.not_mem_nil, or_false] at hlen
    simp only [encode, encodeArgs, putString, List.length_append, length_putOpaque]
    omega

/-- **The arguments of an operation are read as the operation.** -/
theorem reads_readArgs (h : op.Fits) : Reads (readArgs op.opcode) op.encodeArgs op.asSent := by
  obtain ⟨hrange, hlen⟩ := h
  cases op with
  | putRootFh => exact .pure _
  | saveFh => exact .pure _
  | restoreFh => exact .pure _
  | getFh => exact .pure _
  | putFh fh => exact (reads_readOpaque (hlen _ (.head _))).bind_nil (.pure _)
  | lookup name => exact (reads_readString (hlen _ (.head _))).bind_nil (.pure _)
  | link name => exact (reads_readString (hlen _ (.head _))).bind_nil (.pure _)
  | remove name => exact (reads_readString (hlen _ (.head _))).bind_nil (.pure _)
  | getAttr bitmap => exact (reads_readBitmap (hlen _ (.head _))).bind_nil (.pure _)
  | verify size =>
    apply (reads_readSetAttrs (a := ⟨some size, none⟩) _).bind_nil
    · exact .pure _
    · rintro _ ⟨⟩
      exact hrange
  | «open» seqid clientid owner name fileMode =>
    have hattrs : Reads readSetAttrs (SetAttrs.encode ⟨some 0, some fileMode⟩)
        ⟨some 0, some fileMode⟩ := reads_readSetAttrs (by rintro _ ⟨⟩; decide)
    have hname := reads_readString (hlen (utf8 name).length (.tail _ (.head _)))
    have hbytes : encodeArgs («open» seqid clientid owner name fileMode) = putU32 seqid ++
        (([0x2 ||| 0x400, 0].map putU32).flatten ++ (putU64 clientid ++ (putOpaque owner ++
          (([1, 1].map putU32).flatten ++ (SetAttrs.encode ⟨some 0, some fileMode⟩ ++
            (putU32 0 ++ putString name)))))) := by
      simp [encodeArgs]
    rw [hbytes]
    apply (reads_readU32 seqid).bind
    apply (reads_expectWords _).bind
    apply (reads_readU64 clientid).bind
    apply (reads_readOpaque (hlen owner.length (.head _))).bind
    apply (reads_expectWords _).bind
    apply hattrs.bind
    exact (reads_expectWord 0).bind (hname.bind_nil (.pure _))
  | close seqid stateid => exact (reads_readU32 seqid).bind ((reads_stateId stateid).bind_nil (.pure _))
  | read stateid offset count =>
    rw [encodeArgs, List.append_assoc]
    apply (reads_stateId stateid).bind
    apply (reads_readU64 _).bind
    apply (reads_readU32 _).bind_nil
    rw [UInt64.toNat_ofNat_of_lt' hrange.1, toNat_ofNat_length hrange.2]
    exact .pure _
  | write stateid offset data =>
    have hdata := reads_readOpaque (hlen data.length (.head _))
    rw [encodeArgs, List.append_assoc, List.append_assoc]
    apply (reads_stateId stateid).bind
    apply (reads_readU64 _).bind
    rw [UInt64.toNat_ofNat_of_lt' hrange]
    exact (reads_expectWord _).bind (hdata.bind_nil (.pure _))
  | commit offset count =>
    apply (reads_readU64 _).bind
    apply (reads_readU32 _).bind_nil
    rw [UInt64.toNat_ofNat_of_lt' hrange.1, toNat_ofNat_length hrange.2]
    exact .pure _
  | rename oldName newName =>
    have hnew := reads_readString (hlen (utf8 newName).length (.tail _ (.head _)))
    exact (reads_readString (hlen (utf8 oldName).length (.head _))).bind (hnew.bind_nil (.pure _))
  | createDir name mode =>
    have hattrs : Reads readSetAttrs (SetAttrs.encode ⟨none, some mode⟩) ⟨none, some mode⟩ :=
      reads_readSetAttrs (by rintro _ ⟨⟩)
    have hname := reads_readString (hlen (utf8 name).length (.head _))
    rw [encodeArgs, List.append_assoc]
    exact (reads_expectWord 2).bind (hname.bind (hattrs.bind_nil (.pure _)))
  | readDir cookie verifier dircount maxcount attrs =>
    have hattrs := reads_readBitmap (hlen attrs.words.length (.head _))
    simp only [encodeArgs, List.append_assoc]
    apply (reads_readU64 cookie).bind
    apply (reads_readBytes verifier).bind
    exact (reads_readU32 dircount).bind ((reads_readU32 maxcount).bind (hattrs.bind_nil (.pure _)))
  | exchangeId verifier owner =>
    have howner := reads_readOpaque (hlen owner.length (.head _))
    have hbytes : encodeArgs (exchangeId verifier owner) = verifier.toList ++ (putOpaque owner ++
        ([0x10000, 0, 0].map putU32).flatten) := by
      simp [encodeArgs]
    rw [hbytes]
    exact (reads_readBytes verifier).bind (howner.bind ((reads_expectWords _).bind_nil (.pure _)))
  | createSession clientid sequenceid config =>
    have hbytes : encodeArgs (createSession clientid sequenceid config) = putU64 clientid ++
        (putU32 sequenceid ++ (putU32 0 ++ (encodeChannelAttrs config.maxRequestSize
          config.maxResponseSize config.sessionSlots ++
            ([0, 8192, 8192, 8192, 64, 1, 0, 0, 0].map putU32).flatten))) := by
      simp [encodeArgs, encodeChannelAttrs]
    rw [hbytes]
    apply (reads_readU64 clientid).bind
    apply (reads_readU32 sequenceid).bind
    apply (reads_expectWord 0).bind
    exact (reads_readForeChannel config).bind ((reads_expectWords _).bind_nil (.pure _))
  | reclaimComplete oneFs => exact (reads_readBool oneFs).bind_nil (.pure _)

end NfsOp

theorem fromU32?_toU32 (op : OpCode) : OpCode.fromU32? op.toU32 = some op := by
  cases op <;> rfl

theorem reads_readOp {op : NfsOp} (h : op.Fits) : Reads readOp op.encode (.op op.asSent) := by
  apply (reads_readU32 _).bind
  rw [fromU32?_toU32]
  have hargs : Reads (do return RequestOp.op (← NfsOp.readArgs op.opcode)) op.encodeArgs
      (.op op.asSent) := (NfsOp.reads_readArgs h).bind_nil (.pure _)
  cases op <;> exact hargs

theorem reads_readOp_sequence (sequence : SequenceArgs) :
    Reads readOp (encodeSequenceOp sequence) (.sequence sequence) := by
  have hbytes : encodeSequenceOp sequence = putU32 OpCode.sequence.toU32 ++
      (sequence.sessionid.toList ++ (putU32 sequence.sequenceid ++ (putU32 sequence.slotid ++
        (putU32 sequence.highestSlotid ++ putBool sequence.cachethis)))) := by
    simp [encodeSequenceOp]
  have hargs : Reads readSequenceArgs (sequence.sessionid.toList ++ (putU32 sequence.sequenceid ++
      (putU32 sequence.slotid ++ (putU32 sequence.highestSlotid ++ putBool sequence.cachethis))))
        sequence := by
    apply (reads_readBytes _).bind
    apply (reads_readU32 _).bind
    apply (reads_readU32 _).bind
    exact (reads_readU32 _).bind ((reads_readBool _).bind_nil (.pure sequence))
  rw [hbytes]
  exact (reads_readU32 _).bind (hargs.bind_nil (.pure _))

theorem reads_readOps {α : Type} {put : α → Bytes} {meaning : α → RequestOp} {xs : List α}
    (h : ∀ x ∈ xs, Reads readOp (put x) (meaning x)) :
    Reads (readOps xs.length) (xs.flatMap put) (xs.map meaning) := by
  induction xs with
  | nil => exact .pure []
  | cons x xs ih =>
    have hxs := ih fun x hx => h x (.tail _ hx)
    rw [List.flatMap_cons]
    exact (h x (.head _)).bind (hxs.bind_nil (.pure _))

/-! ### Reading requests back -/

/-- A compound, as it is meant. -/
def compoundRequest (tag : String) (sequence : Option SequenceArgs) (ops : List NfsOp) :
    CompoundRequest :=
  ⟨tag, sequence.toList.map .sequence ++ ops.map fun op => .op op.asSent⟩

/-- **A compound is read as the compound.** -/
theorem reads_readCompoundRequest {tag : String} {ops : List NfsOp}
    (sequence : Option SequenceArgs) (htag : (utf8 tag).length < 2 ^ 32)
    (hcount : ops.length + 1 < 2 ^ 32) (hops : ∀ op ∈ ops, op.Fits) :
    Reads readCompoundRequest (encodeCompoundInner tag sequence ops)
      (compoundRequest tag sequence ops) := by
  have hops := reads_readOps fun op hop => reads_readOp (hops op hop)
  have hall : Reads (readOps (sequence.toList.length + ops.length))
      (sequence.elim [] encodeSequenceOp ++ ops.flatMap NfsOp.encode)
      (sequence.toList.map .sequence ++ ops.map fun op => .op op.asSent) := by
    cases sequence with
    | none =>
      rw [Option.toList_none, List.length_nil, Nat.zero_add]
      exact hops
    | some sequence =>
      rw [Option.toList_some, List.length_singleton, Nat.add_comm]
      exact (reads_readOp_sequence sequence).bind (hops.bind_nil (.pure _))
  have hlen : (UInt32.ofNat (if sequence.isSome then saturatingAdd ops.length 1
      else ops.length)).toNat = sequence.toList.length + ops.length := by
    cases sequence with
    | none => simpa using Nat.mod_eq_of_lt (show ops.length < 2 ^ 32 by omega)
    | some _ =>
      have hsum : saturatingAdd ops.length 1 = ops.length + 1 := Nat.min_eq_left (by omega)
      show (UInt32.ofNat (saturatingAdd ops.length 1)).toNat = 1 + ops.length
      rw [hsum, toNat_ofNat_length hcount, Nat.add_comm]
  simp only [encodeCompoundInner, List.append_assoc]
  apply (reads_readString htag).bind
  apply (reads_expectWord _).bind
  apply (reads_readU32 _).bind
  rw [hlen]
  exact hall.bind_nil (.pure _)

theorem readWhole_of_reads {α : Type} {read : XdrM α} {bytes : Bytes} {a : α}
    (h : Reads read bytes a) : readWhole read bytes = .ok a := by
  have hrun := h []
  rw [List.append_nil] at hrun
  rw [readWhole, hrun]

/-- The bytes fill words. -/
def FillsWords (bytes : Bytes) : Prop := 4 ∣ bytes.length

namespace FillsWords

theorem append {a b : Bytes} (ha : FillsWords a) (hb : FillsWords b) : FillsWords (a ++ b) := by
  rw [FillsWords, List.length_append]
  exact Nat.dvd_add ha hb

theorem append_iff {a b : Bytes} (hb : FillsWords b) : FillsWords (a ++ b) ↔ FillsWords a := by
  rw [FillsWords, List.length_append]
  exact (Nat.dvd_add_iff_left hb).symm

theorem nil : FillsWords [] := ⟨0, rfl⟩

theorem u32 (x : UInt32) : FillsWords (putU32 x) := ⟨1, rfl⟩

theorem u64 (x : UInt64) : FillsWords (putU64 x) := ⟨2, rfl⟩

theorem verifier (v : Verifier) : FillsWords v.toList := ⟨2, v.length_toList⟩

theorem stateId (s : StateId) : FillsWords s.encode := ⟨4, s.length_encode⟩

theorem putOpaque (value : Bytes) : FillsWords (putOpaque value) := by
  rw [FillsWords, length_putOpaque, xdrPadding_eq]
  omega

theorem putString (value : String) : FillsWords (putString value) := putOpaque (utf8 value)

theorem bitmap (b : Bitmap) : FillsWords b.encode := by
  rw [FillsWords, Bitmap.encode, List.length_append, length_flatten_putU32, length_putU32]
  omega

theorem setAttrs (a : SetAttrs) : FillsWords a.encode := by
  have hvalues : 4 ∣ a.valuesLen := by
    unfold SetAttrs.valuesLen
    split <;> split <;> decide
  rw [FillsWords, SetAttrs.length_encode]
  omega

theorem channel (a b c : UInt32) : FillsWords (encodeChannelAttrs a b c) := ⟨7, rfl⟩

theorem op (op : NfsOp) : FillsWords op.encode := by
  apply (u32 _).append
  cases op <;>
    simp only [NfsOp.encodeArgs, putBool, append_iff, nil, u32, u64, verifier, stateId, putOpaque,
      putString, bitmap, setAttrs, channel]

theorem flatMap {α : Type} {put : α → Bytes} (h : ∀ a, FillsWords (put a)) (xs : List α) :
    FillsWords (xs.flatMap put) := by
  induction xs with
  | nil => exact nil
  | cons x xs ih => exact (h x).append ih

/-- A request is a sequence of words. -/
theorem encodeCompoundInner (tag : String) (sequence : Option SequenceArgs) (ops : List NfsOp) :
    FillsWords (encodeCompoundInner tag sequence ops) := by
  have hsequence : FillsWords (sequence.elim [] encodeSequenceOp) := by
    cases sequence with
    | none => exact nil
    | some sequence => exact ⟨9, length_encodeSequenceOp sequence⟩
  exact ((((putString tag).append (u32 _)).append (u32 _)).append hsequence).append
    (flatMap op ops)

end FillsWords

/-- The body of a client's credential. -/
theorem authBody_eq {auth : AuthSys} {stamp : UInt32} {client : RpcClient}
    (h : RpcClient.connect auth stamp = .ok client) : client.authBody = putU32 stamp
      ++ putString auth.machineName ++ putU32 auth.uid ++ putU32 auth.gid
      ++ putU32 (.ofNat auth.gids.length) ++ (auth.gids.map putU32).flatten := by
  unfold RpcClient.connect AuthSys.encodeBody at h
  cases hvalid : auth.validate with
  | error err =>
    rw [hvalid] at h
    cases h
  | ok _ =>
    rw [hvalid] at h
    change (if h : _ then _ else _) = _ at h
    split at h
    · cases h
      rfl
    · cases h

theorem reads_readCredential {auth : AuthSys} {stamp : UInt32} {client : RpcClient}
    (h : RpcClient.connect auth stamp = .ok client) :
    Reads readCredential client.authBody (stamp, auth) := by
  have hlen := length_authBody_le h
  have hbody := authBody_eq h
  have hsum := congrArg List.length hbody
  simp only [List.length_append, length_putU32, length_flatten_putU32, putString,
    length_putOpaque] at hsum
  have hname := reads_readString (by omega : (utf8 auth.machineName).length < 2 ^ 32)
  rw [hbody]
  simp only [List.append_assoc]
  apply (reads_readU32 stamp).bind
  apply hname.bind
  apply (reads_readU32 auth.uid).bind
  apply (reads_readU32 auth.gid).bind
  apply (reads_readU32 _).bind
  rw [toNat_ofNat_length (by omega)]
  exact (reads_readWords auth.gids).bind_nil (.pure _)

/-- A compound that is on its way. -/
structure SentCompound where
  xid : UInt32
  tag : String
  sequence : SequenceArgs
  ops : List NfsOp

namespace SentCompound

variable (x : SentCompound)

def request (client : RpcClient) : RpcRequest :=
  client.encodeCall x.xid NFS_PROGRAM NFS_VERSION NFSPROC4_COMPOUND
    (encodeCompoundWithSequence x.tag x.sequence x.ops)

/-- The call, as it is meant. -/
def call (stamp : UInt32) (auth : AuthSys) : ServerCall :=
  ⟨x.xid, NFS_PROGRAM, NFS_VERSION, NFSPROC4_COMPOUND, stamp, auth,
    compoundRequest x.tag (some x.sequence) x.ops⟩

/-- The length words of a record that is short enough hold what they should. -/
structure Readable (client : RpcClient) : Prop where
  inRange : ∀ op ∈ x.ops, op.InRange
  count : x.ops.length + 1 < 2 ^ 32
  short : (client.record (x.request client)).length < 2 ^ 31

variable {x} {client : RpcClient} {auth : AuthSys} {stamp : UInt32}

theorem length_encodeCompoundInner_le (h : x.Readable client) :
    (encodeCompoundInner x.tag (some x.sequence) x.ops).length < 2 ^ 31 := by
  have hshort := h.short
  have hpayload : (x.request client).payload.segments.flatten =
      encodeCompoundInner x.tag (some x.sequence) x.ops :=
    flatten_encodeCompoundWithSequence x.tag x.sequence x.ops
  simp only [RpcClient.record, List.length_append, hpayload] at hshort
  omega

theorem payloadPaddingLen_eq (h : x.Readable client) :
    (x.request client).payloadPaddingLen = 0 := by
  have hlen : (encodeCompoundWithSequence x.tag x.sequence x.ops).len =
      (encodeCompoundInner x.tag (some x.sequence) x.ops).length := by
    rw [len_encodeCompoundWithSequence,
      compoundWithSequenceEncodedLen_eq_length x.tag x.sequence x.ops]
    have := length_encodeCompoundInner_le h
    omega
  obtain ⟨words, hwords⟩ := FillsWords.encodeCompoundInner x.tag (some x.sequence) x.ops
  show xdrPadding (encodeCompoundWithSequence x.tag x.sequence x.ops).len = 0
  rw [hlen, hwords, xdrPadding_eq]
  omega

theorem record_eq (h : x.Readable client) : client.record (x.request client) =
    putU32 x.xid ++ (([CALL, RPC_VERSION].map putU32).flatten ++ (putU32 NFS_PROGRAM ++
      (putU32 NFS_VERSION ++ (putU32 NFSPROC4_COMPOUND ++ (putU32 AUTH_SYS ++
        (putOpaque client.authBody ++ (([0, 0].map putU32).flatten ++
          encodeCompoundInner x.tag (some x.sequence) x.ops))))))) := by
  have hpayload : (x.request client).payload.segments.flatten =
      encodeCompoundInner x.tag (some x.sequence) x.ops :=
    flatten_encodeCompoundWithSequence x.tag x.sequence x.ops
  have hheader : (x.request client).header = _ := client.header_encodeCall _ _ _ _ _
  have hzero : zeroPadding 0 = [] := rfl
  rw [RpcClient.record, hheader, hpayload, payloadPaddingLen_eq h, hzero, putOpaque_eq, opaqueBody]
  simp only [List.append_assoc, List.map_cons, List.map_nil, List.flatten_cons, List.flatten_nil,
    List.append_nil]
  rfl

/-- **A call is read as the call.** -/
theorem reads_readCall (hconnect : RpcClient.connect auth stamp = .ok client)
    (h : x.Readable client) :
    Reads readCall (client.record (x.request client)) (x.call stamp auth) := by
  have hlen := length_encodeCompoundInner_le h
  have hsum : (encodeCompoundInner x.tag (some x.sequence) x.ops).length =
      (putString x.tag).length + 8 + (encodeSequenceOp x.sequence).length
        + (x.ops.flatMap NfsOp.encode).length := by
    simp only [encodeCompoundInner, List.length_append, length_putU32, Option.elim_some]
  have htag : (utf8 x.tag).length < 2 ^ 32 := by
    rw [putString, length_putOpaque] at hsum
    omega
  have hfits : ∀ op ∈ x.ops, op.Fits := by
    intro op hop
    refine ⟨h.inRange op hop, fun len hmem => ?_⟩
    have hle := op.le_length_encode len hmem
    have hpart : op.encode.Sublist (x.ops.flatMap NfsOp.encode) :=
      List.sublist_flatten_of_mem (List.mem_map_of_mem hop)
    have hop' := hpart.length_le
    omega
  have hbody := readWhole_of_reads (reads_readCredential hconnect)
  rw [record_eq h]
  apply (reads_readU32 x.xid).bind
  apply (reads_expectWords _).bind
  apply (reads_readU32 _).bind
  apply (reads_readU32 _).bind
  apply (reads_readU32 _).bind
  apply (reads_expectWord _).bind
  apply (reads_readOpaque client.authBody_lt).bind
  apply Reads.lift_bind hbody
  apply (reads_expectWords _).bind
  exact (reads_readCompoundRequest (some x.sequence) htag h.count hfits).bind_nil (.pure _)

theorem reads_readCallRecord (hconnect : RpcClient.connect auth stamp = .ok client)
    (h : x.Readable client) :
    Reads readCallRecord ((x.request client).marker ++ client.record (x.request client))
      (x.call stamp auth) := by
  have hrecordLen : (x.request client).recordLen = (client.record (x.request client)).length := by
    have := h.short
    have := client.recordLen_eq x.xid NFS_PROGRAM NFS_VERSION NFSPROC4_COMPOUND
      (encodeCompoundWithSequence x.tag x.sequence x.ops)
    unfold request at *
    omega
  have hmarker : (x.request client).marker =
      putU32 (fragmentMarker true (client.record (x.request client)).length) := by
    rw [RpcRequest.marker, hrecordLen]
    rfl
  have hcall := readWhole_of_reads (reads_readCall hconnect h)
  rw [hmarker]
  apply (reads_readU32 _).bind
  rw [decodeMarker_fragmentMarker h.short]
  apply Reads.require_bind (Nat.le_refl _)
  exact (reads_copyToBytes _).bind_nil (.lift hcall)

theorem reads_readCallRecords (hconnect : RpcClient.connect auth stamp = .ok client)
    {batch : List SentCompound} (h : ∀ x ∈ batch, x.Readable client) :
    Reads (readCallRecords batch.length)
      ((batch.map fun x => x.request client).flatMap fun r => r.marker ++ client.record r)
      (batch.map fun x => x.call stamp auth) := by
  induction batch with
  | nil => exact .pure []
  | cons x batch ih =>
    have hbatch := ih fun x hx => h x (.tail _ hx)
    rw [List.map_cons, List.flatMap_cons]
    exact (reads_readCallRecord hconnect (h x (.head _))).bind (hbatch.bind_nil (.pure _))

end SentCompound

/-- The session lets only compounds pass that can be read. -/
theorem readable_of_validate {x : SentCompound} {client : RpcClient} {s : NfsSession}
    (hauth : s.authBodyLen = client.authBody.length)
    (hsize : s.config.maxRequestSize.toNat < 2 ^ 31) (hrange : ∀ op ∈ x.ops, op.InRange)
    (h : s.validateCompoundRequest x.tag x.ops = .ok ()) : x.Readable client := by
  obtain ⟨-, hlen⟩ := (validateCompoundRequest_iff hauth x.sequence x.xid).mp h
  exact ⟨hrange, NfsSession.length_lt_of_validate h, Nat.lt_of_le_of_lt hlen hsize⟩

/-- **A server reads what is meant.**  A batch of compounds has passed the check of the session,
and the writer puts it on a connection, which takes as much of each write as it likes.  A server
that reads there finds one call for each compound, in their order and with nothing between or
behind them: the number, the credential of the client, the tag, the `SEQUENCE` and each operation
with its arguments. -/
theorem batch_understood {auth : AuthSys} {stamp : UInt32} {client : RpcClient} {s : NfsSession}
    (hconnect : RpcClient.connect auth stamp = .ok client)
    (hauth : s.authBodyLen = client.authBody.length)
    (hsize : s.config.maxRequestSize.toNat < 2 ^ 31) {batch : List SentCompound}
    (hbatch : batch.length ≤ MAX_WRITE_BATCH_RECORDS)
    (hrange : ∀ x ∈ batch, ∀ op ∈ x.ops, op.InRange)
    (hvalid : ∀ x ∈ batch, s.validateCompoundRequest x.tag x.ops = .ok ())
    (c : Rpc.Framing.Connection) :
    Must (E := transfers) Rpc.Framing.Connection.serves
      (fun r c' => r = .ok () ∧ ∃ bytes, c'.written = c.written ++ bytes ∧
        ∀ rest, (readCallRecords batch.length).run (bytes ++ rest) =
          .ok (batch.map fun x => x.call stamp auth, rest))
      (writeRecordBatch client (batch.map fun x => x.request client)).run c := by
  have hreadable : ∀ x ∈ batch, x.Readable client := fun x hx =>
    readable_of_validate hauth hsize (hrange x hx) (hvalid x hx)
  have hlen : ∀ r ∈ batch.map (fun x => x.request client), r.recordLen < 2 ^ 31 := by
    intro r hr
    obtain ⟨x, hx, rfl⟩ := List.mem_map.mp hr
    have hshort := (hreadable x hx).short
    have := client.recordLen_eq x.xid NFS_PROGRAM NFS_VERSION NFSPROC4_COMPOUND
      (encodeCompoundWithSequence x.tag x.sequence x.ops)
    unfold SentCompound.request at *
    omega
  apply (client.must_writeRecordBatch (by rwa [List.length_map]) hlen).mono
  rintro r c' ⟨rfl, rfl⟩
  exact ⟨rfl, _, rfl, SentCompound.reads_readCallRecords hconnect hreadable⟩

/-- A `WRITE` with its `COMMIT`, and a `LOOKUP`. -/
def smallBatch : List SentCompound :=
  [⟨1, "write-commit", default, writeAndCommitOps ⟨⟨[7]⟩, .anonymous, 1⟩ 0 [9]⟩,
    ⟨2, "resolve", default, exportPathOps ⟨[7]⟩ ["a", "b"]⟩]

theorem batch_understood_smallChannel : ∃ client, RpcClient.connect ⟨"", 0, 0, []⟩ 7 = .ok client ∧
    ∀ c, Must (E := transfers) Rpc.Framing.Connection.serves
      (fun r c' => r = .ok () ∧ ∃ bytes, c'.written = c.written ++ bytes ∧
        ∀ rest, (readCallRecords smallBatch.length).run (bytes ++ rest) =
          .ok (smallBatch.map fun x => x.call 7 ⟨"", 0, 0, []⟩, rest))
      (writeRecordBatch client (smallBatch.map fun x => x.request client)).run c := by
  have hfits : ∀ x ∈ smallBatch, smallChannel.compoundRequestFits x.tag x.ops = true := by
    decide +kernel
  refine ⟨_, connect_smallChannel, batch_understood (s := smallChannel) connect_smallChannel rfl
    (by decide) (by decide) ?_ ?_⟩
  · unfold smallBatch
    simp [writeAndCommitOps, exportPathOps, NfsOp.InRange, commitCount]
  · intro x hx
    exact NfsSession.validate_of_fits (hfits x hx)

end NfsCrust
