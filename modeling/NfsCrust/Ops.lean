import NfsCrust.Xdr

/-!
# Operations of a compound request

The operations the client puts into a `COMPOUND`, with the data each one
carries, their encoding and their encoded length, from `src/nfs4/ops.rs`, and
the small records around them from `src/nfs4.rs`.

Offsets, counts and sizes are natural numbers; the encoder truncates them to
the width the wire has, as the source's types do.

## Main definitions

* `NfsConfig`, `FileHandle`, `StateId`, `OpenedFile`, `FileAttrs`, `DirPage`,
  `ReadData`, `WriteData` — the records.
* `NfsOp`, `NfsOp.opcode`, `NfsOp.encode`, `NfsOp.encodedLen`.
* `exportPathOps`, `rootPathOps`, `writeAndCommitOps`, `readdirOp` — the shared
  pieces of the requests.
-/

namespace NfsCrust

open BigEndian

/-! ### Records -/

/-- A file handle: bytes the server chose. -/
structure FileHandle where
  bytes : Bytes
  deriving DecidableEq, Repr, Inhabited

/-- A write verifier, or the verifier of a directory cursor. -/
abbrev Verifier := Vector UInt8 8

/-- The state of an open file. -/
structure StateId where
  seqid : UInt32
  other : Vector UInt8 12
  deriving DecidableEq, Repr

namespace StateId

def anonymous : StateId := ⟨0, .replicate 12 0⟩

/-- The special stateid of a compound's current stateid. -/
def current : StateId := ⟨1, .replicate 12 0⟩

def encode (s : StateId) : Bytes := putU32 s.seqid ++ s.other.toList

def encodedLen : ℕ := 4 + xdrFixedOpaqueLen 12

def decode : XdrM StateId := do
  let (seqid, other) ← readU32AndBytes 12
  return ⟨seqid, other⟩

end StateId

structure OpenedFile where
  fh : FileHandle
  stateid : StateId
  closeSeqid : UInt32
  deriving DecidableEq, Repr

inductive FileType
  | regular
  | directory
  | other (value : UInt32)
  deriving DecidableEq, Repr

def FileType.fromRaw (value : UInt32) : FileType :=
  if value = 1 then .regular else if value = 2 then .directory else .other value

structure FileAttrs where
  fileType : Option FileType := none
  size : Option UInt64 := none
  deriving DecidableEq, Repr

structure DirEntry where
  name : String
  deriving DecidableEq, Repr

structure DirPage where
  entries : List DirEntry
  eof : Bool
  verifier : Verifier
  lastCookie : UInt64
  deriving DecidableEq, Repr

structure ReadData where
  eof : Bool
  data : Bytes
  deriving DecidableEq, Repr

inductive WriteStability
  | unstable
  | dataSync
  | fileSync
  deriving DecidableEq, Repr, Inhabited

namespace WriteStability

def toRaw : WriteStability → UInt32
  | unstable => 0
  | dataSync => 1
  | fileSync => 2

def fromRaw (value : UInt32) : Except Error WriteStability :=
  if value = 0 then .ok unstable
  else if value = 1 then .ok dataSync
  else if value = 2 then .ok fileSync
  else .error (.protocol s!"server returned invalid write stable_how {value}")

@[simp] theorem fromRaw_toRaw (s : WriteStability) : fromRaw s.toRaw = .ok s := by
  cases s <;> rfl

end WriteStability

structure WriteData where
  count : UInt32
  committed : WriteStability
  verifier : Verifier
  deriving DecidableEq, Repr

def WriteData.requiresCommit (w : WriteData) : Bool := w.committed != .fileSync

/-- The configuration of a session, as negotiated. -/
structure NfsConfig where
  «export» : String
  readChunkSize : UInt32 := 1024 * 1024
  readGranularity : UInt32 := 128 * 1024
  writeChunkSize : UInt32 := 1024 * 1024
  pipelineWriteChunks : Bool := true
  readdirDircount : UInt32 := 64 * 1024
  readdirMaxcount : UInt32 := 1024 * 1024
  fileMode : UInt32 := 0o644
  dirMode : UInt32 := 0o755
  sessionSlots : UInt32 := 64
  maxRequestSize : UInt32 := 16 * 1024 * 1024
  maxResponseSize : UInt32 := 1024 * 1024 + 1024
  maxCompoundOps : UInt32 := 0xffffffff
  operationTimeout : Option Duration := some (30 * 10 ^ 9)
  transientRetries : UInt32 := 5
  transientRetryDelay : Duration := 10 ^ 9
  deriving DecidableEq, Repr

/-! ### Attributes -/

def FATTR4_TYPE : UInt32 := 1

def FATTR4_SIZE : UInt32 := 4

def FATTR4_MODE : UInt32 := 33

/-- A bitmap of attribute numbers. -/
structure Bitmap where
  words : List UInt32
  deriving DecidableEq, Repr

namespace Bitmap

def empty : Bitmap := ⟨[]⟩

def sizeAttr : Bitmap := ⟨[1 <<< FATTR4_SIZE]⟩

def typeAndSizeAttrs : Bitmap := ⟨[(1 <<< FATTR4_TYPE) ||| (1 <<< FATTR4_SIZE)]⟩

def encode (b : Bitmap) : Bytes := putU32 (.ofNat b.words.length) ++ (b.words.map putU32).flatten

def encodedLen (b : Bitmap) : ℕ := saturatingAdd 4 (min (b.words.length * 4) (2 ^ 64 - 1))

end Bitmap

inductive AttrRequest
  | size
  | typeAndSize
  deriving DecidableEq, Repr

def AttrRequest.bitmap : AttrRequest → Bitmap
  | size => .sizeAttr
  | typeAndSize => .typeAndSizeAttrs

/-- The attributes set by a creating operation, or compared by `VERIFY`. -/
structure SetAttrs where
  size : Option ℕ
  mode : Option UInt32

namespace SetAttrs

def bitmapWords (a : SetAttrs) : ℕ :=
  if a.mode.isSome then (FATTR4_MODE / 32 + 1).toNat
  else if a.size.isSome then (FATTR4_SIZE / 32 + 1).toNat
  else 0

def bitmapWord (a : SetAttrs) (index : ℕ) : UInt32 :=
  (if a.size.isSome ∧ FATTR4_SIZE / 32 = .ofNat index then 1 <<< (FATTR4_SIZE % 32) else 0) |||
    (if a.mode.isSome ∧ FATTR4_MODE / 32 = .ofNat index then 1 <<< (FATTR4_MODE % 32) else 0)

def valuesLen (a : SetAttrs) : ℕ :=
  (if a.size.isSome then 8 else 0) + if a.mode.isSome then 4 else 0

def encode (a : SetAttrs) : Bytes :=
  putU32 (.ofNat a.bitmapWords)
    ++ ((List.range a.bitmapWords).map fun i => putU32 (a.bitmapWord i)).flatten
    ++ putU32 (.ofNat a.valuesLen)
    ++ (a.size.elim [] fun size => putU64 (.ofNat size))
    ++ (a.mode.elim [] putU32)

def encodedLen (a : SetAttrs) : ℕ :=
  saturatingAdd (saturatingAdd 4 (a.bitmapWords * 4)) (xdrOpaqueLen a.valuesLen)

end SetAttrs

/-! ### Operations -/

/-- An operation of a compound request. -/
inductive NfsOp
  | putRootFh
  | putFh (fh : FileHandle)
  | lookup (name : String)
  | saveFh
  | restoreFh
  | getFh
  | getAttr (bitmap : Bitmap)
  | «open» (seqid : UInt32) (clientid : UInt64) (owner : Bytes) (name : String)
      (fileMode : UInt32)
  | close (seqid : UInt32) (stateid : StateId)
  | read (stateid : StateId) (offset count : ℕ)
  | write (stateid : StateId) (offset : ℕ) (data : Bytes)
  | commit (offset count : ℕ)
  | link (name : String)
  | remove (name : String)
  | verify (size : ℕ)
  | rename (oldName newName : String)
  | createDir (name : String) (mode : UInt32)
  | readDir (cookie : UInt64) (verifier : Verifier) (dircount maxcount : UInt32) (attrs : Bitmap)
  | exchangeId (verifier : Verifier) (owner : Bytes)
  | createSession (clientid : UInt64) (sequenceid : UInt32) (config : NfsConfig)
  | reclaimComplete (oneFs : Bool)
  deriving DecidableEq, Repr

namespace NfsOp

def opcode : NfsOp → OpCode
  | putRootFh => .putRootFh
  | putFh _ => .putFh
  | lookup _ => .lookup
  | saveFh => .saveFh
  | restoreFh => .restoreFh
  | getFh => .getFh
  | getAttr _ => .getAttr
  | «open» .. => .«open»
  | close .. => .close
  | read .. => .read
  | write .. => .write
  | commit .. => .commit
  | link _ => .link
  | remove _ => .remove
  | verify _ => .verify
  | rename .. => .rename
  | createDir .. => .create
  | readDir .. => .readDir
  | exchangeId .. => .exchangeId
  | createSession .. => .createSession
  | reclaimComplete _ => .reclaimComplete

end NfsOp

def encodeChannelAttrs (maxRequest maxResponse slots : UInt32) : Bytes :=
  putU32 0 ++ putU32 maxRequest ++ putU32 maxResponse ++ putU32 maxResponse ++ putU32 64
    ++ putU32 slots ++ putU32 0

def channelAttrsLen : ℕ := 7 * 4

def xdrStringLen (value : String) : ℕ := xdrOpaqueLen (utf8 value).length

def saturatingEncodedLen (parts : List ℕ) : ℕ := parts.foldl saturatingAdd 0

namespace NfsOp

/-- The arguments of an operation, after its operation code. -/
def encodeArgs : NfsOp → Bytes
  | putRootFh | saveFh | restoreFh | getFh => []
  | putFh fh => putOpaque fh.bytes
  | lookup name | link name | remove name => putString name
  | verify size => SetAttrs.encode ⟨some size, none⟩
  | getAttr bitmap => bitmap.encode
  | «open» seqid clientid owner name fileMode =>
      -- share access WRITE | WANT_NO_DELEG, deny NONE, a guarded create, claim NULL
      putU32 seqid ++ putU32 (0x2 ||| 0x400) ++ putU32 0 ++ putU64 clientid ++ putOpaque owner
        ++ putU32 1 ++ putU32 1 ++ SetAttrs.encode ⟨some 0, some fileMode⟩ ++ putU32 0
        ++ putString name
  | close seqid stateid => putU32 seqid ++ stateid.encode
  | read stateid offset count => stateid.encode ++ putU64 (.ofNat offset) ++ putU32 (.ofNat count)
  | write stateid offset data =>
      stateid.encode ++ putU64 (.ofNat offset) ++ putU32 WriteStability.unstable.toRaw
        ++ putOpaque data
  | commit offset count => putU64 (.ofNat offset) ++ putU32 (.ofNat count)
  | rename oldName newName => putString oldName ++ putString newName
  | createDir name mode => putU32 2 ++ putString name ++ SetAttrs.encode ⟨none, some mode⟩
  | readDir cookie verifier dircount maxcount attrs =>
      putU64 cookie ++ verifier.toList ++ putU32 dircount ++ putU32 maxcount ++ attrs.encode
  | exchangeId verifier owner =>
      verifier.toList ++ putOpaque owner ++ putU32 0x10000 ++ putU32 0 ++ putU32 0
  | createSession clientid sequenceid config =>
      putU64 clientid ++ putU32 sequenceid ++ putU32 0
        ++ encodeChannelAttrs config.maxRequestSize config.maxResponseSize config.sessionSlots
        ++ encodeChannelAttrs 8192 8192 1 ++ putU32 0 ++ putU32 0
  | reclaimComplete oneFs => putBool oneFs

def encode (op : NfsOp) : Bytes := putU32 op.opcode.toU32 ++ op.encodeArgs

/-- The length of the arguments, as the client computes it. -/
def argsLen : NfsOp → ℕ
  | putRootFh | getFh | saveFh | restoreFh => 0
  | verify _ => SetAttrs.encodedLen ⟨some 0, none⟩
  | putFh fh => xdrOpaqueLen fh.bytes.length
  | lookup name | link name | remove name => xdrStringLen name
  | getAttr bitmap => bitmap.encodedLen
  | «open» _ _ owner name _ =>
      saturatingEncodedLen [4, 4, 4, 8, xdrOpaqueLen owner.length, 4,
        saturatingAdd 4 (SetAttrs.encodedLen ⟨some 0, some 0⟩), 4, xdrStringLen name]
  | close .. => saturatingAdd 4 StateId.encodedLen
  | read .. => saturatingEncodedLen [StateId.encodedLen, 8, 4]
  | write _ _ data => saturatingEncodedLen [StateId.encodedLen, 8, 4, xdrOpaqueLen data.length]
  | commit .. => saturatingAdd 8 4
  | rename oldName newName => saturatingAdd (xdrStringLen oldName) (xdrStringLen newName)
  | createDir name _ =>
      saturatingEncodedLen [4, xdrStringLen name, SetAttrs.encodedLen ⟨none, some 0⟩]
  | readDir _ _ _ _ attrs =>
      saturatingEncodedLen [8, xdrFixedOpaqueLen 8, 4, 4, attrs.encodedLen]
  | exchangeId _ owner =>
      saturatingEncodedLen [xdrFixedOpaqueLen 8, xdrOpaqueLen owner.length, 4, 4, 4]
  | createSession .. =>
      saturatingEncodedLen [8, 4, 4, channelAttrsLen, channelAttrsLen, 4, 4]
  | reclaimComplete _ => 4

def encodedLen (op : NfsOp) : ℕ := saturatingAdd 4 op.argsLen

end NfsOp

/-! ### Shared pieces of the requests -/

def rootPathOps (components : List String) : List NfsOp :=
  .putRootFh :: components.map .lookup

def exportPathOps (exportRoot : FileHandle) (components : List String) : List NfsOp :=
  .putFh exportRoot :: components.map .lookup

/-- A `COMMIT` count of zero means "to end of file". -/
def commitCount (bytes : ℕ) : ℕ := if bytes < 2 ^ 32 then bytes else 0

def writeAndCommitOps (opened : OpenedFile) (offset : ℕ) (data : Bytes) : List NfsOp :=
  [.putFh opened.fh, .write opened.stateid offset data, .commit offset (commitCount data.length)]

def READDIR_ENTRY_BYTE_HINT : ℕ := 512

def boundedReaddirCounts (config : NfsConfig) (maxEntriesHint : Option ℕ) : UInt32 × UInt32 :=
  let hintedMaxcount := match maxEntriesHint with
    | some entries => .ofNat (min (max (min (entries * READDIR_ENTRY_BYTE_HINT) (2 ^ 64 - 1)) 4096)
        (2 ^ 32 - 1))
    | none => config.readdirMaxcount
  let maxcount := max (min config.readdirMaxcount hintedMaxcount) 1
  (max (min config.readdirDircount maxcount) 1, maxcount)

def readdirOp (config : NfsConfig) (cookie : UInt64) (verifier : Verifier)
    (maxEntriesHint : Option ℕ) : NfsOp :=
  let (dircount, maxcount) := boundedReaddirCounts config maxEntriesHint
  .readDir cookie verifier dircount maxcount .empty

/-! ### Request limits -/

def sequenceOpEncodedLen : ℕ := saturatingEncodedLen [4, xdrFixedOpaqueLen 16, 4, 4, 4, 4]

def compoundEncodedLen (tag : String) (ops : List NfsOp) : ℕ :=
  ops.foldl (fun total op => saturatingAdd total op.encodedLen)
    (saturatingEncodedLen [xdrStringLen tag, 4, 4])

def compoundWithSequenceEncodedLen (tag : String) (ops : List NfsOp) : ℕ :=
  saturatingAdd (compoundEncodedLen tag ops) sequenceOpEncodedLen

def validateCompoundRequestLimits (tag : String) (ops : List NfsOp)
    (maxCompoundOps maxRequestSize : UInt32) (encodedCallLen : ℕ) : Except Error Unit := do
  let operationCount := saturatingAdd ops.length 1
  if operationCount > maxCompoundOps.toNat then
    throw (.protocol (s!"{tag} compound has {operationCount} operations, "
      ++ s!"exceeding negotiated limit {maxCompoundOps}"))
  if encodedCallLen > maxRequestSize.toNat then
    throw (.protocol (s!"{tag} RPC request is {encodedCallLen} bytes, "
      ++ s!"exceeding negotiated request limit {maxRequestSize}"))

end NfsCrust
