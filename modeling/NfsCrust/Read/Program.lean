import NfsCrust.Client
import NfsCrust.Path
import NfsCrust.Read.Reassembly

/-!
# Reading a file

The read paths of `src/client.rs`.  A read of a handle is one `READ` with a
sequential continuation, a sequential loop, or a pipeline of `READ`s; the public
operations add the compound that resolves the path, and choose between them.

Offsets and lengths are `u64`: a sum or a difference that does not fit is a panic, as is
a buffer that cannot be reserved.

## Main definitions

* `readHandleToBytesSequentialInto`, `readHandleToBytesPipelinedInto`,
  `readHandleSingleChunkOrContinue` — the three ways to read a handle.
* `readHandleToBytes`, `readHandleToBytesAfterPrefix`, `readRangeAnonymous` — the
  choice between them.
* `NfsClient.get`, `NfsClient.getKnownSize`, `NfsClient.getRange` — the public reads, with
  `NfsClient.getOnce`, … for one attempt.
-/

namespace NfsCrust

open Interaction

/-! ### Sequential reads -/

/-- The loop variables of a sequential read. -/
structure SequentialRead where
  out : Bytes
  offset : ℕ
  remaining : ℕ
  observedEof : Option ℕ
  deriving DecidableEq, Repr

/-- Where the file ends, as far as replies have said. -/
def observeEof (offset : ℕ) (read : ReadData) (observed : Option ℕ) : Except Error (Option ℕ) :=
  if read.eof then some <$> addU64 offset read.data.length else .ok observed

/-- One turn of a sequential read.  The loop ends at an empty reply, at EOF, or when
nothing remains. -/
def sequentialReadTurn (s : NfsSession) (fh : FileHandle) (requirements : ReadRequirements)
    (r : SequentialRead) : ClientM (SequentialRead ⊕ SequentialRead) := do
  if r.remaining = 0 then return .inr r
  else
    let count := asU32 (min r.remaining s.readChunkSize)
    let read ← s.call (.readAnonymous fh r.offset count)
    validateReadReply read count
    let observedEof ← observeEof r.offset read r.observedEof
    if read.data = [] then return .inr { r with observedEof }
    else
      ensureBufferedReadWithinLimit r.out.length read.data.length requirements.expectedLen
        requirements.limit
      let offset ← addU64 r.offset read.data.length
      let next : SequentialRead :=
        { out := r.out ++ read.data
          offset
          remaining := r.remaining - read.data.length
          observedEof }
      if read.eof then return .inr next else return .inl next

/-- Append up to `remaining` bytes from `offset` to `out`, one `READ` at a time. -/
def readHandleToBytesSequentialInto (s : NfsSession) (fh : FileHandle) (out : Bytes)
    (offset remaining : ℕ) (requirements : ReadRequirements) : ClientM Bytes := do
  let r ← Prog.loopExcept (sequentialReadTurn s fh requirements)
    { out, offset, remaining, observedEof := none }
  validateOptionalObservedEof requirements.expectedEof r.observedEof
  return r.out

/-! ### Pipelined reads -/

/-- Read a range.  The ends of the range and of the reply, which the scheduler and the
emitter compute, are checked here. -/
def readChunk (s : NfsSession) (fh : FileHandle) (offset count : ℕ) : SessionM ReadTaskOutput := do
  let _ ← addU64 offset count
  let read ← s.call (.readAnonymous fh offset count)
  validateReadReply read count
  let _ ← addU64 offset read.data.length
  return { offset, requested := count, data := read.data, eof := read.eof }

/-- The loop of a pipelined read. -/
def readPool (s : NfsSession) (fh : FileHandle) (depth : ℕ) :
    Pool effects (ChunkScheduler × PipelinedEmit) (Except Error ReadTaskOutput) where
  depth := depth
  next x :=
    if x.2.canScheduleMore then
      (x.1.nextRange x.2.eofObserved).map fun ((offset, count), scheduler) =>
        ((readChunk s fh offset count).run, (scheduler, x.2))
    else none
  absorb
    | (scheduler, emit), .ok read =>
        (match read.shortReadGap with
          | some gap => scheduler.pushGap gap
          | none => scheduler, emit.record read)
    | (scheduler, emit), .error err => (scheduler, emit.recordError err)

/-- Append up to `totalLen` bytes from `start` to `out`, with several `READ`s in
flight. -/
def readHandleToBytesPipelinedInto (s : NfsSession) (fh : FileHandle) (out : Bytes)
    (start totalLen : ℕ) (requirements : ReadRequirements) : ClientM Bytes := do
  let depth ← operationPipelineDepth s
  let (_, emit) ← (readPool s fh depth).run
    (.new start (saturatingAdd start totalLen) s.readGranularity, .new out start requirements)
  emit.finish
  return emit.out

/-! ### Reading a handle -/

def readNeedsRetry (read : ReadData) (count : ℕ) : Bool := read.data.length < count && !read.eof

def readHandleSingleChunkOrContinue (s : NfsSession) (fh : FileHandle) (offset count : ℕ)
    (requirements : ReadRequirements) : ClientM Bytes := do
  let read ← s.call (.readAnonymous fh offset count)
  validateReadReply read count
  ensureBufferedReadWithinLimit 0 read.data.length requirements.expectedLen requirements.limit
  if !readNeedsRetry read count then
    validateOptionalExpectedEof requirements.expectedEof (← addU64 offset read.data.length) read.eof
    return read.data
  else
    requirements.reserve count
    readHandleToBytesSequentialInto s fh read.data (← addU64 offset read.data.length)
      (count - read.data.length) requirements

def readHandleToBytesAfterPrefix (s : NfsSession) (fh : FileHandle) (initial : Bytes)
    (resumeOffset remaining : ℕ) (requirements : ReadRequirements) : ClientM Bytes := do
  requirements.reserve (← addU64 initial.length remaining)
  if remaining ≤ s.readGranularity then
    readHandleToBytesSequentialInto s fh initial resumeOffset remaining requirements
  else if (← operationPipelineDepth s) ≤ 1 then
    readHandleToBytesSequentialInto s fh initial resumeOffset remaining requirements
  else readHandleToBytesPipelinedInto s fh initial resumeOffset remaining requirements

def readHandleToBytes (s : NfsSession) (fh : FileHandle) (offset remaining : ℕ)
    (requirements : ReadRequirements) : ClientM Bytes := do
  if remaining = 0 then return []
  else if remaining ≤ s.readGranularity then
    readHandleSingleChunkOrContinue s fh offset (asU32 remaining) requirements
  else
    requirements.reserve remaining
    if (← operationPipelineDepth s) ≤ 1 then
      readHandleToBytesSequentialInto s fh [] offset remaining requirements
    else readHandleToBytesPipelinedInto s fh [] offset remaining requirements

/-! ### Public reads -/

def readRangeAnonymous (s : NfsSession) (components : List String) (start requestedLen : ℕ)
    (requirements : ReadRequirements) : ClientM Bytes := do
  if requestedLen ≤ s.readGranularity then
    let count := asU32 requestedLen
    let read ← s.call (.readPathAnonymous components start count)
    validateReadReply read count
    ensureBufferedReadWithinLimit 0 read.data.length requirements.expectedLen requirements.limit
    if !readNeedsRetry read count then
      validateOptionalExpectedEof requirements.expectedEof (← addU64 start read.data.length)
        read.eof
      return read.data
    else
      -- the file is resolved again, so nothing of the first read is kept
      let fh ← s.call (.lookupFileHandle components)
      readHandleToBytes s fh start requestedLen requirements
  else
    let count := s.readGranularity
    let (fh, read) ← s.call (.readPathAnonymousWithHandle components start count)
    validateReadReply read count
    ensureBufferedReadWithinLimit 0 read.data.length requirements.expectedLen requirements.limit
    if read.eof then
      validateOptionalExpectedEof requirements.expectedEof (← addU64 start read.data.length) true
      return read.data
    else
      let resumeOffset ← addU64 start read.data.length
      let remaining ← subU64 requestedLen read.data.length
      readHandleToBytesAfterPrefix s fh read.data resumeOffset remaining requirements

/-- The count of the first `READ`, sent before the size is known. -/
def smallGetProbeCount (s : NfsSession) (limit : Option ℕ) : ℕ :=
  match limit with
  | some limit => asU32 (min limit s.readGranularity)
  | none => s.readGranularity

def rangeReadNeedsSize (requestedLen : ℕ) (limit : Option ℕ) : Bool :=
  limit.any (requestedLen > ·)

def bufferedRangeLen (start «end» : ℕ) (fileSize : Option ℕ) : Except Error ℕ :=
  match fileSize with
  | some size => if start ≥ size then .ok 0 else .ok (min «end» size - start)
  | none => subU64 «end» start

namespace NfsClient

/-- One attempt of a `get`: the size, the handle and the first bytes come from one
compound, the rest is read from the handle. -/
def getOnce (client : NfsClient) (s : NfsSession) (components : List String) : ClientM Bytes := do
  let limit := client.maxBufferedReadSize
  let count := smallGetProbeCount s limit
  let (fh, size, read) ← s.call (.readPathAnonymousWithSize components count)
  validateReadReply read count
  ensureKnownSizeWithinLimit size.toNat limit
  let readLen := read.data.length
  if readLen = size.toNat then
    validateEofExpectation (.resolvedWithFile size.toNat) readLen read.eof
    return read.data
  else if readLen > size.toNat then
    throw (sizeExpectationError (.resolvedWithFile size.toNat)
      (if read.eof then some readLen else none))
  else if read.eof then
    throw (sizeExpectationError (.resolvedWithFile size.toNat) (some readLen))
  else
    let remaining ← subU64 size.toNat readLen
    readHandleToBytesAfterPrefix s fh read.data readLen remaining (.resolvedExact size.toNat limit)

def getKnownSizeOnce (client : NfsClient) (s : NfsSession) (components : List String)
    (size : ℕ) : ClientM Bytes := do
  let limit := client.maxBufferedReadSize
  ensureKnownSizeWithinLimit size limit
  if size = 0 then
    let read ← s.call (.readPathAnonymous components 0 1)
    validateReadReply read 1
    validateEofExpectation (.callerSupplied 0) read.data.length read.eof
    return []
  else readRangeAnonymous s components 0 size (.exact size limit)

/-- One attempt of a range read.  A range over the limit is cut at the size of the
file before it is read. -/
def getRangeOnce (client : NfsClient) (s : NfsSession) (components : List String)
    (start «end» : ℕ) : ClientM Bytes := do
  let limit := client.maxBufferedReadSize
  let requestedLen ← subU64 «end» start
  if !rangeReadNeedsSize requestedLen limit then
    readRangeAnonymous s components start requestedLen (.new (some requestedLen) limit)
  else
    let (fh, attrs) ← s.call (.lookupFileHandleAttrs components .size)
    let expectedLen ← bufferedRangeLen start «end» (attrs.size.map UInt64.toNat)
    ensureKnownSizeWithinLimit expectedLen limit
    let remaining := min expectedLen requestedLen
    if remaining = 0 then return []
    else readHandleToBytes s fh start remaining (.new (some expectedLen) limit)

def get (client : NfsClient) (rawPath : String) : ClientM Bytes := do
  let path ← NfsPath.file rawPath
  retryingSessionOperation fun snapshot => client.getOnce snapshot.session path.components

def getKnownSize (client : NfsClient) (rawPath : String) (size : ℕ) : ClientM Bytes := do
  let path ← NfsPath.file rawPath
  retryingSessionOperation fun snapshot =>
    client.getKnownSizeOnce snapshot.session path.components size

def getRange (client : NfsClient) (rawPath : String) (start «end» : ℕ) : ClientM Bytes := do
  let path ← NfsPath.file rawPath
  if «end» ≤ start then return []
  else
    retryingSessionOperation fun snapshot =>
      client.getRangeOnce snapshot.session path.components start «end»

end NfsClient

end NfsCrust
