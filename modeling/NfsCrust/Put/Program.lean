import NfsCrust.Client
import NfsCrust.Path

/-!
# Storing a file

The `put` of `src/client.rs`.  A small body goes out in one compound, which creates a
temporary file, writes it, and publishes it under its name.  Everything else, and
whatever the fused compound could not do, takes several: open a temporary file,
write it, then close and publish it.

What an error of a publishing compound says about the publish is decided by
`classifyPublishError`.

## Main definitions

* `classifyPublishError`, `publishResult` — what is known after a failed publish.
* `writeBytes` — the ways to write a body.
* `putOnceFused`, `putOnce` — one attempt.
* `put` — the attempts.
-/

namespace NfsCrust

open Interaction

inductive PutMode
  | overwrite
  | ifNotExists
  deriving DecidableEq, Repr

def PutMode.createNew : PutMode → Bool
  | overwrite => false
  | ifNotExists => true

def putOperationName : PutMode → String
  | .overwrite => "overwrite put"
  | .ifNotExists => "create-new put"

def outcomeUnknownError (operation path : String) (operationError : Error) : Error :=
  .outcomeUnknown operation path
    ("the operation failed after it may have reached the server: " ++ operationError.display)

/-! ### Errors of a publish -/

inductive PublishError
  | published
  | alreadyExists
  | noPublish
  | outcomeUnknown
  deriving DecidableEq, Repr

def errorProvesOperationNotRun (err : Error) : Bool :=
  err.isRequestNotSent || (err.nfsStatusCode.isSome && !err.isNfsOperation .illegal)

/-- An NFS error names the operation that stopped the compound; other errors say
nothing about the publish. -/
def classifyPublishError (mode : PutMode) (err : Error) : PublishError :=
  if mode = .ifNotExists ∧ err.isNfsOperation .remove then .published
  else if mode = .ifNotExists ∧ err.isNfsError .EXIST .link then .alreadyExists
  else if errorProvesOperationNotRun err then .noPublish
  else .outcomeUnknown

def publishResult (mode : PutMode) (err : Error) (rawPath : String) : Except Error Unit :=
  match classifyPublishError mode err with
  | .published => .ok ()
  | .alreadyExists => .error (.alreadyExists rawPath)
  | .noPublish => .error err
  | .outcomeUnknown => .error (outcomeUnknownError (putOperationName mode) rawPath err)

/-! ### Writes -/

def validateWriteReply (write : WriteData) (requestedLen : ℕ) : Except Error ℕ :=
  let written := write.count.toNat
  if written = 0 then .error (.protocol "NFS WRITE made no progress")
  else if written > requestedLen then
    .error (.protocol
      s!"NFS WRITE reported {write.count} bytes for a {requestedLen} byte request")
  else .ok written

structure WriteOutcome where
  bytesWritten : ℕ := 0
  unstableVerifier : Option Verifier := none
  deriving DecidableEq, Repr

namespace WriteOutcome

def fromWrite (write : WriteData) (bytesWritten : ℕ) : WriteOutcome where
  bytesWritten := bytesWritten
  unstableVerifier := if write.requiresCommit then some write.verifier else none

def recordUnstable (outcome : WriteOutcome) (verifier : Verifier) : Except Error WriteOutcome :=
  match outcome.unstableVerifier with
  | some existing => do
    ensureWriteVerifier existing verifier
    return outcome
  | none => return { outcome with unstableVerifier := some verifier }

def merge (outcome other : WriteOutcome) : Except Error WriteOutcome :=
  let outcome := { outcome with bytesWritten := outcome.bytesWritten + other.bytesWritten }
  match other.unstableVerifier with
  | some verifier => outcome.recordUnstable verifier
  | none => return outcome

end WriteOutcome

/-- Write what is left of a chunk, one `WRITE` at a time.  Every turn of the loop writes
at least one byte, so that the length of the chunk bounds their number. -/
def writeChunkAllFrom (s : NfsSession) (opened : OpenedFile) :
    (turns offset : ℕ) → (chunk : Bytes) → WriteOutcome → SessionM WriteOutcome
  | 0, _, _, outcome => return outcome
  | turns + 1, offset, chunk, outcome =>
    if chunk = [] then return outcome
    else do
      let remaining := chunk.take s.writeChunkSize
      let write ← s.call (.write opened offset remaining)
      let written ← validateWriteReply write remaining.length
      let outcome ← outcome.merge (.fromWrite write written)
      writeChunkAllFrom s opened turns (offset + written) (chunk.drop written) outcome

def writeChunkAll (s : NfsSession) (opened : OpenedFile) (offset : ℕ) (chunk : Bytes) :
    SessionM WriteOutcome :=
  writeChunkAllFrom s opened chunk.length offset chunk {}

def writeChunk (s : NfsSession) (opened : OpenedFile) (offset : ℕ) (chunk : Bytes) :
    SessionM WriteOutcome := do
  let write ← s.call (.write opened offset chunk)
  let written ← validateWriteReply write chunk.length
  let outcome := WriteOutcome.fromWrite write written
  if written = chunk.length then return outcome
  else
    let rest ← writeChunkAll s opened (offset + written) (chunk.drop written)
    outcome.merge rest

/-- The loop variables of a pipelined write. -/
structure PipelinedWrite where
  nextOffset : ℕ := 0
  outcome : WriteOutcome := {}
  firstError : Option Error := none
  deriving DecidableEq, Repr

/-- The loop of a pipelined write. -/
def writePool (s : NfsSession) (opened : OpenedFile) (body : Bytes) (depth : ℕ) :
    Pool effects PipelinedWrite (Except Error WriteOutcome) where
  depth := depth
  next x :=
    if x.firstError.isNone && x.nextOffset < body.length then
      let «end» := min (x.nextOffset + s.writeChunkSize) body.length
      some ((writeChunk s opened x.nextOffset
        ((body.drop x.nextOffset).take («end» - x.nextOffset))).run,
        { x with nextOffset := «end» })
    else none
  absorb
    | x, .ok written =>
        match x.outcome.merge written with
        | .ok outcome => { x with outcome }
        | .error err => { x with firstError := some (x.firstError.getD err) }
    | x, .error err => { x with firstError := some (x.firstError.getD err) }

def writeChunkAllPipelined (s : NfsSession) (opened : OpenedFile) (body : Bytes) (depth : ℕ) :
    ClientM WriteOutcome := do
  let x ← (writePool s opened body depth).run {}
  match x.firstError with
  | some err => throw err
  | none => return x.outcome

/-- Write what is left of a chunk, and commit each part with the compound that
writes it. -/
def writeSingleChunkCommittedFrom (s : NfsSession) (opened : OpenedFile) :
    (turns offset : ℕ) → (chunk : Bytes) → (writtenTotal : ℕ) → SessionM WriteOutcome
  | 0, _, _, writtenTotal => return { bytesWritten := writtenTotal }
  | turns + 1, offset, chunk, writtenTotal =>
    if chunk = [] then return { bytesWritten := writtenTotal }
    else do
      let (write, commitVerifier) ← s.call (.writeAndCommit opened offset chunk)
      let written ← validateWriteReply write chunk.length
      if write.requiresCommit then ensureWriteVerifier write.verifier commitVerifier
      writeSingleChunkCommittedFrom s opened turns (offset + written) (chunk.drop written)
        (writtenTotal + written)

def writeSingleChunkCommitted (s : NfsSession) (opened : OpenedFile) (offset : ℕ) (chunk : Bytes) :
    SessionM WriteOutcome :=
  writeSingleChunkCommittedFrom s opened chunk.length offset chunk 0

/-- How many `WRITE`s of a body are in flight. -/
def writeDepth (s : NfsSession) : Thread effects ℕ :=
  if s.config.pipelineWriteChunks then operationPipelineDepth s else return 1

def writeBytes (s : NfsSession) (opened : OpenedFile) (body : Bytes) : ClientM WriteOutcome := do
  if body.length = 0 then return {}
  else if body.length ≤ s.writeChunkSize then writeSingleChunkCommitted s opened 0 body
  else
    let depth ← writeDepth s
    if depth ≤ 1 then writeChunkAll s opened 0 body
    else writeChunkAllPipelined s opened body depth

/-! ### Temporary files -/

def TEMP_FILE_CREATE_RETRIES : ℕ := 8

/-- Open a file under a new name, up to `n` times. -/
def openTempFileFrom (s : NfsSession) (parent : List String) : ℕ → SessionM (String × OpenedFile)
  | 0 => throw (.protocol (s!"failed to allocate a unique temporary file after "
      ++ s!"{TEMP_FILE_CREATE_RETRIES} attempts"))
  | n + 1 => do
    let tempName ← perform .tempFileName
    match ← s.openFile parent tempName with
    | .opened opened => return (tempName, opened)
    | .exists => openTempFileFrom s parent n

def openTempFile (s : NfsSession) (parent : List String) : SessionM (String × OpenedFile) :=
  openTempFileFrom s parent TEMP_FILE_CREATE_RETRIES

/-! ### Attempts -/

/-- Queue the close of a published file, or close it here when the worker is gone. -/
def closePublished (s : NfsSession) (opened : OpenedFile) : SessionM Unit := do
  let queued : Bool ← perform (.deferClose s opened)
  if queued then return ()
  else
    let _ ← Thread.attempt (s.closeFile opened)

/-- What a fused put makes of an error. -/
def fusedError (mode : PutMode) (rawPath : String) (err : Error) : Except Error (Option Unit) :=
  match classifyPublishError mode err with
  | .published => .ok (some ())
  | .alreadyExists => .error (.alreadyExists rawPath)
  | .noPublish => if err.isRetryable then .error err else .ok none
  | .outcomeUnknown => .error (outcomeUnknownError (putOperationName mode) rawPath err)

/-- The fused put under a new temporary name, up to `n` times. -/
def putFusedFrom (s : NfsSession) (parent : List String) (name rawPath : String) (data : Bytes)
    (mode : PutMode) : ℕ → SessionM (Option Unit)
  | 0 => return none
  | n + 1 => do
    let tempName ← perform .tempFileName
    match ← Thread.attempt (s.tryPutFused parent tempName name data mode.createNew) with
    | .ok (some (.opened (_, opened))) => do
      closePublished s opened
      return some ()
    | .ok (some .exists) => putFusedFrom s parent name rawPath data mode n
    | .ok none => return none
    | .error err => do
      let _ ← Thread.attempt (s.call (.remove parent tempName))
      fusedError mode rawPath err

/-- The put in one compound.  Nothing is returned when the caller should use the other
path. -/
def putOnceFused (s : NfsSession) (parent : List String) (name rawPath : String) (data : Bytes)
    (mode : PutMode) : SessionM (Option Unit) := do
  if ← s.fusedPutViable data.length then
    putFusedFrom s parent name rawPath data mode TEMP_FILE_CREATE_RETRIES
  else return none

/-- A new temporary file, in a directory that is created when it is missing. -/
def openTempFileIn (s : NfsSession) (parent : List String) : SessionM (String × OpenedFile) := do
  match ← Thread.attempt (openTempFile s parent) with
  | .ok opened => return opened
  | .error err =>
    if err.isNfsError .NOENT .lookup then
      s.createParentDirs parent
      openTempFile s parent
    else throw err

/-- Give up a temporary file that could not be written. -/
def abandon (s : NfsSession) (parent : List String) (tempName : String) (opened : OpenedFile)
    (err : Error) : SessionM Unit := do
  let closeResult ← Thread.attempt (s.closeFile opened)
  let _ ← Thread.attempt (s.call (.remove parent tempName))
  match closeResult with
  | .ok _ => throw err
  | .error closeErr => throw (err.withCloseFailure closeErr)

/-- Close and publish a temporary file that was written. -/
def publishTempFile (s : NfsSession) (parent : List String) (tempName name rawPath : String)
    (opened : OpenedFile) (outcome : WriteOutcome) (mode : PutMode) : SessionM Unit := do
  match ← Thread.attempt (s.closePublish opened parent tempName name outcome.bytesWritten
    outcome.unstableVerifier mode.createNew) with
  | .ok _ => return ()
  | .error err => do
    let _ ← Thread.attempt (s.call (.remove parent tempName))
    publishResult mode err rawPath

/-- The put in several compounds. -/
def putMulti (s : NfsSession) (parent : List String) (name rawPath : String) (data : Bytes)
    (mode : PutMode) : ClientM Unit := do
  let (tempName, opened) ← openTempFileIn s parent
  match ← Prog.attempt (writeBytes s opened data) with
  | .ok outcome => publishTempFile s parent tempName name rawPath opened outcome mode
  | .error err => abandon s parent tempName opened err

/-- One attempt of a put. -/
def putOnce (s : NfsSession) (path : NfsPath) (rawPath : String) (data : Bytes) (mode : PutMode) :
    ClientM Unit := do
  let (parent, name) ← path.parentAndName
  match ← putOnceFused s parent name rawPath data mode with
  | some () => return ()
  | none => putMulti s parent name rawPath data mode

def put (rawPath : String) (body : Bytes) (mode : PutMode) : ClientM Unit := do
  let path ← NfsPath.file rawPath
  retryingSessionOperation fun snapshot => putOnce snapshot.session path rawPath body mode

end NfsCrust
