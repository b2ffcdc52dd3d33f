import NfsCrust.Lib.Prog
import NfsCrust.Session

/-!
# Session calls

How the session layer sends a request: the limits it checks first, the exchange
with the server, the check of the `SEQUENCE` result, and the retries after a
transient status.  The rest of the client is written over these calls, as programs
of `NfsCrust.Lib.Prog`.

What a program asks of its surroundings is an `Effect`.  An exchange acquires a
slot, sends the compound and waits for the reply; `NfsCrust.Slots` is about that
part.  The other effects are the session-wide latches and counters, the clock, and
the reconnect.

## Main definitions

* `Effect`, `effects` — what the client asks of its surroundings.
* `SessionM`, `ClientM` — the monads of `src/nfs4/session.rs` and `src/client.rs`.
* `NfsSession.compoundRawOnce`, `NfsSession.compoundDecodeDetailed`,
  `NfsSession.call` — a request, its decoder, and the retries.
* `NfsSession.closePublish`, `NfsSession.tryPutFused`, … — the methods that do more
  than one call.
-/

namespace NfsCrust

open Interaction

/-! ### Effects -/

/-- A session together with the generation of the client it belongs to. -/
structure ClientSession where
  session : NfsSession
  generation : UInt64
  deriving DecidableEq, Repr

/-- What identifies a request to its session; the reply must echo it. -/
structure SlotUse where
  sessionid : Vector UInt8 16
  sequenceid : UInt32
  slotid : UInt32
  deriving DecidableEq, Repr

/-- What the client asks of its surroundings. -/
inductive Effect
  /-- Send a compound on a slot of the session, and wait for the reply. -/
  | exchange (s : NfsSession) (tag : String) (ops : List NfsOp)
  | sleepBeforeTransientRetry (status : NfsStatus) (attempt : ℕ)
  | sessionSlotCount (s : NfsSession)
  | fusedPutSupported (s : NfsSession)
  | latchFusedPutOff (s : NfsSession)
  | nextOwner (s : NfsSession)
  /-- Hand an open file to the worker that closes it; false when it is gone. -/
  | deferClose (s : NfsSession) (opened : OpenedFile)
  | tempFileName
  | unixNowMillis
  | currentSession
  | reconnect (failedGeneration : UInt64) (attempt : ℕ) (cause : Error)
  deriving DecidableEq, Repr

def Effect.Response : Effect → Type
  | exchange .. => Except Error (SlotUse × Bytes)
  | sleepBeforeTransientRetry .. | latchFusedPutOff _ => Unit
  | sessionSlotCount _ | unixNowMillis => ℕ
  | fusedPutSupported _ | deferClose .. => Bool
  | nextOwner _ => Bytes
  | tempFileName => String
  | currentSession => ClientSession
  | reconnect .. => Except Error Unit

def effects : Interface := ⟨Effect, Effect.Response⟩

/-- Code of the session layer. -/
abbrev SessionM := ExceptT Error (Thread effects)

/-- Code of the client. -/
abbrev ClientM := ExceptT Error (Prog effects)

/-- Ask the surroundings. -/
def perform (e : Effect) : Thread effects e.Response := @Thread.request effects e

/-! ### Compounds -/

namespace NfsSession

/-- Send a compound once.  A request that breaks a negotiated limit is not sent;
a reply counts only with the `SEQUENCE` result that belongs to the request. -/
def compoundRawOnce (s : NfsSession) (tag : String) (ops : List NfsOp) : SessionM Bytes := do
  match s.validateCompoundRequest tag ops with
  | .error err => throw err.notSent
  | .ok () =>
    let (slot, response) ← ExceptT.mk (perform (.exchange s tag ops))
    let _ ← decodeSequenceResult response slot.sessionid slot.sequenceid slot.slotid
    return response

/-- The retries a call starts with. -/
def transientRetries (s : NfsSession) : ℕ := s.config.transientRetries.toNat

/-- Send a request once and decode the reply. -/
def compoundDecodeOnce (s : NfsSession) (call : SessionCall) :
    Thread effects (Except CompoundDecodeError call.Result) := do
  match ← (s.compoundRawOnce call.tag (call.ops s)).run with
  | .error err => return .error (.ofError err)
  | .ok response => return call.decode response

/-- The transient status after which a compound may be sent again. -/
def retryStatus? (ops : List NfsOp) (retryTransients : Bool) (err : CompoundDecodeError) :
    Option NfsStatus :=
  if retryTransients && transientCompoundRetryIsSafe ops err then err.transientStatus else none

/-- Send a request until its reply is not a transient status, or none of the `left`
retries is left.  Returns how many are. -/
def compoundDecodeDetailed (s : NfsSession) (call : SessionCall) (retryTransients : Bool) :
    (left : ℕ) → Thread effects (Except CompoundDecodeError call.Result × ℕ)
  | 0 => do
    return (← s.compoundDecodeOnce call, 0)
  | left + 1 => do
    match ← s.compoundDecodeOnce call with
    | .ok result => return (.ok result, left + 1)
    | .error err =>
      match retryStatus? (call.ops s) retryTransients err with
      | none => return (.error err, left + 1)
      | some status => do
        perform (.sleepBeforeTransientRetry status (s.transientRetries - left))
        s.compoundDecodeDetailed call retryTransients left

/-- `compound_decode`, or `compound_decode_no_transient_retry` for the calls that
are not sent again. -/
def call (s : NfsSession) (call : SessionCall) : SessionM call.Result := ExceptT.mk do
  let (outcome, _) ← s.compoundDecodeDetailed call call.retryTransients s.transientRetries
  return outcome.mapError CompoundDecodeError.error

/-! ### Methods -/

def openFile (s : NfsSession) (parent : List String) (name : String) :
    SessionM (OpenOutcome OpenedFile) := do
  let owner ← perform (.nextOwner s)
  match ← s.call (.openFile owner parent name) with
  | .exists => return .exists
  | .opened (stateid, fh) => return .opened { fh, stateid, closeSeqid := 1 }

def closeFile (s : NfsSession) (opened : OpenedFile) : SessionM OpenedFile := do
  s.call (.closeFile opened)
  return { opened with closeSeqid := opened.closeSeqid + 1 }

def publishAfterClose (s : NfsSession) (sourceFh : FileHandle) (parent : List String)
    (fromName toName : String) (createNew : Bool) (left : ℕ) : SessionM Unit := ExceptT.mk do
  let (outcome, _) ← s.compoundDecodeDetailed
    (.publishAfterClose sourceFh parent fromName toName createNew) true left
  return outcome.mapError CompoundDecodeError.error

/-- Whether a failed publish closed the file and published nothing, so that it can
be resumed after a transient status. -/
def resumeStatus? (ops : List NfsOp) (err : CompoundDecodeError) : Option NfsStatus :=
  if err.completedOperation ops .close && !err.completedOperation ops .link
      && !err.completedOperation ops .rename then err.transientStatus
  else none

/-- Go on after the compound of a close and publish. -/
def resumePublish (s : NfsSession) (opened : OpenedFile) (parent : List String)
    (fromName toName : String) (createNew : Bool) (ops : List NfsOp) :
    Except CompoundDecodeError Unit × ℕ → SessionM Unit
  | (.ok (), _) => return ()
  | (.error err, left) =>
    match resumeStatus? ops err, left with
    | some status, left + 1 => do
      perform (.sleepBeforeTransientRetry status (s.transientRetries - left))
      s.publishAfterClose opened.fh parent fromName toName createNew left
    | _, _ => throw err.error

/-- Commit, check the size, close and publish in one compound.  When a transient
status stops it after the `CLOSE` and before the publish, the publish alone is sent
again. -/
def closePublish (s : NfsSession) (opened : OpenedFile) (parent : List String)
    (fromName toName : String) (size : ℕ) (unstableVerifier : Option Verifier)
    (createNew : Bool) : SessionM OpenedFile := do
  let call := SessionCall.closePublish opened parent fromName toName size unstableVerifier createNew
  let outcome ← s.compoundDecodeDetailed call true s.transientRetries
  s.resumePublish opened parent fromName toName createNew (call.ops s) outcome
  return { opened with closeSeqid := opened.closeSeqid + 1 }

/-! ### Deferred closes -/

def MAX_DEFERRED_CLOSE_BATCH : ℕ := 16

/-- How many of the files are closed in one compound: `n`, or fewer when that does not fit,
but at least one. -/
def closeBatchLen (s : NfsSession) (opened : List OpenedFile) : ℕ → ℕ
  | n + 2 =>
    if s.compoundRequestFits "close-batch" ((SessionCall.closeBatch (opened.take (n + 2))).ops s) then
      n + 2
    else s.closeBatchLen opened (n + 1)
  | _ => 1

/-- Close files, as many in one compound as fit.  Every turn of the loop closes at least
one, so that the number of files bounds their number. -/
def closeBatchFrom (s : NfsSession) (maxFilesByOps : ℕ) :
    (turns : ℕ) → List OpenedFile → SessionM Unit
  | 0, _ | _ + 1, [] => return ()
  | turns + 1, opened@(_ :: _) => do
    let len := s.closeBatchLen opened (min maxFilesByOps opened.length)
    s.call (.closeBatch (opened.take len))
    s.closeBatchFrom maxFilesByOps turns (opened.drop len)

def closeBatch (s : NfsSession) (opened : List OpenedFile) : SessionM Unit :=
  let maxFilesByOps :=
    max 1 (min ((s.config.maxCompoundOps.toNat - 1) / 2) MAX_DEFERRED_CLOSE_BATCH)
  s.closeBatchFrom maxFilesByOps opened.length opened

/-- Close files one by one, whatever comes of each. -/
def closeEach (s : NfsSession) : List OpenedFile → SessionM Unit
  | [] => return ()
  | opened :: batch => do
    let _ ← Thread.attempt (s.closeFile opened)
    s.closeEach batch

/-- Close a batch of files and, when that fails, each of them. -/
def closeDeferred (s : NfsSession) (batch : List OpenedFile) : SessionM Unit := do
  match ← Thread.attempt (s.closeBatch batch) with
  | .ok () => return ()
  | .error _ => s.closeEach batch

/-- The worker that closes files after their publish, over the batches in which it takes
them off its queue. -/
def runDeferredCloseWorker (s : NfsSession) : List (List OpenedFile) → SessionM Unit
  | [] => return ()
  | batch :: batches => do
    s.closeDeferred batch
    s.runDeferredCloseWorker batches

/-! ### The fused put -/

def MAX_FUSED_PUT_BYTES : ℕ := 128 * 1024

def fusedPutSizeViable (len writeChunkSize : ℕ) : Bool :=
  len ≤ writeChunkSize && len ≤ MAX_FUSED_PUT_BYTES

def fusedPutViable (s : NfsSession) (len : ℕ) : Thread effects Bool :=
  if fusedPutSizeViable len s.writeChunkSize then perform (.fusedPutSupported s)
  else return false

/-- The failure shows that the server does not implement part of the fused shape.
`INVAL` and `BAD_STATEID` show it only from operations whose arguments are all the
client's own. -/
def rejectsFusedShape (err : Error) : Bool :=
  (match err with
    | .unsupported _ => true
    | _ => false) ||
  err.nfsStatusCode.any fun code =>
    if code = NfsStatus.NOTSUPP.code ∨ code = NfsStatus.OP_ILLEGAL.code then true
    else if code = NfsStatus.INVAL.code ∨ code = NfsStatus.BAD_STATEID.code then
      err.isNfsOperation .write || err.isNfsOperation .commit || err.isNfsOperation .verify
    else false

def noteFusedPutFailure (s : NfsSession) (err : Error) : Thread effects Unit :=
  if rejectsFusedShape err then perform (.latchFusedPutOff s) else return ()

/-- What a fused put makes of the outcome of its compound. -/
def fusedOutcome (s : NfsSession) (data : Bytes) :
    Except CompoundDecodeError (OpenOutcome (StateId × FileHandle × WriteData)) →
      SessionM (OpenOutcome (ℕ × OpenedFile))
  | .error err => do
    s.noteFusedPutFailure err.error
    throw err.error
  | .ok .exists => return .exists
  | .ok (.opened (stateid, fh, write)) =>
    if write.count.toNat ≠ data.length then
      throw (.protocol (s!"fused put wrote {write.count} of {data.length} bytes "
        ++ "but passed size verification"))
    else return .opened (write.count.toNat, { fh, stateid, closeSeqid := 1 })

/-- Create, write, commit, verify and publish in one compound.  Nothing is returned
when the body or the request is too large, or the shape is latched off. -/
def tryPutFused (s : NfsSession) (parent : List String) (tempName destName : String)
    (data : Bytes) (createNew : Bool) : SessionM (Option (OpenOutcome (ℕ × OpenedFile))) := do
  if ← s.fusedPutViable data.length then
    let owner ← perform (.nextOwner s)
    let call := SessionCall.putFused owner parent tempName destName data createNew
    if s.compoundRequestFits call.tag (call.ops s) then
      let (outcome, _) ← s.compoundDecodeDetailed call false s.transientRetries
      return some (← s.fusedOutcome data outcome)
    else return none
  else return none

/-! ### Directories -/

def ensureChildDirHandle (s : NfsSession) (parentFh : FileHandle) (name : String) :
    SessionM FileHandle := do
  match ← s.call (.createChildDirWithHandle parentFh name) with
  | .created fh => return fh
  | .exists => s.call (.lookupChildHandle parentFh name)

/-- Create the directories `names` below the path `above`, from the handle of the
last one as soon as one was created. -/
def createDirsBelow (s : NfsSession) (above : List String) :
    Option FileHandle → List String → SessionM Unit
  | _, [] => return ()
  | some fh, [name] => do
    let _ ← s.call (.createDirAtHandle fh name)
  | none, [name] => do
    let _ ← s.call (.createDir above name)
  | some fh, name :: names => do
    let child ← s.ensureChildDirHandle fh name
    s.createDirsBelow (above ++ [name]) (some child) names
  | none, name :: names => do
    match ← s.call (.createDirWithHandle above name) with
    | .created fh => s.createDirsBelow (above ++ [name]) (some fh) names
    | .exists => s.createDirsBelow (above ++ [name]) none names

def createParentDirs (s : NfsSession) (parent : List String) : SessionM Unit :=
  s.createDirsBelow [] none parent

end NfsSession

end NfsCrust
