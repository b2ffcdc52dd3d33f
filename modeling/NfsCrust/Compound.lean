import NfsCrust.Codec

/-!
# Decoding compound replies

A compound reply is a status, a tag and one reply per operation the server got
to; the server stops at the first operation that fails.  `CompoundReplies` walks
the replies in the order the request had its operations, and each
`decode…Compound` of `src/nfs4/codec.rs` pairs one shape of request with the
replies it expects.

## Main definitions

* `CompoundDecodeError` — an error with the status and the position of the reply
  that carried it.
* `CompoundReplies`, `RepliesM`, `advance`, `finish` — the walk.
* `decodeReadCompound`, `decodeCloseCompound`, `decodeFusedPutCompound`, … — one
  decoder per shape of request.
-/

namespace NfsCrust

/-! ### Errors of a compound -/

/-- An error of a compound, with the status and the reply it came from. -/
structure CompoundDecodeError where
  status : Option NfsStatus
  replyIndex : Option ℕ
  error : Error
  deriving DecidableEq, Repr

namespace CompoundDecodeError

def nfs (status : NfsStatus) (op : OpCode) : CompoundDecodeError :=
  ⟨some status, none, .ofStatus status op⟩

/-- `From<Error>`. -/
def ofError (error : Error) : CompoundDecodeError := ⟨none, none, error⟩

@[simp] theorem error_ofError (err : Error) : (ofError err).error = err := rfl

def atReply (err : CompoundDecodeError) (replyIndex : ℕ) : CompoundDecodeError :=
  { err with replyIndex := some (err.replyIndex.getD replyIndex) }

def transientStatus (err : CompoundDecodeError) : Option NfsStatus :=
  err.status.filter fun status => status == .DELAY || status == .GRACE

def completedOperation (err : CompoundDecodeError) (ops : List NfsOp) (op : OpCode) : Bool :=
  (ops.take (err.replyIndex.getD 0 - 1)).any fun candidate => candidate.opcode == op

end CompoundDecodeError

/-- A compound may be sent again only if nothing it did would happen twice. -/
def transientCompoundRetryIsSafe (ops : List NfsOp) (err : CompoundDecodeError) : Bool :=
  match err.replyIndex with
  | none => false
  | some failedReply => !(ops.take (failedReply - 1)).any fun
      | .«open» .. | .close .. | .link _ | .rename .. => true
      | _ => false

/-! ### The walk over the replies -/

/-- A decoder that fails with the error of a compound. -/
abbrev DecM := StateT Bytes (Except CompoundDecodeError)

/-- The replies of a compound that have not been decoded yet. -/
structure CompoundReplies where
  dec : Bytes
  status : NfsStatus
  replyCount : ℕ
  expectedReplies : ℕ
  decoded : ℕ
  shape : String

abbrev RepliesM := StateT CompoundReplies (Except CompoundDecodeError)

/-- Use a decoder where a failure carries no position yet. -/
def DecM.ofXdr {α : Type} (m : XdrM α) : DecM α := fun dec =>
  (m.run dec).mapError .ofError

/-- Decode from the bytes of the replies. -/
def RepliesM.ofXdr {α : Type} (m : XdrM α) : RepliesM α := fun r =>
  match m.run r.dec with
  | .ok (a, dec) => .ok (a, { r with dec })
  | .error err => .error (.ofError err)

/-- A pure check on decoded values. -/
def RepliesM.check {α : Type} (x : Except Error α) : RepliesM α :=
  liftM (x.mapError CompoundDecodeError.ofError)

/-- `ok_or_else(|| Error::protocol(message))?`. -/
def RepliesM.okOr {α : Type} (x : Option α) (message : String) : RepliesM α :=
  match x with
  | some a => pure a
  | none => throw (.ofError (.protocol message))

@[simp] theorem RepliesM.okOr_some {α : Type} (a : α) (message : String) :
    RepliesM.okOr (some a) message = pure a := rfl

def decodeCompoundHeader : DecM (NfsStatus × ℕ) := do
  let (compoundStatus, replyCount) ← DecM.ofXdr readU32SkipOpaqueAndReadU32
  let replyCount := replyCount.toNat
  if replyCount > (← get).length / 8 then
    throw (.ofError (.xdr s!"compound reply count {replyCount} exceeds remaining XDR data"))
  return (⟨compoundStatus⟩, replyCount)

def replyCountError (shape : String) (replyCount expectedReplies : ℕ) : CompoundDecodeError :=
  .ofError (.protocol
    s!"{shape} compound returned {replyCount} replies, expected {expectedReplies}")

def CompoundReplies.new (bytes : Bytes) (shape : String) (expectedReplies : ℕ) :
    Except CompoundDecodeError CompoundReplies := do
  let ((status, replyCount), dec) ← decodeCompoundHeader.run bytes
  if replyCount > expectedReplies then
    throw (replyCountError shape replyCount expectedReplies)
  return { dec, status, replyCount, expectedReplies, decoded := 0, shape }

/-- Only `OP_ILLEGAL` may answer an operation under another operation's code. -/
def validateExpectedReplyOp (opRaw : UInt32) (status : NfsStatus) (expected : OpCode)
    (shape : String) : Except CompoundDecodeError OpCode :=
  if opRaw = expected.toU32 then .ok expected
  else if opRaw = OpCode.illegal.toU32 ∧ status = .OP_ILLEGAL then .ok .illegal
  else
    match OpCode.fromU32? opRaw with
    | none => .error (.ofError (.protocol s!"unknown NFS operation {opRaw}"))
    | some op => .error (.ofError (.protocol (s!"{shape} compound returned unexpected "
        ++ op.debug ++ " reply, expected " ++ expected.debug)))

/-- The header of a reply: its operation, checked, and its status. -/
def decodeReplyHeader (expected : OpCode) (shape : String) : DecM (OpCode × NfsStatus) := do
  let (opRaw, statusRaw) ← DecM.ofXdr readU32Pair
  let op ← validateExpectedReplyOp opRaw ⟨statusRaw⟩ expected shape
  return (op, ⟨statusRaw⟩)

def decodeExpectedOp (expected : OpCode) (shape : String) : DecM Unit := do
  let (op, status) ← decodeReplyHeader expected shape
  if !status.isOk then throw (.nfs status op)

/-- The header of a guarded create; `EXIST` is an outcome, not an error. -/
def decodeExpectedOpOrExist (expected : OpCode) (shape : String) : DecM Bool := do
  let (op, status) ← decodeReplyHeader expected shape
  if !status.isOk then
    if op = expected ∧ status = .EXIST then return true
    throw (.nfs status op)
  return false

/-- The header of a reply to a remove; `NOENT` below a handle is an outcome. -/
def decodeRemoveExpectedOp (expected : OpCode) : DecM Bool := do
  let (op, status) ← decodeReplyHeader expected "REMOVE"
  if !status.isOk then
    if op = expected ∧ status = .NOENT ∧
        (expected = .putFh ∨ expected = .lookup ∨ expected = .remove) then
      return true
    throw (.nfs status op)
  return false

/-- Consume the next reply header, when one remains. -/
def advanceWith {α : Type} (decode : String → DecM α) : RepliesM (Option α) := do
  let r ← get
  if r.decoded ≥ r.replyCount then return none
  match (decode r.shape).run r.dec with
  | .error err => throw (err.atReply r.decoded)
  | .ok (out, dec) =>
      set { r with dec, decoded := r.decoded + 1 }
      return some out

def advance (op : OpCode) : RepliesM Bool := do
  let present ← advanceWith (decodeExpectedOp op)
  return present.isSome

def sequence : RepliesM Unit := do
  if ← advance .sequence then RepliesM.ofXdr skipSequenceData

/-- Consume an expected reply and decode its body, when present. -/
def result {α : Type} (op : OpCode) (decode : XdrM α) : RepliesM (Option α) := do
  if ← advance op then
    let a ← RepliesM.ofXdr decode
    return some a
  return none

def getfh : RepliesM (Option FileHandle) := result .getFh decodeFileHandle

/-- Outcome of a compound built around a guarded `OPEN`. -/
inductive OpenOutcome (α : Type)
  | opened (value : α)
  | exists
  deriving DecidableEq, Repr

def openStateidOrExists : RepliesM (Option (OpenOutcome StateId)) := do
  match ← advanceWith (decodeExpectedOpOrExist .«open») with
  | none => return none
  | some true => return some .exists
  | some false =>
      let stateid ← RepliesM.ofXdr decodeOpenStateid
      return some (.opened stateid)

def lookups : ℕ → RepliesM Unit
  | 0 => return ()
  | count + 1 => do
      if ← advance .lookup then lookups count

/-- Consume a `RENAME` reply; true when the publish completed. -/
def renamePublish : RepliesM Bool := do
  if ← advance .rename then
    RepliesM.ofXdr skipChangeInfo
    RepliesM.ofXdr skipChangeInfo
    return true
  return false

/-- Consume `SAVEFH`, `PUTFH`, the lookups, `LINK` and `REMOVE`. -/
def linkRemovePublish (parentLookupCount : ℕ) : RepliesM Bool := do
  let _ ← advance .saveFh
  let _ ← advance .putFh
  lookups parentLookupCount
  if ← advance .link then RepliesM.ofXdr skipChangeInfo
  if ← advance .remove then
    RepliesM.ofXdr skipChangeInfo
    return true
  return false

def finish : RepliesM Unit := do
  let r ← get
  if r.decoded < r.replyCount then
    throw (replyCountError r.shape r.replyCount r.expectedReplies)
  if !r.status.isOk then throw (.nfs r.status .illegal)

/-- Walk the replies in `bytes`, expecting at most `expectedReplies`. -/
def withReplies {α : Type} (bytes : Bytes) (shape : String) (expectedReplies : ℕ)
    (walk : RepliesM α) : Except CompoundDecodeError α := do
  let replies ← CompoundReplies.new bytes shape expectedReplies
  walk.run' replies

/-! ### Reads -/

open RepliesM

def decodeNoResultCompound (bytes : Bytes) (expected : OpCode) : Except CompoundDecodeError Unit :=
  withReplies bytes expected.name 2 do
    sequence
    let sawExpected ← advance expected
    finish
    if !sawExpected then
      throw (.ofError (.protocol
        ("compound response did not include " ++ expected.debug ++ " result")))

def decodeReadCompound (bytes : Bytes) : Except CompoundDecodeError ReadData :=
  withReplies bytes "READ" 3 do
    sequence
    let _ ← advance .putFh
    let read ← result .read decodeReadData
    finish
    okOr read "compound response did not include READ result"

def decodeReadPathCompound (bytes : Bytes) (lookupCount : ℕ) :
    Except CompoundDecodeError ReadData :=
  withReplies bytes "READ path" (3 + lookupCount) do
    sequence
    let _ ← advance .putFh
    lookups lookupCount
    let read ← result .read decodeReadData
    finish
    okOr read "compound response did not include READ result"

def decodeReadPathHandleCompound (bytes : Bytes) (lookupCount : ℕ) :
    Except CompoundDecodeError (FileHandle × ReadData) :=
  withReplies bytes "READ path" (4 + lookupCount) do
    sequence
    let _ ← advance .putFh
    lookups lookupCount
    let fh ← getfh
    let read ← result .read decodeReadData
    finish
    let fh ← okOr fh "compound response did not include GETFH result"
    let read ← okOr read "compound response did not include READ result"
    return (fh, read)

def decodeReadPathSizeCompound (bytes : Bytes) (lookupCount : ℕ) :
    Except CompoundDecodeError (FileHandle × UInt64 × ReadData) :=
  withReplies bytes "READ path" (5 + lookupCount) do
    sequence
    let _ ← advance .putFh
    lookups lookupCount
    let fh ← getfh
    let attrs ← result .getAttr decodeFattr
    let size := attrs.bind (·.size)
    let read ← result .read decodeReadData
    finish
    let fh ← okOr fh "compound response did not include GETFH result"
    let size ← okOr size "compound response did not include GETATTR size result"
    let read ← okOr read "compound response did not include READ result"
    return (fh, size, read)

/-! ### Lookups -/

def decodeGetfhCompound (bytes : Bytes) (startOp : OpCode) (lookupCount : ℕ) :
    Except CompoundDecodeError FileHandle :=
  withReplies bytes "GETFH" (3 + lookupCount) do
    sequence
    let _ ← advance startOp
    lookups lookupCount
    let fh ← getfh
    finish
    okOr fh "compound response did not include GETFH result"

def validateFileAttrs (request : AttrRequest) (attrs : FileAttrs) (shape : String) :
    Except Error Unit :=
  match request with
  | .size =>
      if attrs.size.isNone then
        .error (.protocol s!"{shape} response did not include GETATTR size result")
      else .ok ()
  | .typeAndSize =>
      if attrs.fileType.isNone || attrs.size.isNone then
        .error (.protocol s!"{shape} response did not include GETATTR type and size result")
      else .ok ()

def decodeGetfhAttrsCompound (bytes : Bytes) (lookupCount : ℕ) (attrRequest : AttrRequest) :
    Except CompoundDecodeError (FileHandle × FileAttrs) :=
  withReplies bytes "GETFH" (4 + lookupCount) do
    sequence
    let _ ← advance .putFh
    lookups lookupCount
    let fh ← getfh
    let attrs ← result .getAttr decodeFattr
    finish
    let fh ← okOr fh "compound response did not include GETFH result"
    let attrs := attrs.getD {}
    check (validateFileAttrs attrRequest attrs "GETFH")
    return (fh, attrs)

/-! ### Writes -/

def decodeOpenFileCompound (bytes : Bytes) (parentLookupCount : ℕ) :
    Except CompoundDecodeError (OpenOutcome (StateId × FileHandle)) :=
  withReplies bytes "OPEN" (4 + parentLookupCount) do
    sequence
    let _ ← advance .putFh
    lookups parentLookupCount
    let opened ← openStateidOrExists
    match opened with
    | some .exists => return .exists
    | opened =>
        let stateid := opened.bind fun
          | .opened stateid => some stateid
          | .exists => none
        let fh ← getfh
        finish
        let stateid ← okOr stateid "compound response did not include OPEN result"
        let fh ← okOr fh "compound response did not include GETFH result"
        return .opened (stateid, fh)

def decodeWriteCompound (bytes : Bytes) : Except CompoundDecodeError WriteData :=
  withReplies bytes "WRITE" 3 do
    sequence
    let _ ← advance .putFh
    let write ← result .write decodeWriteData
    finish
    okOr write "compound response did not include WRITE result"

def decodeWriteCommitCompound (bytes : Bytes) :
    Except CompoundDecodeError (WriteData × Verifier) :=
  withReplies bytes "WRITE+COMMIT" 4 do
    sequence
    let _ ← advance .putFh
    let write ← result .write decodeWriteData
    let commit ← result .commit (readBytes 8)
    finish
    let write ← okOr write "compound response did not include WRITE result"
    let commit ← okOr commit "compound response did not include COMMIT result"
    return (write, commit)

/-! ### Closing and publishing -/

def missingPublishResult : CompoundDecodeError :=
  .ofError (.protocol "compound response did not include the publish result")

/-- What a compound that closes a file does besides. -/
inductive CloseShape
  | file
  | rename (parentLookupCount : ℕ)
  | linkRemove (parentLookupCount : ℕ)
  deriving DecidableEq, Repr

def CloseShape.replyCount : CloseShape → ℕ
  | file => 3
  | rename parentLookupCount => 7 + parentLookupCount
  | linkRemove parentLookupCount => 8 + parentLookupCount

/-- The replies after `CLOSE`; true when the publish completed. -/
def closeTail (sawClose : Bool) : CloseShape → RepliesM Bool
  | .file => return sawClose
  | .rename parentLookupCount => do
      let _ ← advance .putFh
      lookups parentLookupCount
      let _ ← advance .saveFh
      renamePublish
  | .linkRemove parentLookupCount => linkRemovePublish parentLookupCount

/-- The `COMMIT` reply of a close, when the close commits, checked against the
verifier of the writes. -/
def closeCommit : Option Verifier → RepliesM Unit
  | none => return ()
  | some expectedVerifier => do
      if ← advance .commit then
        let verifier ← ofXdr (readBytes 8)
        check (ensureWriteVerifier expectedVerifier verifier)

/-- The replies of a close from `CLOSE` on. -/
def closeReplies (shape : CloseShape) : RepliesM Unit := do
  let sawClose ← advance .close
  if sawClose then ofXdr skipStateid
  let published ← closeTail sawClose shape
  finish
  if !sawClose then
    throw (.ofError (.protocol "compound response did not include CLOSE result"))
  if !published then throw missingPublishResult

def decodeCloseCompound (bytes : Bytes) (shape : CloseShape) (commitVerifier : Option Verifier) :
    Except CompoundDecodeError Unit :=
  withReplies bytes "CLOSE" (shape.replyCount + if commitVerifier.isSome then 1 else 0) do
    sequence
    let _ ← advance .putFh
    closeCommit commitVerifier
    if shape ≠ .file then
      let _ ← advance .verify
    closeReplies shape

/-- The loop of `decode_close_batch_compound`: the number of `CLOSE` replies. -/
def closeBatchReplies : ℕ → RepliesM ℕ
  | 0 => return 0
  | closeCount + 1 => do
      let _ ← advance .putFh
      let decoded ← do
        if ← advance .close then
          ofXdr skipStateid
          pure 1
        else pure 0
      return decoded + (← closeBatchReplies closeCount)

def decodeCloseBatchCompound (bytes : Bytes) (closeCount : ℕ) : Except CompoundDecodeError Unit :=
  withReplies bytes "batched CLOSE"
      (saturatingAdd 1 (min (closeCount * 2) (2 ^ 64 - 1))) do
    sequence
    let decodedCloses ← closeBatchReplies closeCount
    finish
    if decodedCloses ≠ closeCount then
      throw (.ofError (.protocol
        s!"batched CLOSE response included {decodedCloses} of {closeCount} CLOSE results"))

def decodeRenamePublishCompound (bytes : Bytes) (parentLookupCount : ℕ) :
    Except CompoundDecodeError Unit :=
  withReplies bytes "RENAME publish" (4 + parentLookupCount) do
    sequence
    let _ ← advance .putFh
    lookups parentLookupCount
    let _ ← advance .saveFh
    let published ← renamePublish
    finish
    if !published then throw missingPublishResult

def decodeLinkRemovePublishCompound (bytes : Bytes) (parentLookupCount : ℕ) :
    Except CompoundDecodeError Unit :=
  withReplies bytes "LINK+REMOVE publish" (6 + parentLookupCount) do
    sequence
    let _ ← advance .putFh
    let published ← linkRemovePublish parentLookupCount
    finish
    if !published then throw missingPublishResult

/-- The `COMMIT` reply of a fused put, checked against the reply of its
`WRITE`. -/
def fusedCommit (write : Option WriteData) : RepliesM Unit := do
  if ← advance .commit then
    let commitVerifier ← ofXdr (readBytes 8)
    let write ← okOr write "fused PUT response included COMMIT without a WRITE result"
    if write.requiresCommit then check (ensureWriteVerifier write.verifier commitVerifier)

/-- The replies of a fused put after `VERIFY`; true when the publish completed. -/
def fusedPublish (parentLookupCount : ℕ) : Bool → RepliesM Bool
  | true => linkRemovePublish parentLookupCount
  | false => do
      let _ ← advance .restoreFh
      renamePublish

/-- The replies of a fused put from `OPEN` on. -/
def fusedReplies (parentLookupCount : ℕ) (createNew : Bool) :
    RepliesM (OpenOutcome (StateId × FileHandle × WriteData)) := do
  let opened ← openStateidOrExists
  match opened with
  | some .exists => return .exists
  | opened =>
      let stateid := opened.bind fun
        | .opened stateid => some stateid
        | .exists => none
      let fh ← getfh
      let write ← result .write decodeWriteData
      fusedCommit write
      let _ ← advance .verify
      let published ← fusedPublish parentLookupCount createNew
      finish
      if !published then throw missingPublishResult
      let stateid ← okOr stateid "compound response did not include OPEN result"
      let fh ← okOr fh "compound response did not include GETFH result"
      let write ← okOr write "compound response did not include WRITE result"
      return .opened (stateid, fh, write)

def decodeFusedPutCompound (bytes : Bytes) (parentLookupCount : ℕ) (createNew : Bool) :
    Except CompoundDecodeError (OpenOutcome (StateId × FileHandle × WriteData)) :=
  let expectedReplies := if createNew then 11 + 2 * parentLookupCount else 10 + parentLookupCount
  withReplies bytes "fused PUT" expectedReplies do
    sequence
    let _ ← advance .putFh
    lookups parentLookupCount
    if !createNew then
      let _ ← advance .saveFh
    fusedReplies parentLookupCount createNew

/-! ### Directories -/

def decodeReaddirCompound (bytes : Bytes) (maxEntries : Option ℕ) :
    Except CompoundDecodeError DirPage :=
  withReplies bytes "READDIR" 3 do
    sequence
    let _ ← advance .putFh
    let page ← result .readDir (decodeReaddir maxEntries)
    finish
    okOr page "compound response did not include READDIR result"

def decodeReaddirPathCompound (bytes : Bytes) (maxEntries : Option ℕ) (parentLookupCount : ℕ) :
    Except CompoundDecodeError (FileHandle × DirPage) :=
  withReplies bytes "READDIR" (4 + parentLookupCount) do
    sequence
    let _ ← advance .putFh
    lookups parentLookupCount
    let fh ← getfh
    let page ← result .readDir (decodeReaddir maxEntries)
    finish
    let fh ← okOr fh "compound response did not include GETFH result"
    let page ← okOr page "compound response did not include READDIR result"
    return (fh, page)

def decodeReaddirPathWithoutHandleCompound (bytes : Bytes) (maxEntries : Option ℕ)
    (parentLookupCount : ℕ) : Except CompoundDecodeError DirPage :=
  withReplies bytes "READDIR" (3 + parentLookupCount) do
    sequence
    let _ ← advance .putFh
    lookups parentLookupCount
    let page ← result .readDir (decodeReaddir maxEntries)
    finish
    okOr page "compound response did not include READDIR result"

inductive CreateDirOutcome
  | created
  | exists
  deriving DecidableEq, Repr

inductive CreateDirHandleOutcome
  | created (fh : FileHandle)
  | exists
  deriving DecidableEq, Repr

/-- A `CREATE` reply: absent, already there, or created. -/
def createdOrExists : RepliesM (Option CreateDirOutcome) := do
  match ← advanceWith (decodeExpectedOpOrExist .create) with
  | none => return none
  | some true => return some .exists
  | some false =>
      ofXdr skipChangeInfo
      ofXdr skipBitmap
      return some .created

def decodeCreateDirCompound (bytes : Bytes) (parentLookupCount : ℕ) :
    Except CompoundDecodeError CreateDirOutcome :=
  withReplies bytes "CREATE directory" (3 + parentLookupCount) do
    sequence
    let _ ← advance .putFh
    lookups parentLookupCount
    let outcome ← createdOrExists
    match outcome with
    | some .exists => return .exists
    | outcome =>
        finish
        okOr outcome "compound response did not include CREATE result"

def decodeCreateDirHandleCompound (bytes : Bytes) (parentLookupCount : ℕ) :
    Except CompoundDecodeError CreateDirHandleOutcome :=
  withReplies bytes "CREATE directory handle" (4 + parentLookupCount) do
    sequence
    let _ ← advance .putFh
    lookups parentLookupCount
    let outcome ← createdOrExists
    match outcome with
    | some .exists => return .exists
    | _ =>
        let fh ← getfh
        finish
        let fh ← okOr fh "compound response did not include CREATE directory handle result"
        return .created fh

/-! ### Removal -/

inductive RemoveOutcome
  | removed
  | missing
  deriving DecidableEq, Repr

/-- The lookups of a remove; true when one found nothing. -/
def removeLookups : ℕ → RepliesM Bool
  | 0 => return false
  | count + 1 => do
      match ← advanceWith fun _ => decodeRemoveExpectedOp .lookup with
      | some true => return true
      | some false => removeLookups count
      | none => return false

def decodeRemoveCompound (bytes : Bytes) (parentLookupCount : ℕ) :
    Except CompoundDecodeError RemoveOutcome :=
  withReplies bytes "REMOVE" (3 + parentLookupCount) do
    match ← advanceWith fun _ => decodeRemoveExpectedOp .sequence with
    | some true => return .missing
    | some false => ofXdr skipSequenceData
    | none => pure ()
    if (← advanceWith fun _ => decodeRemoveExpectedOp .putFh) = some true then return .missing
    if ← removeLookups parentLookupCount then return .missing
    let removed ← do
      match ← advanceWith fun _ => decodeRemoveExpectedOp .remove with
      | some true => return .missing
      | some false =>
          ofXdr skipChangeInfo
          pure true
      | none => pure false
    finish
    if !removed then
      throw (.ofError (.protocol "compound response did not include REMOVE result"))
    return .removed

end NfsCrust
