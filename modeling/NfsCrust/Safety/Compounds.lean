import NfsCrust.Safety.Readers

/-!
# Decoding a reply never panics

Every decoder of replies, on any bytes: the bytes it reads, copies or skips are
there, its sums and products fit a `usize`, and it reserves space only for
elements the bytes can hold.

## Main definitions

* `CalmWalk` — a walk over the replies of a compound does not panic.
* `CompoundDecoder` — the decoders of compounds, with the counts, the flags, the
  limits and the verifiers they are given.

## Main results

* `CompoundDecoder.isPanic_decode` — no decoder of a compound panics.
* `decoders_total` — every decoder of replies ends in a value or in an error of the
  source.
-/

namespace NfsCrust

open StateExcept

section

variable {α β : Type}

/-! ### Rules for the walk -/

/-- The decoder of a reply header panics on no bytes, and leaves no more than it found. -/
def CalmHeader (m : DecM α) : Prop :=
  Preserves (fun buf : Bytes => buf.length < MAX_DECODED_LEN)
    (fun err : CompoundDecodeError => err.error.isPanic = false) m

/-- The walk panics on no replies. -/
def CalmWalk (m : RepliesM α) : Prop :=
  Preserves (fun r : CompoundReplies => r.dec.length < MAX_DECODED_LEN)
    (fun err : CompoundDecodeError => err.error.isPanic = false) m

theorem calmHeader_ofXdr {m : XdrM α} (hm : Calm m) : CalmHeader (DecM.ofXdr m) := by
  intro buf hbuf
  have hrun := hm MAX_DECODED_LEN (Nat.le_refl _) buf hbuf
  unfold Ends at hrun ⊢
  have hofXdr : (DecM.ofXdr m).run buf = (m.run buf).mapError .ofError := rfl
  rw [hofXdr]
  cases h : m.run buf with
  | ok r =>
    rw [h] at hrun
    exact hrun
  | error err =>
    rw [h] at hrun
    exact hrun

theorem calmWalk_throw {err : CompoundDecodeError} (h : err.error.isPanic = false) :
    CalmWalk (throw err : RepliesM α) := preserves_throw h

theorem isPanic_validateExpectedReplyOp {opRaw : UInt32} {status : NfsStatus} {expected : OpCode}
    {shape : String} {err : CompoundDecodeError}
    (h : validateExpectedReplyOp opRaw status expected shape = .error err) :
    err.error.isPanic = false := by
  unfold validateExpectedReplyOp at h
  split at h
  · cases h
  split at h
  · cases h
  split at h
  · cases h
    rfl
  · cases h
    rfl

theorem calmHeader_decodeReplyHeader (expected : OpCode) (shape : String) :
    CalmHeader (decodeReplyHeader expected shape) :=
  (calmHeader_ofXdr calm_readU32Pair).bind fun (_, _) =>
    (preserves_lift fun _ herr => isPanic_validateExpectedReplyOp herr).bind
      fun _ => preserves_pure _

theorem calmHeader_decodeExpectedOp (expected : OpCode) (shape : String) :
    CalmHeader (decodeExpectedOp expected shape) := by
  refine (calmHeader_decodeReplyHeader expected shape).bind fun (op, status) => ?_
  dsimp only
  split
  · exact preserves_throw rfl
  · exact preserves_pure ()

theorem calmHeader_decodeExpectedOpOrExist (expected : OpCode) (shape : String) :
    CalmHeader (decodeExpectedOpOrExist expected shape) := by
  refine (calmHeader_decodeReplyHeader expected shape).bind fun (op, status) => ?_
  dsimp only
  split
  · split
    · exact preserves_pure true
    · exact preserves_throw rfl
  · exact preserves_pure false

theorem calmHeader_decodeRemoveExpectedOp (expected : OpCode) :
    CalmHeader (decodeRemoveExpectedOp expected) := by
  refine (calmHeader_decodeReplyHeader expected "REMOVE").bind fun (op, status) => ?_
  dsimp only
  split
  · split
    · exact preserves_pure true
    · exact preserves_throw rfl
  · exact preserves_pure false

theorem calmWalk_ofXdr {m : XdrM α} (hm : Calm m) : CalmWalk (RepliesM.ofXdr m) := by
  intro r hr
  have hrun := hm MAX_DECODED_LEN (Nat.le_refl _) r.dec hr
  unfold Ends at hrun ⊢
  cases h : m.run r.dec with
  | ok out =>
    have hwalk : (RepliesM.ofXdr m).run r = .ok (out.1, { r with dec := out.2 }) := by
      simp only [RepliesM.ofXdr, StateT.run] at h ⊢
      rw [h]
    rw [h] at hrun
    rw [hwalk]
    exact hrun
  | error err =>
    have hwalk : (RepliesM.ofXdr m).run r = .error (.ofError err) := by
      simp only [RepliesM.ofXdr, StateT.run] at h ⊢
      rw [h]
    rw [h] at hrun
    rw [hwalk]
    exact hrun

theorem calmWalk_advanceWith {decode : String → DecM α} (h : ∀ shape, CalmHeader (decode shape)) :
    CalmWalk (advanceWith decode) := by
  intro r hr
  refine Ends.bind (ends_get ?_)
  dsimp only
  split
  · exact ends_pure hr
  · have hrun := h r.shape r.dec hr
    unfold Ends at hrun
    cases hdec : (decode r.shape).run r.dec with
    | ok out =>
      rw [hdec] at hrun
      exact hrun
    | error err =>
      rw [hdec] at hrun
      exact hrun

theorem calmWalk_advance (op : OpCode) : CalmWalk (advance op) :=
  (calmWalk_advanceWith (calmHeader_decodeExpectedOp op)).bind fun _ => preserves_pure _

theorem calmWalk_sequence : CalmWalk sequence := by
  refine (calmWalk_advance _).bind fun present => ?_
  split
  · exact calmWalk_ofXdr (calm_skipBytes _)
  · exact preserves_pure ()

theorem calmWalk_result (op : OpCode) {decode : XdrM α} (h : Calm decode) :
    CalmWalk (result op decode) := by
  refine (calmWalk_advance _).bind fun present => ?_
  split
  · exact (calmWalk_ofXdr h).bind fun _ => preserves_pure _
  · exact preserves_pure none

theorem calmWalk_getfh : CalmWalk getfh := calmWalk_result _ calm_decodeFileHandle

theorem calmWalk_okOr (x : Option α) (message : String) : CalmWalk (RepliesM.okOr x message) := by
  cases x with
  | none => exact preserves_throw rfl
  | some a => exact preserves_pure a

theorem calmWalk_check {x : Except Error α} (h : ∀ err, x = .error err → err.isPanic = false) :
    CalmWalk (RepliesM.check x) := by
  refine preserves_lift fun err herr => ?_
  cases x with
  | ok a => cases herr
  | error err' =>
    cases herr
    exact h err' rfl

theorem calmWalk_lookups (count : ℕ) : CalmWalk (lookups count) := by
  induction count with
  | zero => exact preserves_pure ()
  | succ count ih =>
    refine (calmWalk_advance _).bind fun present => ?_
    split
    · exact ih
    · exact preserves_pure ()

theorem calmWalk_finish : CalmWalk finish := by
  intro r hr
  refine Ends.bind (ends_get ?_)
  dsimp only
  split
  · exact ends_throw rfl
  split
  · exact ends_throw rfl
  · exact ends_pure hr

theorem calmWalk_openStateidOrExists : CalmWalk openStateidOrExists := by
  refine (calmWalk_advanceWith (calmHeader_decodeExpectedOpOrExist _)).bind fun present => ?_
  split
  · exact preserves_pure none
  · exact preserves_pure _
  · exact (calmWalk_ofXdr calm_decodeOpenStateid).bind fun _ => preserves_pure _

theorem calmWalk_renamePublish : CalmWalk renamePublish := by
  refine (calmWalk_advance _).bind fun present => ?_
  split
  · exact (calmWalk_ofXdr calm_skipChangeInfo).bind fun _ =>
      (calmWalk_ofXdr calm_skipChangeInfo).bind fun _ => preserves_pure _
  · exact preserves_pure false

theorem calmWalk_linkRemovePublish (parentLookupCount : ℕ) :
    CalmWalk (linkRemovePublish parentLookupCount) := by
  have htail : CalmWalk (do
      if ← advance .remove then
        RepliesM.ofXdr skipChangeInfo
        return true
      return false) := by
    refine (calmWalk_advance _).bind fun present => ?_
    split
    · exact (calmWalk_ofXdr calm_skipChangeInfo).bind fun _ => preserves_pure _
    · exact preserves_pure false
  refine (calmWalk_advance _).bind fun _ => (calmWalk_advance _).bind fun _ => ?_
  refine (calmWalk_lookups _).bind fun _ => (calmWalk_advance _).bind fun linked => ?_
  dsimp only
  split
  · exact (calmWalk_ofXdr calm_skipChangeInfo).bind fun _ => htail
  · exact htail

theorem isPanic_ensureWriteVerifier {expected actual : Verifier} {err : Error}
    (h : ensureWriteVerifier expected actual = .error err) : err.isPanic = false := by
  unfold ensureWriteVerifier at h
  split at h
  · cases h
    rfl
  · cases h

theorem isPanic_validateFileAttrs {request : AttrRequest} {attrs : FileAttrs} {shape : String}
    {err : Error} (h : validateFileAttrs request attrs shape = .error err) :
    err.isPanic = false := by
  unfold validateFileAttrs at h
  repeat' split at h
  all_goals cases h
  all_goals rfl

theorem calmWalk_closeCommit (commitVerifier : Option Verifier) :
    CalmWalk (closeCommit commitVerifier) := by
  cases commitVerifier with
  | none => exact preserves_pure ()
  | some expectedVerifier =>
    refine (calmWalk_advance _).bind fun present => ?_
    split
    · exact (calmWalk_ofXdr (calm_readBytes 8)).bind fun _ =>
        calmWalk_check fun _ herr => isPanic_ensureWriteVerifier herr
    · exact preserves_pure ()

theorem calmWalk_closeTail (sawClose : Bool) (shape : CloseShape) :
    CalmWalk (closeTail sawClose shape) := by
  cases shape with
  | file => exact preserves_pure sawClose
  | rename parentLookupCount =>
    exact (calmWalk_advance _).bind fun _ => (calmWalk_lookups _).bind fun _ =>
      (calmWalk_advance _).bind fun _ => calmWalk_renamePublish
  | linkRemove parentLookupCount => exact calmWalk_linkRemovePublish parentLookupCount

theorem calmWalk_closeReplies (shape : CloseShape) : CalmWalk (closeReplies shape) := by
  have htail : ∀ sawClose, CalmWalk (do
      let published ← closeTail sawClose shape
      finish
      if !sawClose then
        throw (.ofError (.protocol "compound response did not include CLOSE result"))
      if !published then throw missingPublishResult) := by
    intro sawClose
    refine (calmWalk_closeTail _ _).bind fun published => calmWalk_finish.bind fun _ => ?_
    have hpublished : CalmWalk (if !published then throw missingPublishResult else pure ()) := by
      split
      · exact preserves_throw rfl
      · exact preserves_pure ()
    dsimp only
    split
    · exact (calmWalk_throw rfl).bind fun _ => hpublished
    · exact hpublished
  refine (calmWalk_advance _).bind fun sawClose => ?_
  dsimp only
  split
  · exact (calmWalk_ofXdr calm_skipStateid).bind fun _ => htail _
  · exact htail _

theorem calmWalk_closeBatchReplies (closeCount : ℕ) : CalmWalk (closeBatchReplies closeCount) := by
  induction closeCount with
  | zero => exact preserves_pure 0
  | succ closeCount ih =>
    have htail : ∀ decoded, CalmWalk (do return decoded + (← closeBatchReplies closeCount)) :=
      fun decoded => ih.bind fun _ => preserves_pure _
    refine (calmWalk_advance _).bind fun _ => (calmWalk_advance _).bind fun present => ?_
    dsimp only
    split
    · exact (calmWalk_ofXdr calm_skipStateid).bind fun _ => htail 1
    · exact htail 0

theorem calmWalk_fusedCommit (write : Option WriteData) : CalmWalk (fusedCommit write) := by
  refine (calmWalk_advance _).bind fun present => ?_
  split
  · refine (calmWalk_ofXdr (calm_readBytes 8)).bind fun _ => (calmWalk_okOr _ _).bind fun _ => ?_
    split
    · exact calmWalk_check fun _ herr => isPanic_ensureWriteVerifier herr
    · exact preserves_pure ()
  · exact preserves_pure ()

theorem calmWalk_fusedPublish (parentLookupCount : ℕ) (createNew : Bool) :
    CalmWalk (fusedPublish parentLookupCount createNew) := by
  cases createNew with
  | true => exact calmWalk_linkRemovePublish parentLookupCount
  | false => exact (calmWalk_advance _).bind fun _ => calmWalk_renamePublish

theorem calmWalk_fusedReplies (parentLookupCount : ℕ) (createNew : Bool) :
    CalmWalk (fusedReplies parentLookupCount createNew) := by
  refine calmWalk_openStateidOrExists.bind fun opened => ?_
  split
  · exact preserves_pure _
  · refine calmWalk_getfh.bind fun _ => (calmWalk_result _ calm_decodeWriteData).bind fun _ => ?_
    refine (calmWalk_fusedCommit _).bind fun _ => (calmWalk_advance _).bind fun _ => ?_
    refine (calmWalk_fusedPublish _ _).bind fun _ => calmWalk_finish.bind fun _ => ?_
    split
    · exact preserves_throw rfl
    · exact (calmWalk_okOr _ _).bind fun _ => (calmWalk_okOr _ _).bind fun _ =>
        (calmWalk_okOr _ _).bind fun _ => preserves_pure _

theorem calmWalk_createdOrExists : CalmWalk createdOrExists := by
  refine (calmWalk_advanceWith (calmHeader_decodeExpectedOpOrExist _)).bind fun present => ?_
  split
  · exact preserves_pure none
  · exact preserves_pure _
  · exact (calmWalk_ofXdr calm_skipChangeInfo).bind fun _ =>
      (calmWalk_ofXdr calm_skipBitmap).bind fun _ => preserves_pure _

theorem calmWalk_removeLookups (count : ℕ) : CalmWalk (removeLookups count) := by
  induction count with
  | zero => exact preserves_pure false
  | succ count ih =>
    refine (calmWalk_advanceWith fun _ => calmHeader_decodeRemoveExpectedOp _).bind
      fun present => ?_
    split
    · exact preserves_pure true
    · exact ih
    · exact preserves_pure false

/-- The replies of a remove after `SEQUENCE`. -/
theorem calmWalk_removeTail (parentLookupCount : ℕ) : CalmWalk (do
    if (← advanceWith fun _ => decodeRemoveExpectedOp .putFh) = some true then return .missing
    if ← removeLookups parentLookupCount then return .missing
    let removed ← do
      match ← advanceWith fun _ => decodeRemoveExpectedOp .remove with
      | some true => return .missing
      | some false =>
          RepliesM.ofXdr skipChangeInfo
          pure true
      | none => pure false
    finish
    if !removed then
      throw (.ofError (.protocol "compound response did not include REMOVE result"))
    return RemoveOutcome.removed) := by
  have hheader : ∀ op, CalmWalk (advanceWith fun _ => decodeRemoveExpectedOp op) :=
    fun op => calmWalk_advanceWith fun _ => calmHeader_decodeRemoveExpectedOp op
  refine (hheader _).bind fun found => ?_
  dsimp only
  split
  · exact preserves_pure _
  refine (calmWalk_removeLookups _).bind fun missing => ?_
  split
  · exact preserves_pure _
  refine (hheader _).bind fun removed => ?_
  split
  · exact preserves_pure _
  · exact (calmWalk_ofXdr calm_skipChangeInfo).bind fun _ => calmWalk_finish.bind fun _ =>
      preserves_pure _
  · exact calmWalk_finish.bind fun _ => (calmWalk_throw rfl).bind fun _ => preserves_pure _

/-- A compound whose header and walk are calm is decoded without a panic. -/
theorem isPanic_withReplies {walk : RepliesM α} (hwalk : CalmWalk walk) {bytes : Bytes}
    (hbytes : bytes.length < MAX_DECODED_LEN) {shape : String} {expectedReplies : ℕ}
    {err : CompoundDecodeError} (h : withReplies bytes shape expectedReplies walk = .error err) :
    err.error.isPanic = false := by
  have hheader : CalmHeader decodeCompoundHeader := by
    refine (calmHeader_ofXdr calm_readU32SkipOpaqueAndReadU32).bind fun (_, _) => ?_
    intro buf hbuf
    refine Ends.bind (ends_get ?_)
    dsimp only
    split
    · exact ends_throw rfl
    · exact ends_pure hbuf
  have hrun := hheader bytes hbytes
  unfold Ends at hrun
  unfold withReplies CompoundReplies.new at h
  cases hnew : decodeCompoundHeader.run bytes with
  | error err' =>
    rw [hnew] at h hrun
    cases h
    exact hrun
  | ok out =>
    obtain ⟨⟨status, replyCount⟩, dec⟩ := out
    rw [hnew] at h hrun
    change (if replyCount > expectedReplies then throw (replyCountError shape replyCount
      expectedReplies) else pure _) >>= walk.run' = _ at h
    split at h
    · cases h
      rfl
    · have hend := hwalk ⟨dec, status, replyCount, expectedReplies, 0, shape⟩ hrun
      unfold Ends at hend
      change (·.1) <$> walk.run _ = _ at h
      cases hout : walk.run ⟨dec, status, replyCount, expectedReplies, 0, shape⟩ with
      | ok out =>
        rw [hout] at h
        cases h
      | error err' =>
        rw [hout] at h hend
        cases h
        exact hend

end

/-! ### The decoders of compounds -/

/-- The decoders of compounds, with the counts, the flags, the limits and the verifiers they
are given. -/
inductive CompoundDecoder
  | noResult (expected : OpCode)
  | read
  | readPath (lookupCount : ℕ)
  | readPathHandle (lookupCount : ℕ)
  | readPathSize (lookupCount : ℕ)
  | getfh (startOp : OpCode) (lookupCount : ℕ)
  | getfhAttrs (lookupCount : ℕ) (attrRequest : AttrRequest)
  | openFile (parentLookupCount : ℕ)
  | write
  | writeCommit
  | close (shape : CloseShape) (commitVerifier : Option Verifier)
  | closeBatch (closeCount : ℕ)
  | renamePublish (parentLookupCount : ℕ)
  | linkRemovePublish (parentLookupCount : ℕ)
  | fusedPut (parentLookupCount : ℕ) (createNew : Bool)
  | readdir (maxEntries : Option ℕ)
  | readdirPath (maxEntries : Option ℕ) (parentLookupCount : ℕ)
  | readdirPathWithoutHandle (maxEntries : Option ℕ) (parentLookupCount : ℕ)
  | createDir (parentLookupCount : ℕ)
  | createDirHandle (parentLookupCount : ℕ)
  | remove (parentLookupCount : ℕ)

namespace CompoundDecoder

/-- What the decoder returns. -/
def Output : CompoundDecoder → Type
  | noResult _ | close .. | closeBatch _ | renamePublish _ | linkRemovePublish _ => Unit
  | read | readPath _ => ReadData
  | readPathHandle _ => FileHandle × ReadData
  | readPathSize _ => FileHandle × UInt64 × ReadData
  | getfh .. => FileHandle
  | getfhAttrs .. => FileHandle × FileAttrs
  | openFile _ => OpenOutcome (StateId × FileHandle)
  | write => WriteData
  | writeCommit => WriteData × Verifier
  | fusedPut .. => OpenOutcome (StateId × FileHandle × WriteData)
  | readdir _ | readdirPathWithoutHandle .. => DirPage
  | readdirPath .. => FileHandle × DirPage
  | createDir _ => CreateDirOutcome
  | createDirHandle _ => CreateDirHandleOutcome
  | remove _ => RemoveOutcome

def decode : (d : CompoundDecoder) → Bytes → Except CompoundDecodeError d.Output
  | noResult expected, bytes => decodeNoResultCompound bytes expected
  | read, bytes => decodeReadCompound bytes
  | readPath lookupCount, bytes => decodeReadPathCompound bytes lookupCount
  | readPathHandle lookupCount, bytes => decodeReadPathHandleCompound bytes lookupCount
  | readPathSize lookupCount, bytes => decodeReadPathSizeCompound bytes lookupCount
  | getfh startOp lookupCount, bytes => decodeGetfhCompound bytes startOp lookupCount
  | getfhAttrs lookupCount attrRequest, bytes =>
      decodeGetfhAttrsCompound bytes lookupCount attrRequest
  | openFile parentLookupCount, bytes => decodeOpenFileCompound bytes parentLookupCount
  | write, bytes => decodeWriteCompound bytes
  | writeCommit, bytes => decodeWriteCommitCompound bytes
  | close shape commitVerifier, bytes => decodeCloseCompound bytes shape commitVerifier
  | closeBatch closeCount, bytes => decodeCloseBatchCompound bytes closeCount
  | renamePublish parentLookupCount, bytes => decodeRenamePublishCompound bytes parentLookupCount
  | linkRemovePublish parentLookupCount, bytes =>
      decodeLinkRemovePublishCompound bytes parentLookupCount
  | fusedPut parentLookupCount createNew, bytes =>
      decodeFusedPutCompound bytes parentLookupCount createNew
  | readdir maxEntries, bytes => decodeReaddirCompound bytes maxEntries
  | readdirPath maxEntries parentLookupCount, bytes =>
      decodeReaddirPathCompound bytes maxEntries parentLookupCount
  | readdirPathWithoutHandle maxEntries parentLookupCount, bytes =>
      decodeReaddirPathWithoutHandleCompound bytes maxEntries parentLookupCount
  | createDir parentLookupCount, bytes => decodeCreateDirCompound bytes parentLookupCount
  | createDirHandle parentLookupCount, bytes =>
      decodeCreateDirHandleCompound bytes parentLookupCount
  | remove parentLookupCount, bytes => decodeRemoveCompound bytes parentLookupCount

/-- The number of lookups or closes the decoder is told to expect. -/
def count : CompoundDecoder → ℕ
  | noResult _ | read | write | writeCommit | readdir _ => 0
  | readPath n | readPathHandle n | readPathSize n | getfh _ n | getfhAttrs n _ => n
  | openFile n | closeBatch n | renamePublish n | linkRemovePublish n | fusedPut n _ => n
  | readdirPath _ n | readdirPathWithoutHandle _ n | createDir n | createDirHandle n => n
  | remove n => n
  | close .file _ => 0
  | close (.rename n) _ | close (.linkRemove n) _ => n

/-- The number of replies the decoder expects, as the source adds it up. -/
def expectedReplies : CompoundDecoder → ℕ
  | noResult _ => 2
  | read | write | readdir _ => 3
  | writeCommit => 4
  | readPath n | getfh _ n | readdirPathWithoutHandle _ n | createDir n | remove n => 3 + n
  | readPathHandle n | getfhAttrs n _ | openFile n | renamePublish n | readdirPath _ n
  | createDirHandle n => 4 + n
  | readPathSize n => 5 + n
  | linkRemovePublish n => 6 + n
  | close shape commitVerifier => shape.replyCount + if commitVerifier.isSome then 1 else 0
  | closeBatch n => saturatingAdd 1 (min (n * 2) (2 ^ 64 - 1))
  | fusedPut n createNew => if createNew then 11 + 2 * n else 10 + n

/-- Each decoder walks the replies it expects, and its walk does not panic. -/
theorem exists_calmWalk (d : CompoundDecoder) :
    ∃ shape walk, CalmWalk walk ∧
      ∀ bytes, d.decode bytes = withReplies bytes shape d.expectedReplies walk := by
  cases d with
  | noResult expected =>
    refine ⟨_, _, ?_, fun bytes => rfl⟩
    refine calmWalk_sequence.bind fun _ => (calmWalk_advance _).bind fun saw => ?_
    refine calmWalk_finish.bind fun _ => ?_
    split
    · exact preserves_throw rfl
    · exact preserves_pure ()
  | read =>
    refine ⟨_, _, ?_, fun bytes => rfl⟩
    refine calmWalk_sequence.bind fun _ => (calmWalk_advance _).bind fun _ => ?_
    exact (calmWalk_result _ calm_decodeReadData).bind fun _ =>
      calmWalk_finish.bind fun _ => calmWalk_okOr _ _
  | readPath lookupCount =>
    refine ⟨_, _, ?_, fun bytes => rfl⟩
    refine calmWalk_sequence.bind fun _ => (calmWalk_advance _).bind fun _ => ?_
    refine (calmWalk_lookups _).bind fun _ => ?_
    exact (calmWalk_result _ calm_decodeReadData).bind fun _ =>
      calmWalk_finish.bind fun _ => calmWalk_okOr _ _
  | readPathHandle lookupCount =>
    refine ⟨_, _, ?_, fun bytes => rfl⟩
    refine calmWalk_sequence.bind fun _ => (calmWalk_advance _).bind fun _ => ?_
    refine (calmWalk_lookups _).bind fun _ => calmWalk_getfh.bind fun _ => ?_
    refine (calmWalk_result _ calm_decodeReadData).bind fun _ => calmWalk_finish.bind fun _ => ?_
    exact (calmWalk_okOr _ _).bind fun _ => (calmWalk_okOr _ _).bind fun _ => preserves_pure _
  | readPathSize lookupCount =>
    refine ⟨_, _, ?_, fun bytes => rfl⟩
    refine calmWalk_sequence.bind fun _ => (calmWalk_advance _).bind fun _ => ?_
    refine (calmWalk_lookups _).bind fun _ => calmWalk_getfh.bind fun _ => ?_
    refine (calmWalk_result _ calm_decodeFattr).bind fun _ => ?_
    refine (calmWalk_result _ calm_decodeReadData).bind fun _ => calmWalk_finish.bind fun _ => ?_
    exact (calmWalk_okOr _ _).bind fun _ => (calmWalk_okOr _ _).bind fun _ =>
      (calmWalk_okOr _ _).bind fun _ => preserves_pure _
  | getfh startOp lookupCount =>
    refine ⟨_, _, ?_, fun bytes => rfl⟩
    refine calmWalk_sequence.bind fun _ => (calmWalk_advance _).bind fun _ => ?_
    exact (calmWalk_lookups _).bind fun _ => calmWalk_getfh.bind fun _ =>
      calmWalk_finish.bind fun _ => calmWalk_okOr _ _
  | getfhAttrs lookupCount attrRequest =>
    refine ⟨_, _, ?_, fun bytes => rfl⟩
    refine calmWalk_sequence.bind fun _ => (calmWalk_advance _).bind fun _ => ?_
    refine (calmWalk_lookups _).bind fun _ => calmWalk_getfh.bind fun _ => ?_
    refine (calmWalk_result _ calm_decodeFattr).bind fun _ => calmWalk_finish.bind fun _ => ?_
    refine (calmWalk_okOr _ _).bind fun _ => ?_
    exact (calmWalk_check fun _ herr => isPanic_validateFileAttrs herr).bind
      fun _ => preserves_pure _
  | openFile parentLookupCount =>
    refine ⟨_, _, ?_, fun bytes => rfl⟩
    refine calmWalk_sequence.bind fun _ => (calmWalk_advance _).bind fun _ => ?_
    refine (calmWalk_lookups _).bind fun _ => calmWalk_openStateidOrExists.bind fun opened => ?_
    split
    · exact preserves_pure _
    · refine calmWalk_getfh.bind fun _ => calmWalk_finish.bind fun _ => ?_
      exact (calmWalk_okOr _ _).bind fun _ => (calmWalk_okOr _ _).bind fun _ => preserves_pure _
  | write =>
    refine ⟨_, _, ?_, fun bytes => rfl⟩
    refine calmWalk_sequence.bind fun _ => (calmWalk_advance _).bind fun _ => ?_
    exact (calmWalk_result _ calm_decodeWriteData).bind fun _ =>
      calmWalk_finish.bind fun _ => calmWalk_okOr _ _
  | writeCommit =>
    refine ⟨_, _, ?_, fun bytes => rfl⟩
    refine calmWalk_sequence.bind fun _ => (calmWalk_advance _).bind fun _ => ?_
    refine (calmWalk_result _ calm_decodeWriteData).bind fun _ => ?_
    refine (calmWalk_result _ (calm_readBytes 8)).bind fun _ => calmWalk_finish.bind fun _ => ?_
    exact (calmWalk_okOr _ _).bind fun _ => (calmWalk_okOr _ _).bind fun _ => preserves_pure _
  | close shape commitVerifier =>
    refine ⟨_, _, ?_, fun bytes => rfl⟩
    refine calmWalk_sequence.bind fun _ => (calmWalk_advance _).bind fun _ => ?_
    refine (calmWalk_closeCommit _).bind fun _ => ?_
    split
    · exact (calmWalk_advance _).bind fun _ => calmWalk_closeReplies shape
    · exact calmWalk_closeReplies shape
  | closeBatch closeCount =>
    refine ⟨_, _, ?_, fun bytes => rfl⟩
    refine calmWalk_sequence.bind fun _ => (calmWalk_closeBatchReplies _).bind fun _ => ?_
    refine calmWalk_finish.bind fun _ => ?_
    split
    · exact preserves_throw rfl
    · exact preserves_pure ()
  | renamePublish parentLookupCount =>
    refine ⟨_, _, ?_, fun bytes => rfl⟩
    refine calmWalk_sequence.bind fun _ => (calmWalk_advance _).bind fun _ => ?_
    refine (calmWalk_lookups _).bind fun _ => (calmWalk_advance _).bind fun _ => ?_
    refine calmWalk_renamePublish.bind fun _ => calmWalk_finish.bind fun _ => ?_
    split
    · exact preserves_throw rfl
    · exact preserves_pure ()
  | linkRemovePublish parentLookupCount =>
    refine ⟨_, _, ?_, fun bytes => rfl⟩
    refine calmWalk_sequence.bind fun _ => (calmWalk_advance _).bind fun _ => ?_
    refine (calmWalk_linkRemovePublish _).bind fun _ => calmWalk_finish.bind fun _ => ?_
    split
    · exact preserves_throw rfl
    · exact preserves_pure ()
  | fusedPut parentLookupCount createNew =>
    refine ⟨_, _, ?_, fun bytes => rfl⟩
    refine calmWalk_sequence.bind fun _ => (calmWalk_advance _).bind fun _ => ?_
    refine (calmWalk_lookups _).bind fun _ => ?_
    split
    · exact (calmWalk_advance _).bind fun _ => calmWalk_fusedReplies _ _
    · exact calmWalk_fusedReplies _ _
  | readdir maxEntries =>
    refine ⟨_, _, ?_, fun bytes => rfl⟩
    refine calmWalk_sequence.bind fun _ => (calmWalk_advance _).bind fun _ => ?_
    exact (calmWalk_result _ (calm_decodeReaddir _)).bind fun _ =>
      calmWalk_finish.bind fun _ => calmWalk_okOr _ _
  | readdirPath maxEntries parentLookupCount =>
    refine ⟨_, _, ?_, fun bytes => rfl⟩
    refine calmWalk_sequence.bind fun _ => (calmWalk_advance _).bind fun _ => ?_
    refine (calmWalk_lookups _).bind fun _ => calmWalk_getfh.bind fun _ => ?_
    refine (calmWalk_result _ (calm_decodeReaddir _)).bind fun _ =>
      calmWalk_finish.bind fun _ => ?_
    exact (calmWalk_okOr _ _).bind fun _ => (calmWalk_okOr _ _).bind fun _ => preserves_pure _
  | readdirPathWithoutHandle maxEntries parentLookupCount =>
    refine ⟨_, _, ?_, fun bytes => rfl⟩
    refine calmWalk_sequence.bind fun _ => (calmWalk_advance _).bind fun _ => ?_
    refine (calmWalk_lookups _).bind fun _ => ?_
    exact (calmWalk_result _ (calm_decodeReaddir _)).bind fun _ =>
      calmWalk_finish.bind fun _ => calmWalk_okOr _ _
  | createDir parentLookupCount =>
    refine ⟨_, _, ?_, fun bytes => rfl⟩
    refine calmWalk_sequence.bind fun _ => (calmWalk_advance _).bind fun _ => ?_
    refine (calmWalk_lookups _).bind fun _ => calmWalk_createdOrExists.bind fun outcome => ?_
    split
    · exact preserves_pure _
    · exact calmWalk_finish.bind fun _ => calmWalk_okOr _ _
  | createDirHandle parentLookupCount =>
    refine ⟨_, _, ?_, fun bytes => rfl⟩
    refine calmWalk_sequence.bind fun _ => (calmWalk_advance _).bind fun _ => ?_
    refine (calmWalk_lookups _).bind fun _ => calmWalk_createdOrExists.bind fun outcome => ?_
    split
    · exact preserves_pure _
    · exact calmWalk_getfh.bind fun _ => calmWalk_finish.bind fun _ =>
        (calmWalk_okOr _ _).bind fun _ => preserves_pure _
  | remove parentLookupCount =>
    refine ⟨_, _, ?_, fun bytes => rfl⟩
    refine (calmWalk_advanceWith fun _ => calmHeader_decodeRemoveExpectedOp _).bind fun saw => ?_
    dsimp only
    split
    · exact preserves_pure _
    · exact (calmWalk_ofXdr (calm_skipBytes _)).bind fun _ => calmWalk_removeTail _
    · exact calmWalk_removeTail _

theorem expectedReplies_lt (d : CompoundDecoder) (h : d.count < 2 ^ 32) :
    d.expectedReplies < 2 ^ 64 := by
  cases d with
  | close shape commitVerifier =>
    cases shape <;> simp only [count, expectedReplies, CloseShape.replyCount] at h ⊢ <;>
      split <;> omega
  | closeBatch closeCount =>
    simp only [count, expectedReplies, saturatingAdd] at h ⊢
    omega
  | fusedPut parentLookupCount createNew =>
    simp only [count, expectedReplies] at h ⊢
    split <;> omega
  | _ =>
    simp only [count, expectedReplies] at h ⊢
    omega

/-- No decoder of a compound panics. -/
theorem isPanic_decode (d : CompoundDecoder) {bytes : Bytes}
    (hbytes : bytes.length < MAX_DECODED_LEN) {err : CompoundDecodeError}
    (h : d.decode bytes = .error err) : err.error.isPanic = false := by
  obtain ⟨shape, walk, hwalk, hdecode⟩ := d.exists_calmWalk
  rw [hdecode] at h
  exact isPanic_withReplies hwalk hbytes h

end CompoundDecoder

theorem isPanic_decodeSetupCompound {α : Type} {bytes : Bytes}
    (hbytes : bytes.length < MAX_DECODED_LEN) {expected : OpCode} {shape : String}
    {decode : XdrM α} (hdecode : Calm decode) {err : Error}
    (h : decodeSetupCompound bytes expected shape decode = .error err) : err.isPanic = false := by
  have hwalk : CalmWalk (do
      let result ← result expected decode
      finish
      RepliesM.okOr result s!"compound response did not include {shape} result") :=
    (calmWalk_result _ hdecode).bind fun _ => calmWalk_finish.bind fun _ => calmWalk_okOr _ _
  unfold decodeSetupCompound at h
  cases hreplies : withReplies bytes shape 1 (do
      let result ← result expected decode
      finish
      RepliesM.okOr result s!"compound response did not include {shape} result") with
  | ok a =>
    rw [hreplies] at h
    cases h
  | error err' =>
    rw [hreplies] at h
    cases h
    exact isPanic_withReplies hwalk hbytes hreplies

/-- The result of a calm decoder is not a panic. -/
theorem Calm.isPanic {α : Type} {m : XdrM α} (hm : Calm m) {bytes : Bytes}
    (hbytes : bytes.length < MAX_DECODED_LEN) {err : Error}
    (h : (·.1) <$> m.run bytes = .error err) : err.isPanic = false := by
  have hend := hm MAX_DECODED_LEN (Nat.le_refl _) bytes hbytes
  unfold Ends at hend
  cases hrun : m.run bytes with
  | ok out =>
    rw [hrun] at h
    cases h
  | error err' =>
    rw [hrun] at h hend
    cases h
    exact hend

/-- **Every decoder of replies ends in a value or in an error of the source.**  A read, copy
or advance beyond the bytes that remain, a sum, difference or product outside of `usize`, a
reservation for elements the bytes cannot hold and a loop without end are all panics here, so
none of them happens.  The counts a compound decoder adds up fit a `usize` too. -/
theorem decoders_total {bytes : Bytes} (hbytes : bytes.length < 2 ^ 29) :
    (∀ err, Rpc.peekXid bytes = .error err → err.isPanic = false) ∧
    (∀ xid err, Rpc.decodeReply xid bytes = .error err → err.isPanic = false) ∧
    (∀ sessionid sequenceid slotid err,
      decodeSequenceResult bytes sessionid sequenceid slotid = .error err →
        err.isPanic = false) ∧
    (∀ err, decodeExchangeIdCompound bytes = .error err → err.isPanic = false) ∧
    (∀ sequenceid minimumRequestSize err,
      decodeCreateSessionCompound bytes sequenceid minimumRequestSize = .error err →
        err.isPanic = false) ∧
    ∀ d : CompoundDecoder, d.count < 2 ^ 32 →
      (∀ err, d.decode bytes = .error err → err.error.isPanic = false) ∧
      d.expectedReplies < 2 ^ 64 ∧
      ∃ shape walk, ∀ response,
        d.decode response = withReplies response shape d.expectedReplies walk := by
  refine ⟨fun err h => ?_, fun xid err h => ?_, fun sessionid sequenceid slotid err h => ?_,
    fun err h => ?_, fun sequenceid minimumRequestSize err h => ?_, fun d hcount => ?_⟩
  · unfold Rpc.peekXid at h
    split at h
    · cases h
    · cases h
      rfl
  · exact (calm_decodeReplyFrom xid).isPanic hbytes h
  · exact (calm_decodeSequence sessionid sequenceid slotid).isPanic hbytes h
  · exact isPanic_decodeSetupCompound hbytes calm_decodeExchangeId h
  · exact isPanic_decodeSetupCompound hbytes (calm_decodeCreateSession _ _) h
  · obtain ⟨shape, walk, -, hdecode⟩ := d.exists_calmWalk
    exact ⟨fun err h => d.isPanic_decode hbytes h, d.expectedReplies_lt hcount, shape, walk,
      hdecode⟩

/-- A listing that breaks off after it announced an entry. -/
def truncatedListing : Bytes :=
  putU32 0 ++ putOpaque [] ++ putU32 3 ++ putU32 53 ++ putU32 0 ++ List.replicate 36 0
    ++ putU32 22 ++ putU32 0 ++ putU32 26 ++ putU32 0 ++ List.replicate 8 0 ++ putBool true

theorem decoders_total_truncatedListing :
    truncatedListing.length < 2 ^ 29 ∧
      (∀ err, decodeReaddirCompound truncatedListing (some 8) = .error err →
        err.error.isPanic = false) ∧
      ∃ err, decodeReaddirCompound truncatedListing (some 8) = .error err :=
  ⟨by decide, ((decoders_total (by decide)).2.2.2.2.2 (.readdir (some 8)) (by decide)).1,
    .ofError (.xdr "buffer underflow: need 8 bytes, have 0"), by decide +kernel⟩

end NfsCrust
