import NfsCrust.DecoderSpec
import NfsCrust.Session

/-!
# Requests and decoders agree

Every request of the session layer is paired with a decoder that was written
separately, with its own list of expected operations and its own count of
replies.  This file shows that the two agree: on the reply of a server that
executes the request in order and stops at the first failure, the decoder
returns the values of the results, the outcome that belongs to the failure, or
the failure itself with its operation and its position.

## Main definitions

* `SessionCall.value`, `SessionCall.typed` — the result a request is made for, and
  the failures that are outcomes.
* `SessionCall.Checked`, `SessionCall.Supported` — what the decoder checks, and
  what the client supports.

## Main results

* `SessionCall.decode_holds` — what the decoder of a request makes of any reply.
* `SessionCall.decode_eq_of_supported` — of a reply with supported results.
-/

namespace NfsCrust

/-! ### The values of results -/

namespace OpRes

def handle? : OpRes → Option FileHandle
  | getFh handle => some ⟨handle.bytes⟩
  | _ => none

def stateid? : OpRes → Option StateId
  | «open» res => some res.stateid
  | _ => none

def attrs? : OpRes → Option FileAttrs
  | getAttr attrs => some attrs.attrs
  | _ => none

def size? : OpRes → Option UInt64
  | getAttr attrs => attrs.size
  | _ => none

def read? : OpRes → Option ReadData
  | read eof data => some ⟨eof, data.bytes⟩
  | _ => none

def write? : OpRes → Option WriteData
  | write count committed verifier => some ⟨count, committed, verifier⟩
  | _ => none

def commit? : OpRes → Option Verifier
  | commit verifier => some verifier
  | _ => none

def page? (limit : Option ℕ) : OpRes → Option DirPage
  | readDir verifier listed eof => some (listingPage limit verifier eof listed [] 0)
  | _ => none

end OpRes

namespace SessionCall

/-- What a request is made for, read off the results of its operations. -/
def value : (call : SessionCall) → List OpRes → Option call.Result
  | openFile .., os => do
      return .opened (← os.findSome? OpRes.stateid?, ← os.findSome? OpRes.handle?)
  | closeFile _, _ | closeBatch _, _ | closePublish .., _ | publishAfterClose .., _
  | reclaimComplete, _ => some ()
  | putFused .., os => do
      return .opened (← os.findSome? OpRes.stateid?, ← os.findSome? OpRes.handle?,
        ← os.findSome? OpRes.write?)
  | lookupFileHandle _, os | lookupChildHandle .., os | resolveExportRoot _, os =>
      os.findSome? OpRes.handle?
  | lookupFileHandleAttrs .., os => do
      return (← os.findSome? OpRes.handle?, ← os.findSome? OpRes.attrs?)
  | readAnonymous .., os | readPathAnonymous .., os => os.findSome? OpRes.read?
  | readPathAnonymousWithHandle .., os => do
      return (← os.findSome? OpRes.handle?, ← os.findSome? OpRes.read?)
  | readPathAnonymousWithSize .., os => do
      return (← os.findSome? OpRes.handle?, ← os.findSome? OpRes.size?,
        ← os.findSome? OpRes.read?)
  | write .., os => os.findSome? OpRes.write?
  | writeAndCommit .., os => do
      return (← os.findSome? OpRes.write?, ← os.findSome? OpRes.commit?)
  | remove .., _ | removeAt .., _ => some .removed
  | readDirPage _ _ _ hint, os | readDirPathPageWithoutHandle _ _ _ hint, os =>
      os.findSome? (OpRes.page? hint)
  | readDirPathPage _ _ _ hint, os => do
      return (← os.findSome? OpRes.handle?, ← os.findSome? (OpRes.page? hint))
  | createDir .., _ | createDirAtHandle .., _ => some .created
  | createDirWithHandle .., os | createChildDirWithHandle .., os => do
      return .created (← os.findSome? OpRes.handle?)

/-- The failures of a request that are outcomes: `EXIST` at a guarded `OPEN` or at
`CREATE`, and `NOENT` at any operation of a removal. -/
def typed : (call : SessionCall) → OpCode → NfsStatus → Option call.Result
  | openFile .. | putFused .. => caughtExist .«open» .exists
  | createDir .. | createDirAtHandle .. | createDirWithHandle .. | createChildDirWithHandle .. =>
      caughtExist .create .exists
  | remove .. | removeAt .. => caughtNoent .missing
  | _ => fun _ _ => none

/-- The attributes a request asks for. -/
def attrRequest? : SessionCall → Option AttrRequest
  | lookupFileHandleAttrs _ request => some request
  | readPathAnonymousWithSize .. => some .size
  | _ => none

/-- The verifiers the decoder of a request compares are equal. -/
def Checked : SessionCall → List OpRes → Prop
  | closePublish _ _ _ _ _ unstableVerifier _, os => ∀ w, .commit w ∈ os → unstableVerifier = some w
  | putFused .., os => FusedChecks os
  | _, _ => True

/-- Results the client supports. -/
structure Supported (call : SessionCall) (os : List OpRes) : Prop where
  «open» : ∀ res, .«open» res ∈ os → res.Supported
  handle : ∀ handle, .getFh handle ∈ os → handle.bytes.length ≤ 128
  attrs : ∀ attrs request, .getAttr attrs ∈ os → call.attrRequest? = some request →
    attrs.Satisfies request
  names : ∀ verifier listed eof, .readDir verifier listed eof ∈ os → ∀ e ∈ listed, e.Supported
  checked : call.Checked os

/-- What the decoder of a request is to return when the results are `os`. -/
def expectation (call : SessionCall) (os : List OpRes) : Expectation call.Result where
  typed := call.typed
  passed := call.Checked os
  value result := call.value os = some result
  unsupported := ¬ call.Supported os

/-- What comes before the results of a path is looked up under the path. -/
theorem findSome?_path {β : Type} (p : OpRes → Option β) (hfh : p .putFh = none)
    (hlookup : p .lookup = none) (n : ℕ) (os : List OpRes) :
    (OpRes.putFh :: (List.replicate n .lookup ++ os)).findSome? p = os.findSome? p := by
  rw [List.findSome?_cons, hfh, List.findSome?_append, List.findSome?_replicate]
  simp [hlookup]

/-! ### The operations of a request -/

@[simp] theorem map_opcode_exportPathOps (root : FileHandle) (components : List String) :
    (exportPathOps root components).map NfsOp.opcode
      = .putFh :: List.replicate components.length .lookup := by
  simp [exportPathOps, NfsOp.opcode, Function.comp_def, List.map_const']

@[simp] theorem map_opcode_rootPathOps (components : List String) :
    (rootPathOps components).map NfsOp.opcode
      = .putRootFh :: List.replicate components.length .lookup := by
  simp [rootPathOps, NfsOp.opcode, Function.comp_def, List.map_const']

theorem map_opcode_closeBatch (s : NfsSession) (opened : List OpenedFile) :
    ((closeBatch opened).ops s).map NfsOp.opcode = closeBatchCodes opened.length := by
  induction opened with
  | nil => rfl
  | cons file opened ih =>
    rw [closeBatchCodes, List.length_cons, List.replicate_succ, List.flatten_cons,
      ← closeBatchCodes, ← ih]
    rfl

theorem map_opcode_closePublish (s : NfsSession) (opened : OpenedFile) (parent : List String)
    (fromName toName : String) (size : ℕ) (verifier : Option Verifier) (createNew : Bool) :
    ((closePublish opened parent fromName toName size verifier createNew).ops s).map NfsOp.opcode
      = CloseShape.codes (if createNew then .linkRemove parent.length else .rename parent.length)
          verifier.isSome := by
  cases createNew <;> cases verifier <;>
    simp [ops, publishTail, CloseShape.codes, CloseShape.tailCodes, NfsOp.opcode]

theorem map_opcode_putFused (s : NfsSession) (owner : Bytes) (parent : List String)
    (tempName destName : String) (data : Bytes) (createNew : Bool) :
    ((putFused owner parent tempName destName data createNew).ops s).map NfsOp.opcode
      = fusedCodes parent.length createNew := by
  cases createNew <;>
    simp [ops, fusedCodes, fusedPublishCodes, NfsOp.opcode]

/-! ### Agreement -/

section

variable {o : OpRes} {os : List OpRes} (ho : o.opcode = .sequence) {call : SessionCall}
include ho

theorem mem_of_mem_cons {r : OpRes} (h : r ∈ o :: os) (hr : r.opcode ≠ .sequence) : r ∈ os := by
  rcases List.mem_cons.mp h with rfl | h
  · exact absurd ho hr
  · exact h

theorem not_supported_of_open (res : OpenRes) (h : .«open» res ∈ o :: os)
    (hres : ¬ res.Supported) : ¬ call.Supported os :=
  fun hs => hres (hs.open res (mem_of_mem_cons ho h (by simp [OpRes.opcode])))

theorem not_supported_of_handle (handle : Opaque) (h : .getFh handle ∈ o :: os)
    (hlong : ¬ handle.bytes.length ≤ 128) : ¬ call.Supported os :=
  fun hs => hlong (hs.handle handle (mem_of_mem_cons ho h (by simp [OpRes.opcode])))

theorem not_supported_of_names (verifier : Verifier) (listed : List DirEntryRes) (eof : Bool)
    (h : .readDir verifier listed eof ∈ o :: os) (hname : ∃ e ∈ listed, ¬ e.Supported) :
    ¬ call.Supported os := by
  obtain ⟨e, he, hbad⟩ := hname
  exact fun hs => hbad (hs.names verifier listed eof (mem_of_mem_cons ho h (by simp [OpRes.opcode])) e he)

theorem fusedChecks_cons : FusedChecks (o :: os) ↔ FusedChecks os := by
  have hwrite : ∀ a b c, .write a b c ≠ o := by
    rintro a b c rfl
    cases ho
  have hcommit : ∀ w, .commit w ≠ o := by
    rintro w rfl
    cases ho
  simp [FusedChecks, hwrite, hcommit]

end

/-- **Agreement.**  On the reply of a server that executes a request in order and
stops at the first failure, the decoder of the request does what is expected of
it. -/
theorem decode_holds (s : NfsSession) (call : SessionCall) {reply : CompoundReply} {o : OpRes}
    {os : List OpRes} {failure : Option Failure} (hreply : reply.replies = ⟨o :: os, failure⟩)
    (ho : o.opcode = .sequence)
    (hans : Replies.Answers ((call.ops s).map NfsOp.opcode) ⟨os, failure⟩) :
    (call.expectation os).Holds ⟨o :: os, failure⟩ 0 (call.decode reply.encode) := by
  obtain ⟨tag, t, hshort⟩ := reply
  subst hreply
  have ht : Replies.Answers (.sequence :: (call.ops s).map NfsOp.opcode) ⟨o :: os, failure⟩ :=
    ⟨ho, hans⟩
  cases call with
  | openFile owner parent name =>
    simp only [ops, List.map_append, map_opcode_exportPathOps] at ht
    refine decodeOpenFileCompound_spec ht rfl trivial (fun _ _ _ h => ?_)
      (not_supported_of_open ho) (not_supported_of_handle ho)
    cases h
    simp only [expectation, value, findSome?_path OpRes.stateid? rfl rfl,
      findSome?_path OpRes.handle? rfl rfl]
    rfl
  | closeFile opened =>
    have hcodes : ((closeFile opened).ops s).map NfsOp.opcode = CloseShape.file.codes false := rfl
    rw [hcodes] at ht
    refine decodeCloseCompound_spec ht (fun _ _ _ => rfl) (fun _ => trivial) rfl ?_
    intro w hw
    have hmem := ht.opcode_mem _ hw
    simp [CloseShape.codes, CloseShape.tailCodes, OpRes.opcode] at hmem
  | closeBatch opened =>
    rw [map_opcode_closeBatch] at ht
    exact decodeCloseBatchCompound_spec ht (fun _ _ _ => rfl) trivial rfl
  | closePublish opened parent fromName toName size verifier createNew =>
    rw [map_opcode_closePublish] at ht
    refine decodeCloseCompound_spec ht (fun _ _ _ => rfl) (fun h w hw => ?_) rfl ?_
    · exact h w (List.mem_cons_of_mem _ hw)
    · exact fun w hw hne hs => hne (hs.checked w (mem_of_mem_cons ho hw (by simp [OpRes.opcode])))
  | publishAfterClose sourceFh parent fromName toName createNew =>
    cases createNew with
    | true =>
      refine decodeLinkRemovePublishCompound_spec ?_ (fun _ _ _ => rfl) trivial rfl
      simpa [ops, publishTail, NfsOp.opcode] using ht
    | false =>
      refine decodeRenamePublishCompound_spec ?_ (fun _ _ _ => rfl) trivial rfl
      simpa [ops, publishTail, NfsOp.opcode] using ht
  | putFused owner parent tempName destName data createNew =>
    rw [map_opcode_putFused] at ht
    refine decodeFusedPutCompound_spec ht rfl (fusedChecks_cons ho).mp (fun _ _ _ _ _ _ h => ?_)
      (not_supported_of_open ho) (not_supported_of_handle ho) fun h hs => ?_
    · cases h
      simp only [expectation, value, findSome?_path OpRes.stateid? rfl rfl,
        findSome?_path OpRes.handle? rfl rfl, findSome?_path OpRes.write? rfl rfl]
      cases createNew <;> rfl
    · exact h ((fusedChecks_cons ho).mpr hs.checked)
  | lookupFileHandle components =>
    simp only [ops, List.map_append, map_opcode_exportPathOps] at ht
    refine decodeGetfhCompound_spec rfl ht (fun _ _ _ => rfl) trivial (fun _ _ h => ?_)
      (not_supported_of_handle ho)
    cases h
    exact findSome?_path OpRes.handle? rfl rfl _ _
  | lookupFileHandleAttrs components request =>
    simp only [ops, List.map_append, map_opcode_exportPathOps] at ht
    refine decodeGetfhAttrsCompound_spec ht (fun _ _ _ => rfl) trivial (fun _ _ _ h _ => ?_)
      (not_supported_of_handle ho) fun attrs h hattrs hs => ?_
    · cases h
      simp only [expectation, value, findSome?_path OpRes.handle? rfl rfl,
        findSome?_path OpRes.attrs? rfl rfl]
      rfl
    · exact hattrs (hs.attrs attrs request (mem_of_mem_cons ho h (by simp [OpRes.opcode])) rfl)
  | readAnonymous fh offset count =>
    refine decodeReadCompound_spec ht (fun _ _ _ => rfl) trivial fun _ _ _ h => ?_
    cases h
    rfl
  | readPathAnonymous components offset count =>
    simp only [ops, List.map_append, map_opcode_exportPathOps] at ht
    refine decodeReadPathCompound_spec ht (fun _ _ _ => rfl) trivial fun _ _ _ h => ?_
    cases h
    exact findSome?_path OpRes.read? rfl rfl _ _
  | readPathAnonymousWithHandle components offset count =>
    simp only [ops, List.map_append, map_opcode_exportPathOps] at ht
    refine decodeReadPathHandleCompound_spec ht (fun _ _ _ => rfl) trivial (fun _ _ _ _ h => ?_)
      (not_supported_of_handle ho)
    cases h
    simp only [expectation, value, findSome?_path OpRes.handle? rfl rfl,
      findSome?_path OpRes.read? rfl rfl]
    rfl
  | readPathAnonymousWithSize components count =>
    simp only [ops, List.map_append, map_opcode_exportPathOps] at ht
    refine decodeReadPathSizeCompound_spec ht (fun _ _ _ => rfl) trivial
      (fun _ _ attrs size _ _ h hsize => ?_) (not_supported_of_handle ho) fun attrs h hattrs hs => ?_
    · cases h
      have hfound : OpRes.size? (.getAttr attrs) = some size := hsize
      simp only [expectation, value, findSome?_path OpRes.handle? rfl rfl,
        findSome?_path OpRes.size? rfl rfl, findSome?_path OpRes.read? rfl rfl]
      simp only [List.findSome?_cons, hfound]
      rfl
    · have := hs.attrs attrs .size (mem_of_mem_cons ho h (by simp [OpRes.opcode])) rfl
      simp [Fattr.Satisfies, hattrs] at this
  | write opened offset data =>
    refine decodeWriteCompound_spec ht (fun _ _ _ => rfl) trivial fun _ _ _ _ h => ?_
    cases h
    rfl
  | writeAndCommit opened offset data =>
    refine decodeWriteCommitCompound_spec ht (fun _ _ _ => rfl) trivial fun _ _ _ _ _ h => ?_
    cases h
    rfl
  | remove parent name =>
    simp only [ops, List.map_append, map_opcode_exportPathOps] at ht
    exact decodeRemoveCompound_spec ht rfl trivial rfl
  | removeAt dir name => exact decodeRemoveCompound_spec ht rfl trivial rfl
  | readDirPage dir cookie verifier hint =>
    refine decodeReaddirCompound_spec ht (fun _ _ _ => rfl) trivial (fun _ _ _ _ h => ?_)
      (not_supported_of_names ho)
    cases h
    rfl
  | readDirPathPage components cookie verifier hint =>
    simp only [ops, List.map_append, map_opcode_exportPathOps] at ht
    refine decodeReaddirPathCompound_spec ht (fun _ _ _ => rfl) trivial (fun _ _ _ _ _ h => ?_)
      (not_supported_of_handle ho) (not_supported_of_names ho)
    cases h
    simp only [expectation, value, findSome?_path OpRes.handle? rfl rfl,
      findSome?_path (OpRes.page? hint) rfl rfl]
    rfl
  | readDirPathPageWithoutHandle components cookie verifier hint =>
    simp only [ops, List.map_append, map_opcode_exportPathOps] at ht
    refine decodeReaddirPathWithoutHandleCompound_spec ht (fun _ _ _ => rfl) trivial
      (fun _ _ _ _ h => ?_) (not_supported_of_names ho)
    cases h
    exact findSome?_path (OpRes.page? hint) rfl rfl _ _
  | createDir parent name =>
    simp only [ops, List.map_append, map_opcode_exportPathOps] at ht
    exact decodeCreateDirCompound_spec ht rfl trivial rfl
  | createDirWithHandle parent name =>
    simp only [ops, List.map_append, map_opcode_exportPathOps] at ht
    refine decodeCreateDirHandleCompound_spec ht rfl trivial (fun _ _ _ _ h => ?_)
      (not_supported_of_handle ho)
    cases h
    simp only [expectation, value, findSome?_path OpRes.handle? rfl rfl]
    rfl
  | createDirAtHandle parentFh name => exact decodeCreateDirCompound_spec ht rfl trivial rfl
  | createChildDirWithHandle parentFh name =>
    refine decodeCreateDirHandleCompound_spec (n := 0) ht rfl trivial (fun _ _ _ _ h => ?_)
      (not_supported_of_handle ho)
    cases h
    rfl
  | lookupChildHandle parentFh name =>
    refine decodeGetfhCompound_spec (n := 1) rfl ht (fun _ _ _ => rfl) trivial (fun _ _ h => ?_)
      (not_supported_of_handle ho)
    cases h
    rfl
  | resolveExportRoot components =>
    simp only [ops, List.map_append, map_opcode_rootPathOps] at ht
    refine decodeGetfhCompound_spec rfl ht (fun _ _ _ => rfl) trivial (fun _ _ h => ?_)
      (not_supported_of_handle ho)
    cases h
    exact findSome?_path OpRes.handle? rfl rfl _ _
  | reclaimComplete => exact decodeNoResultCompound_spec rfl ht (fun _ _ _ => rfl) trivial rfl

/-- **Requests and decoders agree.**  The server answered `SEQUENCE`, executed the
operations of a request in order, with results the client supports, and stopped
at the first that failed.  The decoder of the request returns the values when
none failed, the outcome when the failure is one, and else the failure, with the
operation and the position the server gave it. -/
theorem decode_eq_of_supported (s : NfsSession) (call : SessionCall) (reply : CompoundReply)
    (o : OpRes) (os : List OpRes) (failure : Option Failure)
    (hreply : reply.replies = ⟨o :: os, failure⟩) (ho : o.opcode = .sequence)
    (hans : Replies.Answers ((call.ops s).map NfsOp.opcode) ⟨os, failure⟩)
    (hsupported : call.Supported os) :
    match failure with
    | none => ∃ result, call.value os = some result ∧ call.decode reply.encode = .ok result
    | some f => call.decode reply.encode = match call.typed f.op f.status with
        | some outcome => .ok outcome
        | none => .error (.ofFailure f (1 + os.length)) := by
  have h := decode_holds s call hreply ho hans
  cases hdecode : call.decode reply.encode with
  | ok result =>
    rw [hdecode] at h
    obtain ⟨-, ⟨rfl, hvalue⟩ | ⟨f, rfl, htyped⟩⟩ := h
    · exact ⟨result, hvalue, rfl⟩
    · have htyped : call.typed f.op f.status = some result := htyped
      simp only [htyped]
  | error e =>
    rw [hdecode] at h
    obtain ⟨-, f, rfl, htyped, rfl⟩ | ⟨-, hun⟩ := h
    · have htyped : call.typed f.op f.status = none := htyped
      simp only [htyped, Nat.zero_add, List.length_cons, Nat.add_comm]
    · exact absurd hsupported hun

/-- A removal below a handle whose name is gone. -/
theorem decode_removeAt_missing :
    (removeAt ⟨[7]⟩ "gone").decode (CompoundReply.encode ⟨⟨[], by decide⟩,
      ⟨[.sequence (Vector.replicate 16 0) 1 0 0 0 0, .putFh], some ⟨.remove, .NOENT⟩⟩, by decide⟩)
      = .ok .missing :=
  decode_eq_of_supported ⟨⟨[1]⟩, 0, 0, { «export» := "/" }⟩ (removeAt ⟨[7]⟩ "gone")
    ⟨⟨[], by decide⟩, ⟨[.sequence (Vector.replicate 16 0) 1 0 0 0 0, .putFh],
      some ⟨.remove, .NOENT⟩⟩, by decide⟩
    (.sequence (Vector.replicate 16 0) 1 0 0 0 0) [.putFh] (some ⟨.remove, .NOENT⟩) rfl rfl
    (by exact ⟨rfl, ⟨.remove, .NOENT⟩, rfl, by decide, Or.inl rfl⟩)
    ⟨by simp, by simp, by simp, by simp, trivial⟩

end SessionCall

end NfsCrust
