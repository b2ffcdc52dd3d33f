import NfsCrust.Compound

/-!
# The compounds of a session

The requests `src/nfs4/session.rs` builds, each with its tag, its operations and
the decoder the session pairs it with.  A request is a `SessionCall`; everything
the session needs to know of the call is a function of it, so that the request
and its decoder stand side by side.

## Main definitions

* `NfsSession` — what the requests depend on.
* `SessionCall`, with `tag`, `ops`, `Result`, `decode` and `retryTransients`.
* `NfsSession.validateCompoundRequest` — the limits a request must respect.
-/

namespace NfsCrust

/-- A session, as far as its requests depend on it: the handle of the export
root, the client id, the length of the credential in every call, and the
negotiated configuration. -/
structure NfsSession where
  exportRoot : FileHandle
  clientid : UInt64
  authBodyLen : ℕ
  config : NfsConfig
  deriving DecidableEq, Repr

namespace NfsSession

def readChunkSize (s : NfsSession) : ℕ := s.config.readChunkSize.toNat

def readGranularity (s : NfsSession) : ℕ := s.config.readGranularity.toNat

def writeChunkSize (s : NfsSession) : ℕ := s.config.writeChunkSize.toNat

/-- `RpcClient::encoded_call_len`. -/
def encodedCallLen (s : NfsSession) (payloadLen : ℕ) : ℕ :=
  saturatingEncodedLen
    [8 * 4, s.authBodyLen, xdrPadding s.authBodyLen, 8, payloadLen, xdrPadding payloadLen]

def validateCompoundRequest (s : NfsSession) (tag : String) (ops : List NfsOp) :
    Except Error Unit :=
  validateCompoundRequestLimits tag ops s.config.maxCompoundOps s.config.maxRequestSize
    (s.encodedCallLen (compoundWithSequenceEncodedLen tag ops))

def compoundRequestFits (s : NfsSession) (tag : String) (ops : List NfsOp) : Bool :=
  (s.validateCompoundRequest tag ops).toOption.isSome

end NfsSession

/-! ### Calls -/

/-- A request of the session layer, under the name of the method that builds
it. -/
inductive SessionCall
  | openFile (owner : Bytes) (parent : List String) (name : String)
  | closeFile (opened : OpenedFile)
  | closeBatch (opened : List OpenedFile)
  | closePublish (opened : OpenedFile) (parent : List String) (fromName toName : String)
      (size : ℕ) (unstableVerifier : Option Verifier) (createNew : Bool)
  | publishAfterClose (sourceFh : FileHandle) (parent : List String) (fromName toName : String)
      (createNew : Bool)
  | putFused (owner : Bytes) (parent : List String) (tempName destName : String) (data : Bytes)
      (createNew : Bool)
  | lookupFileHandle (components : List String)
  | lookupFileHandleAttrs (components : List String) (attrRequest : AttrRequest)
  | readAnonymous (fh : FileHandle) (offset count : ℕ)
  | readPathAnonymous (components : List String) (offset count : ℕ)
  | readPathAnonymousWithHandle (components : List String) (offset count : ℕ)
  | readPathAnonymousWithSize (components : List String) (count : ℕ)
  | write (opened : OpenedFile) (offset : ℕ) (data : Bytes)
  | writeAndCommit (opened : OpenedFile) (offset : ℕ) (data : Bytes)
  | remove (parent : List String) (name : String)
  | removeAt (dir : FileHandle) (name : String)
  | readDirPage (dir : FileHandle) (cookie : UInt64) (verifier : Verifier)
      (maxEntriesHint : Option ℕ)
  | readDirPathPage (components : List String) (cookie : UInt64) (verifier : Verifier)
      (maxEntriesHint : Option ℕ)
  | readDirPathPageWithoutHandle (components : List String) (cookie : UInt64)
      (verifier : Verifier) (maxEntriesHint : Option ℕ)
  | createDir (parent : List String) (name : String)
  | createDirWithHandle (parent : List String) (name : String)
  | createDirAtHandle (parentFh : FileHandle) (name : String)
  | createChildDirWithHandle (parentFh : FileHandle) (name : String)
  | lookupChildHandle (parentFh : FileHandle) (name : String)
  | resolveExportRoot (components : List String)
  | reclaimComplete
  deriving DecidableEq, Repr

namespace SessionCall

/-- The tail of a publish: `RENAME`, or `LINK` and `REMOVE` for a create-new. -/
def publishTail (s : NfsSession) (parent : List String) (fromName toName : String) :
    Bool → List NfsOp
  | true =>
      .saveFh :: exportPathOps s.exportRoot parent ++ [.link toName, .remove fromName]
  | false => exportPathOps s.exportRoot parent ++ [.saveFh, .rename fromName toName]

def tag : SessionCall → String
  | openFile .. => "open"
  | closeFile _ => "close"
  | closeBatch _ => "close-batch"
  | closePublish _ _ _ _ _ _ createNew =>
      if createNew then "close-link-remove" else "close-rename"
  | publishAfterClose _ _ _ _ createNew =>
      if createNew then "publish-link-remove" else "publish-rename"
  | putFused .. => "put-fused"
  | lookupFileHandle _ => "lookup-file"
  | lookupFileHandleAttrs .. => "lookup-file-attrs"
  | readAnonymous .. => "read-anon"
  | readPathAnonymous .. => "read-path-anon"
  | readPathAnonymousWithHandle .. => "read-path-handle"
  | readPathAnonymousWithSize .. => "read-path-size"
  | write .. => "write"
  | writeAndCommit .. => "write-commit"
  | remove .. => "remove"
  | removeAt .. => "remove-at"
  | readDirPage .. => "readdir"
  | readDirPathPage .. | readDirPathPageWithoutHandle .. => "readdir-path"
  | createDir .. | createDirAtHandle .. => "mkdir"
  | createDirWithHandle .. | createChildDirWithHandle .. => "mkdir-handle"
  | lookupChildHandle .. => "lookup-child"
  | resolveExportRoot _ => "resolve-export"
  | reclaimComplete => "reclaim-complete"

/-- The operations of a request, after `SEQUENCE`. -/
def ops (s : NfsSession) : SessionCall → List NfsOp
  | openFile owner parent name =>
      exportPathOps s.exportRoot parent
        ++ [.«open» 0 s.clientid owner name s.config.fileMode, .getFh]
  | closeFile opened => [.putFh opened.fh, .close opened.closeSeqid opened.stateid]
  | closeBatch opened =>
      (opened.map fun file => [.putFh file.fh, .close file.closeSeqid file.stateid]).flatten
  | closePublish opened parent fromName toName size unstableVerifier createNew =>
      .putFh opened.fh
        :: (if unstableVerifier.isSome then [.commit 0 (commitCount size)] else [])
        ++ [.verify size, .close opened.closeSeqid opened.stateid]
        ++ publishTail s parent fromName toName createNew
  | publishAfterClose sourceFh parent fromName toName createNew =>
      (if createNew then [.putFh sourceFh] else [])
        ++ publishTail s parent fromName toName createNew
  | putFused owner parent tempName destName data createNew =>
      exportPathOps s.exportRoot parent
        ++ (if createNew then [] else [.saveFh])
        ++ [.«open» 0 s.clientid owner tempName s.config.fileMode, .getFh,
            .write .current 0 data, .commit 0 (commitCount data.length), .verify data.length]
        ++ (if createNew then
              .saveFh :: exportPathOps s.exportRoot parent ++ [.link destName, .remove tempName]
            else [.restoreFh, .rename tempName destName])
  | lookupFileHandle components => exportPathOps s.exportRoot components ++ [.getFh]
  | lookupFileHandleAttrs components attrRequest =>
      exportPathOps s.exportRoot components ++ [.getFh, .getAttr attrRequest.bitmap]
  | readAnonymous fh offset count => [.putFh fh, .read .anonymous offset count]
  | readPathAnonymous components offset count =>
      exportPathOps s.exportRoot components ++ [.read .anonymous offset count]
  | readPathAnonymousWithHandle components offset count =>
      exportPathOps s.exportRoot components ++ [.getFh, .read .anonymous offset count]
  | readPathAnonymousWithSize components count =>
      exportPathOps s.exportRoot components
        ++ [.getFh, .getAttr .sizeAttr, .read .anonymous 0 count]
  | write opened offset data => [.putFh opened.fh, .write opened.stateid offset data]
  | writeAndCommit opened offset data => writeAndCommitOps opened offset data
  | remove parent name => exportPathOps s.exportRoot parent ++ [.remove name]
  | removeAt dir name => [.putFh dir, .remove name]
  | readDirPage dir cookie verifier hint => [.putFh dir, readdirOp s.config cookie verifier hint]
  | readDirPathPage components cookie verifier hint =>
      exportPathOps s.exportRoot components ++ [.getFh, readdirOp s.config cookie verifier hint]
  | readDirPathPageWithoutHandle components cookie verifier hint =>
      exportPathOps s.exportRoot components ++ [readdirOp s.config cookie verifier hint]
  | createDir parent name =>
      exportPathOps s.exportRoot parent ++ [.createDir name s.config.dirMode]
  | createDirWithHandle parent name =>
      exportPathOps s.exportRoot parent ++ [.createDir name s.config.dirMode, .getFh]
  | createDirAtHandle parentFh name => [.putFh parentFh, .createDir name s.config.dirMode]
  | createChildDirWithHandle parentFh name =>
      [.putFh parentFh, .createDir name s.config.dirMode, .getFh]
  | lookupChildHandle parentFh name => [.putFh parentFh, .lookup name, .getFh]
  | resolveExportRoot components => rootPathOps components ++ [.getFh]
  | reclaimComplete => [.reclaimComplete false]

/-- What the decoder of a request returns. -/
def Result : SessionCall → Type
  | openFile .. => OpenOutcome (StateId × FileHandle)
  | closeFile _ | closeBatch _ | closePublish .. | publishAfterClose .. | reclaimComplete => Unit
  | putFused .. => OpenOutcome (StateId × FileHandle × WriteData)
  | lookupFileHandle _ | lookupChildHandle .. | resolveExportRoot _ => FileHandle
  | lookupFileHandleAttrs .. => FileHandle × FileAttrs
  | readAnonymous .. | readPathAnonymous .. => ReadData
  | readPathAnonymousWithHandle .. => FileHandle × ReadData
  | readPathAnonymousWithSize .. => FileHandle × UInt64 × ReadData
  | write .. => WriteData
  | writeAndCommit .. => WriteData × Verifier
  | remove .. | removeAt .. => RemoveOutcome
  | readDirPage .. | readDirPathPageWithoutHandle .. => DirPage
  | readDirPathPage .. => FileHandle × DirPage
  | createDir .. | createDirAtHandle .. => CreateDirOutcome
  | createDirWithHandle .. | createChildDirWithHandle .. => CreateDirHandleOutcome

/-- The decoder the session pairs with a request. -/
def decode : (call : SessionCall) → Bytes → Except CompoundDecodeError call.Result
  | openFile _ parent _, bytes => decodeOpenFileCompound bytes parent.length
  | closeFile _, bytes => decodeCloseCompound bytes .file none
  | closeBatch opened, bytes => decodeCloseBatchCompound bytes opened.length
  | closePublish _ parent _ _ _ unstableVerifier createNew, bytes =>
      decodeCloseCompound bytes
        (if createNew then .linkRemove parent.length else .rename parent.length) unstableVerifier
  | publishAfterClose _ parent _ _ createNew, bytes =>
      if createNew then decodeLinkRemovePublishCompound bytes parent.length
      else decodeRenamePublishCompound bytes parent.length
  | putFused _ parent _ _ _ createNew, bytes =>
      decodeFusedPutCompound bytes parent.length createNew
  | lookupFileHandle components, bytes => decodeGetfhCompound bytes .putFh components.length
  | lookupFileHandleAttrs components attrRequest, bytes =>
      decodeGetfhAttrsCompound bytes components.length attrRequest
  | readAnonymous .., bytes => decodeReadCompound bytes
  | readPathAnonymous components _ _, bytes => decodeReadPathCompound bytes components.length
  | readPathAnonymousWithHandle components _ _, bytes =>
      decodeReadPathHandleCompound bytes components.length
  | readPathAnonymousWithSize components _, bytes =>
      decodeReadPathSizeCompound bytes components.length
  | write .., bytes => decodeWriteCompound bytes
  | writeAndCommit .., bytes => decodeWriteCommitCompound bytes
  | remove parent _, bytes => decodeRemoveCompound bytes parent.length
  | removeAt .., bytes => decodeRemoveCompound bytes 0
  | readDirPage _ _ _ hint, bytes => decodeReaddirCompound bytes hint
  | readDirPathPage components _ _ hint, bytes =>
      decodeReaddirPathCompound bytes hint components.length
  | readDirPathPageWithoutHandle components _ _ hint, bytes =>
      decodeReaddirPathWithoutHandleCompound bytes hint components.length
  | createDir parent _, bytes => decodeCreateDirCompound bytes parent.length
  | createDirWithHandle parent _, bytes => decodeCreateDirHandleCompound bytes parent.length
  | createDirAtHandle .., bytes => decodeCreateDirCompound bytes 0
  | createChildDirWithHandle .., bytes => decodeCreateDirHandleCompound bytes 0
  | lookupChildHandle .., bytes => decodeGetfhCompound bytes .putFh 1
  | resolveExportRoot components, bytes => decodeGetfhCompound bytes .putRootFh components.length
  | reclaimComplete, bytes => decodeNoResultCompound bytes .reclaimComplete

/-- Whether the session sends the request again after a transient status. -/
def retryTransients : SessionCall → Bool
  | closeBatch _ | putFused .. => false
  | _ => true

end SessionCall

end NfsCrust
