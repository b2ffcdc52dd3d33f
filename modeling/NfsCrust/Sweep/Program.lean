import NfsCrust.Put.Program

/-!
# Removing files

The `delete` and the `sweep_temp_files` of `src/client.rs`.  A sweep reads a directory
page by page, removes the temporary files on a page that are old enough, and then
reads the directory again from its start, because removals may invalidate the cursor.

## Main definitions

* `deleteOnce`, `delete` — removing one path.
* `parseTempFileCreatedMs` — when a temporary file was created, from its name.
* `removeTempNames`, `sweepTempFilesOnce`, `sweepTempFiles` — the sweep.
-/

namespace NfsCrust

open Interaction

/-! ### Deleting a path -/

def deleteResult (result : Except Error RemoveOutcome) (rawPath : String) : Except Error Unit :=
  match result with
  | .ok _ => .ok ()
  | .error err =>
    if errorProvesOperationNotRun err then .error err
    else .error (outcomeUnknownError "delete" rawPath err)

def deleteOnce (s : NfsSession) (path : NfsPath) (rawPath : String) : SessionM Unit := do
  let (parent, name) ← path.parentAndName
  let result ← Thread.attempt (s.call (.remove parent name))
  deleteResult result rawPath

def delete (rawPath : String) : ClientM Unit := do
  let path ← NfsPath.file rawPath
  retryingSessionOperation fun snapshot => liftM (deleteOnce snapshot.session path rawPath)

/-! ### Temporary names -/

namespace Ulid

def ULID_LEN : ℕ := 26

/-- The digits of Crockford's base 32. -/
def ALPHABET : List Char := "0123456789ABCDEFGHJKMNPQRSTVWXYZ".toList

def digit (c : Char) : Option ℕ :=
  if ALPHABET.contains c.toUpper then some (ALPHABET.idxOf c.toUpper) else none

/-- The 128 bits of an identifier. -/
def fromString (text : List Char) : Option ℕ :=
  if text.length = ULID_LEN then
    (text.mapM digit).map fun digits => digits.foldl (fun value d => (value * 32 + d) % 2 ^ 128) 0
  else none

def timestampMs (ulid : ℕ) : ℕ := ulid / 2 ^ 80

end Ulid

def parseTempFileCreatedMs (name : String) : Option ℕ :=
  if isTempName name then
    (Ulid.fromString (name.toList.drop TEMP_FILE_PREFIX.length)).map Ulid.timestampMs
  else none

/-! ### The sweep -/

/-- The loop variables of the removals. -/
structure Removals where
  names : List String
  removed : ℕ
  firstError : Option Error := none
  deriving DecidableEq, Repr

def tallyRemoveResult (x : Removals) : Except Error RemoveOutcome → Removals
  | .ok .removed => { x with removed := x.removed + 1 }
  | .ok .missing => x
  | .error err => { x with firstError := some (x.firstError.getD err) }

/-- The loop of the removals. -/
def removePool (s : NfsSession) (dirFh : FileHandle) (depth : ℕ) :
    Pool effects Removals (Except Error RemoveOutcome) where
  depth := depth
  next x :=
    match x.firstError, x.names with
    | none, name :: names => some ((s.call (.removeAt dirFh name)).run, { x with names })
    | _, _ => none
  absorb := tallyRemoveResult

/-- Remove names from a directory.  Returns the count and the first error. -/
def removeTempNames (s : NfsSession) (dirFh : FileHandle) (names : List String) (removed : ℕ) :
    ClientM (ℕ × Option Error) := do
  let depth ← operationPipelineDepth s
  let x ← (removePool s dirFh depth).run { names, removed }
  return (x.removed, x.firstError)

def sweepResult (removed : ℕ) (error : Option Error) (rawDirectory : String) : Except Error ℕ :=
  match error with
  | some error => .error (outcomeUnknownError "sweep temporary files" rawDirectory error)
  | none => .ok removed

def advanceDirCursor (cookie : UInt64) (page : DirPage) : Except Error (UInt64 × Verifier) :=
  if page.lastCookie = cookie then
    .error (.protocol "READDIR did not advance the cookie and was not EOF")
  else .ok (page.lastCookie, page.verifier)

/-- A page of the directory, with its handle and the cookie it was read from. -/
structure SweepPage where
  dirFh : FileHandle
  cookie : UInt64
  page : DirPage
  deriving DecidableEq, Repr

/-- The loop variables of a sweep; without a page, the directory is read from its
start. -/
structure Sweep where
  removed : ℕ := 0
  page : Option SweepPage := none
  deriving DecidableEq, Repr

def sweepPage (s : NfsSession) (components : List String) : Option SweepPage → SessionM SweepPage
  | some page => return page
  | none => do
    let (dirFh, page) ← s.call (.readDirPathPage components 0 (.replicate 8 0) none)
    return { dirFh, cookie := 0, page }

/-- The names on a page that are to be removed. -/
def staleNames (cutoffMs : ℕ) (page : DirPage) : List String :=
  (page.entries.map DirEntry.name).filter fun name =>
    (parseTempFileCreatedMs name).any (· ≤ cutoffMs)

/-- One page of a sweep. -/
def sweepTurn (s : NfsSession) (components : List String) (rawDirectory : String) (cutoffMs : ℕ)
    (x : Sweep) : ClientM (Sweep ⊕ ℕ) := do
  let p ← sweepPage s components x.page
  let stale := staleNames cutoffMs p.page
  if stale ≠ [] then
    let (removed, error) ← removeTempNames s p.dirFh stale x.removed
    if error.isSome then
      return .inr (← sweepResult removed error rawDirectory)
    else return .inl { removed, page := none }
  else if p.page.eof then return .inr x.removed
  else
    let (cookie, verifier) ← advanceDirCursor p.cookie p.page
    let page ← s.call (.readDirPage p.dirFh cookie verifier none)
    return .inl { x with page := some { p with cookie, page } }

def sweepTempFilesOnce (s : NfsSession) (path : NfsPath) (rawDirectory : String) (cutoffMs : ℕ) :
    ClientM ℕ :=
  Prog.loopExcept (sweepTurn s path.components rawDirectory cutoffMs) {}

/-- A duration in milliseconds, as far as a `u64` goes. -/
def Duration.asMillis (d : Duration) : ℕ := min (d / 10 ^ 6) (2 ^ 64 - 1)

/-- A missing directory counts as swept. -/
def sweepTempFiles (rawDirectory : String) (olderThan : Duration) : ClientM ℕ := do
  let path ← NfsPath.directory rawDirectory
  let now : ℕ ← perform .unixNowMillis
  let cutoffMs := now - olderThan.asMillis
  match ← Prog.attempt (retryingSessionOperation fun snapshot =>
    sweepTempFilesOnce snapshot.session path rawDirectory cutoffMs) with
  | .ok removed => return removed
  | .error err => if err.isNotFound then return 0 else throw err

example : parseTempFileCreatedMs ".nfs-crust-tmp-0000000007000000000000000G" = some 7 := by
  decide +kernel

end NfsCrust
