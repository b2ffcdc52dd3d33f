import NfsCrust.Client
import NfsCrust.Path

/-!
# Listing a directory

The `list_page` of `src/client.rs`: one `READDIR` page for each call, and a token from
which the next call goes on.  The token holds the cookie of the last entry the client
took from the page, and is good for the directory it was made for only.

## Main definitions

* `ContinuationToken` — where a listing goes on.
* `listPageOnce`, `listPage` — one page of a listing.
-/

namespace NfsCrust

open Interaction

/-! ### Tokens -/

structure ContinuationToken where
  directory : String
  cookie : UInt64
  verifier : Verifier
  deriving DecidableEq, Repr

namespace ContinuationToken

def fromListPosition (directory : String) (cookie : UInt64) (verifier : Verifier) :
    ContinuationToken := { directory, cookie, verifier }

def listPosition (token : ContinuationToken) (directory : String) :
    Except Error (UInt64 × Verifier) :=
  if token.directory ≠ directory then
    .error (.invalidConfig "list continuation token does not match the requested directory")
  else .ok (token.cookie, token.verifier)

end ContinuationToken

/-- Where a call starts: at its token, or at the start of the directory. -/
def startPosition (token : Option ContinuationToken) (directory : String) :
    Except Error (UInt64 × Verifier) :=
  match token with
  | some token => token.listPosition directory
  | none => .ok (0, .replicate 8 0)

/-! ### Pages -/

structure ListEntry where
  path : String
  name : String
  deriving DecidableEq, Repr

structure ListResult where
  entries : List ListEntry
  nextToken : Option ContinuationToken
  deriving DecidableEq, Repr

/-- The path of a directory inside the export. -/
def basePath (path : NfsPath) : String := "/".intercalate path.components

def listEntry (directory : String) (entry : DirEntry) : ListEntry where
  path := (if directory.isEmpty then "" else directory ++ "/") ++ entry.name
  name := entry.name

/-- The token after a page that was read from `cookie`. -/
def nextToken (directory : String) (cookie : UInt64) (page : DirPage) :
    Except Error (Option ContinuationToken) :=
  if page.eof then .ok none
  else if page.lastCookie = cookie then
    .error (.protocol "READDIR did not advance the cookie and was not EOF")
  else .ok (some (.fromListPosition directory page.lastCookie page.verifier))

def listResult (directory : String) (cookie : UInt64) (page : DirPage) :
    Except Error ListResult := do
  let nextToken ← nextToken directory cookie page
  return { entries := page.entries.map (listEntry directory), nextToken }

def listPageOnce (s : NfsSession) (path : NfsPath) (maxEntries : ℕ)
    (continuationToken : Option ContinuationToken) : SessionM ListResult := do
  let (cookie, verifier) ← startPosition continuationToken (basePath path)
  let page ← s.call
    (.readDirPathPageWithoutHandle path.components cookie verifier (some maxEntries))
  listResult (basePath path) cookie page

def listPage (directory : String) (maxEntries : ℕ) (continuationToken : Option ContinuationToken) :
    ClientM ListResult := do
  if maxEntries = 0 then throw (.invalidConfig "list max_entries must be greater than zero")
  else
    let path ← NfsPath.directory directory
    retryingSessionOperation fun snapshot =>
      liftM (listPageOnce snapshot.session path maxEntries continuationToken)

end NfsCrust
