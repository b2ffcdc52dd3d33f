import NfsCrust.OpCode

/-!
# Errors and their classification

The client's error type, the status codes it gives a meaning to, and the
predicates that decide what a caller may do after an error, from
`src/error.rs` and `mod status` of `src/nfs4.rs`.  Everything the client does
after a failed compound — retry it, rebuild the session, report an unknown
outcome — is decided by these predicates.

`Error.panic` is not a variant of the source's enum.  It marks the places where
the Rust code would panic, so that "this never panics" can be stated.

## Main definitions

* `NfsStatus` and the constants of `mod status`.
* `Error`, `Error.display` — the variants with the data they carry, and the text
  they print.
* `Error.isRetryable`, `Error.requiresSessionRebuild`, `Error.isNotFound`,
  `Error.withCloseFailure` — the classification.
-/

namespace NfsCrust

/-! ### Status codes -/

/-- A status word of a reply. -/
structure NfsStatus where
  code : UInt32
  deriving DecidableEq, Repr, Inhabited

namespace NfsStatus

def OK : NfsStatus := ⟨0⟩
def PERM : NfsStatus := ⟨1⟩
def NOENT : NfsStatus := ⟨2⟩
def ACCESS : NfsStatus := ⟨13⟩
def EXIST : NfsStatus := ⟨17⟩
def INVAL : NfsStatus := ⟨22⟩
def NOTSUPP : NfsStatus := ⟨10004⟩
def DELAY : NfsStatus := ⟨10008⟩
def GRACE : NfsStatus := ⟨10013⟩
def WRONGSEC : NfsStatus := ⟨10016⟩
def STALE_CLIENTID : NfsStatus := ⟨10022⟩
def BAD_STATEID : NfsStatus := ⟨10025⟩
def NOT_SAME : NfsStatus := ⟨10027⟩
def OP_ILLEGAL : NfsStatus := ⟨10044⟩
def BADSESSION : NfsStatus := ⟨10052⟩
def BADSLOT : NfsStatus := ⟨10053⟩
def COMPLETE_ALREADY : NfsStatus := ⟨10054⟩
def SEQ_MISORDERED : NfsStatus := ⟨10063⟩
def BAD_HIGH_SLOT : NfsStatus := ⟨10077⟩
def DEADSESSION : NfsStatus := ⟨10078⟩

def isOk (s : NfsStatus) : Bool := s == OK

end NfsStatus

/-! ### Durations -/

/-- A `Duration`, in nanoseconds. -/
abbrev Duration := ℕ

/-- Decimal digits of `frac`, `width` of them, without the trailing zeros. -/
def fracDigits : ℕ → ℕ → String
  | 0, _ => ""
  | width + 1, frac =>
      let unit := 10 ^ width
      if frac = 0 then "" else toString (frac / unit) ++ fracDigits width (frac % unit)

/-- A number with `width` fractional digits, as Rust prints a `Duration`. -/
def decimal (whole frac width : ℕ) : String :=
  if frac = 0 then toString whole else toString whole ++ "." ++ fracDigits width frac

/-- A `Duration` as Rust's `Debug` prints it. -/
def Duration.debug (d : Duration) : String :=
  if 10 ^ 9 ≤ d then decimal (d / 10 ^ 9) (d % 10 ^ 9) 9 ++ "s"
  else if 10 ^ 6 ≤ d then decimal (d / 10 ^ 6) (d % 10 ^ 6) 6 ++ "ms"
  else if 10 ^ 3 ≤ d then decimal (d / 10 ^ 3) (d % 10 ^ 3) 3 ++ "µs"
  else toString d ++ "ns"

/-- An optional number as Rust's `Debug` prints it. -/
def debugOption : Option ℕ → String
  | none => "None"
  | some n => "Some(" ++ toString n ++ ")"

/-! ### Errors -/

/-- An error of the client. -/
inductive Error
  | io (message : String)
  | rpc (message : String)
  | connectionLost (message : String)
  | requestNotSent (source : Error)
  | xdr (message : String)
  | nfs (statusCode : UInt32) (operation : String)
  | protocol (message : String)
  | invalidPath (message : String)
  | alreadyExists (path : String)
  | outcomeUnknown (operation path reason : String)
  | fileSizeMismatch (expected : ℕ) (actual : Option ℕ)
  | invalidConfig (message : String)
  | unsupported (message : String)
  | timeout (elapsed : Duration)
  | bufferedReadTooLarge (size : Option ℕ) (limit : ℕ)
  /-- The Rust code panics here. -/
  | panic (message : String)
  deriving DecidableEq, Repr, Inhabited

namespace Error

/-- The text of an error. -/
def display : Error → String
  | io message => "I/O error: " ++ message
  | rpc message => "RPC error: " ++ message
  | connectionLost message => "connection lost: " ++ message
  | requestNotSent source => "request was not sent: " ++ source.display
  | xdr message => "XDR decode error: " ++ message
  | nfs statusCode operation => s!"NFS server returned status {statusCode} during {operation}"
  | protocol message => "protocol error: " ++ message
  | invalidPath message => "invalid path: " ++ message
  | alreadyExists path => "path already exists: " ++ path
  | outcomeUnknown operation path reason =>
      s!"outcome of {operation} for " ++ path.quote ++ s!" is unknown: {reason}"
  | fileSizeMismatch expected _ =>
      s!"remote file size does not match caller-supplied size {expected} bytes"
  | invalidConfig message => "invalid client configuration: " ++ message
  | unsupported message => "unsupported server response: " ++ message
  | timeout elapsed => "operation timed out after " ++ elapsed.debug
  | bufferedReadTooLarge size limit =>
      "buffered read is too large: size " ++ debugOption size ++ s!" exceeds limit {limit} bytes"
  | panic message => message

/-- `Error::request_not_sent`: wrap an error that kept a request from being
sent, once. -/
def notSent : Error → Error
  | requestNotSent source => requestNotSent source
  | source => requestNotSent source

/-- `Error::nfs`. -/
def ofStatus (status : NfsStatus) (op : OpCode) : Error := nfs status.code op.name

/-! ### Classification -/

def isNfsStatus (status : NfsStatus) : Error → Bool
  | nfs statusCode _ => statusCode == status.code
  | _ => false

def isNfsError (status : NfsStatus) (op : OpCode) : Error → Bool
  | nfs statusCode operation => statusCode == status.code && operation == op.name
  | _ => false

def isNfsOperation (op : OpCode) : Error → Bool
  | nfs _ operation => operation == op.name
  | _ => false

/-- The session-level statuses: the session is gone, or its sequence state is. -/
def sessionStatuses : List NfsStatus :=
  [.STALE_CLIENTID, .BADSESSION, .BADSLOT, .SEQ_MISORDERED, .BAD_HIGH_SLOT, .DEADSESSION]

/-- Retrying the operation may succeed. -/
def isRetryable : Error → Bool
  | io _ | connectionLost _ | timeout _ => true
  | requestNotSent source => source.isRetryable
  | nfs statusCode _ =>
      (NfsStatus.DELAY :: NfsStatus.GRACE :: sessionStatuses).any fun s => statusCode == s.code
  | _ => false

/-- Retrying requires replacing the transport or the session first. -/
def requiresSessionRebuild : Error → Bool
  | io _ | connectionLost _ | timeout _ => true
  | requestNotSent source => source.requiresSessionRebuild
  | nfs statusCode _ => sessionStatuses.any fun s => statusCode == s.code
  | _ => false

/-- The error represents a missing path. -/
def isNotFound (err : Error) : Bool :=
  err.isNfsError .NOENT .lookup || err.isNfsError .NOENT .«open» || err.isNfsError .NOENT .remove

/-- A mutation may have succeeded but its reply was lost. -/
def isOutcomeUnknown : Error → Bool
  | outcomeUnknown .. => true
  | _ => false

/-- The operation failed before its request was handed to the transport. -/
def isRequestNotSent : Error → Bool
  | requestNotSent _ => true
  | _ => false

def nfsStatusCode : Error → Option UInt32
  | nfs statusCode _ => some statusCode
  | _ => none

/-- The error to report when closing the file failed as well. -/
def withCloseFailure (err closeErr : Error) : Error :=
  let message := err.display ++ "; additionally failed to close NFS file: " ++ closeErr.display
  if err.requiresSessionRebuild || closeErr.requiresSessionRebuild then connectionLost message
  else if err.isRetryable then err
  else if closeErr.isRetryable then closeErr
  else protocol message

/-- The error carries a status of the server. -/
def isNfs (err : Error) : Bool := err.nfsStatusCode.isSome

/-- The error says nothing about what the server did: it carries no status, and
the request may have been sent. -/
def isForeign (err : Error) : Bool := !err.isNfs && !err.isRequestNotSent

@[simp] theorem isNfs_ofStatus (status : NfsStatus) (op : OpCode) :
    (ofStatus status op).isNfs = true := rfl

@[simp] theorem isNfsOperation_ofStatus (status : NfsStatus) (op op' : OpCode) :
    (ofStatus status op).isNfsOperation op' = true ↔ op = op' := by
  simp only [ofStatus, isNfsOperation, beq_iff_eq]
  exact OpCode.name_injective.eq_iff

@[simp] theorem isNfsError_ofStatus (status status' : NfsStatus) (op op' : OpCode) :
    (ofStatus status op).isNfsError status' op' = true ↔ status = status' ∧ op = op' := by
  simp only [ofStatus, isNfsError, Bool.and_eq_true, beq_iff_eq, OpCode.name_injective.eq_iff]
  constructor
  · rintro ⟨h, rfl⟩
    exact ⟨by cases status; cases status'; exact congrArg _ h, rfl⟩
  · rintro ⟨rfl, rfl⟩
    exact ⟨rfl, rfl⟩

/-- Everything that asks for a rebuilt session is worth retrying. -/
theorem isRetryable_of_requiresSessionRebuild :
    ∀ err : Error, err.requiresSessionRebuild = true → err.isRetryable = true
  | io _, _ | connectionLost _, _ | timeout _, _ => rfl
  | requestNotSent source, h => isRetryable_of_requiresSessionRebuild source h
  | nfs _ _, h => by
    simp only [isRetryable, List.any_cons, Bool.or_eq_true]
    exact Or.inr (Or.inr h)

end Error

end NfsCrust
