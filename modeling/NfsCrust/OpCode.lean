import Mathlib.Algebra.Order.Ring.Nat
import Mathlib.Tactic.Common

/-!
# Operation codes

The operations of a `COMPOUND` with their wire numbers and printed names, from the top of
`src/nfs4.rs`.

## Main definitions

* `OpCode`, `OpCode.toU32`, `OpCode.fromU32?`, `OpCode.name`, `OpCode.debug`.
-/

namespace NfsCrust

/-! ### Operations -/

/-- An operation of NFSv4.1. -/
inductive OpCode
  | access | close | commit | create | delegPurge | delegReturn | getAttr | getFh | link | lock
  | lockT | lockU | lookup | lookupP | nVerify | «open» | openAttr | openConfirm
  | openDowngrade | putFh | putPubFh | putRootFh | read | readDir | readLink | remove | rename
  | renew | restoreFh | saveFh | secInfo | setAttr | setClientId | setClientIdConfirm | verify
  | write | releaseLockOwner | backchannelCtl | bindConnToSession | exchangeId | createSession
  | destroySession | freeStateId | getDirDelegation | getDeviceInfo | getDeviceList
  | layoutCommit | layoutGet | layoutReturn | secInfoNoName | sequence | setSsv | testStateId
  | wantDelegation | destroyClientId | reclaimComplete | illegal
  deriving DecidableEq, Repr, Inhabited

namespace OpCode

/-- The wire number of an operation. -/
def toU32 : OpCode → UInt32
  | .access => 3
  | .close => 4
  | .commit => 5
  | .create => 6
  | .delegPurge => 7
  | .delegReturn => 8
  | .getAttr => 9
  | .getFh => 10
  | .link => 11
  | .lock => 12
  | .lockT => 13
  | .lockU => 14
  | .lookup => 15
  | .lookupP => 16
  | .nVerify => 17
  | .«open» => 18
  | .openAttr => 19
  | .openConfirm => 20
  | .openDowngrade => 21
  | .putFh => 22
  | .putPubFh => 23
  | .putRootFh => 24
  | .read => 25
  | .readDir => 26
  | .readLink => 27
  | .remove => 28
  | .rename => 29
  | .renew => 30
  | .restoreFh => 31
  | .saveFh => 32
  | .secInfo => 33
  | .setAttr => 34
  | .setClientId => 35
  | .setClientIdConfirm => 36
  | .verify => 37
  | .write => 38
  | .releaseLockOwner => 39
  | .backchannelCtl => 40
  | .bindConnToSession => 41
  | .exchangeId => 42
  | .createSession => 43
  | .destroySession => 44
  | .freeStateId => 45
  | .getDirDelegation => 46
  | .getDeviceInfo => 47
  | .getDeviceList => 48
  | .layoutCommit => 49
  | .layoutGet => 50
  | .layoutReturn => 51
  | .secInfoNoName => 52
  | .sequence => 53
  | .setSsv => 54
  | .testStateId => 55
  | .wantDelegation => 56
  | .destroyClientId => 57
  | .reclaimComplete => 58
  | .illegal => 10044

/-- The operation of a wire number; the source reports any other number as a
protocol error. -/
def fromU32? (value : UInt32) : Option OpCode :=
  match value.toNat with
  | 3 => some .access
  | 4 => some .close
  | 5 => some .commit
  | 6 => some .create
  | 7 => some .delegPurge
  | 8 => some .delegReturn
  | 9 => some .getAttr
  | 10 => some .getFh
  | 11 => some .link
  | 12 => some .lock
  | 13 => some .lockT
  | 14 => some .lockU
  | 15 => some .lookup
  | 16 => some .lookupP
  | 17 => some .nVerify
  | 18 => some .«open»
  | 19 => some .openAttr
  | 20 => some .openConfirm
  | 21 => some .openDowngrade
  | 22 => some .putFh
  | 23 => some .putPubFh
  | 24 => some .putRootFh
  | 25 => some .read
  | 26 => some .readDir
  | 27 => some .readLink
  | 28 => some .remove
  | 29 => some .rename
  | 30 => some .renew
  | 31 => some .restoreFh
  | 32 => some .saveFh
  | 33 => some .secInfo
  | 34 => some .setAttr
  | 35 => some .setClientId
  | 36 => some .setClientIdConfirm
  | 37 => some .verify
  | 38 => some .write
  | 39 => some .releaseLockOwner
  | 40 => some .backchannelCtl
  | 41 => some .bindConnToSession
  | 42 => some .exchangeId
  | 43 => some .createSession
  | 44 => some .destroySession
  | 45 => some .freeStateId
  | 46 => some .getDirDelegation
  | 47 => some .getDeviceInfo
  | 48 => some .getDeviceList
  | 49 => some .layoutCommit
  | 50 => some .layoutGet
  | 51 => some .layoutReturn
  | 52 => some .secInfoNoName
  | 53 => some .sequence
  | 54 => some .setSsv
  | 55 => some .testStateId
  | 56 => some .wantDelegation
  | 57 => some .destroyClientId
  | 58 => some .reclaimComplete
  | 10044 => some .illegal
  | _ => none

/-- The printed name of an operation, as in `Error::Nfs`. -/
def name : OpCode → String
  | .access => "ACCESS"
  | .close => "CLOSE"
  | .commit => "COMMIT"
  | .create => "CREATE"
  | .delegPurge => "DELEGPURGE"
  | .delegReturn => "DELEGRETURN"
  | .getAttr => "GETATTR"
  | .getFh => "GETFH"
  | .link => "LINK"
  | .lock => "LOCK"
  | .lockT => "LOCKT"
  | .lockU => "LOCKU"
  | .lookup => "LOOKUP"
  | .lookupP => "LOOKUPP"
  | .nVerify => "NVERIFY"
  | .«open» => "OPEN"
  | .openAttr => "OPENATTR"
  | .openConfirm => "OPEN_CONFIRM"
  | .openDowngrade => "OPEN_DOWNGRADE"
  | .putFh => "PUTFH"
  | .putPubFh => "PUTPUBFH"
  | .putRootFh => "PUTROOTFH"
  | .read => "READ"
  | .readDir => "READDIR"
  | .readLink => "READLINK"
  | .remove => "REMOVE"
  | .rename => "RENAME"
  | .renew => "RENEW"
  | .restoreFh => "RESTOREFH"
  | .saveFh => "SAVEFH"
  | .secInfo => "SECINFO"
  | .setAttr => "SETATTR"
  | .setClientId => "SETCLIENTID"
  | .setClientIdConfirm => "SETCLIENTID_CONFIRM"
  | .verify => "VERIFY"
  | .write => "WRITE"
  | .releaseLockOwner => "RELEASE_LOCKOWNER"
  | .backchannelCtl => "BACKCHANNEL_CTL"
  | .bindConnToSession => "BIND_CONN_TO_SESSION"
  | .exchangeId => "EXCHANGE_ID"
  | .createSession => "CREATE_SESSION"
  | .destroySession => "DESTROY_SESSION"
  | .freeStateId => "FREE_STATEID"
  | .getDirDelegation => "GET_DIR_DELEGATION"
  | .getDeviceInfo => "GETDEVICEINFO"
  | .getDeviceList => "GETDEVICELIST"
  | .layoutCommit => "LAYOUTCOMMIT"
  | .layoutGet => "LAYOUTGET"
  | .layoutReturn => "LAYOUTRETURN"
  | .secInfoNoName => "SECINFO_NO_NAME"
  | .sequence => "SEQUENCE"
  | .setSsv => "SET_SSV"
  | .testStateId => "TEST_STATEID"
  | .wantDelegation => "WANT_DELEGATION"
  | .destroyClientId => "DESTROY_CLIENTID"
  | .reclaimComplete => "RECLAIM_COMPLETE"
  | .illegal => "ILLEGAL"

/-- The name of the variant, as Rust's `Debug` prints it. -/
def debug : OpCode → String
  | .access => "Access"
  | .close => "Close"
  | .commit => "Commit"
  | .create => "Create"
  | .delegPurge => "DelegPurge"
  | .delegReturn => "DelegReturn"
  | .getAttr => "GetAttr"
  | .getFh => "GetFh"
  | .link => "Link"
  | .lock => "Lock"
  | .lockT => "LockT"
  | .lockU => "LockU"
  | .lookup => "Lookup"
  | .lookupP => "LookupP"
  | .nVerify => "NVerify"
  | .«open» => "Open"
  | .openAttr => "OpenAttr"
  | .openConfirm => "OpenConfirm"
  | .openDowngrade => "OpenDowngrade"
  | .putFh => "PutFh"
  | .putPubFh => "PutPubFh"
  | .putRootFh => "PutRootFh"
  | .read => "Read"
  | .readDir => "ReadDir"
  | .readLink => "ReadLink"
  | .remove => "Remove"
  | .rename => "Rename"
  | .renew => "Renew"
  | .restoreFh => "RestoreFh"
  | .saveFh => "SaveFh"
  | .secInfo => "SecInfo"
  | .setAttr => "SetAttr"
  | .setClientId => "SetClientId"
  | .setClientIdConfirm => "SetClientIdConfirm"
  | .verify => "Verify"
  | .write => "Write"
  | .releaseLockOwner => "ReleaseLockOwner"
  | .backchannelCtl => "BackchannelCtl"
  | .bindConnToSession => "BindConnToSession"
  | .exchangeId => "ExchangeId"
  | .createSession => "CreateSession"
  | .destroySession => "DestroySession"
  | .freeStateId => "FreeStateId"
  | .getDirDelegation => "GetDirDelegation"
  | .getDeviceInfo => "GetDeviceInfo"
  | .getDeviceList => "GetDeviceList"
  | .layoutCommit => "LayoutCommit"
  | .layoutGet => "LayoutGet"
  | .layoutReturn => "LayoutReturn"
  | .secInfoNoName => "SecInfoNoName"
  | .sequence => "Sequence"
  | .setSsv => "SetSsv"
  | .testStateId => "TestStateId"
  | .wantDelegation => "WantDelegation"
  | .destroyClientId => "DestroyClientId"
  | .reclaimComplete => "ReclaimComplete"
  | .illegal => "Illegal"

/-- Every operation, in the order of the wire numbers. -/
def all : List OpCode :=
  [.access, .close, .commit, .create, .delegPurge, .delegReturn, .getAttr, .getFh, .link, .lock,
   .lockT, .lockU, .lookup, .lookupP, .nVerify, .«open», .openAttr, .openConfirm, .openDowngrade,
   .putFh, .putPubFh, .putRootFh, .read, .readDir, .readLink, .remove, .rename, .renew,
   .restoreFh, .saveFh, .secInfo, .setAttr, .setClientId, .setClientIdConfirm, .verify, .write,
   .releaseLockOwner, .backchannelCtl, .bindConnToSession, .exchangeId, .createSession,
   .destroySession, .freeStateId, .getDirDelegation, .getDeviceInfo, .getDeviceList,
   .layoutCommit, .layoutGet, .layoutReturn, .secInfoNoName, .sequence, .setSsv, .testStateId,
   .wantDelegation, .destroyClientId, .reclaimComplete, .illegal]

theorem mem_all (op : OpCode) : op ∈ all := by
  cases op <;> decide

/-- The operation of a printed name. -/
def ofName (s : String) : Option OpCode := all.find? fun op => op.name == s

theorem ofName_name (op : OpCode) : ofName op.name = some op := by
  have h : ∀ op ∈ all, ofName op.name = some op := by decide +kernel
  exact h op (mem_all op)

/-- No two operations print alike. -/
theorem name_injective : Function.Injective name := by
  intro a b h
  have hab := congrArg ofName h
  rw [ofName_name, ofName_name] at hab
  exact Option.some.inj hab

theorem toU32_injective : Function.Injective toU32 := by
  intro a b h
  have hfrom : ∀ op : OpCode, fromU32? op.toU32 = some op := by
    intro op
    cases op <;> rfl
  have hab := congrArg fromU32? h
  rw [hfrom, hfrom] at hab
  exact Option.some.inj hab

end OpCode

end NfsCrust
