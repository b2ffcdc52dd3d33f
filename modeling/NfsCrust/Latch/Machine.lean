import NfsCrust.Session
import NfsCrust.Lib.Transition

/-!
# Sequence status

Every `SEQUENCE` reply carries a word of status flags.  Flags that make a session
unusable are kept in a word of the session (`fatal_sequence_flags`), which
`compound_raw_once` reads before it sends anything.  A session whose state was
revoked also replaces the verifier under which the client is known to the server,
so that the next session does not meet the old state.

The sessions of one client share its `ClientOwner`.  Here they run as one machine
with any number of tasks; a step is one access to a shared word.

## Main definitions

* `validateSequenceStatusFlags` — what a status word means for the session.
* `ClientOwner` — the verifier, the owner id and the counter of open owners.
* `Machine`, `Machine.step` — the sessions of a client and the calls on them.
-/

namespace NfsCrust.Latch

open Function (update)

/-! ### Status flags -/

def SEQ4_STATUS_CB_PATH_DOWN : UInt32 := 0x00000001
def SEQ4_STATUS_CB_GSS_CONTEXTS_EXPIRING : UInt32 := 0x00000002
def SEQ4_STATUS_CB_GSS_CONTEXTS_EXPIRED : UInt32 := 0x00000004
def SEQ4_STATUS_EXPIRED_ALL_STATE_REVOKED : UInt32 := 0x00000008
def SEQ4_STATUS_EXPIRED_SOME_STATE_REVOKED : UInt32 := 0x00000010
def SEQ4_STATUS_ADMIN_STATE_REVOKED : UInt32 := 0x00000020
def SEQ4_STATUS_RECALLABLE_STATE_REVOKED : UInt32 := 0x00000040
def SEQ4_STATUS_LEASE_MOVED : UInt32 := 0x00000080
def SEQ4_STATUS_RESTART_RECLAIM_NEEDED : UInt32 := 0x00000100
def SEQ4_STATUS_CB_PATH_DOWN_SESSION : UInt32 := 0x00000200
def SEQ4_STATUS_BACKCHANNEL_FAULT : UInt32 := 0x00000400
def SEQ4_STATUS_DEVID_CHANGED : UInt32 := 0x00000800
def SEQ4_STATUS_DEVID_DELETED : UInt32 := 0x00001000

def SEQ4_STATUS_KNOWN : UInt32 :=
  SEQ4_STATUS_CB_PATH_DOWN
    ||| SEQ4_STATUS_CB_GSS_CONTEXTS_EXPIRING
    ||| SEQ4_STATUS_CB_GSS_CONTEXTS_EXPIRED
    ||| SEQ4_STATUS_EXPIRED_ALL_STATE_REVOKED
    ||| SEQ4_STATUS_EXPIRED_SOME_STATE_REVOKED
    ||| SEQ4_STATUS_ADMIN_STATE_REVOKED
    ||| SEQ4_STATUS_RECALLABLE_STATE_REVOKED
    ||| SEQ4_STATUS_LEASE_MOVED
    ||| SEQ4_STATUS_RESTART_RECLAIM_NEEDED
    ||| SEQ4_STATUS_CB_PATH_DOWN_SESSION
    ||| SEQ4_STATUS_BACKCHANNEL_FAULT
    ||| SEQ4_STATUS_DEVID_CHANGED
    ||| SEQ4_STATUS_DEVID_DELETED

def SEQ4_STATUS_STATE_LOST : UInt32 :=
  SEQ4_STATUS_EXPIRED_ALL_STATE_REVOKED
    ||| SEQ4_STATUS_EXPIRED_SOME_STATE_REVOKED
    ||| SEQ4_STATUS_ADMIN_STATE_REVOKED
    ||| SEQ4_STATUS_RECALLABLE_STATE_REVOKED

/-- The flags the client does not know. -/
def unknownFlags (statusFlags : UInt32) : UInt32 := statusFlags &&& ~~~SEQ4_STATUS_KNOWN

/-- The flags that say state was revoked. -/
def lostFlags (statusFlags : UInt32) : UInt32 := statusFlags &&& SEQ4_STATUS_STATE_LOST

/-- Eight hexadecimal digits. -/
def hex08 (word : UInt32) : String :=
  let digits := Nat.toDigits 16 word.toNat
  "0x" ++ String.ofList (List.replicate (8 - digits.length) '0' ++ digits)

def validateSequenceStatusFlags (statusFlags : UInt32) (reclaimComplete : Bool) :
    Except Error Unit :=
  if unknownFlags statusFlags ≠ 0 then
    .error (.protocol
      ("SEQUENCE response contained unknown status flags " ++ hex08 (unknownFlags statusFlags)))
  else if lostFlags statusFlags ≠ 0 then
    .error (.connectionLost ("NFS server reported revoked client state (SEQUENCE flags "
      ++ hex08 statusFlags ++ ")"))
  else if reclaimComplete && (statusFlags &&& SEQ4_STATUS_RESTART_RECLAIM_NEEDED) != 0 then
    .error (.connectionLost "NFS server restarted and requires state recovery")
  else if statusFlags &&& SEQ4_STATUS_BACKCHANNEL_FAULT ≠ 0 then
    .error (.connectionLost "NFS server reported a fatal session backchannel fault")
  else if statusFlags &&& SEQ4_STATUS_LEASE_MOVED ≠ 0 then
    .error (.unsupported "NFS server reported migrated lease state")
  -- callbacks, callback contexts and device ids are not used by this client
  else .ok ()

theorem unknownFlags_or (a b : UInt32) :
    unknownFlags (a ||| b) = unknownFlags a ||| unknownFlags b := by
  refine UInt32.toBitVec_inj.mp ?_
  exact BitVec.and_or_distrib_right

theorem lostFlags_or (a b : UInt32) : lostFlags (a ||| b) = lostFlags a ||| lostFlags b := by
  refine UInt32.toBitVec_inj.mp ?_
  exact BitVec.and_or_distrib_right

/-- A latch keeps what it has and takes what it is given. -/
theorem lostFlags_or_ne_zero {a b : UInt32} (h : lostFlags a ≠ 0 ∨ lostFlags b ≠ 0) :
    lostFlags (a ||| b) ≠ 0 := by
  rw [lostFlags_or, Ne, UInt32.or_eq_zero_iff]
  rintro ⟨ha, hb⟩
  exact h.elim (fun h => h ha) fun h => h hb

theorem unknownFlags_or_eq_zero {a b : UInt32} (ha : unknownFlags a = 0)
    (hb : unknownFlags b = 0) : unknownFlags (a ||| b) = 0 := by
  rw [unknownFlags_or, UInt32.or_eq_zero_iff]
  exact ⟨ha, hb⟩

/-- Revoked state always makes a session unusable. -/
theorem validateSequenceStatusFlags_lost {flags : UInt32} (reclaimComplete : Bool)
    (h : lostFlags flags ≠ 0) : ∃ err,
      validateSequenceStatusFlags flags reclaimComplete = .error err ∧
        err.isRequestNotSent = false ∧
        (unknownFlags flags = 0 → err.requiresSessionRebuild = true) := by
  unfold validateSequenceStatusFlags
  by_cases hknown : unknownFlags flags = 0
  · rw [if_neg (not_not_intro hknown), if_pos h]
    exact ⟨_, rfl, rfl, fun _ => rfl⟩
  · rw [if_pos hknown]
    exact ⟨_, rfl, rfl, fun hzero => absurd hzero hknown⟩

/-! ### Shared state -/

structure ClientOwner where
  verifier : UInt64
  ownerid : String
  ownerCounter : UInt64
  deriving DecidableEq, Repr

def OPEN_OWNER_PREFIX : String := "nfs-crust-open-"

namespace ClientOwner

/-- `Ulid::new` gave `verifier`. -/
def new (verifier : UInt64) (ownerid : String) : ClientOwner :=
  { verifier, ownerid, ownerCounter := 1 }

/-- `compare_exchange` with what `verifier_from_ulid` gave. -/
def rotateVerifierIfCurrent (o : ClientOwner) (expected fresh : UInt64) : ClientOwner × Bool :=
  let replacement := if fresh = expected then expected + 1 else fresh
  if o.verifier = expected then ({ o with verifier := replacement }, true) else (o, false)

def nextOpenOwner (o : ClientOwner) : String × ClientOwner :=
  (OPEN_OWNER_PREFIX ++ toString o.ownerCounter.toNat,
    { o with ownerCounter := o.ownerCounter + 1 })

end ClientOwner

/-- A session with the words that `compound_raw_once` reads and writes. -/
structure OpenSession where
  session : NfsSession
  /-- The verifier that was current when the session was opened. -/
  clientVerifier : UInt64
  fatalSequenceFlags : UInt32
  reclaimComplete : Bool
  deriving DecidableEq, Repr

/-- Where a task stands in a `compound_raw_once` on session `sid`. -/
inductive Pc
  | idle
  /-- About to load `fatal_sequence_flags`, for the second time when `again`. -/
  | checking (sid : ℕ) (again : Bool)
  /-- About to load `reclaim_complete`. -/
  | loaded (sid : ℕ) (flags : UInt32) (again : Bool)
  /-- `acquire_for_request().await`. -/
  | acquiring (sid : ℕ)
  /-- About to hand the request to the transport. -/
  | sending (sid : ℕ)
  | awaiting (sid : ℕ)
  /-- A matching `SEQUENCE` result was decoded. -/
  | replied (sid : ℕ) (statusFlags : UInt32)
  /-- In `latch_fatal_sequence_flags`, before the `fetch_or`. -/
  | latching (sid : ℕ) (statusFlags : UInt32)
  /-- In `latch_fatal_sequence_flags`, before the `compare_exchange`. -/
  | rotating (sid : ℕ)
  /-- The request was not sent. -/
  | refused (sid : ℕ) (err : Error)
  /-- The call has ended after its request was handed over. -/
  | ended (sid : ℕ)
  deriving DecidableEq, Repr

namespace Pc

/-- The session a task works on. -/
def session? : Pc → Option ℕ
  | idle => none
  | checking sid _ | loaded sid _ _ | acquiring sid | sending sid | awaiting sid | replied sid _
  | latching sid _ | rotating sid | refused sid _ | ended sid => some sid

/-- The request was handed to the transport. -/
def sent : Pc → Bool
  | awaiting _ | replied .. | latching .. | rotating _ | ended _ => true
  | idle | checking .. | loaded .. | acquiring _ | sending _ | refused .. => false

end Pc

/-- The sessions of a client and the tasks that use them. -/
structure Machine where
  owner : ClientOwner
  sessions : ℕ → Option OpenSession
  pc : ℕ → Pc
  /-- The status words that were latched, with their sessions. -/
  latched : List (ℕ × UInt32)
  /-- Every verifier that was generated. -/
  generated : List UInt64
  /-- The verifiers that were replaced, and by what. -/
  rotations : List (UInt64 × UInt64)
  /-- The open owners that were handed out. -/
  names : List String

namespace Machine

def new (verifier : UInt64) (ownerid : String) : Machine where
  owner := .new verifier ownerid
  sessions _ := none
  pc _ := .idle
  latched := []
  generated := [verifier]
  rotations := []
  names := []

def goto (m : Machine) (t : ℕ) (pc : Pc) : Machine := { m with pc := update m.pc t pc }

def setSession (m : Machine) (sid : ℕ) (s : OpenSession) : Machine :=
  { m with sessions := update m.sessions sid (some s) }

/-- `fetch_or` on the flags of a session. -/
def fetchOr (m : Machine) (sid : ℕ) (s : OpenSession) (statusFlags : UInt32) : Machine :=
  { m.setSession sid { s with fatalSequenceFlags := s.fatalSequenceFlags ||| statusFlags } with
    latched := (sid, statusFlags) :: m.latched }

/-- The `compare_exchange` of a session that saw its state revoked. -/
def rotate (m : Machine) (s : OpenSession) (fresh : UInt64) : Machine :=
  let r := m.owner.rotateVerifierIfCurrent s.clientVerifier fresh
  { m with
    owner := r.1
    generated := fresh :: m.generated
    rotations := if r.2 then (s.clientVerifier, r.1.verifier) :: m.rotations else m.rotations }

/-! ### Steps -/

/-- What can happen to a task. -/
inductive Act
  /-- A call begins. -/
  | start (sid : ℕ) (tag : String) (ops : List NfsOp)
  /-- The task runs on. -/
  | advance
  /-- No slot is to be had, or the transport does not take the request. -/
  | refuse (err : Error)
  /-- The call is cancelled, times out, or gets a reply whose `SEQUENCE` result does
  not match. -/
  | cancel
  /-- A reply whose `SEQUENCE` result matches. -/
  | reply (statusFlags : UInt32)
  /-- `Ulid::new` and the `compare_exchange`. -/
  | rotate (fresh : UInt64)

/-- The next step of task `t`, which stands at the given point. -/
def taskStep (m : Machine) (t : ℕ) : Pc → Act → Option Machine
  | .idle, .start sid tag ops => (m.sessions sid).map fun s =>
      match s.session.validateCompoundRequest tag ops with
      | .error err => m.goto t (.refused sid err.notSent)
      | .ok () => m.goto t (.checking sid false)
  | .checking sid again, .advance => (m.sessions sid).map fun s =>
      m.goto t (.loaded sid s.fatalSequenceFlags again)
  | .loaded sid flags again, .advance => (m.sessions sid).map fun s =>
      match validateSequenceStatusFlags flags s.reclaimComplete with
      | .error err => m.goto t (.refused sid err.notSent)
      | .ok () => m.goto t (if again then .sending sid else .acquiring sid)
  | .acquiring sid, .advance => some (m.goto t (.checking sid true))
  | .acquiring sid, .refuse err => some (m.goto t (.refused sid err.notSent))
  | .acquiring _, .cancel => some (m.goto t .idle)
  | .sending sid, .advance => some (m.goto t (.awaiting sid))
  | .sending sid, .refuse err => some (m.goto t (.refused sid err.notSent))
  | .sending _, .cancel => some (m.goto t .idle)
  | .awaiting sid, .reply statusFlags => some (m.goto t (.replied sid statusFlags))
  | .awaiting sid, .cancel => some (m.goto t (.ended sid))
  | .replied sid statusFlags, .advance => (m.sessions sid).map fun s =>
      match validateSequenceStatusFlags statusFlags s.reclaimComplete with
      | .error _ => m.goto t (.latching sid statusFlags)
      | .ok () => m.goto t (.ended sid)
  | .latching sid statusFlags, .advance => (m.sessions sid).map fun s =>
      (m.fetchOr sid s statusFlags).goto t
        (if lostFlags statusFlags ≠ 0 ∧ lostFlags s.fatalSequenceFlags = 0 then .rotating sid
        else .ended sid)
  | .rotating sid, .rotate fresh => (m.sessions sid).map fun s =>
      (m.rotate s fresh).goto t (.ended sid)
  | _, _ => none

inductive Action
  /-- `NfsSession::connect` reads the verifier. -/
  | connect (sid : ℕ) (session : NfsSession)
  /-- `reclaim_complete.store(true)`. -/
  | reclaim (sid : ℕ)
  /-- `next_open_owner`. -/
  | openOwner
  | task (t : ℕ) (act : Act)

def step (m : Machine) : Action → Option Machine
  | .connect sid session =>
      match m.sessions sid with
      | some _ => none
      | none => some (m.setSession sid ⟨session, m.owner.verifier, 0, false⟩)
  | .reclaim sid => (m.sessions sid).map fun s =>
      m.setSession sid { s with reclaimComplete := true }
  | .openOwner =>
      let (name, owner) := m.owner.nextOpenOwner
      some { m with owner, names := m.names ++ [name] }
  | .task t act => m.taskStep t (m.pc t) act

/-! ### What a step does -/

variable {m m' : Machine} {t sid : ℕ}

@[simp] theorem goto_pc_self (m : Machine) (t : ℕ) (pc : Pc) : (m.goto t pc).pc t = pc :=
  Function.update_self ..

theorem goto_pc_of_ne (m : Machine) {t u : ℕ} (pc : Pc) (h : u ≠ t) :
    (m.goto t pc).pc u = m.pc u := Function.update_of_ne h ..

theorem setSession_eq_some {sid sid' : ℕ} {s s' : OpenSession}
    (h : (m.setSession sid s).sessions sid' = some s') :
    sid' = sid ∧ s' = s ∨ sid' ≠ sid ∧ m.sessions sid' = some s' := by
  by_cases hsid : sid' = sid
  · subst hsid
    exact Or.inl ⟨rfl, Option.some.inj (h.symm.trans (Function.update_self ..))⟩
  · exact Or.inr ⟨hsid, (Function.update_of_ne hsid ..).symm.trans h⟩

@[simp] theorem setSession_sessions_self (m : Machine) (sid : ℕ) (s : OpenSession) :
    (m.setSession sid s).sessions sid = some s := Function.update_self ..

theorem setSession_sessions_of_ne (m : Machine) {sid sid' : ℕ} (s : OpenSession) (h : sid' ≠ sid) :
    (m.setSession sid s).sessions sid' = m.sessions sid' := Function.update_of_ne h ..

/-- The moves of a task that change nothing it shares with the others. -/
inductive Move (m : Machine) : Pc → Act → Pc → Prop
  | refuseAtOnce {sid : ℕ} {tag : String} {ops : List NfsOp} {s : OpenSession} {err : Error}
      (hs : m.sessions sid = some s) (h : s.session.validateCompoundRequest tag ops = .error err) :
      Move m .idle (.start sid tag ops) (.refused sid err.notSent)
  | start {sid : ℕ} {tag : String} {ops : List NfsOp} {s : OpenSession}
      (hs : m.sessions sid = some s) : Move m .idle (.start sid tag ops) (.checking sid false)
  | load {sid : ℕ} {again : Bool} {s : OpenSession} (hs : m.sessions sid = some s) :
      Move m (.checking sid again) .advance (.loaded sid s.fatalSequenceFlags again)
  | refuse {sid : ℕ} {flags : UInt32} {again : Bool} {s : OpenSession} {err : Error}
      (hs : m.sessions sid = some s)
      (h : validateSequenceStatusFlags flags s.reclaimComplete = .error err) :
      Move m (.loaded sid flags again) .advance (.refused sid err.notSent)
  | pass {sid : ℕ} {flags : UInt32} {again : Bool} {s : OpenSession}
      (hs : m.sessions sid = some s)
      (h : validateSequenceStatusFlags flags s.reclaimComplete = .ok ()) :
      Move m (.loaded sid flags again) .advance (if again then .sending sid else .acquiring sid)
  | acquire {sid : ℕ} : Move m (.acquiring sid) .advance (.checking sid true)
  | notAcquired {sid : ℕ} {err : Error} :
      Move m (.acquiring sid) (.refuse err) (.refused sid err.notSent)
  | leave {sid : ℕ} {pc : Pc} (h : pc = .acquiring sid ∨ pc = .sending sid) : Move m pc .cancel .idle
  | send {sid : ℕ} : Move m (.sending sid) .advance (.awaiting sid)
  | notTaken {sid : ℕ} {err : Error} :
      Move m (.sending sid) (.refuse err) (.refused sid err.notSent)
  | reply {sid : ℕ} {statusFlags : UInt32} :
      Move m (.awaiting sid) (.reply statusFlags) (.replied sid statusFlags)
  | drop {sid : ℕ} : Move m (.awaiting sid) .cancel (.ended sid)
  | alarm {sid : ℕ} {statusFlags : UInt32} {s : OpenSession} {err : Error}
      (hs : m.sessions sid = some s)
      (h : validateSequenceStatusFlags statusFlags s.reclaimComplete = .error err) :
      Move m (.replied sid statusFlags) .advance (.latching sid statusFlags)
  | settle {sid : ℕ} {statusFlags : UInt32} {s : OpenSession} (hs : m.sessions sid = some s)
      (h : validateSequenceStatusFlags statusFlags s.reclaimComplete = .ok ()) :
      Move m (.replied sid statusFlags) .advance (.ended sid)

/-- What an action does to the machine. -/
inductive Does (m : Machine) : Action → Machine → Prop
  | connect {sid : ℕ} {session : NfsSession} (h : m.sessions sid = none) :
      Does m (.connect sid session) (m.setSession sid ⟨session, m.owner.verifier, 0, false⟩)
  | reclaim {sid : ℕ} {s : OpenSession} (hs : m.sessions sid = some s) :
      Does m (.reclaim sid) (m.setSession sid { s with reclaimComplete := true })
  | openOwner :
      Does m .openOwner { m with
        owner := m.owner.nextOpenOwner.2, names := m.names ++ [m.owner.nextOpenOwner.1] }
  | move {t : ℕ} {act : Act} {pc : Pc} (h : Move m (m.pc t) act pc) :
      Does m (.task t act) (m.goto t pc)
  | fetchOr {t sid : ℕ} {statusFlags : UInt32} {s : OpenSession}
      (hpc : m.pc t = .latching sid statusFlags) (hs : m.sessions sid = some s) :
      Does m (.task t .advance) ((m.fetchOr sid s statusFlags).goto t
        (if lostFlags statusFlags ≠ 0 ∧ lostFlags s.fatalSequenceFlags = 0 then .rotating sid
        else .ended sid))
  | rotate {t sid : ℕ} {fresh : UInt64} {s : OpenSession} (hpc : m.pc t = .rotating sid)
      (hs : m.sessions sid = some s) :
      Does m (.task t (.rotate fresh)) ((m.rotate s fresh).goto t (.ended sid))

theorem taskStep_does {pc : Pc} {act : Act} (hpc : m.pc t = pc)
    (h : m.taskStep t pc act = some m') : Does m (.task t act) m' := by
  have hmove : ∀ pc', Move m pc act pc' → Does m (.task t act) (m.goto t pc') := by
    intro pc' hmove
    exact .move (hpc ▸ hmove)
  rw [taskStep.eq_def] at h
  split at h
  case h_1 =>
    obtain ⟨s, hs, rfl⟩ := Option.map_eq_some_iff.mp h
    split
    · next err herr => exact hmove _ (.refuseAtOnce hs herr)
    · exact hmove _ (.start hs)
  case h_2 =>
    obtain ⟨s, hs, rfl⟩ := Option.map_eq_some_iff.mp h
    exact hmove _ (.load hs)
  case h_3 =>
    obtain ⟨s, hs, rfl⟩ := Option.map_eq_some_iff.mp h
    split
    · next err herr => exact hmove _ (.refuse hs herr)
    · next hok => exact hmove _ (.pass hs hok)
  case h_12 =>
    obtain ⟨s, hs, rfl⟩ := Option.map_eq_some_iff.mp h
    split
    · next err herr => exact hmove _ (.alarm hs herr)
    · next hok => exact hmove _ (.settle hs hok)
  case h_13 =>
    obtain ⟨s, hs, rfl⟩ := Option.map_eq_some_iff.mp h
    exact .fetchOr hpc hs
  case h_14 =>
    obtain ⟨s, hs, rfl⟩ := Option.map_eq_some_iff.mp h
    exact .rotate hpc hs
  all_goals cases h
  · exact hmove _ .acquire
  · exact hmove _ .notAcquired
  · exact hmove _ (.leave (Or.inl rfl))
  · exact hmove _ .send
  · exact hmove _ .notTaken
  · exact hmove _ (.leave (Or.inr rfl))
  · exact hmove _ .reply
  · exact hmove _ .drop

theorem step_does {a : Action} (h : m.step a = some m') : Does m a m' := by
  cases a with
  | connect sid session =>
    simp only [step] at h
    split at h
    · cases h
    · next hnone =>
      cases h
      exact .connect hnone
  | reclaim sid =>
    obtain ⟨s, hs, rfl⟩ := Option.map_eq_some_iff.mp h
    exact .reclaim hs
  | openOwner =>
    cases h
    exact .openOwner
  | task t act => exact taskStep_does rfl h

end Machine

end NfsCrust.Latch
