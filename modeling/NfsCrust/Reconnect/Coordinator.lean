import NfsCrust.Lib.Transition
import NfsCrust.Session

/-!
# Reconnecting

A task whose operation lost its session asks for a new one (`NfsClient::reconnect`),
naming the generation of the session that failed.  The tasks that ask for the same
generation share one attempt, which runs on its own (`run_reconnect`) and tells its
outcome to all of them.  A coordinator under a mutex knows about the attempt; the
session and its generation are under another lock.

Tasks and attempts take turns; a step is one access to what they share.  A task that
holds the mutex of the coordinator looks at the generation first and at the
coordinator afterwards, and an attempt may replace the session in between.

## Main definitions

* `ReconnectState`, `finishReconnectAttempt` — the coordinator.
* `Machine`, `Machine.step` — the tasks, the attempts and what they share.
-/

namespace NfsCrust.Reconnect

open Function (update)

/-! ### Outcomes -/

inductive ReconnectFailure
  | timeout (elapsed : Duration)
  | other (message : String)
  deriving DecidableEq, Repr

namespace ReconnectFailure

def fromError : Error → ReconnectFailure
  | .timeout elapsed => timeout elapsed
  | error => other ("NFS session reconnect failed: " ++ error.display)

def toError : ReconnectFailure → Error
  | timeout elapsed => .timeout elapsed
  | other message => .connectionLost message

end ReconnectFailure

abbrev ReconnectOutcome := Except ReconnectFailure Unit

/-! ### The coordinator -/

inductive ReconnectState
  | idle
  /-- An attempt for `generation` runs; `outcome` is the channel it will report to. -/
  | connecting (generation : UInt64) (outcome : ℕ)
  | failed (generation : UInt64) (retryAfter : Option ℕ) (error : ReconnectFailure)
  deriving DecidableEq, Repr

def sessionGenerationNeedsReconnect (currentGeneration failedGeneration : UInt64) : Bool :=
  currentGeneration == failedGeneration

def MIN_RECONNECT_FAILURE_BACKOFF : Duration := 250 * 10 ^ 6

def reconnectFailureBackoff (config : NfsConfig) : Duration :=
  max config.transientRetryDelay MIN_RECONNECT_FAILURE_BACKOFF

/-- `Instant::checked_add`, where `last` is the last instant there is. -/
def checkedAdd (last now : ℕ) (duration : Duration) : Option ℕ :=
  if now + duration ≤ last then some (now + duration) else none

def finishReconnectAttempt (state : ReconnectState) (failedGeneration : UInt64)
    (outcome : ReconnectOutcome) (retryAfter : Option ℕ) : ReconnectState :=
  match state with
  | .connecting generation _ =>
      if generation = failedGeneration then
        match outcome with
        | .ok () => .idle
        | .error error => .failed failedGeneration retryAfter error
      else state
  | _ => state

/-! ### Tasks and attempts -/

/-- Where a task stands in `reconnect`. -/
inductive Pc
  | idle
  /-- `reconnect.lock().await`. -/
  | locking (failedGeneration : UInt64)
  /-- Has the mutex; about to read the generation. -/
  | reading (failedGeneration : UInt64)
  /-- Has the mutex and has read its own generation; about to look at the coordinator. -/
  | deciding (failedGeneration : UInt64)
  /-- `await_reconnect_outcome`, on the channel of an attempt. -/
  | waiting (failedGeneration : UInt64) (outcome : ℕ)
  | returned (result : Except Error Unit)
  deriving DecidableEq, Repr

/-- Where an attempt stands in `run_reconnect`. -/
inductive Stage
  | connecting
  /-- Has a new session; about to look at the generation and to replace the old one. -/
  | replacing
  /-- `reconnect.lock().await`, then `finish_reconnect_attempt`. -/
  | finishing (outcome : ReconnectOutcome)
  /-- About to report to its channel. -/
  | sending (outcome : ReconnectOutcome)
  | sent (outcome : ReconnectOutcome)
  deriving DecidableEq, Repr

/-- The coordinator has not been told of the attempt's outcome. -/
def Stage.running : Stage → Bool
  | connecting | replacing | finishing _ => true
  | sending _ | sent _ => false

structure Attempt where
  failedGeneration : UInt64
  /-- How often the session had been replaced when the attempt was started. -/
  epoch : ℕ
  stage : Stage
  deriving DecidableEq, Repr

/-- The tasks, the attempts and what they share.  An attempt and the channel it
reports to have the same number. -/
structure Machine where
  config : NfsConfig
  lastInstant : ℕ
  generation : UInt64
  /-- The attempt the current session is from. -/
  session : Option ℕ
  /-- How often the session was replaced. -/
  epoch : ℕ
  /-- The task that holds the mutex of the coordinator. -/
  lock : Option ℕ
  state : ReconnectState
  attempts : ℕ → Option Attempt
  /-- How many attempts were started. -/
  spawned : ℕ
  pc : ℕ → Pc

namespace Machine

def new (config : NfsConfig) (lastInstant : ℕ) : Machine where
  config := config
  lastInstant := lastInstant
  generation := 0
  session := none
  epoch := 0
  lock := none
  state := .idle
  attempts _ := none
  spawned := 0
  pc _ := .idle

def goto (m : Machine) (t : ℕ) (pc : Pc) : Machine := { m with pc := update m.pc t pc }

def setAttempt (m : Machine) (id : ℕ) (a : Attempt) : Machine :=
  { m with attempts := update m.attempts id (some a) }

/-- `tokio::spawn` of a new attempt, which the coordinator knows from now on. -/
def spawn (m : Machine) (failedGeneration : UInt64) : Machine :=
  { m.setAttempt m.spawned ⟨failedGeneration, m.epoch, .connecting⟩ with
    state := .connecting failedGeneration m.spawned
    spawned := m.spawned + 1 }

/-- What the task with the mutex does about the coordinator. -/
inductive Decision
  | join (outcome : ℕ)
  | fail (error : ReconnectFailure)
  | spawn
  deriving DecidableEq, Repr

def decision (state : ReconnectState) (failedGeneration : UInt64) (now : ℕ) : Decision :=
  match state with
  | .connecting generation outcome => if generation = failedGeneration then .join outcome else .spawn
  | .failed generation retryAfter error =>
      if generation = failedGeneration ∧ retryAfter.all (now < ·) then .fail error else .spawn
  | .idle => .spawn

/-- The session is replaced if it is still the one that failed. -/
def replace (m : Machine) (id : ℕ) (failedGeneration : UInt64) : Machine :=
  if sessionGenerationNeedsReconnect m.generation failedGeneration then
    { m with session := some id, generation := m.generation + 1, epoch := m.epoch + 1 }
  else m

/-! ### Steps -/

/-- What can happen to a task. -/
inductive Act
  | start (failedGeneration : UInt64)
  /-- The task runs on; the clock shows `now`. -/
  | advance (now : ℕ)
  /-- The task is cancelled where it awaits. -/
  | cancel

def taskStep (m : Machine) (t : ℕ) : Pc → Act → Option Machine
  | .idle, .start g => some (m.goto t (.locking g))
  | .locking g, .advance _ =>
      if m.lock.isNone then some ({ m with lock := some t }.goto t (.reading g)) else none
  | .locking _, .cancel => some (m.goto t .idle)
  | .reading g, .advance _ =>
      if sessionGenerationNeedsReconnect m.generation g then some (m.goto t (.deciding g))
      else some ({ m with lock := none }.goto t (.returned (.ok ())))
  | .deciding g, .advance now =>
      match decision m.state g now with
      | .join outcome => some ({ m with lock := none }.goto t (.waiting g outcome))
      | .fail error =>
          some ({ m with lock := none }.goto t (.returned (.error error.toError)))
      | .spawn => some ({ m.spawn g with lock := none }.goto t (.waiting g m.spawned))
  | .waiting _ outcome, .advance _ =>
      match m.attempts outcome with
      | some ⟨_, _, .sent outcome⟩ =>
          some (m.goto t (.returned (outcome.mapError ReconnectFailure.toError)))
      | _ => none
  | .waiting .., .cancel => some (m.goto t .idle)
  | _, _ => none

/-- What can happen to an attempt. -/
inductive AttemptAct
  /-- `resolve_and_connect_session` returns. -/
  | connected (result : Except Error Unit)
  | advance (now : ℕ)

def attemptStep (m : Machine) (id : ℕ) (a : Attempt) : Stage → AttemptAct → Option Machine
  | .connecting, .connected (.ok ()) => some (m.setAttempt id { a with stage := .replacing })
  | .connecting, .connected (.error err) =>
      some (m.setAttempt id { a with stage := .finishing (.error (.fromError err)) })
  | .replacing, .advance _ => some ((m.replace id a.failedGeneration).setAttempt id
      { a with stage := .finishing (.ok ()) })
  | .finishing outcome, .advance now =>
      if m.lock.isNone then
        let retryAfter := checkedAdd m.lastInstant now (reconnectFailureBackoff m.config)
        some ({ m with state := finishReconnectAttempt m.state a.failedGeneration outcome
                                  retryAfter }.setAttempt id { a with stage := .sending outcome })
      else none
  | .sending outcome, .advance _ => some (m.setAttempt id { a with stage := .sent outcome })
  | _, _ => none

inductive Action
  | task (t : ℕ) (act : Act)
  | attempt (id : ℕ) (act : AttemptAct)

def step (m : Machine) : Action → Option Machine
  | .task t act => m.taskStep t (m.pc t) act
  | .attempt id act => (m.attempts id).bind fun a => m.attemptStep id a a.stage act

/-- The states of a client in any run. -/
def Reachable (config : NfsConfig) (lastInstant : ℕ) (m : Machine) : Prop :=
  Transition.Reaches step Transition.anyStep (new config lastInstant) m

/-! ### What a step does -/

variable {m m' : Machine} {t id : ℕ} {a : Attempt}

@[simp] theorem goto_pc_self (m : Machine) (t : ℕ) (pc : Pc) : (m.goto t pc).pc t = pc :=
  Function.update_self ..

theorem goto_pc_of_ne (m : Machine) {t u : ℕ} (pc : Pc) (h : u ≠ t) :
    (m.goto t pc).pc u = m.pc u := Function.update_of_ne h ..

@[simp] theorem setAttempt_attempts_self (m : Machine) (id : ℕ) (a : Attempt) :
    (m.setAttempt id a).attempts id = some a := Function.update_self ..

theorem setAttempt_attempts_of_ne (m : Machine) {id id' : ℕ} (a : Attempt) (h : id' ≠ id) :
    (m.setAttempt id a).attempts id' = m.attempts id' := Function.update_of_ne h ..

theorem setAttempt_eq_some {id' : ℕ} {a' : Attempt}
    (h : (m.setAttempt id a).attempts id' = some a') :
    id' = id ∧ a' = a ∨ id' ≠ id ∧ m.attempts id' = some a' := by
  by_cases hid : id' = id
  · subst hid
    exact Or.inl ⟨rfl, Option.some.inj (h.symm.trans (Function.update_self ..))⟩
  · exact Or.inr ⟨hid, (Function.update_of_ne hid ..).symm.trans h⟩

/-- What the steps of the machine do. -/
inductive Does (m : Machine) : Action → Machine → Prop
  | start {t : ℕ} {g : UInt64} (hpc : m.pc t = .idle) :
      Does m (.task t (.start g)) (m.goto t (.locking g))
  | lock {t now : ℕ} {g : UInt64} (hpc : m.pc t = .locking g) (hlock : m.lock = none) :
      Does m (.task t (.advance now)) ({ m with lock := some t }.goto t (.reading g))
  | leave {t : ℕ} (hpc : (∃ g, m.pc t = .locking g) ∨ ∃ g outcome, m.pc t = .waiting g outcome) :
      Does m (.task t .cancel) (m.goto t .idle)
  | read {t now : ℕ} {g : UInt64} (hpc : m.pc t = .reading g) (hg : m.generation = g) :
      Does m (.task t (.advance now)) (m.goto t (.deciding g))
  | skip {t now : ℕ} {g : UInt64} (hpc : m.pc t = .reading g) (hg : m.generation ≠ g) :
      Does m (.task t (.advance now)) ({ m with lock := none }.goto t (.returned (.ok ())))
  | join {t now : ℕ} {g : UInt64} {outcome : ℕ} (hpc : m.pc t = .deciding g)
      (hstate : m.state = .connecting g outcome) :
      Does m (.task t (.advance now)) ({ m with lock := none }.goto t (.waiting g outcome))
  | fail {t now : ℕ} {g : UInt64} {error : ReconnectFailure} (hpc : m.pc t = .deciding g) :
      Does m (.task t (.advance now))
        ({ m with lock := none }.goto t (.returned (.error error.toError)))
  | spawn {t now : ℕ} {g : UInt64} (hpc : m.pc t = .deciding g)
      (hstate : ∀ outcome, m.state ≠ .connecting g outcome) :
      Does m (.task t (.advance now)) ({ m.spawn g with lock := none }.goto t (.waiting g m.spawned))
  | receive {t now outcome : ℕ} {g : UInt64} {a : Attempt} {r : ReconnectOutcome}
      (hpc : m.pc t = .waiting g outcome) (ha : m.attempts outcome = some a)
      (hsent : a.stage = .sent r) :
      Does m (.task t (.advance now))
        (m.goto t (.returned (r.mapError ReconnectFailure.toError)))
  | connected {id : ℕ} {a : Attempt} (ha : m.attempts id = some a) (hstage : a.stage = .connecting) :
      Does m (.attempt id (.connected (.ok ()))) (m.setAttempt id { a with stage := .replacing })
  | notConnected {id : ℕ} {a : Attempt} {err : Error} (ha : m.attempts id = some a)
      (hstage : a.stage = .connecting) :
      Does m (.attempt id (.connected (.error err)))
        (m.setAttempt id { a with stage := .finishing (.error (.fromError err)) })
  | replace {id now : ℕ} {a : Attempt} (ha : m.attempts id = some a)
      (hstage : a.stage = .replacing) :
      Does m (.attempt id (.advance now))
        ((m.replace id a.failedGeneration).setAttempt id { a with stage := .finishing (.ok ()) })
  | finish {id now : ℕ} {a : Attempt} {r : ReconnectOutcome} (ha : m.attempts id = some a)
      (hstage : a.stage = .finishing r) (hlock : m.lock = none) :
      Does m (.attempt id (.advance now))
        ({ m with state := finishReconnectAttempt m.state a.failedGeneration r
                    (checkedAdd m.lastInstant now (reconnectFailureBackoff m.config)) }.setAttempt id
          { a with stage := .sending r })
  | send {id now : ℕ} {a : Attempt} {r : ReconnectOutcome} (ha : m.attempts id = some a)
      (hstage : a.stage = .sending r) :
      Does m (.attempt id (.advance now)) (m.setAttempt id { a with stage := .sent r })

theorem decision_join {state : ReconnectState} {g : UInt64} {now outcome : ℕ}
    (h : decision state g now = .join outcome) : state = .connecting g outcome := by
  unfold decision at h
  split at h
  · split at h
    · next hg =>
      cases h
      rw [hg]
    · cases h
  · split at h <;> cases h
  · cases h

theorem decision_spawn {state : ReconnectState} {g : UInt64} {now : ℕ}
    (h : decision state g now = .spawn) (outcome : ℕ) : state ≠ .connecting g outcome := by
  rintro rfl
  simp [decision] at h

theorem taskStep_does {pc : Pc} {act : Act} (hpc : m.pc t = pc)
    (h : m.taskStep t pc act = some m') : Does m (.task t act) m' := by
  rw [taskStep.eq_def] at h
  split at h
  · cases h
    exact .start hpc
  · split at h
    · next hlock =>
      cases h
      exact .lock hpc (Option.isNone_iff_eq_none.mp hlock)
    · cases h
  · cases h
    exact .leave (Or.inl ⟨_, hpc⟩)
  · split at h
    · next hg =>
      cases h
      exact .read hpc (beq_iff_eq.mp hg)
    · next hg =>
      cases h
      exact .skip hpc fun heq => hg (beq_iff_eq.mpr heq)
  · split at h
    · next hdecision =>
      cases h
      exact .join hpc (decision_join hdecision)
    · cases h
      exact .fail hpc
    · next hdecision =>
      cases h
      exact .spawn hpc (decision_spawn hdecision)
  · split at h
    · next hattempt =>
      cases h
      exact .receive hpc hattempt rfl
    · cases h
  · cases h
    exact .leave (Or.inr ⟨_, _, hpc⟩)
  · cases h

theorem attemptStep_does {stage : Stage} {act : AttemptAct} (ha : m.attempts id = some a)
    (hstage : a.stage = stage) (h : m.attemptStep id a stage act = some m') :
    Does m (.attempt id act) m' := by
  rw [attemptStep.eq_def] at h
  split at h
  · cases h
    exact .connected ha hstage
  · cases h
    exact .notConnected ha hstage
  · cases h
    exact .replace ha hstage
  · split at h
    · next hlock =>
      cases h
      exact .finish ha hstage (Option.isNone_iff_eq_none.mp hlock)
    · cases h
  · cases h
    exact .send ha hstage
  · cases h

theorem step_does {action : Action} (h : m.step action = some m') : Does m action m' := by
  cases action with
  | task t act => exact taskStep_does rfl h
  | attempt id act =>
    obtain ⟨a, ha, hstep⟩ := Option.bind_eq_some_iff.mp h
    exact attemptStep_does ha rfl hstep

end Machine

end NfsCrust.Reconnect
