import NfsCrust.Exchange

/-!
# The client around its operations

What every public operation of `src/client.rs` goes through: the session it works
on, and one more attempt on a rebuilt session when the first one failed because its
session is gone.

## Main definitions

* `NfsClient` — the part of the client's configuration its operations read.
* `retryingSessionOperation` — the attempts of one operation.
* `operationPipelineDepth` — how many compounds one operation keeps in flight.
-/

namespace NfsCrust

open Interaction

structure NfsClient where
  maxBufferedReadSize : Option ℕ
  deriving DecidableEq, Repr

def MAX_OPERATION_PIPELINE_DEPTH : ℕ := 16

def RECONNECT_RETRIES : ℕ := 1

def operationPipelineDepthForSlots (slotCount : ℕ) : ℕ :=
  max 1 (min slotCount MAX_OPERATION_PIPELINE_DEPTH)

def operationPipelineDepth (s : NfsSession) : Thread effects ℕ := do
  return operationPipelineDepthForSlots (← perform (.sessionSlotCount s))

theorem operationPipelineDepthForSlots_pos (n : ℕ) : 0 < operationPipelineDepthForSlots n :=
  Nat.lt_of_lt_of_le Nat.one_pos (Nat.le_max_left _ _)

/-! ### Reconnecting -/

def shouldReconnect (err : Error) (attempts : ℕ) : Bool :=
  err.requiresSessionRebuild && attempts < RECONNECT_RETRIES

/-- Reconnect until it succeeds or the attempts are used up.  Returns the attempts
made so far. -/
def retryReconnectAttempts (maxAttempts : ℕ) (generation : UInt64) (cause : Error)
    (attempts : ℕ) : ClientM ℕ :=
  Prog.loopExcept (fun attempts => do
    let attempts := attempts + 1
    match ← perform (.reconnect generation attempts cause) with
    | .ok () => return .inr attempts
    | .error err => if attempts < maxAttempts then return .inl attempts else throw err) attempts

/-- Run an operation on the current session, and once more on a rebuilt one when
its error asks for that. -/
def retryingSessionOperation {α : Type} (operation : ClientSession → ClientM α) : ClientM α :=
  Prog.loopExcept (fun attempts => do
    let snapshot ← perform .currentSession
    match ← Prog.attempt (operation snapshot) with
    | .ok result => return .inr result
    | .error err =>
      if shouldReconnect err attempts then
        return .inl (← retryReconnectAttempts RECONNECT_RETRIES snapshot.generation err attempts)
      else throw err) 0

end NfsCrust
