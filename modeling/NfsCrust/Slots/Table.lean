import NfsCrust.Codec
import NfsCrust.Lib.Transition

/-!
# The slot table

The slots of a session (`src/nfs4/slots.rs`) and the calls that use them
(`compound_raw_once` in `src/nfs4/session.rs`), as one machine in which any
number of tasks take turns.  A step is one access to what the tasks share: a
`try_lock`, a store to an `active` flag, an unlock, a permit taken or given back,
a request handed to the transport.  The parts of a guard's drop are separate
steps, in the order in which Rust drops its fields.

A call can be cancelled wherever it awaits, and the transport can fail it or
answer it with any bytes.  Requests given to the transport are queued and
reach the wire in that order.

## Main definitions

* `Machine` — the table, the tasks, and the transport.
* `Pc` — where a task stands in `compound_raw_once`.
* `Machine.step` — what each action does.
-/

namespace NfsCrust.Slots

open Function (update)

/-! ### Shared state -/

structure SlotState where
  sequenceid : UInt32
  usable : Bool
  deriving DecidableEq, Repr

/-- A held slot: `SlotGuard` with its `SlotRelease`.  The point a task has reached
says whether its request is outstanding, so tasks carry a guard only while they
drop it. -/
structure SlotGuard where
  slot : ℕ
  requestOutstanding : Bool
  retirePermit : Bool := false
  deriving DecidableEq, Repr

/-- A request given to the transport.  `id` counts the requests, so that each has
its own. -/
structure Request where
  id : ℕ
  slot : ℕ
  sequenceid : UInt32
  highestSlotid : UInt32
  deriving DecidableEq, Repr

def packSlotLimits (enforcedHighestSlotid targetHighestSlotid : ℕ) : UInt64 :=
  (UInt64.ofNat enforcedHighestSlotid <<< 32) ||| UInt64.ofNat targetHighestSlotid

/-- What remains of the drop of a guard.  `retire` is `SlotGuard::drop`; the other
stages drop its fields in order. -/
inductive DropStage
  | retire
  | unlock
  | clear
  | notify
  | release
  deriving DecidableEq, Repr

/-- Where a task stands in `compound_raw_once`. -/
inductive Pc
  /-- Not in a call. -/
  | idle
  /-- `available.acquire().await`. -/
  | acquiring
  /-- Has a permit; `changed` is not enabled yet. -/
  | enabling
  /-- About to read the range of the scan. -/
  | ranging
  /-- About to `try_lock` slot `index`. -/
  | scanning (index last : ℕ) (eligibleSlotLocked : Bool)
  /-- Locked slot `index`, about to look at `usable`. -/
  | inspecting (index last : ℕ) (eligibleSlotLocked : Bool)
  /-- About to release the lock of the unusable slot `index`. -/
  | rejecting (index last : ℕ) (eligibleSlotLocked : Bool)
  /-- About to set the `active` flag of the locked slot `index`. -/
  | activating (index : ℕ)
  /-- Found no slot; about to drop the permit. -/
  | scanned (eligibleSlotLocked : Bool)
  /-- `changed.await` in `acquire`. -/
  | parked
  /-- Past `acquire`; at the head of the loop of `request_highest_slotid`. -/
  | holding (slot : ℕ)
  /-- In that loop, `changed` enabled. -/
  | checking (slot : ℕ)
  /-- `changed.await` in `request_highest_slotid`. -/
  | parkedHolding (slot : ℕ)
  /-- Past `acquire_for_request`. -/
  | ready (slot : ℕ) (highestSlotid : UInt32)
  /-- The request is marked outstanding and not handed over yet. -/
  | armed (slot : ℕ) (highestSlotid : UInt32)
  /-- The request is with the transport. -/
  | awaiting (slot id : ℕ)
  /-- A matching `SEQUENCE` result was decoded. -/
  | settling (slot : ℕ) (result : SequenceResult)
  /-- The limits are stored; about to notify, to advance and to disarm. -/
  | announcing (slot : ℕ)
  /-- Dropping the guard, then acquiring `again` or leaving the call. -/
  | dropping (guard : SlotGuard) (stage : DropStage) (again : Bool)
  deriving DecidableEq, Repr

/-- The table, the tasks and the transport. -/
structure Machine where
  /-- `slots.len()`. -/
  slotCount : ℕ
  slots : ℕ → SlotState
  /-- The task that holds the mutex of a slot. -/
  owner : ℕ → Option ℕ
  active : ℕ → Bool
  permits : ℕ
  closed : Bool
  liveSlots : ℕ
  slotLimits : UInt64
  pc : ℕ → Pc
  /-- Whether the notification a task enabled last has fired. -/
  notified : ℕ → Bool
  /-- Requests the writer has not written yet, oldest first. -/
  queue : List Request
  /-- Requests on the wire, oldest first. -/
  wire : List Request
  /-- The requests a matching `SEQUENCE` result was decoded for. -/
  validated : ℕ → Bool

namespace Machine

def new (slotCount : UInt32) : Machine :=
  let n := max slotCount.toNat 1
  { slotCount := n
    slots := fun _ => ⟨1, true⟩
    owner := fun _ => none
    active := fun _ => false
    permits := n
    closed := false
    liveSlots := n
    slotLimits := packSlotLimits (n - 1) (n - 1)
    pc := fun _ => .idle
    notified := fun _ => false
    queue := []
    wire := []
    validated := fun _ => false }

/-! ### Operations of the table -/

def enforcedHighestSlotid (m : Machine) : ℕ := (m.slotLimits >>> 32).toNat

def targetHighestSlotid (m : Machine) : ℕ := m.slotLimits.toUInt32.toNat

/-- `rposition` of the last active slot, or zero. -/
def activeHighestSlotid (m : Machine) : ℕ :=
  ((List.range m.slotCount).reverse.find? m.active).getD 0

/-- What one round of `request_highest_slotid` ends in. -/
inductive HighestSlotid
  | none
  | some (highestSlotid : ℕ)
  | wait
  deriving DecidableEq, Repr

def requestHighestSlotid (m : Machine) (acquiredSlotid : ℕ) : HighestSlotid :=
  if acquiredSlotid > m.targetHighestSlotid ∨ acquiredSlotid > m.enforcedHighestSlotid then .none
  else if m.activeHighestSlotid ≤ m.enforcedHighestSlotid then
    .some (max m.activeHighestSlotid m.targetHighestSlotid)
  else .wait

/-- The limits `update_limits` stores. -/
def updatedLimits (m : Machine) (highestSlotid targetHighestSlotid : UInt32) : UInt64 :=
  let localHighest := m.slotCount - 1
  let enforced := min highestSlotid.toNat localHighest
  let target := min (min targetHighestSlotid.toNat enforced) localHighest
  packSlotLimits enforced target

def goto (m : Machine) (t : ℕ) (pc : Pc) : Machine := { m with pc := update m.pc t pc }

@[simp] theorem goto_pc_self (m : Machine) (t : ℕ) (pc : Pc) : (m.goto t pc).pc t = pc :=
  Function.update_self ..

theorem goto_pc_of_ne (m : Machine) {t u : ℕ} (pc : Pc) (h : u ≠ t) :
    (m.goto t pc).pc u = m.pc u := Function.update_of_ne h ..

/-- `notify_waiters`: every enabled notification fires. -/
def notifyWaiters (m : Machine) : Machine := { m with notified := fun _ => true }

/-- `SlotGuard::drop`: a guard whose request is outstanding retires its slot, and
the last one closes the semaphore. -/
def retire (m : Machine) (g : SlotGuard) : Machine × SlotGuard :=
  if g.requestOutstanding ∧ (m.slots g.slot).usable then
    ({ m with
        slots := update m.slots g.slot { m.slots g.slot with usable := false }
        liveSlots := m.liveSlots - 1
        closed := m.closed || m.liveSlots == 1 },
      { g with retirePermit := true })
  else (m, g)

/-- `slot.advance_sequence()`. -/
def advanceSequence (m : Machine) (slot : ℕ) : Machine :=
  { m with
    slots := update m.slots slot { m.slots slot with sequenceid := (m.slots slot).sequenceid + 1 } }

/-- The request is sent to the writer's queue. -/
def handOver (m : Machine) (slot : ℕ) (highestSlotid : UInt32) : Machine :=
  { m with
    queue := m.queue
      ++ [⟨(m.wire ++ m.queue).length, slot, (m.slots slot).sequenceid, highestSlotid⟩] }

/-! ### Steps -/

/-- What can happen to a task. -/
inductive Act
  /-- A call begins, past its first checks. -/
  | start
  /-- The task runs on. -/
  | advance
  /-- The call is cancelled where it awaits, times out or loses its connection. -/
  | cancel
  /-- The request is not sent: the session is no longer usable, or the transport
  does not take it. -/
  | refuse
  /-- The transport delivers a response. -/
  | reply (response : Bytes)

/-- The next step of task `t`, which stands at the given point. -/
def taskStep (sessionid : Vector UInt8 16) (m : Machine) (t : ℕ) : Pc → Act → Option Machine
  | .idle, .start => some (m.goto t .acquiring)
  | .acquiring, .advance =>
      if m.closed then some (m.goto t .idle)
      else if 0 < m.permits then some ({ m with permits := m.permits - 1 }.goto t .enabling)
      else none
  | .acquiring, .cancel => some (m.goto t .idle)
  | .enabling, .advance => some ({ m with notified := update m.notified t false }.goto t .ranging)
  | .ranging, .advance => some (m.goto t (.scanning 0 m.targetHighestSlotid false))
  | .scanning index last locked, .advance =>
      if last < index then some (m.goto t (.scanned locked))
      else if (m.owner index).isNone then
        some ({ m with owner := update m.owner index (some t) }.goto t
          (.inspecting index last locked))
      else some (m.goto t (.scanning (index + 1) last true))
  | .inspecting index last locked, .advance =>
      if (m.slots index).usable then some (m.goto t (.activating index))
      else some (m.goto t (.rejecting index last locked))
  | .rejecting index last locked, .advance =>
      some ({ m with owner := update m.owner index none }.goto t
        (.scanning (index + 1) last locked))
  | .activating index, .advance =>
      some ({ m with active := update m.active index true }.goto t (.holding index))
  | .scanned locked, .advance =>
      some ({ m with permits := m.permits + 1 }.goto t (if locked then .parked else .idle))
  | .parked, .advance => if m.notified t then some (m.goto t .acquiring) else none
  | .parked, .cancel => some (m.goto t .idle)
  | .holding slot, .advance =>
      some ({ m with notified := update m.notified t false }.goto t (.checking slot))
  | .checking slot, .advance => some (m.goto t (match m.requestHighestSlotid slot with
      | .none => .dropping ⟨slot, false, false⟩ .retire true
      | .some highest => .ready slot (.ofNat highest)
      | .wait => .parkedHolding slot))
  | .parkedHolding slot, .advance => if m.notified t then some (m.goto t (.holding slot)) else none
  | .parkedHolding slot, .cancel => some (m.goto t (.dropping ⟨slot, false, false⟩ .retire false))
  | .ready slot highest, .advance => some (m.goto t (.armed slot highest))
  | .ready slot _, .refuse => some (m.goto t (.dropping ⟨slot, false, false⟩ .retire false))
  | .armed slot highest, .advance =>
      some ((m.handOver slot highest).goto t (.awaiting slot (m.wire ++ m.queue).length))
  | .armed slot _, .refuse => some (m.goto t (.dropping ⟨slot, false, false⟩ .retire false))
  | .armed slot _, .cancel => some (m.goto t (.dropping ⟨slot, true, false⟩ .retire false))
  | .awaiting slot id, .reply response =>
      match decodeSequenceResult response sessionid (m.slots slot).sequenceid (.ofNat slot) with
      | .ok result =>
          some ({ m with validated := update m.validated id true }.goto t (.settling slot result))
      | .error _ => some (m.goto t (.dropping ⟨slot, true, false⟩ .retire false))
  | .awaiting slot _, .cancel => some (m.goto t (.dropping ⟨slot, true, false⟩ .retire false))
  | .settling slot result, .advance =>
      some ({ m with slotLimits := m.updatedLimits result.highestSlotid result.targetHighestSlotid
        }.goto t (.announcing slot))
  | .announcing slot, .advance =>
      some ((m.notifyWaiters.advanceSequence slot).goto t
        (.dropping ⟨slot, false, false⟩ .retire false))
  | .dropping g .retire again, .advance =>
      some ((m.retire g).1.goto t (.dropping (m.retire g).2 .unlock again))
  | .dropping g .unlock again, .advance =>
      some ({ m with owner := update m.owner g.slot none }.goto t (.dropping g .clear again))
  | .dropping g .clear again, .advance =>
      some ({ m with active := update m.active g.slot false }.goto t (.dropping g .notify again))
  | .dropping g .notify again, .advance =>
      some (m.notifyWaiters.goto t (.dropping g .release again))
  | .dropping g .release again, .advance =>
      some ({ m with permits := if g.retirePermit then m.permits else m.permits + 1 }.goto t
        (if again then .acquiring else .idle))
  | _, _ => none

/-- The writer puts the oldest queued request on the wire. -/
def write (m : Machine) : Option Machine :=
  match m.queue with
  | [] => none
  | request :: queue => some { m with queue, wire := m.wire ++ [request] }

inductive Action
  | task (t : ℕ) (act : Act)
  | write

def step (sessionid : Vector UInt8 16) (m : Machine) : Action → Option Machine
  | .task t act => m.taskStep sessionid t (m.pc t) act
  | .write => m.write

/-- The states of a session's slots in any run. -/
def Reachable (sessionid : Vector UInt8 16) (slotCount : UInt32) (m : Machine) : Prop :=
  Transition.Reaches (step sessionid) Transition.anyStep (new slotCount) m

end Machine

end NfsCrust.Slots
