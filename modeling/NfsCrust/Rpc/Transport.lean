import NfsCrust.Lib.Transition
import NfsCrust.Xdr

/-!
# RPC calls on one connection

The calls on a connection (`RpcClient::call_with_timeout` in `src/rpc.rs`), the
reader that takes replies from it and the writer that puts requests on it.  They
share the map of pending calls, the queue of requests and the flag that says the
transport is closed; a step is one access to one of them.

A call registers under a transaction id (an XID) before its request is queued, and
its registration lasts as long as its future.  The reader takes the sender of the
call whose XID a reply carries and leaves the entry; when the reader or the writer
fails, it closes the transport and then fails every call it finds in the map.

## Main definitions

* `decodeReply`, `peekXid` — what the reader makes of a record.
* `Machine`, `Machine.step` — the calls, the reader and the writer.
-/

namespace NfsCrust.Rpc

open BigEndian
open Function (update)

/-! ### Replies -/

def REPLY : UInt32 := 1
def MSG_ACCEPTED : UInt32 := 0
def MSG_DENIED : UInt32 := 1
def SUCCESS : UInt32 := 0

def readU32Triple : XdrM (UInt32 × UInt32 × UInt32) := do
  require 12
  let first ← readU32AfterRequire
  let second ← readU32AfterRequire
  let third ← readU32AfterRequire
  return (first, second, third)

/-- What follows an accepted reply's header. -/
def decodeAcceptStat : XdrM Bytes := do
  let (_, acceptStat) ← readU32SkipOpaqueAndReadU32
  if acceptStat = SUCCESS then get
  else if acceptStat = 1 then throw (.rpc "RPC program unavailable")
  else if acceptStat = 2 then do
    let (low, high) ← readU32Pair
    throw (.rpc s!"RPC program version mismatch: server supports {low}..={high}")
  else if acceptStat = 3 then throw (.rpc "RPC procedure unavailable")
  else if acceptStat = 4 then throw (.rpc "RPC server could not decode arguments")
  else if acceptStat = 5 then throw (.rpc "RPC system error")
  else throw (.rpc s!"unknown RPC accept status {acceptStat}")

def decodeReplyFrom (expectedXid : UInt32) : XdrM Bytes := do
  let (xid, messageType, replyStat) ← readU32Triple
  if xid ≠ expectedXid then
    throw (.rpc s!"RPC xid mismatch: expected {expectedXid}, got {xid}")
  else if messageType ≠ REPLY then
    throw (.rpc s!"expected RPC reply message, got type {messageType}")
  else if replyStat = MSG_ACCEPTED then decodeAcceptStat
  else if replyStat = MSG_DENIED then throw (.rpc "RPC call was denied by server")
  else throw (.rpc s!"unknown RPC reply status {replyStat}")

def decodeReply (expectedXid : UInt32) (response : Bytes) : Except Error Bytes :=
  (·.1) <$> (decodeReplyFrom expectedXid).run response

def peekXid (response : Bytes) : Except Error UInt32 :=
  match takeWord32 response with
  | some (xid, _) => .ok xid
  | none => .error (.rpc "short RPC reply without xid")

/-! ### Errors -/

def rpcTransportStoppedError : Error := .connectionLost "RPC transport is closed"

def rpcRequestNotSentError : Error := rpcTransportStoppedError.notSent

def readerStoppedError : Error := .rpc "RPC reader task stopped before reply arrived"

/-! ### Calls -/

/-- Where a call stands in `call_with_timeout`. -/
inductive Pc
  | idle
  /-- About to check `transport_closed` for the first time. -/
  | starting
  /-- About to draw an XID. -/
  | drawing
  /-- Drew zero; about to draw again. -/
  | redrawing
  /-- About to insert its entry. -/
  | inserting (xid : UInt32)
  /-- Registered; about to check `transport_closed` again. -/
  | registered (xid : UInt32)
  /-- `request_tx.send(request).await`. -/
  | sending (xid : UInt32)
  /-- The request is queued; about to check `transport_closed` once more. -/
  | queued (xid : UInt32)
  /-- `rx.await`. -/
  | awaiting (xid : UInt32)
  /-- About to drop its registration; `none` when it was cancelled. -/
  | dropping (xid : UInt32) (result : Option (Except Error Bytes))
  | finished (result : Option (Except Error Bytes))

/-- The XID of a call's registration. -/
def Pc.xid? : Pc → Option UInt32
  | registered xid | sending xid | queued xid | awaiting xid | dropping xid _ => some xid
  | idle | starting | drawing | redrawing | inserting _ | finished _ => none

/-- The call's future exists. -/
def Pc.alive : Pc → Bool
  | idle | finished _ => false
  | starting | drawing | redrawing | inserting _ | registered _ | sending _ | queued _
  | awaiting _ | dropping .. => true

structure RpcRequest where
  call : ℕ
  xid : UInt32
  deriving DecidableEq, Repr

/-- An entry of the map of pending calls.  `tx` is the call whose sender it holds. -/
structure PendingCall where
  xid : UInt32
  tx : Option ℕ
  deriving DecidableEq, Repr

/-! ### The reader and the writer -/

/-- Where the reader stands. -/
inductive Reader
  /-- `read_record`. -/
  | reading
  /-- Has record number `record`; about to look for the call. -/
  | taking (record : ℕ) (xid : UInt32) (response : Bytes)
  /-- Took the sender of `call`. -/
  | holding (record : ℕ) (xid : UInt32) (response : Bytes) (call : ℕ)
  /-- About to store `transport_closed`. -/
  | closing (err : Error)
  /-- About to fail all pending calls. -/
  | failing (err : Error)
  /-- Left the loop; about to store `transport_closed` again. -/
  | leaving
  | stopped

/-- Where the writer stands. -/
inductive Writer
  /-- `requests.recv().await`. -/
  | receiving
  | writing (batch : List RpcRequest)
  | closing (err : Error)
  | failing (err : Error)
  | stopped

def MAX_WRITE_BATCH_RECORDS : ℕ := 32

/-- The connection.  The fields from `begun` on record what happened. -/
structure Machine where
  /-- The value of the counter at first. -/
  stamp : UInt32
  xid : UInt32
  capacity : ℕ
  pending : List PendingCall
  transportClosed : Bool
  queue : List RpcRequest
  wire : List RpcRequest
  reader : Reader
  writer : Writer
  /-- What the channel of a call holds. -/
  mailbox : ℕ → Option (Except Error Bytes)
  pc : ℕ → Pc
  /-- The calls that began. -/
  begun : List ℕ
  /-- The calls that drew an XID. -/
  first : List ℕ
  /-- How often an XID was drawn in the place of zero, how often zero was drawn, and
  how often anything was. -/
  redrawn : ℕ
  zeros : ℕ
  draws : ℕ
  /-- The number of the draw in which a call got its XID. -/
  draw : ℕ → ℕ
  /-- The XID in the request of a call. -/
  carried : ℕ → Option UInt32
  /-- The requests that entered the queue of the writer. -/
  entered : List RpcRequest
  /-- The records that were read. -/
  records : List Bytes
  /-- The records that were given to a call: their number, their XID and the call. -/
  delivered : List (ℕ × UInt32 × ℕ)
  /-- `fail_all` has run. -/
  failed : Bool

namespace Machine

def new (stamp : UInt32) (pendingCapacity : ℕ) : Machine where
  stamp := stamp
  xid := stamp
  capacity := max pendingCapacity 1 * 2
  pending := []
  transportClosed := false
  queue := []
  wire := []
  reader := .reading
  writer := .receiving
  mailbox _ := none
  pc _ := .idle
  begun := []
  first := []
  redrawn := 0
  zeros := 0
  draws := 0
  draw _ := 0
  carried _ := none
  entered := []
  records := []
  delivered := []
  failed := false

def goto (m : Machine) (c : ℕ) (pc : Pc) : Machine := { m with pc := update m.pc c pc }

def contains (m : Machine) (xid : UInt32) : Bool := m.pending.any (·.xid == xid)

/-- The sender in the entry of an XID. -/
def sender? (m : Machine) (xid : UInt32) : Option ℕ :=
  (m.pending.find? (·.xid == xid)).bind PendingCall.tx

/-- The entry of call `c`, and the XID its request will carry. -/
def insert (m : Machine) (c : ℕ) (xid : UInt32) : Machine :=
  { m with
    pending := ⟨xid, some c⟩ :: m.pending
    carried := update m.carried c (some xid) }

def enqueue (m : Machine) (request : RpcRequest) : Machine :=
  { m with queue := m.queue ++ [request], entered := request :: m.entered }

/-- `HashMap::remove`. -/
def remove (m : Machine) (xid : UInt32) : Machine :=
  { m with pending := m.pending.filter (·.xid != xid) }

/-- The reader takes the sender of an entry. -/
def take (m : Machine) (xid : UInt32) : Machine :=
  { m with pending := m.pending.map fun p => if p.xid = xid then { p with tx := none } else p }

/-- `fail_all`. -/
def failAll (m : Machine) (err : Error) : Machine :=
  { m with
    pending := []
    mailbox := fun c =>
      if m.pending.any (·.tx == some c) then some (.error (.connectionLost err.display))
      else m.mailbox c
    failed := true }

/-- The sender of a call exists. -/
def senderAlive (m : Machine) (c : ℕ) : Bool :=
  m.pending.any (·.tx == some c) ||
    match m.reader with
    | .holding _ _ _ call => call == c
    | _ => false

/-- `fetch_add`, for call `c`. -/
def fetchAdd (m : Machine) (c : ℕ) : Machine :=
  { m with xid := m.xid + 1, draws := m.draws + 1, draw := update m.draw c (m.draws + 1) }

/-! ### Steps -/

/-- What can happen to a call. -/
inductive Act
  | start
  | advance
  /-- The future is dropped where it awaits. -/
  | cancel
  /-- The timeout fires. -/
  | timeout (elapsed : Duration)

/-- The next step of call `c`, which stands at the given point. -/
def callStep (m : Machine) (c : ℕ) : Pc → Act → Option Machine
  | .idle, .start => some ({ m with begun := c :: m.begun }.goto c .starting)
  | .starting, .advance =>
      if m.transportClosed then some (m.goto c (.finished (some (.error rpcRequestNotSentError))))
      else some (m.goto c .drawing)
  | .drawing, .advance =>
      let m' := { m.fetchAdd c with first := c :: m.first }
      if m.xid + 1 = 0 then some ({ m' with zeros := m.zeros + 1 }.goto c .redrawing)
      else some (m'.goto c (.inserting (m.xid + 1)))
  | .redrawing, .advance =>
      some ({ m.fetchAdd c with redrawn := m.redrawn + 1 }.goto c (.inserting (m.xid + 1)))
  | .inserting xid, .advance =>
      if m.contains xid then some (m.goto c .drawing)
      else some ((m.insert c xid).goto c (.registered xid))
  | .registered xid, .advance =>
      if m.transportClosed then
        some (m.goto c (.dropping xid (some (.error rpcRequestNotSentError))))
      else some (m.goto c (.sending xid))
  | .sending xid, .advance =>
      match m.writer with
      | .stopped => some (m.goto c (.dropping xid (some (.error rpcRequestNotSentError))))
      | _ =>
          if m.queue.length < m.capacity then
            some ((m.enqueue ⟨c, xid⟩).goto c (.queued xid))
          else none
  | .sending xid, .cancel => some (m.goto c (.dropping xid none))
  | .queued xid, .advance =>
      if m.transportClosed then
        some (m.goto c (.dropping xid (some (.error rpcTransportStoppedError))))
      else some (m.goto c (.awaiting xid))
  | .awaiting xid, .advance =>
      match m.mailbox c with
      | some result => some (m.goto c (.dropping xid (some result)))
      | none =>
          if m.senderAlive c then none
          else some (m.goto c (.dropping xid (some (.error readerStoppedError))))
  | .awaiting xid, .timeout elapsed =>
      some (m.goto c (.dropping xid (some (.error (.timeout elapsed)))))
  | .awaiting xid, .cancel => some (m.goto c (.dropping xid none))
  | .dropping xid result, .advance => some ((m.remove xid).goto c (.finished result))
  | _, _ => none

/-- What can happen to the reader. -/
inductive ReaderAct
  | record (response : Bytes)
  | error (err : Error)
  | advance

def readerStep (m : Machine) : Reader → ReaderAct → Option Machine
  | .reading, .record response =>
      let m' := { m with records := m.records ++ [response] }
      match peekXid response with
      | .ok xid => some { m' with reader := .taking m.records.length xid response }
      | .error err => some { m' with reader := .closing err }
  | .reading, .error err => some { m with reader := .closing err }
  | .taking record xid response, .advance =>
      match m.sender? xid with
      | some call => some { m.take xid with reader := .holding record xid response call }
      | none => some { m with reader := .reading }
  | .holding record xid response call, .advance =>
      some { m with
        reader := .reading
        mailbox := update m.mailbox call (some (decodeReply xid response))
        delivered := (record, xid, call) :: m.delivered }
  | .closing err, .advance => some { m with transportClosed := true, reader := .failing err }
  | .failing err, .advance => some { m.failAll err with reader := .leaving }
  | .leaving, .advance => some { m with transportClosed := true, reader := .stopped }
  | _, _ => none

/-- What can happen to the writer. -/
inductive WriterAct
  /-- Receives a request, and those that are there already. -/
  | receive (count : ℕ)
  | written
  | error (err : Error)
  | advance

def writerStep (m : Machine) : Writer → WriterAct → Option Machine
  | .receiving, .receive count =>
      if 0 < count ∧ count ≤ MAX_WRITE_BATCH_RECORDS ∧ count ≤ m.queue.length then
        some { m with queue := m.queue.drop count, writer := .writing (m.queue.take count) }
      else none
  | .writing batch, .written => some { m with wire := m.wire ++ batch, writer := .receiving }
  | .writing _, .error err => some { m with writer := .closing err }
  | .closing err, .advance => some { m with transportClosed := true, writer := .failing err }
  | .failing err, .advance => some { m.failAll err with queue := [], writer := .stopped }
  | _, _ => none

inductive Action
  | call (c : ℕ) (act : Act)
  | reader (act : ReaderAct)
  | writer (act : WriterAct)

def step (m : Machine) : Action → Option Machine
  | .call c act => m.callStep c (m.pc c) act
  | .reader act => m.readerStep m.reader act
  | .writer act => m.writerStep m.writer act

/-- The states of a connection in any run. -/
def Reachable (stamp : UInt32) (pendingCapacity : ℕ) (m : Machine) : Prop :=
  Transition.Reaches step Transition.anyStep (new stamp pendingCapacity) m

/-! ### What a step does -/

variable {m m' : Machine} {c : ℕ}

@[simp] theorem goto_pc_self (m : Machine) (c : ℕ) (pc : Pc) : (m.goto c pc).pc c = pc :=
  Function.update_self ..

theorem goto_pc_of_ne (m : Machine) {c d : ℕ} (pc : Pc) (h : d ≠ c) :
    (m.goto c pc).pc d = m.pc d := Function.update_of_ne h ..

/-- The moves of a call that change nothing it shares with the others. -/
inductive Move (m : Machine) (c : ℕ) : Pc → Act → Pc → Prop
  | refuseFirst : Move m c .starting .advance (.finished (some (.error rpcRequestNotSentError)))
  | proceed : Move m c .starting .advance .drawing
  | collide {xid : UInt32} (h : m.contains xid = true) : Move m c (.inserting xid) .advance .drawing
  | refuse {xid : UInt32} :
      Move m c (.registered xid) .advance (.dropping xid (some (.error rpcRequestNotSentError)))
  | pass {xid : UInt32} (hopen : m.transportClosed = false) :
      Move m c (.registered xid) .advance (.sending xid)
  | notTaken {xid : UInt32} :
      Move m c (.sending xid) .advance (.dropping xid (some (.error rpcRequestNotSentError)))
  | stop {xid : UInt32} :
      Move m c (.queued xid) .advance (.dropping xid (some (.error rpcTransportStoppedError)))
  | wait {xid : UInt32} : Move m c (.queued xid) .advance (.awaiting xid)
  | receive {xid : UInt32} {result : Except Error Bytes} (h : m.mailbox c = some result) :
      Move m c (.awaiting xid) .advance (.dropping xid (some result))
  | gone {xid : UInt32} :
      Move m c (.awaiting xid) .advance (.dropping xid (some (.error readerStoppedError)))
  | timeout {xid : UInt32} {elapsed : Duration} :
      Move m c (.awaiting xid) (.timeout elapsed)
        (.dropping xid (some (.error (.timeout elapsed))))
  | cancelSending {xid : UInt32} : Move m c (.sending xid) .cancel (.dropping xid none)
  | cancelAwaiting {xid : UInt32} : Move m c (.awaiting xid) .cancel (.dropping xid none)

/-- What the steps of the machine do. -/
inductive Does (m : Machine) : Action → Machine → Prop
  | start {c : ℕ} (hpc : m.pc c = .idle) :
      Does m (.call c .start) ({ m with begun := c :: m.begun }.goto c .starting)
  | move {c : ℕ} {act : Act} {pc : Pc} (h : Move m c (m.pc c) act pc) :
      Does m (.call c act) (m.goto c pc)
  | draw {c : ℕ} (hpc : m.pc c = .drawing) (hxid : m.xid + 1 ≠ 0) :
      Does m (.call c .advance)
        ({ m.fetchAdd c with first := c :: m.first }.goto c (.inserting (m.xid + 1)))
  | drawZero {c : ℕ} (hpc : m.pc c = .drawing) (hxid : m.xid + 1 = 0) :
      Does m (.call c .advance) ({ m.fetchAdd c with first := c :: m.first, zeros := m.zeros + 1
        }.goto c .redrawing)
  | redraw {c : ℕ} (hpc : m.pc c = .redrawing) :
      Does m (.call c .advance)
        ({ m.fetchAdd c with redrawn := m.redrawn + 1 }.goto c (.inserting (m.xid + 1)))
  | insert {c : ℕ} {xid : UInt32} (hpc : m.pc c = .inserting xid) (h : m.contains xid = false) :
      Does m (.call c .advance) ((m.insert c xid).goto c (.registered xid))
  | enqueue {c : ℕ} {xid : UInt32} (hpc : m.pc c = .sending xid) :
      Does m (.call c .advance) ((m.enqueue ⟨c, xid⟩).goto c (.queued xid))
  | drop {c : ℕ} {xid : UInt32} {result : Option (Except Error Bytes)}
      (hpc : m.pc c = .dropping xid result) :
      Does m (.call c .advance) ((m.remove xid).goto c (.finished result))
  | record {response : Bytes} {reader : Reader} (hreader : m.reader = .reading)
      (hnext : (∃ xid, peekXid response = .ok xid ∧
        reader = .taking m.records.length xid response) ∨ ∃ err, reader = .closing err) :
      Does m (.reader (.record response))
        { m with records := m.records ++ [response], reader := reader }
  | readError {err : Error} (hreader : m.reader = .reading) :
      Does m (.reader (.error err)) { m with reader := .closing err }
  | take {record : ℕ} {xid : UInt32} {response : Bytes} {call : ℕ}
      (hreader : m.reader = .taking record xid response) (h : m.sender? xid = some call) :
      Does m (.reader .advance) { m.take xid with reader := .holding record xid response call }
  | ignore {record : ℕ} {xid : UInt32} {response : Bytes}
      (hreader : m.reader = .taking record xid response) :
      Does m (.reader .advance) { m with reader := .reading }
  | deliver {record : ℕ} {xid : UInt32} {response : Bytes} {call : ℕ}
      (hreader : m.reader = .holding record xid response call) :
      Does m (.reader .advance) { m with
        reader := .reading
        mailbox := update m.mailbox call (some (decodeReply xid response))
        delivered := (record, xid, call) :: m.delivered }
  | readerClose {err : Error} (hreader : m.reader = .closing err) :
      Does m (.reader .advance) { m with transportClosed := true, reader := .failing err }
  | readerFail {err : Error} (hreader : m.reader = .failing err) :
      Does m (.reader .advance) { m.failAll err with reader := .leaving }
  | readerLeave (hreader : m.reader = .leaving) :
      Does m (.reader .advance) { m with transportClosed := true, reader := .stopped }
  | writerReceive {count : ℕ} (hwriter : m.writer = .receiving) :
      Does m (.writer (.receive count))
        { m with queue := m.queue.drop count, writer := .writing (m.queue.take count) }
  | written {batch : List RpcRequest} (hwriter : m.writer = .writing batch) :
      Does m (.writer .written) { m with wire := m.wire ++ batch, writer := .receiving }
  | writeError {batch : List RpcRequest} {err : Error} (hwriter : m.writer = .writing batch) :
      Does m (.writer (.error err)) { m with writer := .closing err }
  | writerClose {err : Error} (hwriter : m.writer = .closing err) :
      Does m (.writer .advance) { m with transportClosed := true, writer := .failing err }
  | writerFail {err : Error} (hwriter : m.writer = .failing err) :
      Does m (.writer .advance) { m.failAll err with queue := [], writer := .stopped }

theorem callStep_does {pc : Pc} {act : Act} (hpc : m.pc c = pc)
    (h : m.callStep c pc act = some m') : Does m (.call c act) m' := by
  have hmove : ∀ pc', Move m c pc act pc' → Does m (.call c act) (m.goto c pc') := by
    intro pc' hmove
    exact .move (hpc ▸ hmove)
  rw [callStep.eq_def] at h
  split at h
  · cases h
    exact .start hpc
  · split at h <;> cases h
    · exact hmove _ .refuseFirst
    · exact hmove _ .proceed
  · dsimp only at h
    split at h <;> cases h
    · next hxid => exact .drawZero hpc hxid
    · next hxid => exact .draw hpc hxid
  · cases h
    exact .redraw hpc
  · split at h <;> cases h
    · next hcontains => exact hmove _ (.collide hcontains)
    · next hcontains => exact .insert hpc (Bool.not_eq_true _ ▸ hcontains)
  · split at h <;> cases h
    · exact hmove _ .refuse
    · next hopen => exact hmove _ (.pass (Bool.not_eq_true _ ▸ hopen))
  · split at h
    · cases h
      exact hmove _ .notTaken
    · split at h <;> cases h
      exact .enqueue hpc
  · cases h
    exact hmove _ .cancelSending
  · split at h <;> cases h
    · exact hmove _ .stop
    · exact hmove _ .wait
  · split at h
    · next hmail =>
      cases h
      exact hmove _ (.receive hmail)
    · split at h <;> cases h
      exact hmove _ .gone
  · cases h
    exact hmove _ .timeout
  · cases h
    exact hmove _ .cancelAwaiting
  · cases h
    exact .drop hpc
  · cases h

theorem readerStep_does {reader : Reader} {act : ReaderAct} (hreader : m.reader = reader)
    (h : m.readerStep reader act = some m') : Does m (.reader act) m' := by
  rw [readerStep.eq_def] at h
  split at h
  · dsimp only at h
    split at h <;> cases h
    · next xid hxid => exact .record hreader (Or.inl ⟨xid, hxid, rfl⟩)
    · next err _ => exact .record hreader (Or.inr ⟨err, rfl⟩)
  · cases h
    exact .readError hreader
  · split at h <;> cases h
    · next call hcall => exact .take hreader hcall
    · exact .ignore hreader
  · cases h
    exact .deliver hreader
  · cases h
    exact .readerClose hreader
  · cases h
    exact .readerFail hreader
  · cases h
    exact .readerLeave hreader
  · cases h

theorem writerStep_does {writer : Writer} {act : WriterAct} (hwriter : m.writer = writer)
    (h : m.writerStep writer act = some m') : Does m (.writer act) m' := by
  rw [writerStep.eq_def] at h
  split at h
  · split at h <;> cases h
    exact .writerReceive hwriter
  · cases h
    exact .written hwriter
  · cases h
    exact .writeError hwriter
  · cases h
    exact .writerClose hwriter
  · cases h
    exact .writerFail hwriter
  · cases h

theorem step_does {a : Action} (h : m.step a = some m') : Does m a m' := by
  cases a with
  | call c act => exact callStep_does rfl h
  | reader act => exact readerStep_does rfl h
  | writer act => exact writerStep_does rfl h

end Machine

end NfsCrust.Rpc
