import NfsCrust.Lib.Prog
import NfsCrust.Ops

/-!
# Calls as records on the connection

How `src/rpc.rs` puts a call on the connection and takes a reply off it.  A call is
a header, the credential, the verifier and the payload; `write_record_batch` writes
a batch of them, each behind a record marker, with vectored writes that the socket
may cut short.  `read_record` collects the fragments of a record from reads that
return what has arrived.

The connection is what the code talks to: a `Transfer` is one call of the socket, one
load of the response limit, or one reservation in the buffer of a record.

## Main definitions

* `AuthSys`, with `validate` and `encodeBody` — the credential.
* `RpcPayload`, `RpcRequest`, `RpcClient.encodeCall` — an encoded call.
* `writeRecordBatch`, `advanceSlices` — the writer.
* `readRecord`, `readExactIntoBuf` — the reader.
-/

namespace NfsCrust.Rpc.Framing

open BigEndian Interaction

def RPC_VERSION : UInt32 := 2

def CALL : UInt32 := 0

def AUTH_SYS : UInt32 := 1

def AUTH_SYS_MAX_MACHINE_NAME_LEN : ℕ := 255

def AUTH_SYS_MAX_GIDS : ℕ := 16

def AUTH_SYS_MAX_BODY_LEN : ℕ := 400

def LAST_FRAGMENT : UInt32 := 0x80000000

def FRAGMENT_SIZE_MASK : UInt32 := 0x7fffffff

def RPC_CALL_HEADER_LEN : ℕ := 8 * 4

def RPC_AUTH_NONE_VERIFIER : Bytes := .replicate 8 0

def MAX_WRITE_BATCH_RECORDS : ℕ := 32

/-- The first `len` bytes of `ZERO_PADDING`. -/
def zeroPadding (len : ℕ) : Bytes := .replicate len 0

/-! ### The credential -/

/-- An `AUTH_SYS` credential. -/
structure AuthSys where
  machineName : String
  uid : UInt32
  gid : UInt32
  gids : List UInt32

namespace AuthSys

def encodedBodyLen (auth : AuthSys) : Except Error ℕ := do
  let groupBytes := auth.gids.length * 4
  if 2 ^ 64 ≤ groupBytes then throw (.invalidConfig "AUTH_SYS group list length overflow")
  let bodyLen := 16 + xdrOpaqueLen (utf8 auth.machineName).length + groupBytes
  if 2 ^ 64 ≤ bodyLen then throw (.invalidConfig "AUTH_SYS credential length overflow")
  return bodyLen

def validate (auth : AuthSys) : Except Error Unit := do
  let nameLen := (utf8 auth.machineName).length
  if nameLen > AUTH_SYS_MAX_MACHINE_NAME_LEN then
    throw (.invalidConfig (s!"AUTH_SYS machine name is {nameLen} bytes; "
      ++ s!"the maximum is {AUTH_SYS_MAX_MACHINE_NAME_LEN}"))
  if auth.gids.length > AUTH_SYS_MAX_GIDS then
    throw (.invalidConfig (s!"AUTH_SYS has {auth.gids.length} additional groups; "
      ++ s!"the maximum is {AUTH_SYS_MAX_GIDS}"))
  let bodyLen ← auth.encodedBodyLen
  if bodyLen > AUTH_SYS_MAX_BODY_LEN then
    throw (.invalidConfig (s!"AUTH_SYS credential body is {bodyLen} bytes; "
      ++ s!"the maximum is {AUTH_SYS_MAX_BODY_LEN}"))

/-- The body of the credential; `stamp` is the value of `auth_stamp`. -/
def encodeBody (auth : AuthSys) (stamp : UInt32) : Except Error Bytes := do
  auth.validate
  return putU32 stamp ++ putString auth.machineName ++ putU32 auth.uid ++ putU32 auth.gid
    ++ putU32 (.ofNat auth.gids.length) ++ (auth.gids.map putU32).flatten

end AuthSys

/-! ### Calls -/

/-- The body of a call, in a few byte ranges. -/
structure RpcPayload where
  segments : List Bytes
  len : ℕ
  len_eq : len = min segments.flatten.length (2 ^ 64 - 1)

namespace RpcPayload

def empty : RpcPayload := ⟨[], 0, rfl⟩

/-- One turn of the loop of `from_segments`. -/
def push (payload : RpcPayload) (segment : Bytes) : RpcPayload :=
  if segment.isEmpty then payload
  else
    { segments := payload.segments ++ [segment]
      len := saturatingAdd payload.len segment.length
      len_eq := by
        rw [saturatingAdd, payload.len_eq, List.flatten_append, List.flatten_singleton,
          List.length_append]
        omega }

def fromSegments (segments : List Bytes) : RpcPayload := segments.foldl push empty

/-- `From<Bytes>`; no byte string has `2 ^ 64` bytes. -/
def ofBytes (payload : Bytes) : RpcPayload :=
  ⟨[payload], min payload.length (2 ^ 64 - 1), by rw [List.flatten_singleton]⟩

end RpcPayload

/-- A call, ready to be written. -/
structure RpcRequest where
  header : Bytes
  payload : RpcPayload
  payloadPaddingLen : ℕ
  recordLen : ℕ

/-- What the calls of a client have in common: the body of its credential, whose
length was found to fit its length word. -/
structure RpcClient where
  authBody : Bytes
  authBody_lt : authBody.length < 2 ^ 32

def putHeaderU32At (header : Bytes) (offset : ℕ) (value : UInt32) : Bytes :=
  header.take offset ++ be32 value ++ header.drop (offset + 4)

def rpcCallHeaderTemplate (authBodyLen : ℕ) : Except Error Bytes := do
  if 2 ^ 32 ≤ authBodyLen then
    throw (.invalidConfig "AUTH_SYS credential length does not fit in u32")
  let header : Bytes := .replicate RPC_CALL_HEADER_LEN 0
  let header := putHeaderU32At header 4 CALL
  let header := putHeaderU32At header 8 RPC_VERSION
  let header := putHeaderU32At header 24 AUTH_SYS
  return putHeaderU32At header 28 (.ofNat authBodyLen)

def encodeCallHeaderFromTemplate (template : Bytes) (xid program version procedure : UInt32) :
    Bytes :=
  let header := putHeaderU32At template 0 xid
  let header := putHeaderU32At header 12 program
  let header := putHeaderU32At header 16 version
  putHeaderU32At header 20 procedure

namespace RpcClient

/-- The client `connect` makes for a credential. -/
def connect (auth : AuthSys) (stamp : UInt32) : Except Error RpcClient := do
  let authBody ← auth.encodeBody stamp
  if h : authBody.length < 2 ^ 32 then return ⟨authBody, h⟩
  else throw (.invalidConfig "AUTH_SYS credential length does not fit in u32")

variable (client : RpcClient)

def authPaddingLen : ℕ := xdrPadding client.authBody.length

/-- The template the client was built with. -/
def callHeaderTemplate : Bytes :=
  (rpcCallHeaderTemplate client.authBody.length).toOption.getD []

def encodedCallLen (payloadLen : ℕ) : ℕ :=
  saturatingEncodedLen [RPC_CALL_HEADER_LEN, client.authBody.length, client.authPaddingLen,
    RPC_AUTH_NONE_VERIFIER.length, payloadLen, xdrPadding payloadLen]

def encodeCall (xid program version procedure : UInt32) (payload : RpcPayload) : RpcRequest where
  header := encodeCallHeaderFromTemplate client.callHeaderTemplate xid program version procedure
  payload := payload
  payloadPaddingLen := xdrPadding payload.len
  recordLen := client.encodedCallLen payload.len

end RpcClient

/-! ### The connection -/

/-- What the code asks of its connection. -/
inductive Transfer
  | writeVectored (slices : List Bytes)
  /-- Read what there is, at most `remaining` bytes. -/
  | readBuf (remaining : ℕ)
  | loadMaxResponseBytes
  /-- Make room for `len` bytes in the buffer of a record. -/
  | reserve (len : ℕ)
  deriving DecidableEq, Repr

def Transfer.Response : Transfer → Type
  | writeVectored _ => Except Error ℕ
  | readBuf _ => Except Error Bytes
  | loadMaxResponseBytes => ℕ
  | reserve _ => Unit

def transfers : Interface := ⟨Transfer, Transfer.Response⟩

abbrev TransferM := ExceptT Error (Prog transfers)

def transfer (e : Transfer) : Prog transfers e.Response :=
  .thread (@Thread.request transfers e) .ret

/-! ### Writing -/

/-- `IoSlice::advance_slices`: drop what is written in full, and the front of the
slice in which the write ended. -/
def advanceSlices : List Bytes → ℕ → Except Error (List Bytes)
  | [], 0 => .ok []
  | [], _ + 1 => .error (.panic "advancing io slices beyond their length")
  | slice :: slices, n =>
    if slice.length ≤ n then advanceSlices slices (n - slice.length)
    else .ok (slice.drop n :: slices)

def RpcRequest.marker (request : RpcRequest) : Bytes :=
  be32 (LAST_FRAGMENT ||| .ofNat request.recordLen)

/-- The slices of a record. -/
def RpcClient.recordSlices (client : RpcClient) (request : RpcRequest) : List Bytes :=
  [request.marker, request.header, client.authBody, zeroPadding client.authPaddingLen,
      RPC_AUTH_NONE_VERIFIER].filter (fun part => !part.isEmpty)
    ++ request.payload.segments
    ++ [zeroPadding request.payloadPaddingLen].filter fun part => !part.isEmpty

/-- One turn of the loop that writes what remains. -/
def writeTurn (remaining : List Bytes) : TransferM (List Bytes ⊕ Unit) := do
  if remaining.isEmpty then return .inr ()
  let written ← ExceptT.mk (transfer (.writeVectored remaining))
  if written = 0 then throw (.io "failed to write RPC record")
  return .inl (← advanceSlices remaining written)

def checkRecordLen (request : RpcRequest) : Except Error Unit :=
  if request.recordLen > FRAGMENT_SIZE_MASK.toNat then
    .error (.rpc s!"RPC payload too large: {request.recordLen} bytes")
  else .ok ()

/-- Write a batch.  There are markers for `MAX_WRITE_BATCH_RECORDS` requests, and a
request is written together with its marker. -/
def writeRecordBatch (client : RpcClient) (batch : List RpcRequest) : TransferM Unit := do
  let records := batch.take MAX_WRITE_BATCH_RECORDS
  (records.forM checkRecordLen : Except Error Unit)
  Prog.loopExcept writeTurn (records.flatMap client.recordSlices)

/-! ### Reading -/

/-- One turn of a loop that reads until the buffer has `target` bytes. -/
def fillTurn (message : String) (target : ℕ) (out : Bytes) : TransferM (Bytes ⊕ Bytes) := do
  if target ≤ out.length then return .inr out
  let bytes ← ExceptT.mk (transfer (.readBuf (target - out.length)))
  if bytes.isEmpty then throw (.io message)
  return .inl (out ++ bytes)

/-- `AsyncReadExt::read_u32`. -/
def readU32 : TransferM UInt32 := do
  let bytes ← Prog.loopExcept (fillTurn "unexpected end of file" 4) []
  match takeWord32 bytes with
  | some (word, _) => return word
  | none => throw (.panic "four bytes are a word")

def readExactIntoBuf (out : Bytes) (len : ℕ) : TransferM Bytes := do
  if 2 ^ 64 ≤ out.length + len then throw (.rpc "RPC response length overflow")
  let targetLen := out.length + len
  transfer (.reserve targetLen)
  Prog.loopExcept (fillTurn "short RPC record fragment" targetLen) out

/-- The marker of a fragment: whether it is the last one, and its size. -/
def readMarker : TransferM (Bool × ℕ) := do
  let marker ← readU32
  return (marker &&& LAST_FRAGMENT != 0, (marker &&& FRAGMENT_SIZE_MASK).toNat)

/-- Refuse a record that grows to `len` bytes, before its fragment is read. -/
def checkResponseLimit (len : ℕ) : TransferM Unit := do
  let responseLimit : ℕ ← transfer .loadMaxResponseBytes
  if len > responseLimit then
    throw (.rpc s!"RPC response exceeded {responseLimit} bytes")

/-- One turn of the loop that reads the fragments after the first. -/
def fragmentTurn (out : Bytes) : TransferM (Bytes ⊕ Bytes) := do
  let (last, size) ← readMarker
  checkResponseLimit (saturatingAdd out.length size)
  let out ← readExactIntoBuf out size
  return if last then .inr out else .inl out

def readRecord : TransferM Bytes := do
  let (last, size) ← readMarker
  checkResponseLimit size
  transfer (.reserve size)
  let out ← readExactIntoBuf [] size
  if last then return out
  Prog.loopExcept fragmentTurn out

end NfsCrust.Rpc.Framing
