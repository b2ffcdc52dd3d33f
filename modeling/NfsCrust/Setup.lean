import NfsCrust.Compound

/-!
# Setting up a session

`EXCHANGE_ID` and `CREATE_SESSION`: the decoders of their replies, from
`src/nfs4/codec.rs`, and the configuration the client settles on with the channel
the server offers.

## Main definitions

* `decodeExchangeId`, `decodeCreateSession`, `decodeSetupCompound` — the replies.
* `validateConfig`, `validateForeChannelMinimums`, `negotiatedConfig` — the
  configuration.
-/

namespace NfsCrust

def CHANNEL_PAYLOAD_RESERVE : UInt32 := 1024

def SEQUENCE_RESULT_LEN : ℕ := 16 + 5 * 4

def MIN_SEQUENCE_COMPOUND_RESPONSE_SIZE : UInt32 := .ofNat (24 + 12 + 8 + SEQUENCE_RESULT_LEN)

def IMPLEMENTATION_ID_TIMESTAMP_LEN : ℕ := 8 + 4

def IMPLEMENTATION_ID_MIN_LEN : ℕ := 4 + 4 + IMPLEMENTATION_ID_TIMESTAMP_LEN

def MAX_CONFIGURED_SESSION_SLOTS : UInt32 := 1024

/-! ### Replies -/

structure ExchangeIdResult where
  clientid : UInt64
  sequenceid : UInt32
  deriving DecidableEq, Repr

/-- What the server grants of a channel. -/
structure ChannelAttrs where
  maxRequestSize : UInt32
  maxResponseSize : UInt32
  maxoperations : UInt32
  maxrequests : UInt32
  deriving DecidableEq, Repr

structure CreateSessionResult where
  sessionid : Vector UInt8 16
  foreAttrs : ChannelAttrs
  deriving DecidableEq, Repr

def nonzeroChannelLimit (value : UInt32) (field : String) : Except Error UInt32 :=
  if value = 0 then .error (.protocol s!"CREATE_SESSION returned zero {field}") else .ok value

def decodeChannelAttrs : XdrM ChannelAttrs := do
  let _headerpadsize ← readU32
  let maxRequestSize ← nonzeroChannelLimit (← readU32) "ca_maxrequestsize"
  let maxResponseSize ← nonzeroChannelLimit (← readU32) "ca_maxresponsesize"
  let _maxresponsesizeCached ← readU32
  let maxoperations ← nonzeroChannelLimit (← readU32) "ca_maxoperations"
  let maxrequests ← nonzeroChannelLimit (← readU32) "ca_maxrequests"
  let rdmaIrdLen := (← readU32).toNat
  if rdmaIrdLen > (← get).length / 4 then
    throw (.xdr s!"RDMA IRD array length {rdmaIrdLen} exceeds remaining XDR words")
  skipBytesAfterRequire (← usizeMul rdmaIrdLen 4)
  return { maxRequestSize, maxResponseSize, maxoperations, maxrequests }

def decodeStateProtect : XdrM Unit := do
  let mode ← readU32
  if mode = 0 then return ()
  else if mode = 1 then
    throw (.unsupported ("server requires machine-credential state protection that the client "
      ++ "did not request"))
  else if mode = 2 then
    throw (.unsupported ("server requires SSV state protection; AUTH_SYS-only client cannot "
      ++ "continue"))
  else throw (.protocol s!"unknown state protection mode {mode}")

/-- The loop of `skip_impl_id_array`. -/
def skipImplIds : ℕ → XdrM Unit
  | 0 => return ()
  | len + 1 => do
      skipOpaque
      skipOpaque
      skipBytes IMPLEMENTATION_ID_TIMESTAMP_LEN
      skipImplIds len

def skipImplIdArray : XdrM Unit := do
  let len := (← readU32).toNat
  if len > (← get).length / IMPLEMENTATION_ID_MIN_LEN then
    throw (.xdr s!"implementation id array length {len} exceeds remaining XDR data")
  skipImplIds len

def decodeExchangeId : XdrM ExchangeIdResult := do
  let clientid ← readU64
  let sequenceid ← readU32
  let _flags ← readU32
  decodeStateProtect
  let _serverMinorId ← readU64
  skipOpaque
  skipOpaque
  skipImplIdArray
  return { clientid, sequenceid }

def validateForeChannelMinimums (attrs : ChannelAttrs) (minimumRequestSize : ℕ) :
    Except Error Unit := do
  if attrs.maxoperations < 2 then
    throw (.protocol (s!"CREATE_SESSION ca_maxoperations {attrs.maxoperations} cannot fit "
      ++ "SEQUENCE plus an operation"))
  if attrs.maxRequestSize.toNat < minimumRequestSize then
    throw (.protocol (s!"CREATE_SESSION ca_maxrequestsize {attrs.maxRequestSize} cannot fit the "
      ++ s!"minimum {minimumRequestSize}-byte RPC SEQUENCE request"))
  if attrs.maxResponseSize < MIN_SEQUENCE_COMPOUND_RESPONSE_SIZE then
    throw (.protocol (s!"CREATE_SESSION ca_maxresponsesize {attrs.maxResponseSize} cannot fit the "
      ++ s!"minimum {MIN_SEQUENCE_COMPOUND_RESPONSE_SIZE}-byte RPC SEQUENCE response"))

def decodeCreateSession (expectedSequenceid : UInt32) (minimumRequestSize : ℕ) :
    XdrM CreateSessionResult := do
  let sessionid ← readBytes 16
  let sequenceid ← readU32
  if sequenceid ≠ expectedSequenceid then
    throw (.protocol (s!"CREATE_SESSION response sequence ID {sequenceid} did not match request "
      ++ s!"{expectedSequenceid}"))
  let _flags ← readU32
  let foreAttrs ← decodeChannelAttrs
  validateForeChannelMinimums foreAttrs minimumRequestSize
  let _backAttrs ← decodeChannelAttrs
  return { sessionid, foreAttrs }

/-- A compound with one operation and no `SEQUENCE`. -/
def decodeSetupCompound {α : Type} (bytes : Bytes) (expected : OpCode) (shape : String)
    (decode : XdrM α) : Except Error α :=
  (withReplies bytes shape 1 do
    let result ← result expected decode
    finish
    RepliesM.okOr result s!"compound response did not include {shape} result").mapError
      CompoundDecodeError.error

def decodeExchangeIdCompound (bytes : Bytes) : Except Error ExchangeIdResult :=
  decodeSetupCompound bytes .exchangeId "EXCHANGE_ID" decodeExchangeId

def decodeCreateSessionCompound (bytes : Bytes) (expectedSequenceid : UInt32)
    (minimumRequestSize : ℕ) : Except Error CreateSessionResult :=
  decodeSetupCompound bytes .createSession "CREATE_SESSION"
    (decodeCreateSession expectedSequenceid minimumRequestSize)

/-! ### The configuration -/

def validateNonzero (value : UInt32) (name : String) : Except Error Unit :=
  if value = 0 then .error (.invalidConfig s!"{name} must be greater than zero") else .ok ()

def validateMinBytes (value : UInt32) (name : String) (minimum : UInt32) : Except Error Unit :=
  if value < minimum then .error (.invalidConfig s!"{name} must be at least {minimum} bytes")
  else .ok ()

def validateConfig (config : NfsConfig) : Except Error Unit := do
  validateNonzero config.readChunkSize "read_chunk_size"
  validateNonzero config.readGranularity "read_granularity"
  validateNonzero config.writeChunkSize "write_chunk_size"
  validateNonzero config.readdirDircount "readdir dircount"
  if config.readdirMaxcount < config.readdirDircount then
    throw (.invalidConfig "readdir maxcount must be greater than or equal to dircount")
  validateNonzero config.sessionSlots "session_slots"
  if config.sessionSlots > MAX_CONFIGURED_SESSION_SLOTS then
    throw (.invalidConfig s!"session_slots must not exceed {MAX_CONFIGURED_SESSION_SLOTS}")
  validateMinBytes config.maxRequestSize "max_request_size" 4096
  validateMinBytes config.maxResponseSize "max_response_size" 4096

def channelPayloadSize (channelSize : UInt32) : UInt32 :=
  max (if channelSize ≤ CHANNEL_PAYLOAD_RESERVE then 0 else channelSize - CHANNEL_PAYLOAD_RESERVE) 1

/-- The configuration with the limits of the channel. -/
def negotiatedConfig (config : NfsConfig) (foreAttrs : ChannelAttrs) : NfsConfig :=
  let maxRequestSize := min config.maxRequestSize foreAttrs.maxRequestSize
  let maxResponseSize := min config.maxResponseSize foreAttrs.maxResponseSize
  let maxRequestPayload := channelPayloadSize maxRequestSize
  let maxResponsePayload := channelPayloadSize maxResponseSize
  let readChunkSize := min config.readChunkSize maxResponsePayload
  let readdirMaxcount := min config.readdirMaxcount maxResponsePayload
  { config with
    maxRequestSize, maxResponseSize, readChunkSize, readdirMaxcount
    writeChunkSize := min config.writeChunkSize maxRequestPayload
    readGranularity := min config.readGranularity readChunkSize
    readdirDircount := max (min config.readdirDircount readdirMaxcount) 1
    maxCompoundOps := foreAttrs.maxoperations }

end NfsCrust
