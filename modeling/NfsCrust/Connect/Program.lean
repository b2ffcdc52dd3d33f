import NfsCrust.Lib.Observer
import NfsCrust.Path
import NfsCrust.Request
import NfsCrust.Setup

/-!
# Connecting

How a client comes to a session: the address is looked up, a transport is opened, and
`EXCHANGE_ID`, `CREATE_SESSION` and `RECLAIM_COMPLETE` are sent before the export is
resolved.  The same is done for the first session and for every one after it.

What happens before there is a session is not among the effects of `NfsCrust.Exchange`.  The
calls of the new session are, and each is told here with the transport that carries it.

## Main definitions

* `SetupEffect`, `SetupM` — what setting up a session asks of its surroundings.
* `NfsSession.connect` — one attempt, from `src/nfs4/session.rs`.
* `connectSession`, `resolveAndConnectSession`, `NfsClientBuilder.connect` — the attempts of
  `src/client.rs`.
* `isAwsEfsServerName`, `applyTransportWriteCap` — the configuration for one kind of server.
-/

namespace NfsCrust

open BigEndian Interaction Rpc.Framing

/-! ### Effects -/

structure SocketAddr where
  ip : Bytes
  port : UInt16
  deriving DecidableEq, Repr

/-- The part of the transport configuration that the client looks at. -/
inductive RpcTransport
  | plaintext
  | tls (serverName : String)
  deriving DecidableEq, Repr

/-- The number of a transport. -/
abbrev Connection := ℕ

/-- What setting up a session asks of its surroundings. -/
inductive SetupEffect
  /-- `ClientOwner::new`, which makes the name of the client. -/
  | newClientOwner
  | lookupHost (endpoint : String)
  /-- Start a timer.  The response is the number of requests that are made before it fires. -/
  | timer (timeout : Duration)
  | authStamp
  | connectTransport (addr : SocketAddr) (transport : RpcTransport)
  /-- Load the verifier of the client, which the other sessions may change. -/
  | verifierValue
  /-- A call without a session. -/
  | call (connection : Connection) (payload : Bytes)
  | reduceMaxResponseBytes (connection : Connection) (maxResponseBytes : ℕ)
  /-- An effect of the new session. -/
  | session (connection : Connection) (e : Effect)
  | storeReclaimComplete (connection : Connection)
  /-- `Arc::get_mut`: whether the session is not shared yet. -/
  | getMut (connection : Connection)
  | spawnDeferredCloseWorker (connection : Connection)
  deriving DecidableEq, Repr

def SetupEffect.Response : SetupEffect → Type
  | newClientOwner => String
  | lookupHost _ => Except Error (List SocketAddr)
  | timer _ => ℕ
  | authStamp => UInt32
  | connectTransport .. => Except Error Connection
  | verifierValue => UInt64
  | call .. => Except Error Bytes
  | session _ e => e.Response
  | getMut _ => Bool
  | reduceMaxResponseBytes .. | storeReclaimComplete _ | spawnDeferredCloseWorker _ => Unit

def setupEffects : Interface := ⟨SetupEffect, SetupEffect.Response⟩

/-- Code that sets up a session. -/
abbrev SetupM := ExceptT Error (Thread setupEffects)

def setup (e : SetupEffect) : Thread setupEffects e.Response := @Thread.request setupEffects e

/-- Run code of the session layer on a transport. -/
def onConnection {α : Type} (connection : Connection) (m : SessionM α) : SetupM α :=
  let relayed : Thread setupEffects (Except Error α) :=
    m.run.relay (SetupEffect.session connection) fun _ r => r
  ExceptT.mk relayed

/-! ### One attempt -/

/-- A client verifier as it is sent. -/
def verifierBytes (value : UInt64) : Verifier := ⟨(be64 value).toArray, rfl⟩

def exchangeIdPayload (ownerid : String) (clientVerifier : UInt64) : Bytes :=
  encodeCompound "exchange-id" [.exchangeId (verifierBytes clientVerifier) (utf8 ownerid)]

def exchangeId (connection : Connection) (ownerid : String) (clientVerifier : UInt64) :
    SetupM ExchangeIdResult := do
  let response ← ExceptT.mk (setup (.call connection (exchangeIdPayload ownerid clientVerifier)))
  decodeExchangeIdCompound response

def createSessionPayload (exchange : ExchangeIdResult) (config : NfsConfig) : Bytes :=
  encodeCompound "create-session" [.createSession exchange.clientid exchange.sequenceid config]

/-- The length of a call with nothing but a `SEQUENCE`. -/
def minimumRequestSize (rpc : RpcClient) : ℕ :=
  rpc.encodedCallLen (compoundWithSequenceEncodedLen "" [])

def createSession (rpc : RpcClient) (connection : Connection) (exchange : ExchangeIdResult)
    (config : NfsConfig) : SetupM CreateSessionResult := do
  let response ← ExceptT.mk (setup (.call connection (createSessionPayload exchange config)))
  decodeCreateSessionCompound response exchange.sequenceid (minimumRequestSize rpc)

/-- A session that has been set up, with what the rest of the client keeps of it. -/
structure Established where
  session : NfsSession
  serverAddr : SocketAddr
  connection : Connection
  sessionid : Vector UInt8 16
  slots : UInt32
  clientVerifier : UInt64
  deriving DecidableEq, Repr

/-- The session that two replies describe, before its export has been resolved. -/
def newSession (rpc : RpcClient) (config : NfsConfig) (exchange : ExchangeIdResult)
    (created : CreateSessionResult) : NfsSession where
  exportRoot := ⟨[]⟩
  clientid := exchange.clientid
  authBodyLen := rpc.authBody.length
  config := negotiatedConfig config created.foreAttrs

/-- `RECLAIM_COMPLETE`, which an earlier session of the client may have sent. -/
def reclaimComplete (s : NfsSession) (connection : Connection) : SetupM Unit := do
  match ← Thread.attempt (onConnection connection (s.call .reclaimComplete)) with
  | .ok () => return ()
  | .error err => if err.isNfsStatus .COMPLETE_ALREADY then return () else throw err

def NfsSession.connect (addr : SocketAddr) (auth : AuthSys) (config : NfsConfig)
    (transport : RpcTransport) (ownerid : String) : SetupM Established := do
  let stamp ← setup .authStamp
  let rpc ← RpcClient.connect auth stamp
  let connection ← ExceptT.mk (setup (.connectTransport addr transport))
  let clientVerifier ← setup .verifierValue
  let exchange ← exchangeId connection ownerid clientVerifier
  let created ← createSession rpc connection exchange config
  setup (.reduceMaxResponseBytes connection created.foreAttrs.maxResponseSize.toNat)
  let slots := max (min created.foreAttrs.maxrequests config.sessionSlots) 1
  let session := newSession rpc config exchange created
  reclaimComplete session connection
  setup (.storeReclaimComplete connection)
  let exportPath ← NfsPath.parseComponents session.config.export
  let exportRoot ← onConnection connection (session.call (.resolveExportRoot exportPath.components))
  if !(← setup (.getMut connection)) then
    throw (.protocol "new NFS session was unexpectedly shared during connection setup")
  setup (.spawnDeferredCloseWorker connection)
  return { session := { session with exportRoot }, serverAddr := addr, connection,
           sessionid := created.sessionid, slots, clientVerifier }

/-! ### Attempts -/

/-- Try the addresses in order. -/
def connectSession (auth : AuthSys) (transport : RpcTransport) (config : NfsConfig)
    (ownerid : String) : (lastError : Option Error) → List SocketAddr → SetupM Established
  | lastError, [] =>
    throw (lastError.getD (.protocol "NFS endpoint did not resolve to any address"))
  | _, addr :: addrs => do
    match ← Thread.attempt (NfsSession.connect addr auth config transport ownerid) with
    | .ok session => return session
    | .error err => connectSession auth transport config ownerid (some err) addrs

def resolveAddrs (endpoint : String) : SetupM (List SocketAddr) := do
  let addrs ← ExceptT.mk (setup (.lookupHost endpoint))
  if addrs.isEmpty then throw (.protocol "NFS endpoint did not resolve to any address")
  return addrs

def withOptionalTimeout {α : Type} (timeout : Option Duration) (operation : SetupM α) : SetupM α :=
  match timeout with
  | none => operation
  | some timeout => ExceptT.mk do
    let requests ← setup (.timer timeout)
    match ← operation.run.cut requests with
    | some r => return r
    | none => return .error (.timeout timeout)

def resolveAndConnectSession (endpoint : String) (auth : AuthSys) (transport : RpcTransport)
    (config : NfsConfig) (timeout : Option Duration) (ownerid : String) : SetupM Established :=
  withOptionalTimeout timeout do
    let addrs ← resolveAddrs endpoint
    connectSession auth transport config ownerid none addrs

/-! ### The builder -/

def AWS_EFS_MAX_WRITE_CHUNK_SIZE : UInt32 := 504 * 1024

/-- `str::split_once`. -/
def splitOnce (separator : Char) : List Char → Option (List Char × List Char)
  | [] => none
  | c :: cs =>
    if c = separator then some ([], cs)
    else (splitOnce separator cs).map fun x => (c :: x.1, x.2)

/-- Whether a name is that of a file system of AWS EFS. -/
def isAwsEfsServerName (serverName : String) : Bool :=
  match splitOnce '.' serverName.toList with
  | none => false
  | some (fileSystem, rest) =>
    match splitOnce '.' rest with
    | none => false
    | some (service, domain) =>
      let region := (domain.dropSuffix? ".amazonaws.com".toList).or
        (domain.dropSuffix? ".amazonaws.com.cn".toList)
      (fileSystem.dropPrefix? "fs-".toList).any (fun id => !id.isEmpty)
        && (service == "efs".toList || service == "efs-fips".toList)
        && region.any fun region => !region.isEmpty && !region.contains '.'

def applyTransportWriteCap (config : NfsConfig) : RpcTransport → NfsConfig
  | .plaintext => config
  | .tls serverName =>
    if isAwsEfsServerName serverName then
      { config with
        writeChunkSize := min config.writeChunkSize AWS_EFS_MAX_WRITE_CHUNK_SIZE
        pipelineWriteChunks := false }
    else config

def validateBufferedReadLimit (limit : Option ℕ) : Except Error Unit :=
  if limit = some 0 then
    .error (.invalidConfig "max_buffered_read_size must be greater than zero")
  else .ok ()

structure NfsClientBuilder where
  endpoint : String
  auth : Except Error AuthSys
  transport : RpcTransport
  config : NfsConfig
  connectTimeout : Option Duration
  maxBufferedReadSize : Option ℕ

/-- What a client keeps to set up further sessions, and its first one. -/
structure ClientInner where
  endpoint : String
  ownerid : String
  auth : AuthSys
  transport : RpcTransport
  config : NfsConfig
  connectTimeout : Option Duration
  maxBufferedReadSize : Option ℕ
  session : Established

def NfsClientBuilder.connect (b : NfsClientBuilder) : SetupM ClientInner := do
  validateConfig b.config
  validateBufferedReadLimit b.maxBufferedReadSize
  let config := applyTransportWriteCap b.config b.transport
  let auth ← b.auth
  let ownerid ← setup .newClientOwner
  let session ← resolveAndConnectSession b.endpoint auth b.transport config b.connectTimeout ownerid
  return { endpoint := b.endpoint, ownerid, auth, transport := b.transport, config,
           connectTimeout := b.connectTimeout, maxBufferedReadSize := b.maxBufferedReadSize,
           session }

/-- The session that a reconnect sets up. -/
def ClientInner.reconnectSession (inner : ClientInner) : SetupM Established :=
  resolveAndConnectSession inner.endpoint inner.auth inner.transport inner.config
    inner.connectTimeout inner.ownerid

end NfsCrust
