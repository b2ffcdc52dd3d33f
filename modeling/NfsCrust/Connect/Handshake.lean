import NfsCrust.CallRules
import NfsCrust.Connect.Program
import NfsCrust.Connect.Replies
import NfsCrust.Server.Requests

/-!
# The handshake

The order in which a session is set up, as an observer that is told every request and every
response.  A request is accepted only in the phase it belongs to, and only with the values
that the server has returned on the same transport.

Nothing is assumed about the responses.  The observer has to accept what the client asks
whatever it has been told, and also when a timeout gives up an attempt half-way.

## Main definitions

* `Handshake.Phase`, `Handshake.observe` — the observer.

## Main results

* `Handshake.safe_connect` — one attempt.
* `handshake_in_order` — every way to a session.
-/

namespace NfsCrust

open Interaction Thread Rpc.Framing

/-- What is fixed before the first request. -/
structure Handshake where
  auth : AuthSys
  transport : RpcTransport
  config : NfsConfig
  ownerid : String

namespace Handshake

/-- What the server has agreed to on a transport. -/
structure Terms where
  rpc : RpcClient
  serverAddr : SocketAddr
  connection : Connection
  clientVerifier : UInt64
  exchange : ExchangeIdResult
  created : CreateSessionResult

inductive Phase
  | idle
  | authorized (rpc : RpcClient)
  | connected (rpc : RpcClient) (addr : SocketAddr) (connection : Connection)
  | named (rpc : RpcClient) (addr : SocketAddr) (connection : Connection) (verifier : UInt64)
  | identified (rpc : RpcClient) (addr : SocketAddr) (connection : Connection) (verifier : UInt64)
      (exchange : ExchangeIdResult)
  | created (terms : Terms)
  /-- The negotiated limit holds for the responses. -/
  | bounded (terms : Terms)
  /-- The server knows that there is nothing to reclaim. -/
  | reclaimed (terms : Terms)
  /-- The client takes a restart of the server for the end of the session. -/
  | latched (terms : Terms)
  | resolved (terms : Terms) (exportRoot : FileHandle)
  | owned (terms : Terms) (exportRoot : FileHandle)
  | serving (session : Established)

def Phase.isServing : Phase → Bool
  | .serving _ => true
  | _ => false

/-- The phase after a step, which is the first one if the step failed. -/
def Phase.after {α : Type} (next : α → Phase) : Except Error α → Phase
  | .ok a => next a
  | .error _ => .idle

/-- The phase after an answer about the export. -/
def Phase.resolution (terms : Terms) : Except CompoundDecodeError FileHandle → Phase
  | .ok exportRoot => .resolved terms exportRoot
  | .error _ => .latched terms

variable (H : Handshake)

/-- The session on which the calls of the handshake are made. -/
def Terms.session (t : Terms) : NfsSession := newSession t.rpc H.config t.exchange t.created

def Terms.established (t : Terms) (exportRoot : FileHandle) : Established where
  session := { t.session H with exportRoot }
  serverAddr := t.serverAddr
  connection := t.connection
  sessionid := t.created.sessionid
  slots := max (min t.created.foreAttrs.maxrequests H.config.sessionSlots) 1
  clientVerifier := t.clientVerifier

/-- Whether a response to `RECLAIM_COMPLETE` says that it was done, now or before. -/
def reclaims (response : Except Error (SlotUse × Bytes)) : Bool :=
  match SessionCall.reclaimComplete.received response with
  | .ok _ => true
  | .error err => err.error.isNfsStatus .COMPLETE_ALREADY

/-- An exchange of the new session. -/
def observeExchange (phase : Phase) (connection : Connection) (s : NfsSession) (tag : String)
    (ops : List NfsOp) (response : Except Error (SlotUse × Bytes)) : Option Phase :=
  match phase with
  | .bounded t | .reclaimed t =>
    if connection = t.connection ∧ s = t.session H
        ∧ tag = SessionCall.reclaimComplete.tag ∧ ops = SessionCall.reclaimComplete.ops s then
      some (if reclaims response then .reclaimed t else phase)
    else none
  | .latched t =>
    match NfsPath.parseComponents H.config.export with
    | .error _ => none
    | .ok path =>
      let call := SessionCall.resolveExportRoot path.components
      if connection = t.connection ∧ s = t.session H ∧ tag = call.tag ∧ ops = call.ops s then
        some (.resolution t (call.received response))
      else none
  | _ => none

/-- A call without a session. -/
def observeCall (phase : Phase) (connection : Connection) (payload : Bytes)
    (response : Except Error Bytes) : Option Phase :=
  match phase with
  | .named rpc addr c verifier =>
    if connection = c ∧ payload = exchangeIdPayload H.ownerid verifier then
      some (.after (.identified rpc addr c verifier) (response >>= decodeExchangeIdCompound))
    else none
  | .identified rpc addr c verifier exchange =>
    if connection = c ∧ payload = createSessionPayload exchange H.config then
      some (.after (fun created => .created ⟨rpc, addr, c, verifier, exchange, created⟩)
        (response >>= fun bytes =>
          decodeCreateSessionCompound bytes exchange.sequenceid (minimumRequestSize rpc)))
    else none
  | _ => none

/-- Whether the new session is still unshared. -/
def observeGetMut (phase : Phase) (connection : Connection) (unshared : Bool) : Option Phase :=
  match phase with
  | .resolved t exportRoot =>
    if connection = t.connection then some (if unshared then .owned t exportRoot else .idle)
    else none
  | _ => none

/-- **The order of the handshake.** -/
def observe (phase : Phase) : (e : SetupEffect) → e.Response → Option Phase
  | .newClientOwner, _ => none
  | .lookupHost _, _ | .timer _, _ =>
    match phase with
    | .idle => some .idle
    | _ => none
  | .authStamp, stamp =>
    -- an attempt that did not come to a session is given up in any phase
    match phase with
    | .serving _ => none
    | _ => some (.after .authorized (RpcClient.connect H.auth stamp))
  | .connectTransport addr transport, response =>
    match phase with
    | .authorized rpc =>
      if transport = H.transport then some (.after (.connected rpc addr) response) else none
    | _ => none
  | .verifierValue, verifier =>
    match phase with
    | .connected rpc addr c => some (.named rpc addr c verifier)
    | _ => none
  | .call connection payload, response => H.observeCall phase connection payload response
  | .reduceMaxResponseBytes connection limit, _ =>
    match phase with
    | .created t =>
      if connection = t.connection ∧ limit = t.created.foreAttrs.maxResponseSize.toNat then
        some (.bounded t)
      else none
    | _ => none
  | .session connection (.exchange s tag ops), response =>
    H.observeExchange phase connection s tag ops response
  | .session connection (.sleepBeforeTransientRetry ..), _ =>
    match phase with
    | .bounded t | .reclaimed t | .latched t =>
      if connection = t.connection then some phase else none
    | _ => none
  | .session .., _ => none
  | .storeReclaimComplete connection, _ =>
    match phase with
    | .reclaimed t => if connection = t.connection then some (.latched t) else none
    | _ => none
  | .getMut connection, unshared => observeGetMut phase connection unshared
  | .spawnDeferredCloseWorker connection, _ =>
    match phase with
    | .owned t exportRoot =>
      if connection = t.connection then some (.serving (t.established H exportRoot)) else none
    | _ => none

/-! ### One attempt -/

variable {H} {phase : Phase} {addr : SocketAddr} {connection : Connection}

/-- The rule for a request outside the session. -/
theorem safe_setup {e : SetupEffect} {post : e.Response → Option Phase → Prop}
    (h : ∀ r, ∃ phase', H.observe phase e r = some phase' ∧ post r (some phase')) :
    Safe (E := setupEffects) (observing H.observe) Eq Accepting post (setup e) (some phase) := by
  rintro _ r _ rfl rfl
  obtain ⟨phase', hphase, hpost⟩ := h r
  change Accepting _ (H.observe phase e r) ∧ post r (H.observe phase e r)
  rw [hphase]
  exact ⟨rfl, hpost⟩

/-- A request that returns, as a step of code that may fail. -/
theorem safe_setupLift {e : SetupEffect} {post : Except Error e.Response → Option Phase → Prop}
    (h : ∀ r, ∃ phase', H.observe phase e r = some phase' ∧ post (.ok r) (some phase')) :
    Safe (E := setupEffects) (observing H.observe) Eq Accepting post
      (liftM (setup e) : SetupM e.Response).run (some phase) :=
  safe_lift (safe_setup h)

/-- The rule for a call of the new session. -/
theorem safe_sessionCall {s : NfsSession} {call : SessionCall}
    {post : Except Error call.Result → Option Phase → Prop} (P : Phase → Prop) (hP : P phase)
    (hinvalid : ∀ p err, P p → post (.error (Error.notSent err)) (some p))
    (hexchange : ∀ p resp, P p → ∃ p',
      H.observeExchange p connection s call.tag (call.ops s) resp = some p' ∧
        post ((call.received resp).mapError CompoundDecodeError.error) (some p') ∧
        ∀ err, call.received resp = .error err → P p')
    (hsleep : ∀ p status attempt, P p →
      H.observe p (.session connection (.sleepBeforeTransientRetry status attempt)) () = some p) :
    Safe (E := setupEffects) (observing H.observe) Eq Accepting post
      (onConnection connection (s.call call)).run (some phase) := by
  apply safe_relay
  apply safe_call (fun w => ∃ p, w = some p ∧ P p) ⟨phase, rfl, hP⟩
  · rintro w _ hw rfl
    exact hw
  · rintro _ err ⟨p, rfl, hp⟩ _
    exact hinvalid p _ hp
  · rintro _ resp w₂ _ ⟨p, rfl, hp⟩ ⟨_, hserve, rfl⟩
    obtain ⟨p', hp', hpost, hretry⟩ := hexchange p _ hp
    have hw₂ : w₂ = some p' := hserve.trans hp'
    subst hw₂
    exact ⟨rfl, hpost, fun err herr _ => ⟨p', rfl, hretry err herr⟩⟩
  · rintro status attempt _ w₂ ⟨p, rfl, hp⟩ ⟨_, hserve, _⟩
    have hw₂ : w₂ = some p := hserve.trans (hsleep p status attempt hp)
    subst hw₂
    exact ⟨rfl, p, rfl, hp⟩

theorem observe_authStamp (h : phase.isServing = false) (stamp : UInt32) :
    H.observe phase .authStamp stamp
      = some (.after .authorized (RpcClient.connect H.auth stamp)) := by
  cases phase with
  | serving x => cases h
  | _ => rfl

/-- The terms were agreed on with the replies of some server. -/
structure Terms.Agreed (H : Handshake) (t : Terms) : Prop where
  rpc : ∃ stamp, RpcClient.connect H.auth stamp = .ok t.rpc
  exchange : ∃ response, decodeExchangeIdCompound response = .ok t.exchange
  created : ∃ response, decodeCreateSessionCompound response t.exchange.sequenceid
    (minimumRequestSize t.rpc) = .ok t.created

/-- A session was set up on terms that were agreed on. -/
def Agrees (H : Handshake) (x : Established) : Prop :=
  ∃ (t : Terms) (exportRoot : FileHandle) (path : NfsPath) (response : Bytes),
    t.Agreed H ∧ x = t.established H exportRoot ∧
      NfsPath.parseComponents H.config.export = .ok path ∧
      (SessionCall.resolveExportRoot path.components).decode response = .ok exportRoot

/-- How an attempt ends. -/
def Ended (H : Handshake) (r : Except Error Established) (w : Option Phase) : Prop :=
  ∃ p, w = some p ∧ match r with
    | .error _ => p.isServing = false
    | .ok x => p = .serving x ∧ Agrees H x

section

variable {rpc : RpcClient} {verifier : UInt64} {exchange : ExchangeIdResult}

theorem safe_connectTransport {post : Except Error Connection → Option Phase → Prop}
    (herr : ∀ err, post (.error err) (some .idle))
    (hok : ∀ c, post (.ok c) (some (.connected rpc addr c))) :
    Safe (E := setupEffects) (observing H.observe) Eq Accepting post
      (setup (.connectTransport addr H.transport)) (some (.authorized rpc)) := by
  apply safe_setup
  intro response
  change Except Error Connection at response
  cases response with
  | error err => exact ⟨.idle, if_pos rfl, herr err⟩
  | ok c => exact ⟨.connected rpc addr c, if_pos rfl, hok c⟩

/-- The rule for a call without a session. -/
theorem safe_decodedCall {α : Type} {payload : Bytes} {decode : Bytes → Except Error α}
    {post : Except Error α → Option Phase → Prop} (next : α → Phase)
    (hobserve : ∀ response, H.observe phase (.call connection payload) response
      = some (.after next ((response : Except Error Bytes) >>= decode)))
    (herr : ∀ err, post (.error err) (some .idle))
    (hok : ∀ a, (∃ response, decode response = .ok a) → post (.ok a) (some (next a))) :
    Safe (E := setupEffects) (observing H.observe) Eq Accepting post
      (do decode (← ExceptT.mk (setup (.call connection payload))) : SetupM α).run
      (some phase) := by
  apply safe_bindExcept
  apply safe_setup
  intro response
  rw [hobserve]
  change Except Error Bytes at response
  cases response with
  | error err => exact ⟨.idle, rfl, herr err⟩
  | ok bytes =>
    change ∃ phase', some (Phase.after next (decode bytes)) = some phase' ∧
      post (decode bytes) (some phase')
    cases hdecode : decode bytes with
    | error err => exact ⟨.idle, rfl, herr err⟩
    | ok a => exact ⟨next a, rfl, hok a ⟨bytes, hdecode⟩⟩

theorem safe_exchangeId {post : Except Error ExchangeIdResult → Option Phase → Prop}
    (herr : ∀ err, post (.error err) (some .idle))
    (hok : ∀ exchange, (∃ response, decodeExchangeIdCompound response = .ok exchange) →
      post (.ok exchange) (some (.identified rpc addr connection verifier exchange))) :
    Safe (E := setupEffects) (observing H.observe) Eq Accepting post
      (exchangeId connection H.ownerid verifier).run (some (.named rpc addr connection verifier)) :=
  safe_decodedCall (.identified rpc addr connection verifier) (fun _ => if_pos ⟨rfl, rfl⟩) herr hok

theorem safe_createSession {post : Except Error CreateSessionResult → Option Phase → Prop}
    (herr : ∀ err, post (.error err) (some .idle))
    (hok : ∀ created, (∃ response, decodeCreateSessionCompound response exchange.sequenceid
        (minimumRequestSize rpc) = .ok created) →
      post (.ok created) (some (.created ⟨rpc, addr, connection, verifier, exchange, created⟩))) :
    Safe (E := setupEffects) (observing H.observe) Eq Accepting post
      (createSession rpc connection exchange H.config).run
      (some (.identified rpc addr connection verifier exchange)) :=
  safe_decodedCall (fun created => .created ⟨rpc, addr, connection, verifier, exchange, created⟩)
    (fun _ => if_pos ⟨rfl, rfl⟩) herr hok

end

theorem safe_reclaimComplete {t : Terms}
    {post : Except Error Unit → Option Phase → Prop}
    (herr : ∀ err p, p = .bounded t ∨ p = .reclaimed t → post (.error err) (some p))
    (hok : post (.ok ()) (some (.reclaimed t))) :
    Safe (E := setupEffects) (observing H.observe) Eq Accepting post
      (reclaimComplete (t.session H) t.connection).run (some (.bounded t)) := by
  unfold reclaimComplete
  apply safe_bindExcept
  apply safe_attempt
  apply safe_sessionCall (fun p => p = .bounded t ∨ p = .reclaimed t) (Or.inl rfl)
  · intro p err hp
    have hstatus : err.notSent.isNfsStatus .COMPLETE_ALREADY = false := by cases err <;> rfl
    dsimp only
    rw [if_neg (by simp [hstatus])]
    exact herr _ p hp
  · intro p resp hp
    have hobserve : H.observeExchange p t.connection (t.session H) SessionCall.reclaimComplete.tag
        (SessionCall.reclaimComplete.ops (t.session H)) resp
        = some (if reclaims resp then .reclaimed t else p) := by
      obtain rfl | rfl := hp <;> exact if_pos ⟨rfl, rfl, rfl, rfl⟩
    refine ⟨_, hobserve, ?_, ?_⟩
    · unfold reclaims
      cases SessionCall.reclaimComplete.received resp with
      | ok _ => exact hok
      | error err =>
        dsimp only [Except.mapError]
        split
        · exact hok
        · exact herr _ p hp
    · intro err _
      split
      · exact Or.inr rfl
      · exact hp
  · intro p status attempt hp
    obtain rfl | rfl := hp <;> exact if_pos rfl

theorem safe_resolveExportRoot {t : Terms} {path : NfsPath}
    {post : Except Error (SessionCall.resolveExportRoot path.components).Result →
      Option Phase → Prop}
    (hpath : NfsPath.parseComponents H.config.export = .ok path)
    (herr : ∀ err, post (.error err) (some (.latched t)))
    (hok : ∀ exportRoot, (∃ response,
        (SessionCall.resolveExportRoot path.components).decode response = .ok exportRoot) →
      post (.ok exportRoot) (some (.resolved t exportRoot))) :
    Safe (E := setupEffects) (observing H.observe) Eq Accepting post
      (onConnection t.connection ((t.session H).call (.resolveExportRoot path.components))).run
      (some (.latched t)) := by
  apply safe_sessionCall (fun p => p = .latched t) rfl
  · rintro _ err rfl
    exact herr _
  · rintro _ resp rfl
    have hobserve : H.observeExchange (.latched t) t.connection (t.session H)
        (SessionCall.resolveExportRoot path.components).tag
        ((SessionCall.resolveExportRoot path.components).ops (t.session H)) resp
        = some (.resolution t ((SessionCall.resolveExportRoot path.components).received resp)) := by
      unfold observeExchange
      rw [hpath]
      exact if_pos ⟨rfl, rfl, rfl, rfl⟩
    rw [hobserve]
    cases hreceived : (SessionCall.resolveExportRoot path.components).received resp with
    | ok exportRoot =>
      obtain ⟨_, response, -, hdecode⟩ := SessionCall.received_ok hreceived
      exact ⟨_, rfl, hok exportRoot ⟨response, hdecode⟩, fun _ h => by cases h⟩
    | error err => exact ⟨_, rfl, herr _, fun _ _ => rfl⟩
  · rintro _ status attempt rfl
    exact if_pos rfl

/-- An attempt that failed in a phase before the last. -/
theorem ended_error {err : Error} (h : phase.isServing = false) :
    Ended H (.error err) (some phase) := ⟨phase, rfl, h⟩

/-- **One attempt keeps to the order,** and has a session only at its end. -/
theorem safe_connect (hphase : phase.isServing = false) :
    Safe (E := setupEffects) (observing H.observe) Eq Accepting (Ended H)
      (NfsSession.connect addr H.auth H.config H.transport H.ownerid).run (some phase) := by
  unfold NfsSession.connect
  apply safe_bindExcept
  apply safe_setupLift
  intro stamp
  refine ⟨_, observe_authStamp hphase stamp, ?_⟩
  apply safe_bindExcept
  apply safe_except
  cases hrpc : RpcClient.connect H.auth stamp with
  | error err => exact ended_error rfl
  | ok rpc =>
    apply safe_bindExcept
    apply safe_connectTransport
    · intro err
      exact ended_error rfl
    intro c
    apply safe_bindExcept
    apply safe_setupLift
    intro verifier
    refine ⟨_, rfl, ?_⟩
    apply safe_bindExcept
    apply safe_exchangeId
    · intro err
      exact ended_error rfl
    intro exchange hexchange
    apply safe_bindExcept
    apply safe_createSession
    · intro err
      exact ended_error rfl
    intro created hcreated
    let t : Terms := ⟨rpc, addr, c, verifier, exchange, created⟩
    have hagreed : t.Agreed H := ⟨⟨stamp, hrpc⟩, hexchange, hcreated⟩
    apply safe_bindExcept
    apply safe_setupLift
    intro _
    refine ⟨_, if_pos ⟨rfl, rfl⟩, ?_⟩
    apply safe_bindExcept
    apply safe_reclaimComplete (t := t)
    · rintro err p (rfl | rfl)
      · exact ended_error rfl
      · exact ended_error rfl
    apply safe_bindExcept
    apply safe_setupLift
    intro _
    refine ⟨_, if_pos rfl, ?_⟩
    apply safe_bindExcept
    apply safe_except
    have hexport : (newSession rpc H.config exchange created).config.export = H.config.export := rfl
    rw [hexport]
    cases hpath : NfsPath.parseComponents H.config.export with
    | error err => exact ended_error rfl
    | ok path =>
      apply safe_bindExcept
      apply safe_resolveExportRoot (t := t) hpath
      · intro err
        exact ended_error rfl
      rintro exportRoot ⟨response, hdecode⟩
      apply safe_bindExcept
      apply safe_setupLift
      intro unshared
      refine ⟨_, if_pos rfl, ?_⟩
      change Bool at unshared
      cases unshared with
      | false => exact ended_error rfl
      | true =>
        apply safe_bindExcept
        apply safe_setupLift
        intro _
        refine ⟨_, if_pos rfl, ?_⟩
        exact ⟨_, rfl, rfl, t, exportRoot, path, response, hagreed, rfl, hpath, hdecode⟩

/-! ### Attempts -/

/-- The attempts one after another. -/
theorem safe_connectSession {lastError : Option Error} {addrs : List SocketAddr}
    (hphase : phase.isServing = false) :
    Safe (E := setupEffects) (observing H.observe) Eq Accepting (Ended H)
      (connectSession H.auth H.transport H.config H.ownerid lastError addrs).run (some phase) := by
  induction addrs generalizing lastError phase with
  | nil => exact ended_error hphase
  | cons addr addrs ih =>
    apply safe_bindExcept
    apply safe_attempt
    apply (safe_connect hphase).mono
    intro r w hr
    cases r with
    | ok x => exact hr
    | error err =>
      obtain ⟨p, rfl, hp⟩ := hr
      exact ih hp

/-- What has been reached when a session is returned. -/
def Reached (H : Handshake) (r : Except Error Established) (w : Option Phase) : Prop :=
  ∀ x, r = .ok x → w = some (.serving x) ∧ Agrees H x

theorem Ended.reached {r : Except Error Established} {w : Option Phase} (h : Ended H r w) :
    Reached H r w := by
  rintro x rfl
  obtain ⟨p, rfl, rfl, hx⟩ := h
  exact ⟨rfl, hx⟩

theorem safe_resolveAndConnect (endpoint : String) :
    Safe (E := setupEffects) (observing H.observe) Eq Accepting (Reached H)
      (do connectSession H.auth H.transport H.config H.ownerid none (← resolveAddrs endpoint) :
        SetupM Established).run (some .idle) := by
  apply safe_bindExcept
  unfold resolveAddrs
  apply safe_bindExcept
  apply safe_setup
  intro response
  refine ⟨.idle, rfl, ?_⟩
  change Except Error (List SocketAddr) at response
  cases response with
  | error err =>
    intro x h
    cases h
  | ok addrs =>
    dsimp only
    split
    · intro x h
      cases h
    · exact (safe_connectSession rfl).mono fun _ _ => Ended.reached

/-- A timeout gives up an attempt anywhere. -/
theorem safe_resolveAndConnectSession (endpoint : String) (timeout : Option Duration) :
    Safe (E := setupEffects) (observing H.observe) Eq Accepting (Reached H)
      (resolveAndConnectSession endpoint H.auth H.transport H.config timeout H.ownerid).run
      (some .idle) := by
  cases timeout with
  | none => exact safe_resolveAndConnect endpoint
  | some timeout =>
    apply safe_bind
    apply safe_setup
    intro requests
    refine ⟨.idle, rfl, ?_⟩
    apply safe_bind
    apply safe_cut _ (safe_resolveAndConnect endpoint)
    · intro r w hr
      exact hr
    · intro w x h
      cases h

end Handshake

/-! ### A handshake -/

namespace Doorman

def tag : Opaque := ⟨[], Opaque.short_nil⟩

def channel : ChannelRes := ⟨0, 8192, 8192, 0, 16, 4, [], WireBitmap.short_nil⟩

def exchanged : ExchangeIdRes := ⟨9, 1, 0, 0, tag, tag, [], ImplId.short_nil⟩

def created (sequenceid : UInt32) : CreateSessionRes :=
  ⟨.replicate 16 1, sequenceid, 0, channel, channel⟩

/-- The doorman reads what it is asked. -/
def setup (payload : Bytes) : Bytes :=
  match readWhole readCompoundRequest payload with
  | .ok ⟨_, [.op (.createSession _ sequenceid _)]⟩ =>
    setupReply tag .createSession (created sequenceid).body
  | _ => setupReply tag .exchangeId exchanged.body

/-- The replies of the new session, with its `SEQUENCE`. -/
def reply (results : List OpRes) (h : results.length + 1 < 2 ^ 32) : CompoundReply :=
  ⟨tag, ⟨.sequence (.replicate 16 1) 1 0 3 3 0 :: results, none⟩, h⟩

def answer (ops : List NfsOp) : CompoundReply :=
  if ops = [.reclaimComplete false] then reply [.reclaimComplete] (by decide)
  else reply [.putRootFh, .getFh ⟨[8], by decide⟩] (by decide)

/-- What does not happen while a session is set up. -/
def idle : (e : Effect) → e.Response
  | .exchange _ _ ops => .ok (⟨.replicate 16 1, 1, 0⟩, (answer ops).encode)
  | .sleepBeforeTransientRetry .. | .latchFusedPutOff _ => ()
  | .sessionSlotCount _ | .unixNowMillis => (0 : ℕ)
  | .fusedPutSupported _ | .deferClose .. => true
  | .nextOwner _ => ([] : Bytes)
  | .tempFileName => ""
  | .currentSession => ⟨⟨⟨[]⟩, 0, 0, { «export» := "" }⟩, 0⟩
  | .reconnect .. => .ok ()

/-- A network and a server that answer every request, with a channel of 8 KiB. -/
def answers : (e : SetupEffect) → e.Response
  | .newClientOwner => "nfs-crust:1"
  | .lookupHost _ => .ok [⟨[127, 0, 0, 1], 2049⟩]
  | .timer _ => (100 : ℕ)
  | .authStamp => (7 : UInt32)
  | .connectTransport .. => .ok 3
  | .verifierValue => (5 : UInt64)
  | .call _ payload => .ok (setup payload)
  | .session _ e => idle e
  | .getMut _ => true
  | .reduceMaxResponseBytes .. | .storeReclaimComplete _ | .spawnDeferredCloseWorker _ => ()

end Doorman

def plainHandshake : Handshake := ⟨⟨"", 0, 0, []⟩, .plaintext, { «export» := "/" }, "nfs-crust:1"⟩

def plainConnect : Thread setupEffects (Except Error Established) :=
  (resolveAndConnectSession "server" plainHandshake.auth plainHandshake.transport
    plainHandshake.config (some 30) plainHandshake.ownerid).run

end NfsCrust
