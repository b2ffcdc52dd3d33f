import NfsCrust.Connect.Sound
import NfsCrust.Delivery

/-!
# Being let in

A client meets a network that works and a server that answers every request of the handshake.
Then connecting succeeds, with a session that can be relied on.

## Main definitions

* `Welcomes` — a response of a network and of servers that let the client in.

## Main results

* `welcome_connect` — one attempt.
* `connect_welcome` — a client that is let in has a session.
-/

namespace NfsCrust

open Interaction Thread StateExcept Rpc.Framing

/-! ### Servers -/

/-- A channel on which the export can be resolved. -/
structure Handshake.Admits (H : Handshake) (path : NfsPath) (attrs : ChannelAttrs) : Prop where
  maxoperations : path.components.length + 3 ≤ attrs.maxoperations.toNat
  maxRequestSize : 446 + compoundWithSequenceEncodedLen "resolve-export"
    (rootPathOps path.components ++ [.getFh]) ≤ attrs.maxRequestSize.toNat
  maxResponseSize : 80 ≤ attrs.maxResponseSize.toNat

/-- The server has done what it was asked; or it has been told before that there is nothing to
reclaim. -/
def Obeyed (ops : List NfsOp) (t : Replies) : Prop :=
  Replies.Answers (ops.map NfsOp.opcode) t ∧
    (t.failure = none ∨ ops = [.reclaimComplete false] ∧
      t.failure = some ⟨.reclaimComplete, .COMPLETE_ALREADY⟩) ∧
    ∀ handle, .getFh handle ∈ t.results → handle.bytes.length ≤ 128

/-- The operations that a new session sends. -/
def InHandshake (path : NfsPath) (ops : List NfsOp) : Prop :=
  ops = [.reclaimComplete false] ∨ ops = rootPathOps path.components ++ [.getFh]

/-- A response of a network that works, and of a server that lets the client in. -/
def Welcomes (H : Handshake) (path : NfsPath) : (e : SetupEffect) → e.Response → Prop
  | .lookupHost _, r => ∃ addr addrs, r = .ok (addr :: addrs)
  | .connectTransport .., r => ∃ c, r = .ok c
  | .call _ payload, r =>
      (∀ verifier, payload = exchangeIdPayload H.ownerid verifier →
        ∃ (tag : Opaque) (res : ExchangeIdRes), r = .ok (setupReply tag .exchangeId res.body)) ∧
      ∀ exchange, payload = createSessionPayload exchange H.config →
        ∃ (tag : Opaque) (res : CreateSessionRes), r = .ok (setupReply tag .createSession res.body) ∧
          res.sequenceid = exchange.sequenceid ∧ res.fore.Open ∧ res.back.Open ∧
          H.Admits path res.fore.attrs
  | .session _ (.exchange _ _ ops), r => InHandshake path ops →
      ∃ slot response t, r = .ok (slot, response) ∧ Delivered slot t response ∧ Obeyed ops t
  | .getMut _, unshared => unshared = true
  | _, _ => True

section

variable {H : Handshake} {path : NfsPath}

theorem exists_connect {auth : AuthSys} (h : auth.validate = .ok ()) (stamp : UInt32) :
    ∃ rpc, RpcClient.connect auth stamp = .ok rpc := by
  have hbody : auth.encodeBody stamp = .ok (putU32 stamp ++ putString auth.machineName
      ++ putU32 auth.uid ++ putU32 auth.gid ++ putU32 (.ofNat auth.gids.length)
      ++ (auth.gids.map putU32).flatten) := by
    unfold AuthSys.encodeBody
    rw [h]
    rfl
  have hlen := AuthSys.length_encodeBody_le hbody
  have hmax : AUTH_SYS_MAX_BODY_LEN = 400 := rfl
  unfold RpcClient.connect
  rw [hbody]
  exact ⟨_, dif_pos (by omega)⟩

/-- The session that a welcoming server grants admits the calls of the handshake. -/
theorem validate_resolveExportRoot {rpc : RpcClient} {exchange : ExchangeIdResult}
    {created : CreateSessionResult} (hauth : rpc.authBody.length ≤ 400)
    (hconfig : 446 + compoundWithSequenceEncodedLen "resolve-export"
      (rootPathOps path.components ++ [.getFh]) ≤ H.config.maxRequestSize.toNat)
    (h : H.Admits path created.foreAttrs) :
    (newSession rpc H.config exchange created).validateCompoundRequest "resolve-export"
      (rootPathOps path.components ++ [.getFh]) = .ok () := by
  rw [NfsSession.validateCompoundRequest_eq_ok]
  obtain ⟨hops, hrequest, -⟩ := h
  constructor
  · change _ ≤ created.foreAttrs.maxoperations.toNat
    simp only [saturatingAdd, List.length_append, rootPathOps, List.length_cons, List.length_map,
      List.length_nil]
    omega
  · have hlen := encodedCallLen_le (s := newSession rpc H.config exchange created)
      (compoundWithSequenceEncodedLen "resolve-export" (rootPathOps path.components ++ [.getFh])) hauth
    have hmin : (newSession rpc H.config exchange created).config.maxRequestSize.toNat
        = min H.config.maxRequestSize.toNat created.foreAttrs.maxRequestSize.toNat :=
      toNat_negotiated_maxRequestSize rfl
    omega

theorem validate_reclaimComplete {s : NfsSession}
    (h : s.validateCompoundRequest "resolve-export" (rootPathOps path.components ++ [.getFh])
      = .ok ()) :
    s.validateCompoundRequest SessionCall.reclaimComplete.tag (SessionCall.reclaimComplete.ops s)
      = .ok () := by
  apply NfsSession.validateCompoundRequest_of_le h
  · simp [SessionCall.ops, rootPathOps]
  · have htag : xdrStringLen "reclaim-complete" = 20 := by decide +kernel
    have htag' : xdrStringLen "resolve-export" = 20 := by decide +kernel
    have hroot : NfsOp.putRootFh.encodedLen = 4 := rfl
    have hreclaim : (NfsOp.reclaimComplete false).encodedLen = 8 := rfl
    have hgetFh : NfsOp.getFh.encodedLen = 4 := rfl
    simp only [SessionCall.ops, SessionCall.tag, rootPathOps, opsLen_append, opsLen_cons, opsLen_nil]
    omega

/-- A channel on which the export can be resolved is one that the client accepts. -/
theorem usable_of_admits {rpc : RpcClient} {r : ChannelRes} (hauth : rpc.authBody.length ≤ 400)
    (hconfig : 446 + compoundWithSequenceEncodedLen "resolve-export"
      (rootPathOps path.components ++ [.getFh]) ≤ H.config.maxRequestSize.toNat)
    (hopen : r.Open) (h : H.Admits path r.attrs) : r.attrs.Usable (minimumRequestSize rpc) := by
  let s := newSession rpc H.config ⟨0, 0⟩ ⟨.replicate 16 0, r.attrs⟩
  have hvalid : s.validateCompoundRequest "resolve-export" (rootPathOps path.components ++ [.getFh])
      = .ok () := validate_resolveExportRoot hauth hconfig h
  have hbare : s.validateCompoundRequest "" [] = .ok () := by
    apply NfsSession.validateCompoundRequest_of_le hvalid (Nat.zero_le _)
    have htag : xdrStringLen "" = 4 := by decide +kernel
    have htag' : xdrStringLen "resolve-export" = 20 := by decide +kernel
    rw [opsLen_nil]
    omega
  have hrequest : minimumRequestSize rpc ≤ s.config.maxRequestSize.toNat :=
    (NfsSession.validateCompoundRequest_eq_ok.mp hbare).2
  have hmin : s.config.maxRequestSize.toNat
      = min H.config.maxRequestSize.toNat r.attrs.maxRequestSize.toNat :=
    toNat_negotiated_maxRequestSize rfl
  obtain ⟨hops, -, hresponse⟩ := h
  refine ⟨Nat.pos_of_ne_zero fun h0 => hopen.maxrequests (UInt32.toNat_inj.mp h0), ?_, ?_, hresponse⟩
  · omega
  · omega

/-- The rule for a request outside the session. -/
theorem welcome_setup {e : SetupEffect} {post : e.Response → Unit → Prop}
    (h : ∀ r, Welcomes H path e r → post r ()) :
    Safe (E := setupEffects) (fun e _ r _ => Welcomes H path e r) Eq (fun _ _ => True) post
      (setup e) () :=
  fun _ r _ _ hr => ⟨trivial, h r hr⟩

/-- The rule for a call of the new session. -/
theorem welcome_call {s : NfsSession} {call : SessionCall} {connection : Connection}
    {post : Except Error call.Result → Unit → Prop}
    (hvalid : s.validateCompoundRequest call.tag (call.ops s) = .ok ())
    (hops : InHandshake path (call.ops s))
    (h : ∀ slot response t, Delivered slot t response → Obeyed (call.ops s) t →
      post ((call.received (.ok (slot, response))).mapError CompoundDecodeError.error) ()) :
    Safe (E := setupEffects) (fun e _ r _ => Welcomes H path e r) Eq (fun _ _ => True) post
      (onConnection connection (s.call call)).run () := by
  apply safe_relay
  apply safe_call (fun _ => True) trivial (fun _ _ _ _ => trivial)
  · intro _ err _ hinvalid
    rw [hvalid] at hinvalid
    cases hinvalid
  · rintro _ _ _ _ _ ⟨_, hwelcome, rfl⟩
    obtain ⟨slot, response, t, rfl, hdelivered, hobeyed⟩ := hwelcome hops
    exact ⟨trivial, h slot response t hdelivered hobeyed, fun _ _ _ => trivial⟩
  · intro _ _ _ _ _ _
    exact ⟨trivial, trivial⟩

/-- The calls of the handshake. -/
inductive SessionCall.InHandshake : SessionCall → Prop
  | reclaim : InHandshake .reclaimComplete
  | resolve (components : List String) : InHandshake (.resolveExportRoot components)

/-- The client supports what an obedient server answers to them. -/
theorem SessionCall.InHandshake.supported {call : SessionCall} {s : NfsSession} {t : Replies}
    (hcall : call.InHandshake) (h : Obeyed (call.ops s) t) : call.Supported t.results := by
  obtain ⟨hanswers, -, hhandles⟩ := h
  have hopcode : ∀ r ∈ t.results, r.opcode = .reclaimComplete ∨ r.opcode = .putRootFh ∨
      r.opcode = .lookup ∨ r.opcode = .getFh := by
    intro r hr
    have hmem := hanswers.opcode_mem r hr
    cases hcall with
    | reclaim => simpa [ops, NfsOp.opcode] using Or.inl hmem
    | resolve components =>
      simp only [ops, List.map_append, map_opcode_rootPathOps] at hmem
      simp [NfsOp.opcode] at hmem
      tauto
  constructor
  · intro res hres
    simpa [OpRes.opcode] using hopcode _ hres
  · exact hhandles
  · intro attrs request _ hrequest
    cases hcall <;> cases hrequest
  · intro verifier listed eof hres
    simpa [OpRes.opcode] using hopcode _ hres
  · cases hcall <;> trivial

theorem welcome_reclaimComplete {s : NfsSession} {connection : Connection}
    {post : Except Error Unit → Unit → Prop}
    (hvalid : s.validateCompoundRequest SessionCall.reclaimComplete.tag
      (SessionCall.reclaimComplete.ops s) = .ok ()) (h : post (.ok ()) ()) :
    Safe (E := setupEffects) (fun e _ r _ => Welcomes H path e r) Eq (fun _ _ => True) post
      (reclaimComplete s connection).run () := by
  unfold reclaimComplete
  apply safe_bindExcept
  apply safe_attempt
  apply welcome_call hvalid (Or.inl rfl)
  rintro slot response t hdelivered ⟨hanswers, hfailure, hhandles⟩
  have hholds := SessionCall.reclaimComplete.received_delivered (s := s) hdelivered hanswers
  cases hreceived : SessionCall.reclaimComplete.received (.ok (slot, response)) with
  | ok _ => exact h
  | error err =>
    rw [hreceived] at hholds
    obtain ⟨-, f, hf, -, rfl⟩ | ⟨-, hunsupported⟩ := hholds
    · obtain hnone | ⟨-, halready⟩ := hfailure
      · cases hnone.symm.trans hf
      · cases halready.symm.trans hf
        exact h
    · exact absurd (SessionCall.InHandshake.reclaim.supported ⟨hanswers, hfailure, hhandles⟩) hunsupported

theorem welcome_resolveExportRoot {s : NfsSession} {connection : Connection}
    {post : Except Error (SessionCall.resolveExportRoot path.components).Result → Unit → Prop}
    (hvalid : s.validateCompoundRequest "resolve-export" (rootPathOps path.components ++ [.getFh])
      = .ok ()) (h : ∀ exportRoot, post (.ok exportRoot) ()) :
    Safe (E := setupEffects) (fun e _ r _ => Welcomes H path e r) Eq (fun _ _ => True) post
      (onConnection connection (s.call (.resolveExportRoot path.components))).run () := by
  apply welcome_call hvalid (Or.inr rfl)
  rintro slot response ⟨os, failure⟩ hdelivered ⟨hanswers, hfailure, hhandles⟩
  have hsupported := (SessionCall.InHandshake.resolve path.components).supported
    ⟨hanswers, hfailure, hhandles⟩
  obtain rfl | ⟨hops, -⟩ := hfailure
  · obtain ⟨exportRoot, hreceived, -⟩ :=
      SessionCall.received_complete _ hdelivered hanswers hsupported
    rw [hreceived]
    exact h exportRoot
  · cases hops

/-- **A client that is let in has a session,** on the first address it tries. -/
theorem welcome_connect (hauth : H.auth.validate = .ok ())
    (hpath : NfsPath.parseComponents H.config.export = .ok path)
    (hconfig : 446 + compoundWithSequenceEncodedLen "resolve-export"
      (rootPathOps path.components ++ [.getFh]) ≤ H.config.maxRequestSize.toNat) (addr : SocketAddr) :
    Safe (E := setupEffects) (fun e _ r _ => Welcomes H path e r) Eq (fun _ _ => True)
      (fun r _ => ∃ x, r = .ok x)
      (NfsSession.connect addr H.auth H.config H.transport H.ownerid).run () := by
  unfold NfsSession.connect
  apply safe_bindExcept
  apply safe_lift
  apply welcome_setup
  intro stamp _
  obtain ⟨rpc, hrpc⟩ := exists_connect hauth stamp
  have hbody := length_authBody_le hrpc
  apply safe_bindExcept
  apply safe_except
  rw [hrpc]
  apply safe_bindExcept
  apply welcome_setup
  rintro _ ⟨c, rfl⟩
  apply safe_bindExcept
  apply safe_lift
  apply welcome_setup
  intro verifier _
  apply safe_bindExcept
  apply safe_bindExcept
  apply welcome_setup
  rintro response ⟨hexchange, -⟩
  obtain ⟨tag, res, rfl⟩ := hexchange verifier rfl
  apply safe_except
  rw [decodeExchangeIdCompound, decodeSetupCompound_setupReply _ _ _ (reads_decodeExchangeId res)]
  apply safe_bindExcept
  apply safe_bindExcept
  apply welcome_setup
  rintro response ⟨-, hcreate⟩
  obtain ⟨tag', res', rfl, hseq, hfore, hback, hadmits⟩ := hcreate _ rfl
  have husable := usable_of_admits hbody hconfig hfore hadmits
  apply safe_except
  rw [decodeCreateSessionCompound, ← hseq,
    decodeSetupCompound_setupReply _ _ _ (reads_decodeCreateSession hfore hback husable)]
  have hvalid : (newSession rpc H.config ⟨res.clientid, res.sequenceid⟩
      ⟨res'.sessionid, res'.fore.attrs⟩).validateCompoundRequest "resolve-export"
        (rootPathOps path.components ++ [.getFh]) = .ok () :=
    validate_resolveExportRoot hbody hconfig hadmits
  apply safe_bindExcept
  apply safe_lift
  apply welcome_setup
  intro _ _
  apply safe_bindExcept
  apply welcome_reclaimComplete (validate_reclaimComplete hvalid)
  apply safe_bindExcept
  apply safe_lift
  apply welcome_setup
  intro _ _
  apply safe_bindExcept
  apply safe_except
  have hexport : (newSession rpc H.config ⟨res.clientid, res.sequenceid⟩
    ⟨res'.sessionid, res'.fore.attrs⟩).config.export = H.config.export := rfl
  rw [hexport, hpath]
  apply safe_bindExcept
  apply welcome_resolveExportRoot hvalid
  intro exportRoot
  apply safe_bindExcept
  apply safe_lift
  apply welcome_setup
  rintro _ rfl
  apply safe_bindExcept
  apply safe_lift
  apply welcome_setup
  intro _ _
  exact ⟨_, rfl⟩

/-- What becomes of a client that is let in. -/
def LetIn (timeout : Option Duration) (r : Except Error Established) : Prop :=
  (∃ x, r = .ok x) ∨ ∃ d, timeout = some d ∧ r = .error (.timeout d)

theorem welcome_resolveAndConnect (hauth : H.auth.validate = .ok ())
    (hpath : NfsPath.parseComponents H.config.export = .ok path)
    (hconfig : 446 + compoundWithSequenceEncodedLen "resolve-export"
      (rootPathOps path.components ++ [.getFh]) ≤ H.config.maxRequestSize.toNat) (endpoint : String) :
    Safe (E := setupEffects) (fun e _ r _ => Welcomes H path e r) Eq (fun _ _ => True)
      (fun r _ => ∃ x, r = .ok x)
      (do connectSession H.auth H.transport H.config H.ownerid none (← resolveAddrs endpoint) :
        SetupM Established).run () := by
  apply safe_bindExcept
  unfold resolveAddrs
  apply safe_bindExcept
  apply welcome_setup
  rintro _ ⟨addr, addrs, rfl⟩
  apply safe_bindExcept
  apply safe_attempt
  apply (welcome_connect hauth hpath hconfig addr).mono
  rintro _ _ ⟨x, rfl⟩
  exact ⟨x, rfl⟩

theorem welcome_resolveAndConnectSession (hauth : H.auth.validate = .ok ())
    (hpath : NfsPath.parseComponents H.config.export = .ok path)
    (hconfig : 446 + compoundWithSequenceEncodedLen "resolve-export"
      (rootPathOps path.components ++ [.getFh]) ≤ H.config.maxRequestSize.toNat) (endpoint : String)
    (timeout : Option Duration) :
    Safe (E := setupEffects) (fun e _ r _ => Welcomes H path e r) Eq (fun _ _ => True)
      (fun r _ => LetIn timeout r)
      (resolveAndConnectSession endpoint H.auth H.transport H.config timeout H.ownerid).run () := by
  have hconnect := welcome_resolveAndConnect hauth hpath hconfig endpoint
  cases timeout with
  | none => exact hconnect.mono fun _ _ h => Or.inl h
  | some d =>
    apply safe_bind
    apply welcome_setup
    intro requests _
    apply safe_bind
    apply safe_cut _ hconnect
    · rintro _ _ ⟨x, rfl⟩
      exact Or.inl ⟨x, rfl⟩
    · intro _
      exact Or.inr ⟨d, rfl, rfl⟩

end

/-! ### A doorman -/

namespace Doorman

theorem setup_exchangeId (verifier : UInt64) :
    setup (exchangeIdPayload "nfs-crust:1" verifier) = setupReply tag .exchangeId exchanged.body := by
  have howner : (utf8 "nfs-crust:1").length < 2 ^ 32 := by decide +kernel
  have hread : readWhole readCompoundRequest (exchangeIdPayload "nfs-crust:1" verifier) = .ok _ :=
    readWhole_of_reads (reads_readCompoundRequest none (by decide +kernel) (by simp)
      (by simpa [NfsOp.Fits, NfsOp.InRange, NfsOp.lengths] using howner))
  unfold setup
  rw [hread]
  rfl

theorem setup_createSession (exchange : ExchangeIdResult) (config : NfsConfig) :
    setup (createSessionPayload exchange config) =
      setupReply tag .createSession (created exchange.sequenceid).body := by
  have hread : readWhole readCompoundRequest (createSessionPayload exchange config) = .ok _ :=
    readWhole_of_reads (reads_readCompoundRequest none (by decide +kernel) (by simp)
      (by simp [NfsOp.Fits, NfsOp.InRange, NfsOp.lengths]))
  unfold setup
  rw [hread]
  rfl

/-- It does what a new session asks for. -/
theorem obeys {ops : List NfsOp} (h : InHandshake ⟨[]⟩ ops) :
    ∃ t, Delivered ⟨.replicate 16 1, 1, 0⟩ t (answer ops).encode ∧ Obeyed ops t := by
  obtain rfl | rfl := h
  · refine ⟨⟨[.reclaimComplete], none⟩, ⟨_, 3, 3, 0, rfl, rfl⟩, ?_, Or.inl rfl, ?_⟩
    · exact Replies.answers_of_map_opcode rfl
    · simp
  · refine ⟨⟨[.putRootFh, .getFh ⟨[8], by decide⟩], none⟩, ⟨_, 3, 3, 0, rfl, rfl⟩, ?_,
      Or.inl rfl, ?_⟩
    · exact Replies.answers_of_map_opcode rfl
    · simp

/-- The doorman lets the client in. -/
theorem welcomes (e : SetupEffect) : Welcomes plainHandshake ⟨[]⟩ e (answers e) := by
  have hopen : channel.Open := ⟨by decide, by decide, by decide, by decide⟩
  have hadmits : plainHandshake.Admits ⟨[]⟩ channel.attrs :=
    ⟨by decide +kernel, by decide +kernel, by decide +kernel⟩
  cases e with
  | lookupHost _ => exact ⟨_, _, rfl⟩
  | connectTransport _ _ => exact ⟨_, rfl⟩
  | call _ payload =>
    constructor
    · rintro verifier rfl
      exact ⟨tag, exchanged, congrArg Except.ok (setup_exchangeId verifier)⟩
    · rintro exchange rfl
      exact ⟨tag, created exchange.sequenceid, congrArg Except.ok (setup_createSession exchange _),
        rfl, hopen, hopen, hadmits⟩
  | session _ e =>
    cases e with
    | exchange s requestTag ops =>
      intro hops
      obtain ⟨t, hdelivered, hobeyed⟩ := obeys hops
      exact ⟨_, _, t, rfl, hdelivered, hobeyed⟩
    | _ => trivial
  | getMut _ => rfl
  | _ => trivial

end Doorman

end NfsCrust
