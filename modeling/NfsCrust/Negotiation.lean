import NfsCrust.Reply
import NfsCrust.Request
import NfsCrust.Rpc.Transport
import NfsCrust.Setup

/-!
# The sizes a session settles on

`negotiated_config` keeps 1024 bytes of a channel for everything that is not the data
of a `READ` or a `WRITE`.  With the credentials and handles the protocol allows and at
most 64 operations in a compound this is enough: the writes a session makes fit its
requests, and the replies to the reads it makes fit its responses.

## Main definitions

* `rpcReply` — what surrounds a compound.
* `OpRes.Conforms`, `SuccessfulReply` — the replies a server may give to a compound
  it executes in full.

## Main results

* `AuthSys.length_encodeBody_le` — a credential has at most 400 bytes.
* `SuccessfulReply.length_le` — the length of a reply.
* `negotiated_sizes` — requests and replies fit.
-/

namespace NfsCrust

open BigEndian Rpc.Framing

/-! ### Credentials -/

namespace Rpc.Framing.AuthSys

variable {auth : AuthSys}

theorem encodedBodyLen_eq {n : ℕ} (h : auth.encodedBodyLen = .ok n) :
    n = 16 + xdrOpaqueLen (utf8 auth.machineName).length + auth.gids.length * 4 := by
  unfold encodedBodyLen at h
  dsimp only at h
  by_cases hgroups : 2 ^ 64 ≤ auth.gids.length * 4
  · rw [if_pos hgroups] at h
    cases h
  · rw [if_neg hgroups] at h
    by_cases hbody : 2 ^ 64 ≤
        16 + xdrOpaqueLen (utf8 auth.machineName).length + auth.gids.length * 4
    · rw [if_pos hbody] at h
      cases h
    · rw [if_neg hbody] at h
      cases h
      rfl

theorem encodedBodyLen_of_validate (h : auth.validate = .ok ()) :
    ∃ n ≤ AUTH_SYS_MAX_BODY_LEN, auth.encodedBodyLen = .ok n := by
  unfold validate at h
  dsimp only at h
  by_cases hname : (utf8 auth.machineName).length > AUTH_SYS_MAX_MACHINE_NAME_LEN
  · rw [if_pos hname] at h
    cases h
  · rw [if_neg hname] at h
    by_cases hgids : auth.gids.length > AUTH_SYS_MAX_GIDS
    · rw [if_pos hgids] at h
      cases h
    · rw [if_neg hgids] at h
      cases hlen : auth.encodedBodyLen with
      | error err =>
        rw [hlen] at h
        cases h
      | ok n =>
        rw [hlen] at h
        refine ⟨n, Nat.le_of_not_lt fun hlt => ?_, rfl⟩
        change (if n > AUTH_SYS_MAX_BODY_LEN then _ else _) = _ at h
        rw [if_pos hlt] at h
        cases h

theorem length_encodeBody_le {stamp : UInt32} {body : Bytes}
    (h : auth.encodeBody stamp = .ok body) : body.length ≤ AUTH_SYS_MAX_BODY_LEN := by
  unfold encodeBody at h
  cases hvalid : auth.validate with
  | error err =>
    rw [hvalid] at h
    cases h
  | ok _ =>
    rw [hvalid] at h
    cases h
    obtain ⟨n, hn, hlen⟩ := encodedBodyLen_of_validate hvalid
    have hsum := encodedBodyLen_eq hlen
    have hname : xdrOpaqueLen (utf8 auth.machineName).length = _ := xdrStringLen_eq auth.machineName
    have hmax : AUTH_SYS_MAX_BODY_LEN = 400 := rfl
    simp only [List.length_append, length_putU32, length_flatten_putU32]
    omega

end Rpc.Framing.AuthSys

theorem length_authBody_le {auth : AuthSys} {stamp : UInt32} {client : RpcClient}
    (h : RpcClient.connect auth stamp = .ok client) : client.authBody.length ≤ 400 := by
  unfold RpcClient.connect at h
  cases hbody : auth.encodeBody stamp with
  | error err =>
    rw [hbody] at h
    cases h
  | ok body =>
    have hlen := AuthSys.length_encodeBody_le hbody
    rw [hbody] at h
    have hshort : body.length < 2 ^ 32 := by
      have hmax : AUTH_SYS_MAX_BODY_LEN = 400 := rfl
      omega
    change (if h : body.length < 2 ^ 32 then _ else _) = _ at h
    rw [dif_pos hshort] at h
    cases h
    exact hlen

/-! ### Replies -/

/-- An accepted reply of the RPC layer, with no verifier. -/
def rpcReply (xid : UInt32) (result : Bytes) : Bytes :=
  putU32 xid ++ putU32 Rpc.REPLY ++ putU32 Rpc.MSG_ACCEPTED ++ (putU32 0 ++ putOpaque [])
    ++ putU32 Rpc.SUCCESS ++ result

/-- The client reads the result back. -/
theorem decodeReply_rpcReply (xid : UInt32) (result : Bytes) :
    Rpc.decodeReply xid (rpcReply xid result) = .ok result := by
  have htriple : Reads Rpc.readU32Triple
      (putU32 xid ++ (putU32 Rpc.REPLY ++ putU32 Rpc.MSG_ACCEPTED))
      (xid, Rpc.REPLY, Rpc.MSG_ACCEPTED) :=
    .require_bind (by simp) ((reads_readU32AfterRequire _).bind
      ((reads_readU32AfterRequire _).bind ((reads_readU32AfterRequire _).bind_nil (.pure _))))
  have haccept : Rpc.decodeAcceptStat.run
      ((putU32 0 ++ (putOpaque [] ++ putU32 Rpc.SUCCESS)) ++ result) = .ok (result, result) := by
    rw [Rpc.decodeAcceptStat, StateT.run_bind,
      reads_readU32SkipOpaqueAndReadU32 0 Rpc.SUCCESS (by decide) result]
    rfl
  have hbytes : rpcReply xid result = (putU32 xid ++ (putU32 Rpc.REPLY ++ putU32 Rpc.MSG_ACCEPTED))
      ++ ((putU32 0 ++ (putOpaque [] ++ putU32 Rpc.SUCCESS)) ++ result) := by
    simp only [rpcReply, List.append_assoc]
  rw [Rpc.decodeReply, Rpc.decodeReplyFrom, hbytes, StateT.run_bind, htriple]
  show (·.1) <$> (if xid ≠ xid then _ else _ : XdrM Bytes).run _ = _
  rw [if_neg (not_not_intro rfl), if_neg (not_not_intro rfl), if_pos rfl, haccept]
  rfl

/-- The result of a successful operation, as a server may give it: a handle of at most
128 bytes, the attributes that were requested in a bitmap of at most three words, and
at most as many bytes as were to be read. -/
def OpRes.Conforms : NfsOp → OpRes → Prop
  | .getFh, .getFh handle => handle.bytes.length ≤ 128
  | .getAttr bitmap, .getAttr attrs =>
      attrs.word &&& bitmap.words.headD 0 = attrs.word ∧ attrs.emptyWords ≤ 2
  | .read _ _ count, .read _ data => data.bytes.length ≤ count
  | op, r => r.opcode = op.opcode

/-- The reply to a compound that is executed in full. -/
structure SuccessfulReply (tag : String) (ops : List NfsOp) (reply : CompoundReply) : Prop where
  tag_eq : reply.tag.bytes = utf8 tag
  failure_eq : reply.replies.failure = none
  results_eq : ∃ sequence results, reply.replies.results = sequence :: results ∧
    sequence.opcode = .sequence ∧ List.Forall₂ OpRes.Conforms ops results

/-- A bound on the result of an operation of a read. -/
def NfsOp.replyBound : NfsOp → ℕ
  | getFh => 8 + (4 + 128)
  | getAttr _ => 8 + ((4 + 3 * 4) + (4 + 8))
  | read _ _ count => 8 + (4 + (4 + (count + 3)))
  | _ => 8

/-- The operations of the reads. -/
def NfsOp.InRead : NfsOp → Prop
  | putFh _ | lookup _ | getFh | read .. => True
  | getAttr bitmap => bitmap = .sizeAttr
  | _ => False

/-- Attributes of a reply to a request for the size. -/
theorem Fattr.fileType_eq_none {attrs : Fattr}
    (hword : attrs.word &&& Bitmap.sizeAttr.words.headD 0 = attrs.word) :
    attrs.fileType = none := by
  cases htype : attrs.fileType with
  | none => rfl
  | some fileType =>
    -- the bit of the type is not among those requested
    unfold Fattr.word at hword
    rw [htype] at hword
    cases hsize : attrs.size with
    | none =>
      rw [hsize] at hword
      dsimp only at hword
      exact absurd hword (by decide)
    | some size =>
      rw [hsize] at hword
      dsimp only at hword
      exact absurd hword (by decide)

theorem Fattr.length_encode_le {attrs : Fattr}
    (hword : attrs.word &&& Bitmap.sizeAttr.words.headD 0 = attrs.word)
    (hempty : attrs.emptyWords ≤ 2) : attrs.encode.length ≤ (4 + 3 * 4) + (4 + 8) := by
  have hvalues : attrs.values.length ≤ 8 ∧ xdrPadding attrs.values.length = 0 := by
    unfold Fattr.values
    rw [Fattr.fileType_eq_none hword]
    cases attrs.size with
    | none => exact ⟨Nat.zero_le _, rfl⟩
    | some size => exact ⟨Nat.le_refl 8, (rfl : xdrPadding 8 = 0)⟩
  simp only [Fattr.encode, Bitmap.encode, List.length_append, length_putU32, length_flatten_putU32,
    List.length_cons, List.length_replicate, length_putOpaque]
  omega

theorem OpRes.length_encode (r : OpRes) : r.encode.length = 8 + r.body.length := by
  rw [OpRes.encode, List.length_append]
  rfl

theorem OpRes.length_encode_le {op : NfsOp} {r : OpRes} (hop : op.InRead)
    (h : OpRes.Conforms op r) : r.encode.length ≤ op.replyBound := by
  rw [OpRes.length_encode]
  cases op with
  | putFh fh =>
    cases r with
    | putFh => exact Nat.le_refl _
    | _ => cases h
  | lookup name =>
    cases r with
    | lookup => exact Nat.le_refl _
    | _ => cases h
  | getFh =>
    cases r with
    | getFh handle =>
      have hhandle : handle.bytes.length ≤ 128 := h
      have hpad := xdrPadding_eq handle.bytes.length
      rw [OpRes.body, length_putOpaque, NfsOp.replyBound]
      omega
    | _ => cases h
  | getAttr bitmap =>
    cases r with
    | getAttr attrs =>
      obtain rfl : bitmap = .sizeAttr := hop
      have hlen := Fattr.length_encode_le h.1 h.2
      rw [OpRes.body, NfsOp.replyBound]
      omega
    | _ => cases h
  | read stateid offset count =>
    cases r with
    | read eof data =>
      have hdata : data.bytes.length ≤ count := h
      have hpad := xdrPadding_lt data.bytes.length
      rw [OpRes.body, List.length_append, length_putBool, length_putOpaque, NfsOp.replyBound]
      omega
    | _ => cases h
  | _ => exact hop.elim

theorem length_results_le {ops : List NfsOp} {results : List OpRes}
    (hops : ∀ op ∈ ops, op.InRead) (h : List.Forall₂ OpRes.Conforms ops results) :
    (results.map OpRes.encode).flatten.length ≤ (ops.map NfsOp.replyBound).sum := by
  induction h with
  | nil => exact Nat.le_refl _
  | @cons op r ops results hr _ ih =>
    have hop := OpRes.length_encode_le (hops op List.mem_cons_self) hr
    have hrest := ih fun op hmem => hops op (List.mem_cons_of_mem _ hmem)
    rw [List.map_cons, List.map_cons, List.flatten_cons, List.length_append, List.sum_cons]
    omega

/-- **The length of a reply** to a read. -/
theorem SuccessfulReply.length_le {tag : String} {ops : List NfsOp} {reply : CompoundReply}
    (h : SuccessfulReply tag ops reply) (hops : ∀ op ∈ ops, op.InRead) (xid : UInt32) :
    (rpcReply xid reply.encode).length ≤
      76 + (putString tag).length + (ops.map NfsOp.replyBound).sum := by
  obtain ⟨sequence, results, hresults, hsequence, hconforms⟩ := h.results_eq
  have hlen := length_results_le hops hconforms
  have hseq : sequence.encode.length = 44 := by
    cases sequence with
    | sequence sessionid a b c d e =>
      rw [OpRes.length_encode, OpRes.body, List.length_append, Vector.length_toList]
      rfl
    | _ => cases hsequence
  have hfailure : (reply.replies.failure.elim [] Failure.encode) = [] := by rw [h.failure_eq]; rfl
  have hempty : (putOpaque []).length = 4 := rfl
  have htag : (putOpaque reply.tag.bytes).length = (putString tag).length := by rw [h.tag_eq]; rfl
  simp only [rpcReply, CompoundReply.encode, Replies.encode, List.length_append, length_putU32,
    hempty, htag, hfailure, hresults, List.map_cons, List.flatten_cons, hseq, List.length_nil]
  omega

/-! ### The configuration -/

theorem validateNonzero_bind {value : UInt32} {name : String} {k : Unit → Except Error Unit}
    (h : (validateNonzero value name >>= k) = .ok ()) : 0 < value.toNat ∧ k () = .ok () := by
  unfold validateNonzero at h
  by_cases hzero : value = 0
  · rw [if_pos hzero] at h
    cases h
  · rw [if_neg hzero] at h
    refine ⟨Nat.pos_of_ne_zero fun h0 => hzero (UInt32.toNat_inj.mp h0), h⟩

theorem le_of_validateMinBytes {value minimum : UInt32} {name : String}
    (h : validateMinBytes value name minimum = .ok ()) : minimum.toNat ≤ value.toNat := by
  unfold validateMinBytes at h
  refine Nat.le_of_not_lt fun hlt => ?_
  rw [if_pos (UInt32.lt_iff_toNat_lt.mpr hlt)] at h
  cases h

/-- What a configuration has to satisfy, as far as its sizes go. -/
structure SizesValid (config : NfsConfig) : Prop where
  readChunkSize : 0 < config.readChunkSize.toNat
  readGranularity : 0 < config.readGranularity.toNat
  writeChunkSize : 0 < config.writeChunkSize.toNat
  readdirDircount : 0 < config.readdirDircount.toNat
  readdirMaxcount : config.readdirDircount.toNat ≤ config.readdirMaxcount.toNat
  maxRequestSize : 4096 ≤ config.maxRequestSize.toNat
  maxResponseSize : 4096 ≤ config.maxResponseSize.toNat

theorem SizesValid.of_validateConfig {config : NfsConfig} (h : validateConfig config = .ok ()) :
    SizesValid config := by
  unfold validateConfig at h
  obtain ⟨hread, h⟩ := validateNonzero_bind h
  obtain ⟨hgranularity, h⟩ := validateNonzero_bind h
  obtain ⟨hwrite, h⟩ := validateNonzero_bind h
  obtain ⟨hdircount, h⟩ := validateNonzero_bind h
  by_cases hmaxcount : config.readdirMaxcount < config.readdirDircount
  · rw [if_pos hmaxcount] at h
    cases h
  · rw [if_neg hmaxcount] at h
    obtain ⟨-, h⟩ := validateNonzero_bind h
    by_cases hslots : config.sessionSlots > MAX_CONFIGURED_SESSION_SLOTS
    · rw [if_pos hslots] at h
      cases h
    · rw [if_neg hslots] at h
      cases hrequest : validateMinBytes config.maxRequestSize "max_request_size" 4096 with
      | error err =>
        rw [hrequest] at h
        cases h
      | ok _ =>
        rw [hrequest] at h
        exact ⟨hread, hgranularity, hwrite, hdircount,
          Nat.le_of_not_lt fun hlt => hmaxcount (UInt32.lt_iff_toNat_lt.mpr hlt),
          le_of_validateMinBytes hrequest, le_of_validateMinBytes h⟩

theorem toNat_channelPayloadSize (channelSize : UInt32) :
    (channelPayloadSize channelSize).toNat = max (channelSize.toNat - 1024) 1 := by
  have hreserve : CHANNEL_PAYLOAD_RESERVE.toNat = 1024 := rfl
  unfold channelPayloadSize
  rw [UInt32.toNat_max]
  split
  · next hle =>
    have := UInt32.le_iff_toNat_le.mp hle
    have hzero : UInt32.toNat 0 = 0 := rfl
    have hone : UInt32.toNat 1 = 1 := rfl
    omega
  · next hlt =>
    have := mt UInt32.le_iff_toNat_le.mpr hlt
    have hone : UInt32.toNat 1 = 1 := rfl
    rw [UInt32.toNat_sub_of_le _ _ (UInt32.le_iff_toNat_le.mpr (by omega)), hreserve, hone]

/-- The compounds of `write` and `write_and_commit`, with at most `n` bytes. -/
def SessionCall.WritesAtMost (n : ℕ) : SessionCall → Prop
  | write opened _ data | writeAndCommit opened _ data =>
      opened.fh.bytes.length ≤ 128 ∧ data.length ≤ n
  | _ => False

/-- The read compounds, by handle and by path, of at most `n` bytes. -/
def SessionCall.ReadsAtMost (n : ℕ) : SessionCall → Prop
  | readAnonymous _ _ count | readPathAnonymous _ _ count | readPathAnonymousWithHandle _ _ count
  | readPathAnonymousWithSize _ count => count ≤ n
  | _ => False

variable {s : NfsSession}

theorem encodedCallLen_le (payloadLen : ℕ) (hauth : s.authBodyLen ≤ 400) :
    s.encodedCallLen payloadLen ≤ 446 + payloadLen := by
  have hpad := xdrPadding_lt payloadLen
  have hpad' := xdrPadding_lt s.authBodyLen
  rw [NfsSession.encodedCallLen, saturatingEncodedLen_eq]
  simp only [List.sum_cons, List.sum_nil]
  omega

theorem compoundWithSequenceEncodedLen_le (tag : String) (ops : List NfsOp) :
    compoundWithSequenceEncodedLen tag ops ≤ xdrStringLen tag + opsLen ops + 44 := by
  have hsequence : sequenceOpEncodedLen = 36 := rfl
  rw [compoundWithSequenceEncodedLen, compoundEncodedLen_eq, saturatingAdd, hsequence]
  omega

theorem encodedLen_write_le (stateid : StateId) (offset : ℕ) (data : Bytes) :
    (NfsOp.write stateid offset data).encodedLen ≤ 39 + data.length := by
  have hpad := xdrPadding_lt data.length
  have hstateid : StateId.encodedLen = 16 := rfl
  simp only [NfsOp.encodedLen, NfsOp.argsLen, saturatingEncodedLen_eq, List.sum_cons, List.sum_nil,
    xdrOpaqueLen, xdrFixedOpaqueLen, saturatingAdd, hstateid]
  omega

/-- A write needs less than the reserve besides its data. -/
theorem encodedCallLen_write_le {call : SessionCall} {n : ℕ} (hcall : call.WritesAtMost n)
    (hauth : s.authBodyLen ≤ 400) :
    s.encodedCallLen (compoundWithSequenceEncodedLen call.tag (call.ops s)) ≤ 700 + n := by
  have hlen : xdrStringLen call.tag + opsLen (call.ops s) ≤ 210 + n := by
    cases call with
    | write opened offset data =>
      obtain ⟨hfh, hdata⟩ := hcall
      have htag : xdrStringLen "write" = 12 := by decide +kernel
      have hput := NfsSession.encodedLen_putFh_le hfh
      have hwrite := encodedLen_write_le opened.stateid offset data
      simp only [SessionCall.tag, SessionCall.ops, opsLen_cons, opsLen_nil, htag]
      omega
    | writeAndCommit opened offset data =>
      obtain ⟨hfh, hdata⟩ := hcall
      have htag : xdrStringLen "write-commit" = 16 := by decide +kernel
      have hput := NfsSession.encodedLen_putFh_le hfh
      have hwrite := encodedLen_write_le opened.stateid offset data
      have hcommit : (NfsOp.commit offset (commitCount data.length)).encodedLen = 16 := rfl
      simp only [SessionCall.tag, SessionCall.ops, writeAndCommitOps, opsLen_cons, opsLen_nil, htag,
        hcommit]
      omega
    | _ => exact hcall.elim
  have hcall := encodedCallLen_le (compoundWithSequenceEncodedLen call.tag (call.ops s)) hauth
  have hpayload := compoundWithSequenceEncodedLen_le call.tag (call.ops s)
  omega

theorem sum_replyBound_exportPathOps (fh : FileHandle) (components : List String) :
    ((exportPathOps fh components).map NfsOp.replyBound).sum = 8 + 8 * components.length := by
  have hlookups : ((components.map NfsOp.lookup).map NfsOp.replyBound).sum
      = 8 * components.length := by
    induction components with
    | nil => rfl
    | cons name components ih =>
      rw [List.map_cons, List.map_cons, List.sum_cons, ih, List.length_cons]
      show 8 + _ = _
      omega
  rw [exportPathOps, List.map_cons, List.sum_cons, hlookups]
  rfl

theorem inRead_exportPathOps {fh : FileHandle} {components : List String} {op : NfsOp}
    (h : op ∈ exportPathOps fh components) : op.InRead := by
  rcases List.mem_cons.mp h with rfl | h
  · trivial
  · obtain ⟨name, -, rfl⟩ := List.mem_map.mp h
    trivial

/-- A read is a path, followed by what it asks for at its end. -/
theorem SessionCall.ReadsAtMost.exists_ops {call : SessionCall} {n : ℕ}
    (hcall : call.ReadsAtMost n) (s : NfsSession) : ∃ fh components tail,
      call.ops s = exportPathOps fh components ++ tail ∧ 0 < tail.length ∧
      (∀ op ∈ tail, op.InRead) ∧ (tail.map NfsOp.replyBound).sum ≤ 195 + n ∧
      (putString call.tag).length ≤ 20 := by
  cases call with
  | readAnonymous fh offset count =>
    have hcount : count ≤ n := hcall
    refine ⟨fh, [], [.read .anonymous offset count], rfl, Nat.one_pos, ?_, ?_, ?_⟩
    · simp [NfsOp.InRead]
    · simp only [List.map_cons, List.map_nil, List.sum_cons, List.sum_nil, NfsOp.replyBound]
      omega
    · show (putString "read-anon").length ≤ 20
      decide +kernel
  | readPathAnonymous components offset count =>
    have hcount : count ≤ n := hcall
    refine ⟨s.exportRoot, components, [.read .anonymous offset count], rfl, Nat.one_pos, ?_, ?_, ?_⟩
    · simp [NfsOp.InRead]
    · simp only [List.map_cons, List.map_nil, List.sum_cons, List.sum_nil, NfsOp.replyBound]
      omega
    · show (putString "read-path-anon").length ≤ 20
      decide +kernel
  | readPathAnonymousWithHandle components offset count =>
    have hcount : count ≤ n := hcall
    refine ⟨s.exportRoot, components, [.getFh, .read .anonymous offset count], rfl, Nat.two_pos,
      ?_, ?_, ?_⟩
    · simp [NfsOp.InRead]
    · simp only [List.map_cons, List.map_nil, List.sum_cons, List.sum_nil, NfsOp.replyBound]
      omega
    · show (putString "read-path-handle").length ≤ 20
      decide +kernel
  | readPathAnonymousWithSize components count =>
    have hcount : count ≤ n := hcall
    refine ⟨s.exportRoot, components, [.getFh, .getAttr .sizeAttr, .read .anonymous 0 count], rfl,
      Nat.zero_lt_succ 2, ?_, ?_, ?_⟩
    · simp [NfsOp.InRead]
    · simp only [List.map_cons, List.map_nil, List.sum_cons, List.sum_nil, NfsOp.replyBound]
      omega
    · show (putString "read-path-size").length ≤ 20
      decide +kernel
  | _ => exact hcall.elim

/-- So does the reply to a read. -/
theorem length_readReply_le {call : SessionCall} {n : ℕ} (hcall : call.ReadsAtMost n)
    (hops : (call.ops s).length + 1 ≤ 64) {reply : CompoundReply}
    (hreply : SuccessfulReply call.tag (call.ops s) reply) (xid : UInt32) :
    (rpcReply xid reply.encode).length ≤ 800 + n := by
  obtain ⟨fh, components, tail, hcompound, htail, hread, hsum, htag⟩ := hcall.exists_ops s
  have hall : ∀ op ∈ call.ops s, op.InRead := by
    intro op hop
    rw [hcompound] at hop
    exact (List.mem_append.mp hop).elim inRead_exportPathOps (hread op)
  have hpath := sum_replyBound_exportPathOps fh components
  have hlen := hreply.length_le hall xid
  rw [hcompound, exportPathOps, List.length_append, List.length_cons, List.length_map] at hops
  rw [hcompound, List.map_append, List.sum_append] at hlen
  omega

section

variable {auth : AuthSys} {stamp : UInt32} {client : RpcClient} {config : NfsConfig}
  {attrs : ChannelAttrs}

theorem toNat_negotiated_maxRequestSize (hsession : s.config = negotiatedConfig config attrs) :
    s.config.maxRequestSize.toNat
      = min config.maxRequestSize.toNat attrs.maxRequestSize.toNat := by
  rw [hsession, negotiatedConfig, UInt32.toNat_min]

theorem negotiated_writeChunkSize (hsession : s.config = negotiatedConfig config attrs) :
    s.writeChunkSize
      = min config.writeChunkSize.toNat (max (s.config.maxRequestSize.toNat - 1024) 1) := by
  rw [NfsSession.writeChunkSize, hsession, negotiatedConfig, UInt32.toNat_min,
    toNat_channelPayloadSize]

/-- A write of at most `write_chunk_size` bytes fits the requests of the channel. -/
theorem encodedCallLen_negotiated_write (hclient : RpcClient.connect auth stamp = .ok client)
    (hconfig : validateConfig config = .ok ()) (hrequest : 1024 ≤ attrs.maxRequestSize.toNat)
    (hauth : s.authBodyLen = client.authBody.length)
    (hsession : s.config = negotiatedConfig config attrs) {call : SessionCall}
    (hcall : call.WritesAtMost s.writeChunkSize) :
    s.encodedCallLen (compoundWithSequenceEncodedLen call.tag (call.ops s)) ≤
      s.config.maxRequestSize.toNat := by
  have hbody := length_authBody_le hclient
  have hmaxRequest := (SizesValid.of_validateConfig hconfig).maxRequestSize
  have hrequestSize := toNat_negotiated_maxRequestSize hsession
  have hwriteChunk := negotiated_writeChunkSize hsession
  have hlen := encodedCallLen_write_le hcall (s := s) (by omega)
  omega

end

/-- **The sizes a session settles on.**  Whatever channel the server grants, of at least
1024 bytes each way and at most 64 operations, a write of at most `write_chunk_size` bytes
fits the requests, the reply to a read of at most `read_chunk_size` bytes that fits the
limits itself fits the responses, and no size becomes zero. -/
theorem negotiated_sizes {auth : AuthSys} {stamp : UInt32} {client : RpcClient}
    {config : NfsConfig} {attrs : ChannelAttrs}
    (hclient : RpcClient.connect auth stamp = .ok client)
    (hconfig : validateConfig config = .ok ())
    (hrequest : 1024 ≤ attrs.maxRequestSize.toNat) (hresponse : 1024 ≤ attrs.maxResponseSize.toNat)
    (hoperations : attrs.maxoperations.toNat ≤ 64) (hauth : s.authBodyLen = client.authBody.length)
    (hsession : s.config = negotiatedConfig config attrs) :
    (∀ call : SessionCall, call.WritesAtMost s.writeChunkSize →
      s.encodedCallLen (compoundWithSequenceEncodedLen call.tag (call.ops s)) ≤
        s.config.maxRequestSize.toNat) ∧
    (∀ call : SessionCall, call.ReadsAtMost s.readChunkSize →
      s.validateCompoundRequest call.tag (call.ops s) = .ok () →
      ∀ reply xid, SuccessfulReply call.tag (call.ops s) reply →
        (rpcReply xid reply.encode).length ≤ s.config.maxResponseSize.toNat) ∧
    s.readGranularity ≤ s.readChunkSize ∧ 1 ≤ s.readGranularity ∧ 1 ≤ s.writeChunkSize ∧
    1 ≤ s.config.readdirDircount.toNat ∧ 1 ≤ s.config.readdirMaxcount.toNat ∧
    ∀ hint, 1 ≤ (boundedReaddirCounts s.config hint).1.toNat ∧
      1 ≤ (boundedReaddirCounts s.config hint).2.toNat := by
  have hsizes := SizesValid.of_validateConfig hconfig
  obtain ⟨hread, hgranularity, hwrite, hdircount, hmaxcount, hmaxRequest, hmaxResponse⟩ := hsizes
  have hbody := length_authBody_le hclient
  have hone : UInt32.toNat 1 = 1 := rfl
  have hrequestSize := toNat_negotiated_maxRequestSize hsession
  have hresponseSize : s.config.maxResponseSize.toNat
      = min config.maxResponseSize.toNat attrs.maxResponseSize.toNat := by
    rw [hsession, negotiatedConfig, UInt32.toNat_min]
  have hwriteChunk := negotiated_writeChunkSize hsession
  have hreadChunk : s.readChunkSize
      = min config.readChunkSize.toNat (max (s.config.maxResponseSize.toNat - 1024) 1) := by
    rw [NfsSession.readChunkSize, hsession, negotiatedConfig, UInt32.toNat_min,
      toNat_channelPayloadSize]
  have hreadGranularity : s.readGranularity = min config.readGranularity.toNat s.readChunkSize := by
    rw [NfsSession.readGranularity, NfsSession.readChunkSize, hsession, negotiatedConfig,
      UInt32.toNat_min]
  have hoperations' : s.config.maxCompoundOps.toNat ≤ 64 := by
    rw [hsession, negotiatedConfig]
    exact hoperations
  refine ⟨fun call hcall => ?_, fun call hcall hvalid reply xid hreply => ?_, ?_, ?_, ?_, ?_, ?_,
    fun hint => ?_⟩
  · exact encodedCallLen_negotiated_write hclient hconfig hrequest hauth hsession hcall
  · have hops := Nat.le_trans (NfsSession.length_le_of_validate hvalid) hoperations'
    have := length_readReply_le hcall hops hreply xid
    omega
  · omega
  · omega
  · omega
  · rw [hsession, negotiatedConfig, UInt32.toNat_max, hone]
    omega
  · rw [hsession, negotiatedConfig, UInt32.toNat_min, toNat_channelPayloadSize]
    omega
  · simp only [boundedReaddirCounts, UInt32.toNat_max, hone]
    omega

/-- A session on a channel of 1024 bytes each way, with a credential without a machine
name. -/
def smallChannel : NfsSession where
  exportRoot := ⟨[7]⟩
  clientid := 1
  authBodyLen := 20
  config := negotiatedConfig { «export» := "/" } ⟨1024, 1024, 8, 4⟩

theorem connect_smallChannel : RpcClient.connect ⟨"", 0, 0, []⟩ 7
    = .ok ⟨[0, 0, 0, 7, 0, 0, 0, 0, 0, 0, 0, 0, 0, 0, 0, 0, 0, 0, 0, 0], by decide⟩ := by
  have hbody : (AuthSys.mk "" 0 0 []).encodeBody 7
      = .ok [0, 0, 0, 7, 0, 0, 0, 0, 0, 0, 0, 0, 0, 0, 0, 0, 0, 0, 0, 0] := by decide +kernel
  rw [RpcClient.connect, hbody]
  rfl

theorem negotiated_sizes_smallChannel :
    smallChannel.encodedCallLen (compoundWithSequenceEncodedLen "write-commit"
        (writeAndCommitOps ⟨⟨[7]⟩, .anonymous, 1⟩ 0 [9])) ≤
      smallChannel.config.maxRequestSize.toNat ∧
    smallChannel.readGranularity ≤ smallChannel.readChunkSize ∧
    1 ≤ smallChannel.readGranularity ∧ 1 ≤ smallChannel.writeChunkSize := by
  have hconfig : validateConfig { «export» := "/" } = .ok () := by decide +kernel
  have hall := negotiated_sizes (s := smallChannel) connect_smallChannel hconfig (by decide) (by decide)
    (by decide) rfl rfl
  refine ⟨hall.1 (.writeAndCommit ⟨⟨[7]⟩, .anonymous, 1⟩ 0 [9]) ⟨by decide, ?_⟩, hall.2.2.1,
    hall.2.2.2.1, hall.2.2.2.2.1⟩
  decide +kernel

end NfsCrust
