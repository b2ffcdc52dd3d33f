import NfsCrust.Reply
import NfsCrust.Request
import NfsCrust.Setup
import NfsCrust.Walk

/-!
# The replies that set up a session

`EXCHANGE_ID` and `CREATE_SESSION`, as a server writes their replies, and what the client makes
of them and of any other bytes.

## Main definitions

* `ExchangeIdRes`, `CreateSessionRes`, `setupReply` — the replies.
* `ChannelAttrs.Usable` — what the client demands of a channel.

## Main results

* `reads_decodeExchangeId`, `reads_decodeCreateSession`, `decodeSetupCompound_setupReply` — the
  client reads what was written.
* `usable_of_decodeCreateSessionCompound`, `length_of_decodeGetfhCompound` — what the client
  accepts, of whatever bytes.
-/

namespace NfsCrust

open StateExcept

/-! ### What a server writes -/

/-- What a server says about its implementation. -/
structure ImplId where
  domain : Opaque
  name : Opaque
  seconds : UInt64
  nanoseconds : UInt32

def ImplId.encode (i : ImplId) : Bytes :=
  putOpaque i.domain.bytes ++ (putOpaque i.name.bytes ++ (putU64 i.seconds ++ putU32 i.nanoseconds))

theorem ImplId.short_nil : ([] : List ImplId).length < 2 ^ 32 := by decide

structure ExchangeIdRes where
  clientid : UInt64
  sequenceid : UInt32
  flags : UInt32
  minorId : UInt64
  majorId : Opaque
  scope : Opaque
  implIds : List ImplId
  short : implIds.length < 2 ^ 32

/-- The body of the reply, with no state protection. -/
def ExchangeIdRes.body (r : ExchangeIdRes) : Bytes :=
  putU64 r.clientid ++ (putU32 r.sequenceid ++ (putU32 r.flags ++ (putU32 0 ++ (putU64 r.minorId
    ++ (putOpaque r.majorId.bytes ++ (putOpaque r.scope.bytes
    ++ (putU32 (.ofNat r.implIds.length) ++ (r.implIds.map ImplId.encode).flatten)))))))

structure ChannelRes where
  headerpadsize : UInt32
  maxRequestSize : UInt32
  maxResponseSize : UInt32
  maxresponsesizeCached : UInt32
  maxoperations : UInt32
  maxrequests : UInt32
  rdmaIrd : List UInt32
  short : rdmaIrd.length < 2 ^ 32

namespace ChannelRes

def encode (r : ChannelRes) : Bytes :=
  putU32 r.headerpadsize ++ (putU32 r.maxRequestSize ++ (putU32 r.maxResponseSize
    ++ (putU32 r.maxresponsesizeCached ++ (putU32 r.maxoperations ++ (putU32 r.maxrequests
    ++ (putU32 (.ofNat r.rdmaIrd.length) ++ (r.rdmaIrd.map putU32).flatten))))))

def attrs (r : ChannelRes) : ChannelAttrs :=
  ⟨r.maxRequestSize, r.maxResponseSize, r.maxoperations, r.maxrequests⟩

/-- No limit of the channel is zero. -/
structure Open (r : ChannelRes) : Prop where
  maxRequestSize : r.maxRequestSize ≠ 0
  maxResponseSize : r.maxResponseSize ≠ 0
  maxoperations : r.maxoperations ≠ 0
  maxrequests : r.maxrequests ≠ 0

end ChannelRes

structure CreateSessionRes where
  sessionid : Vector UInt8 16
  sequenceid : UInt32
  flags : UInt32
  fore : ChannelRes
  back : ChannelRes

def CreateSessionRes.body (r : CreateSessionRes) : Bytes :=
  r.sessionid.toList ++ (putU32 r.sequenceid ++ (putU32 r.flags ++ (r.fore.encode ++ r.back.encode)))

/-- The reply to a compound of one operation. -/
def setupReply (tag : Opaque) (op : OpCode) (body : Bytes) : Bytes :=
  putU32 NfsStatus.OK.code ++ (putOpaque tag.bytes ++ putU32 1)
    ++ ((putU32 op.toU32 ++ putU32 NfsStatus.OK.code) ++ body)

/-! ### What the client accepts -/

theorem exists_of_decodeSetupCompound {α : Type} {bytes : Bytes} {op : OpCode} {shape : String}
    {decode : XdrM α} {a : α} (h : decodeSetupCompound bytes op shape decode = .ok a) :
    ∃ bs bs', decode.run bs = .ok (a, bs') := by
  unfold decodeSetupCompound at h
  cases hwalk : withReplies bytes shape 1 (do
      let result ← result op decode
      finish
      RepliesM.okOr result s!"compound response did not include {shape} result") with
  | error err =>
    rw [hwalk] at h
    cases h
  | ok b =>
    rw [hwalk] at h
    cases h
    obtain ⟨r, r', hrun⟩ := exists_of_withReplies hwalk
    obtain ⟨x, r₁, hresult, hrun⟩ := exists_of_run_bind hrun
    obtain ⟨_, r₂, _, hrun⟩ := exists_of_run_bind hrun
    rw [eq_some_of_okOr hrun] at hresult
    exact exists_of_result hresult

/-- What the client demands of a channel. -/
structure ChannelAttrs.Usable (attrs : ChannelAttrs) (minimumRequestSize : ℕ) : Prop where
  maxrequests : 0 < attrs.maxrequests.toNat
  maxoperations : 2 ≤ attrs.maxoperations.toNat
  maxRequestSize : minimumRequestSize ≤ attrs.maxRequestSize.toNat
  maxResponseSize : 80 ≤ attrs.maxResponseSize.toNat

theorem pos_of_nonzeroChannelLimit {value limit : UInt32} {field : String}
    (h : nonzeroChannelLimit value field = .ok limit) : 0 < limit.toNat := by
  unfold nonzeroChannelLimit at h
  by_cases hzero : value = 0
  · rw [if_pos hzero] at h
    cases h
  · rw [if_neg hzero] at h
    cases h
    exact Nat.pos_of_ne_zero fun h0 => hzero (UInt32.toNat_inj.mp h0)

theorem gives_decodeChannelAttrs :
    Gives decodeChannelAttrs fun attrs => 0 < attrs.maxrequests.toNat := by
  unfold decodeChannelAttrs
  -- the padding, the sizes and the operations
  iterate 8 refine gives_bind fun _ => ?_
  apply gives_bind
  intro word
  refine Gives.bind (gives_lift _) ?_
  intro maxrequests hlimit
  apply gives_bind
  intro _
  apply gives_bind
  intro _
  dsimp only
  split
  · exact gives_bind fun _ => gives_bind fun _ => gives_bind fun _ =>
      gives_pure (pos_of_nonzeroChannelLimit hlimit)
  · exact gives_bind fun _ => gives_bind fun _ => gives_pure (pos_of_nonzeroChannelLimit hlimit)

theorem usable_of_validate {attrs : ChannelAttrs} {minimumRequestSize : ℕ}
    (hpos : 0 < attrs.maxrequests.toNat)
    (h : validateForeChannelMinimums attrs minimumRequestSize = .ok ()) :
    attrs.Usable minimumRequestSize := by
  have hmin : MIN_SEQUENCE_COMPOUND_RESPONSE_SIZE.toNat = 80 := rfl
  have htwo : UInt32.toNat 2 = 2 := rfl
  unfold validateForeChannelMinimums at h
  by_cases hops : attrs.maxoperations < 2
  · rw [if_pos hops] at h
    cases h
  · rw [if_neg hops] at h
    by_cases hrequest : attrs.maxRequestSize.toNat < minimumRequestSize
    · rw [if_pos hrequest] at h
      cases h
    · rw [if_neg hrequest] at h
      by_cases hresponse : attrs.maxResponseSize < MIN_SEQUENCE_COMPOUND_RESPONSE_SIZE
      · rw [if_pos hresponse] at h
        cases h
      · rw [UInt32.lt_iff_toNat_lt] at hops hresponse
        exact ⟨hpos, by omega, by omega, by omega⟩

theorem gives_decodeCreateSession (sequenceid : UInt32) (minimumRequestSize : ℕ) :
    Gives (decodeCreateSession sequenceid minimumRequestSize) fun created =>
      created.foreAttrs.Usable minimumRequestSize := by
  unfold decodeCreateSession
  apply gives_bind
  intro _
  apply gives_bind
  intro _
  dsimp only
  split
  · exact (gives_throw _).bind fun _ (h : False) => h.elim
  · apply gives_bind
    intro _
    refine Gives.bind gives_decodeChannelAttrs ?_
    intro attrs hpos
    refine Gives.bind (gives_lift _) ?_
    intro _ hvalid
    exact gives_bind fun _ => gives_pure (usable_of_validate hpos hvalid)

/-- **The server has agreed to a channel that the client can use.** -/
theorem usable_of_decodeCreateSessionCompound {bytes : Bytes} {sequenceid : UInt32}
    {minimumRequestSize : ℕ} {created : CreateSessionResult}
    (h : decodeCreateSessionCompound bytes sequenceid minimumRequestSize = .ok created) :
    created.foreAttrs.Usable minimumRequestSize := by
  obtain ⟨bs, bs', hrun⟩ := exists_of_decodeSetupCompound h
  exact gives_decodeCreateSession _ _ _ _ _ hrun

theorem gives_decodeFileHandle : Gives decodeFileHandle fun fh => fh.bytes.length ≤ 128 := by
  unfold decodeFileHandle
  apply gives_bind
  intro bytes
  dsimp only
  split
  · exact (gives_throw _).bind fun _ (h : False) => h.elim
  · next hle => exact gives_pure (Nat.le_of_not_lt hle)

theorem length_of_decodeGetfhCompound {bytes : Bytes} {op : OpCode} {n : ℕ} {fh : FileHandle}
    (h : decodeGetfhCompound bytes op n = .ok fh) : fh.bytes.length ≤ 128 := by
  obtain ⟨r, r', hrun⟩ := exists_of_withReplies h
  obtain ⟨_, _, _, hrun⟩ := exists_of_run_bind hrun
  obtain ⟨_, _, _, hrun⟩ := exists_of_run_bind hrun
  obtain ⟨_, _, _, hrun⟩ := exists_of_run_bind hrun
  obtain ⟨found, _, hfound, hrun⟩ := exists_of_run_bind hrun
  obtain ⟨_, _, _, hrun⟩ := exists_of_run_bind hrun
  rw [eq_some_of_okOr hrun] at hfound
  obtain ⟨bs, bs', hdecode⟩ := exists_of_result hfound
  exact gives_decodeFileHandle _ _ _ hdecode

/-! ### Reading the replies -/

theorem reads_skipImplIds (is : List ImplId) :
    Reads (skipImplIds is.length) (is.map ImplId.encode).flatten () := by
  induction is with
  | nil => exact .pure ()
  | cons i is ih =>
    rw [List.map_cons, List.flatten_cons, ImplId.encode, List.append_assoc, List.append_assoc]
    refine (reads_skipOpaque i.domain.short).bind ((reads_skipOpaque i.name.short).bind ?_)
    exact (reads_skipBytes (by simp [putU64, putU32, IMPLEMENTATION_ID_TIMESTAMP_LEN])).bind ih

theorem length_implIds (is : List ImplId) :
    20 * is.length ≤ (is.map ImplId.encode).flatten.length := by
  induction is with
  | nil => exact Nat.le_refl 0
  | cons i is ih =>
    have hdomain : 4 ≤ (putOpaque i.domain.bytes).length := by simp [putOpaque]
    have hname : 4 ≤ (putOpaque i.name.bytes).length := by simp [putOpaque]
    simp only [List.map_cons, List.flatten_cons, List.length_append, List.length_cons,
      ImplId.encode, length_putU32, length_putU64]
    omega

theorem reads_skipImplIdArray {is : List ImplId} (h : is.length < 2 ^ 32) :
    Reads skipImplIdArray (putU32 (.ofNat is.length) ++ (is.map ImplId.encode).flatten) () := by
  refine (reads_readU32 _).bind (.get_bind ?_)
  intro rest
  have hroom : ¬ is.length > ((is.map ImplId.encode).flatten ++ rest).length / IMPLEMENTATION_ID_MIN_LEN := by
    have hlen := length_implIds is
    have hmin : IMPLEMENTATION_ID_MIN_LEN = 20 := rfl
    rw [List.length_append, hmin]
    omega
  rw [toNat_ofNat_length h, if_neg hroom]
  exact reads_skipImplIds is rest

theorem reads_decodeExchangeId (r : ExchangeIdRes) :
    Reads decodeExchangeId r.body ⟨r.clientid, r.sequenceid⟩ := by
  have hprotect : Reads decodeStateProtect (putU32 0) () := (reads_readU32 0).bind_nil (.pure ())
  refine (reads_readU64 _).bind ((reads_readU32 _).bind ((reads_readU32 _).bind (hprotect.bind
    ((reads_readU64 _).bind ((reads_skipOpaque r.majorId.short).bind
      ((reads_skipOpaque r.scope.short).bind ?_))))))
  exact (reads_skipImplIdArray r.short).bind_nil (.pure _)

theorem nonzeroChannelLimit_eq {value : UInt32} (field : String) (h : value ≠ 0) :
    nonzeroChannelLimit value field = .ok value := if_neg h

theorem reads_decodeChannelAttrs {r : ChannelRes} (h : r.Open) :
    Reads decodeChannelAttrs r.encode r.attrs := by
  refine (reads_readU32 _).bind ?_
  refine (reads_readU32 _).bind (.lift_bind (nonzeroChannelLimit_eq _ h.maxRequestSize) ?_)
  refine (reads_readU32 _).bind (.lift_bind (nonzeroChannelLimit_eq _ h.maxResponseSize) ?_)
  refine (reads_readU32 _).bind ?_
  refine (reads_readU32 _).bind (.lift_bind (nonzeroChannelLimit_eq _ h.maxoperations) ?_)
  refine (reads_readU32 _).bind (.lift_bind (nonzeroChannelLimit_eq _ h.maxrequests) ?_)
  refine (reads_readU32 _).bind (.get_bind ?_)
  intro rest
  have hlen := length_flatten_putU32 r.rdmaIrd
  have hroom : ¬ r.rdmaIrd.length > ((r.rdmaIrd.map putU32).flatten ++ rest).length / 4 := by
    rw [List.length_append, hlen]
    omega
  have hshort := r.short
  have hmul : usizeMul r.rdmaIrd.length 4 = .ok (r.rdmaIrd.length * 4) := if_pos (by omega)
  dsimp only
  rw [toNat_ofNat_length r.short, if_neg hroom]
  exact Reads.lift_bind hmul ((reads_skipBytesAfterRequire hlen).bind_nil (.pure r.attrs)) rest

theorem validateForeChannelMinimums_eq {attrs : ChannelAttrs} {minimumRequestSize : ℕ}
    (h : attrs.Usable minimumRequestSize) :
    validateForeChannelMinimums attrs minimumRequestSize = .ok () := by
  have hmin : MIN_SEQUENCE_COMPOUND_RESPONSE_SIZE.toNat = 80 := rfl
  have htwo : UInt32.toNat 2 = 2 := rfl
  obtain ⟨-, hops, hrequest, hresponse⟩ := h
  have hops' : ¬ attrs.maxoperations < 2 := by
    rw [UInt32.lt_iff_toNat_lt]
    omega
  have hresponse' : ¬ attrs.maxResponseSize < MIN_SEQUENCE_COMPOUND_RESPONSE_SIZE := by
    rw [UInt32.lt_iff_toNat_lt]
    omega
  unfold validateForeChannelMinimums
  rw [if_neg hops', if_neg (Nat.not_lt.mpr hrequest), if_neg hresponse']
  rfl

theorem reads_decodeCreateSession {r : CreateSessionRes} {minimumRequestSize : ℕ}
    (hfore : r.fore.Open) (hback : r.back.Open) (h : r.fore.attrs.Usable minimumRequestSize) :
    Reads (decodeCreateSession r.sequenceid minimumRequestSize) r.body ⟨r.sessionid, r.fore.attrs⟩ := by
  refine (reads_readBytes _).bind ((reads_readU32 _).bind ?_)
  rw [if_neg (not_not_intro rfl)]
  refine (reads_readU32 _).bind ((reads_decodeChannelAttrs hfore).bind
    (.lift_bind (validateForeChannelMinimums_eq h) ?_))
  exact (reads_decodeChannelAttrs hback).bind_nil (.pure _)

/-- The reply to a compound of one operation is read. -/
theorem decodeSetupCompound_setupReply {α : Type} {decode : XdrM α} {body : Bytes} {a : α}
    (tag : Opaque) (op : OpCode) (shape : String) (h : Reads decode body a) :
    decodeSetupCompound (setupReply tag op body) op shape decode = .ok a := by
  have hread := reads_readU32SkipOpaqueAndReadU32 NfsStatus.OK.code 1 tag.short
  have hroom : ¬ UInt32.toNat 1
      > ((putU32 op.toU32 ++ putU32 NfsStatus.OK.code) ++ body).length / 8 := by
    have hone : UInt32.toNat 1 = 1 := rfl
    simp only [List.length_append, length_putU32]
    omega
  have hheader : decodeCompoundHeader.run (setupReply tag op body)
      = .ok ((.OK, 1), (putU32 op.toU32 ++ putU32 NfsStatus.OK.code) ++ body) := by
    rw [decodeCompoundHeader, setupReply, run_bind_ok (run_ofXdr hread), run_get_bind, if_neg hroom]
    rfl
  have hnew : CompoundReplies.new (setupReply tag op body) shape 1
      = .ok ⟨(putU32 op.toU32 ++ putU32 NfsStatus.OK.code) ++ body, .OK, 1, 1, 0, shape⟩ := by
    simp only [CompoundReplies.new, hheader]
    rfl
  have hadvance : (advance op).run
      ⟨(putU32 op.toU32 ++ putU32 NfsStatus.OK.code) ++ body, .OK, 1, 1, 0, shape⟩
      = .ok (true, ⟨body, .OK, 1, 1, 1, shape⟩) := by
    have hstep : (advanceWith (decodeExpectedOp op)).run
        ⟨(putU32 op.toU32 ++ putU32 NfsStatus.OK.code) ++ body, .OK, 1, 1, 0, shape⟩
        = .ok (some (), ⟨body, .OK, 1, 1, 1, shape⟩) := by
      rw [advanceWith, run_get_bind, if_neg (Nat.not_succ_le_zero 0), (headerSpec_expectedOp op).ok]
      rfl
    rw [advance, run_bind_ok hstep]
    rfl
  have hresult : (result op decode).run
      ⟨(putU32 op.toU32 ++ putU32 NfsStatus.OK.code) ++ body, .OK, 1, 1, 0, shape⟩
      = .ok (some a, ⟨[], .OK, 1, 1, 1, shape⟩) := by
    have hbody := h []
    rw [List.append_nil] at hbody
    rw [result, run_bind_ok hadvance, if_pos rfl, run_bind_ok (run_ofXdr_ok hbody)]
    rfl
  unfold decodeSetupCompound withReplies
  rw [hnew]
  change Except.mapError _ ((·.1) <$> StateT.run _ _) = _
  rw [run_bind_ok hresult]
  rfl

end NfsCrust
