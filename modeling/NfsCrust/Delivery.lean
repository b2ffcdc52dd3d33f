import NfsCrust.Agreement
import NfsCrust.CallRules

/-!
# What a call makes of a delivered reply

A reply that reaches the client either passed `SEQUENCE`, and then it answers the
operations of the request up to the first that failed, or it was rejected at
`SEQUENCE`, and then the server executed nothing.

## Main definitions

* `Delivered`, `Rejected` — the replies a server can send to a request on a slot.

## Main results

* `SessionCall.received_delivered` — a delivered reply is decoded as
  `NfsCrust.Agreement` says.
* `SessionCall.received_complete` — a reply in which nothing failed gives the value of its
  results.
* `SessionCall.received_rejected` — a rejected request fails with the status of
  `SEQUENCE`, or with an error that says nothing about the server.
-/

namespace NfsCrust

open StateExcept

/-- `response` carries the replies `t`, after the `SEQUENCE` result that belongs to the
request. -/
def Delivered (slot : SlotUse) (t : Replies) (response : Bytes) : Prop :=
  ∃ (reply : CompoundReply) (highestSlotid targetHighestSlotid statusFlags : UInt32),
    reply.replies = ⟨.sequence slot.sessionid slot.sequenceid slot.slotid highestSlotid
      targetHighestSlotid statusFlags :: t.results, t.failure⟩ ∧ response = reply.encode

/-- Replies that are not too many can be sent. -/
theorem exists_delivered (slot : SlotUse) {t : Replies} (h : t.length + 1 < 2 ^ 32) :
    ∃ response, Delivered slot t response := by
  have hshort : (Replies.mk (.sequence slot.sessionid slot.sequenceid slot.slotid 0 0 0
      :: t.results) t.failure).length < 2 ^ 32 := by
    rw [Replies.length_cons]
    exact h
  exact ⟨_, ⟨⟨[], by decide⟩, _, hshort⟩, 0, 0, 0, rfl, rfl⟩

/-- `response` says that `SEQUENCE` failed. -/
def Rejected (response : Bytes) : Prop :=
  ∃ (reply : CompoundReply) (f : Failure),
    reply.replies = ⟨[], some f⟩ ∧ f.Answers .sequence ∧ response = reply.encode

/-! ### `SEQUENCE` -/

/-- The header of a reply, up to the first operation. -/
theorem run_compoundHeader (reply : CompoundReply) :
    readU32SkipOpaqueAndReadU32.run reply.encode
      = .ok ((reply.replies.status.code, .ofNat reply.replies.length), reply.replies.encode) := by
  rw [CompoundReply.encode]
  exact reads_readU32SkipOpaqueAndReadU32 _ _ reply.tag.short _

theorem decodeSequenceResult_delivered {slot : SlotUse} {t : Replies} {response : Bytes}
    (h : Delivered slot t response) :
    ∃ result, decodeSequenceResult response slot.sessionid slot.sequenceid slot.slotid
      = .ok result := by
  obtain ⟨reply, highest, target, flags, hreplies, rfl⟩ := h
  have hcount : UInt32.ofNat reply.replies.length ≠ 0 := by
    intro hzero
    have hlen := toNat_ofNat_length reply.short
    rw [hzero, hreplies, Replies.length_cons] at hlen
    cases hlen
  refine ⟨⟨highest, target, flags⟩, ?_⟩
  have hbody : (decodeSequence slot.sessionid slot.sequenceid slot.slotid).run reply.encode
      = .ok (⟨highest, target, flags⟩, (Replies.mk t.results t.failure).encode) := by
    rw [decodeSequence, run_bind_ok (run_compoundHeader reply)]
    dsimp only
    rw [if_neg hcount, hreplies, Replies.encode_cons, run_bind_ok (reads_readU32Pair _ _ _)]
    dsimp only
    rw [OpRes.opcode, if_neg (not_not_intro rfl), if_neg (by decide), OpRes.body]
    simp only [List.append_assoc]
    rw [run_bind_ok (reads_readBytes _ _), run_bind_ok (reads_readU32 _ _),
      run_bind_ok (reads_readU32 _ _), run_bind_ok (reads_readU32 _ _),
      run_bind_ok (reads_readU32 _ _), run_bind_ok (reads_readU32 _ _),
      if_neg (not_not_intro rfl), if_neg (not_not_intro rfl), if_neg (not_not_intro rfl)]
    rfl
  exact congrArg (Except.map Prod.fst) hbody

theorem decodeSequenceResult_rejected {response : Bytes} (h : Rejected response)
    (slot : SlotUse) :
    ∃ err, decodeSequenceResult response slot.sessionid slot.sequenceid slot.slotid = .error err ∧
      ((∃ message, err = .protocol message) ∨
        ∃ status, status ≠ .OK ∧ err = .ofStatus status .sequence) := by
  obtain ⟨reply, f, hreplies, ⟨hstatus, hop⟩, rfl⟩ := h
  have hcount : UInt32.ofNat reply.replies.length ≠ 0 := by
    rw [hreplies]
    exact (by decide : (1 : UInt32) ≠ 0)
  have hencode : reply.replies.encode = (putU32 f.op.toU32 ++ putU32 f.status.code) ++ [] := by
    rw [hreplies]
    simp [Replies.encode, Failure.encode]
  -- the decoder stops at the first reply
  change ∃ err, Except.map Prod.fst ((decodeSequence slot.sessionid slot.sequenceid
    slot.slotid).run reply.encode) = .error err ∧ _
  rw [decodeSequence, run_bind_ok (run_compoundHeader reply)]
  dsimp only
  rw [if_neg hcount, hencode, run_bind_ok (reads_readU32Pair _ _ _)]
  dsimp only
  rcases hop with hop | ⟨hop, -⟩
  · rw [hop, if_neg (not_not_intro rfl), if_pos (by rw [isOk_of_ne hstatus]; rfl)]
    exact ⟨_, rfl, Or.inr ⟨f.status, hstatus, rfl⟩⟩
  · rw [hop, if_pos (by decide)]
    exact ⟨_, rfl, Or.inl ⟨_, rfl⟩⟩

/-! ### Calls -/

namespace SessionCall

variable (call : SessionCall) {s : NfsSession} {slot : SlotUse} {t : Replies} {response : Bytes}

/-- What a call makes of a reply that passed `SEQUENCE`. -/
theorem received_delivered (h : Delivered slot t response)
    (hans : Replies.Answers ((call.ops s).map NfsOp.opcode) t) :
    (call.expectation t.results).Holds t 1 (call.received (.ok (slot, response))) := by
  obtain ⟨result, hseq⟩ := decodeSequenceResult_delivered h
  obtain ⟨reply, highest, target, flags, hreplies, rfl⟩ := h
  have hdecode := decode_holds s call hreplies rfl hans
  rw [received, hseq]
  dsimp only
  cases hcase : call.decode reply.encode with
  | ok value =>
    rw [hcase] at hdecode
    exact hdecode
  | error err =>
    rw [hcase] at hdecode
    refine hdecode.imp_left ?_
    rintro ⟨hpassed, f, hf, htyped, heq⟩
    refine ⟨hpassed, f, hf, htyped, ?_⟩
    rw [heq, List.length_cons]
    congr 1
    omega

/-- What a call makes of a reply in which nothing failed. -/
theorem received_complete {os : List OpRes} (h : Delivered slot ⟨os, none⟩ response)
    (hans : Replies.Answers ((call.ops s).map NfsOp.opcode) ⟨os, none⟩)
    (hsupported : call.Supported os) :
    ∃ value, call.received (.ok (slot, response)) = .ok value ∧ call.value os = some value := by
  have hreceived := received_delivered call h hans
  cases hcase : call.received (.ok (slot, response)) with
  | ok value =>
    rw [hcase] at hreceived
    obtain ⟨-, ⟨-, hvalue⟩ | ⟨f, hf, -⟩⟩ := hreceived
    · exact ⟨value, rfl, hvalue⟩
    · cases hf
  | error err =>
    rw [hcase] at hreceived
    obtain ⟨-, f, hf, -⟩ | ⟨-, hun⟩ := hreceived
    · cases hf
    · exact absurd hsupported hun

/-- What a call makes of a reply that did not pass `SEQUENCE`. -/
theorem received_rejected (h : Rejected response) :
    ∃ err, call.received (.ok (slot, response)) = .error (.ofError err) ∧
      (err.isForeign = true ∨ ∃ status, status ≠ .OK ∧ err = .ofStatus status .sequence) := by
  obtain ⟨err, hseq, herr⟩ := decodeSequenceResult_rejected h slot
  refine ⟨err, ?_, herr.imp_left ?_⟩
  · rw [received, hseq]
  · rintro ⟨message, rfl⟩
    rfl

end SessionCall

end NfsCrust
