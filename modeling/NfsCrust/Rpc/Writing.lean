import NfsCrust.Lib.Must
import NfsCrust.Rpc.Framing

/-!
# What the writer puts on the connection

A connection accepts some of the bytes of every vectored write, and at least one.
Whatever it accepts, `write_record_batch` ends with the records of the batch on it,
one after the other, each with the length its marker says.

## Main definitions

* `Connection`, `Connection.serves` — a connection that neither breaks nor ends while
  it is written to, and delivers what arrives in pieces of any size.
* `RpcClient.record` — the bytes of a call.

## Main results

* `exists_advanceSlices` — what is left after a short write.
* `RpcClient.recordLen_eq` — a record has the length the client computes.
* `RpcClient.must_writeRecordBatch` — the writer.
-/

namespace NfsCrust.Rpc.Framing

open BigEndian Interaction

/-! ### The connection -/

/-- A connection: what was written to it, what is still to arrive on it, the limit on
records, and the largest buffer a record was given room in. -/
structure Connection where
  written : Bytes
  incoming : Bytes
  maxResponseBytes : ℕ
  maxResponseBytes_lt : maxResponseBytes < 2 ^ 64
  reserved : ℕ

/-- The answers of a connection.  A write accepts a nonempty part of what it is given,
a read returns a nonempty part of what is to arrive, or nothing at the end. -/
def Connection.serves : (e : Transfer) → Connection → e.Response → Connection → Prop
  | .writeVectored slices, c, r, c' => ∃ n, 0 < n ∧ n ≤ slices.flatten.length ∧ r = .ok n ∧
      c' = { c with written := c.written ++ slices.flatten.take n }
  | .readBuf remaining, c, r, c' => ∃ bytes, bytes.length ≤ remaining ∧ r = .ok bytes ∧
      c.incoming = bytes ++ c'.incoming ∧ c' = { c with incoming := c'.incoming } ∧
      (bytes = [] → c.incoming = [])
  | .loadMaxResponseBytes, c, r, c' => r = c.maxResponseBytes ∧ c' = c
  | .reserve len, c, _, c' => c' = { c with reserved := max c.reserved len }

variable {c : Connection}

theorem must_transfer {α : Type} {e : Transfer} {k : e.Response → Prog transfers α}
    {post : α → Connection → Prop} (hanswer : ∃ r c', Connection.serves e c r c')
    (h : ∀ r c', Connection.serves e c r c' → Must (E := transfers) Connection.serves post (k r) c') :
    Must (E := transfers) Connection.serves post ((transfer e).bind k) c :=
  must_thread (n := 1) ⟨hanswer, h⟩

/-! ### Short writes -/

/-- After a short write, what is left are the bytes behind it, and the next slice is
not empty. -/
theorem exists_advanceSlices {slices : List Bytes} {n : ℕ} (h : n ≤ slices.flatten.length) :
    ∃ rest, advanceSlices slices n = .ok rest ∧ rest.flatten = slices.flatten.drop n ∧
      (rest.flatten = [] → rest = []) := by
  induction slices generalizing n with
  | nil =>
    obtain rfl : n = 0 := Nat.le_zero.mp h
    exact ⟨[], rfl, rfl, fun _ => rfl⟩
  | cons slice slices ih =>
    rw [List.flatten_cons, List.length_append] at h
    by_cases hlen : slice.length ≤ n
    · obtain ⟨rest, hrest, hflatten, hempty⟩ := ih (n := n - slice.length) (by omega)
      refine ⟨rest, ?_, ?_, hempty⟩
      · rw [advanceSlices, if_pos hlen, hrest]
      · rw [hflatten, List.flatten_cons, List.drop_append, List.drop_of_length_le hlen,
          List.nil_append]
    · refine ⟨slice.drop n :: slices, ?_, ?_, fun hnil => ?_⟩
      · rw [advanceSlices, if_neg hlen]
      · rw [List.flatten_cons, List.flatten_cons, List.drop_append_of_le_length (by omega)]
      · -- the write ended within this slice
        have := congrArg List.length hnil
        rw [List.flatten_cons, List.length_append, List.length_drop, List.length_nil] at this
        omega

/-- The loop of the writer ends with everything written. -/
theorem must_writeTurns {slices : List Bytes} (hempty : slices.flatten = [] → slices = []) :
    Must (E := transfers) Connection.serves
      (fun r c' => r = .ok () ∧ c' = { c with written := c.written ++ slices.flatten })
      (Prog.loopExcept writeTurn slices).run c := by
  -- what is written and what remains make up the whole, and there is a byte to write
  refine must_loopExcept (fun n remaining c' => n = remaining.flatten.length ∧
      (remaining.flatten = [] → remaining = []) ∧ ∃ done, slices.flatten = done ++ remaining.flatten ∧
        c' = { c with written := c.written ++ done })
    ⟨rfl, hempty, [], rfl, by rw [List.append_nil]⟩ ?_
  rintro n remaining c' ⟨rfl, hremaining, done, hdone, rfl⟩
  unfold writeTurn
  by_cases hnil : remaining = []
  · subst hnil
    rw [List.flatten_nil, List.append_nil] at hdone
    exact must_pure ⟨rfl, by rw [hdone]⟩
  · have hpos : 0 < remaining.flatten.length :=
      List.length_pos_iff.mpr fun h => hnil (hremaining h)
    rw [if_neg (by simpa using hnil)]
    refine must_bindExcept (must_transfer (e := .writeVectored remaining)
      ⟨.ok 1, _, 1, Nat.one_pos, hpos, rfl, rfl⟩ ?_)
    rintro _ _ ⟨written, hwritten, hle, rfl, rfl⟩
    refine .ret ?_
    obtain ⟨rest, hrest, hflatten, hne⟩ := exists_advanceSlices hle
    dsimp only
    rw [if_neg (by omega), hrest]
    refine .ret ⟨rest.flatten.length, ?_, rfl, hne, done ++ remaining.flatten.take written, ?_, ?_⟩
    · rw [hflatten, List.length_drop]
      omega
    · rw [hflatten, List.append_assoc, List.take_append_drop, hdone]
    · rw [List.append_assoc]

/-! ### Records -/

theorem flatten_filter_isEmpty (parts : List Bytes) :
    (parts.filter fun part => !part.isEmpty).flatten = parts.flatten := by
  induction parts with
  | nil => rfl
  | cons part parts ih => cases part <;> simp [ih]

@[simp] theorem length_zeroPadding (len : ℕ) : (zeroPadding len).length = len :=
  List.length_replicate

theorem length_putHeaderU32At {header : Bytes} {offset : ℕ} (value : UInt32)
    (h : offset + 4 ≤ header.length) :
    (putHeaderU32At header offset value).length = header.length := by
  simp only [putHeaderU32At, List.length_append, List.length_take, List.length_drop, length_be32]
  omega

namespace RpcClient

variable (client : RpcClient)

/-- A record without its marker: the header, the credential and its padding, the
verifier, and the payload with its padding. -/
def record (request : RpcRequest) : Bytes :=
  request.header ++ client.authBody ++ zeroPadding client.authPaddingLen ++ RPC_AUTH_NONE_VERIFIER
    ++ request.payload.segments.flatten ++ zeroPadding request.payloadPaddingLen

theorem flatten_recordSlices (request : RpcRequest) :
    (client.recordSlices request).flatten = request.marker ++ client.record request := by
  simp only [recordSlices, List.flatten_append, flatten_filter_isEmpty, record, List.flatten_cons,
    List.flatten_nil, List.append_nil, List.append_assoc]

theorem callHeaderTemplate_eq : client.callHeaderTemplate =
    be32 0 ++ be32 CALL ++ be32 RPC_VERSION ++ be32 0 ++ be32 0 ++ be32 0 ++ be32 AUTH_SYS
      ++ be32 (.ofNat client.authBody.length) := by
  unfold callHeaderTemplate rpcCallHeaderTemplate
  rw [if_neg (Nat.not_le.mpr client.authBody_lt)]
  rfl

/-- The header of a call is its eight words. -/
theorem header_encodeCall (xid program version procedure : UInt32) (payload : RpcPayload) :
    (client.encodeCall xid program version procedure payload).header =
      be32 xid ++ be32 CALL ++ be32 RPC_VERSION ++ be32 program ++ be32 version ++ be32 procedure
        ++ be32 AUTH_SYS ++ be32 (.ofNat client.authBody.length) := by
  rw [encodeCall, callHeaderTemplate_eq]
  rfl

theorem encodedCallLen_eq (payloadLen : ℕ) : client.encodedCallLen payloadLen =
    min (40 + client.authBody.length + client.authPaddingLen + payloadLen + xdrPadding payloadLen)
      (2 ^ 64 - 1) := by
  have hverifier : RPC_AUTH_NONE_VERIFIER.length = 8 := rfl
  simp only [encodedCallLen, saturatingEncodedLen, List.foldl_cons, List.foldl_nil, saturatingAdd,
    hverifier, RPC_CALL_HEADER_LEN]
  omega

/-- **A record has the length the client computes for it**, unless the computation
saturates. -/
theorem recordLen_eq (xid program version procedure : UInt32) (payload : RpcPayload) :
    (client.encodeCall xid program version procedure payload).recordLen =
      min (client.record (client.encodeCall xid program version procedure payload)).length
        (2 ^ 64 - 1) := by
  have hlen := payload.len_eq
  have hverifier : RPC_AUTH_NONE_VERIFIER.length = 8 := rfl
  have hcall := client.encodedCallLen_eq payload.len
  have hrecord : (client.encodeCall xid program version procedure payload).recordLen =
      client.encodedCallLen payload.len := rfl
  have hpayload : (client.encodeCall xid program version procedure payload).payload = payload := rfl
  have hpadding : (client.encodeCall xid program version procedure payload).payloadPaddingLen =
      xdrPadding payload.len := rfl
  simp only [record, header_encodeCall, List.length_append, length_be32, length_zeroPadding,
    hverifier, hpayload, hpadding]
  omega

theorem forM_checkRecordLen {batch : List RpcRequest}
    (h : ∀ request ∈ batch, request.recordLen < 2 ^ 31) :
    (batch.forM checkRecordLen : Except Error Unit) = .ok () := by
  induction batch with
  | nil => rfl
  | cons request batch ih =>
    have hmask : FRAGMENT_SIZE_MASK.toNat = 2 ^ 31 - 1 := rfl
    have hone : checkRecordLen request = .ok () := by
      have := h request List.mem_cons_self
      rw [checkRecordLen, if_neg (by omega)]
    show (checkRecordLen request >>= fun _ => batch.forM checkRecordLen) = .ok ()
    rw [hone]
    exact ih fun request hmem => h request (List.mem_cons_of_mem _ hmem)

/-- **The writer.**  Whatever the connection accepts of each write, the records of a batch
of at most 32 requests end up on it in order, each behind its marker. -/
theorem must_writeRecordBatch {batch : List RpcRequest}
    (hbatch : batch.length ≤ MAX_WRITE_BATCH_RECORDS)
    (hlen : ∀ request ∈ batch, request.recordLen < 2 ^ 31) :
    Must (E := transfers) Connection.serves
      (fun r c' => r = .ok () ∧ c' = { c with
        written := c.written ++ batch.flatMap fun request => request.marker ++ client.record request })
      (writeRecordBatch client batch).run c := by
  have hflatten : (batch.flatMap client.recordSlices).flatten =
      batch.flatMap fun request => request.marker ++ client.record request := by
    simp only [List.flatMap_def, List.flatten_flatten, List.map_map, Function.comp_def,
      flatten_recordSlices]
  unfold writeRecordBatch
  rw [List.take_of_length_le hbatch]
  refine must_bindExcept (must_except ?_)
  rw [forM_checkRecordLen hlen, ← hflatten]
  refine must_writeTurns fun hnil => ?_
  -- a batch without bytes has no requests, as every record has a marker
  cases batch with
  | nil => rfl
  | cons request batch =>
    rw [hflatten] at hnil
    have := congrArg List.length hnil
    simp [RpcRequest.marker] at this

end RpcClient

end NfsCrust.Rpc.Framing
