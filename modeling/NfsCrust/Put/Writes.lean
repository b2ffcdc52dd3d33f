import NfsCrust.Delivery
import NfsCrust.Lib.Ranges
import NfsCrust.Negotiation
import NfsCrust.Put.Program

/-!
# Writing a body

`write_bytes` writes a body in one of four ways: as a single chunk that is committed with the
compound that writes it, as serial chunks, as chunks in a pipeline, and as the serial rest of a
chunk of the pipeline that was written short.  The server stores as much as it likes of every
`WRITE`, at least one byte, and says how much.

The world of this file is the log of the `WRITE`s in the order in which the server executed
them.  What is shown is about the log: in every run the accepted parts cover the body exactly
once, whatever the chunk size, the number of slots and the order of the replies.

## Main definitions

* `WriteEntry` — a `WRITE` and its reply; `WriteEntry.Pending` — one that needs a `COMMIT`.
* `storesWrites` — the server.
* `Conflict` — replies that show that the server may have lost data.
* `Accounts` — the outcome of a write accounts for a log.

## Main results

* `accounts_merge` — merging outcomes, in any order.
* `writeBytes_exact` — every run writes the body, unless verifiers differ.
-/

namespace NfsCrust

open Interaction Ranges Rpc.Framing

/-! ### The log -/

/-- A `WRITE` that was executed, and the verifier of the `COMMIT` that came with it. -/
structure WriteEntry where
  offset : ℕ
  data : Bytes
  reply : WriteData
  commit : Option Verifier

namespace WriteEntry

/-- The part of the file that was written. -/
def accepted (e : WriteEntry) : ℕ × ℕ := (e.offset, e.reply.count.toNat)

/-- The reply of a chunk that has to be committed later. -/
def Pending (e : WriteEntry) : Prop := e.commit = none ∧ e.reply.requiresCommit = true

/-- A part of the body, of which at least a byte was written. -/
structure PartOf (body : Bytes) (chunkSize : ℕ) (e : WriteEntry) : Prop where
  short : e.data.length ≤ chunkSize
  data : e.data <+: body.drop e.offset
  pos : 1 ≤ e.reply.count.toNat
  le : e.reply.count.toNat ≤ e.data.length

end WriteEntry

/-- The replies differ in a verifier: two chunks that are to be committed later, or a chunk and
the `COMMIT` that came with it. -/
def Conflict (log : List WriteEntry) : Prop :=
  (∃ e ∈ log, ∃ e' ∈ log, e.Pending ∧ e'.Pending ∧ e.reply.verifier ≠ e'.reply.verifier) ∨
  ∃ e ∈ log, ∃ v, e.commit = some v ∧ e.reply.requiresCommit = true ∧ e.reply.verifier ≠ v

theorem Conflict.mono {log log' : List WriteEntry} (h : Conflict log) (hsub : ∀ e ∈ log, e ∈ log') :
    Conflict log' := by
  obtain ⟨e, he, e', he', hpending⟩ | ⟨e, he, hcommit⟩ := h
  · exact .inl ⟨e, hsub e he, e', hsub e' he', hpending⟩
  · exact .inr ⟨e, hsub e he, hcommit⟩

/-- The verifier that is kept is that of the replies that need a `COMMIT`. -/
structure KeepsVerifier (kept : Option Verifier) (log : List WriteEntry) : Prop where
  none : kept = none → ∀ e ∈ log, ¬ e.Pending
  some : ∀ v, kept = some v → (∃ e ∈ log, e.Pending) ∧ ∀ e ∈ log, e.Pending → e.reply.verifier = v

/-- The outcome of a write accounts for the log. -/
structure Accounts (log : List WriteEntry) (outcome : WriteOutcome) : Prop where
  bytes : outcome.bytesWritten = (log.map fun e => e.reply.count.toNat).sum
  verifier : KeepsVerifier outcome.unstableVerifier log
  committed : ∀ e ∈ log, ∀ v, e.commit = some v → e.reply.requiresCommit = true →
    e.reply.verifier = v

theorem Accounts.nil : Accounts [] {} :=
  ⟨rfl, ⟨fun _ => nofun, nofun⟩, nofun⟩

theorem Accounts.perm {log log' : List WriteEntry} {outcome : WriteOutcome}
    (h : Accounts log outcome) (hperm : log.Perm log') : Accounts log' outcome where
  bytes := by rw [h.bytes, (hperm.map _).sum_eq]
  verifier :=
    { none := fun hnone e he => h.verifier.none hnone e (hperm.mem_iff.mpr he)
      some := fun v hv => by
        obtain ⟨⟨e, he, hpending⟩, hall⟩ := h.verifier.some v hv
        exact ⟨⟨e, hperm.mem_iff.mp he, hpending⟩, fun e' he' => hall e' (hperm.mem_iff.mpr he')⟩ }
  committed e he := h.committed e (hperm.mem_iff.mpr he)

/-- An outcome that accounts for the log shows no conflict. -/
theorem Accounts.not_conflict {log : List WriteEntry} {outcome : WriteOutcome}
    (h : Accounts log outcome) : ¬ Conflict log := by
  rintro (⟨e, he, e', he', hpending, hpending', hne⟩ | ⟨e, he, v, hcommit, hunstable, hne⟩)
  · cases hkept : outcome.unstableVerifier with
    | none => exact h.verifier.none hkept e he hpending
    | some v =>
      have hall := (h.verifier.some v hkept).2
      exact hne ((hall e he hpending).trans (hall e' he' hpending').symm)
  · exact hne (h.committed e he v hcommit hunstable)

/-- The outcome of one chunk. -/
theorem accounts_fromWrite (offset : ℕ) (data : Bytes) (reply : WriteData) :
    Accounts [⟨offset, data, reply, none⟩] (.fromWrite reply reply.count.toNat) where
  bytes := by simp [WriteOutcome.fromWrite]
  verifier := by
    unfold WriteOutcome.fromWrite
    dsimp only
    split
    · next hunstable =>
      refine ⟨nofun, ?_⟩
      rintro _ ⟨⟩
      refine ⟨⟨_, List.mem_singleton.mpr rfl, rfl, hunstable⟩, ?_⟩
      intro e he _
      rw [List.mem_singleton.mp he]
    · next hstable =>
      refine ⟨?_, nofun⟩
      intro _ e he hpending
      rw [List.mem_singleton.mp he] at hpending
      exact hstable hpending.2
  committed e he v hcommit := by
    rw [List.mem_singleton.mp he] at hcommit
    cases hcommit

/-- **Merging.**  Outcomes of different parts of a body are merged into one that accounts for
both, unless their verifiers differ. -/
theorem accounts_merge {log log' : List WriteEntry} {outcome outcome' : WriteOutcome}
    (h : Accounts log outcome) (h' : Accounts log' outcome') :
    (∃ merged, outcome.merge outcome' = .ok merged ∧ Accounts (log ++ log') merged) ∨
      (∃ err, outcome.merge outcome' = .error err) ∧ Conflict (log ++ log') := by
  have hbytes : outcome.bytesWritten + outcome'.bytesWritten
      = ((log ++ log').map fun e => e.reply.count.toNat).sum := by
    rw [h.bytes, h'.bytes, List.map_append, List.sum_append]
  have hcommitted : ∀ e ∈ log ++ log', ∀ v, e.commit = some v → e.reply.requiresCommit = true →
      e.reply.verifier = v := by
    intro e he
    rcases List.mem_append.mp he with he | he
    · exact h.committed e he
    · exact h'.committed e he
  unfold WriteOutcome.merge
  dsimp only
  cases hkept' : outcome'.unstableVerifier with
  | none =>
    -- nothing new is pending
    have hquiet := h'.verifier.none hkept'
    refine .inl ⟨_, rfl, hbytes, ⟨?_, ?_⟩, hcommitted⟩
    · intro hnone e he
      rcases List.mem_append.mp he with he | he
      · exact h.verifier.none hnone e he
      · exact hquiet e he
    · intro v hv
      obtain ⟨⟨e, he, hpending⟩, hall⟩ := h.verifier.some v hv
      refine ⟨⟨e, List.mem_append_left _ he, hpending⟩, ?_⟩
      intro e' he' hpending'
      rcases List.mem_append.mp he' with he' | he'
      · exact hall e' he' hpending'
      · exact absurd hpending' (hquiet e' he')
  | some verifier =>
    obtain ⟨⟨e', he', hpending'⟩, hall'⟩ := h'.verifier.some verifier hkept'
    unfold WriteOutcome.recordUnstable
    dsimp only
    cases hkept : outcome.unstableVerifier with
    | none =>
      refine .inl ⟨_, rfl, hbytes, ⟨nofun, ?_⟩, hcommitted⟩
      rintro _ ⟨⟩
      refine ⟨⟨e', List.mem_append_right _ he', hpending'⟩, ?_⟩
      intro e he hpending
      rcases List.mem_append.mp he with he | he
      · exact absurd hpending (h.verifier.none hkept e he)
      · exact hall' e he hpending
    | some existing =>
      obtain ⟨⟨e, he, hpending⟩, hall⟩ := h.verifier.some existing hkept
      dsimp only
      by_cases hsame : verifier = existing
      · subst hsame
        rw [ensureWriteVerifier_self]
        refine .inl ⟨_, rfl, hbytes, ⟨nofun, ?_⟩, hcommitted⟩
        rintro _ ⟨⟩
        refine ⟨⟨e, List.mem_append_left _ he, hpending⟩, ?_⟩
        intro e'' he'' hpending''
        rcases List.mem_append.mp he'' with he'' | he''
        · exact hall e'' he'' hpending''
        · exact hall' e'' he'' hpending''
      · right
        rw [ensureWriteVerifier, if_pos hsame]
        refine ⟨⟨_, rfl⟩, .inl ⟨e, List.mem_append_left _ he, e', List.mem_append_right _ he',
          hpending, hpending', ?_⟩⟩
        rw [hall e he hpending, hall' e' he' hpending']
        exact fun heq => hsame heq.symm

/-! ### The server -/

/-- How the server answers a `WRITE` of the file, with what is logged.  Nothing is said about
other requests. -/
structure AnswersWrites (opened : OpenedFile) (ops : List NfsOp)
    (r : Except Error (SlotUse × Bytes)) (new : List WriteEntry) : Prop where
  write : ∀ offset data, ops = [.putFh opened.fh, .write opened.stateid offset data] →
    ∃ slot response reply, r = .ok (slot, response) ∧
      Delivered slot ⟨[.putFh, .write reply.count reply.committed reply.verifier], none⟩ response ∧
      1 ≤ reply.count.toNat ∧ reply.count.toNat ≤ data.length ∧ new = [⟨offset, data, reply, none⟩]
  commit : ∀ offset data, ops = writeAndCommitOps opened offset data →
    ∃ slot response reply verifier, r = .ok (slot, response) ∧
      Delivered slot ⟨[.putFh, .write reply.count reply.committed reply.verifier,
        .commit verifier], none⟩ response ∧
      1 ≤ reply.count.toNat ∧ reply.count.toNat ≤ data.length ∧
      new = [⟨offset, data, reply, some verifier⟩]

/-- A server that stores a part of every `WRITE` of the file, and logs it. -/
def storesWrites (opened : OpenedFile) : (e : Effect) → List WriteEntry → e.Response →
    List WriteEntry → Prop
  | .exchange _ _ ops, log, r, log' => ∃ new, log' = log ++ new ∧ AnswersWrites opened ops r new
  | _, log, _, log' => log' = log

/-- What a step logs does not depend on the log. -/
theorem storesWrites_frame {opened : OpenedFile} {e : Effect} {log log' : List WriteEntry}
    {r : e.Response} (h : storesWrites opened e log r log') :
    ∃ new, log' = log ++ new ∧ ∀ other, storesWrites opened e other r (other ++ new) := by
  cases e with
  | exchange s tag ops =>
    obtain ⟨new, hlog, hanswers⟩ := h
    exact ⟨new, hlog, fun other => ⟨new, rfl, hanswers⟩⟩
  | _ => exact ⟨[], by rw [List.append_nil]; exact h, fun other => List.append_nil other⟩

/-- The negotiated limits admit the `WRITE`s of the file. -/
structure NfsSession.AdmitsWrites (s : NfsSession) (opened : OpenedFile) : Prop where
  write : ∀ offset data, data.length ≤ s.writeChunkSize →
    s.validateCompoundRequest "write" [.putFh opened.fh, .write opened.stateid offset data] = .ok ()
  commit : ∀ offset data, data.length ≤ s.writeChunkSize →
    s.validateCompoundRequest "write-commit" (writeAndCommitOps opened offset data) = .ok ()

section

variable {s : NfsSession} {opened : OpenedFile} {body : Bytes} {log : List WriteEntry}
  {offset : ℕ} {data : Bytes}

/-- Those of a session whose channel was negotiated do, with room for four operations. -/
theorem NfsSession.AdmitsWrites.of_negotiated {auth : AuthSys} {stamp : UInt32}
    {client : RpcClient} {config : NfsConfig} {attrs : ChannelAttrs}
    (hclient : RpcClient.connect auth stamp = .ok client) (hconfig : validateConfig config = .ok ())
    (hrequest : 1024 ≤ attrs.maxRequestSize.toNat) (hoperations : 4 ≤ attrs.maxoperations.toNat)
    (hauth : s.authBodyLen = client.authBody.length)
    (hsession : s.config = negotiatedConfig config attrs) (hfh : opened.fh.bytes.length ≤ 128) :
    s.AdmitsWrites opened := by
  have hmax : s.config.maxCompoundOps = attrs.maxoperations := by rw [hsession, negotiatedConfig]
  have hvalid : ∀ call : SessionCall, call.WritesAtMost s.writeChunkSize →
      (call.ops s).length ≤ 3 → s.validateCompoundRequest call.tag (call.ops s) = .ok () := by
    intro call hcall hops
    rw [validateCompoundRequest_eq_ok, hmax, saturatingAdd]
    refine ⟨by omega, ?_⟩
    exact encodedCallLen_negotiated_write hclient hconfig hrequest hauth hsession hcall
  constructor
  · intro offset data hlen
    exact hvalid (.write opened offset data) ⟨hfh, hlen⟩ (by decide : 2 ≤ 3)
  · intro offset data hlen
    exact hvalid (.writeAndCommit opened offset data) ⟨hfh, hlen⟩ (Nat.le_refl 3)

/-- A reply that says that everything was written. -/
def wholeReply (data : Bytes) : WriteData := ⟨.ofNat data.length, .fileSync, .replicate 8 0⟩

theorem toNat_wholeReply (hdata : data.length < 2 ^ 32) :
    (wholeReply data).count.toNat = data.length :=
  UInt32.toNat_ofNat_of_lt' hdata

/-- A `WRITE` is one exchange, and is logged. -/
theorem finishes_write (hadmits : s.AdmitsWrites opened) (hlen : data.length ≤ s.writeChunkSize)
    (hpos : data ≠ []) :
    Thread.Finishes (E := effects) (storesWrites opened) (fun r log' => ∃ reply, r = .ok reply ∧
        1 ≤ reply.count.toNat ∧ reply.count.toNat ≤ data.length ∧
        log' = log ++ [⟨offset, data, reply, none⟩]) 1
      (s.call (.write opened offset data)).run log := by
  have hsmall : data.length < 2 ^ 32 := Nat.lt_of_le_of_lt hlen s.config.writeChunkSize.toNat_lt
  refine finishes_call (hadmits.write offset data hlen) ?_ ?_
  · obtain ⟨response, hresponse⟩ := exists_delivered ⟨.replicate 16 0, 1, 0⟩
      (t := ⟨[.putFh, .write (wholeReply data).count (wholeReply data).committed
        (wholeReply data).verifier], none⟩) (show 2 + 1 < 2 ^ 32 by decide)
    refine ⟨.ok (⟨.replicate 16 0, 1, 0⟩, response),
      log ++ [⟨offset, data, wholeReply data, none⟩], _, rfl, ?_, ?_⟩
    · rintro _ _ ⟨⟩
      refine ⟨_, _, wholeReply data, rfl, hresponse, ?_, ?_, rfl⟩
      · rw [toNat_wholeReply hsmall]
        exact List.length_pos_iff.mpr hpos
      · exact Nat.le_of_eq (toNat_wholeReply hsmall)
    · rintro _ _ ⟨⟩
  · rintro resp _ ⟨new, rfl, hanswers⟩
    obtain ⟨slot, response, reply, rfl, hdelivered, hone, hle, rfl⟩ := hanswers.write offset data rfl
    obtain ⟨value, hreceived, hvalue⟩ := SessionCall.received_complete (s := s)
      (.write opened offset data) hdelivered ⟨rfl, rfl, rfl, rfl⟩
      ⟨by simp, by simp, by simp, by simp, trivial⟩
    cases hvalue
    exact ⟨_, hreceived, reply, rfl, hone, hle, rfl⟩

/-- A `WRITE` with a `COMMIT` is one exchange, and is logged. -/
theorem finishes_writeAndCommit (hadmits : s.AdmitsWrites opened)
    (hlen : data.length ≤ s.writeChunkSize) (hpos : data ≠ []) :
    Thread.Finishes (E := effects) (storesWrites opened) (fun r log' => ∃ reply verifier,
        r = .ok (reply, verifier) ∧ 1 ≤ reply.count.toNat ∧ reply.count.toNat ≤ data.length ∧
        log' = log ++ [⟨offset, data, reply, some verifier⟩]) 1
      (s.call (.writeAndCommit opened offset data)).run log := by
  have hsmall : data.length < 2 ^ 32 := Nat.lt_of_le_of_lt hlen s.config.writeChunkSize.toNat_lt
  refine finishes_call (hadmits.commit offset data hlen) ?_ ?_
  · obtain ⟨response, hresponse⟩ := exists_delivered ⟨.replicate 16 0, 1, 0⟩
      (t := ⟨[.putFh, .write (wholeReply data).count (wholeReply data).committed
        (wholeReply data).verifier, .commit (.replicate 8 0)], none⟩) (show 3 + 1 < 2 ^ 32 by decide)
    refine ⟨.ok (⟨.replicate 16 0, 1, 0⟩, response),
      log ++ [⟨offset, data, wholeReply data, some (.replicate 8 0)⟩], _, rfl, ?_, ?_⟩
    · rintro _ _ ⟨⟩
    · rintro _ _ ⟨⟩
      refine ⟨_, _, wholeReply data, _, rfl, hresponse, ?_, ?_, rfl⟩
      · rw [toNat_wholeReply hsmall]
        exact List.length_pos_iff.mpr hpos
      · exact Nat.le_of_eq (toNat_wholeReply hsmall)
  · rintro resp _ ⟨new, rfl, hanswers⟩
    obtain ⟨slot, response, reply, verifier, rfl, hdelivered, hone, hle, rfl⟩ :=
      hanswers.commit offset data rfl
    obtain ⟨value, hreceived, hvalue⟩ := SessionCall.received_complete (s := s)
      (.writeAndCommit opened offset data) hdelivered ⟨rfl, rfl, rfl, rfl, rfl⟩
      ⟨by simp, by simp, by simp, by simp, trivial⟩
    cases hvalue
    exact ⟨_, hreceived, reply, verifier, rfl, hone, hle, rfl⟩

/-! ### A chunk -/

theorem validateWriteReply_eq_ok {write : WriteData} {n : ℕ} (hone : 1 ≤ write.count.toNat)
    (hle : write.count.toNat ≤ n) : validateWriteReply write n = .ok write.count.toNat := by
  unfold validateWriteReply
  dsimp only
  rw [if_neg (by omega), if_neg (by omega)]

/-- A result reports the entries of the log that it is about. -/
def Reports (log : List WriteEntry) : Except Error WriteOutcome → Prop
  | .ok outcome => Accounts log outcome
  | .error _ => Conflict log

/-- The body was written from `start` to `stop`, one part after the other, unless an error says
otherwise. -/
structure Stored (s : NfsSession) (body : Bytes) (start stop : ℕ) (log : List WriteEntry)
    (r : Except Error WriteOutcome) : Prop where
  part : ∀ e ∈ log, e.PartOf body s.writeChunkSize
  row : ∃ last, Chain start (log.map (·.accepted)) last ∧ ∀ outcome, r = .ok outcome → last = stop
  reports : Reports log r

/-- The parts written so far, up to an offset. -/
structure Written (s : NfsSession) (body : Bytes) (start offset : ℕ) (log : List WriteEntry)
    (outcome : WriteOutcome) : Prop where
  part : ∀ e ∈ log, e.PartOf body s.writeChunkSize
  row : Chain start (log.map (·.accepted)) offset
  accounts : Accounts log outcome

section

variable {start : ℕ} {outcome : WriteOutcome} {e : WriteEntry}

theorem Written.nil : Written s body start start [] {} := ⟨nofun, rfl, .nil⟩

theorem Written.stored (h : Written s body start offset log outcome) :
    Stored s body start offset log (.ok outcome) :=
  ⟨h.part, ⟨offset, h.row, fun _ _ => rfl⟩, h.accounts⟩

/-- What is known of the log when a further entry is added to it. -/
theorem Written.append_part (h : Written s body start e.offset log outcome)
    (he : e.PartOf body s.writeChunkSize) :
    (∀ e' ∈ log ++ [e], e'.PartOf body s.writeChunkSize) ∧
      Chain start ((log ++ [e]).map (·.accepted)) (e.offset + e.reply.count.toNat) := by
  constructor
  · intro e' he'
    rcases List.mem_append.mp he' with he' | he'
    · exact h.part e' he'
    · rw [List.mem_singleton.mp he']
      exact he
  · rw [List.map_append]
    exact h.row.append ⟨rfl, rfl⟩

/-- A further part is merged, or its verifier differs. -/
theorem Written.append (h : Written s body start e.offset log outcome)
    (he : e.PartOf body s.writeChunkSize) {next : WriteOutcome} (hnext : Accounts [e] next) :
    (∃ merged, outcome.merge next = .ok merged ∧
      Written s body start (e.offset + e.reply.count.toNat) (log ++ [e]) merged) ∨
    ∃ err, outcome.merge next = .error err ∧
      ∀ stop, Stored s body start stop (log ++ [e]) (.error err) := by
  obtain ⟨hparts, hrow⟩ := h.append_part he
  obtain ⟨merged, hmerged, haccounts⟩ | ⟨⟨err, herr⟩, hconflict⟩ := accounts_merge h.accounts hnext
  · exact .inl ⟨merged, hmerged, hparts, hrow, haccounts⟩
  · exact .inr ⟨err, herr, fun _ => ⟨hparts, ⟨_, hrow, nofun⟩, hconflict⟩⟩

/-- A part, and the parts after it. -/
theorem Stored.cons {stop : ℕ} {es : List WriteEntry} {r : Except Error WriteOutcome}
    (he : e.PartOf body s.writeChunkSize) (hfirst : Accounts [e] outcome)
    (h : Stored s body (e.offset + e.reply.count.toNat) stop es r) :
    Stored s body e.offset stop (e :: es) (r.bind outcome.merge) := by
  obtain ⟨hparts, ⟨last, hrow, hlast⟩, hreports⟩ := h
  have hparts' : ∀ e' ∈ e :: es, e'.PartOf body s.writeChunkSize := by
    intro e' he'
    rcases List.mem_cons.mp he' with rfl | he'
    · exact he
    · exact hparts e' he'
  have hrow' : Chain e.offset ((e :: es).map (·.accepted)) last := ⟨rfl, hrow⟩
  cases r with
  | error err =>
    exact ⟨hparts', ⟨last, hrow', nofun⟩, hreports.mono fun e' => List.mem_cons_of_mem _⟩
  | ok rest =>
    change Stored s body e.offset stop (e :: es) (outcome.merge rest)
    obtain ⟨merged, hmerged, haccounts⟩ | ⟨⟨err, herr⟩, hconflict⟩ :=
      accounts_merge hfirst hreports
    · rw [hmerged]
      exact ⟨hparts', ⟨last, hrow', fun _ _ => hlast rest rfl⟩, haccounts⟩
    · rw [herr]
      exact ⟨hparts', ⟨last, hrow', nofun⟩, hconflict⟩

variable {chunk : Bytes}

theorem prefix_drop (h : chunk <+: body.drop offset) (n : ℕ) :
    chunk.drop n <+: body.drop (offset + n) := by
  obtain ⟨rest, hrest⟩ := h
  rw [← List.drop_drop, ← hrest, List.drop_append]
  exact List.prefix_append _ _

/-- **The serial loop.**  What is left of a chunk is written, a part after the other. -/
theorem finishes_writeChunkAllFrom (hadmits : s.AdmitsWrites opened) (hchunk : 1 ≤ s.writeChunkSize)
    {turns : ℕ} {es : List WriteEntry} (hturns : chunk.length ≤ turns)
    (hpart : chunk <+: body.drop offset) (hwritten : Written s body start offset es outcome) :
    Thread.Finishes (E := effects) (storesWrites opened) (fun r log' => ∃ es',
        log' = log ++ es' ∧ Stored s body start (offset + chunk.length) es' r) turns
      (writeChunkAllFrom s opened turns offset chunk outcome).run (log ++ es) := by
  induction turns generalizing offset chunk outcome es with
  | zero =>
    have hnil : chunk = [] := List.length_eq_zero_iff.mp (Nat.le_zero.mp hturns)
    subst hnil
    exact ⟨es, rfl, hwritten.stored⟩
  | succ turns ih =>
    unfold writeChunkAllFrom
    split
    · next hnil =>
      subst hnil
      exact ⟨es, rfl, hwritten.stored⟩
    · next hsome =>
      have hpos : 1 ≤ chunk.length := List.length_pos_iff.mpr hsome
      have htake : chunk.take s.writeChunkSize ≠ [] := by
        intro hnil
        have hlen := List.length_take (i := s.writeChunkSize) (l := chunk)
        rw [hnil, List.length_nil] at hlen
        omega
      rw [Nat.add_comm turns 1]
      refine Thread.Finishes.bindExcept_add
        ((finishes_write hadmits (List.length_take_le _ _) htake).mono ?_)
      rintro _ _ ⟨reply, rfl, hone, hle, rfl⟩
      dsimp only
      have he : WriteEntry.PartOf body s.writeChunkSize
          ⟨offset, chunk.take s.writeChunkSize, reply, none⟩ :=
        ⟨List.length_take_le _ _, (List.take_prefix _ _).trans hpart, hone, hle⟩
      have hleft := Nat.le_trans hle (List.length_take_le' _ _)
      refine .check_ok (validateWriteReply_eq_ok hone hle) ?_
      rw [List.append_assoc]
      obtain ⟨merged, hmerged, hnext⟩ | ⟨err, herr, hstored⟩ :=
        hwritten.append he (accounts_fromWrite _ _ _)
      · -- the rest is written by the turns that are left
        have hstop : offset + reply.count.toNat + (chunk.drop reply.count.toNat).length
            = offset + chunk.length := by
          rw [List.length_drop]
          omega
        have hshorter : (chunk.drop reply.count.toNat).length ≤ turns := by
          rw [List.length_drop]
          omega
        have hdone := ih hshorter (prefix_drop hpart _) hnext
        rw [hstop] at hdone
        exact .check_ok hmerged hdone
      · exact .check_error herr ⟨_, rfl, hstored _⟩

theorem finishes_writeChunkAll (hadmits : s.AdmitsWrites opened) (hchunk : 1 ≤ s.writeChunkSize)
    (hpart : chunk <+: body.drop offset) :
    Thread.Finishes (E := effects) (storesWrites opened) (fun r log' => ∃ es,
        log' = log ++ es ∧ Stored s body offset (offset + chunk.length) es r) chunk.length
      (writeChunkAll s opened offset chunk).run log := by
  rw [← List.append_nil log]
  refine (finishes_writeChunkAllFrom hadmits hchunk (Nat.le_refl _) hpart .nil).mono ?_
  rintro r _ ⟨es, rfl, hstored⟩
  exact ⟨es, by rw [List.append_nil], hstored⟩

/-- **A chunk of the pipeline**, with its rest when it was written short. -/
theorem finishes_writeChunk (hadmits : s.AdmitsWrites opened) (hchunk : 1 ≤ s.writeChunkSize)
    (hpos : chunk ≠ []) (hlen : chunk.length ≤ s.writeChunkSize)
    (hpart : chunk <+: body.drop offset) :
    Thread.Finishes (E := effects) (storesWrites opened)
      (fun r log' => Stored s body offset (offset + chunk.length) log' r) chunk.length
      (writeChunk s opened offset chunk).run [] := by
  have hpos' : 1 ≤ chunk.length := List.length_pos_iff.mpr hpos
  refine Thread.Finishes.le (n := 1 + (chunk.length - 1)) ?_ (by omega)
  refine Thread.Finishes.bindExcept_add ((finishes_write hadmits hlen hpos).mono ?_)
  rintro _ _ ⟨reply, rfl, hone, hle, rfl⟩
  dsimp only
  have he : WriteEntry.PartOf body s.writeChunkSize ⟨offset, chunk, reply, none⟩ :=
    ⟨hlen, hpart, hone, hle⟩
  have hfirst := accounts_fromWrite offset chunk reply
  refine .check_ok (validateWriteReply_eq_ok hone hle) ?_
  split
  · -- the chunk was written in one go
    next hwhole =>
    have hnothing : Stored s body (offset + reply.count.toNat) (offset + chunk.length) [] (.ok {}) := by
      rw [hwhole]
      exact Written.nil.stored
    exact Thread.Finishes.of_ret (hnothing.cons he hfirst)
  · have hlenRest : (chunk.drop reply.count.toNat).length = chunk.length - reply.count.toNat :=
      List.length_drop
    refine Thread.Finishes.le (n := (chunk.drop reply.count.toNat).length + 0) ?_ (by omega)
    refine Thread.Finishes.bindExcept_add
      ((finishes_writeChunkAll hadmits hchunk (prefix_drop hpart _)).mono ?_)
    rintro r _ ⟨es, rfl, hstored⟩
    rw [hlenRest, show offset + reply.count.toNat + (chunk.length - reply.count.toNat)
      = offset + chunk.length by omega] at hstored
    have hcons := hstored.cons he hfirst
    cases r with
    | error err => exact hcons
    | ok rest => exact hcons

/-- The outcome of a part that is committed at once. -/
theorem accounts_committed {reply : WriteData} {verifier : Verifier}
    (h : reply.requiresCommit = true → reply.verifier = verifier) :
    Accounts [⟨offset, data, reply, some verifier⟩] { bytesWritten := reply.count.toNat } where
  bytes := by simp
  verifier := by
    refine ⟨?_, nofun⟩
    intro _ e' he' hpending
    rw [List.mem_singleton.mp he'] at hpending
    cases hpending.1
  committed e' he' v hcommit hunstable := by
    rw [List.mem_singleton.mp he'] at hcommit hunstable ⊢
    cases hcommit
    exact h hunstable

/-- **The committed loop.**  A body of at most one chunk is written and committed in parts. -/
theorem finishes_writeSingleChunkCommittedFrom (hadmits : s.AdmitsWrites opened) {turns total : ℕ}
    {es : List WriteEntry} (hturns : chunk.length ≤ turns) (hlen : chunk.length ≤ s.writeChunkSize)
    (hpart : chunk <+: body.drop offset)
    (hwritten : Written s body start offset es { bytesWritten := total }) :
    Thread.Finishes (E := effects) (storesWrites opened)
      (fun r log' => Stored s body start (offset + chunk.length) log' r) turns
      (writeSingleChunkCommittedFrom s opened turns offset chunk total).run es := by
  induction turns generalizing offset chunk total es with
  | zero =>
    have hnil : chunk = [] := List.length_eq_zero_iff.mp (Nat.le_zero.mp hturns)
    subst hnil
    exact hwritten.stored
  | succ turns ih =>
    unfold writeSingleChunkCommittedFrom
    split
    · next hnil =>
      subst hnil
      exact hwritten.stored
    · next hsome =>
      rw [Nat.add_comm turns 1]
      refine Thread.Finishes.bindExcept_add ((finishes_writeAndCommit hadmits hlen hsome).mono ?_)
      rintro _ _ ⟨reply, verifier, rfl, hone, hle, rfl⟩
      dsimp only
      have he : WriteEntry.PartOf body s.writeChunkSize ⟨offset, chunk, reply, some verifier⟩ :=
        ⟨hlen, hpart, hone, hle⟩
      refine .check_ok (validateWriteReply_eq_ok hone hle) ?_
      by_cases hdiffer : reply.requiresCommit = true ∧ reply.verifier ≠ verifier
      · -- the server may have lost what it had not committed
        obtain ⟨hunstable, hne⟩ := hdiffer
        obtain ⟨hparts, hrow⟩ := hwritten.append_part he
        rw [if_pos hunstable]
        refine .check_error (ensureWriteVerifier_of_ne hne.symm) ⟨hparts, ⟨_, hrow, nofun⟩, ?_⟩
        exact .inr ⟨_, List.mem_append_right _ (List.mem_singleton.mpr rfl), verifier, rfl,
          hunstable, hne⟩
      · have hcommitted : reply.requiresCommit = true → reply.verifier = verifier := by
          intro hunstable
          by_contra hne
          exact hdiffer ⟨hunstable, hne⟩
        obtain ⟨_, ⟨⟩, hnext⟩ | ⟨_, herr, _⟩ := hwritten.append he (accounts_committed hcommitted)
        swap
        · cases herr
        have hstop : offset + reply.count.toNat + (chunk.drop reply.count.toNat).length
            = offset + chunk.length := by
          rw [List.length_drop]
          omega
        have hshorter : (chunk.drop reply.count.toNat).length ≤ turns ∧
            (chunk.drop reply.count.toNat).length ≤ s.writeChunkSize := by
          rw [List.length_drop]
          omega
        have hdone := ih hshorter.1 hshorter.2 (prefix_drop hpart _) hnext
        rw [hstop] at hdone
        split
        · next hunstable =>
          rw [hcommitted hunstable]
          exact .check_ok (ensureWriteVerifier_self verifier) hdone
        · exact hdone

/-! ### The pipeline -/

/-- A chunk in flight: where it begins and ends, how many requests it may still make, and what it
has written. -/
structure ChunkInFlight where
  start : ℕ
  stop : ℕ
  fuel : ℕ
  done : List WriteEntry

namespace ChunkInFlight

def range (x : ChunkInFlight) : ℕ × ℕ := (x.start, x.stop - x.start)

/-- The rest of the thread that writes the chunk. -/
def Runs (s : NfsSession) (opened : OpenedFile) (body : Bytes) (x : ChunkInFlight)
    (t : Thread effects (Except Error WriteOutcome)) : Prop :=
  t.Finishes (E := effects) (storesWrites opened)
    (fun r log => Stored s body x.start x.stop log r) x.fuel x.done

end ChunkInFlight

/-- The state of a pipelined write: what was absorbed, and what is in flight. -/
structure PipelinedWrite.Accounted (s : NfsSession) (body : Bytes) (x : PipelinedWrite)
    (chunks : List ChunkInFlight) (log absorbed : List WriteEntry) : Prop where
  log : log.Perm (absorbed ++ (chunks.map (·.done)).flatten)
  part : ∀ e ∈ absorbed, e.PartOf body s.writeChunkSize
  offset : x.nextOffset ≤ body.length
  ok : x.firstError = none → Accounts absorbed x.outcome ∧ ∀ i,
    hits (absorbed.map (·.accepted)) i + hits (chunks.map (·.range)) i = cover (0, x.nextOffset) i
  error : ∀ err, x.firstError = some err → Conflict absorbed

/-- What is left to do. -/
def PipelinedWrite.work (body : Bytes) (x : PipelinedWrite) (chunks : List ChunkInFlight) : ℕ :=
  2 * (body.length - x.nextOffset) + (chunks.map (·.fuel + 1)).sum

section

variable {x : PipelinedWrite} {chunks : List ChunkInFlight} {absorbed : List WriteEntry}

/-- The next chunk is a part of the body. -/
theorem exists_chunk_of_next {depth : ℕ} {t : Thread effects (Except Error WriteOutcome)}
    {x' : PipelinedWrite} (hadmits : s.AdmitsWrites opened) (hchunk : 1 ≤ s.writeChunkSize)
    (hnext : (writePool s opened body depth).next x = some (t, x')) :
    x.firstError = none ∧ ∃ len, 1 ≤ len ∧ x.nextOffset + len ≤ body.length ∧
      x' = { x with nextOffset := x.nextOffset + len } ∧
      ChunkInFlight.Runs s opened body ⟨x.nextOffset, x.nextOffset + len, len, []⟩ t := by
  simp only [writePool] at hnext
  split at hnext
  · next hmore =>
    rw [Bool.and_eq_true, Option.isNone_iff_eq_none, decide_eq_true_eq] at hmore
    obtain ⟨hnone, hlt⟩ := hmore
    cases hnext
    obtain ⟨len, hlen⟩ : ∃ len, min (x.nextOffset + s.writeChunkSize) body.length
        = x.nextOffset + len := ⟨_, (Nat.add_sub_cancel' (by omega)).symm⟩
    have hlength : ((body.drop x.nextOffset).take len).length = len := by
      rw [List.length_take, List.length_drop]
      omega
    refine ⟨hnone, len, by omega, by omega, by rw [hlen], ?_⟩
    rw [hlen, Nat.add_sub_cancel_left]
    have hpos : (body.drop x.nextOffset).take len ≠ [] := by
      intro hnil
      rw [hnil, List.length_nil] at hlength
      omega
    have hruns := finishes_writeChunk hadmits hchunk hpos (by omega)
      (List.take_prefix len (body.drop x.nextOffset))
    rw [hlength] at hruns
    exact hruns
  · cases hnext

/-- Starting a chunk. -/
theorem PipelinedWrite.Accounted.started (h : x.Accounted s body chunks log absorbed)
    (hnone : x.firstError = none) {len : ℕ} (hlen : x.nextOffset + len ≤ body.length) :
    PipelinedWrite.Accounted s body { x with nextOffset := x.nextOffset + len }
      (chunks ++ [⟨x.nextOffset, x.nextOffset + len, len, []⟩]) log absorbed where
  log := by simpa using h.log
  part := h.part
  offset := hlen
  ok hok := by
    refine ⟨(h.ok hnone).1, fun i => ?_⟩
    have hcover := (h.ok hnone).2 i
    have hsplit := cover_split 0 x.nextOffset len i
    simp only [List.map_append, List.map_cons, List.map_nil, hits_append, hits_cons, hits_nil]
    rw [Nat.zero_add] at hsplit
    have hrange : ChunkInFlight.range ⟨x.nextOffset, x.nextOffset + len, len, []⟩
        = (x.nextOffset, len) := by
      rw [ChunkInFlight.range, Nat.add_sub_cancel_left]
    rw [hsplit, ← hcover, hrange]
    omega
  error err herr := by
    cases hnone.symm.trans herr

/-- A chunk in flight writes. -/
theorem PipelinedWrite.Accounted.wrote {l r : List ChunkInFlight} {y : ChunkInFlight} {fuel : ℕ}
    {new : List WriteEntry} (h : x.Accounted s body (l ++ y :: r) log absorbed) :
    x.Accounted s body (l ++ { y with fuel := fuel, done := y.done ++ new } :: r) (log ++ new)
      absorbed where
  log := by
    refine (h.log.append_right new).trans ?_
    simp only [List.map_append, List.map_cons, List.flatten_append, List.flatten_cons,
      List.append_assoc]
    refine ((List.perm_append_comm).append_left _).append_left _ |>.append_left _
  part := h.part
  offset := h.offset
  ok hok := by
    simpa [ChunkInFlight.range] using h.ok hok
  error := h.error

/-- What a result does to the state. -/
theorem absorb_writePool_cases (s : NfsSession) (opened : OpenedFile) (body : Bytes) (depth : ℕ)
    (x : PipelinedWrite) (b : Except Error WriteOutcome) :
    (∃ written outcome, b = .ok written ∧ x.outcome.merge written = .ok outcome ∧
      (writePool s opened body depth).absorb x b = { x with outcome }) ∨
    ∃ err, (∀ written, b = .ok written → ∃ err', x.outcome.merge written = .error err') ∧
      (writePool s opened body depth).absorb x b
        = { x with firstError := some (x.firstError.getD err) } := by
  cases b with
  | error err => exact .inr ⟨err, nofun, rfl⟩
  | ok written =>
    simp only [writePool]
    split
    · next outcome hmerge => exact .inl ⟨written, outcome, rfl, hmerge, rfl⟩
    · next err hmerge =>
      refine .inr ⟨err, ?_, rfl⟩
      rintro _ ⟨⟩
      exact ⟨err, hmerge⟩

theorem nextOffset_absorb (s : NfsSession) (opened : OpenedFile) (body : Bytes) (depth : ℕ)
    (x : PipelinedWrite) (b : Except Error WriteOutcome) :
    ((writePool s opened body depth).absorb x b).nextOffset = x.nextOffset := by
  obtain ⟨_, _, _, _, heq⟩ | ⟨_, _, heq⟩ := absorb_writePool_cases s opened body depth x b
  · rw [heq]
  · rw [heq]

/-- A chunk is done. -/
theorem PipelinedWrite.Accounted.returned {l r : List ChunkInFlight} {y : ChunkInFlight}
    {b : Except Error WriteOutcome} (h : x.Accounted s body (l ++ y :: r) log absorbed)
    (hstored : Stored s body y.start y.stop y.done b) (opened : OpenedFile) (depth : ℕ) :
    ((writePool s opened body depth).absorb x b).Accounted s body (l ++ r) log
      (absorbed ++ y.done) := by
  obtain ⟨hparts, ⟨last, hrow, hlast⟩, hreports⟩ := hstored
  have hlog : log.Perm (absorbed ++ y.done ++ ((l ++ r).map (·.done)).flatten) := by
    refine h.log.trans ?_
    simp only [List.map_append, List.map_cons, List.flatten_append, List.flatten_cons,
      List.append_assoc]
    refine List.Perm.append_left _ ?_
    rw [← List.append_assoc, ← List.append_assoc]
    exact List.perm_append_comm.append_right _
  have hparts' : ∀ e ∈ absorbed ++ y.done, e.PartOf body s.writeChunkSize := by
    intro e he
    rcases List.mem_append.mp he with he | he
    · exact h.part e he
    · exact hparts e he
  have hoffset := (nextOffset_absorb s opened body depth x b).trans_le h.offset
  have hearlier : Conflict absorbed → Conflict (absorbed ++ y.done) :=
    fun hconflict => hconflict.mono fun e => List.mem_append_left _
  obtain ⟨written, outcome, rfl, hmerge, heq⟩ | ⟨err, hfailed, heq⟩ :=
    absorb_writePool_cases s opened body depth x b
  · refine ⟨hlog, hparts', hoffset, ?_, ?_⟩
    · rw [heq]
      intro hnone
      obtain ⟨haccounts, hcover⟩ := h.ok hnone
      obtain ⟨_, hmerged, haccounts'⟩ | ⟨⟨_, herr⟩, _⟩ := accounts_merge haccounts hreports
      · cases hmerge.symm.trans hmerged
        refine ⟨haccounts', fun i => ?_⟩
        -- the parts of the chunk cover what was reserved for it
        have hchunkHits := hrow.hits_eq i
        rw [hlast written rfl] at hchunkHits
        have hbefore := hcover i
        simp only [List.map_append, List.map_cons, hits_append, hits_cons] at hbefore ⊢
        rw [hchunkHits]
        change _ = cover (0, x.nextOffset) i
        rw [← hbefore, ChunkInFlight.range]
        omega
      · cases hmerge.symm.trans herr
    · rw [heq]
      exact fun err herr => hearlier (h.error err herr)
  · refine ⟨hlog, hparts', hoffset, ?_, ?_⟩
    · rw [heq]
      exact nofun
    · rintro _ -
      cases hfirst : x.firstError with
      | some first => exact hearlier (h.error first hfirst)
      | none =>
        cases b with
        | error err => exact hreports.mono fun e => List.mem_append_right _
        | ok written =>
          obtain ⟨err', hmerge⟩ := hfailed written rfl
          obtain ⟨_, hmerged, _⟩ | ⟨_, hconflict⟩ := accounts_merge (h.ok hfirst).1 hreports
          · cases hmerge.symm.trans hmerged
          · exact hconflict

end

/-- What the program returns, and what the server has written when it does. -/
structure WritesExactly (s : NfsSession) (body : Bytes) (r : Except Error WriteOutcome)
    (log : List WriteEntry) : Prop where
  payload : ∀ e ∈ log, e.PartOf body s.writeChunkSize
  ok : ∀ outcome, r = .ok outcome → outcome.bytesWritten = body.length ∧
    (∀ i, hits (log.map (·.accepted)) i = if i < body.length then 1 else 0) ∧
    KeepsVerifier outcome.unstableVerifier log ∧ ¬ Conflict log
  error : ∀ err, r = .error err → Conflict log
  serial : s.config.pipelineWriteChunks = false → log.Pairwise fun e e' => e.offset < e'.offset

/-- The body was written and is accounted for. -/
theorem WritesExactly.of_accounts {outcome : WriteOutcome}
    (hparts : ∀ e ∈ log, e.PartOf body s.writeChunkSize) (haccounts : Accounts log outcome)
    (hcover : ∀ i, hits (log.map (·.accepted)) i = cover (0, body.length) i)
    (hserial : s.config.pipelineWriteChunks = false → log.Pairwise fun e e' => e.offset < e'.offset) :
    WritesExactly s body (.ok outcome) log where
  payload := hparts
  ok := by
    rintro _ ⟨⟩
    have hlength := sum_length_eq hcover
    rw [List.map_map] at hlength
    refine ⟨haccounts.bytes.trans hlength, ?_, haccounts.verifier, haccounts.not_conflict⟩
    intro i
    rw [hcover, cover]
    simp
  error := nofun
  serial := hserial

/-- A body that is written one part after the other. -/
theorem Stored.writesExactly {r : Except Error WriteOutcome} (h : Stored s body 0 body.length log r) :
    WritesExactly s body r log := by
  obtain ⟨hparts, ⟨last, hrow, hlast⟩, hreports⟩ := h
  have hpairwise : log.Pairwise fun e e' => e.offset < e'.offset := by
    have hpos : ∀ range ∈ log.map (·.accepted), 0 < range.2 := by
      intro range hrange
      obtain ⟨e, he, rfl⟩ := List.mem_map.mp hrange
      exact (hparts e he).pos
    have hranges := hrow.pairwise hpos
    rw [List.pairwise_map] at hranges
    exact hranges
  cases r with
  | error err => exact ⟨hparts, nofun, fun _ _ => hreports, fun _ => hpairwise⟩
  | ok outcome =>
    refine .of_accounts hparts hreports ?_ fun _ => hpairwise
    intro i
    rw [hrow.hits_eq, hlast outcome rfl, Nat.sub_zero]

/-- **The pipeline.**  Whatever the order in which chunks are served and their results arrive, the
body is written. -/
theorem must_writeChunkAllPipelined (hadmits : s.AdmitsWrites opened)
    (hchunk : 1 ≤ s.writeChunkSize) {depth : ℕ} (hdepth : 0 < depth)
    (hpipelined : s.config.pipelineWriteChunks = true) :
    Must (E := effects) (storesWrites opened) (WritesExactly s body)
      (writeChunkAllPipelined s opened body depth).run [] := by
  refine must_bindExcept (must_lift ?_)
  refine Pool.must_run (fun y t _ => ChunkInFlight.Runs s opened body y t)
    (fun x chunks log => ∃ absorbed, x.Accounted s body chunks log absorbed)
    (PipelinedWrite.work body) hdepth ?_ ?_ ?_ ?_ ?_
  · -- nothing is written at first
    refine ⟨[], .nil, by simp, Nat.zero_le _, fun _ => ⟨.nil, fun i => ?_⟩, by simp⟩
    simp [cover]
  · rintro x chunks log t x' ⟨absorbed, h⟩ hnext
    obtain ⟨hnone, len, hpos, hlen, rfl, hruns⟩ := exists_chunk_of_next hadmits hchunk hnext
    refine ⟨_, hruns, ⟨absorbed, h.started hnone hlen⟩, ?_⟩
    simp only [PipelinedWrite.work, List.map_append, List.map_cons, List.map_nil, List.sum_append,
      List.sum_cons, List.sum_nil]
    omega
  · rintro x l y r e k log ⟨absorbed, h⟩ hruns
    unfold ChunkInFlight.Runs at hruns
    obtain ⟨start, stop, fuel, done⟩ := y
    cases fuel with
    | zero => exact hruns.elim
    | succ fuel =>
      obtain ⟨⟨resp, done', hserve⟩, hrest⟩ := hruns
      constructor
      · obtain ⟨new, -, hany⟩ := storesWrites_frame hserve
        exact ⟨resp, log ++ new, hany log⟩
      · intro resp log' hserve
        obtain ⟨new, rfl, hany⟩ := storesWrites_frame hserve
        refine ⟨⟨⟨start, stop, fuel, done ++ new⟩, hrest resp _ (hany done),
          ⟨absorbed, h.wrote⟩, ?_⟩, fun _ _ _ ht => ht⟩
        simp only [PipelinedWrite.work, List.map_append, List.map_cons, List.sum_append,
          List.sum_cons]
        omega
  · rintro x l y r b log ⟨absorbed, h⟩ hruns
    have hstored : Stored s body y.start y.stop y.done b := by
      unfold ChunkInFlight.Runs at hruns
      cases hfuel : y.fuel <;> rw [hfuel] at hruns <;> exact hruns
    refine ⟨⟨_, h.returned hstored opened depth⟩, ?_⟩
    simp only [PipelinedWrite.work, nextOffset_absorb, List.map_append, List.map_cons,
      List.sum_append, List.sum_cons]
    omega
  · rintro x log ⟨absorbed, h⟩ hnext
    have hperm : log.Perm absorbed := by simpa using h.log
    have hparts : ∀ e ∈ log, e.PartOf body s.writeChunkSize :=
      fun e he => h.part e (hperm.mem_iff.mp he)
    have hserial : s.config.pipelineWriteChunks = false →
        log.Pairwise fun e e' => e.offset < e'.offset := by
      rw [hpipelined]
      simp
    dsimp only
    cases hfirst : x.firstError with
    | some err =>
      have hconflict := (h.error err hfirst).mono fun e => hperm.mem_iff.mpr
      exact .ret ⟨hparts, by simp, fun _ _ => hconflict, hserial⟩
    | none =>
      obtain ⟨haccounts, hcover⟩ := h.ok hfirst
      -- the pool stops at the end of the body
      have hend : x.nextOffset = body.length := by
        simp only [writePool, hfirst] at hnext
        have hoffset := h.offset
        split at hnext
        · cases hnext
        · next hmore =>
          simp at hmore
          omega
      refine .ret (.of_accounts hparts (haccounts.perm hperm.symm) ?_ hserial)
      intro i
      rw [hits_perm (hperm.map _), ← hend, ← hcover i]
      simp

/-- Without pipelining, one chunk is in flight. -/
theorem finishes_writeDepth :
    Thread.Finishes (E := effects) (storesWrites opened) (fun r log' => ∃ depth, r = .ok depth ∧
        log' = log ∧ 0 < depth ∧ (s.config.pipelineWriteChunks = false → depth = 1)) 1
      (liftM (writeDepth s) : SessionM ℕ).run log := by
  unfold writeDepth
  split
  · next hpipelined =>
    refine ⟨⟨(0 : ℕ), log, rfl⟩, ?_⟩
    rintro slots _ rfl
    refine ⟨_, rfl, rfl, operationPipelineDepthForSlots_pos slots, ?_⟩
    rw [hpipelined]
    exact nofun
  · exact ⟨1, rfl, rfl, Nat.one_pos, fun _ => rfl⟩

end

end

/-- **Every body is written exactly once.**  Whatever the body, the sizes of the chunks, the
number of slots and the order in which the server answers, and however much of each `WRITE` it
stores: the program returns; every payload has at most `write_chunk_size` bytes and is the part of
the body at its offset.  It returns an outcome unless verifiers differ; then the accepted parts
cover the body exactly once, and the verifier to check is that of the replies that still need a
`COMMIT`.  Without pipelining there is one `WRITE` after another, at growing offsets. -/
theorem writeBytes_exact {s : NfsSession} {opened : OpenedFile} (body : Bytes)
    (hadmits : s.AdmitsWrites opened) (hchunk : 1 ≤ s.writeChunkSize) :
    Must (E := effects) (storesWrites opened) (WritesExactly s body)
        (writeBytes s opened body).run [] ∧
      (s.config.pipelineWriteChunks = false → (writeBytes s opened body).run.Single) := by
  have hbody : body <+: body.drop 0 := List.prefix_refl body
  unfold writeBytes
  constructor
  · split
    · next hempty =>
      have hnil := List.length_eq_zero_iff.mp hempty
      subst hnil
      exact .ret Written.nil.stored.writesExactly
    · split
      · next hlen =>
        refine must_liftThreadExcept ((finishes_writeSingleChunkCommittedFrom hadmits
          (Nat.le_refl _) hlen hbody .nil).mono fun r log hstored => ?_)
        rw [Nat.zero_add] at hstored
        exact hstored.writesExactly
      · refine must_bindExcept (must_liftThreadExcept (finishes_writeDepth.mono ?_))
        rintro _ _ ⟨depth, rfl, rfl, hdepth, hserial⟩
        dsimp only
        split
        · refine must_liftThreadExcept ((finishes_writeChunkAll hadmits hchunk hbody).mono ?_)
          rintro r _ ⟨es, rfl, hstored⟩
          rw [Nat.zero_add] at hstored
          exact hstored.writesExactly
        · next hmore =>
          refine must_writeChunkAllPipelined hadmits hchunk hdepth ?_
          rw [← Bool.not_eq_false]
          intro hoff
          exact hmore (Nat.le_of_eq (hserial hoff))
  · intro hoff
    split
    · exact .ret _
    · split
      · exact .thread fun _ _ => .ret _
      · have hdepth : writeDepth s = return 1 := if_neg (by rw [hoff]; exact Bool.false_ne_true)
        rw [hdepth]
        refine .thread ?_
        rintro _ rfl
        exact .thread fun _ _ => .ret _

/-- Two bytes are written a byte at a time. -/
theorem writeBytes_exact_twoBytes :
    Must (E := effects) (storesWrites ⟨⟨[7]⟩, .anonymous, 1⟩) (WritesExactly smallChannel [9, 8])
      (writeBytes smallChannel ⟨⟨[7]⟩, .anonymous, 1⟩ [9, 8]).run [] := by
  refine (writeBytes_exact [9, 8] ?_ (by decide)).1
  exact .of_negotiated connect_smallChannel (by decide +kernel) (by decide) (by decide) rfl rfl
    (by decide)

end NfsCrust
