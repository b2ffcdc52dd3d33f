import NfsCrust.Lib.StateExcept
import NfsCrust.Reply

/-!
# Walking the replies of a server

How the walk of `NfsCrust.Compound` runs on what a server sends.  A server that
answers a request in order, up to its first failure, is followed reply by reply:
each step of a decoder either consumes the result it expects, or stops at the
failure.

`Walks` states what a decoder makes of the replies that remain, and there is one
rule for each step a decoder can take.  A decoder is verified by applying the
rules in the order of its steps.

## Main definitions

* `Expectation` — what a decoder is to return: the values of a complete reply,
  the failures that are outcomes, the checks that must have passed.
* `Walks` — a decoder meets an expectation on the replies that remain.

## Main results

* `walks_advance`, `walks_lookups`, `walks_openOrExists`, `walks_createdOrExists`,
  `walks_xdr`, `walks_finish` — one rule per step.
* `withReplies_of_walks` — from the walk to the whole decoder.
* `exists_of_withReplies`, `exists_of_result` — what a decoder has done when it succeeds on any
  bytes.
-/

namespace NfsCrust

open StateExcept

/-! ### Expectations -/

/-- What a decoder is to return on the replies of a server. -/
structure Expectation (α : Type) where
  /-- The failures that are outcomes. -/
  typed : OpCode → NfsStatus → Option α
  /-- What the decoder has checked, unless it fails without a status. -/
  passed : Prop
  /-- The value of a complete reply. -/
  value : α → Prop
  /-- Some result is one the client does not support. -/
  unsupported : Prop

/-- An error of a decoder that is not the status of an operation. -/
def CompoundDecodeError.Foreign (e : CompoundDecodeError) : Prop :=
  e.status = none ∧ e.error.isForeign = true

/-- The error that reports the failure `f` of the operation at `index`. -/
def CompoundDecodeError.ofFailure (f : Failure) (index : ℕ) : CompoundDecodeError :=
  ⟨some f.status, some index, .ofStatus f.status f.op⟩

/-- `out` is what `E` asks for on replies `t`, the first of which is reply number
`base`. -/
def Expectation.Holds {α : Type} (E : Expectation α) (t : Replies) (base : ℕ) :
    Except CompoundDecodeError α → Prop
  | .ok a => E.passed ∧ (t.failure = none ∧ E.value a ∨
      ∃ f, t.failure = some f ∧ E.typed f.op f.status = some a)
  | .error e => (E.passed ∧ ∃ f, t.failure = some f ∧ E.typed f.op f.status = none ∧
      e = .ofFailure f (base + t.results.length)) ∨ e.Foreign ∧ E.unsupported

/-- `r` stands before the replies `t`, with `pending` left of the body of the
last one. -/
structure At (pending : Bytes) (t : Replies) (r : CompoundReplies) : Prop where
  dec : r.dec = pending ++ t.encode
  count : r.replyCount = r.decoded + t.length
  status : r.status = t.status

/-- `m` meets the expectation on the replies that remain. -/
def Walks {α : Type} (E : Expectation α) (pending : Bytes) (t : Replies) (m : RepliesM α) : Prop :=
  ∀ r, At pending t r → E.Holds t r.decoded ((m.run r).map Prod.fst)

/-! ### Reply headers -/

theorem OpRes.encode_eq (o : OpRes) :
    o.encode = (putU32 o.opcode.toU32 ++ putU32 NfsStatus.OK.code) ++ o.body := rfl

theorem Replies.encode_cons (o : OpRes) (os : List OpRes) (failure : Option Failure) :
    (Replies.mk (o :: os) failure).encode
      = (putU32 o.opcode.toU32 ++ putU32 NfsStatus.OK.code)
        ++ (o.body ++ (Replies.mk os failure).encode) := by
  simp [Replies.encode, OpRes.encode_eq]

theorem Replies.length_cons (o : OpRes) (os : List OpRes) (failure : Option Failure) :
    (Replies.mk (o :: os) failure).length = (Replies.mk os failure).length + 1 := by
  simp only [Replies.length, List.length_cons]
  omega

theorem run_ofXdr {α : Type} {m : XdrM α} {bs rest : Bytes} {a : α} (h : Reads m bs a) :
    (DecM.ofXdr m).run (bs ++ rest) = .ok (a, rest) := by
  change (m.run (bs ++ rest)).mapError _ = _
  rw [h]
  rfl

theorem validateExpectedReplyOp_self (op : OpCode) (status : NfsStatus) (shape : String) :
    validateExpectedReplyOp op.toU32 status op shape = .ok op := if_pos rfl

theorem validateExpectedReplyOp_failure {op : OpCode} {f : Failure} (h : f.Answers op)
    (shape : String) : validateExpectedReplyOp f.op.toU32 f.status op shape = .ok f.op := by
  rcases h.2 with hop | ⟨hop, hstatus⟩
  · rw [hop]
    exact validateExpectedReplyOp_self op _ shape
  · rw [hop, validateExpectedReplyOp]
    split
    · next heq => rw [OpCode.toU32_injective heq]
    · rw [if_pos ⟨rfl, hstatus⟩]

theorem run_decodeReplyHeader_ok (op : OpCode) (shape : String) (rest : Bytes) :
    (decodeReplyHeader op shape).run ((putU32 op.toU32 ++ putU32 NfsStatus.OK.code) ++ rest)
      = .ok ((op, .OK), rest) := by
  rw [decodeReplyHeader, run_bind_ok (run_ofXdr (reads_readU32Pair _ _)),
    run_lift_bind _ (validateExpectedReplyOp_self op _ shape)]
  rfl

theorem run_decodeReplyHeader_failure {op : OpCode} {f : Failure} (h : f.Answers op)
    (shape : String) :
    (decodeReplyHeader op shape).run f.encode = .ok ((f.op, f.status), []) := by
  rw [decodeReplyHeader, ← List.append_nil f.encode, Failure.encode,
    run_bind_ok (run_ofXdr (reads_readU32Pair _ _)),
    run_lift_bind _ (validateExpectedReplyOp_failure h shape)]
  rfl

theorem isOk_OK : NfsStatus.OK.isOk = true := rfl

theorem isOk_of_ne {s : NfsStatus} (h : s ≠ .OK) : s.isOk = false := by
  simpa [NfsStatus.isOk] using h

/-- How a header decoder treats a failure: as an outcome, or as an error. -/
structure HeaderSpec {β : Type} (decode : String → DecM β) (op : OpCode) (present : β)
    (caught : OpCode → NfsStatus → Option β) : Prop where
  ok : ∀ shape rest,
    (decode shape).run ((putU32 op.toU32 ++ putU32 NfsStatus.OK.code) ++ rest)
      = .ok (present, rest)
  failure : ∀ shape (f : Failure), f.Answers op →
    (decode shape).run f.encode = match caught f.op f.status with
      | some b => .ok (b, [])
      | none => .error (.nfs f.status f.op)

theorem headerSpec_expectedOp (op : OpCode) :
    HeaderSpec (decodeExpectedOp op) op () fun _ _ => none where
  ok shape rest := by
    rw [decodeExpectedOp, run_bind_ok (run_decodeReplyHeader_ok op shape rest)]
    rfl
  failure shape f hf := by
    rw [decodeExpectedOp, run_bind_ok (run_decodeReplyHeader_failure hf shape)]
    simp only [isOk_of_ne hf.1]
    rfl

/-- The one failure of a guarded create that is an outcome. -/
def caughtExist {β : Type} (op : OpCode) (b : β) (op' : OpCode) (s : NfsStatus) : Option β :=
  if op' = op ∧ s = .EXIST then some b else none

theorem headerSpec_expectedOpOrExist (op : OpCode) :
    HeaderSpec (decodeExpectedOpOrExist op) op false (caughtExist op true) where
  ok shape rest := by
    rw [decodeExpectedOpOrExist, run_bind_ok (run_decodeReplyHeader_ok op shape rest)]
    rfl
  failure shape f hf := by
    rw [decodeExpectedOpOrExist, run_bind_ok (run_decodeReplyHeader_failure hf shape), caughtExist]
    by_cases hexist : f.op = op ∧ f.status = .EXIST
    · simp only [hexist]
      rfl
    · simp only [isOk_of_ne hf.1, hexist, if_false]
      rfl

/-- The failures of a remove that are outcomes. -/
def caughtNoent {β : Type} (b : β) (op : OpCode) (s : NfsStatus) : Option β :=
  if s = .NOENT ∧ (op = .putFh ∨ op = .lookup ∨ op = .remove) then some b else none

theorem headerSpec_removeExpectedOp (op : OpCode) :
    HeaderSpec (fun _ => decodeRemoveExpectedOp op) op false (caughtNoent true) where
  ok shape rest := by
    rw [decodeRemoveExpectedOp, run_bind_ok (run_decodeReplyHeader_ok op "REMOVE" rest)]
    rfl
  failure shape f hf := by
    rw [decodeRemoveExpectedOp, run_bind_ok (run_decodeReplyHeader_failure hf "REMOVE"),
      caughtNoent]
    -- a refusal under `OP_ILLEGAL` is never the status `NOENT`
    have hop : f.status = .NOENT → f.op = op := by
      rintro hnoent
      rcases hf.2 with hop | ⟨_, hstatus⟩
      · exact hop
      · rw [hnoent] at hstatus
        exact absurd hstatus (by decide)
    by_cases hcaught : f.status = .NOENT ∧ (f.op = .putFh ∨ f.op = .lookup ∨ f.op = .remove)
    · have hop := hop hcaught.1
      have hcond : f.op = op ∧ f.status = .NOENT ∧ (op = .putFh ∨ op = .lookup ∨ op = .remove) :=
        ⟨hop, hcaught.1, hop ▸ hcaught.2⟩
      rw [if_pos hcaught]
      simp only [hcond]
      rfl
    · have hcond : ¬ (f.op = op ∧ f.status = .NOENT ∧
          (op = .putFh ∨ op = .lookup ∨ op = .remove)) := by
        rintro ⟨rfl, hs, ho⟩
        exact hcaught ⟨hs, ho⟩
      rw [if_neg hcaught]
      simp only [isOk_of_ne hf.1, hcond, if_false]
      rfl

/-! ### One reply -/

section Steps

variable {α β : Type} {E : Expectation α} {results : List OpRes} {failure : Option Failure}
  {op : OpCode} {ops : List OpCode} {t : Replies} {pending : Bytes}

theorem run_advanceWith_ok {decode : String → DecM β} {present : β}
    {caught : OpCode → NfsStatus → Option β} (H : HeaderSpec decode op present caught)
    {o : OpRes} {os : List OpRes} {r : CompoundReplies} (hr : At [] ⟨o :: os, failure⟩ r)
    (ho : o.opcode = op) :
    ∃ r', (advanceWith decode).run r = .ok (some present, r') ∧
      At o.body ⟨os, failure⟩ r' ∧ r'.decoded = r.decoded + 1 := by
  have hcount : ¬ r.decoded ≥ r.replyCount := by
    rw [hr.count, Replies.length_cons]
    omega
  have hdec : (decode r.shape).run r.dec
      = .ok (present, o.body ++ (Replies.mk os failure).encode) := by
    rw [hr.dec, List.nil_append, Replies.encode_cons, ho, H.ok]
  refine ⟨{ r with dec := o.body ++ (Replies.mk os failure).encode, decoded := r.decoded + 1 },
    ?_, ⟨rfl, ?_, hr.status⟩, rfl⟩
  · rw [advanceWith, run_get_bind, if_neg hcount, hdec]
    rfl
  · rw [hr.count, Replies.length_cons]
    simp only
    omega

theorem run_advanceWith_failure {decode : String → DecM β} {present : β}
    {caught : OpCode → NfsStatus → Option β} (H : HeaderSpec decode op present caught)
    {f : Failure} {r : CompoundReplies} (hr : At [] ⟨[], some f⟩ r) (hf : f.Answers op) :
    (advanceWith decode).run r = match caught f.op f.status with
      | some b => .ok (some b, { r with dec := [], decoded := r.decoded + 1 })
      | none => .error (.ofFailure f r.decoded) := by
  have hcount : ¬ r.decoded ≥ r.replyCount := by
    rw [hr.count]
    simp [Replies.length]
  have hdec := H.failure r.shape f hf
  have hbytes : r.dec = f.encode := by
    rw [hr.dec]
    simp [Replies.encode]
  rw [advanceWith, run_get_bind, if_neg hcount, hbytes, hdec]
  cases caught f.op f.status with
  | some b => rfl
  | none => rfl

theorem Expectation.Holds.cons {o : OpRes} {os : List OpRes} {n : ℕ}
    {out : Except CompoundDecodeError α} (h : E.Holds ⟨os, failure⟩ (n + 1) out) :
    E.Holds ⟨o :: os, failure⟩ n out := by
  have hn : n + 1 + os.length = n + (o :: os).length := by
    rw [List.length_cons]
    omega
  cases out with
  | ok a => exact h
  | error e =>
    simp only [Expectation.Holds] at h ⊢
    rwa [hn] at h

/-- The next reply, for any header decoder: a result is consumed, a failure is an
outcome or an error. -/
theorem walks_advanceWith {decode : String → DecM β} {present : β}
    {caught : OpCode → NfsStatus → Option β} {k : Option β → RepliesM α}
    (H : HeaderSpec decode op present caught)
    (ht : Replies.Answers (op :: ops) ⟨results, failure⟩)
    (hfail : ∀ f : Failure, results = [] → f.Answers op → E.passed ∧
      match caught f.op f.status with
      | some b => ∃ a, E.typed f.op f.status = some a ∧ k (some b) = pure a
      | none => E.typed f.op f.status = none)
    (hok : ∀ o os, results = o :: os → o.opcode = op → Replies.Answers ops ⟨os, failure⟩ →
      Walks E o.body ⟨os, failure⟩ (k (some present))) :
    Walks E [] ⟨results, failure⟩ (advanceWith decode >>= k) := by
  intro r hr
  cases results with
  | nil =>
    obtain ⟨f, rfl, hf⟩ := ht
    obtain ⟨hpassed, hcaught⟩ := hfail f rfl hf
    have hrun := run_advanceWith_failure H hr hf
    cases hc : caught f.op f.status with
    | some b =>
      rw [hc] at hrun hcaught
      obtain ⟨a, htyped, hk⟩ := hcaught
      rw [run_bind_ok hrun, hk]
      exact ⟨hpassed, Or.inr ⟨f, rfl, htyped⟩⟩
    | none =>
      rw [hc] at hrun hcaught
      rw [run_bind_error hrun]
      exact Or.inl ⟨hpassed, f, rfl, hcaught, rfl⟩
  | cons o os =>
    obtain ⟨ho, ht⟩ := ht
    obtain ⟨r', hrun, hr', hdecoded⟩ := run_advanceWith_ok H hr ho
    rw [run_bind_ok hrun]
    have h := hok o os rfl ho ht r' hr'
    rw [hdecoded] at h
    exact h.cons

/-- No failure of `op` is an outcome. -/
def Expectation.Uncaught (E : Expectation α) (op : OpCode) : Prop :=
  ∀ f : Failure, f.Answers op → E.typed f.op f.status = none

/-- The next reply, when its failures are errors. -/
theorem walks_advance {k : Bool → RepliesM α}
    (ht : Replies.Answers (op :: ops) ⟨results, failure⟩) (hu : E.Uncaught op)
    (hp : results = [] → E.passed)
    (hok : ∀ o os, results = o :: os → o.opcode = op → Replies.Answers ops ⟨os, failure⟩ →
      Walks E o.body ⟨os, failure⟩ (k true)) :
    Walks E [] ⟨results, failure⟩ (advance op >>= k) := by
  rw [advance, bind_assoc]
  refine walks_advanceWith (headerSpec_expectedOp op) ht (fun f h hf => ⟨hp h, hu f hf⟩) ?_
  intro o os h ho ht
  rw [pure_bind]
  exact hok o os h ho ht

/-! ### Bodies -/

theorem run_ofXdr_ok {m : XdrM β} {r : CompoundReplies} {b : β} {dec : Bytes}
    (h : m.run r.dec = .ok (b, dec)) :
    (RepliesM.ofXdr m).run r = .ok (b, { r with dec }) := by
  simp only [RepliesM.ofXdr, StateT.run] at h ⊢
  rw [h]

theorem run_ofXdr_error {m : XdrM β} {r : CompoundReplies} {err : Error}
    (h : m.run r.dec = .error err) : (RepliesM.ofXdr m).run r = .error (.ofError err) := by
  simp only [RepliesM.ofXdr, StateT.run] at h ⊢
  rw [h]

/-- The body of a result is read. -/
theorem walks_xdr {m : XdrM β} {bs : Bytes} {b : β} {k : β → RepliesM α} (hm : Reads m bs b)
    (hk : Walks E pending t (k b)) :
    Walks E (bs ++ pending) t (RepliesM.ofXdr m >>= k) := by
  intro r hr
  have hrun : m.run r.dec = .ok (b, pending ++ t.encode) := by rw [hr.dec, List.append_assoc, hm]
  rw [run_bind_ok (run_ofXdr_ok hrun)]
  exact hk _ ⟨rfl, hr.count, hr.status⟩

/-- The body of a result is read to its end. -/
theorem walks_xdr_nil {m : XdrM β} {bs : Bytes} {b : β} {k : β → RepliesM α} (hm : Reads m bs b)
    (hk : Walks E [] t (k b)) : Walks E bs t (RepliesM.ofXdr m >>= k) := by
  rw [← List.append_nil bs]
  exact walks_xdr hm hk

/-- The body of the last result is read, not necessarily to its end. -/
theorem walks_xdr_yields {m : XdrM β} {bs : Bytes} {b : β} {k : β → RepliesM α}
    (hm : Yields m bs b) (hk : ∀ left, Walks E left ⟨[], none⟩ (k b)) :
    Walks E bs ⟨[], none⟩ (RepliesM.ofXdr m >>= k) := by
  intro r hr
  obtain ⟨left, hleft⟩ := hm (Replies.mk [] none).encode
  rw [run_bind_ok (run_ofXdr_ok (by rw [hr.dec, hleft]))]
  exact hk left _ ⟨(List.append_nil left).symm, hr.count, hr.status⟩

/-- The body of a result is one the client does not support. -/
theorem walks_xdr_fails {m : XdrM β} {bs : Bytes} {k : β → RepliesM α} (hm : Fails m bs)
    (hu : E.unsupported) : Walks E bs t (RepliesM.ofXdr m >>= k) := by
  intro r hr
  obtain ⟨err, herr, hf⟩ := hm t.encode
  rw [run_bind_error (run_ofXdr_error (by rw [hr.dec, herr]))]
  exact Or.inr ⟨⟨rfl, hf⟩, hu⟩

/-- A check on decoded values passes. -/
theorem walks_check {x : Except Error β} {b : β} {k : β → RepliesM α} (hx : x = .ok b)
    (hk : Walks E pending t (k b)) : Walks E pending t (RepliesM.check x >>= k) := by
  subst hx
  exact hk

/-- A check on decoded values fails. -/
theorem walks_check_fails {x : Except Error β} {err : Error} {k : β → RepliesM α}
    (hx : x = .error err) (hf : err.isForeign = true) (hu : E.unsupported) :
    Walks E pending t (RepliesM.check x >>= k) := by
  subst hx
  exact fun _ _ => Or.inr ⟨⟨rfl, hf⟩, hu⟩

/-! ### The end of a walk -/

/-- A complete reply ends here. -/
theorem walks_finish {k : Unit → RepliesM α} (ht : Replies.Answers [] ⟨results, failure⟩)
    (hk : results = [] → Walks E pending ⟨[], none⟩ (k ())) :
    Walks E pending ⟨results, failure⟩ (finish >>= k) := by
  obtain ⟨hres, hfailure⟩ : results = [] ∧ failure = none := ht
  rw [hres, hfailure]
  intro r hr
  have hcount : ¬ r.decoded < r.replyCount := by
    rw [hr.count]
    simp [Replies.length]
  have hstatus : r.status.isOk = true := by
    rw [hr.status]
    rfl
  have hrun : finish.run r = .ok ((), r) := by
    rw [finish, run_get_bind]
    simp only [if_neg hcount, hstatus]
    rfl
  rw [run_bind_ok hrun]
  exact hk hres r hr

theorem walks_pure {a : α} (hp : E.passed) (ha : E.value a) :
    Walks E pending ⟨[], none⟩ (pure a) :=
  fun _ _ => ⟨hp, Or.inl ⟨rfl, ha⟩⟩

/-! ### Replies without a body, and lookups -/

/-- The result of an operation that returns nothing. -/
def OpRes.plain : OpCode → Option OpRes
  | .putRootFh => some .putRootFh
  | .putFh => some .putFh
  | .lookup => some .lookup
  | .saveFh => some .saveFh
  | .restoreFh => some .restoreFh
  | .verify => some .verify
  | .reclaimComplete => some .reclaimComplete
  | _ => none

theorem OpRes.eq_of_plain {o res : OpRes} (ho : o.opcode = op) (h : OpRes.plain op = some res) :
    o = res ∧ res.body = [] := by
  subst ho
  cases o <;> first | cases h; exact ⟨rfl, rfl⟩ | cases h

theorem walks_plain {res : OpRes} {k : Bool → RepliesM α} (h : OpRes.plain op = some res)
    (ht : Replies.Answers (op :: ops) ⟨results, failure⟩) (hu : E.Uncaught op)
    (hp : results = [] → E.passed)
    (hok : ∀ os, results = res :: os → Replies.Answers ops ⟨os, failure⟩ →
      Walks E [] ⟨os, failure⟩ (k true)) :
    Walks E [] ⟨results, failure⟩ (advance op >>= k) := by
  refine walks_advance ht hu hp fun o os hres ho ht => ?_
  obtain ⟨rfl, hbody⟩ := OpRes.eq_of_plain ho h
  rw [hbody]
  exact hok os hres ht

theorem walks_lookups : ∀ {n : ℕ} {results : List OpRes} {k : Unit → RepliesM α},
    Replies.Answers (List.replicate n .lookup ++ ops) ⟨results, failure⟩ →
    E.Uncaught .lookup →
    (∀ m < n, results = List.replicate m .lookup → E.passed) →
    (∀ os, results = List.replicate n .lookup ++ os → Replies.Answers ops ⟨os, failure⟩ →
      Walks E [] ⟨os, failure⟩ (k ())) →
    Walks E [] ⟨results, failure⟩ (lookups n >>= k) := by
  intro n
  induction n with
  | zero =>
    intro results k ht hu hp hok
    exact hok results rfl ht
  | succ n ih =>
    intro results k ht hu hp hok
    rw [lookups, bind_assoc]
    refine walks_plain rfl ht hu (fun h => hp 0 (by omega) h) fun os hres ht => ?_
    refine ih ht hu (fun m hm hos => hp (m + 1) (by omega) ?_) fun os' hos ht => hok os' ?_ ht
    · rw [hres, hos]
      rfl
    · rw [hres, hos]
      rfl

/-! ### Replies with a body -/

theorem walks_sequence {k : Unit → RepliesM α}
    (ht : Replies.Answers (.sequence :: ops) ⟨results, failure⟩) (hu : E.Uncaught .sequence)
    (hp : results = [] → E.passed)
    (hok : ∀ o os, results = o :: os → o.opcode = .sequence → Replies.Answers ops ⟨os, failure⟩ →
      Walks E [] ⟨os, failure⟩ (k ())) :
    Walks E [] ⟨results, failure⟩ (sequence >>= k) := by
  rw [sequence, bind_assoc]
  refine walks_advance ht hu hp fun o os hres ho ht => ?_
  cases o with
  | sequence => exact walks_xdr_nil (reads_skipSequenceData _ _ _ _ _ _) (hok _ os hres rfl ht)
  | _ => cases ho

/-- A result whose body is decoded: it is read, or not supported. -/
theorem walks_result {decode : XdrM β} {k : Option β → RepliesM α}
    (ht : Replies.Answers (op :: ops) ⟨results, failure⟩) (hu : E.Uncaught op)
    (hp : results = [] → E.passed)
    (hok : ∀ o os, results = o :: os → o.opcode = op → Replies.Answers ops ⟨os, failure⟩ →
      (∃ b, Reads decode o.body b ∧ Walks E [] ⟨os, failure⟩ (k (some b))) ∨
        Fails decode o.body ∧ E.unsupported) :
    Walks E [] ⟨results, failure⟩ (result op decode >>= k) := by
  rw [result, bind_assoc]
  refine walks_advance ht hu hp fun o os hres ho ht => ?_
  rw [if_pos rfl, bind_assoc]
  rcases hok o os hres ho ht with ⟨b, hread, hk⟩ | ⟨hfail, hu⟩
  · refine walks_xdr_nil hread ?_
    rw [pure_bind]
    exact hk
  · exact walks_xdr_fails hfail hu

theorem walks_getfh {k : Option FileHandle → RepliesM α}
    (ht : Replies.Answers (.getFh :: ops) ⟨results, failure⟩) (hu : E.Uncaught .getFh)
    (hp : results = [] → E.passed)
    (hok : ∀ handle os, results = .getFh handle :: os → Replies.Answers ops ⟨os, failure⟩ →
      handle.bytes.length ≤ 128 → Walks E [] ⟨os, failure⟩ (k (some ⟨handle.bytes⟩)))
    (hbad : ∀ handle os, results = .getFh handle :: os → ¬ handle.bytes.length ≤ 128 →
      E.unsupported) :
    Walks E [] ⟨results, failure⟩ (getfh >>= k) := by
  refine walks_result ht hu hp fun o os hres ho ht => ?_
  cases o with
  | getFh handle =>
    by_cases h : handle.bytes.length ≤ 128
    · exact Or.inl ⟨_, reads_decodeFileHandle h, hok handle os hres ht h⟩
    · exact Or.inr ⟨fails_decodeFileHandle h, hbad handle os hres h⟩
  | _ => cases ho

theorem walks_read {k : Option ReadData → RepliesM α}
    (ht : Replies.Answers (.read :: ops) ⟨results, failure⟩) (hu : E.Uncaught .read)
    (hp : results = [] → E.passed)
    (hok : ∀ eof data os, results = .read eof data :: os → Replies.Answers ops ⟨os, failure⟩ →
      Walks E [] ⟨os, failure⟩ (k (some ⟨eof, data.bytes⟩))) :
    Walks E [] ⟨results, failure⟩ (result .read decodeReadData >>= k) := by
  refine walks_result ht hu hp fun o os hres ho ht => ?_
  cases o with
  | read eof data => exact Or.inl ⟨_, reads_decodeReadData eof data, hok eof data os hres ht⟩
  | _ => cases ho

theorem walks_write {k : Option WriteData → RepliesM α}
    (ht : Replies.Answers (.write :: ops) ⟨results, failure⟩) (hu : E.Uncaught .write)
    (hp : results = [] → E.passed)
    (hok : ∀ count committed verifier os, results = .write count committed verifier :: os →
      Replies.Answers ops ⟨os, failure⟩ →
      Walks E [] ⟨os, failure⟩ (k (some ⟨count, committed, verifier⟩))) :
    Walks E [] ⟨results, failure⟩ (result .write decodeWriteData >>= k) := by
  refine walks_result ht hu hp fun o os hres ho ht => ?_
  cases o with
  | write count committed verifier =>
    exact Or.inl ⟨_, reads_decodeWriteData _ _ _, hok _ _ _ os hres ht⟩
  | _ => cases ho

theorem walks_getAttr {k : Option FileAttrs → RepliesM α}
    (ht : Replies.Answers (.getAttr :: ops) ⟨results, failure⟩) (hu : E.Uncaught .getAttr)
    (hp : results = [] → E.passed)
    (hok : ∀ attrs os, results = .getAttr attrs :: os → Replies.Answers ops ⟨os, failure⟩ →
      Walks E [] ⟨os, failure⟩ (k (some attrs.attrs))) :
    Walks E [] ⟨results, failure⟩ (result .getAttr decodeFattr >>= k) := by
  refine walks_result ht hu hp fun o os hres ho ht => ?_
  cases o with
  | getAttr attrs => exact Or.inl ⟨_, reads_decodeFattr attrs, hok attrs os hres ht⟩
  | _ => cases ho

/-- A `COMMIT` reply, before its verifier is looked at. -/
theorem walks_commit {k : Bool → RepliesM α}
    (ht : Replies.Answers (.commit :: ops) ⟨results, failure⟩) (hu : E.Uncaught .commit)
    (hp : results = [] → E.passed)
    (hok : ∀ verifier os, results = .commit verifier :: os → Replies.Answers ops ⟨os, failure⟩ →
      Walks E verifier.toList ⟨os, failure⟩ (k true)) :
    Walks E [] ⟨results, failure⟩ (advance .commit >>= k) := by
  refine walks_advance ht hu hp fun o os hres ho ht => ?_
  cases o with
  | commit verifier => exact hok verifier os hres ht
  | _ => cases ho

/-- A listing is the last reply of a compound. -/
theorem walks_readDir {limit : Option ℕ} {k : Option DirPage → RepliesM α}
    (ht : Replies.Answers [.readDir] ⟨results, failure⟩) (hu : E.Uncaught .readDir)
    (hp : results = [] → E.passed)
    (hok : ∀ verifier listed eof left, results = [.readDir verifier listed eof] →
      Walks E left ⟨[], none⟩ (k (some (listingPage limit verifier eof listed [] 0))))
    (hbad : ∀ verifier listed eof, results = [.readDir verifier listed eof] →
      (∃ e ∈ listed, ¬ e.Supported) → E.unsupported) :
    Walks E [] ⟨results, failure⟩ (result .readDir (decodeReaddir limit) >>= k) := by
  rw [result, bind_assoc]
  refine walks_advance ht hu hp fun o os hres ho ht => ?_
  obtain ⟨rfl, rfl⟩ : os = [] ∧ failure = none := ht
  rw [if_pos rfl, bind_assoc]
  cases o with
  | readDir verifier listed eof =>
    rcases decodeReaddir_spec limit verifier eof listed with hpage | ⟨hfail, hunsup⟩
    · refine walks_xdr_yields hpage fun left => ?_
      rw [pure_bind]
      exact hok verifier listed eof left hres
    · exact walks_xdr_fails hfail (hbad verifier listed eof hres hunsup)
  | _ => cases ho

/-! ### Guarded creates -/

/-- The `OPEN` of a guarded create; `EXIST` ends the walk with an outcome. -/
theorem walks_openOrExists {k : Option (OpenOutcome StateId) → RepliesM α} {a : α}
    (ht : Replies.Answers (.«open» :: ops) ⟨results, failure⟩)
    (htyped : E.typed = caughtExist .«open» a) (hk : k (some .exists) = pure a)
    (hp : results = [] → E.passed)
    (hok : ∀ res os, results = .«open» res :: os → Replies.Answers ops ⟨os, failure⟩ →
      res.Supported → Walks E [] ⟨os, failure⟩ (k (some (.opened res.stateid))))
    (hbad : ∀ res os, results = .«open» res :: os → ¬ res.Supported → E.unsupported) :
    Walks E [] ⟨results, failure⟩ (openStateidOrExists >>= k) := by
  rw [openStateidOrExists, bind_assoc]
  refine walks_advanceWith (headerSpec_expectedOpOrExist _) ht (fun f h _ => ⟨hp h, ?_⟩) ?_
  · rw [htyped]
    by_cases hexist : f.op = .«open» ∧ f.status = .EXIST
    · simp only [caughtExist, if_pos hexist, pure_bind]
      exact ⟨a, rfl, hk⟩
    · simp only [caughtExist, if_neg hexist]
  · intro o os hres ho ht
    cases o with
    | «open» res =>
      simp only [bind_assoc, pure_bind]
      by_cases h : res.Supported
      · exact walks_xdr_nil (reads_decodeOpenStateid h) (hok res os hres ht h)
      · exact walks_xdr_fails (fails_decodeOpenStateid h) (hbad res os hres h)
    | _ => cases ho

/-- The `CREATE` of a directory; `EXIST` ends the walk with an outcome. -/
theorem walks_createdOrExists {k : Option CreateDirOutcome → RepliesM α} {a : α}
    (ht : Replies.Answers (.create :: ops) ⟨results, failure⟩)
    (htyped : E.typed = caughtExist .create a) (hk : k (some .exists) = pure a)
    (hp : results = [] → E.passed)
    (hok : ∀ cinfo attrset os, results = .create cinfo attrset :: os →
      Replies.Answers ops ⟨os, failure⟩ → Walks E [] ⟨os, failure⟩ (k (some .created))) :
    Walks E [] ⟨results, failure⟩ (createdOrExists >>= k) := by
  rw [createdOrExists, bind_assoc]
  refine walks_advanceWith (headerSpec_expectedOpOrExist _) ht (fun f h _ => ⟨hp h, ?_⟩) ?_
  · rw [htyped]
    by_cases hexist : f.op = .create ∧ f.status = .EXIST
    · simp only [caughtExist, if_pos hexist, pure_bind]
      exact ⟨a, rfl, hk⟩
    · simp only [caughtExist, if_neg hexist]
  · intro o os hres ho ht
    cases o with
    | create cinfo attrset =>
      simp only [bind_assoc, pure_bind]
      exact walks_xdr (reads_skipChangeInfo cinfo)
        (walks_xdr_nil (reads_skipBitmap attrset) (hok cinfo attrset os hres ht))
    | _ => cases ho

theorem uncaught_exist {op' : OpCode} {a : α} (htyped : E.typed = caughtExist op' a)
    (h : op ≠ op') (hill : op' ≠ .illegal) : E.Uncaught op := by
  intro f hf
  rw [htyped, caughtExist, if_neg]
  rintro ⟨hop, -⟩
  rcases hf.2 with h' | ⟨h', -⟩
  · exact h (h'.symm.trans hop)
  · exact hill (hop.symm.trans h')

theorem uncaught_none (htyped : E.typed = fun _ _ => none) : E.Uncaught op := by
  intro f _
  rw [htyped]

/-! ### Publishing -/

theorem walks_renamePublish {k : Bool → RepliesM α}
    (ht : Replies.Answers (.rename :: ops) ⟨results, failure⟩) (hu : E.Uncaught .rename)
    (hp : results = [] → E.passed)
    (hok : ∀ source target os, results = .rename source target :: os →
      Replies.Answers ops ⟨os, failure⟩ → Walks E [] ⟨os, failure⟩ (k true)) :
    Walks E [] ⟨results, failure⟩ (renamePublish >>= k) := by
  rw [renamePublish, bind_assoc]
  refine walks_advance ht hu hp fun o os hres ho ht => ?_
  cases o with
  | rename source target =>
    rw [if_pos rfl, bind_assoc]
    refine walks_xdr (reads_skipChangeInfo source) ?_
    rw [bind_assoc]
    refine walks_xdr_nil (reads_skipChangeInfo target) ?_
    rw [pure_bind]
    exact hok source target os hres ht
  | _ => cases ho

theorem walks_linkRemovePublish {n : ℕ} {k : Bool → RepliesM α}
    (ht : Replies.Answers (.saveFh :: .putFh :: (List.replicate n .lookup
      ++ .link :: .remove :: ops)) ⟨results, failure⟩)
    (hu : ∀ op, op ≠ .«open» → E.Uncaught op) (hp : E.passed)
    (hok : ∀ link remove os, results
        = .saveFh :: .putFh :: (List.replicate n .lookup ++ .link link :: .remove remove :: os) →
      Replies.Answers ops ⟨os, failure⟩ → Walks E [] ⟨os, failure⟩ (k true)) :
    Walks E [] ⟨results, failure⟩ (linkRemovePublish n >>= k) := by
  rw [linkRemovePublish, bind_assoc]
  refine walks_plain rfl ht (hu _ (by decide)) (fun _ => hp) fun os₁ h₁ ht => ?_
  rw [bind_assoc]
  refine walks_plain rfl ht (hu _ (by decide)) (fun _ => hp) fun os₂ h₂ ht => ?_
  rw [bind_assoc]
  refine walks_lookups ht (hu _ (by decide)) (fun _ _ _ => hp) fun os₃ h₃ ht => ?_
  rw [bind_assoc]
  refine walks_advance ht (hu _ (by decide)) (fun _ => hp) fun o os₄ h₄ ho ht => ?_
  cases o with
  | link link =>
    rw [if_pos rfl, bind_assoc]
    refine walks_xdr_nil (reads_skipChangeInfo link) ?_
    rw [bind_assoc]
    refine walks_advance ht (hu _ (by decide)) (fun _ => hp) fun o os₅ h₅ ho ht => ?_
    cases o with
    | remove remove =>
      rw [if_pos rfl, bind_assoc]
      refine walks_xdr_nil (reads_skipChangeInfo remove) ?_
      rw [pure_bind]
      exact hok link remove os₅ (by rw [h₁, h₂, h₃, h₄, h₅]) ht
    | _ => cases ho
  | _ => cases ho

end Steps

/-! ### Whole replies -/

/-- Every reply takes its header at least. -/
theorem Replies.length_encode_ge (t : Replies) : 8 * t.length ≤ t.encode.length := by
  obtain ⟨results, failure⟩ := t
  induction results with
  | nil => cases failure <;> simp [Replies.length, Replies.encode, Failure.encode, putU32]
  | cons o os ih =>
    rw [Replies.encode_cons, Replies.length_cons]
    simp only [List.length_append, putU32, BigEndian.length_be32]
    omega

theorem exists_of_withReplies {α : Type} {bytes : Bytes} {shape : String} {n : ℕ}
    {walk : RepliesM α} {a : α} (h : withReplies bytes shape n walk = .ok a) :
    ∃ r r', walk.run r = .ok (a, r') := by
  unfold withReplies at h
  cases hnew : CompoundReplies.new bytes shape n with
  | error err =>
    rw [hnew] at h
    cases h
  | ok r =>
    rw [hnew] at h
    change (·.1) <$> walk.run r = .ok a at h
    cases hrun : walk.run r with
    | error err =>
      rw [hrun] at h
      cases h
    | ok out =>
      obtain ⟨a', r'⟩ := out
      rw [hrun] at h
      cases h
      exact ⟨r, r', hrun⟩

/-- The body of a result that a walk found was decoded. -/
theorem exists_of_result {α : Type} {op : OpCode} {decode : XdrM α} {r r' : CompoundReplies} {a : α}
    (h : (result op decode).run r = .ok (some a, r')) : ∃ bs bs', decode.run bs = .ok (a, bs') := by
  obtain ⟨present, r₁, _, h⟩ := exists_of_run_bind h
  cases present with
  | false => cases h
  | true =>
    obtain ⟨b, r₂, hdecode, h⟩ := exists_of_run_bind h
    cases h
    cases hrun : decode.run r₁.dec with
    | error err =>
      rw [run_ofXdr_error hrun] at hdecode
      cases hdecode
    | ok out =>
      rw [run_ofXdr_ok hrun] at hdecode
      cases hdecode
      exact ⟨r₁.dec, out.2, hrun⟩

theorem eq_some_of_okOr {α : Type} {x : Option α} {message : String} {r r' : CompoundReplies} {a : α}
    (h : (RepliesM.okOr x message).run r = .ok (a, r')) : x = some a := by
  cases x with
  | none => cases h
  | some b =>
    cases h
    rfl

/-- From the walk to the decoder: the header of the reply announces exactly the
replies that follow. -/
theorem withReplies_of_walks {α : Type} {E : Expectation α} {reply : CompoundReply}
    {shape : String} {expected : ℕ} {walk : RepliesM α} (hcount : reply.replies.length ≤ expected)
    (h : Walks E [] reply.replies walk) :
    E.Holds reply.replies 0 (withReplies reply.encode shape expected walk) := by
  obtain ⟨tag, t, hshort⟩ := reply
  dsimp only at hcount hshort h ⊢
  have hheader : decodeCompoundHeader.run (CompoundReply.encode ⟨tag, t, hshort⟩)
      = .ok ((t.status, t.length), t.encode) := by
    have hread := reads_readU32SkipOpaqueAndReadU32 t.status.code (.ofNat t.length) tag.short
    have hroom : ¬ (UInt32.ofNat t.length).toNat > t.encode.length / 8 := by
      have := t.length_encode_ge
      rw [toNat_ofNat_length hshort]
      omega
    rw [decodeCompoundHeader, CompoundReply.encode, run_bind_ok (run_ofXdr hread),
      run_get_bind]
    simp only [if_neg hroom]
    rw [toNat_ofNat_length hshort]
    rfl
  have hnew : CompoundReplies.new (CompoundReply.encode ⟨tag, t, hshort⟩) shape expected
      = .ok ⟨t.encode, t.status, t.length, expected, 0, shape⟩ := by
    simp only [CompoundReplies.new, hheader]
    change (if t.length > expected then _ else _) = _
    rw [if_neg (by exact Nat.not_lt.mpr hcount)]
    rfl
  have hwalk := h ⟨t.encode, t.status, t.length, expected, 0, shape⟩
    ⟨rfl, (Nat.zero_add _).symm, rfl⟩
  simp only [withReplies, hnew]
  exact hwalk

end NfsCrust
