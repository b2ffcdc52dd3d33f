import NfsCrust.Walk

/-!
# What each decoder makes of a server's replies

One theorem per `decode…Compound`: on the encoding of a reply that answers the
operations the decoder is written for, it returns the values of the results, the
outcome of a failure that is one, or the failure with its operation and
position.  The expected operations are spelled out in each statement, so they
can be compared with the requests of `NfsCrust.Session`.

## Main results

* `decodeReadCompound_spec`, `decodeOpenFileCompound_spec`,
  `decodeCloseCompound_spec`, `decodeFusedPutCompound_spec`, … — one per decoder.
-/

namespace NfsCrust

theorem Replies.Answers.length_le : ∀ {ops : List OpCode} {t : Replies},
    Replies.Answers ops t → t.length ≤ ops.length := by
  intro ops
  induction ops with
  | nil =>
    rintro ⟨results, failure⟩ ⟨rfl, rfl⟩
    exact Nat.le_refl 0
  | cons op ops ih =>
    rintro ⟨results, failure⟩ h
    cases results with
    | nil =>
      obtain ⟨f, rfl, _⟩ := h
      simp [Replies.length]
    | cons o os =>
      rw [Replies.length_cons, List.length_cons]
      exact Nat.succ_le_succ (ih h.2)

/-- The results of all operations answer them. -/
theorem Replies.answers_of_map_opcode : ∀ {ops : List OpCode} {os : List OpRes},
    os.map OpRes.opcode = ops → Replies.Answers ops ⟨os, none⟩ := by
  rintro _ os rfl
  induction os with
  | nil => exact ⟨rfl, rfl⟩
  | cons o os ih => exact ⟨rfl, ih⟩

/-- The results of an answered request are results of its operations. -/
theorem Replies.Answers.opcode_mem : ∀ {ops : List OpCode} {t : Replies},
    Replies.Answers ops t → ∀ o ∈ t.results, o.opcode ∈ ops := by
  intro ops
  induction ops with
  | nil =>
    rintro t ⟨h, -⟩ o ho
    rw [h] at ho
    cases ho
  | cons op ops ih =>
    rintro ⟨results, failure⟩ h o ho
    cases results with
    | nil => cases ho
    | cons o' os =>
      rcases List.mem_cons.mp ho with rfl | ho
      · exact h.1 ▸ List.mem_cons_self
      · exact List.mem_cons_of_mem _ (ih h.2 o ho)

section Specs

variable {reply : CompoundReply}

/-! ### Reads -/

theorem decodeNoResultCompound_spec {E : Expectation Unit} {op : OpCode} {res : OpRes}
    (hres : OpRes.plain op = some res)
    (ht : Replies.Answers [.sequence, op] reply.replies)
    (hu : ∀ op, E.Uncaught op) (hp : E.passed) (hv : E.value ()) :
    E.Holds reply.replies 0 (decodeNoResultCompound reply.encode op) := by
  refine withReplies_of_walks ht.length_le ?_
  refine walks_sequence ht (hu _) (fun _ => hp) fun o os h₁ _ ht => ?_
  refine walks_plain hres ht (hu _) (fun _ => hp) fun os h₂ ht => ?_
  exact walks_finish ht fun _ => walks_pure hp hv

theorem decodeReadCompound_spec {E : Expectation ReadData}
    (ht : Replies.Answers [.sequence, .putFh, .read] reply.replies)
    (hu : ∀ op, E.Uncaught op) (hp : E.passed)
    (hv : ∀ o eof data, reply.replies.results = [o, .putFh, .read eof data] →
      E.value ⟨eof, data.bytes⟩) :
    E.Holds reply.replies 0 (decodeReadCompound reply.encode) := by
  refine withReplies_of_walks ht.length_le ?_
  refine walks_sequence ht (hu _) (fun _ => hp) fun o os h₁ _ ht => ?_
  refine walks_plain rfl ht (hu _) (fun _ => hp) fun os h₂ ht => ?_
  refine walks_read ht (hu _) (fun _ => hp) fun eof data os h₃ ht => ?_
  exact walks_finish ht fun h₄ => walks_pure hp (hv o eof data (by rw [h₁, h₂, h₃, h₄]))

theorem decodeReadPathCompound_spec {E : Expectation ReadData} {n : ℕ}
    (ht : Replies.Answers (.sequence :: .putFh :: (List.replicate n .lookup ++ [.read]))
      reply.replies)
    (hu : ∀ op, E.Uncaught op) (hp : E.passed)
    (hv : ∀ o eof data, reply.replies.results
        = o :: .putFh :: (List.replicate n .lookup ++ [.read eof data]) →
      E.value ⟨eof, data.bytes⟩) :
    E.Holds reply.replies 0 (decodeReadPathCompound reply.encode n) := by
  refine withReplies_of_walks (Nat.le_trans ht.length_le (by simp; omega)) ?_
  refine walks_sequence ht (hu _) (fun _ => hp) fun o os h₁ _ ht => ?_
  refine walks_plain rfl ht (hu _) (fun _ => hp) fun os h₂ ht => ?_
  refine walks_lookups ht (hu _) (fun _ _ _ => hp) fun os h₃ ht => ?_
  refine walks_read ht (hu _) (fun _ => hp) fun eof data os h₄ ht => ?_
  exact walks_finish ht fun h₅ => walks_pure hp (hv o eof data (by rw [h₁, h₂, h₃, h₄, h₅]))

theorem decodeReadPathHandleCompound_spec {E : Expectation (FileHandle × ReadData)} {n : ℕ}
    (ht : Replies.Answers (.sequence :: .putFh :: (List.replicate n .lookup ++ [.getFh, .read]))
      reply.replies)
    (hu : ∀ op, E.Uncaught op) (hp : E.passed)
    (hv : ∀ o handle eof data, reply.replies.results
        = o :: .putFh :: (List.replicate n .lookup ++ [.getFh handle, .read eof data]) →
      E.value (⟨handle.bytes⟩, ⟨eof, data.bytes⟩))
    (hbad : ∀ handle, .getFh handle ∈ reply.replies.results → ¬ handle.bytes.length ≤ 128 →
      E.unsupported) :
    E.Holds reply.replies 0 (decodeReadPathHandleCompound reply.encode n) := by
  refine withReplies_of_walks (Nat.le_trans ht.length_le (by simp; omega)) ?_
  refine walks_sequence ht (hu _) (fun _ => hp) fun o os h₁ _ ht => ?_
  refine walks_plain rfl ht (hu _) (fun _ => hp) fun os h₂ ht => ?_
  refine walks_lookups ht (hu _) (fun _ _ _ => hp) fun os h₃ ht => ?_
  refine walks_getfh ht (hu _) (fun _ => hp) (fun handle os h₄ ht _ => ?_) fun handle os h₄ =>
    hbad handle (by simp [h₁, h₂, h₃, h₄])
  refine walks_read ht (hu _) (fun _ => hp) fun eof data os h₅ ht => ?_
  exact walks_finish ht fun h₆ =>
    walks_pure hp (hv o handle eof data (by rw [h₁, h₂, h₃, h₄, h₅, h₆]))

theorem decodeReadPathSizeCompound_spec {E : Expectation (FileHandle × UInt64 × ReadData)}
    {n : ℕ}
    (ht : Replies.Answers (.sequence :: .putFh :: (List.replicate n .lookup
      ++ [.getFh, .getAttr, .read])) reply.replies)
    (hu : ∀ op, E.Uncaught op) (hp : E.passed)
    (hv : ∀ o handle attrs size eof data, reply.replies.results
        = o :: .putFh :: (List.replicate n .lookup
          ++ [.getFh handle, .getAttr attrs, .read eof data]) →
      attrs.size = some size → E.value (⟨handle.bytes⟩, size, ⟨eof, data.bytes⟩))
    (hbad : ∀ handle, .getFh handle ∈ reply.replies.results → ¬ handle.bytes.length ≤ 128 →
      E.unsupported)
    (hsize : ∀ attrs : Fattr, .getAttr attrs ∈ reply.replies.results → attrs.size = none →
      E.unsupported) :
    E.Holds reply.replies 0 (decodeReadPathSizeCompound reply.encode n) := by
  refine withReplies_of_walks (Nat.le_trans ht.length_le (by simp; omega)) ?_
  refine walks_sequence ht (hu _) (fun _ => hp) fun o os h₁ _ ht => ?_
  refine walks_plain rfl ht (hu _) (fun _ => hp) fun os h₂ ht => ?_
  refine walks_lookups ht (hu _) (fun _ _ _ => hp) fun os h₃ ht => ?_
  refine walks_getfh ht (hu _) (fun _ => hp) (fun handle os h₄ ht _ => ?_) fun handle os h₄ =>
    hbad handle (by simp [h₁, h₂, h₃, h₄])
  refine walks_getAttr ht (hu _) (fun _ => hp) fun attrs os h₅ ht => ?_
  refine walks_read ht (hu _) (fun _ => hp) fun eof data os h₆ ht => ?_
  refine walks_finish ht fun h₇ => ?_
  cases hattr : attrs.size with
  | none =>
    have hattrs : attrs.attrs.size = none := hattr
    simp only [Option.bind_some, hattrs]
    exact fun _ _ => Or.inr ⟨⟨rfl, rfl⟩, hsize attrs (by simp [h₁, h₂, h₃, h₄, h₅]) hattr⟩
  | some size =>
    have hattrs : attrs.attrs.size = some size := hattr
    simp only [Option.bind_some, hattrs]
    exact walks_pure hp (hv o handle attrs size eof data (by rw [h₁, h₂, h₃, h₄, h₅, h₆, h₇]) hattr)

/-! ### Lookups -/

theorem decodeGetfhCompound_spec {E : Expectation FileHandle} {start : OpCode} {res : OpRes}
    {n : ℕ} (hres : OpRes.plain start = some res)
    (ht : Replies.Answers (.sequence :: start :: (List.replicate n .lookup ++ [.getFh]))
      reply.replies)
    (hu : ∀ op, E.Uncaught op) (hp : E.passed)
    (hv : ∀ o handle, reply.replies.results
        = o :: res :: (List.replicate n .lookup ++ [.getFh handle]) → E.value ⟨handle.bytes⟩)
    (hbad : ∀ handle, .getFh handle ∈ reply.replies.results → ¬ handle.bytes.length ≤ 128 →
      E.unsupported) :
    E.Holds reply.replies 0 (decodeGetfhCompound reply.encode start n) := by
  refine withReplies_of_walks (Nat.le_trans ht.length_le (by simp; omega)) ?_
  refine walks_sequence ht (hu _) (fun _ => hp) fun o os h₁ _ ht => ?_
  refine walks_plain hres ht (hu _) (fun _ => hp) fun os h₂ ht => ?_
  refine walks_lookups ht (hu _) (fun _ _ _ => hp) fun os h₃ ht => ?_
  refine walks_getfh ht (hu _) (fun _ => hp) (fun handle os h₄ ht _ => ?_) fun handle os h₄ =>
    hbad handle (by simp [h₁, h₂, h₃, h₄])
  exact walks_finish ht fun h₅ => walks_pure hp (hv o handle (by rw [h₁, h₂, h₃, h₄, h₅]))

/-- The attributes of a reply are those that were asked for. -/
def Fattr.Satisfies (a : Fattr) : AttrRequest → Prop
  | .size => a.size.isSome = true
  | .typeAndSize => a.fileType.isSome = true ∧ a.size.isSome = true

instance (a : Fattr) (request : AttrRequest) : Decidable (a.Satisfies request) := by
  cases request <;> unfold Fattr.Satisfies <;> infer_instance

theorem decodeGetfhAttrsCompound_spec {E : Expectation (FileHandle × FileAttrs)}
    {request : AttrRequest} {n : ℕ}
    (ht : Replies.Answers (.sequence :: .putFh :: (List.replicate n .lookup
      ++ [.getFh, .getAttr])) reply.replies)
    (hu : ∀ op, E.Uncaught op) (hp : E.passed)
    (hv : ∀ o handle attrs, reply.replies.results
        = o :: .putFh :: (List.replicate n .lookup ++ [.getFh handle, .getAttr attrs]) →
      attrs.Satisfies request → E.value (⟨handle.bytes⟩, attrs.attrs))
    (hbad : ∀ handle, .getFh handle ∈ reply.replies.results → ¬ handle.bytes.length ≤ 128 →
      E.unsupported)
    (hattrs : ∀ attrs : Fattr, .getAttr attrs ∈ reply.replies.results →
      ¬ attrs.Satisfies request → E.unsupported) :
    E.Holds reply.replies 0 (decodeGetfhAttrsCompound reply.encode n request) := by
  refine withReplies_of_walks (Nat.le_trans ht.length_le (by simp; omega)) ?_
  refine walks_sequence ht (hu _) (fun _ => hp) fun o os h₁ _ ht => ?_
  refine walks_plain rfl ht (hu _) (fun _ => hp) fun os h₂ ht => ?_
  refine walks_lookups ht (hu _) (fun _ _ _ => hp) fun os h₃ ht => ?_
  refine walks_getfh ht (hu _) (fun _ => hp) (fun handle os h₄ ht _ => ?_) fun handle os h₄ =>
    hbad handle (by simp [h₁, h₂, h₃, h₄])
  refine walks_getAttr ht (hu _) (fun _ => hp) fun attrs os h₅ ht => ?_
  refine walks_finish ht fun h₆ => ?_
  simp only [RepliesM.okOr_some, pure_bind, Option.getD_some]
  by_cases hreq : attrs.Satisfies request
  · have hcheck : validateFileAttrs request attrs.attrs "GETFH" = .ok () := by
      cases request <;>
        simp_all [Fattr.Satisfies, validateFileAttrs, Fattr.attrs, Option.isNone_iff_eq_none,
          Option.isSome_iff_ne_none]
    refine walks_check hcheck ?_
    exact walks_pure hp (hv o handle attrs (by rw [h₁, h₂, h₃, h₄, h₅, h₆]) hreq)
  · have hcheck : ∃ err, validateFileAttrs request attrs.attrs "GETFH" = .error err ∧
        err.isForeign = true := by
      cases request with
      | size =>
        refine ⟨_, if_pos ?_, rfl⟩
        simpa [Fattr.Satisfies, Fattr.attrs] using hreq
      | typeAndSize =>
        refine ⟨_, if_pos ?_, rfl⟩
        simp only [Fattr.Satisfies, not_and_or] at hreq
        simpa [Fattr.attrs] using hreq
    obtain ⟨err, herr, hforeign⟩ := hcheck
    exact walks_check_fails herr hforeign (hattrs attrs (by simp [h₁, h₂, h₃, h₄, h₅]) hreq)

/-! ### Writes -/

theorem decodeOpenFileCompound_spec {E : Expectation (OpenOutcome (StateId × FileHandle))}
    {n : ℕ}
    (ht : Replies.Answers (.sequence :: .putFh :: (List.replicate n .lookup
      ++ [.«open», .getFh])) reply.replies)
    (htyped : E.typed = caughtExist .«open» .exists) (hp : E.passed)
    (hv : ∀ o res handle, reply.replies.results
        = o :: .putFh :: (List.replicate n .lookup ++ [.«open» res, .getFh handle]) →
      E.value (.opened (res.stateid, ⟨handle.bytes⟩)))
    (hopen : ∀ res, .«open» res ∈ reply.replies.results → ¬ res.Supported → E.unsupported)
    (hbad : ∀ handle, .getFh handle ∈ reply.replies.results → ¬ handle.bytes.length ≤ 128 →
      E.unsupported) :
    E.Holds reply.replies 0 (decodeOpenFileCompound reply.encode n) := by
  have hu : ∀ op, op ≠ .«open» → E.Uncaught op := fun op h => uncaught_exist htyped h (by decide)
  refine withReplies_of_walks (Nat.le_trans ht.length_le (by simp; omega)) ?_
  refine walks_sequence ht (hu _ (by decide)) (fun _ => hp) fun o os h₁ _ ht => ?_
  refine walks_plain rfl ht (hu _ (by decide)) (fun _ => hp) fun os h₂ ht => ?_
  refine walks_lookups ht (hu _ (by decide)) (fun _ _ _ => hp) fun os h₃ ht => ?_
  refine walks_openOrExists ht htyped rfl (fun _ => hp) (fun res os h₄ ht _ => ?_) fun res os h₄ =>
    hopen res (by simp [h₁, h₂, h₃, h₄])
  refine walks_getfh ht (hu _ (by decide)) (fun _ => hp) (fun handle os h₅ ht _ => ?_)
    fun handle os h₅ => hbad handle (by simp [h₁, h₂, h₃, h₄, h₅])
  exact walks_finish ht fun h₆ =>
    walks_pure hp (hv o res handle (by rw [h₁, h₂, h₃, h₄, h₅, h₆]))

theorem decodeWriteCompound_spec {E : Expectation WriteData}
    (ht : Replies.Answers [.sequence, .putFh, .write] reply.replies)
    (hu : ∀ op, E.Uncaught op) (hp : E.passed)
    (hv : ∀ o count committed verifier,
      reply.replies.results = [o, .putFh, .write count committed verifier] →
      E.value ⟨count, committed, verifier⟩) :
    E.Holds reply.replies 0 (decodeWriteCompound reply.encode) := by
  refine withReplies_of_walks ht.length_le ?_
  refine walks_sequence ht (hu _) (fun _ => hp) fun o os h₁ _ ht => ?_
  refine walks_plain rfl ht (hu _) (fun _ => hp) fun os h₂ ht => ?_
  refine walks_write ht (hu _) (fun _ => hp) fun count committed verifier os h₃ ht => ?_
  exact walks_finish ht fun h₄ =>
    walks_pure hp (hv o count committed verifier (by rw [h₁, h₂, h₃, h₄]))

theorem decodeWriteCommitCompound_spec {E : Expectation (WriteData × Verifier)}
    (ht : Replies.Answers [.sequence, .putFh, .write, .commit] reply.replies)
    (hu : ∀ op, E.Uncaught op) (hp : E.passed)
    (hv : ∀ o count committed verifier commit,
      reply.replies.results = [o, .putFh, .write count committed verifier, .commit commit] →
      E.value (⟨count, committed, verifier⟩, commit)) :
    E.Holds reply.replies 0 (decodeWriteCommitCompound reply.encode) := by
  refine withReplies_of_walks ht.length_le ?_
  refine walks_sequence ht (hu _) (fun _ => hp) fun o os h₁ _ ht => ?_
  refine walks_plain rfl ht (hu _) (fun _ => hp) fun os h₂ ht => ?_
  refine walks_write ht (hu _) (fun _ => hp) fun count committed verifier os h₃ ht => ?_
  refine walks_result ht (hu _) (fun _ => hp) fun r os h₄ hr ht => ?_
  cases r with
  | commit commit =>
    exact Or.inl ⟨commit, reads_readBytes commit, walks_finish ht fun h₅ =>
      walks_pure hp (hv o count committed verifier commit (by rw [h₁, h₂, h₃, h₄, h₅]))⟩
  | _ => cases hr

end Specs

/-! ### Closing and publishing -/

/-- The operations of a close after `CLOSE`. -/
def CloseShape.tailCodes : CloseShape → List OpCode
  | file => []
  | rename n => .putFh :: (List.replicate n .lookup ++ [.saveFh, .rename])
  | linkRemove n => .saveFh :: .putFh :: (List.replicate n .lookup ++ [.link, .remove])

/-- The operations of a close. -/
def CloseShape.codes (shape : CloseShape) (commits : Bool) : List OpCode :=
  .putFh :: ((if commits then [.commit] else []) ++ ((if shape = .file then [] else [.verify])
    ++ .close :: shape.tailCodes))

theorem CloseShape.length_codes (shape : CloseShape) (commits : Bool) :
    (shape.codes commits).length + 1 = shape.replyCount + if commits then 1 else 0 := by
  cases shape <;> cases commits <;> simp [codes, tailCodes, replyCount] <;> omega

section Close

variable {α : Type} {E : Expectation α} {results : List OpRes} {failure : Option Failure}
  {ops : List OpCode}

theorem walks_closeTail {shape : CloseShape} {k : Bool → RepliesM α}
    (ht : Replies.Answers shape.tailCodes ⟨results, failure⟩) (hu : ∀ op, E.Uncaught op)
    (hp : E.passed)
    (hok : ∀ os, Replies.Answers [] ⟨os, failure⟩ → Walks E [] ⟨os, failure⟩ (k true)) :
    Walks E [] ⟨results, failure⟩ (closeTail true shape >>= k) := by
  cases shape with
  | file => exact hok results ht
  | rename n =>
    rw [closeTail, bind_assoc]
    refine walks_plain rfl ht (hu _) (fun _ => hp) fun os _ ht => ?_
    rw [bind_assoc]
    refine walks_lookups ht (hu _) (fun _ _ _ => hp) fun os _ ht => ?_
    rw [bind_assoc]
    refine walks_plain rfl ht (hu _) (fun _ => hp) fun os _ ht => ?_
    exact walks_renamePublish ht (hu _) (fun _ => hp) fun _ _ os _ ht => hok os ht
  | linkRemove n =>
    exact walks_linkRemovePublish ht (fun op _ => hu op) hp fun _ _ os _ ht => hok os ht

theorem walks_closeReplies {E : Expectation Unit} {shape : CloseShape}
    (ht : Replies.Answers (.close :: shape.tailCodes) ⟨results, failure⟩)
    (hu : ∀ op, E.Uncaught op) (hp : E.passed) (hv : E.value ()) :
    Walks E [] ⟨results, failure⟩ (closeReplies shape) := by
  refine walks_advance ht (hu _) (fun _ => hp) fun o os _ ho ht => ?_
  cases o with
  | close stateid =>
    refine walks_xdr_nil (reads_skipStateid stateid) ?_
    refine walks_closeTail ht hu hp fun os ht => ?_
    exact walks_finish ht fun _ => walks_pure hp hv
  | _ => cases ho

theorem walks_closeCommit {verifier : Option Verifier} {k : Unit → RepliesM α}
    (ht : Replies.Answers ((if verifier.isSome then [.commit] else []) ++ ops)
      ⟨results, failure⟩)
    (hu : ∀ op, E.Uncaught op) (hp : results = [] → E.passed)
    (hok : ∀ os, Replies.Answers ops ⟨os, failure⟩ →
      (results = os ∨ ∃ w, verifier = some w ∧ results = .commit w :: os) →
      Walks E [] ⟨os, failure⟩ (k ()))
    (hbad : ∀ w os, results = .commit w :: os → verifier ≠ some w → E.unsupported) :
    Walks E [] ⟨results, failure⟩ (closeCommit verifier >>= k) := by
  cases verifier with
  | none => exact hok results ht (Or.inl rfl)
  | some v =>
    rw [closeCommit, bind_assoc]
    refine walks_commit ht (hu _) hp fun w os hres ht => ?_
    rw [if_pos rfl, bind_assoc]
    refine walks_xdr_nil (reads_readBytes w) ?_
    by_cases hw : w = v
    · refine walks_check ?_ (hok os ht (Or.inr ⟨w, by rw [hw], hres⟩))
      rw [hw]
      exact ensureWriteVerifier_self v
    · refine walks_check_fails (ensureWriteVerifier_of_ne hw) rfl (hbad w os hres ?_)
      simpa using Ne.symm hw

end Close

section Specs

variable {reply : CompoundReply}

theorem decodeCloseCompound_spec {E : Expectation Unit} {shape : CloseShape}
    {verifier : Option Verifier}
    (ht : Replies.Answers (.sequence :: shape.codes verifier.isSome) reply.replies)
    (hu : ∀ op, E.Uncaught op)
    (hp : (∀ w, .commit w ∈ reply.replies.results → verifier = some w) → E.passed)
    (hv : E.value ())
    (hbad : ∀ w, .commit w ∈ reply.replies.results → verifier ≠ some w → E.unsupported) :
    E.Holds reply.replies 0 (decodeCloseCompound reply.encode shape verifier) := by
  refine withReplies_of_walks (Nat.le_trans ht.length_le ?_) ?_
  · exact Nat.le_of_eq (by rw [List.length_cons, CloseShape.length_codes])
  refine walks_sequence ht (hu _) (fun h => hp (by simp [h])) fun o os h₁ ho ht => ?_
  have hfirst : ∀ w, .commit w ≠ o := by
    rintro w rfl
    cases ho
  refine walks_plain rfl ht (hu _) (fun h => hp (by simp [h₁, h, hfirst])) fun os h₂ ht => ?_
  refine walks_closeCommit ht hu (fun h => hp (by simp [h₁, h₂, h, hfirst]))
    (fun os ht h₃ => ?_) fun w os h₃ => hbad w (by simp [h₁, h₂, h₃])
  -- no later result is a `COMMIT`, so its verifier is settled here
  have hrest : ∀ w, .commit w ∉ os := by
    intro w hw
    have := ht.opcode_mem _ hw
    cases shape <;> simp [OpRes.opcode, CloseShape.tailCodes] at this
  have hp : E.passed := by
    refine hp fun w hw => ?_
    rw [h₁, h₂] at hw
    rcases h₃ with h₃ | ⟨v, hv, h₃⟩
    · rw [h₃] at hw
      simp [hfirst, hrest] at hw
    · rw [h₃] at hw
      simp only [List.mem_cons, hfirst, hrest, or_false, false_or, reduceCtorEq,
        OpRes.commit.injEq] at hw
      rw [hv, hw]
  by_cases hfile : shape = .file
  · rw [if_pos hfile] at ht
    rw [if_neg (by simpa using hfile)]
    exact walks_closeReplies ht hu hp hv
  · rw [if_neg hfile] at ht
    rw [if_pos hfile]
    exact walks_plain rfl ht (hu _) (fun _ => hp) fun os _ ht =>
      walks_closeReplies ht hu hp hv

end Specs

section Close

variable {α : Type} {E : Expectation α} {failure : Option Failure} {ops : List OpCode}

/-- The operations that close `n` files. -/
def closeBatchCodes (n : ℕ) : List OpCode := (List.replicate n [OpCode.putFh, OpCode.close]).flatten

theorem length_closeBatchCodes (n : ℕ) : (closeBatchCodes n).length = n * 2 := by
  simp [closeBatchCodes]

theorem walks_closeBatchReplies (hu : ∀ op, E.Uncaught op) (hp : E.passed) :
    ∀ {n : ℕ} {results : List OpRes} {k : ℕ → RepliesM α},
      Replies.Answers (closeBatchCodes n ++ ops) ⟨results, failure⟩ →
      (∀ os, Replies.Answers ops ⟨os, failure⟩ → Walks E [] ⟨os, failure⟩ (k n)) →
      Walks E [] ⟨results, failure⟩ (closeBatchReplies n >>= k) := by
  intro n
  induction n with
  | zero =>
    intro results k ht hok
    exact hok results ht
  | succ n ih =>
    intro results k ht hok
    rw [closeBatchReplies, bind_assoc]
    refine walks_plain rfl ht (hu _) (fun _ => hp) fun os _ ht => ?_
    simp only [bind_assoc]
    refine walks_advance ht (hu _) (fun _ => hp) fun o os _ ho ht => ?_
    cases o with
    | close stateid =>
      simp only [if_true, bind_assoc]
      refine walks_xdr_nil (reads_skipStateid stateid) ?_
      simp only [pure_bind]
      refine ih ht fun os ht => ?_
      rw [Nat.add_comm 1 n]
      exact hok os ht
    | _ => cases ho

end Close

section Specs

variable {reply : CompoundReply}

theorem decodeCloseBatchCompound_spec {E : Expectation Unit} {n : ℕ}
    (ht : Replies.Answers (.sequence :: closeBatchCodes n) reply.replies)
    (hu : ∀ op, E.Uncaught op) (hp : E.passed) (hv : E.value ()) :
    E.Holds reply.replies 0 (decodeCloseBatchCompound reply.encode n) := by
  have hlen := ht.length_le
  have hshort := reply.short
  rw [List.length_cons, length_closeBatchCodes] at hlen
  refine withReplies_of_walks (by simp only [saturatingAdd]; omega) ?_
  refine walks_sequence ht (hu _) (fun _ => hp) fun o os _ _ ht => ?_
  rw [← List.append_nil (closeBatchCodes n)] at ht
  refine walks_closeBatchReplies hu hp ht fun os ht => ?_
  refine walks_finish ht fun _ => ?_
  rw [if_neg (by simp)]
  exact walks_pure hp hv

theorem decodeRenamePublishCompound_spec {E : Expectation Unit} {n : ℕ}
    (ht : Replies.Answers (.sequence :: .putFh :: (List.replicate n .lookup
      ++ [.saveFh, .rename])) reply.replies)
    (hu : ∀ op, E.Uncaught op) (hp : E.passed) (hv : E.value ()) :
    E.Holds reply.replies 0 (decodeRenamePublishCompound reply.encode n) := by
  refine withReplies_of_walks (Nat.le_trans ht.length_le (by simp; omega)) ?_
  refine walks_sequence ht (hu _) (fun _ => hp) fun o os _ _ ht => ?_
  refine walks_plain rfl ht (hu _) (fun _ => hp) fun os _ ht => ?_
  refine walks_lookups ht (hu _) (fun _ _ _ => hp) fun os _ ht => ?_
  refine walks_plain rfl ht (hu _) (fun _ => hp) fun os _ ht => ?_
  refine walks_renamePublish ht (hu _) (fun _ => hp) fun _ _ os _ ht => ?_
  exact walks_finish ht fun _ => walks_pure hp hv

theorem decodeLinkRemovePublishCompound_spec {E : Expectation Unit} {n : ℕ}
    (ht : Replies.Answers (.sequence :: .putFh :: .saveFh :: .putFh
      :: (List.replicate n .lookup ++ [.link, .remove])) reply.replies)
    (hu : ∀ op, E.Uncaught op) (hp : E.passed) (hv : E.value ()) :
    E.Holds reply.replies 0 (decodeLinkRemovePublishCompound reply.encode n) := by
  refine withReplies_of_walks (Nat.le_trans ht.length_le (by simp; omega)) ?_
  refine walks_sequence ht (hu _) (fun _ => hp) fun o os _ _ ht => ?_
  refine walks_plain rfl ht (hu _) (fun _ => hp) fun os _ ht => ?_
  refine walks_linkRemovePublish ht (fun op _ => hu op) hp fun _ _ os _ ht => ?_
  exact walks_finish ht fun _ => walks_pure hp hv

end Specs

/-! ### Fused puts -/

section Fused

variable {α : Type} {E : Expectation α} {results : List OpRes} {failure : Option Failure}
  {ops : List OpCode}

theorem walks_fusedCommit {write : WriteData} {k : Unit → RepliesM α}
    (ht : Replies.Answers (.commit :: ops) ⟨results, failure⟩) (hu : E.Uncaught .commit)
    (hp : results = [] → E.passed)
    (hok : ∀ w os, results = .commit w :: os → Replies.Answers ops ⟨os, failure⟩ →
      (write.requiresCommit = true → w = write.verifier) → Walks E [] ⟨os, failure⟩ (k ()))
    (hbad : ∀ w os, results = .commit w :: os → write.requiresCommit = true →
      w ≠ write.verifier → E.unsupported) :
    Walks E [] ⟨results, failure⟩ (fusedCommit (some write) >>= k) := by
  rw [fusedCommit, bind_assoc]
  refine walks_commit ht hu hp fun w os hres ht => ?_
  rw [if_pos rfl, bind_assoc]
  refine walks_xdr_nil (reads_readBytes w) ?_
  simp only [RepliesM.okOr_some, pure_bind]
  by_cases hcommit : write.requiresCommit = true
  · rw [if_pos hcommit]
    by_cases hw : w = write.verifier
    · refine walks_check ?_ (hok w os hres ht fun _ => hw)
      rw [hw]
      exact ensureWriteVerifier_self _
    · exact walks_check_fails (ensureWriteVerifier_of_ne hw) rfl (hbad w os hres hcommit hw)
  · rw [if_neg hcommit, pure_bind]
    exact hok w os hres ht fun h => absurd h hcommit

/-- The operations of a fused put after its checks. -/
def fusedPublishCodes (n : ℕ) : Bool → List OpCode
  | true => .saveFh :: .putFh :: (List.replicate n .lookup ++ [.link, .remove])
  | false => [.restoreFh, .rename]

/-- The operations of a fused put. -/
def fusedCodes (n : ℕ) (createNew : Bool) : List OpCode :=
  .putFh :: (List.replicate n .lookup ++ ((if createNew then [] else [.saveFh])
    ++ .«open» :: .getFh :: .write :: .commit :: .verify :: fusedPublishCodes n createNew))

theorem length_fusedCodes (n : ℕ) (createNew : Bool) :
    (fusedCodes n createNew).length + 1
      = if createNew then 11 + 2 * n else 10 + n := by
  cases createNew <;> simp [fusedCodes, fusedPublishCodes] <;> omega

theorem walks_fusedPublish {n : ℕ} {createNew : Bool} {k : Bool → RepliesM α}
    (ht : Replies.Answers (fusedPublishCodes n createNew) ⟨results, failure⟩)
    (hu : ∀ op, op ≠ .«open» → E.Uncaught op) (hp : E.passed)
    (hok : ∀ os, Replies.Answers [] ⟨os, failure⟩ → Walks E [] ⟨os, failure⟩ (k true)) :
    Walks E [] ⟨results, failure⟩ (fusedPublish n createNew >>= k) := by
  cases createNew with
  | true => exact walks_linkRemovePublish ht hu hp fun _ _ os _ ht => hok os ht
  | false =>
    rw [fusedPublish, bind_assoc]
    refine walks_plain rfl ht (hu _ (by decide)) (fun _ => hp) fun os _ ht => ?_
    exact walks_renamePublish ht (hu _ (by decide)) (fun _ => hp) fun _ _ os _ ht => hok os ht

/-- The verifier of a fused put's `COMMIT` is that of its `WRITE`. -/
def FusedChecks (results : List OpRes) : Prop :=
  ∀ write : WriteData, .write write.count write.committed write.verifier ∈ results →
    write.requiresCommit = true → ∀ w, .commit w ∈ results → w = write.verifier

theorem walks_fusedReplies {E : Expectation (OpenOutcome (StateId × FileHandle × WriteData))}
    {n : ℕ} {createNew : Bool}
    (ht : Replies.Answers (.«open» :: .getFh :: .write :: .commit :: .verify
      :: fusedPublishCodes n createNew) ⟨results, failure⟩)
    (htyped : E.typed = caughtExist .«open» .exists)
    (hp : FusedChecks results → E.passed)
    (hv : ∀ res handle write w os,
      results = .«open» res :: .getFh handle
        :: .write write.count write.committed write.verifier :: .commit w :: os →
      E.value (.opened (res.stateid, ⟨handle.bytes⟩, write)))
    (hopen : ∀ res, .«open» res ∈ results → ¬ res.Supported → E.unsupported)
    (hbad : ∀ handle, .getFh handle ∈ results → ¬ handle.bytes.length ≤ 128 → E.unsupported)
    (hcommit : ¬ FusedChecks results → E.unsupported) :
    Walks E [] ⟨results, failure⟩ (fusedReplies n createNew) := by
  have hu : ∀ op, op ≠ .«open» → E.Uncaught op := fun op h => uncaught_exist htyped h (by decide)
  refine walks_openOrExists ht htyped rfl (fun h => hp (by simp [FusedChecks, h]))
    (fun res os h₁ ht _ => ?_) fun res os h₁ => hopen res (by simp [h₁])
  refine walks_getfh ht (hu _ (by decide)) (fun h => hp (by simp [FusedChecks, h₁, h]))
    (fun handle os h₂ ht _ => ?_) fun handle os h₂ => hbad handle (by simp [h₁, h₂])
  refine walks_write ht (hu _ (by decide)) (fun h => hp (by simp [FusedChecks, h₁, h₂, h]))
    fun count committed verifier os h₃ ht => ?_
  refine walks_fusedCommit ht (hu _ (by decide))
    (fun h => hp (by simp [FusedChecks, h₁, h₂, h₃, h]))
    (fun w os h₄ ht hw => ?_) fun w os h₄ hreq hne => hcommit fun h => hne
      (h ⟨count, committed, verifier⟩ (by simp [h₁, h₂, h₃]) hreq w (by simp [h₁, h₂, h₃, h₄]))
  -- no later result is a `WRITE` or a `COMMIT`, so the verifiers are settled here
  have hrest : ∀ o ∈ os, o.opcode ≠ .write ∧ o.opcode ≠ .commit := by
    intro o ho
    have := ht.opcode_mem o ho
    cases createNew <;> simp only [fusedPublishCodes] at this <;> constructor <;>
      · intro hop
        simp [hop] at this
  have hp : E.passed := by
    refine hp fun write hwrite hreq v hv => ?_
    rw [h₁, h₂, h₃, h₄] at hwrite hv
    have hwrite' : (WriteData.mk count committed verifier) = write := by
      simp only [List.mem_cons, reduceCtorEq, false_or, OpRes.write.injEq] at hwrite
      rcases hwrite with ⟨hc, hs, hv⟩ | hmem
      · rw [← hc, ← hs, ← hv]
      · exact absurd rfl (hrest _ hmem).1
    have hv' : w = v := by
      simp only [List.mem_cons, reduceCtorEq, false_or, OpRes.commit.injEq] at hv
      rcases hv with hv | hmem
      · exact hv.symm
      · exact absurd rfl (hrest _ hmem).2
    subst hwrite' hv'
    exact hw hreq
  refine walks_plain rfl ht (hu _ (by decide)) (fun _ => hp) fun os' h₅ ht => ?_
  refine walks_fusedPublish ht hu hp fun os ht => ?_
  exact walks_finish ht fun _ => walks_pure hp
    (hv res handle ⟨count, committed, verifier⟩ w _ (by rw [h₁, h₂, h₃, h₄]))

end Fused

section Specs

variable {reply : CompoundReply}

theorem decodeFusedPutCompound_spec
    {E : Expectation (OpenOutcome (StateId × FileHandle × WriteData))} {n : ℕ} {createNew : Bool}
    (ht : Replies.Answers (.sequence :: fusedCodes n createNew) reply.replies)
    (htyped : E.typed = caughtExist .«open» .exists)
    (hp : FusedChecks reply.replies.results → E.passed)
    (hv : ∀ o res handle write w os, reply.replies.results
        = o :: .putFh :: (List.replicate n .lookup ++ ((if createNew then [] else [.saveFh])
          ++ .«open» res :: .getFh handle
            :: .write write.count write.committed write.verifier :: .commit w :: os)) →
      E.value (.opened (res.stateid, ⟨handle.bytes⟩, write)))
    (hopen : ∀ res, .«open» res ∈ reply.replies.results → ¬ res.Supported → E.unsupported)
    (hbad : ∀ handle, .getFh handle ∈ reply.replies.results → ¬ handle.bytes.length ≤ 128 →
      E.unsupported)
    (hcommit : ¬ FusedChecks reply.replies.results → E.unsupported) :
    E.Holds reply.replies 0 (decodeFusedPutCompound reply.encode n createNew) := by
  have hu : ∀ op, op ≠ .«open» → E.Uncaught op := fun op h => uncaught_exist htyped h (by decide)
  refine withReplies_of_walks (Nat.le_trans ht.length_le ?_) ?_
  · exact Nat.le_of_eq (by rw [List.length_cons, length_fusedCodes])
  refine walks_sequence ht (hu _ (by decide)) (fun h => hp (by simp [FusedChecks, h]))
    fun o os h₁ ho ht => ?_
  have hfirst : (∀ a b c, .write a b c ≠ o) ∧ ∀ w, .commit w ≠ o := by
    constructor
    · rintro a b c rfl
      cases ho
    · rintro w rfl
      cases ho
  refine walks_plain rfl ht (hu _ (by decide))
    (fun h => hp (by simp [FusedChecks, h₁, h, hfirst])) fun os h₂ ht => ?_
  refine walks_lookups ht (hu _ (by decide))
    (fun m _ h => hp (by simp [FusedChecks, h₁, h₂, h, hfirst, List.mem_replicate]))
    fun os h₃ ht => ?_
  -- the checks look at the results from `OPEN` on only
  have hchecks : ∀ mid rest : List OpRes, (∀ o ∈ mid, o = .saveFh) → os = mid ++ rest →
      (FusedChecks rest ↔ FusedChecks reply.replies.results) := by
    rintro mid rest hmid rfl
    have hmid₁ : ∀ a b c, OpRes.write a b c ∉ mid := fun a b c h => by cases hmid _ h
    have hmid₂ : ∀ w, OpRes.commit w ∉ mid := fun w h => by cases hmid _ h
    rw [h₁, h₂, h₃]
    simp [FusedChecks, hfirst, List.mem_replicate, hmid₁, hmid₂]
  cases createNew with
  | true =>
    have hiff := hchecks [] os (by simp) rfl
    exact walks_fusedReplies ht htyped (fun h => hp (hiff.mp h))
      (fun res handle write w os h₄ => hv o res handle write w os (by rw [h₁, h₂, h₃, h₄]; rfl))
      (fun res h => hopen res (by simp [h₁, h₂, h₃, h]))
      (fun handle h => hbad handle (by simp [h₁, h₂, h₃, h]))
      fun h => hcommit fun h' => h (hiff.mpr h')
  | false =>
    refine walks_plain rfl ht (hu _ (by decide)) (fun h => hp ?_) fun os h₄ ht => ?_
    · simp [FusedChecks, h₁, h₂, h₃, h, hfirst, List.mem_replicate]
    have hiff := hchecks [.saveFh] os (by simp) h₄
    exact walks_fusedReplies ht htyped (fun h => hp (hiff.mp h))
      (fun res handle write w os h₅ =>
        hv o res handle write w os (by rw [h₁, h₂, h₃, h₄, h₅]; rfl))
      (fun res h => hopen res (by simp [h₁, h₂, h₃, h₄, h]))
      (fun handle h => hbad handle (by simp [h₁, h₂, h₃, h₄, h]))
      fun h => hcommit fun h' => h (hiff.mpr h')

/-! ### Directories -/

theorem decodeReaddirCompound_spec {E : Expectation DirPage} {limit : Option ℕ}
    (ht : Replies.Answers [.sequence, .putFh, .readDir] reply.replies)
    (hu : ∀ op, E.Uncaught op) (hp : E.passed)
    (hv : ∀ o verifier listed eof,
      reply.replies.results = [o, .putFh, .readDir verifier listed eof] →
      E.value (listingPage limit verifier eof listed [] 0))
    (hbad : ∀ verifier listed eof, .readDir verifier listed eof ∈ reply.replies.results →
      (∃ e ∈ listed, ¬ e.Supported) → E.unsupported) :
    E.Holds reply.replies 0 (decodeReaddirCompound reply.encode limit) := by
  refine withReplies_of_walks ht.length_le ?_
  refine walks_sequence ht (hu _) (fun _ => hp) fun o os h₁ _ ht => ?_
  refine walks_plain rfl ht (hu _) (fun _ => hp) fun os h₂ ht => ?_
  refine walks_readDir ht (hu _) (fun _ => hp) (fun verifier listed eof left h₃ => ?_)
    fun verifier listed eof h₃ => hbad verifier listed eof (by simp [h₁, h₂, h₃])
  exact walks_finish ⟨rfl, rfl⟩ fun _ =>
    walks_pure hp (hv o verifier listed eof (by rw [h₁, h₂, h₃]))

theorem decodeReaddirPathCompound_spec {E : Expectation (FileHandle × DirPage)}
    {limit : Option ℕ} {n : ℕ}
    (ht : Replies.Answers (.sequence :: .putFh :: (List.replicate n .lookup
      ++ [.getFh, .readDir])) reply.replies)
    (hu : ∀ op, E.Uncaught op) (hp : E.passed)
    (hv : ∀ o handle verifier listed eof, reply.replies.results
        = o :: .putFh :: (List.replicate n .lookup
          ++ [.getFh handle, .readDir verifier listed eof]) →
      E.value (⟨handle.bytes⟩, listingPage limit verifier eof listed [] 0))
    (hbad : ∀ handle, .getFh handle ∈ reply.replies.results → ¬ handle.bytes.length ≤ 128 →
      E.unsupported)
    (hentry : ∀ verifier listed eof, .readDir verifier listed eof ∈ reply.replies.results →
      (∃ e ∈ listed, ¬ e.Supported) → E.unsupported) :
    E.Holds reply.replies 0 (decodeReaddirPathCompound reply.encode limit n) := by
  refine withReplies_of_walks (Nat.le_trans ht.length_le (by simp; omega)) ?_
  refine walks_sequence ht (hu _) (fun _ => hp) fun o os h₁ _ ht => ?_
  refine walks_plain rfl ht (hu _) (fun _ => hp) fun os h₂ ht => ?_
  refine walks_lookups ht (hu _) (fun _ _ _ => hp) fun os h₃ ht => ?_
  refine walks_getfh ht (hu _) (fun _ => hp) (fun handle os h₄ ht _ => ?_) fun handle os h₄ =>
    hbad handle (by simp [h₁, h₂, h₃, h₄])
  refine walks_readDir ht (hu _) (fun _ => hp) (fun verifier listed eof left h₅ => ?_)
    fun verifier listed eof h₅ => hentry verifier listed eof (by simp [h₁, h₂, h₃, h₄, h₅])
  exact walks_finish ⟨rfl, rfl⟩ fun _ =>
    walks_pure hp (hv o handle verifier listed eof (by rw [h₁, h₂, h₃, h₄, h₅]))

theorem decodeReaddirPathWithoutHandleCompound_spec {E : Expectation DirPage}
    {limit : Option ℕ} {n : ℕ}
    (ht : Replies.Answers (.sequence :: .putFh :: (List.replicate n .lookup ++ [.readDir]))
      reply.replies)
    (hu : ∀ op, E.Uncaught op) (hp : E.passed)
    (hv : ∀ o verifier listed eof, reply.replies.results
        = o :: .putFh :: (List.replicate n .lookup ++ [.readDir verifier listed eof]) →
      E.value (listingPage limit verifier eof listed [] 0))
    (hentry : ∀ verifier listed eof, .readDir verifier listed eof ∈ reply.replies.results →
      (∃ e ∈ listed, ¬ e.Supported) → E.unsupported) :
    E.Holds reply.replies 0 (decodeReaddirPathWithoutHandleCompound reply.encode limit n) := by
  refine withReplies_of_walks (Nat.le_trans ht.length_le (by simp; omega)) ?_
  refine walks_sequence ht (hu _) (fun _ => hp) fun o os h₁ _ ht => ?_
  refine walks_plain rfl ht (hu _) (fun _ => hp) fun os h₂ ht => ?_
  refine walks_lookups ht (hu _) (fun _ _ _ => hp) fun os h₃ ht => ?_
  refine walks_readDir ht (hu _) (fun _ => hp) (fun verifier listed eof left h₄ => ?_)
    fun verifier listed eof h₄ => hentry verifier listed eof (by simp [h₁, h₂, h₃, h₄])
  exact walks_finish ⟨rfl, rfl⟩ fun _ =>
    walks_pure hp (hv o verifier listed eof (by rw [h₁, h₂, h₃, h₄]))

theorem decodeCreateDirCompound_spec {E : Expectation CreateDirOutcome} {n : ℕ}
    (ht : Replies.Answers (.sequence :: .putFh :: (List.replicate n .lookup ++ [.create]))
      reply.replies)
    (htyped : E.typed = caughtExist .create .exists) (hp : E.passed) (hv : E.value .created) :
    E.Holds reply.replies 0 (decodeCreateDirCompound reply.encode n) := by
  have hu : ∀ op, op ≠ .create → E.Uncaught op := fun op h => uncaught_exist htyped h (by decide)
  refine withReplies_of_walks (Nat.le_trans ht.length_le (by simp; omega)) ?_
  refine walks_sequence ht (hu _ (by decide)) (fun _ => hp) fun o os _ _ ht => ?_
  refine walks_plain rfl ht (hu _ (by decide)) (fun _ => hp) fun os _ ht => ?_
  refine walks_lookups ht (hu _ (by decide)) (fun _ _ _ => hp) fun os _ ht => ?_
  refine walks_createdOrExists ht htyped rfl (fun _ => hp) fun _ _ os _ ht => ?_
  exact walks_finish ht fun _ => walks_pure hp hv

theorem decodeCreateDirHandleCompound_spec {E : Expectation CreateDirHandleOutcome} {n : ℕ}
    (ht : Replies.Answers (.sequence :: .putFh :: (List.replicate n .lookup
      ++ [.create, .getFh])) reply.replies)
    (htyped : E.typed = caughtExist .create .exists) (hp : E.passed)
    (hv : ∀ o cinfo attrset handle, reply.replies.results
        = o :: .putFh :: (List.replicate n .lookup ++ [.create cinfo attrset, .getFh handle]) →
      E.value (.created ⟨handle.bytes⟩))
    (hbad : ∀ handle, .getFh handle ∈ reply.replies.results → ¬ handle.bytes.length ≤ 128 →
      E.unsupported) :
    E.Holds reply.replies 0 (decodeCreateDirHandleCompound reply.encode n) := by
  have hu : ∀ op, op ≠ .create → E.Uncaught op := fun op h => uncaught_exist htyped h (by decide)
  refine withReplies_of_walks (Nat.le_trans ht.length_le (by simp; omega)) ?_
  refine walks_sequence ht (hu _ (by decide)) (fun _ => hp) fun o os h₁ _ ht => ?_
  refine walks_plain rfl ht (hu _ (by decide)) (fun _ => hp) fun os h₂ ht => ?_
  refine walks_lookups ht (hu _ (by decide)) (fun _ _ _ => hp) fun os h₃ ht => ?_
  refine walks_createdOrExists ht htyped rfl (fun _ => hp) fun cinfo attrset os h₄ ht => ?_
  refine walks_getfh ht (hu _ (by decide)) (fun _ => hp) (fun handle os h₅ ht _ => ?_)
    fun handle os h₅ => hbad handle (by simp [h₁, h₂, h₃, h₄, h₅])
  exact walks_finish ht fun h₆ =>
    walks_pure hp (hv o cinfo attrset handle (by rw [h₁, h₂, h₃, h₄, h₅, h₆]))

end Specs

/-! ### Removal -/

section Remove

variable {α : Type} {E : Expectation α} {a : α} {failure : Option Failure} {op : OpCode}
  {ops : List OpCode}

theorem walks_removeExpectedOp {results : List OpRes} {k : Option Bool → RepliesM α}
    (ht : Replies.Answers (op :: ops) ⟨results, failure⟩) (htyped : E.typed = caughtNoent a)
    (hk : k (some true) = pure a) (hp : E.passed)
    (hok : ∀ (o : OpRes) os, o.opcode = op → Replies.Answers ops ⟨os, failure⟩ →
      Walks E o.body ⟨os, failure⟩ (k (some false))) :
    Walks E [] ⟨results, failure⟩ ((advanceWith fun _ => decodeRemoveExpectedOp op) >>= k) := by
  refine walks_advanceWith (headerSpec_removeExpectedOp op) ht (fun f _ _ => ⟨hp, ?_⟩)
    fun o os _ ho ht => hok o os ho ht
  rw [htyped]
  by_cases hnoent : f.status = .NOENT ∧ (f.op = .putFh ∨ f.op = .lookup ∨ f.op = .remove)
  · simp only [caughtNoent, if_pos hnoent]
    exact ⟨a, rfl, hk⟩
  · simp only [caughtNoent, if_neg hnoent]

theorem walks_removeLookups (htyped : E.typed = caughtNoent a) (hp : E.passed) :
    ∀ {n : ℕ} {results : List OpRes} {k : Bool → RepliesM α},
      Replies.Answers (List.replicate n .lookup ++ ops) ⟨results, failure⟩ →
      k true = pure a →
      (∀ os, Replies.Answers ops ⟨os, failure⟩ → Walks E [] ⟨os, failure⟩ (k false)) →
      Walks E [] ⟨results, failure⟩ (removeLookups n >>= k) := by
  intro n
  induction n with
  | zero =>
    intro results k ht _ hok
    exact hok results ht
  | succ n ih =>
    intro results k ht hk hok
    rw [removeLookups, bind_assoc]
    refine walks_removeExpectedOp ht htyped (by simpa using hk) hp fun o os ho ht => ?_
    cases o with
    | lookup => exact ih ht hk hok
    | _ => cases ho

end Remove

section Specs

variable {reply : CompoundReply}

theorem decodeRemoveCompound_spec {E : Expectation RemoveOutcome} {n : ℕ}
    (ht : Replies.Answers (.sequence :: .putFh :: (List.replicate n .lookup ++ [.remove]))
      reply.replies)
    (htyped : E.typed = caughtNoent .missing) (hp : E.passed) (hv : E.value .removed) :
    E.Holds reply.replies 0 (decodeRemoveCompound reply.encode n) := by
  refine withReplies_of_walks (Nat.le_trans ht.length_le (by simp; omega)) ?_
  refine walks_removeExpectedOp ht htyped rfl hp fun o os ho ht => ?_
  cases o with
  | sequence =>
    refine walks_xdr_nil (reads_skipSequenceData _ _ _ _ _ _) ?_
    refine walks_removeExpectedOp ht htyped rfl hp fun o os ho ht => ?_
    cases o with
    | putFh =>
      refine walks_removeLookups htyped hp ht rfl fun os ht => ?_
      refine walks_removeExpectedOp ht htyped rfl hp fun o os ho ht => ?_
      cases o with
      | remove cinfo =>
        refine walks_xdr_nil (reads_skipChangeInfo cinfo) ?_
        rw [pure_bind]
        exact walks_finish ht fun _ => walks_pure hp hv
      | _ => cases ho
    | _ => cases ho
  | _ => cases ho

end Specs

end NfsCrust
