import NfsCrust.Read.Gets

/-!
# What a size mismatch says

`get_known_size` reports a file that does not end where its caller expects as a
`FileSizeMismatch`, with the size of the file when the end was seen and without one when the
file goes on.  The error comes from three checks on five ways to read.

The server of this file has the file, and answers every request about it from there as far as
it executes it.  Apart from that anything can happen: operations are refused, requests are not
sent, replies are lost, and sessions are rebuilt.

## Main definitions

* `ServedFile.answers` — the server.
* `MismatchExact` — what is to hold of a reported mismatch.

## Main results

* `getKnownSize_mismatch_exact` — a reported mismatch says what the file is.
* `getKnownSize_mismatch_larger` — a file of one byte that is expected to be empty is reported
  with its size, which is not smaller than expected.
-/

namespace NfsCrust

open Interaction Thread

def Error.isSizeMismatch : Error → Bool
  | .fileSizeMismatch .. => true
  | _ => false

/-- The result is not the mismatch of a size. -/
def Harmless {α : Type} (r : Except Error α) : Prop :=
  ∀ err, r = .error err → err.isSizeMismatch = false

/-! ### The server -/

/-- The results of operations on the file come from the file. -/
def ServedFile.Truthful (x : ServedFile) (ops : List NfsOp) (results : List OpRes) : Prop :=
  ∀ p ∈ ops.zip results, p.1.onFile = true → FileAnswers x.fh x.bytes p.1 p.2

/-- A server that has the file.  It may refuse anything, and its replies may be lost. -/
def ServedFile.answers (x : ServedFile) (e : Effect) (_ : Unit) (r : e.Response) (_ : Unit) :
    Prop :=
  match e, r with
  | .exchange s _ ops, r => Harmless r ∧ ∀ slot response n tail, r = .ok (slot, response) →
      x.Asks s ops n tail → Rejected response ∨ ∃ t, Delivered slot t response ∧
        Replies.Answers (ops.map NfsOp.opcode) t ∧ x.Truthful ops t.results
  | .reconnect .., r => Harmless r
  | .currentSession, snapshot => 0 < (ClientSession.session snapshot).readChunkSize ∧
      0 < (ClientSession.session snapshot).readGranularity
  | _, _ => True

section

variable {x : ServedFile} {s : NfsSession} {call : SessionCall} {n : ℕ} {tail : List NfsOp}

namespace ServedFile

/-- A result of a request about the file belongs to its path, or comes from the file. -/
theorem Truthful.cases {names : List String} (htail : ∀ op ∈ tail, op.onFile) :
    ∀ {t : Replies}, Replies.Answers ((names.map NfsOp.lookup ++ tail).map NfsOp.opcode) t →
      x.Truthful (names.map NfsOp.lookup ++ tail) t.results →
      (∀ o ∈ t.results, o = .lookup ∨ ∃ op, FileAnswers x.fh x.bytes op o) ∧
      (t.failure = none → ∃ results, t.results = List.replicate names.length .lookup ++ results ∧
        List.Forall₂ (FileAnswers x.fh x.bytes) tail results) := by
  induction names with
  | nil =>
    induction tail with
    | nil =>
      rintro ⟨results, failure⟩ ⟨rfl, _⟩ _
      exact ⟨nofun, fun _ => ⟨[], rfl, .nil⟩⟩
    | cons op tail ih =>
      rintro ⟨results, failure⟩ hans htruth
      cases results with
      | nil =>
        obtain ⟨f, rfl, _⟩ := hans
        exact ⟨nofun, nofun⟩
      | cons o results =>
        have ho : FileAnswers x.fh x.bytes op o :=
          htruth (op, o) List.mem_cons_self (htail op List.mem_cons_self)
        obtain ⟨hall, hfull⟩ := ih (fun op' hop => htail op' (List.mem_cons_of_mem op hop)) hans.2
          (fun p hp => htruth p (List.mem_cons_of_mem _ hp))
        refine ⟨?_, ?_⟩
        · intro o' ho'
          rcases List.mem_cons.mp ho' with rfl | ho'
          · exact .inr ⟨op, ho⟩
          · exact hall o' ho'
        · intro hnone
          obtain ⟨results', heq, hresults⟩ := hfull hnone
          exact ⟨o :: results', congrArg (o :: ·) heq, .cons ho hresults⟩
  | cons name names ih =>
    rintro ⟨results, failure⟩ hans htruth
    cases results with
    | nil =>
      obtain ⟨f, rfl, _⟩ := hans
      exact ⟨nofun, nofun⟩
    | cons o results =>
      obtain ⟨hop, hans⟩ := hans
      have ho : o = .lookup := by
        cases o <;> first | rfl | cases hop
      obtain ⟨hall, hfull⟩ := ih hans (fun p hp => htruth p (List.mem_cons_of_mem _ hp))
      refine ⟨?_, ?_⟩
      · intro o' ho'
        rcases List.mem_cons.mp ho' with rfl | ho'
        · exact .inl ho
        · exact hall o' ho'
      · intro hnone
        obtain ⟨results', heq, hresults⟩ := hfull hnone
        refine ⟨results', ?_, hresults⟩
        rw [ho]
        exact congrArg (OpRes.lookup :: ·) heq

end ServedFile

/-- The requests of a `get_known_size`. -/
inductive ServedFile.ReadCall (x : ServedFile) : SessionCall → ℕ → List NfsOp → Prop
  | lookup : x.ReadCall (.lookupFileHandle x.components) x.components.length [.getFh]
  | path (offset count : ℕ) : x.ReadCall (.readPathAnonymous x.components offset count)
      x.components.length [.read .anonymous offset count]
  | pathHandle (offset count : ℕ) :
      x.ReadCall (.readPathAnonymousWithHandle x.components offset count) x.components.length
        [.getFh, .read .anonymous offset count]
  | handle (offset count : ℕ) :
      x.ReadCall (.readAnonymous x.fh offset count) 0 [.read .anonymous offset count]

namespace ServedFile.ReadCall

theorem asks (h : x.ReadCall call n tail) : x.Asks s (call.ops s) n tail := by
  cases h with
  | lookup => exact ⟨.inr ⟨rfl, rfl⟩, by simp [NfsOp.onFile]⟩
  | path => exact ⟨.inr ⟨rfl, rfl⟩, by simp [NfsOp.onFile]⟩
  | pathHandle => exact ⟨.inr ⟨rfl, rfl⟩, by simp [NfsOp.onFile]⟩
  | handle => exact ⟨.inl ⟨rfl, rfl⟩, by simp [NfsOp.onFile]⟩

theorem typed_eq (h : x.ReadCall call n tail) (op : OpCode) (status : NfsStatus) :
    call.typed op status = none := by
  cases h <;> rfl

theorem supported (h : x.ReadCall call n tail) {os : List OpRes}
    (hall : ∀ o ∈ os, o = .putFh ∨ o = .lookup ∨ ∃ op, FileAnswers x.fh x.bytes op o) :
    call.Supported os where
  «open» res hmem := by
    obtain h | h | ⟨op, h⟩ := hall _ hmem
    · cases h
    · cases h
    · cases op <;> cases h
  handle handle hmem := by
    obtain h | h | ⟨op, h⟩ := hall _ hmem
    · cases h
    · cases h
    · cases op with
      | getFh => exact Nat.le_trans (Nat.le_of_eq (congrArg List.length h)) x.handle_le
      | _ => cases h
  attrs attrs request _ hrequest := by
    cases h <;> cases hrequest
  names verifier listed eof hmem := by
    obtain h | h | ⟨op, h⟩ := hall _ hmem
    · cases h
    · cases h
    · cases op <;> cases h
  checked := by
    cases h <;> trivial

/-- What a request makes of the reply of the server: a value of the file, or an error that is
not a mismatch. -/
theorem received (h : x.ReadCall call n tail) {resp : Except Error (SlotUse × Bytes)}
    (hresp : x.answers (.exchange s call.tag (call.ops s)) () resp ()) :
    Harmless ((call.received resp).mapError CompoundDecodeError.error) ∧
    ∀ value, call.received resp = .ok value → ∃ results,
      List.Forall₂ (FileAnswers x.fh x.bytes) tail results ∧
      call.value (.putFh :: (List.replicate n .lookup ++ results)) = some value := by
  obtain ⟨hharmless, htruth⟩ := hresp
  cases resp with
  | error err =>
    exact ⟨fun err' heq => by cases heq; exact hharmless err rfl, fun _ heq => (by cases heq)⟩
  | ok answer =>
    obtain ⟨slot, response⟩ := answer
    obtain hrejected | ⟨t, hdelivered, hans, htruthful⟩ := htruth slot response n tail rfl h.asks
    · -- nothing was executed
      obtain ⟨err, hseq, herr⟩ := decodeSequenceResult_rejected hrejected slot
      have hreceived : call.received (.ok (slot, response)) = .error (.ofError err) := by
        rw [SessionCall.received, hseq]
      rw [hreceived]
      refine ⟨?_, by simp⟩
      rintro _ ⟨⟩
      obtain ⟨message, rfl⟩ | ⟨status, _, rfl⟩ := herr
      · rfl
      · rfl
    · obtain ⟨fh, names, rfl, hops⟩ := h.asks (s := s).shape
      have hholds := call.received_delivered hdelivered hans
      obtain ⟨results, failure⟩ := t
      rw [hops] at hans htruthful
      have hshape : (∀ o ∈ results, o = .putFh ∨ o = .lookup ∨
            ∃ op, FileAnswers x.fh x.bytes op o) ∧
          (failure = none → ∃ os, results = .putFh :: (List.replicate names.length .lookup ++ os) ∧
            List.Forall₂ (FileAnswers x.fh x.bytes) tail os) := by
        cases results with
        | nil =>
          obtain ⟨f, rfl, _⟩ := hans
          exact ⟨by simp, by simp⟩
        | cons o results =>
          obtain ⟨hop, hans⟩ := hans
          have ho : o = .putFh := by
            cases o <;> first | rfl | cases hop
          obtain ⟨hall, hfull⟩ := ServedFile.Truthful.cases (h.asks (s := s)).2 hans
            (fun p hp => htruthful p (List.mem_cons_of_mem _ hp))
          refine ⟨?_, ?_⟩
          · intro o' ho'
            rcases List.mem_cons.mp ho' with rfl | ho'
            · exact .inl ho
            · exact .inr (hall o' ho')
          · intro hnone
            obtain ⟨os, heq, hos⟩ := hfull hnone
            refine ⟨os, ?_, hos⟩
            rw [ho]
            exact congrArg (OpRes.putFh :: ·) heq
      obtain ⟨hall, hfull⟩ := hshape
      cases hcase : call.received (.ok (slot, response)) with
      | ok value =>
        rw [hcase] at hholds
        refine ⟨fun err heq => (by cases heq), ?_⟩
        rintro _ ⟨⟩
        obtain ⟨_, ⟨hnone, hvalue⟩ | ⟨f, _, htyped⟩⟩ := hholds
        · obtain ⟨os, heq, hos⟩ := hfull hnone
          exact ⟨os, hos, heq ▸ hvalue⟩
        · cases (h.typed_eq f.op f.status).symm.trans htyped
      | error err =>
        rw [hcase] at hholds
        refine ⟨?_, by simp⟩
        rintro _ ⟨⟩
        obtain ⟨_, f, _, _, rfl⟩ | ⟨_, hunsupported⟩ := hholds
        · rfl
        · exact absurd (h.supported hall) hunsupported

theorem safe (h : x.ReadCall call n tail) :
    Safe (E := effects) x.answers (fun _ _ => True) (fun _ _ => True)
      (fun r _ => Harmless r ∧ ∀ value, r = .ok value → ∃ results,
        List.Forall₂ (FileAnswers x.fh x.bytes) tail results ∧
        call.value (.putFh :: (List.replicate n .lookup ++ results)) = some value)
      (s.call call).run () := by
  apply safe_call (fun _ => True) trivial (fun _ _ _ _ => trivial)
  · intro w err _ _
    refine ⟨?_, nofun⟩
    rintro _ ⟨⟩
    cases err <;> rfl
  · intro w₁ resp w₂ _ _ hresp
    obtain ⟨hharmless, hvalue⟩ := h.received hresp
    refine ⟨trivial, ⟨hharmless, ?_⟩, fun _ _ _ => trivial⟩
    intro value hok
    cases hreceived : call.received resp with
    | error err =>
      rw [hreceived] at hok
      cases hok
    | ok value' =>
      rw [hreceived] at hok
      cases hok
      exact hvalue value hreceived
  · exact fun _ _ _ _ _ _ => ⟨trivial, trivial⟩

end ServedFile.ReadCall

/-! ### Reading a handle -/

variable {requirements : ReadRequirements} {initial : Bytes} {start len offset count : ℕ}

/-- A read that ends as it should, or fails with an error that is not a mismatch. -/
def ReadRequirements.Ends (requirements : ReadRequirements) (F initial : Bytes) (start len : ℕ)
    (r : Except Error Bytes) : Prop :=
  requirements.Ended F initial start len r ∨ ∃ err, r = .error err ∧ err.isSizeMismatch = false

/-- A request of the program, alone. -/
theorem ServedFile.ReadCall.ensures (h : x.ReadCall call n tail)
    {post : Except Error call.Result → Unit → Prop}
    (herr : ∀ err, err.isSizeMismatch = false → post (.error err) ())
    (hok : ∀ value results, List.Forall₂ (FileAnswers x.fh x.bytes) tail results →
      call.value (.putFh :: (List.replicate n .lookup ++ results)) = some value →
      post (.ok value) ()) :
    Ensures (E := effects) x.answers (fun _ => True) (liftM (s.call call) : ClientM _).run ()
      post := by
  apply ensures_liftThreadExcept trivial
  refine (h.safe.weaken (fun _ _ _ => trivial) (fun _ _ _ => trivial)).mono ?_
  rintro r _ ⟨hharmless, hvalue⟩ _
  cases r with
  | error err => exact herr err (hharmless err rfl)
  | ok value =>
    obtain ⟨results, hresults, hvalue⟩ := hvalue value rfl
    exact hok value results hresults hvalue

theorem FileAnswers.readAnonymous {results : List OpRes} {value : ReadData}
    (hresults : List.Forall₂ (FileAnswers x.fh x.bytes) [.read .anonymous offset count] results)
    (hvalue : (SessionCall.readAnonymous x.fh offset count).value
      (.putFh :: (List.replicate 0 .lookup ++ results)) = some value) :
    Served x.bytes offset count value :=
  FileAnswers.readPathAnonymous hresults hvalue

theorem ensures_sequentialReadTurn (hchunk : 0 < s.readChunkSize) (hend : start + len < 2 ^ 64)
    (hfits : requirements.Fits x.bytes initial.length start len) {m : ℕ} {r : SequentialRead}
    (h : Reading.Before x.bytes initial start len m r) :
    Ensures (E := effects) x.answers (fun _ => True) (sequentialReadTurn s x.fh requirements r).run
      () (fun
      | .ok (.inl r'), _ => ∃ m, Reading.Before x.bytes initial start len m r'
      | .ok (.inr r'), _ => Reading.After x.bytes initial start len r' ∧
          (r'.observedEof ≠ none → x.bytes.length ≤ start + len)
      | .error err, _ => err.isSizeMismatch = false) := by
  have hrange := h.range
  unfold sequentialReadTurn
  split
  · next hzero =>
    apply ensures_pure trivial
    refine ⟨⟨?_, Or.inr ⟨h.observed, ?_⟩⟩, fun hsome => absurd h.observed hsome⟩
    · rw [h.out, show r.offset - start = len by omega]
    · rcases h.below with hbelow | hbelow <;> omega
  · next hpos =>
    generalize hcount : min r.remaining s.readChunkSize = count
    have hcountpos : 0 < count := by omega
    have hle : count ≤ r.remaining := by omega
    have hsmall : count < 2 ^ 32 := by
      have := s.config.readChunkSize.toNat_lt
      unfold NfsSession.readChunkSize at hcount
      omega
    dsimp only
    rw [asU32_eq hsmall]
    apply ensures_bindExcept
    apply (ServedFile.ReadCall.handle r.offset count).ensures
    · intro err herr
      exact herr
    intro read results hresults hvalue
    have hserved := FileAnswers.readAnonymous hresults hvalue
    have hshort := hserved.short
    have hadd : addU64 r.offset read.data.length = .ok (r.offset + read.data.length) :=
      addU64_eq (by omega)
    have hobserve : observeEof r.offset read r.observedEof
        = .ok (if read.eof then some (r.offset + read.data.length) else r.observedEof) := by
      unfold observeEof
      rw [hadd]
      split <;> rfl
    apply ensures_bindExcept
    apply ensures_except trivial
    rw [hserved.validate hcountpos]
    apply ensures_bindExcept
    apply ensures_except trivial
    rw [hobserve]
    dsimp only
    split
    · next hdata =>
      have hlength := hserved.length_le hcountpos hdata
      exact ensures_pure trivial ⟨h.empty hserved hcountpos hdata, fun _ => by omega⟩
    · next hdata =>
      have hstop := hserved.stop_le hdata
      have hstart := h.start_le
      have hlimit : ensureBufferedReadWithinLimit r.out.length read.data.length
          requirements.expectedLen requirements.limit = .ok () := by
        apply ensureBufferedReadWithinLimit_eq
        intro l hl
        have hfits := hfits l hl
        rw [length_slice] at hfits
        rw [h.out, List.length_append, length_slice]
        omega
      apply ensures_bindExcept
      apply ensures_except trivial
      rw [hlimit]
      apply ensures_bindExcept
      apply ensures_except trivial
      rw [hadd]
      dsimp only
      split
      · next heof =>
        have hlast := hserved.eof.mp heof
        exact ensures_pure trivial ⟨h.last hserved hle hdata heof, fun _ => by omega⟩
      · next heof => exact ensures_pure trivial ⟨_, h.advance hserved hle heof⟩

theorem ensures_readHandleToBytesSequentialInto (hchunk : 0 < s.readChunkSize)
    (hend : start + len < 2 ^ 64) (hfits : requirements.Fits x.bytes initial.length start len) :
    Ensures (E := effects) x.answers (fun _ => True)
      (readHandleToBytesSequentialInto s x.fh initial start len requirements).run ()
      fun r _ => requirements.Ends x.bytes initial start len r := by
  have hstart : Reading.Before x.bytes initial start len len
      { out := initial, offset := start, remaining := len, observedEof := none } :=
    ⟨rfl, Nat.le_refl _, rfl, by simp, rfl, Or.inl rfl⟩
  apply ensures_bindExcept
  refine ensures_loopExcept (fun r _ => ∃ m, Reading.Before x.bytes initial start len m r)
    ⟨len, hstart⟩ (fun _ _ _ => trivial) ?_
  rintro r _ ⟨m, hr⟩
  refine (ensures_sequentialReadTurn hchunk hend hfits hr).mono ?_
  intro r' _ _ hr'
  match r', hr' with
  | .ok (.inl r'), hr' => exact hr'
  | .error err, herr => exact .inr ⟨err, rfl, herr⟩
  | .ok (.inr r'), hr' =>
    apply ensures_bindExcept
    apply ensures_except trivial
    cases hvalid : validateOptionalObservedEof requirements.expectedEof r'.observedEof with
    | ok _ =>
      exact ensures_pure trivial (.inl ⟨_, hr'.1.observed, hr'.2, by rw [hvalid, hr'.1.out]; rfl⟩)
    | error err => exact .inl ⟨_, hr'.1.observed, hr'.2, by rw [hvalid]; rfl⟩

/-- Reassembly only records errors of its own. -/
def PipelinedEmit.Unharmed (e : PipelinedEmit) : Prop :=
  ∀ err, e.firstError = some err → err.isSizeMismatch = false

namespace PipelinedEmit.Unharmed

variable {e : PipelinedEmit}

theorem recordError (h : e.Unharmed) {err : Error} (herr : err.isSizeMismatch = false) :
    (e.recordError err).Unharmed := by
  intro err' heq
  cases hfirst : e.firstError with
  | none =>
    simp only [PipelinedEmit.recordError, hfirst, Option.getD_none, Option.some.injEq] at heq
    rwa [← heq]
  | some first =>
    simp only [PipelinedEmit.recordError, hfirst, Option.getD_some, Option.some.injEq] at heq
    exact h err' (hfirst.trans (congrArg some heq))

theorem observeEofUpperBound (h : e.Unharmed) (eof : ℕ) : (e.observeEofUpperBound eof).Unharmed := by
  have hrecorded : ∀ message, (e.recordError (.protocol message)).Unharmed := fun _ =>
    h.recordError rfl
  unfold PipelinedEmit.observeEofUpperBound
  dsimp only
  intro err
  split
  · split
    · exact hrecorded _ err
    · exact h err
  · exact h err

theorem observeExactEof (h : e.Unharmed) (eof : ℕ) : (e.observeExactEof eof).Unharmed := by
  unfold PipelinedEmit.observeExactEof
  apply observeEofUpperBound
  cases e.eofUpperBound with
  | none =>
    dsimp only
    split
    · split
      · exact h
      · exact h.recordError rfl
    · exact h
  | some upperBound =>
    -- the end that was reported may lie beyond an earlier bound, which is recorded first
    by_cases hbeyond : eof > upperBound
    · simp only [if_pos hbeyond]
      split
      · split
        · exact h.recordError rfl
        · exact (h.recordError rfl).recordError rfl
      · exact h.recordError rfl
    · simp only [if_neg hbeyond]
      split
      · split
        · exact h
        · exact h.recordError rfl
      · exact h

theorem emit (h : e.Unharmed) (r : ReadTaskOutput) : (e.emit r).Unharmed := by
  unfold PipelinedEmit.emit
  split
  · exact h.observeExactEof _
  · cases hlimit : ensureBufferedReadWithinLimit e.out.length r.data.length e.expectedLen
      e.limit with
    | error err =>
      apply h.recordError
      unfold ensureBufferedReadWithinLimit at hlimit
      split at hlimit
      · cases hlimit
      · split at hlimit
        · cases hlimit
          rfl
        · cases hlimit
    | ok _ =>
      dsimp only
      split
      · apply observeExactEof
        exact h
      · exact h

theorem drain {turns : ℕ} (h : e.Unharmed) : (PipelinedEmit.drain turns e).Unharmed := by
  induction turns generalizing e with
  | zero => exact h
  | succ turns ih =>
    rw [PipelinedEmit.drain]
    split
    · split
      · exact h
      · next r e' htake =>
        obtain ⟨_, queue, rfl, _⟩ := PipelinedEmit.takeCompleted_some htake
        have htaken : Unharmed { e with completed := queue } := h
        dsimp only
        split
        · exact htaken.emit r
        · exact ih (htaken.emit r)
    · exact h

theorem record (h : e.Unharmed) (r : ReadTaskOutput) : (e.record r).Unharmed := by
  have hobserved : (if r.eof then e.observeReadEof r else e).Unharmed := by
    split
    · unfold PipelinedEmit.observeReadEof
      dsimp only
      split
      · exact h.observeEofUpperBound _
      · exact h.observeExactEof _
    · exact h
  unfold PipelinedEmit.record
  generalize (if r.eof then e.observeReadEof r else e) = e' at hobserved ⊢
  dsimp only
  split
  · exact hobserved.recordError rfl
  · split
    · exact (hobserved.emit r).drain
    · exact hobserved

end PipelinedEmit.Unharmed

theorem safe_readChunk_answers (hpos : 0 < count) :
    Safe (E := effects) x.answers (fun _ _ => True) (fun _ _ => True)
      (fun r _ => Harmless r ∧ ∀ read, r = .ok read → read.offset = offset ∧
        read.requested = count ∧ Served x.bytes read.offset read.requested ⟨read.eof, read.data⟩)
      (readChunk s x.fh offset count).run () := by
  have hadd : ∀ a b, Harmless (addU64 a b) := by
    intro a b err herr
    unfold addU64 at herr
    split at herr
    · cases herr
    · cases herr
      rfl
  unfold readChunk
  apply safe_bindExcept
  apply safe_except
  cases hstop : addU64 offset count with
  | error err =>
    refine ⟨?_, nofun⟩
    rintro _ ⟨⟩
    exact hadd _ _ err hstop
  | ok _ =>
    apply safe_bindExcept
    refine (ServedFile.ReadCall.handle offset count).safe.mono ?_
    rintro r _ ⟨hharmless, hvalue⟩
    cases r with
    | error err => exact ⟨fun err' heq => by cases heq; exact hharmless err rfl, nofun⟩
    | ok read =>
      obtain ⟨results, hresults, hvalue⟩ := hvalue read rfl
      have hserved := FileAnswers.readAnonymous hresults hvalue
      apply safe_bindExcept
      apply safe_except
      rw [hserved.validate hpos]
      apply safe_bindExcept
      apply safe_except
      cases hend : addU64 offset read.data.length with
      | error err =>
        refine ⟨?_, nofun⟩
        rintro _ ⟨⟩
        exact hadd _ _ err hend
      | ok _ =>
        refine ⟨nofun, ?_⟩
        rintro _ ⟨⟩
        exact ⟨rfl, rfl, hserved⟩

theorem ensures_readPool (hgranularity : 0 < s.readGranularity) (hrange : start + len < 2 ^ 64)
    (hfits : requirements.Fits x.bytes initial.length start len) {depth : ℕ} (hdepth : 0 < depth) :
    Ensures (E := effects) x.answers (fun _ => True)
      ((readPool s x.fh depth).run
        (.new start (start + len) s.readGranularity, .new initial start requirements)) ()
      fun y _ => requirements.Ends x.bytes initial start len (y.2.finish.map fun _ => y.2.out) := by
  refine Pool.ensures_run_safe (X := ℕ × ℕ) (fun _ _ _ => True) (fun _ _ _ => True)
    (fun range result _ => Harmless result ∧ ∀ read, result = .ok read → read.offset = range.1 ∧
      read.requested = range.2 ∧ Served x.bytes read.offset read.requested ⟨read.eof, read.data⟩)
    (fun y inFlight _ => y.2.Unharmed ∧ (y.2.firstError = none →
      Serving x.bytes requirements initial start len y inFlight))
    hdepth ?_ (fun _ _ _ _ => trivial) (fun _ _ => trivial) (fun _ _ _ _ _ _ => trivial)
    (fun _ _ _ _ h _ => h) ?_ ?_ ?_ ?_
  · exact ⟨nofun, fun _ => .new hfits hgranularity⟩
  · -- a range is handed out
    rintro y inFlight _ t y' ⟨hunharmed, hserving⟩ hnext
    obtain ⟨hnone, offset, count, scheduler, hhanded, rfl, rfl⟩ := readPool_next_some hnext
    obtain ⟨hserving', hpos, _⟩ := (hserving hnone).nextRange hhanded
    exact ⟨(offset, count), safe_readChunk_answers hpos, hunharmed, fun _ => hserving'⟩
  · intro y l range r w w' hI _
    exact ⟨hI, fun _ _ => trivial⟩
  · -- a reply is taken
    rintro ⟨scheduler, emit⟩ l range l' result _ ⟨hunharmed, hserving⟩ ⟨hharmless, hserved⟩
    cases result with
    | error err =>
      refine ⟨hunharmed.recordError (hharmless err rfl), ?_⟩
      intro hnone
      exact absurd hnone (PipelinedEmit.firstError_recordError _ _)
    | ok read =>
      refine ⟨hunharmed.record read, ?_⟩
      intro hnone
      obtain ⟨hoffset, hrequested, hread⟩ := hserved read rfl
      have hbefore := hserving (PipelinedEmit.record_ok hnone)
      rw [show range = (read.offset, read.requested) from
        Prod.ext hoffset.symm hrequested.symm] at hbefore
      exact (hbefore.absorb hrange hread).1
  · -- nothing is left to start
    rintro y _ ⟨hunharmed, hserving⟩ hnext
    cases hfirst : y.2.firstError with
    | some err =>
      refine .inr ⟨err, ?_, hunharmed err hfirst⟩
      rw [PipelinedEmit.finish, hfirst]
      rfl
    | none => exact .inl ((hserving hfirst).finished (readPool_next_none hnext hfirst))

theorem ensures_readHandleToBytesPipelinedInto (hgranularity : 0 < s.readGranularity)
    (hrange : start + len < 2 ^ 64) (hfits : requirements.Fits x.bytes initial.length start len) :
    Ensures (E := effects) x.answers (fun _ => True)
      (readHandleToBytesPipelinedInto s x.fh initial start len requirements).run ()
      fun r _ => requirements.Ends x.bytes initial start len r := by
  have hend : saturatingAdd start len = start + len := by
    unfold saturatingAdd
    omega
  unfold readHandleToBytesPipelinedInto
  apply ensures_bindExcept
  apply ensures_liftThread trivial
  intro _ slots _ _ _
  refine ⟨trivial, fun _ => ?_⟩
  rw [hend]
  apply ensures_bindExcept
  apply ensures_lift
  refine (ensures_readPool hgranularity hrange hfits (operationPipelineDepthForSlots_pos slots)).mono
    ?_
  rintro ⟨scheduler, emit⟩ _ _ hends
  apply ensures_bindExcept
  apply ensures_except trivial
  cases hfinish : emit.finish with
  | error err =>
    rw [hfinish] at hends
    exact hends
  | ok _ =>
    rw [hfinish] at hends
    exact ensures_pure trivial hends

/-- A buffer that cannot be reserved is not a mismatch. -/
theorem ReadRequirements.harmless_reserve (requirements : ReadRequirements) (len : ℕ) :
    Harmless (requirements.reserve len) := by
  intro err herr
  unfold ReadRequirements.reserve withCapacity at herr
  split at herr
  · cases herr
  · cases herr
    rfl

/-- Reserve a buffer and go on. -/
theorem ensures_reserve {f : Unit → ClientM Bytes} {m : ℕ}
    (h : Ensures (E := effects) x.answers (fun _ => True) (f ()).run ()
      fun r _ => requirements.Ends x.bytes initial start len r) :
    Ensures (E := effects) x.answers (fun _ => True)
      (liftM (requirements.reserve m) >>= f : ClientM Bytes).run ()
      fun r _ => requirements.Ends x.bytes initial start len r := by
  apply ensures_bindExcept
  apply ensures_except trivial
  cases hreserve : requirements.reserve m with
  | error err => exact .inr ⟨err, rfl, requirements.harmless_reserve m err hreserve⟩
  | ok _ => exact h

/-- Go on with as many requests in flight as there are slots. -/
theorem ensures_depth {f : ℕ → ClientM Bytes} {post : Except Error Bytes → Unit → Prop}
    (h : ∀ depth, Ensures (E := effects) x.answers (fun _ => True) (f depth).run () post) :
    Ensures (E := effects) x.answers (fun _ => True)
      (liftM (operationPipelineDepth s) >>= f : ClientM Bytes).run () post := by
  apply ensures_bindExcept
  apply ensures_liftThread trivial
  intro _ slots _ _ _
  exact ⟨trivial, fun _ => h _⟩

theorem ensures_readHandleToBytesAfterPrefix (hchunk : 0 < s.readChunkSize)
    (hgranularity : 0 < s.readGranularity) (hrange : start + len < 2 ^ 64)
    (htotal : initial.length + len < 2 ^ 64)
    (hfits : requirements.Fits x.bytes initial.length start len) :
    Ensures (E := effects) x.answers (fun _ => True)
      (readHandleToBytesAfterPrefix s x.fh initial start len requirements).run ()
      fun r _ => requirements.Ends x.bytes initial start len r := by
  have hsequential := @ensures_readHandleToBytesSequentialInto x s requirements initial start len
    hchunk hrange hfits
  unfold readHandleToBytesAfterPrefix
  apply ensures_bindExcept
  apply ensures_except trivial
  rw [addU64_eq htotal]
  apply ensures_reserve
  split
  · exact hsequential
  · apply ensures_depth
    intro depth
    split
    · exact hsequential
    · exact ensures_readHandleToBytesPipelinedInto hgranularity hrange hfits

theorem ensures_readHandleSingleChunkOrContinue (hchunk : 0 < s.readChunkSize) (hpos : 0 < len)
    (hend : start + len < 2 ^ 64) (hfits : requirements.Fits x.bytes 0 start len)
    (hexpected : ∀ e, requirements.expectedEof = some e → e.offset ≤ start + len) :
    Ensures (E := effects) x.answers (fun _ => True)
      (readHandleSingleChunkOrContinue s x.fh start len requirements).run ()
      fun r _ => requirements.Ends x.bytes [] start len r := by
  unfold readHandleSingleChunkOrContinue
  apply ensures_bindExcept
  apply (ServedFile.ReadCall.handle start len).ensures
  · intro err herr
    exact .inr ⟨err, rfl, herr⟩
  intro read results hresults hvalue
  have hserved := FileAnswers.readAnonymous hresults hvalue
  have hshort := hserved.short
  have hadd : addU64 start read.data.length = .ok (start + read.data.length) :=
    addU64_eq (by omega)
  apply ensures_bindExcept
  apply ensures_except trivial
  rw [hserved.validate hpos]
  apply ensures_bindExcept
  apply ensures_except trivial
  rw [hserved.within hfits]
  dsimp only
  split
  · next hdone =>
    apply ensures_bindExcept
    apply ensures_except trivial
    rw [hadd]
    exact ensures_check trivial (.inl (hserved.ended hdone hexpected))
  · next hretry =>
    have hmore : read.data.length < len ∧ ¬ read.eof = true := by
      simpa [readNeedsRetry] using hretry
    have hbelow : start + read.data.length < x.bytes.length :=
      Nat.lt_of_not_le fun hle => hmore.2 (hserved.eof.mpr hle)
    apply ensures_reserve
    apply ensures_bindExcept
    apply ensures_except trivial
    rw [hadd]
    refine (ensures_readHandleToBytesSequentialInto hchunk (by omega)
      (hserved.fits_rest hfits)).mono ?_
    intro r _ _ hr
    exact hr.imp_left (hserved.ended_append hbelow)

theorem ensures_readHandleToBytes (hchunk : 0 < s.readChunkSize)
    (hgranularity : 0 < s.readGranularity) (hrange : start + len < 2 ^ 64) (hpos : 0 < len)
    (hfits : requirements.Fits x.bytes 0 start len)
    (hexpected : ∀ e, requirements.expectedEof = some e → e.offset ≤ start + len) :
    Ensures (E := effects) x.answers (fun _ => True)
      (readHandleToBytes s x.fh start len requirements).run ()
      fun r _ => requirements.Ends x.bytes [] start len r := by
  have hfits' : requirements.Fits x.bytes ([] : Bytes).length start len := hfits
  unfold readHandleToBytes
  rw [if_neg (Nat.ne_of_gt hpos)]
  split
  · next hsingle =>
    have hsmall : len < 2 ^ 32 := by
      have hlt := s.config.readGranularity.toNat_lt
      unfold NfsSession.readGranularity at hsingle
      omega
    rw [asU32_eq hsmall]
    exact ensures_readHandleSingleChunkOrContinue hchunk hpos hrange hfits hexpected
  · apply ensures_reserve
    apply ensures_depth
    intro depth
    split
    · exact ensures_readHandleToBytesSequentialInto hchunk hrange hfits'
    · exact ensures_readHandleToBytesPipelinedInto hgranularity hrange hfits'

/-! ### Reading a path -/

theorem ensures_readRangeAnonymous (hchunk : 0 < s.readChunkSize)
    (hgranularity : 0 < s.readGranularity) (hrange : start + len < 2 ^ 64) (hpos : 0 < len)
    (hfits : requirements.Fits x.bytes 0 start len)
    (hexpected : ∀ e, requirements.expectedEof = some e → e.offset ≤ start + len) :
    Ensures (E := effects) x.answers (fun _ => True)
      (readRangeAnonymous s x.components start len requirements).run ()
      fun r _ => requirements.Ends x.bytes [] start len r := by
  unfold readRangeAnonymous
  split
  · next hsingle =>
    have hsmall : len < 2 ^ 32 := by
      have hlt := s.config.readGranularity.toNat_lt
      unfold NfsSession.readGranularity at hsingle
      omega
    dsimp only
    rw [asU32_eq hsmall]
    apply ensures_bindExcept
    apply (ServedFile.ReadCall.path start len).ensures
    · intro err herr
      exact .inr ⟨err, rfl, herr⟩
    intro read results hresults hvalue
    have hserved := FileAnswers.readPathAnonymous hresults hvalue
    have hshort := hserved.short
    apply ensures_bindExcept
    apply ensures_except trivial
    rw [hserved.validate hpos]
    apply ensures_bindExcept
    apply ensures_except trivial
    rw [hserved.within hfits]
    dsimp only
    split
    · next hdone =>
      apply ensures_bindExcept
      apply ensures_except trivial
      rw [addU64_eq (by omega)]
      exact ensures_check trivial (.inl (hserved.ended hdone hexpected))
    · -- the file is read again by its handle
      apply ensures_bindExcept
      apply ServedFile.ReadCall.lookup.ensures
      · intro err herr
        exact .inr ⟨err, rfl, herr⟩
      intro fh results hresults hvalue
      cases FileAnswers.lookupFileHandle hresults hvalue
      exact ensures_readHandleToBytes hchunk hgranularity hrange hpos hfits hexpected
  · next hlarge =>
    dsimp only
    apply ensures_bindExcept
    apply (ServedFile.ReadCall.pathHandle start s.readGranularity).ensures
    · intro err herr
      exact .inr ⟨err, rfl, herr⟩
    rintro ⟨fh, read⟩ results hresults hvalue
    obtain ⟨rfl, hread⟩ := FileAnswers.readPathAnonymousWithHandle hresults hvalue
    dsimp only at hread ⊢
    have hshort := hread.short
    have hserved : Served x.bytes start len read := hread.mono hgranularity (by omega)
    have hadd : addU64 start read.data.length = .ok (start + read.data.length) :=
      addU64_eq (by omega)
    apply ensures_bindExcept
    apply ensures_except trivial
    rw [hread.validate hgranularity]
    apply ensures_bindExcept
    apply ensures_except trivial
    rw [hserved.within hfits]
    dsimp only
    split
    · next heof =>
      apply ensures_bindExcept
      apply ensures_except trivial
      rw [hadd]
      have hdone : (!readNeedsRetry read len) = true := by simp [readNeedsRetry, heof]
      exact ensures_check trivial (.inl (heof ▸ hserved.ended hdone hexpected))
    · next heof =>
      have hbelow : start + read.data.length < x.bytes.length :=
        Nat.lt_of_not_le fun hle => heof (hserved.eof.mpr hle)
      apply ensures_bindExcept
      apply ensures_except trivial
      rw [hadd]
      apply ensures_bindExcept
      apply ensures_except trivial
      rw [subU64_eq (by omega)]
      refine (ensures_readHandleToBytesAfterPrefix hchunk hgranularity (by omega) (by omega)
        (hserved.fits_rest hfits)).mono ?_
      intro r _ _ hr
      exact hr.imp_left (hserved.ended_append hbelow)

end

/-! ### Mismatches -/

/-- A mismatch of a file and the size a caller supplied, as its documentation says: the size of
a smaller file, or none for a larger one. -/
def MismatchExact (F : Bytes) (size : ℕ) (r : Except Error Bytes) : Prop :=
  ∀ expected actual, r = .error (.fileSizeMismatch expected actual) → expected = size ∧
    (∀ a, actual = some a → a = F.length ∧ a < expected) ∧ (actual = none → expected < F.length)

theorem mismatchExact_of_harmless {F : Bytes} {size : ℕ} {r : Except Error Bytes}
    (h : Harmless r) : MismatchExact F size r := by
  intro expected actual hr
  cases h _ hr

theorem ReadRequirements.Ended.mismatchExact {F : Bytes} {size : ℕ} {limit : Option ℕ}
    {r : Except Error Bytes} (hpos : 0 < size)
    (h : (ReadRequirements.exact size limit).Ended F [] 0 size r) : MismatchExact F size r := by
  obtain ⟨observed, hobserved, hwithin, rfl⟩ := h
  intro expected actual hr
  obtain rfl | ⟨rfl, hlonger⟩ := hobserved
  · -- the end was seen, and it is not the expected one
    have hle := hwithin nofun
    rw [Nat.max_eq_left (Nat.zero_le _)] at hr
    change Except.map _ (if size ≠ F.length then _ else _) = _ at hr
    split at hr
    · next hne =>
      cases hr
      refine ⟨rfl, ?_, nofun⟩
      rintro _ ⟨⟩
      exact ⟨rfl, by omega⟩
    · cases hr
  · cases hr
    refine ⟨rfl, nofun, ?_⟩
    intro _
    omega

/-- The probe of a file that is expected to be empty. -/
theorem Served.mismatchExact {F : Bytes} {read : ReadData} (h : Served F 0 1 read)
    (hone : F.length ≠ 1) :
    MismatchExact F 0 ((validateEofExpectation (.callerSupplied 0) read.data.length read.eof).map
      fun _ => []) := by
  intro expected actual hr
  unfold validateEofExpectation at hr
  dsimp only [ExpectedEof.offset] at hr
  split at hr
  · next heof =>
    have hend := h.eof.mp heof
    have hshort := h.short
    split at hr
    · cases hr
    · next hne =>
      have hdata : read.data ≠ [] := fun hnil => hne (by rw [hnil]; rfl)
      have hstop := h.stop_le hdata
      omega
  · next heof =>
    have hend : ¬ F.length ≤ 0 + read.data.length := fun hle => heof (h.eof.mpr hle)
    rw [if_pos (Nat.zero_le _)] at hr
    cases hr
    refine ⟨rfl, nofun, ?_⟩
    intro _
    omega

namespace NfsClient

variable {client : NfsClient} {x : ServedFile} {s : NfsSession}

theorem ensures_getKnownSizeOnce {size : ℕ} (hchunk : 0 < s.readChunkSize)
    (hgranularity : 0 < s.readGranularity) (hsize : size < 2 ^ 64)
    (hcase : ¬ (size = 0 ∧ x.bytes.length = 1)) :
    Ensures (E := effects) x.answers (fun _ => True)
      (client.getKnownSizeOnce s x.components size).run () fun r _ =>
        MismatchExact x.bytes size r := by
  unfold getKnownSizeOnce
  apply ensures_bindExcept
  apply ensures_except trivial
  obtain ⟨hle, hok⟩ | ⟨err, herr, hlimited⟩ := client.ensureKnownSizeWithinLimit_cases size
  · rw [hok]
    dsimp only
    split
    · next hzero =>
      subst hzero
      apply ensures_bindExcept
      apply (ServedFile.ReadCall.path 0 1).ensures
      · intro err herr
        apply mismatchExact_of_harmless
        rintro _ ⟨⟩
        exact herr
      intro read results hresults hvalue
      have hserved := FileAnswers.readPathAnonymous hresults hvalue
      apply ensures_bindExcept
      apply ensures_except trivial
      rw [hserved.validate Nat.one_pos]
      exact ensures_check trivial (hserved.mismatchExact fun hone => hcase ⟨rfl, hone⟩)
    · next hpos =>
      have hfits : (ReadRequirements.exact size client.maxBufferedReadSize).Fits x.bytes 0 0 size := by
        intro l hl
        have := hle l hl
        rw [length_slice]
        omega
      refine (ensures_readRangeAnonymous hchunk hgranularity (by omega) (by omega) hfits ?_).mono ?_
      · rintro _ ⟨⟩
        exact Nat.le_of_eq (Nat.zero_add size).symm
      · intro r _ _ hr
        obtain hended | ⟨err, rfl, herr⟩ := hr
        · exact hended.mismatchExact (by omega)
        · apply mismatchExact_of_harmless
          rintro _ ⟨⟩
          exact herr
  · rw [herr]
    apply mismatchExact_of_harmless
    rintro _ ⟨⟩
    unfold ensureKnownSizeWithinLimit at herr
    split at herr
    · split at herr
      · cases herr
        rfl
      · cases herr
    · cases herr

end NfsClient

/-- **What a mismatch says.**  Whatever the chunk sizes, the limit, the number of slots, the
order of the replies and their lengths, and whatever fails: a mismatch that is reported with a
size has the size of the file, which is smaller than the one supplied, and one that is reported
without a size is that of a larger file.  The one exception is a file of a single byte that is
expected to be empty. -/
theorem getKnownSize_mismatch_exact (client : NfsClient) (x : ServedFile) (rawPath : String)
    (size : ℕ) (hpath : NfsPath.file rawPath = .ok ⟨x.components⟩) (hsize : size < 2 ^ 64)
    (hcase : ¬ (size = 0 ∧ x.bytes.length = 1)) :
    Ensures (E := effects) x.answers (fun _ => True) (client.getKnownSize rawPath size).run ()
      fun r _ => MismatchExact x.bytes size r := by
  unfold NfsClient.getKnownSize
  rw [hpath]
  apply ensures_bindExcept
  apply ensures_except trivial
  refine ensures_retryingSessionOperation (fun _ => True) trivial (fun _ _ => trivial) ?_ ?_
  · rintro _ snapshot _ _ ⟨hchunk, hgranularity⟩
    refine ⟨trivial, ?_⟩
    refine (NfsClient.ensures_getKnownSizeOnce hchunk hgranularity hsize hcase).mono ?_
    intro r _ _ hr
    exact ⟨hr, fun _ _ _ => trivial⟩
  · intro generation attempts cause _ r _ _ hharmless
    refine ⟨trivial, ?_⟩
    rintro err rfl
    apply mismatchExact_of_harmless
    rintro _ ⟨⟩
    exact hharmless err rfl

theorem getKnownSize_mismatch_exact_threeBytes :
    Ensures (E := effects) threeBytes.answers (fun _ => True)
      (NfsClient.getKnownSize ⟨some 3⟩ "/f" 0).run () fun r _ => MismatchExact [1, 2, 3] 0 r :=
  getKnownSize_mismatch_exact ⟨some 3⟩ threeBytes "/f" 0 (by decide +kernel) (by decide)
    (by decide)

/-! ### The exception -/

/-- A file of one byte. -/
def oneByte : ServedFile where
  components := ["f"]
  fh := ⟨[7]⟩
  bytes := [9]
  handle_le := threeBytes.handle_le
  size_lt := by decide

/-- The results of a `READ` by path. -/
def oneByteResults : List NfsOp → Option (List OpRes)
  | [.putFh _, .lookup _, .read stateid offset count] =>
      some [.putFh, .lookup, oneByte.answer (.read stateid offset count)]
  | _ => none

/-- A server of the file that answers a `READ` by path in full. -/
def oneByteServer : Player effects Unit where
  answer
    | .exchange _ _ ops, _ =>
        match oneByteResults ops with
        | none => none
        | some results =>
          let replies : Replies :=
            ⟨.sequence (Vector.replicate 16 0) 1 0 0 0 0 :: results, none⟩
          if hshort : replies.length < 2 ^ 32 then
            some (.ok (⟨Vector.replicate 16 0, 1, 0⟩,
              CompoundReply.encode ⟨⟨[], Opaque.short_nil⟩, replies, hshort⟩), ())
          else none
    | .currentSession, _ => some (⟨smallReads, 0⟩, ())
    | _, _ => none
  choose _ := (0, ())

theorem oneByteResults_truthful {ops : List NfsOp} {results : List OpRes}
    (h : oneByteResults ops = some results) :
    Replies.Answers (ops.map NfsOp.opcode) ⟨results, none⟩ ∧ oneByte.Truthful ops results := by
  unfold oneByteResults at h
  split at h
  · next fh name stateid offset count =>
    cases h
    refine ⟨⟨rfl, rfl, rfl, rfl, rfl⟩, ?_⟩
    intro p hp honFile
    simp only [List.zip_cons_cons, List.zip_nil_right, List.mem_cons, List.not_mem_nil,
      or_false] at hp
    rcases hp with rfl | rfl | rfl
    · cases honFile
    · cases honFile
    · exact ServedFile.fileAnswers_answer honFile
  · cases h

theorem oneByteServer_plays : oneByteServer.Plays oneByte.answers fun _ => () where
  answer e c r c' h := by
    cases e with
    | exchange s tag ops =>
      simp only [oneByteServer] at h
      split at h
      · cases h
      · next results hresults =>
        split at h
        · cases h
          obtain ⟨hans, htruthful⟩ := oneByteResults_truthful hresults
          refine ⟨fun err heq => (by cases heq), ?_⟩
          rintro _ _ n tail ⟨⟩ _
          exact .inr ⟨⟨results, none⟩, ⟨_, 0, 0, 0, rfl, rfl⟩, hans, htruthful⟩
        · cases h
    | currentSession =>
      cases h
      exact ⟨by decide, by decide⟩
    | _ => cases h
  choose _ := rfl

/-- The probe of an empty file reads one byte.  A file of one byte ends there, and its size is
reported as if it were smaller than expected. -/
theorem getKnownSize_mismatch_larger :
    ∃ result, Relation.ReflTransGen (Step oneByte.answers)
      ((NfsClient.getKnownSize ⟨none⟩ "/f" 0).run, ()) (.ret result, ()) ∧
      result = .error (.fileSizeMismatch 0 (some 1)) ∧ ¬ MismatchExact oneByte.bytes 0 result := by
  obtain ⟨result, -, hrun, hresult⟩ := Prog.exists_run_of_play oneByteServer_plays 40
    (NfsClient.getKnownSize ⟨none⟩ "/f" 0).run ()
    (fun result _ => result = .error (.fileSizeMismatch 0 (some 1))) (by decide +kernel)
  have hmismatch : result = .error (.fileSizeMismatch 0 (some 1)) := of_decide_eq_true hresult
  refine ⟨result, hrun, hmismatch, ?_⟩
  intro hexact
  obtain ⟨_, hsome, _⟩ := hexact 0 (some 1) hmismatch
  exact absurd (hsome 1 rfl).2 (by decide)

end NfsCrust
