import NfsCrust.Client
import NfsCrust.Lib.Tracked
import NfsCrust.Lib.Must

/-!
# Rules for session calls

What a session call does against any world, as rules of `NfsCrust.Lib.Runs`.  A
call is one exchange, repeated as long as the reply is a transient status that may
be retried; what it returns is what its decoder makes of the last response.

## Main definitions

* `SessionCall.received` — what a call makes of one response.

## Main results

* `safe_compoundDecodeDetailed`, `safe_call` — the rules for a call.
* `ensures_retryingSessionOperation`, `must_retryingSessionOperation` — the rules for the
  attempts of an operation.
-/

namespace NfsCrust

open Interaction Thread

/-- What a call makes of the response to its exchange. -/
def SessionCall.received (call : SessionCall) :
    Except Error (SlotUse × Bytes) → Except CompoundDecodeError call.Result
  | .error err => .error (.ofError err)
  | .ok (slot, response) =>
    match decodeSequenceResult response slot.sessionid slot.sequenceid slot.slotid with
    | .error err => .error (.ofError err)
    | .ok _ => call.decode response

/-- A result was decoded from a response. -/
theorem SessionCall.received_ok {call : SessionCall} {resp : Except Error (SlotUse × Bytes)}
    {result : call.Result} (h : call.received resp = .ok result) :
    ∃ slot response, resp = .ok (slot, response) ∧ call.decode response = .ok result := by
  match resp, h with
  | .error err, h => cases h
  | .ok (slot, response), h =>
    unfold SessionCall.received at h
    dsimp only at h
    split at h
    · cases h
    · exact ⟨slot, response, rfl, h⟩

/-- An error that carries no position is not retried. -/
@[simp] theorem NfsSession.retryStatus?_ofError (ops : List NfsOp) (retryTransients : Bool)
    (err : Error) : retryStatus? ops retryTransients (.ofError err) = none := by
  simp [retryStatus?, transientCompoundRetryIsSafe, CompoundDecodeError.ofError]

/-- A request that keeps to the negotiated limits is one exchange. -/
theorem NfsSession.compoundDecodeOnce_eq {s : NfsSession} {call : SessionCall}
    (h : s.validateCompoundRequest call.tag (call.ops s) = .ok ()) :
    s.compoundDecodeOnce call
      = Thread.ask (E := effects) (.exchange s call.tag (call.ops s))
          fun resp => .ret (call.received resp) := by
  unfold compoundDecodeOnce compoundRawOnce
  rw [h]
  refine congrArg (Thread.ask (E := effects) _) (funext fun resp => ?_)
  match resp with
  | .error err => rfl
  | .ok (slot, response) =>
    change Thread.bind (Thread.bind (.ret (decodeSequenceResult response slot.sessionid
      slot.sequenceid slot.slotid)) (ExceptT.bindCont fun _ => pure response)) _ = _
    simp only [SessionCall.received]
    cases decodeSequenceResult response slot.sessionid slot.sequenceid slot.slotid with
    | error err => rfl
    | ok _ => rfl

theorem NfsSession.fusedPutViable_eq {s : NfsSession} {n : ℕ}
    (h : fusedPutSizeViable n s.writeChunkSize = true) :
    s.fusedPutViable n = perform (.fusedPutSupported s) := if_pos h

theorem NfsSession.fusedPutViable_of_large {s : NfsSession} {n : ℕ}
    (h : fusedPutSizeViable n s.writeChunkSize = false) : s.fusedPutViable n = return false :=
  if_neg (Bool.not_eq_true _ ▸ h)

theorem NfsSession.noteFusedPutFailure_eq {s : NfsSession} {err : Error}
    (h : rejectsFusedShape err = true) :
    s.noteFusedPutFailure err = perform (.latchFusedPutOff s) := if_pos h

theorem NfsSession.noteFusedPutFailure_of_accepted {s : NfsSession} {err : Error}
    (h : rejectsFusedShape err = false) : s.noteFusedPutFailure err = return () :=
  if_neg (Bool.not_eq_true _ ▸ h)

section

variable {W : Type} {serve : (e : Effect) → W → e.Response → W → Prop} {rely guar : W → W → Prop}
  {w : W} {s : NfsSession} {call : SessionCall}

theorem safe_perform {e : Effect} {post : e.Response → W → Prop}
    (h : ∀ w₁ r w₂, rely w w₁ → serve e w₁ r w₂ → guar w₁ w₂ ∧ post r w₂) :
    Safe (E := effects) serve rely guar post (perform e) w := h

theorem safe_compoundDecodeOnce {post : Except CompoundDecodeError call.Result → W → Prop}
    (hinvalid : ∀ err, s.validateCompoundRequest call.tag (call.ops s) = .error err →
      post (.error (.ofError err.notSent)) w)
    (hserve : ∀ w₁ resp w₂, s.validateCompoundRequest call.tag (call.ops s) = .ok () → rely w w₁ →
      serve (.exchange s call.tag (call.ops s)) w₁ resp w₂ →
      guar w₁ w₂ ∧ post (call.received resp) w₂) :
    Safe (E := effects) serve rely guar post (s.compoundDecodeOnce call) w := by
  cases hvalid : s.validateCompoundRequest call.tag (call.ops s) with
  | error err =>
    unfold NfsSession.compoundDecodeOnce NfsSession.compoundRawOnce
    rw [hvalid]
    exact hinvalid err hvalid
  | ok _ =>
    rw [NfsSession.compoundDecodeOnce_eq hvalid]
    exact fun w₁ resp w₂ => hserve w₁ resp w₂ hvalid

/-- **The rule for a call.**  `P` holds whenever the request is sent, and again after
a transient status that lets it be sent once more. -/
theorem safe_compoundDecodeDetailed (post : Except CompoundDecodeError call.Result → W → Prop)
    {retryTransients : Bool} {left : ℕ} (P : W → Prop) (hP : P w)
    (hrely : ∀ w w', P w → rely w w' → P w')
    (hinvalid : ∀ w err, P w → s.validateCompoundRequest call.tag (call.ops s) = .error err →
      post (.error (.ofError err.notSent)) w)
    (hserve : ∀ w₁ resp w₂, s.validateCompoundRequest call.tag (call.ops s) = .ok () → P w₁ →
      serve (.exchange s call.tag (call.ops s)) w₁ resp w₂ →
      guar w₁ w₂ ∧ post (call.received resp) w₂ ∧ ∀ err, call.received resp = .error err →
        (NfsSession.retryStatus? (call.ops s) retryTransients err).isSome → P w₂)
    (hsleep : ∀ status attempt w₁ w₂, P w₁ →
      serve (.sleepBeforeTransientRetry status attempt) w₁ () w₂ → guar w₁ w₂ ∧ P w₂) :
    Safe (E := effects) serve rely guar (fun x w => post x.1 w)
      (s.compoundDecodeDetailed call retryTransients left) w := by
  induction left generalizing w with
  | zero =>
    refine safe_bind (safe_compoundDecodeOnce (fun err => hinvalid w err hP) ?_)
    intro w₁ resp w₂ hvalid hrely₁ hresp
    obtain ⟨hguar, hpost, -⟩ := hserve w₁ resp w₂ hvalid (hrely _ _ hP hrely₁) hresp
    exact ⟨hguar, hpost⟩
  | succ left ih =>
    refine safe_bind (safe_compoundDecodeOnce (fun err hinv => ?_) ?_)
    · dsimp only
      rw [NfsSession.retryStatus?_ofError]
      exact hinvalid w err hP hinv
    · intro w₁ resp w₂ hvalid hrely₁ hresp
      obtain ⟨hguar, hpost, hretry⟩ := hserve w₁ resp w₂ hvalid (hrely _ _ hP hrely₁) hresp
      refine ⟨hguar, ?_⟩
      cases hrec : call.received resp with
      | ok result =>
        rw [hrec] at hpost
        exact hpost
      | error err =>
        rw [hrec] at hpost
        dsimp only
        split
        · exact hpost
        · next status hstatus =>
          have hP₂ : P w₂ := hretry err hrec (by rw [hstatus]; rfl)
          refine safe_bind (safe_perform fun w₃ _ w₄ hrely₃ hslept => ?_)
          obtain ⟨hguar', hP₄⟩ := hsleep _ _ w₃ w₄ (hrely _ _ hP₂ hrely₃) hslept
          exact ⟨hguar', ih hP₄⟩

section

variable {X : Type} {track : X → X → W → W → Prop} {x : X}

theorem tracked_compoundDecodeOnce {result : X → Except CompoundDecodeError call.Result → Prop}
    (hinvalid : ∀ err, s.validateCompoundRequest call.tag (call.ops s) = .error err →
      result x (.error (.ofError err.notSent)))
    (hserve : ∀ w resp w', s.validateCompoundRequest call.tag (call.ops s) = .ok () →
      serve (.exchange s call.tag (call.ops s)) w resp w' →
      ∃ x', track x x' w w' ∧ result x' (call.received resp)) :
    Tracked (E := effects) serve track result x (s.compoundDecodeOnce call) := by
  cases hvalid : s.validateCompoundRequest call.tag (call.ops s) with
  | error err =>
    unfold NfsSession.compoundDecodeOnce NfsSession.compoundRawOnce
    rw [hvalid]
    exact hinvalid err hvalid
  | ok _ =>
    rw [NfsSession.compoundDecodeOnce_eq hvalid]
    exact fun w resp w' => hserve w resp w' hvalid

/-- **The rule for a call under a label.**  While the request is sent again and again, the label
stays. -/
theorem tracked_call (result : X → Except Error call.Result → Prop)
    (hinvalid : ∀ err, s.validateCompoundRequest call.tag (call.ops s) = .error err →
      result x (.error err.notSent))
    (hserve : ∀ w resp w', s.validateCompoundRequest call.tag (call.ops s) = .ok () →
      serve (.exchange s call.tag (call.ops s)) w resp w' → ∃ x', track x x' w w' ∧
        result x' ((call.received resp).mapError CompoundDecodeError.error) ∧
        ∀ err, call.received resp = .error err →
          (NfsSession.retryStatus? (call.ops s) call.retryTransients err).isSome → x' = x)
    (hsleep : ∀ status attempt w w',
      serve (.sleepBeforeTransientRetry status attempt) w () w' → track x x w w') :
    Tracked (E := effects) serve track result x (s.call call).run := by
  apply Tracked.bind
  induction s.transientRetries with
  | zero =>
    apply Tracked.bind
    apply tracked_compoundDecodeOnce hinvalid
    intro w resp w' hvalid hresp
    obtain ⟨x', htrack, hresult, -⟩ := hserve w resp w' hvalid hresp
    exact ⟨x', htrack, hresult⟩
  | succ left ih =>
    apply Tracked.bind
    apply tracked_compoundDecodeOnce
    · intro err hinv
      dsimp only
      rw [NfsSession.retryStatus?_ofError]
      exact hinvalid err hinv
    · intro w resp w' hvalid hresp
      obtain ⟨x', htrack, hresult, hretry⟩ := hserve w resp w' hvalid hresp
      refine ⟨x', htrack, ?_⟩
      cases hrec : call.received resp with
      | ok value =>
        rw [hrec] at hresult
        exact hresult
      | error err =>
        rw [hrec] at hresult
        dsimp only
        split
        · exact hresult
        · next status hstatus =>
          -- the request is sent again, under the same label
          have hsame := hretry err hrec (by rw [hstatus]; rfl)
          subst hsame
          intro w₁ _ w₂ hslept
          exact ⟨_, hsleep _ _ w₁ w₂ hslept, ih⟩

end

/-- The rule for a call. -/
theorem safe_call {post : Except Error call.Result → W → Prop} (P : W → Prop) (hP : P w)
    (hrely : ∀ w w', P w → rely w w' → P w')
    (hinvalid : ∀ w err, P w → s.validateCompoundRequest call.tag (call.ops s) = .error err →
      post (.error err.notSent) w)
    (hserve : ∀ w₁ resp w₂, s.validateCompoundRequest call.tag (call.ops s) = .ok () → P w₁ →
      serve (.exchange s call.tag (call.ops s)) w₁ resp w₂ →
      guar w₁ w₂ ∧ post ((call.received resp).mapError CompoundDecodeError.error) w₂ ∧
        ∀ err, call.received resp = .error err →
          (NfsSession.retryStatus? (call.ops s) call.retryTransients err).isSome → P w₂)
    (hsleep : ∀ status attempt w₁ w₂, P w₁ →
      serve (.sleepBeforeTransientRetry status attempt) w₁ () w₂ → guar w₁ w₂ ∧ P w₂) :
    Safe (E := effects) serve rely guar post (s.call call).run w :=
  safe_bind (safe_compoundDecodeDetailed
    (fun r w => post (r.mapError CompoundDecodeError.error) w) P hP hrely hinvalid hserve hsleep)

/-- A call that is answered, and whose every answer decodes, is one exchange. -/
theorem finishes_call {post : Except Error call.Result → W → Prop}
    (hvalid : s.validateCompoundRequest call.tag (call.ops s) = .ok ())
    (hanswer : ∃ resp w', serve (.exchange s call.tag (call.ops s)) w resp w')
    (hserve : ∀ resp w', serve (.exchange s call.tag (call.ops s)) w resp w' →
      ∃ result, call.received resp = .ok result ∧ post (.ok result) w') :
    Finishes (E := effects) serve post 1 (s.call call).run w := by
  have honce : Finishes (E := effects) serve
      (fun r w' => ∃ result, r = .ok result ∧ post (.ok result) w') 1
      (s.compoundDecodeOnce call) w := by
    rw [NfsSession.compoundDecodeOnce_eq hvalid]
    exact ⟨hanswer, hserve⟩
  refine Finishes.bind ?_
  cases s.transientRetries with
  | zero =>
    refine Finishes.bind (honce.mono ?_)
    rintro _ _ ⟨result, rfl, hpost⟩
    exact hpost
  | succ left =>
    refine Finishes.bind (honce.mono ?_)
    rintro _ _ ⟨result, rfl, hpost⟩
    exact hpost

end

/-! ### Attempts -/

section

variable {W : Type} {serve : (e : Effect) → W → e.Response → W → Prop} {always : W → Prop}
  {w : W} {α : Type}

theorem ensures_perform {e : Effect} {post : Except Error e.Response → W → Prop} (hw : always w)
    (h : ∀ r w', serve e w r w' → always w' ∧ post (.ok r) w') :
    Ensures (E := effects) serve always (liftM (perform e) : ClientM e.Response).run w post :=
  ensures_liftThread hw (safe_perform fun _ r w' heq hserve =>
    ⟨(h r w' (heq ▸ hserve)).1, fun _ => (h r w' (heq ▸ hserve)).2⟩)

/-- The rule for the attempts of an operation: `P` holds at the start of each. -/
theorem ensures_retryingSessionOperation {operation : ClientSession → ClientM α}
    {post : Except Error α → W → Prop} (P : W → Prop) (hP : P w) (halways : ∀ w, P w → always w)
    (hoperation : ∀ w snapshot w₁, P w → serve .currentSession w snapshot w₁ →
      always w₁ ∧ Ensures (E := effects) serve always (operation snapshot).run w₁
        fun r w' => post r w' ∧ ∀ err, r = .error err → err.requiresSessionRebuild → P w')
    (hreconnect : ∀ generation n cause w r w', P w →
      serve (.reconnect generation n cause) w r w' →
        P w' ∧ ∀ err, r = .error err → post (.error err) w') :
    Ensures (E := effects) serve always (retryingSessionOperation operation).run w post := by
  refine ensures_loopExcept (fun _ => P) hP (fun _ => halways) fun attempts w hw => ?_
  refine ensures_bindExcept (ensures_perform (halways w hw) fun snapshot w₁ hserve => ?_)
  obtain ⟨hw₁, hensures⟩ := hoperation w snapshot w₁ hw hserve
  refine ⟨hw₁, ensures_bindExcept (ensures_attempt (hensures.mono fun r w₂ hw₂ hr => ?_))⟩
  cases r with
  | ok result => exact ensures_pure hw₂ hr.1
  | error err =>
    dsimp only
    split
    · next hreconn =>
      have hP₂ : P w₂ := hr.2 err rfl (by
        simp only [shouldReconnect, Bool.and_eq_true] at hreconn
        exact hreconn.1)
      refine ensures_bindExcept (ensures_loopExcept (fun _ => P) hP₂ (fun _ => halways) ?_)
      intro n w₃ hw₃
      refine ensures_bindExcept (ensures_perform (halways w₃ hw₃) fun r w₄ hserve => ?_)
      obtain ⟨hw₄, herr⟩ := hreconnect _ _ _ w₃ r w₄ hw₃ hserve
      refine ⟨halways w₄ hw₄, ?_⟩
      match r, herr with
      | .ok (), _ => exact ensures_pure (halways w₄ hw₄) (ensures_pure (halways w₄ hw₄) hw₄)
      | .error err, herr =>
        dsimp only
        split
        · exact ensures_pure (halways w₄ hw₄) hw₄
        · exact ensures_throw (halways w₄ hw₄) (herr err rfl)
    · exact ensures_throw hw₂ hr.1

/-- Check and return. -/
theorem ensures_check {x : Except Error Unit} {a : α} {post : Except Error α → W → Prop}
    (hw : always w) (h : post (x.map fun _ => a) w) :
    Ensures (E := effects) serve always (do x; return a : ClientM α).run w post := by
  apply ensures_bindExcept
  apply ensures_except hw
  cases x with
  | ok _ => exact ensures_pure hw h
  | error err => exact h

theorem must_perform {e : Effect} {post : Except Error e.Response → W → Prop}
    (hanswer : ∃ r w', serve e w r w') (h : ∀ r w', serve e w r w' → post (.ok r) w') :
    Must (E := effects) serve post (liftM (perform e) : ClientM e.Response).run w :=
  must_thread (n := 1) ⟨hanswer, fun r w' hserve => .ret (h r w' hserve)⟩

/-- Check and return. -/
theorem must_check {x : Except Error Unit} {a : α} {post : Except Error α → W → Prop}
    (h : post (x.map fun _ => a) w) :
    Must (E := effects) serve post (do x; return a : ClientM α).run w := by
  refine must_bindExcept (must_except ?_)
  cases x with
  | ok _ => exact must_pure h
  | error err => exact h

/-- The rule for an operation that does not ask for another session. -/
theorem must_retryingSessionOperation {operation : ClientSession → ClientM α}
    {post : Except Error α → W → Prop}
    (hsession : ∃ snapshot w', serve .currentSession w snapshot w')
    (h : ∀ snapshot w', serve .currentSession w snapshot w' → Must (E := effects) serve
      (fun r w'' => post r w'' ∧ ∀ err, r = .error err → err.requiresSessionRebuild = false)
      (operation snapshot).run w') :
    Must (E := effects) serve post (retryingSessionOperation operation).run w := by
  refine must_loopExcept (fun _ _ w' => w' = w) (n := 0) rfl fun _ attempts w' heq => ?_
  subst heq
  refine must_bindExcept (must_perform hsession fun snapshot w₁ hserve => ?_)
  refine must_bindExcept (must_attempt ((h snapshot w₁ hserve).mono fun r w₂ hr => ?_))
  cases r with
  | ok result => exact must_pure hr.1
  | error err =>
    have hkeep : shouldReconnect err attempts = false := by
      rw [shouldReconnect, hr.2 err rfl, Bool.false_and]
    dsimp only
    rw [hkeep]
    exact .ret hr.1

end

end NfsCrust
