import NfsCrust.Limits
import NfsCrust.Server.Keeps

/-!
# Rules for the parts of a put

How a property passes through the parts of a put.  Each rule asks what is known after
the compounds of a part and what follows from that, so that a property of a put is shown
without looking at its code again.

## Main results

* `Environment.safe_closePublish_of` — a close and publish, with its resumption.
* `Environment.safe_tryPutFused_of`, `Environment.safe_putFusedFrom_of` — the fused put.
* `Environment.ensures_putMulti_of`, `Environment.ensures_putOnce_of`, `Environment.ensures_put_of` —
  an attempt, and the attempts.
-/

namespace NfsCrust

open Interaction Thread

namespace Environment

variable {S : Type} {env : Environment S} {s : NfsSession} {w : World S}
  {guar : World S → World S → Prop}

/-- The rule for a close and publish: `Q` is what is known after its compound. -/
theorem safe_closePublish_of {opened : OpenedFile}
    {parent : List String} {fromName toName : String} {size : ℕ} {verifier : Option Verifier}
    {createNew : Bool} (post : Except Error Unit → World S → Prop)
    (Q : Except CompoundDecodeError Unit → World S → Prop)
    (hguar : ∀ err w, Q (.error err) w → guar w w)
    (hdone : ∀ r w, Q r w → post (r.mapError CompoundDecodeError.error) w)
    (hresume : ∀ err left w, Q (.error err) w → (NfsSession.resumeStatus? ((SessionCall.closePublish
      opened parent fromName toName size verifier createNew).ops s) err).isSome →
      Safe (E := effects) env.serve Eq guar post
        (s.publishAfterClose opened.fh parent fromName toName createNew left).run w)
    (hcall : Safe (E := effects) env.serve Eq guar (fun x w' => Q x.1 w')
      (s.compoundDecodeDetailed (.closePublish opened parent fromName toName size verifier createNew)
        true s.transientRetries) w) :
    Safe (E := effects) env.serve Eq guar (fun r w' => post (r.map fun _ => ()) w')
      (s.closePublish opened parent fromName toName size verifier createNew).run w := by
  refine safe_bindExcept (safe_lift (hcall.mono fun x w₁ hx => ?_))
  have hresumed : Safe (E := effects) env.serve Eq guar post (s.resumePublish opened parent fromName
      toName createNew ((SessionCall.closePublish opened parent fromName toName size verifier
        createNew).ops s) x).run w₁ := by
    match x, hx with
    | (.ok (), left), hx => exact hdone _ _ hx
    | (.error err, left), hx =>
      unfold NfsSession.resumePublish
      dsimp only
      split
      · next status left hstatus =>
        refine safe_bindExcept (safe_lift (safe_perform ?_))
        rintro w₂ _ w₃ rfl rfl
        exact ⟨hguar err _ hx, hresume err left _ hx (by rw [hstatus]; rfl)⟩
      · exact hdone _ _ hx
  refine safe_bindExcept (hresumed.mono fun r w₂ hr => ?_)
  cases r with
  | ok _ => exact hr
  | error err => exact hr

/-! ### The fused put -/

/-- The question whether the fused put is possible has no effect. -/
theorem safe_fusedPutViable {post : Bool → World S → Prop} {n : ℕ}
    (hguar : guar w w) (h : ∀ viable, post viable w) :
    Safe (E := effects) env.serve Eq guar post (s.fusedPutViable n) w := by
  cases hsize : NfsSession.fusedPutSizeViable n s.writeChunkSize with
  | true =>
    rw [NfsSession.fusedPutViable_eq hsize]
    refine safe_perform ?_
    rintro w₁ viable w₂ rfl ⟨-, -, rfl⟩
    exact ⟨hguar, h viable⟩
  | false =>
    rw [NfsSession.fusedPutViable_of_large hsize]
    exact h false

/-- The rule for a fused put: `Q owner` is what is known after its compound. -/
theorem safe_tryPutFused_of {parent : List String} {tempName name : String} {data : Bytes}
    {createNew : Bool} {post : Except Error (Option (OpenOutcome (ℕ × OpenedFile))) → World S → Prop}
    (Q : Bytes → Except CompoundDecodeError (OpenOutcome (StateId × FileHandle × WriteData)) →
      World S → Prop) (hguar : guar w w) (hnone : post (.ok none) w)
    (hcall : ∀ owner, s.validateCompoundRequest "put-fused"
        ((SessionCall.putFused owner parent tempName name data createNew).ops s) = .ok () →
      Safe (E := effects) env.serve Eq guar (fun x w' => Q owner x.1 w') (s.compoundDecodeDetailed
        (.putFused owner parent tempName name data createNew) false s.transientRetries) w)
    (herror : ∀ owner err w', s.validateCompoundRequest "put-fused"
        ((SessionCall.putFused owner parent tempName name data createNew).ops s) = .ok () →
      Q owner (.error err) w' →
      (NfsSession.rejectsFusedShape err.error = false → post (.error err.error) w') ∧
      guar w' { w' with latched := s :: w'.latched } ∧
      (NfsSession.rejectsFusedShape err.error = true →
        post (.error err.error) { w' with latched := s :: w'.latched }))
    (hexists : ∀ owner w', Q owner (.ok .exists) w' → post (.ok (some .exists)) w')
    (hopened : ∀ owner stateid fh write w', s.validateCompoundRequest "put-fused"
        ((SessionCall.putFused owner parent tempName name data createNew).ops s) = .ok () →
      Q owner (.ok (.opened (stateid, fh, write))) w' →
      (write.count.toNat = data.length →
        post (.ok (some (.opened (write.count.toNat, { fh, stateid, closeSeqid := 1 })))) w') ∧
      (write.count.toNat ≠ data.length → ∀ message, post (.error (.protocol message)) w')) :
    Safe (E := effects) env.serve Eq guar post
      (s.tryPutFused parent tempName name data createNew).run w := by
  refine safe_bindExcept (safe_lift (safe_fusedPutViable hguar fun viable => ?_))
  dsimp only
  split
  · refine safe_bindExcept (safe_lift (safe_perform ?_))
    rintro w₁ owner w₂ rfl rfl
    refine ⟨hguar, ?_⟩
    dsimp only
    split
    · next hfits =>
      have hvalid := NfsSession.validate_of_fits hfits
      refine safe_bindExcept (safe_lift ((hcall owner hvalid).mono ?_))
      rintro ⟨out, left⟩ w₁ hout
      match out, hout with
      | .ok .exists, hout => exact hexists owner w₁ hout
      | .ok (.opened (stateid, fh, write)), hout =>
        obtain ⟨hall, hshort⟩ := hopened owner stateid fh write w₁ hvalid hout
        refine safe_bindExcept ?_
        unfold NfsSession.fusedOutcome
        dsimp only
        split
        · next hcount => exact hshort hcount _
        · next hcount => exact hall (not_not.mp hcount)
      | .error err, hout =>
        obtain ⟨haccepted, hlatch, hrejected⟩ := herror owner err w₁ hvalid hout
        refine safe_bindExcept (safe_bindExcept (safe_lift ?_))
        cases hrejects : NfsSession.rejectsFusedShape err.error with
        | true =>
          rw [NfsSession.noteFusedPutFailure_eq hrejects]
          refine safe_perform ?_
          rintro w₂ _ w₃ rfl rfl
          exact ⟨hlatch, hrejected hrejects⟩
        | false =>
          rw [NfsSession.noteFusedPutFailure_of_accepted hrejects]
          exact haccepted hrejects
    · exact hnone
  · exact hnone

/-- The rule for the attempts of a fused put: `P` holds before each, and `T tempName` is what
is known after one. -/
theorem safe_putFusedFrom_of {parent : List String} {name rawPath : String} {data : Bytes}
    {mode : PutMode} {n : ℕ} {post : Except Error (Option Unit) → World S → Prop} (P : World S → Prop)
    (T : String → Except Error (Option (OpenOutcome (ℕ × OpenedFile))) → World S → Prop) (hP : P w)
    (hnone : ∀ w, P w → guar w w ∧ post (.ok none) w)
    (htry : ∀ tempName w, P w → Safe (E := effects) env.serve Eq guar (T tempName)
      (s.tryPutFused parent tempName name data mode.createNew).run w)
    (hopened : ∀ tempName size opened w, T tempName (.ok (some (.opened (size, opened)))) w →
      Safe (E := effects) env.serve Eq guar (fun r w' => post (r.map some) w')
        (closePublished s opened).run w)
    (hexists : ∀ tempName w, T tempName (.ok (some .exists)) w → P w)
    (hskipped : ∀ tempName w, T tempName (.ok none) w → post (.ok none) w)
    (herror : ∀ tempName err w, T tempName (.error err) w →
      Safe (E := effects) env.serve Eq guar
        (fun r w' => (∃ x, r = .ok x) ∧ post (fusedError mode rawPath err) w')
        (Thread.attempt (s.call (.remove parent tempName))).run w) :
    Safe (E := effects) env.serve Eq guar post
      (putFusedFrom s parent name rawPath data mode n).run w := by
  induction n generalizing w with
  | zero => exact (hnone w hP).2
  | succ n ih =>
    refine safe_bindExcept (safe_lift (safe_perform ?_))
    rintro w₁ tempName w₂ rfl ⟨-, rfl⟩
    refine ⟨(hnone _ hP).1, safe_bindExcept (safe_attempt ((htry tempName _ hP).mono ?_))⟩
    intro r w₁ hr
    match r, hr with
    | .ok (some (.opened (size, opened))), hr =>
      refine safe_bindExcept ((hopened tempName size opened w₁ hr).mono fun r w₂ hr => ?_)
      cases r with
      | ok _ => exact hr
      | error err => exact hr
    | .ok (some .exists), hr => exact ih (hexists tempName w₁ hr)
    | .ok none, hr => exact hskipped tempName w₁ hr
    | .error err, hr =>
      refine safe_bindExcept ((herror tempName err w₁ hr).mono ?_)
      rintro _ w₂ ⟨⟨_, rfl⟩, hw₂⟩
      exact safe_except hw₂

/-! ### Attempts -/

section

variable {parent : List String} {name rawPath : String} {data : Bytes} {mode : PutMode}
  {post : Except Error Unit → World S → Prop}

/-- The rule for the publish of a temporary file: `Q` is what is known after it was tried. -/
theorem safe_publishTempFile_of {tempName : String} {opened : OpenedFile} {outcome : WriteOutcome}
    (Q : Except Error Unit → World S → Prop)
    (hclose : Safe (E := effects) env.serve Eq guar (fun r w' => Q (r.map fun _ => ()) w')
      (s.closePublish opened parent tempName name outcome.bytesWritten outcome.unstableVerifier
        mode.createNew).run w)
    (hdone : ∀ w, Q (.ok ()) w → post (.ok ()) w)
    (hremove : ∀ err w, Q (.error err) w → Safe (E := effects) env.serve Eq guar
      (fun r w' => (∃ x, r = .ok x) ∧ post (publishResult mode err rawPath) w')
      (Thread.attempt (s.call (.remove parent tempName))).run w) :
    Safe (E := effects) env.serve Eq guar post
      (publishTempFile s parent tempName name rawPath opened outcome mode).run w := by
  refine safe_bindExcept (safe_attempt (hclose.mono fun r w₁ hr => ?_))
  match r, hr with
  | .ok _, hr => exact hdone w₁ hr
  | .error err, hr =>
    refine safe_bindExcept ((hremove err w₁ hr).mono ?_)
    rintro _ w₂ ⟨⟨x, rfl⟩, hw₂⟩
    exact safe_except hw₂

/-- The rule for a file that is given up: `A` holds after its close. -/
theorem safe_abandon_of {tempName : String} {opened : OpenedFile} {err : Error} (A : World S → Prop)
    (hclose : Safe (E := effects) env.serve Eq guar (fun r w' => (∃ x, r = .ok x) ∧ A w')
      (Thread.attempt (s.closeFile opened)).run w)
    (hremove : ∀ w, A w → Safe (E := effects) env.serve Eq guar
      (fun r w' => (∃ x, r = .ok x) ∧ ∀ err, post (.error err) w')
      (Thread.attempt (s.call (.remove parent tempName))).run w) :
    Safe (E := effects) env.serve Eq guar post (abandon s parent tempName opened err).run w := by
  refine safe_bindExcept (hclose.mono ?_)
  rintro _ w₁ ⟨⟨closeResult, rfl⟩, hw₁⟩
  refine safe_bindExcept ((hremove w₁ hw₁).mono ?_)
  rintro _ w₂ ⟨⟨_, rfl⟩, hw₂⟩
  cases closeResult with
  | ok _ => exact hw₂ _
  | error closeErr => exact hw₂ _

variable {always : World S → Prop}

/-- The rule for the put in several compounds: `O` is what is known after the open, and `W`
what is known after the writes. -/
theorem ensures_putMulti_of (O : Except Error (String × OpenedFile) → World S → Prop)
    (W : String → OpenedFile → Except Error WriteOutcome → World S → Prop) (halways : always w)
    (hopen : Safe (E := effects) env.serve Eq (fun _ w' => always w') O (openTempFileIn s parent).run w)
    (hfailed : ∀ err w, O (.error err) w → post (.error err) w)
    (hwrite : ∀ tempName opened w, always w → O (.ok (tempName, opened)) w →
      Ensures (E := effects) env.serve always (writeBytes s opened data).run w (W tempName opened))
    (hpublish : ∀ tempName opened outcome w, W tempName opened (.ok outcome) w →
      Safe (E := effects) env.serve Eq (fun _ w' => always w') post
        (publishTempFile s parent tempName name rawPath opened outcome mode).run w)
    (habandon : ∀ tempName opened err w, W tempName opened (.error err) w →
      Safe (E := effects) env.serve Eq (fun _ w' => always w') post
        (abandon s parent tempName opened err).run w) :
    Ensures (E := effects) env.serve always (putMulti s parent name rawPath data mode).run w post := by
  refine ensures_bindExcept (ensures_liftThreadExcept halways (hopen.mono fun r w₁ hr hw₁ => ?_))
  match r, hr with
  | .error err, hr => exact hfailed err w₁ hr
  | .ok (tempName, opened), hr =>
    refine ensures_bindExcept (ensures_attempt ((hwrite tempName opened w₁ hw₁ hr).mono ?_))
    intro r w₂ hw₂ hr
    match r, hr with
    | .ok outcome, hr =>
      exact ensures_liftThreadExcept hw₂ ((hpublish _ _ outcome w₂ hr).mono fun _ _ h _ => h)
    | .error err, hr =>
      exact ensures_liftThreadExcept hw₂ ((habandon _ _ err w₂ hr).mono fun _ _ h _ => h)

/-- The rule for an attempt: `F` is what is known after the fused put. -/
theorem ensures_putOnce_of (F : Except Error (Option Unit) → World S → Prop) {path : NfsPath}
    (hpath : path.parentAndName = .ok (parent, name)) (halways : always w)
    (hfused : Safe (E := effects) env.serve Eq (fun _ w' => always w') F
      (putOnceFused s parent name rawPath data mode).run w)
    (hdone : ∀ w, F (.ok (some ())) w → post (.ok ()) w)
    (herror : ∀ err w, F (.error err) w → post (.error err) w)
    (hmulti : ∀ w, always w → F (.ok none) w → Ensures (E := effects) env.serve always
      (putMulti s parent name rawPath data mode).run w post) :
    Ensures (E := effects) env.serve always (putOnce s path rawPath data mode).run w post := by
  refine ensures_bindExcept (ensures_except halways ?_)
  rw [hpath]
  refine ensures_bindExcept (ensures_liftThreadExcept halways (hfused.mono fun r w₁ hr hw₁ => ?_))
  match r, hr with
  | .ok (some ()), hr => exact ensures_pure hw₁ (hdone w₁ hr)
  | .ok none, hr => exact hmulti w₁ hw₁ hr
  | .error err, hr => exact herror err w₁ hr

/-- The rule for a put: `P` holds at the start of each attempt. -/
theorem ensures_put_of (P : World S → Prop) {path : NfsPath} (hfile : NfsPath.file rawPath = .ok path)
    (hP : P w) (himp : ∀ w, P w → always w) (hfailed : ∀ err w, P w → post (.error err) w)
    (hattempt : ∀ s w, env.session s → P w → Ensures (E := effects) env.serve always
      (putOnce s path rawPath data mode).run w fun r w' => post r w' ∧
        ∀ err, r = .error err → err.requiresSessionRebuild → P w') :
    Ensures (E := effects) env.serve always (put rawPath data mode).run w post := by
  refine ensures_bindExcept (ensures_except (himp w hP) ?_)
  rw [hfile]
  refine ensures_retryingSessionOperation P hP himp ?_ ?_
  · rintro w snapshot _ hw ⟨hsession, rfl⟩
    exact ⟨himp _ hw, hattempt snapshot.session _ hsession hw⟩
  · rintro generation n cause w r _ hw rfl
    exact ⟨hw, fun err _ => hfailed err _ hw⟩

end

end Environment

end NfsCrust
