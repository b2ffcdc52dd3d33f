import NfsCrust.Put.Publish
import NfsCrust.Put.Rules

/-!
# At most one publish

The calls of a put in sequence.  Everything before a publishing compound leaves the
file unpublished; what is known after one is what its result says, and the rest of the
put keeps it.  Another attempt is made only after an error that says nothing was
published.

## Main results

* `safe_closePublish`, `safe_tryPutFused` — the two publishing calls.
* `put_publishes_once` — whatever the network does, a put publishes at most once.
-/

namespace NfsCrust

open Interaction Thread Environment

variable {S : Type} {env : Environment S} {name : String} {p : NfsOp → Bool} {mode : PutMode}
  {s : NfsSession} {call : SessionCall} {w w' : World S} {α : Type}

/-! ### Publishing calls -/

/-- What is known after a publishing call. -/
def Reported (p : NfsOp → Bool) (mode : PutMode) (s : NfsSession) (call : SessionCall) :
    Except CompoundDecodeError call.Result → World S → Prop
  | .ok v, w => Published p w ∧ (∃ os, call.value os = some v) ∨
      Unpublished p w ∧ ∃ op status, call.typed op status = some v
  | .error err, w => Settled p mode err.error w ∧ (err.transientStatus.isSome →
      w.mayRun p = ((call.ops s).take (err.replyIndex.getD 0 - 1)).countP p)

theorem reported_of_served (hshape : PublishShape name mode.createNew (call.ops s))
    (hp : Picks name p) (htyped : TypedEarly call) (hw : Unpublished p w)
    {out : Except CompoundDecodeError call.Result} (hcall : CallServed env s call w out w') :
    Reported p mode s call out w' := by
  cases out with
  | ok v => exact published_of_served hshape hp htyped hw hcall rfl
  | error err =>
    exact ⟨settled_of_served hshape hp hw hcall rfl, mayRun_of_transient hw hcall rfl⟩

theorem Reported.le {out : Except CompoundDecodeError call.Result}
    (h : Reported p mode s call out w) : w.mayRun p ≤ 1 := by
  cases out with
  | ok v =>
    rcases h with ⟨hpublished, -⟩ | ⟨hunpublished, -⟩
    · exact hpublished.most
    · exact Nat.le_trans hunpublished.most (Nat.zero_le 1)
  | error err => exact h.1.le

theorem Picks.countP_opcode (hp : Picks name p) {ops : List NfsOp}
    (h : ∀ op ∈ ops, op.opcode ≠ .link ∧ op.opcode ≠ .rename) : ops.countP p = 0 := by
  refine hp.countP_eq_zero fun op hop => ?_
  obtain ⟨hlink, hrename⟩ := h op hop
  cases op <;> first | rfl | exact absurd rfl hlink | exact absurd rfl hrename

/-- A compound is sent again only if it published nothing. -/
theorem unpublished_of_retry (hp : Picks name p) {err : CompoundDecodeError} {retryTransients : Bool}
    (h : Reported p mode s call (.error err) w)
    (hretry : (NfsSession.retryStatus? (call.ops s) retryTransients err).isSome) :
    Unpublished p w := by
  unfold NfsSession.retryStatus? at hretry
  split at hretry
  · next hsafe =>
    refine unpublished_of_mayRun ((h.2 hretry).trans ?_)
    rw [Bool.and_eq_true, transientCompoundRetryIsSafe] at hsafe
    obtain ⟨-, hsafe⟩ := hsafe
    split at hsafe
    · cases hsafe
    · next index hindex =>
      rw [hindex]
      refine hp.countP_opcode fun op hop => ?_
      rw [Bool.not_eq_true'] at hsafe
      have hop' := List.any_eq_false.mp hsafe op hop
      cases op <;> first | exact absurd rfl hop' | exact ⟨by simp [NfsOp.opcode], by simp [NfsOp.opcode]⟩
  · cases hretry

/-- A publish is resumed only if nothing was published. -/
theorem unpublished_of_resume (hp : Picks name p) {err : CompoundDecodeError}
    (h : Reported p mode s call (.error err) w)
    (hresume : (NfsSession.resumeStatus? (call.ops s) err).isSome) : Unpublished p w := by
  unfold NfsSession.resumeStatus? at hresume
  split at hresume
  · next hcompleted =>
    refine unpublished_of_mayRun ((h.2 hresume).trans ?_)
    simp only [Bool.and_eq_true, Bool.not_eq_true'] at hcompleted
    obtain ⟨⟨-, hlink⟩, hrename⟩ := hcompleted
    refine hp.countP_opcode fun op hop => ⟨?_, ?_⟩
    · simpa using List.any_eq_false.mp hlink op hop
    · simpa using List.any_eq_false.mp hrename op hop
  · cases hresume

theorem safe_publishing (hshape : PublishShape name mode.createNew (call.ops s)) (hp : Picks name p)
    (htyped : TypedEarly call) (retryTransients : Bool) (left : ℕ) (hw : Unpublished p w) :
    Safe (E := effects) env.serve Eq (fun _ w' => w'.mayRun p ≤ 1)
      (fun x w' => Reported p mode s call x.1 w')
      (s.compoundDecodeDetailed call retryTransients left) w := by
  refine Environment.safe_compoundDecodeDetailed (Reported p mode s call) (Unpublished p) hw ?_
    (fun _ _ hw h => World.Bounds.drift hw h)
    (fun _ hw => Nat.le_trans hw.most (Nat.zero_le 1)) ?_
  · rintro w _ hw rfl
    exact hw
  · intro w w₁ out w' _ _ hw₁ hcall
    have hreported := reported_of_served hshape hp htyped hw₁ hcall
    refine ⟨hreported.le, hreported, fun err herr hretry => ?_⟩
    subst herr
    exact unpublished_of_retry hp hreported hretry

/-! ### Closing and publishing -/

/-- What is known after a publish: it happened, or its error tells. -/
def Concluded (p : NfsOp → Bool) (mode : PutMode) : Except Error α → World S → Prop
  | .ok _, w => Published p w
  | .error err, w => Settled p mode err w

/-- A publish without outcomes that stand for failures. -/
theorem Reported.concluded {out : Except CompoundDecodeError call.Result}
    (h : Reported p mode s call out w) (htyped : call.typed = fun _ _ => none) :
    Concluded p mode (out.mapError CompoundDecodeError.error) w := by
  cases out with
  | error err => exact h.1
  | ok v =>
    rcases h with ⟨hpublished, -⟩ | ⟨-, op, status, hv⟩
    · exact hpublished
    · rw [htyped] at hv
      cases hv

section

variable (hp : Picks name p)
include hp

theorem safe_publishAfterClose (fh : FileHandle) (parent : List String) (tempName : String)
    (left : ℕ) (hw : Unpublished p w) :
    Safe (E := effects) env.serve Eq (fun _ w' => w'.mayRun p ≤ 1) (Concluded p mode)
      (s.publishAfterClose fh parent tempName name mode.createNew left).run w := by
  have hshape := publishShape_publishAfterClose name s fh parent tempName mode.createNew
  exact safe_bind ((safe_publishing hshape hp nofun true left hw).mono fun _ _ h => h.concluded rfl)

theorem safe_closePublish (opened : OpenedFile) (parent : List String) (tempName : String)
    (size : ℕ) (verifier : Option Verifier) (hw : Unpublished p w) :
    Safe (E := effects) env.serve Eq (fun _ w' => w'.mayRun p ≤ 1)
      (fun r w' => Concluded p mode (r.map fun _ => ()) w')
      (s.closePublish opened parent tempName name size verifier mode.createNew).run w := by
  have hshape := publishShape_closePublish name s opened parent tempName size verifier
    mode.createNew
  refine safe_closePublish_of (Concluded p mode) (Reported p mode s (.closePublish opened parent
    tempName name size verifier mode.createNew)) (fun _ _ h => h.le) (fun _ _ h => h.concluded rfl)
    (fun err left w h hresume => ?_) (safe_publishing hshape hp nofun true _ hw)
  exact safe_publishAfterClose hp opened.fh parent tempName left (unpublished_of_resume hp h hresume)

end

/-! ### The fused put -/

/-- What is known after a fused put. -/
def FusedReported (p : NfsOp → Bool) (mode : PutMode) :
    Except Error (Option (OpenOutcome (ℕ × OpenedFile))) → World S → Prop
  | .ok (some (.opened _)), w => Published p w
  | .ok (some .exists), w | .ok none, w => Unpublished p w
  | .error err, w => Settled p mode err w

theorem typedEarly_putFused (name : String) (owner : Bytes) (parent : List String)
    (tempName : String) (data : Bytes) (createNew : Bool) :
    TypedEarly (.putFused owner parent tempName name data createNew) := by
  intro op status v hv
  simp only [SessionCall.typed, caughtExist] at hv
  split at hv
  · next h => exact h.1 ▸ ⟨by simp, by simp⟩
  · cases hv

/-- A fused put whose temporary name is taken published nothing. -/
theorem fusedReported_exists {owner : Bytes} {parent : List String} {tempName : String} {data : Bytes}
    (h : Reported p mode s (.putFused owner parent tempName name data mode.createNew)
      (.ok OpenOutcome.exists) w) : FusedReported p mode (.ok (some .exists)) w := by
  rcases h with ⟨-, os, hv⟩ | ⟨hunpublished, -⟩
  · obtain ⟨_, -, hv⟩ := Option.bind_eq_some_iff.mp hv
    obtain ⟨_, -, hv⟩ := Option.bind_eq_some_iff.mp hv
    obtain ⟨_, -, hv⟩ := Option.bind_eq_some_iff.mp hv
    cases hv
  · exact hunpublished

/-- A fused put that returns the open file published it. -/
theorem published_of_opened {owner : Bytes} {parent : List String} {tempName : String} {data : Bytes}
    {parts : StateId × FileHandle × WriteData}
    (h : Reported p mode s (.putFused owner parent tempName name data mode.createNew)
      (.ok (OpenOutcome.opened parts)) w) : Published p w := by
  rcases h with ⟨hpublished, -⟩ | ⟨-, op, status, hv⟩
  · exact hpublished
  · simp only [SessionCall.typed, caughtExist] at hv
    split at hv <;> cases hv

theorem safe_tryPutFused (hp : Picks name p) (parent : List String) (tempName : String)
    (data : Bytes) (hw : Unpublished p w) :
    Safe (E := effects) env.serve Eq (fun _ w' => w'.mayRun p ≤ 1) (FusedReported p mode)
      (s.tryPutFused parent tempName name data mode.createNew).run w := by
  refine safe_tryPutFused_of (fun owner => Reported p mode s (.putFused owner parent tempName name
    data mode.createNew)) (Nat.le_trans hw.most (Nat.zero_le 1)) hw (fun owner _ => ?_) ?_ ?_ ?_
  · exact safe_publishing (publishShape_putFused name s owner parent tempName data mode.createNew) hp
      (typedEarly_putFused name owner parent tempName data mode.createNew) false _ hw
  · intro owner err w' _ h
    exact ⟨fun _ => h.1, h.1.le, fun _ => ⟨h.1.least, h.1.most⟩⟩
  · intro owner w' h
    exact fusedReported_exists h
  · intro owner stateid fh write w' _ h
    have hpublished := published_of_opened h
    exact ⟨fun _ => hpublished, fun _ _ => .of_foreign rfl hpublished.most⟩

/-! ### The calls that publish nothing -/

def SessionCall.mayPublish : SessionCall → Bool
  | closePublish .. | publishAfterClose .. | putFused .. => true
  | _ => false

theorem SessionCall.opcode_of_not_mayPublish (h : call.mayPublish = false) :
    .link ∉ (call.ops s).map NfsOp.opcode ∧ .rename ∉ (call.ops s).map NfsOp.opcode := by
  cases call with
  | closeBatch opened =>
    rw [map_opcode_closeBatch]
    simp [closeBatchCodes]
  | closePublish | publishAfterClose | putFused => cases h
  | _ => simp [SessionCall.ops, NfsOp.opcode, writeAndCommitOps, readdirOp]

theorem Picks.countP_ops (hp : Picks name p) (h : call.mayPublish = false) :
    (call.ops s).countP p = 0 := by
  obtain ⟨hlink, hrename⟩ := SessionCall.opcode_of_not_mayPublish (s := s) h
  refine hp.countP_opcode fun op hop => ⟨?_, ?_⟩
  · exact fun heq => hlink (heq ▸ List.mem_map_of_mem hop)
  · exact fun heq => hrename (heq ▸ List.mem_map_of_mem hop)

theorem Picks.quiet (hp : Picks name p) {least most : ℕ} (h : call.mayPublish = false) :
    env.Quiet (World.Bounds p least most) s call := quiet_bounds (hp.countP_ops h)

/-- The removal of a temporary name changes nothing about the publish. -/
theorem Picks.safe_remove (hp : Picks name p) {least most : ℕ} (hmost : most ≤ 1)
    (parent : List String) (tempName : String) (hw : w.Bounds p least most) :
    Safe (E := effects) env.serve Eq (fun _ w' => w'.mayRun p ≤ 1)
      (fun r w' => (∃ x, r = .ok x) ∧ w'.Bounds p least most)
      (Thread.attempt (s.call (.remove parent tempName))).run w :=
  (keeps_call stable_bounds (hp.quiet rfl)).safe_attempt
    (fun _ hw => Nat.le_trans hw.most hmost) hw

/-! ### Attempts -/

/-- What is known after a put. -/
def Ended (p : NfsOp → Bool) : Except Error Unit → World S → Prop
  | .ok (), w => Published p w
  | .error err, w => w.mayRun p ≤ 1 ∧ (err.isOutcomeUnknown = false → Unpublished p w)

/-- What is known after an attempt of the fused put. -/
def FusedEnded (p : NfsOp → Bool) : Except Error (Option Unit) → World S → Prop
  | .ok (some ()), w => Published p w
  | .ok none, w => Unpublished p w
  | .error err, w => Ended p (.error err) w

theorem PublishError.most_le (err : PublishError) : err.most ≤ 1 := by cases err <;> decide

theorem Ended.of_unpublished {err : Error} (hw : Unpublished p w) : Ended p (.error err) w :=
  ⟨Nat.le_trans hw.most (Nat.zero_le 1), fun _ => hw⟩

theorem Settled.publishResult {err : Error} (h : Settled p mode err w) (rawPath : String) :
    Ended p (publishResult mode err rawPath) w := by
  rw [Settled] at h
  rw [NfsCrust.publishResult]
  cases hclass : classifyPublishError mode err <;> rw [hclass] at h
  · exact h
  · exact .of_unpublished h
  · exact .of_unpublished h
  · exact ⟨h.most, fun hknown => by cases hknown⟩

theorem Settled.fusedError {err : Error} (h : Settled p mode err w) (rawPath : String) :
    FusedEnded p (fusedError mode rawPath err) w := by
  rw [Settled] at h
  rw [NfsCrust.fusedError]
  cases hclass : classifyPublishError mode err <;> rw [hclass] at h
  · exact h
  · exact Ended.of_unpublished h
  · dsimp only
    split
    · exact Ended.of_unpublished h
    · exact h
  · exact ⟨h.most, fun hknown => by cases hknown⟩

section

variable (hp : Picks name p)
include hp

theorem safe_closePublished (opened : OpenedFile) (hw : Published p w) :
    Safe (E := effects) env.serve Eq (fun _ w' => w'.mayRun p ≤ 1)
      (fun r w' => r = .ok () ∧ Published p w') (closePublished s opened).run w := by
  refine safe_bindExcept (safe_lift (safe_perform ?_))
  rintro w₁ queued w' rfl ⟨htrue, hfalse⟩
  cases queued with
  | true =>
    obtain rfl := htrue rfl
    exact ⟨hw.most, rfl, hw.least, hw.most⟩
  | false =>
    obtain rfl := hfalse rfl
    refine ⟨hw.most, safe_bindExcept (((keeps_closeFile stable_bounds (hp.quiet rfl)).safe_attempt
      (fun _ hw => World.Bounds.most hw) hw).mono ?_)⟩
    rintro _ w₂ ⟨⟨x, rfl⟩, hw₂⟩
    exact ⟨rfl, hw₂⟩

theorem safe_putFusedFrom (parent : List String) (rawPath : String) (data : Bytes) (n : ℕ)
    (hw : Unpublished p w) :
    Safe (E := effects) env.serve Eq (fun _ w' => w'.mayRun p ≤ 1) (FusedEnded p)
      (putFusedFrom s parent name rawPath data mode n).run w := by
  refine safe_putFusedFrom_of (Unpublished p) (fun _ => FusedReported p mode) hw
    (fun w hw => ⟨Nat.le_trans hw.most (Nat.zero_le 1), hw⟩)
    (fun tempName w hw => safe_tryPutFused hp parent tempName data hw) ?_ (fun _ _ h => h)
    (fun _ _ h => h) ?_
  · intro tempName size opened w hw
    refine (safe_closePublished hp opened hw).mono ?_
    rintro _ w' ⟨rfl, hw'⟩
    exact hw'
  · intro tempName err w hw
    refine (hp.safe_remove (PublishError.most_le _) parent tempName hw).mono ?_
    rintro r w' ⟨hr, hw'⟩
    exact ⟨hr, Settled.fusedError hw' rawPath⟩

theorem safe_putOnceFused (parent : List String) (rawPath : String) (data : Bytes)
    (hw : Unpublished p w) :
    Safe (E := effects) env.serve Eq (fun _ w' => w'.mayRun p ≤ 1) (FusedEnded p)
      (putOnceFused s parent name rawPath data mode).run w := by
  have hle : w.mayRun p ≤ 1 := Nat.le_trans hw.most (Nat.zero_le 1)
  refine safe_bindExcept (safe_lift (safe_fusedPutViable hle fun viable => ?_))
  dsimp only
  split
  · exact safe_putFusedFrom hp parent rawPath data _ hw
  · exact hw

theorem safe_publishTempFile (parent : List String) (tempName rawPath : String) (opened : OpenedFile)
    (outcome : WriteOutcome) (hw : Unpublished p w) :
    Safe (E := effects) env.serve Eq (fun _ w' => w'.mayRun p ≤ 1) (Ended p)
      (publishTempFile s parent tempName name rawPath opened outcome mode).run w := by
  refine safe_publishTempFile_of (Concluded p mode)
    (safe_closePublish hp opened parent tempName _ _ hw) (fun w h => h) ?_
  intro err w h
  refine (hp.safe_remove (PublishError.most_le _) parent tempName h).mono ?_
  rintro r w' ⟨hr, hw'⟩
  exact ⟨hr, Settled.publishResult hw' rawPath⟩

theorem ensures_putMulti (parent : List String) (rawPath : String) (data : Bytes)
    (hw : Unpublished p w) :
    Ensures (E := effects) env.serve (fun w => w.mayRun p ≤ 1)
      (putMulti s parent name rawPath data mode).run w (Ended p) := by
  have himp : ∀ w : World S, Unpublished p w → w.mayRun p ≤ 1 := fun w hw =>
    Nat.le_trans hw.most (Nat.zero_le 1)
  have hopen : env.Keeps (Unpublished p) (openTempFileIn s parent) :=
    keeps_openTempFileIn stable_bounds
      ⟨fun _ _ => hp.quiet rfl, fun _ _ => hp.quiet rfl, fun _ _ => hp.quiet rfl,
        fun _ _ => hp.quiet rfl, fun _ _ => hp.quiet rfl⟩ fun _ _ => hp.quiet rfl
  have hwrite : ∀ opened, env.KeepsProg (Unpublished p) (writeBytes s opened data) := fun opened =>
    keeps_writeBytes stable_bounds (fun _ _ => hp.quiet rfl) (fun _ _ => hp.quiet rfl) data
  refine ensures_putMulti_of (fun _ => Unpublished p) (fun _ _ _ => Unpublished p) (himp w hw)
    (hopen.safe himp hw) (fun _ _ hw => .of_unpublished hw) ?_ ?_ ?_
  · intro tempName opened w _ hw
    exact ((hwrite opened w hw).weaken himp).mono fun _ _ _ h => h
  · intro tempName opened outcome w hw
    exact safe_publishTempFile hp parent tempName rawPath opened outcome hw
  · intro tempName opened err w hw
    refine (safe_abandon stable_bounds tempName err (hp.quiet rfl) (hp.quiet rfl) himp hw).mono ?_
    rintro _ w' ⟨⟨err', rfl⟩, hw'⟩
    exact .of_unpublished hw'

theorem ensures_putOnce {path : NfsPath} {parent : List String}
    (hpath : path.parentAndName = .ok (parent, name)) (rawPath : String) (data : Bytes)
    (hw : Unpublished p w) :
    Ensures (E := effects) env.serve (fun w => w.mayRun p ≤ 1)
      (putOnce s path rawPath data mode).run w (Ended p) :=
  ensures_putOnce_of (FusedEnded p) hpath (Nat.le_trans hw.most (Nat.zero_le 1))
    (safe_putOnceFused hp parent rawPath data hw) (fun _ h => h) (fun _ _ h => h)
    fun _ _ hw => ensures_putMulti hp parent rawPath data hw

/-- A put, for any way to pick out publishing operations. -/
theorem ensures_put {rawPath : String} {path : NfsPath} {parent : List String}
    (hfile : NfsPath.file rawPath = .ok path) (hpath : path.parentAndName = .ok (parent, name))
    (body : Bytes) (hw : Unpublished p w) :
    Ensures (E := effects) env.serve (fun w => w.mayRun p ≤ 1) (put rawPath body mode).run w
      (Ended p) := by
  have himp : ∀ w : World S, Unpublished p w → w.mayRun p ≤ 1 := fun w hw =>
    Nat.le_trans hw.most (Nat.zero_le 1)
  refine ensures_put_of (Unpublished p) hfile hw himp (fun _ _ hw => .of_unpublished hw) ?_
  intro s w _ hw
  refine (ensures_putOnce hp hpath rawPath body hw).mono fun r w' _ hr => ⟨hr, ?_⟩
  -- an unknown outcome does not ask for another attempt
  rintro err rfl hrebuild
  refine hr.2 ?_
  cases err <;> first | rfl | cases hrebuild

end

/-- **A put publishes at most once.**  Whatever the network does, no world of the run has
more than one publish executed or still possible.  When the put returns, exactly one was
executed, to the name of the path; when it fails with anything but an unknown outcome,
none was and none will be. -/
theorem put_publishes_once (env : Environment S) (rawPath : String) (body : Bytes) (mode : PutMode)
    (st : S) :
    Ensures (E := effects) env.serve (fun w => w.mayRun NfsOp.isPublish ≤ 1)
      (put rawPath body mode).run { state := st } fun
        | .ok (), w => ∃ path parent name, NfsPath.file rawPath = .ok path ∧
            path.parentAndName = .ok (parent, name) ∧ w.ran (NfsOp.publishes name) = 1 ∧
            w.mayRun NfsOp.isPublish = 1
        | .error err, w => err.isOutcomeUnknown = true ∨ w.mayRun NfsOp.isPublish = 0 := by
  have hstart : ∀ p : NfsOp → Bool, Unpublished p ({ state := st } : World S) := fun p =>
    unpublished_of_mayRun rfl
  cases hfile : NfsPath.file rawPath with
  | error err =>
    -- nothing is sent for a path that is refused
    have hle : ({ state := st } : World S).mayRun NfsOp.isPublish ≤ 1 := Nat.zero_le 1
    refine ensures_bindExcept (ensures_except hle ?_)
    rw [hfile]
    exact Or.inr rfl
  | ok path =>
    obtain ⟨parent, name, hpath, -⟩ := NfsPath.parentAndName_file hfile
    have hput : ∀ p : NfsOp → Bool, Picks name p → Ensures (E := effects) env.serve
        (fun w => w.mayRun p ≤ 1) (put rawPath body mode).run { state := st } (Ended p) :=
      fun p hp => ensures_put hp hfile hpath body (hstart p)
    have hboth := (hput _ (picks_isPublish name)).and (hput _ (picks_publishes name))
    refine (hboth.weaken fun w => And.left).mono fun r w _ hr => ?_
    match r, hr with
    | .ok (), ⟨hany, hname⟩ =>
      have hran := w.ran_le_mayRun
      exact ⟨path, parent, name, rfl, hpath,
        Nat.le_antisymm (Nat.le_trans (hran _) hname.most) hname.least,
        Nat.le_antisymm hany.most (Nat.le_trans hany.least (hran _))⟩
    | .error err, ⟨hany, _⟩ =>
      cases herr : err.isOutcomeUnknown with
      | true => exact Or.inl herr
      | false => exact Or.inr (hany.2 herr).mayRun

end NfsCrust
