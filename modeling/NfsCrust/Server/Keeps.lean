import NfsCrust.Put.Program
import NfsCrust.Server.Environment

/-!
# What a put keeps

Most compounds of an operation do not matter to a given property: they keep it,
whatever comes of them.  `Environment.Keeps` is that notion for a piece of the client's
code, with a rule for each of its functions; an invariant needs to be looked at only
once, for one exchange.

## Main definitions

* `Environment.Keeps`, `Environment.KeepsProg` — a piece of code keeps an invariant.
* `Environment.Stable` — an invariant that depends only on what reaches the server.

## Main results

* `Environment.keeps_openTempFileIn`, `Environment.keeps_writeBytes`, `Environment.safe_abandon`,
  … — the parts of a put that publish nothing.
-/

namespace NfsCrust

open Interaction Thread

variable {S : Type} {env : Environment S} {J : World S → Prop} {α β : Type}

namespace Environment

/-- The code keeps `J`, if others do. -/
def Keeps (env : Environment S) (J : World S → Prop) (t : SessionM α) : Prop :=
  ∀ w, J w → Safe (E := effects) env.serve (fun w w' => J w → J w') (fun _ w' => J w')
    (fun _ w' => J w') t.run w

/-- The code keeps `J`. -/
def KeepsProg (env : Environment S) (J : World S → Prop) (p : ClientM α) : Prop :=
  ∀ w, J w → Ensures (E := effects) env.serve J p.run w fun _ w' => J w'

/-! ### Rules -/

theorem keeps_pure (a : α) : env.Keeps J (pure a : SessionM α) := fun _ hw => safe_pure hw

theorem keeps_throw (err : Error) : env.Keeps J (throw err : SessionM α) := fun _ hw =>
  safe_throw hw

theorem keeps_except (x : Except Error α) : env.Keeps J (liftM x : SessionM α) := fun _ hw =>
  safe_except hw

theorem Keeps.bind {t : SessionM α} {f : α → SessionM β} (ht : env.Keeps J t)
    (hf : ∀ a, env.Keeps J (f a)) : env.Keeps J (t >>= f) := by
  intro w hw
  refine safe_bindExcept ((ht w hw).mono fun r w' hw' => ?_)
  cases r with
  | ok a => exact hf a w' hw'
  | error err => exact hw'

theorem Keeps.attempt {t : SessionM α} (ht : env.Keeps J t) : env.Keeps J (Thread.attempt t) :=
  fun w hw => safe_attempt (ht w hw)

theorem keeps_perform {e : Effect} (h : ∀ w r w', J w → env.serve e w r w' → J w') :
    env.Keeps J (liftM (perform e) : SessionM e.Response) := by
  intro w hw
  refine safe_lift (safe_perform fun w₁ r w₂ hrely hserve => ?_)
  have := h w₁ r w₂ (hrely hw) hserve
  exact ⟨this, this⟩

theorem Keeps.prog {t : SessionM α} (ht : env.Keeps J t) :
    env.KeepsProg J (liftM t : ClientM α) := by
  intro w hw
  refine ensures_liftThreadExcept hw (((ht w hw).weaken ?_ fun _ _ => id).mono fun _ _ h _ => h)
  rintro a _ rfl
  exact id

theorem keepsProg_pure (a : α) : env.KeepsProg J (pure a : ClientM α) := fun _ hw =>
  ensures_pure hw hw

theorem keepsProg_throw (err : Error) : env.KeepsProg J (throw err : ClientM α) := fun _ hw =>
  ensures_throw hw hw

theorem keepsProg_except (x : Except Error α) : env.KeepsProg J (liftM x : ClientM α) := fun _ hw =>
  ensures_except hw hw

theorem KeepsProg.bind {p : ClientM α} {f : α → ClientM β} (hp : env.KeepsProg J p)
    (hf : ∀ a, env.KeepsProg J (f a)) : env.KeepsProg J (p >>= f) := by
  intro w hw
  refine ensures_bindExcept ((hp w hw).mono fun r w' hJ _ => ?_)
  cases r with
  | ok a => exact hf a w' hJ
  | error err => exact hJ

theorem KeepsProg.attempt {p : ClientM α} (hp : env.KeepsProg J p) :
    env.KeepsProg J (Prog.attempt p) := fun w hw => ensures_attempt (hp w hw)

/-! ### Code that runs alone -/

section

variable {always : World S → Prop} {w : World S}

/-- Code that keeps `J`, where `always` is to hold. -/
theorem Keeps.safe {t : SessionM α} (ht : env.Keeps J t)
    (himp : ∀ w, J w → always w) (hw : J w) :
    Safe (E := effects) env.serve Eq (fun _ w' => always w') (fun _ w' => J w') t.run w := by
  refine (ht w hw).weaken ?_ fun _ w' => himp w'
  rintro a _ rfl
  exact id

/-- Code that keeps `J`, when its result is only looked at. -/
theorem Keeps.safe_attempt {t : SessionM α}
    (ht : env.Keeps J t) (himp : ∀ w, J w → always w) (hw : J w) :
    Safe (E := effects) env.serve Eq (fun _ w' => always w') (fun r w' => (∃ x, r = .ok x) ∧ J w')
      (Thread.attempt t).run w :=
  Thread.safe_attempt ((ht.safe himp hw).mono fun r _ hw' => ⟨⟨r, rfl⟩, hw'⟩)

end

/-! ### Calls -/

/-- `J` is about what reaches the server: it does not depend on what the client keeps
for itself, and survives what happens around the server. -/
structure Stable (env : Environment S) (J : World S → Prop) : Prop where
  drift : ∀ w w', J w → env.Drifts w w' → J w'
  latched : ∀ w s, J w → J { w with latched := s :: w.latched }
  queue : ∀ w x, J w → J { w with queue := w.queue ++ [x] }

/-- `J` survives a call. -/
def Quiet (env : Environment S) (J : World S → Prop) (s : NfsSession) (call : SessionCall) : Prop :=
  ∀ w out w', J w → CallServed env s call w out w' → J w'

variable {s : NfsSession} {call : SessionCall} {opened : OpenedFile} {parent : List String}

theorem keeps_call (hJ : env.Stable J) (hcall : env.Quiet J s call) :
    env.Keeps J (s.call call) := by
  intro w hw
  exact safe_call_of_keeps J hw (fun _ _ hw hrely => hrely hw) hJ.drift (fun _ _ _ hw' => hw')
    (fun w out w' => hcall w out w')

theorem keeps_openFile (hJ : env.Stable J) (name : String)
    (hcall : ∀ owner, env.Quiet J s (.openFile owner parent name)) :
    env.Keeps J (s.openFile parent name) := by
  refine (keeps_perform ?_).bind fun owner => (keeps_call hJ (hcall owner)).bind fun outcome => ?_
  · rintro w r _ hw rfl
    exact hw
  · split <;> exact keeps_pure _

theorem keeps_closeFile (hJ : env.Stable J) (hcall : env.Quiet J s (.closeFile opened)) :
    env.Keeps J (s.closeFile opened) :=
  (keeps_call hJ hcall).bind fun _ => keeps_pure _

/-! ### Temporary files -/

theorem keeps_openTempFileFrom (hJ : env.Stable J)
    (hcall : ∀ owner name, env.Quiet J s (.openFile owner parent name)) (n : ℕ) :
    env.Keeps J (openTempFileFrom s parent n) := by
  induction n with
  | zero => exact keeps_throw _
  | succ n ih =>
    refine (keeps_perform ?_).bind fun name => ?_
    · rintro w r _ hw ⟨-, rfl⟩
      exact hw
    · refine (keeps_openFile hJ name fun owner => hcall owner name).bind fun outcome => ?_
      split
      · exact keeps_pure _
      · exact ih

/-- The calls that create directories. -/
structure QuietDirs (env : Environment S) (J : World S → Prop) (s : NfsSession) : Prop where
  createDir : ∀ parent name, env.Quiet J s (.createDir parent name)
  createDirWithHandle : ∀ parent name, env.Quiet J s (.createDirWithHandle parent name)
  createDirAtHandle : ∀ fh name, env.Quiet J s (.createDirAtHandle fh name)
  createChildDirWithHandle : ∀ fh name, env.Quiet J s (.createChildDirWithHandle fh name)
  lookupChildHandle : ∀ fh name, env.Quiet J s (.lookupChildHandle fh name)

theorem keeps_ensureChildDirHandle (hJ : env.Stable J) (hdirs : env.QuietDirs J s)
    (fh : FileHandle) (name : String) : env.Keeps J (s.ensureChildDirHandle fh name) := by
  refine (keeps_call hJ (hdirs.createChildDirWithHandle fh name)).bind fun outcome => ?_
  split
  · exact keeps_pure _
  · exact keeps_call hJ (hdirs.lookupChildHandle fh name)

theorem keeps_createDirsBelow (hJ : env.Stable J) (hdirs : env.QuietDirs J s) (names : List String)
    (above : List String) (fh : Option FileHandle) :
    env.Keeps J (s.createDirsBelow above fh names) := by
  induction names generalizing above fh with
  | nil => cases fh <;> exact keeps_pure _
  | cons name names ih =>
    cases names with
    | nil =>
      cases fh with
      | some fh => exact (keeps_call hJ (hdirs.createDirAtHandle fh name)).bind fun _ => keeps_pure _
      | none => exact (keeps_call hJ (hdirs.createDir above name)).bind fun _ => keeps_pure _
    | cons next names =>
      cases fh with
      | some fh => exact (keeps_ensureChildDirHandle hJ hdirs fh name).bind fun _ => ih _ _
      | none =>
        refine (keeps_call hJ (hdirs.createDirWithHandle above name)).bind fun outcome => ?_
        split <;> exact ih _ _

theorem keeps_openTempFileIn (hJ : env.Stable J) (hdirs : env.QuietDirs J s)
    (hcall : ∀ owner name, env.Quiet J s (.openFile owner parent name)) :
    env.Keeps J (openTempFileIn s parent) := by
  have hopen : env.Keeps J (openTempFile s parent) := keeps_openTempFileFrom hJ hcall _
  refine hopen.attempt.bind fun r => ?_
  split
  · exact keeps_pure _
  · split
    · exact (keeps_createDirsBelow hJ hdirs parent [] none).bind fun _ => hopen
    · exact keeps_throw _

/-- A file that is given up: the code fails in any case. -/
theorem safe_abandon {always : World S → Prop} {w : World S} (hJ : env.Stable J) (tempName : String)
    (err : Error) (hclose : env.Quiet J s (.closeFile opened))
    (hremove : env.Quiet J s (.remove parent tempName)) (himp : ∀ w, J w → always w) (hw : J w) :
    Safe (E := effects) env.serve Eq (fun _ w' => always w')
      (fun r w' => (∃ err', r = .error err') ∧ J w') (abandon s parent tempName opened err).run w := by
  refine safe_bindExcept (((keeps_closeFile hJ hclose).safe_attempt himp hw).mono ?_)
  rintro _ w₁ ⟨⟨closeResult, rfl⟩, hw₁⟩
  refine safe_bindExcept (((keeps_call hJ hremove).safe_attempt himp hw₁).mono ?_)
  rintro _ w₂ ⟨⟨_, rfl⟩, hw₂⟩
  cases closeResult with
  | ok _ => exact ⟨⟨_, rfl⟩, hw₂⟩
  | error closeErr => exact ⟨⟨_, rfl⟩, hw₂⟩

theorem keeps_closePublished (hJ : env.Stable J) (hclose : env.Quiet J s (.closeFile opened)) :
    env.Keeps J (closePublished s opened) := by
  refine (keeps_perform (e := .deferClose s opened) ?_).bind fun queued => ?_
  · rintro w queued w' hw ⟨htrue, hfalse⟩
    cases queued with
    | true => exact htrue rfl ▸ hJ.queue w _ hw
    | false => exact hfalse rfl ▸ hw
  · cases queued with
    | true => exact keeps_pure _
    | false => exact (keeps_closeFile hJ hclose).attempt.bind fun _ => keeps_pure _

/-! ### Writes -/

section

variable (hJ : env.Stable J) (hwrite : ∀ offset data, env.Quiet J s (.write opened offset data))
include hJ hwrite

theorem keeps_writeChunkAllFrom (turns offset : ℕ) (chunk : Bytes) (outcome : WriteOutcome) :
    env.Keeps J (writeChunkAllFrom s opened turns offset chunk outcome) := by
  induction turns generalizing offset chunk outcome with
  | zero => exact keeps_pure _
  | succ turns ih =>
    rw [writeChunkAllFrom]
    split
    · exact keeps_pure _
    · refine (keeps_call hJ (hwrite _ _)).bind fun write => (keeps_except _).bind fun written => ?_
      exact (keeps_except _).bind fun outcome => ih _ _ _

theorem keeps_writeChunk (offset : ℕ) (chunk : Bytes) :
    env.Keeps J (writeChunk s opened offset chunk) := by
  refine (keeps_call hJ (hwrite _ _)).bind fun write => (keeps_except _).bind fun written => ?_
  dsimp only
  split
  · exact keeps_pure _
  · exact (keeps_writeChunkAllFrom hJ hwrite _ _ _ _).bind fun rest => keeps_except _

theorem keeps_writePool (body : Bytes) {depth : ℕ} (hdepth : 0 < depth) (x : PipelinedWrite)
    (w : World S) (hw : J w) :
    Ensures (E := effects) env.serve J ((writePool s opened body depth).run x) w fun _ w' => J w' := by
  refine Pool.ensures_run_safe (X := Unit) (fun _ w w' => J w → J w') (fun _ _ w' => J w')
    (fun _ _ w => J w) (fun _ _ w => J w) hdepth hw (fun _ _ _ => id) (fun _ _ => id)
    (fun _ _ _ _ hab hbc ha => hbc (hab ha)) (fun _ _ _ _ h hrely => hrely h) ?_ ?_
    (fun _ _ _ _ _ _ h _ => h) fun _ _ h _ => h
  · intro x xs w t x' hw hnext
    refine ⟨(), ?_, hw⟩
    unfold writePool at hnext
    dsimp only at hnext
    split at hnext
    · cases hnext
      exact keeps_writeChunk hJ hwrite _ _ w hw
    · cases hnext
  · exact fun _ _ _ _ _ _ _ hw' => ⟨hw', fun _ _ _ => hw'⟩

end

theorem keeps_writeSingleChunkCommittedFrom (hJ : env.Stable J)
    (hwrite : ∀ offset data, env.Quiet J s (.writeAndCommit opened offset data))
    (turns offset : ℕ) (chunk : Bytes) (writtenTotal : ℕ) :
    env.Keeps J (writeSingleChunkCommittedFrom s opened turns offset chunk writtenTotal) := by
  induction turns generalizing offset chunk writtenTotal with
  | zero => exact keeps_pure _
  | succ turns ih =>
    rw [writeSingleChunkCommittedFrom]
    split
    · exact keeps_pure _
    · refine (keeps_call hJ (hwrite _ _)).bind fun result => (keeps_except _).bind fun written => ?_
      dsimp only
      split
      · exact (keeps_except _).bind fun _ => ih _ _ _
      · exact ih _ _ _

theorem keepsProg_writeDepth : env.KeepsProg J (liftM (writeDepth s) : ClientM ℕ) := by
  intro w hw
  refine ensures_liftThread hw ?_
  unfold writeDepth
  split
  · refine safe_bind (safe_perform ?_)
    rintro w₁ r w₂ rfl rfl
    exact ⟨hw, fun _ => hw⟩
  · exact fun _ => hw

theorem keeps_writeBytes (hJ : env.Stable J)
    (hwrite : ∀ offset data, env.Quiet J s (.write opened offset data))
    (hcommit : ∀ offset data, env.Quiet J s (.writeAndCommit opened offset data)) (body : Bytes) :
    env.KeepsProg J (writeBytes s opened body) := by
  unfold writeBytes
  split
  · exact keepsProg_pure _
  · split
    · exact (keeps_writeSingleChunkCommittedFrom hJ hcommit _ _ _ _).prog
    · refine keepsProg_writeDepth.bind fun depth => ?_
      split
      · exact (keeps_writeChunkAllFrom hJ hwrite _ _ _ _).prog
      · next hdepth =>
        refine KeepsProg.bind (fun w hw => ensures_lift ?_) fun x => ?_
        · exact keeps_writePool hJ hwrite body (by omega) _ w hw
        · split
          · exact keepsProg_throw _
          · exact keepsProg_pure _

end Environment

end NfsCrust
