import NfsCrust.Put.Tidy
import NfsCrust.Server.Script

/-!
# Temporary files a put leaves behind

As long as the client stays connected, a put takes care of every temporary file it
creates: it publishes it or asks for its removal.  The one exception is a file that was
created by a compound whose next operation, the `GETFH`, fails: its name is lost with the
error.

## Main definitions

* `orphans` — the ledger of temporary names.

## Main results

* `put_leaves_no_orphans` — nothing is owed when a put returns.
* `put_leaves_orphan` — the exception.
-/

namespace NfsCrust

open Interaction Thread Environment Relation

/-- A temporary name is owed from the `OPEN` that creates it until it is renamed onto the
destination or removed, or until its removal is asked for. -/
def orphans (name : String) : Ledger Event String where
  raises e n := ∃ seqid clientid owner mode r, e = .executed (.«open» seqid clientid owner n mode) r
  clears e n := (∃ r, e = .executed (.rename n name) r) ∨ (∃ r, e = .executed (.remove n) r) ∨
    ∃ s parent, e = .sent ((SessionCall.remove parent n).ops s)

variable {S : Type} {env : Environment S} {s : NfsSession} {call : SessionCall} {w w' : World S}
  {name tempName : String} {parent : List String} {mode : PutMode}

theorem opensOnly_orphans : OpensOnly (orphans name) := by
  rintro e n ⟨seqid, clientid, owner, mode, r, rfl⟩
  exact ⟨_, r, rfl, rfl⟩

theorem eq_of_openOwes {n : String} {stateid : StateId}
    (h : OpenOwes (orphans name) tempName stateid n) : n = tempName := by
  obtain ⟨seqid, clientid, owner, mode, res, -, _, _, _, _, _, heq⟩ := h
  cases heq
  rfl

/-- The temporary names that are owed at most. -/
def Clean (name : String) (held : String → Prop) : World S → Prop :=
  Tidy (orphans name) (fun _ _ => False) held

/-! ### Removals -/

theorem clears_remove (s : NfsSession) (parent : List String) (tempName : String) :
    (orphans name).clears (.sent ((SessionCall.remove parent tempName).ops s)) tempName :=
  Or.inr (Or.inr ⟨s, parent, rfl⟩)

/-- A removal that fits is asked for. -/
theorem safe_remove_clean (henv : env.Connected)
    (hvalid : s.validateCompoundRequest "remove" ((SessionCall.remove parent tempName).ops s) = .ok ())
    (hw : Clean name (· = tempName) w) :
    Safe (E := effects) env.serve Eq (fun _ _ => True)
      (fun r w' => (∃ x, r = .ok x) ∧ Clean name (fun _ => False) w')
      (Thread.attempt (s.call (.remove parent tempName))).run w := by
  have hclears : ∀ n, n = tempName →
      (orphans name).clears (.sent ((SessionCall.remove parent tempName).ops s)) n := by
    rintro _ rfl
    exact clears_remove ..
  exact safe_attempt ((Tidy.safe_call_sent opensOnly_orphans henv rfl hvalid hclears hw).mono
    fun r _ hr => ⟨⟨r, rfl⟩, hr⟩)

/-! ### Publishing -/

/-- The last operation of a publishing compound takes care of the temporary name. -/
def LastClears (name tempName : String) (ops : List NfsOp) : Prop :=
  ∃ before last, ops = before ++ [last] ∧ (last = .rename tempName name ∨ last = .remove tempName)

theorem LastClears.append {ops : List NfsOp} (before : List NfsOp) (h : LastClears name tempName ops) :
    LastClears name tempName (before ++ ops) := by
  obtain ⟨before', last, rfl, hlast⟩ := h
  exact ⟨before ++ before', last, (List.append_assoc ..).symm, hlast⟩

theorem lastClears_publishTail (s : NfsSession) (parent : List String) (tempName name : String)
    (createNew : Bool) :
    LastClears name tempName (SessionCall.publishTail s parent tempName name createNew) := by
  cases createNew with
  | false => exact LastClears.append _ ⟨[.saveFh], _, rfl, Or.inl rfl⟩
  | true => exact LastClears.append (.saveFh :: _) ⟨[.link name], _, rfl, Or.inr rfl⟩

theorem lastClears_putFused (s : NfsSession) (owner : Bytes) (parent : List String)
    (tempName name : String) (data : Bytes) (createNew : Bool) : LastClears name tempName
      ((SessionCall.putFused owner parent tempName name data createNew).ops s) := by
  refine LastClears.append _ ?_
  cases createNew with
  | false => exact ⟨[.restoreFh], _, rfl, Or.inl rfl⟩
  | true => exact LastClears.append (.saveFh :: _) ⟨[.link name], _, rfl, Or.inr rfl⟩

/-- A compound that was executed in full has taken care of the temporary name. -/
theorem clean_of_executed {ops : List NfsOp} {t : Replies} {x y : S × env.Ctx} {st : S}
    (hlast : LastClears name tempName ops) (hexec : env.Executes ops x t y)
    (hnone : t.failure = none)
    (hnew : ∀ n, (orphans name).Owed (happened ops t.results t.failure) n → n = tempName)
    (hw : Clean name (· = tempName) w) : Clean name (fun _ => False) (w.deliver ops t st) := by
  obtain ⟨before, last, rfl, hlast⟩ := hlast
  refine Tidy.of_last opensOnly_orphans ?_ hnone ?_ ?_ hnew hw
  · rcases hlast with rfl | rfl <;> exact nofun
  · rw [hexec.length_eq hnone, List.length_append, List.length_singleton]
  · rintro r n rfl
    rcases hlast with rfl | rfl
    · exact Or.inl ⟨r, rfl⟩
    · exact Or.inr (Or.inl ⟨r, rfl⟩)

/-- What is owed after the publish of a file that was opened before. -/
def PublishOwes (name tempName : String) {α : Type} : Except CompoundDecodeError α → World S → Prop
  | .ok _, w => Clean name (fun _ => False) w
  | .error _, w => Clean name (· = tempName) w

theorem publishOwes_of_served (henv : env.Connected) (hopen : call.mayOpen = false)
    (htyped : call.typed = fun _ _ => none) (hlast : LastClears name tempName (call.ops s))
    (hw : Clean name (· = tempName) w) {out : Except CompoundDecodeError call.Result}
    (hcall : CallServed env s call w out w') : PublishOwes name tempName out w' := by
  cases out with
  | error err => exact Tidy.quiet opensOnly_orphans henv hopen w _ w' hw hcall
  | ok v =>
    cases hcall with
    | @delivered t st ctx _ hexec _ _ hholds =>
      obtain ⟨-, ⟨hnone, -⟩ | ⟨f, -, hv⟩⟩ := hholds
      · refine clean_of_executed hlast hexec hnone (fun n hn => absurd hn ?_) hw
        refine Tidy.not_owed_happened opensOnly_orphans fun hmem => ?_
        exact SessionCall.opcode_of_not_mayOpen hopen (List.map_subset _ (List.take_subset _ _) hmem)
      · rw [SessionCall.expectation, htyped] at hv
        cases hv

theorem safe_publish_clean (henv : env.Connected) (hopen : call.mayOpen = false)
    (htyped : call.typed = fun _ _ => none) (hlast : LastClears name tempName (call.ops s))
    (retryTransients : Bool) (left : ℕ) (hw : Clean name (· = tempName) w) :
    Safe (E := effects) env.serve Eq (fun _ _ => True)
      (fun x w' => PublishOwes name tempName x.1 w')
      (s.compoundDecodeDetailed call retryTransients left) w := by
  refine Environment.safe_compoundDecodeDetailed (PublishOwes name tempName)
    (Clean name (· = tempName)) hw ?_ Tidy.stable.drift (fun _ _ => trivial) ?_
  · rintro w _ hw rfl
    exact hw
  · intro w w₁ out w' _ _ hw₁ hcall
    have howes := publishOwes_of_served henv hopen htyped hlast hw₁ hcall
    refine ⟨trivial, howes, ?_⟩
    rintro err rfl -
    exact howes

/-- What is owed after a part of the put that publishes. -/
def ResultOwes (name tempName : String) {α : Type} : Except Error α → World S → Prop
  | .ok _, w => Clean name (fun _ => False) w
  | .error _, w => Clean name (· = tempName) w

theorem safe_closePublish_clean (henv : env.Connected) (opened : OpenedFile) (size : ℕ)
    (verifier : Option Verifier) (hw : Clean name (· = tempName) w) :
    Safe (E := effects) env.serve Eq (fun _ _ => True)
      (fun r w' => ResultOwes name tempName (r.map fun _ => ()) w')
      (s.closePublish opened parent tempName name size verifier mode.createNew).run w := by
  have htail := lastClears_publishTail s parent tempName name mode.createNew
  refine safe_closePublish_of (ResultOwes name tempName) (PublishOwes name tempName) (fun _ _ _ => trivial) ?_ ?_
    (safe_publish_clean henv rfl rfl (htail.append _) true _ hw)
  · intro r w hr
    cases r with
    | ok _ => exact hr
    | error err => exact hr
  · intro err left w hclean _
    refine safe_bind ((safe_publish_clean henv rfl rfl (htail.append _) true left hclean).mono ?_)
    rintro ⟨r, _⟩ w' hr
    cases r with
    | ok _ => exact hr
    | error err => exact hr

/-! ### The fused put -/

/-- What is owed after the compound of a fused put. -/
def FusedOwes (name tempName : String) {α : Type} :
    Except CompoundDecodeError (OpenOutcome α) → World S → Prop
  | .ok _, w => Clean name (fun _ => False) w
  | .error _, w => Clean name (· = tempName) w

theorem fusedOwes_of_served (henv : env.Connected) {owner : Bytes} {data : Bytes}
    (hw : Clean name (fun _ => False) w) {out : Except CompoundDecodeError _}
    (hcall : CallServed env s (.putFused owner parent tempName name data mode.createNew) w out w') :
    FusedOwes name tempName out w' := by
  have hheld : Clean name (· = tempName) w := Tidy.mono hw fun _ h => h.elim
  cases hcall with
  | notSent => exact hheld
  | rejected => exact Tidy.send opensOnly_orphans _ hheld fun _ h _ => h
  | lost h => exact absurd h (henv _)
  | @delivered t st ctx _ hexec _ _ hholds =>
    have hnew : ∀ n, (orphans name).Owed (happened ((SessionCall.putFused owner parent tempName name
        data mode.createNew).ops s) t.results t.failure) n → n = tempName := by
      intro n hn
      obtain ⟨op, res, hop, hcode, -, -, hraises⟩ :=
        opened_of_owed opensOnly_orphans hexec (count_open_putFused ..) hn
      rw [eq_open_of_mem_putFused hop hcode] at hraises
      exact eq_of_openOwes ⟨_, _, _, _, res, rfl, hraises⟩
    match out, hholds with
    | .error err, _ => exact Tidy.deliver opensOnly_orphans hheld hnew fun _ h _ _ => h
    | .ok _, ⟨_, .inl ⟨hnone, _⟩⟩ =>
      exact clean_of_executed (lastClears_putFused ..) hexec hnone hnew hheld
    | .ok _, ⟨_, .inr ⟨f, hf, htyped⟩⟩ =>
      refine Tidy.deliver opensOnly_orphans hw (fun n hn => ?_) fun _ h => h.elim
      obtain ⟨op, res, -, -, hres, -⟩ :=
        opened_of_owed opensOnly_orphans hexec (count_open_putFused ..) hn
      exact not_opened_of_exists hexec hf htyped hres

/-- What is owed after an attempt of the fused put; when there is something, its removal
fits. -/
def TryOwes (s : NfsSession) (parent : List String) (name tempName : String) {α : Type} :
    Except Error α → World S → Prop
  | .ok _, w => Clean name (fun _ => False) w
  | .error _, w => Clean name (· = tempName) w ∧
      s.validateCompoundRequest "remove" ((SessionCall.remove parent tempName).ops s) = .ok ()

section

variable (henv : env.Connected)
include henv

theorem safe_putFused_clean {owner : Bytes} {data : Bytes} (left : ℕ)
    (hw : Clean name (fun _ => False) w) :
    Safe (E := effects) env.serve Eq (fun _ _ => True) (fun x w' => FusedOwes name tempName x.1 w')
      (s.compoundDecodeDetailed (.putFused owner parent tempName name data mode.createNew) false
        left) w := by
  let post : Except CompoundDecodeError
      (SessionCall.putFused owner parent tempName name data mode.createNew).Result →
      World S → Prop := FusedOwes name tempName
  refine Environment.safe_compoundDecodeDetailed post (Clean name fun _ => False) hw ?_
    Tidy.stable.drift (fun _ _ => trivial) ?_
  · rintro w _ hw rfl
    exact hw
  · intro w w₁ out w' _ _ hw₁ hcall
    exact ⟨trivial, fusedOwes_of_served henv hw₁ hcall, nofun⟩

theorem safe_tryPutFused_clean (data : Bytes) (hw : Clean name (fun _ => False) w) :
    Safe (E := effects) env.serve Eq (fun _ _ => True) (TryOwes s parent name tempName)
      (s.tryPutFused parent tempName name data mode.createNew).run w := by
  refine safe_tryPutFused_of (fun _ => FusedOwes name tempName) trivial hw
    (fun owner _ => safe_putFused_clean henv _ hw) ?_ (fun _ _ h => h) ?_
  · intro owner err w' hvalid h
    have hremove := NfsSession.validate_remove_of_putFused hvalid
    exact ⟨fun _ => ⟨h, hremove⟩, trivial, fun _ => ⟨⟨h.late, h.owed⟩, hremove⟩⟩
  · intro owner stateid fh write w' hvalid h
    exact ⟨fun _ => h, fun _ _ => ⟨Tidy.mono h fun _ h => h.elim,
      NfsSession.validate_remove_of_putFused hvalid⟩⟩

theorem safe_putFusedFrom_clean (rawPath : String) (data : Bytes) (n : ℕ)
    (hw : Clean name (fun _ => False) w) :
    Safe (E := effects) env.serve Eq (fun _ _ => True) (fun _ w' => Clean name (fun _ => False) w')
      (putFusedFrom s parent name rawPath data mode n).run w := by
  refine safe_putFusedFrom_of (Clean name fun _ => False)
    (fun tempName => TryOwes s parent name tempName) hw
    (fun w hw => ⟨trivial, hw⟩) (fun tempName w hw => safe_tryPutFused_clean henv data hw) ?_
    (fun _ _ h => h) (fun _ _ h => h) fun tempName err w h => safe_remove_clean henv h.2 h.1
  intro tempName size opened w hw
  have hclose : env.Quiet (Clean name fun _ => False) s (.closeFile opened) :=
    Tidy.quiet opensOnly_orphans henv rfl
  exact (keeps_closePublished Tidy.stable hclose).safe (fun _ _ => trivial) hw

/-! ### Attempts -/

/-- What is owed when the file is open under a temporary name. -/
def Open (s : NfsSession) (parent : List String) (name tempName : String) (w : World S) : Prop :=
  Clean name (· = tempName) w ∧
    s.validateCompoundRequest "remove" ((SessionCall.remove parent tempName).ops s) = .ok ()

theorem safe_publishTempFile_clean (rawPath : String) (opened : OpenedFile) (outcome : WriteOutcome)
    (hw : Open s parent name tempName w) :
    Safe (E := effects) env.serve Eq (fun _ _ => True) (fun _ w' => Clean name (fun _ => False) w')
      (publishTempFile s parent tempName name rawPath opened outcome mode).run w :=
  safe_publishTempFile_of (ResultOwes name tempName) (safe_closePublish_clean henv opened _ _ hw.1)
    (fun _ h => h) fun _ _ h => safe_remove_clean henv hw.2 h

theorem safe_abandon_clean (opened : OpenedFile) (err : Error) (hw : Open s parent name tempName w) :
    Safe (E := effects) env.serve Eq (fun _ _ => True) (fun _ w' => Clean name (fun _ => False) w')
      (abandon s parent tempName opened err).run w := by
  have hclose : env.Quiet (Clean name (· = tempName)) s (.closeFile opened) :=
    Tidy.quiet opensOnly_orphans henv rfl
  refine safe_abandon_of (Clean name (· = tempName))
    ((keeps_closeFile Tidy.stable hclose).safe_attempt (fun _ _ => trivial) hw.1) ?_
  intro w hw'
  exact (safe_remove_clean henv hw.2 hw').mono fun r w' h => ⟨h.1, fun _ => h.2⟩

variable (hopens : env.OpensComplete)
include hopens

theorem ensures_putMulti_clean (rawPath : String) (data : Bytes) (hw : Clean name (fun _ => False) w) :
    Ensures (E := effects) env.serve (fun _ => True) (putMulti s parent name rawPath data mode).run w
      fun _ w' => Clean name (fun _ => False) w' := by
  refine ensures_putMulti_of (TempOwes env (orphans name) (fun _ _ => False) s parent)
    (fun tempName _ _ => Open s parent name tempName) trivial
    (safe_openTempFileIn_owes opensOnly_orphans henv hopens hw) (fun _ _ h => h) ?_
    (fun tempName opened outcome w hw => safe_publishTempFile_clean henv rawPath opened outcome hw)
    (fun tempName opened err w hw => safe_abandon_clean henv opened err hw)
  rintro tempName opened w - ⟨howes, -, -, owner, hvalid⟩
  have hopen : Clean name (· = tempName) w := Tidy.mono howes fun n hn => eq_of_openOwes hn
  have hwrite : env.KeepsProg (Clean name (· = tempName)) (writeBytes s opened data) :=
    keeps_writeBytes Tidy.stable (fun _ _ => Tidy.quiet opensOnly_orphans henv rfl)
      (fun _ _ => Tidy.quiet opensOnly_orphans henv rfl) data
  refine ((hwrite w hopen).weaken fun _ _ => trivial).mono fun r w' _ hw' => ⟨hw', ?_⟩
  exact NfsSession.validate_remove_of_openFile hvalid

theorem ensures_putOnce_clean {path : NfsPath} (hpath : path.parentAndName = .ok (parent, name))
    (rawPath : String) (data : Bytes) (hw : Clean name (fun _ => False) w) :
    Ensures (E := effects) env.serve (fun _ => True) (putOnce s path rawPath data mode).run w
      fun _ w' => Clean name (fun _ => False) w' := by
  refine ensures_putOnce_of (fun _ w' => Clean name (fun _ => False) w') hpath trivial ?_
    (fun _ h => h) (fun _ _ h => h) fun w _ hw => ensures_putMulti_clean henv hopens rawPath data hw
  refine safe_bindExcept (safe_lift (safe_fusedPutViable trivial fun viable => ?_))
  dsimp only
  split
  · exact safe_putFusedFrom_clean henv rawPath data _ hw
  · exact hw

end

/-- **A put leaves no temporary file behind**, as long as the client stays connected and every
compound that opens a file and gets to open it also returns its handle: whenever the put
returns, each temporary file it created was published or removed, or its removal was asked
for. -/
theorem put_leaves_no_orphans (env : Environment S) (henv : env.Connected)
    (hopens : env.OpensComplete) (rawPath : String) (body : Bytes) (mode : PutMode) (st : S) :
    Ensures (E := effects) env.serve (fun _ => True) (put rawPath body mode).run { state := st }
      fun _ w => ∀ path parent name, NfsPath.file rawPath = .ok path →
        path.parentAndName = .ok (parent, name) → ∀ n, ¬ (orphans name).Owed w.events n := by
  cases hfile : NfsPath.file rawPath with
  | error err =>
    refine ensures_bindExcept (ensures_except trivial ?_)
    rw [hfile]
    exact nofun
  | ok path =>
    obtain ⟨parent, name, hpath, -⟩ := NfsPath.parentAndName_file hfile
    have hstart : Clean name (fun _ => False) ({ state := st } : World S) :=
      ⟨rfl, fun n hn => absurd hn Ledger.not_owed_nil⟩
    have hput : Ensures (E := effects) env.serve (fun _ => True) (put rawPath body mode).run
        { state := st } fun _ w => Clean name (fun _ => False) w := by
      refine ensures_put_of (Clean name fun _ => False) hfile hstart (fun _ _ => trivial)
        (fun _ _ h => h) fun s w _ hw => ?_
      refine (ensures_putOnce_clean henv hopens hpath rawPath body hw).mono ?_
      exact fun _ w' _ hw' => ⟨hw', fun _ _ _ => hw'⟩
    refine hput.mono ?_
    rintro r w - hw path' parent' name' hfile' hpath' n hn
    cases hfile'
    rw [hpath] at hpath'
    cases hpath'
    exact (hw.owed n hn).elim id fun ⟨_, _, h⟩ => h

/-- A server that answers anything, except that a file it opens for a put in several compounds
is always returned. -/
def completingServer : Environment Unit :=
  { anyServer false with
    admits := fun ops _ t => ∀ s owner parent name,
      ops = (SessionCall.openFile owner parent name).ops s → (∃ res, .«open» res ∈ t.results) →
        t.failure = none ∧ (SessionCall.openFile owner parent name).Supported t.results }

theorem completingServer_connected : completingServer.Connected := fun _ h => Bool.noConfusion h

theorem completingServer_opensComplete : completingServer.OpensComplete :=
  fun s owner parent name _ _ _ _ hadmits => hadmits s owner parent name rfl

theorem put_leaves_no_orphans_completingServer :
    completingServer.Connected ∧ completingServer.OpensComplete ∧
    Ensures (E := effects) completingServer.serve (fun _ => True) (put "/d/f" [1, 2] .overwrite).run
      { state := () } fun _ w => ∀ path parent name, NfsPath.file "/d/f" = .ok path →
        path.parentAndName = .ok (parent, name) → ∀ n, ¬ (orphans name).Owed w.events n :=
  ⟨completingServer_connected, completingServer_opensComplete,
    put_leaves_no_orphans completingServer completingServer_connected completingServer_opensComplete
      "/d/f" [1, 2] .overwrite ()⟩

/-- The session of a client that writes single bytes. -/
def byteSession : NfsSession :=
  { plainSession with config := { plainSession.config with writeChunkSize := 1 } }

/-- The last thing that happened, seen from the end, is a refusal right after the file was
opened. -/
def stoppedAfterOpen : List Event → Bool
  | .refused _ _ :: .executed (.«open» _ _ _ n _) _ :: _ => n == "t"
  | _ => false

/-- The `GETFH` after an `OPEN` fails: the put returns, and the temporary file stays. -/
theorem put_leaves_orphan :
    ∃ result w, ReflTransGen (Step (anyServer false).serve)
      ((put "/f" [1, 2] .overwrite).run, { state := () }) (.ret result, w) ∧
      (orphans "f").Owed w.events "t" := by
  let c : Stage Unit Replies :=
    ⟨[.answer ⟨[.putFh, .«open» plainOpen], some ⟨.getFh, .ACCESS⟩⟩], { state := () }⟩
  obtain ⟨result, c', hrun, htest⟩ := Prog.exists_run_of_play (anyScript byteSession "t" false).plays
    20 (put "/f" [1, 2] .overwrite).run c (fun _ c' => stoppedAfterOpen c'.world.events.reverse)
    (by decide +kernel)
  refine ⟨result, c'.world, hrun, ?_⟩
  simp only [stoppedAfterOpen] at htest
  split at htest
  · next rest f seqid clientid owner n mode r before hevents =>
    rw [List.reverse_eq_iff, List.reverse_cons, List.reverse_cons, List.append_assoc] at hevents
    refine ⟨before.reverse, _, [.refused rest f], hevents, ⟨seqid, clientid, owner, mode, r, ?_⟩, ?_⟩
    · rw [beq_iff_eq.mp htest]
    · intro y hy
      rw [List.mem_singleton.mp hy]
      rintro (⟨_, h⟩ | ⟨_, h⟩ | ⟨_, _, h⟩) <;> cases h
  · cases htest

end NfsCrust
