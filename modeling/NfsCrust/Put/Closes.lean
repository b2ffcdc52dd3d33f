import NfsCrust.Put.Deferred
import NfsCrust.Put.Tidy
import NfsCrust.Server.Script

/-!
# The open states a put leaves behind

A put closes the file it opened, in the compound that publishes it, in a compound of its
own, or by handing it to the worker that closes files.  It cannot when it never learns
of the open state: the `OPEN` succeeds, and the compound stops after it.  Nor does it when
the compound that publishes the file stops before its `CLOSE`.

## Main definitions

* `Environment.KeepsTrack` — a server on which none of this happens.

## Main results

* `put_closes_states` — every open state is closed, or in the hands of the worker.
* `put_leaves_state` — one that is not.
-/

namespace NfsCrust

open Interaction Thread Environment Relation

variable {S : Type} {env : Environment S} {s : NfsSession} {w w' : World S}
  {parent : List String} {name tempName : String} {mode : PutMode} {stateid : StateId}
  {opened : OpenedFile} {data : Bytes}

/-! ### The conditions -/

/-- A compound that publishes a file fits, is not rejected at `SEQUENCE`, and gets to the
`CLOSE` of the file. -/
structure Environment.ReachesClose (env : Environment S) (s : NfsSession) (opened : OpenedFile)
    (call : SessionCall) : Prop where
  valid : s.validateCompoundRequest call.tag (call.ops s) = .ok ()
  accepted : ¬ env.rejects (call.ops s)
  reached : ∀ st t x, env.Executes (call.ops s) (st, env.start) t x → env.admits (call.ops s) st t →
    .close opened.closeSeqid opened.stateid ∈ (call.ops s).take (t.results.length + 1)

/-- For puts of a body to a name: a fused compound whose `OPEN` succeeds is executed in full, with a
`WRITE` of all the data; a compound that opens a file and gets to open it returns its
handle; and there is room to close a file, alone and with its publish, which gets to its
`CLOSE`. -/
structure Environment.KeepsTrack (env : Environment S) (parent : List String) (name : String)
    (data : Bytes) (createNew : Bool) : Prop where
  fused : ∀ s owner tempName st t x,
    env.Executes ((SessionCall.putFused owner parent tempName name data createNew).ops s)
      (st, env.start) t x →
    env.admits ((SessionCall.putFused owner parent tempName name data createNew).ops s) st t →
    (∃ res, .«open» res ∈ t.results) → t.failure = none ∧
      (SessionCall.putFused owner parent tempName name data createNew).Supported t.results ∧
      ∀ write : WriteData, .write write.count write.committed write.verifier ∈ t.results →
        write.count.toNat = data.length
  opens : env.OpensComplete
  room : ∀ s opened, env.session s → opened.fh.bytes.length ≤ 128 → RoomToClose s opened
  publish : ∀ s opened tempName size verifier, env.session s → opened.fh.bytes.length ≤ 128 →
    (∃ st, env.tempName st tempName) →
      env.ReachesClose s opened (.closePublish opened parent tempName name size verifier createNew)

/-! ### What is owed -/

theorem opensOnly_openStates : OpensOnly openStates := by
  rintro e stateid ⟨seqid, clientid, owner, name, mode, res, rfl, -⟩
  exact ⟨_, _, rfl, rfl⟩

theorem eq_stateid_of_openOwes {stateid' : StateId}
    (h : OpenOwes openStates tempName stateid stateid') : stateid' = stateid := by
  obtain ⟨_, _, _, _, res, hres, _, _, _, _, _, res', heq, rfl⟩ := h
  cases heq
  exact hres

/-- The worker has what it needs to close a file. -/
def Deferred (env : Environment S) (x : NfsSession × OpenedFile) (stateid : StateId) : Prop :=
  x.2.stateid = stateid ∧ env.session x.1 ∧ x.2.fh.bytes.length ≤ 128

/-- The open states that are owed at most, apart from those the worker has. -/
def States (env : Environment S) (held : StateId → Prop) : World S → Prop :=
  Tidy openStates (Deferred env) held

section

variable (henv : env.Connected)
include henv

/-- A file is closed in a compound of its own. -/
theorem safe_closeFile_states (hroom : RoomToClose s opened)
    (hw : States env (· = opened.stateid) w) :
    Safe (E := effects) env.serve Eq (fun _ _ => True)
      (fun r w' => (∃ x, r = .ok x) ∧ States env (fun _ => False) w')
      (Thread.attempt (s.closeFile opened)).run w := by
  have hclears : ∀ stateid, stateid = opened.stateid →
      openStates.clears (.sent ((SessionCall.closeFile opened).ops s)) stateid := by
    rintro _ rfl
    exact clears_closeFile s opened
  have hsent := Tidy.safe_call_sent opensOnly_openStates henv rfl hroom hclears hw
  refine safe_attempt (safe_bindExcept (hsent.mono fun r w₁ hw₁ => ?_))
  cases r with
  | ok _ => exact ⟨⟨_, rfl⟩, hw₁⟩
  | error err => exact ⟨⟨_, rfl⟩, hw₁⟩

/-! ### Publishing -/

theorem states_of_served {call : SessionCall} (hopen : call.mayOpen = false)
    (hreaches : env.ReachesClose s opened call) (hw : States env (· = opened.stateid) w)
    {out : Except CompoundDecodeError call.Result} (hserved : CallServed env s call w out w') :
    States env (fun _ => False) w' := by
  cases hserved with
  | notSent h =>
    rcases h with h | ⟨err, h⟩
    · exact absurd h (henv _)
    · rw [hreaches.valid] at h
      cases h
  | rejected h => exact absurd h hreaches.accepted
  | lost h => exact absurd h (henv _)
  | @delivered t st ctx _ hexec hadmits _ _ =>
    refine Tidy.deliver opensOnly_openStates hw (fun k hk => ?_) ?_
    · refine Tidy.not_owed_happened opensOnly_openStates (fun hmem => ?_) hk
      exact SessionCall.opcode_of_not_mayOpen hopen (List.map_subset _ (List.take_subset _ _) hmem)
    · rintro _ rfl - hnot
      rcases hexec.reached_mem (hreaches.reached _ t _ hexec hadmits) with ⟨r, hr⟩ | ⟨rest, f, hr⟩
      · exact hnot _ hr (Or.inl ⟨_, r, rfl⟩)
      · exact hnot _ hr (Or.inr (Or.inl ⟨_, rest, f, rfl⟩))

theorem safe_closePublish_states {size : ℕ} {verifier : Option Verifier}
    (hreaches : env.ReachesClose s opened
      (.closePublish opened parent tempName name size verifier mode.createNew))
    (hw : States env (· = opened.stateid) w) :
    Safe (E := effects) env.serve Eq (fun _ _ => True) (fun _ w' => States env (fun _ => False) w')
      (s.closePublish opened parent tempName name size verifier mode.createNew).run w := by
  have hcall : Safe (E := effects) env.serve Eq (fun _ _ => True)
      (fun x w' => States env (fun _ => False) w') (s.compoundDecodeDetailed (.closePublish opened
        parent tempName name size verifier mode.createNew) true s.transientRetries) w := by
    refine Environment.safe_compoundDecodeDetailed (fun _ => States env fun _ => False)
      (States env (· = opened.stateid)) hw ?_ Tidy.stable.drift (fun _ _ => trivial) ?_
    · rintro w _ hw rfl
      exact hw
    · intro w w₁ out w' _ _ hw₁ hserved
      have hclosed := states_of_served henv rfl hreaches hw₁ hserved
      exact ⟨trivial, hclosed, fun _ _ _ => Tidy.mono hclosed fun _ h => h.elim⟩
  refine safe_closePublish_of (fun _ => States env fun _ => False)
    (fun _ => States env fun _ => False) (fun _ _ _ => trivial) (fun _ _ h => h) ?_ hcall
  intro err left w hw _
  refine safe_bind ((Environment.safe_compoundDecodeDetailed (fun _ => States env fun _ => False)
    (States env fun _ => False) hw ?_ Tidy.stable.drift (fun _ _ => trivial) ?_).mono ?_)
  · rintro w _ hw rfl
    exact hw
  · intro w w₁ out w' _ _ hw₁ hserved
    have hw' := Tidy.quiet opensOnly_openStates henv rfl w₁ out w' hw₁ hserved
    exact ⟨trivial, hw', fun _ _ _ => hw'⟩
  · exact fun x w' hw' => hw'

/-! ### The fused put -/

/-- What is owed after the compound of a fused put. -/
def FusedStates (env : Environment S) (data : Bytes) :
    Except CompoundDecodeError (OpenOutcome (StateId × FileHandle × WriteData)) → World S → Prop
  | .ok (.opened (stateid, fh, write)), w => States env (· = stateid) w ∧ fh.bytes.length ≤ 128 ∧
      write.count.toNat = data.length
  | .ok .exists, w | .error _, w => States env (fun _ => False) w

variable {createNew : Bool} (htrack : env.KeepsTrack parent name data createNew)
include htrack

theorem fusedStates_of_served {owner : Bytes} (hw : States env (fun _ => False) w)
    {out : Except CompoundDecodeError _}
    (hserved : CallServed env s (.putFused owner parent tempName name data createNew) w out w') :
    FusedStates env data out w' := by
  cases hserved with
  | notSent => exact hw
  | rejected => exact Tidy.send opensOnly_openStates _ hw fun _ h => h.elim
  | lost h => exact absurd h (henv _)
  | @delivered t st ctx _ hexec hadmits _ hholds =>
    by_cases hopen : ∃ res, .«open» res ∈ t.results
    · -- the compound was executed in full, and the client learns of the open state
      obtain ⟨hnone, hsupported, hcount⟩ := htrack.fused s owner tempName _ t _ hexec hadmits hopen
      match out, hholds with
      | .error err, .inl ⟨_, f, hf, _⟩ | .ok v, ⟨_, .inr ⟨f, hf, _⟩⟩ =>
        rw [hnone] at hf
        cases hf
      | .error err, .inr ⟨_, hunsupported⟩ => exact absurd hsupported hunsupported
      | .ok v, ⟨_, .inl ⟨_, hv⟩⟩ =>
        obtain ⟨stateid, hstateid, hv⟩ := Option.bind_eq_some_iff.mp hv
        obtain ⟨fh, hfh, hv⟩ := Option.bind_eq_some_iff.mp hv
        obtain ⟨write, hwrite, hv⟩ := Option.bind_eq_some_iff.mp hv
        cases hv
        refine ⟨Tidy.deliver opensOnly_openStates hw (fun k hk => ?_) fun _ h => h.elim,
          hsupported.handle_le hfh, hcount write (mem_of_findSome?_write hwrite)⟩
        obtain ⟨op, res, -, -, -, hres, _, _, _, _, _, res', heq, rfl⟩ :=
          opened_of_owed opensOnly_openStates hexec (count_open_putFused ..) hk
        cases heq
        rw [hstateid] at hres
        exact (Option.some.inj hres).symm
    · have hclean : States env (fun _ => False) (w.deliver
          ((SessionCall.putFused owner parent tempName name data createNew).ops s) t st) := by
        refine Tidy.deliver opensOnly_openStates hw (fun k hk => ?_) fun _ h => h.elim
        obtain ⟨op, res, -, -, hres, -⟩ :=
          opened_of_owed opensOnly_openStates hexec (count_open_putFused ..) hk
        exact hopen ⟨res, hres⟩
      match out, hholds with
      | .error err, _ | .ok .exists, _ => exact hclean
      | .ok (.opened _), ⟨_, .inl ⟨_, hv⟩⟩ =>
        obtain ⟨stateid', hstateid, -⟩ := Option.bind_eq_some_iff.mp hv
        exact absurd (open_mem_of_findSome? hstateid) hopen
      | .ok (.opened _), ⟨_, .inr ⟨f, _, htyped⟩⟩ =>
        simp only [SessionCall.expectation, SessionCall.typed, caughtExist] at htyped
        split at htyped <;> cases htyped

theorem safe_putFused_states {owner : Bytes} (left : ℕ) (hw : States env (fun _ => False) w) :
    Safe (E := effects) env.serve Eq (fun _ _ => True) (fun x w' => FusedStates env data x.1 w')
      (s.compoundDecodeDetailed (.putFused owner parent tempName name data createNew) false left)
      w := by
  let post : Except CompoundDecodeError
      (SessionCall.putFused owner parent tempName name data createNew).Result →
      World S → Prop := FusedStates env data
  refine Environment.safe_compoundDecodeDetailed post (States env fun _ => False) hw ?_
    Tidy.stable.drift (fun _ _ => trivial) ?_
  · rintro w _ hw rfl
    exact hw
  · intro w w₁ out w' _ _ hw₁ hcall
    exact ⟨trivial, fusedStates_of_served henv htrack hw₁ hcall, nofun⟩

/-- What is owed after an attempt of the fused put. -/
def TryStates (env : Environment S) :
    Except Error (Option (OpenOutcome (ℕ × OpenedFile))) → World S → Prop
  | .ok (some (.opened (_, opened))), w =>
      States env (· = opened.stateid) w ∧ opened.fh.bytes.length ≤ 128
  | .ok (some .exists), w | .ok none, w | .error _, w => States env (fun _ => False) w

theorem safe_tryPutFused_states (hw : States env (fun _ => False) w) :
    Safe (E := effects) env.serve Eq (fun _ _ => True) (TryStates env)
      (s.tryPutFused parent tempName name data createNew).run w := by
  refine safe_tryPutFused_of (fun _ => FusedStates env data) trivial hw
    (fun owner _ => safe_putFused_states henv htrack _ hw) ?_ (fun _ _ h => h) ?_
  · exact fun owner err w' _ h => ⟨fun _ => h, trivial, fun _ => ⟨h.late, h.owed⟩⟩
  · rintro owner stateid fh write w' - ⟨hstate, hfh, hcount⟩
    exact ⟨fun _ => ⟨hstate, hfh⟩, fun hne => absurd hcount hne⟩

end

section

variable (henv : env.Connected) (hsession : env.session s)
  (htrack : env.KeepsTrack parent name data mode.createNew)
include henv hsession htrack

theorem safe_closePublished_states (hfh : opened.fh.bytes.length ≤ 128)
    (hw : States env (· = opened.stateid) w) :
    Safe (E := effects) env.serve Eq (fun _ _ => True) (fun _ w' => States env (fun _ => False) w')
      (closePublished s opened).run w := by
  refine safe_bindExcept (safe_lift (safe_perform ?_))
  rintro w₁ queued w' rfl ⟨htrue, hfalse⟩
  refine ⟨trivial, ?_⟩
  cases queued with
  | true =>
    obtain rfl := htrue rfl
    refine ⟨hw.late, fun k hk => Or.inr ?_⟩
    rcases hw.owed k hk with rfl | ⟨x, hx, hdeferred⟩
    · exact ⟨(s, opened), by simp, rfl, hsession, hfh⟩
    · exact ⟨x, List.mem_append_left _ hx, hdeferred⟩
  | false =>
    obtain rfl := hfalse rfl
    refine safe_bindExcept ((safe_closeFile_states henv (htrack.room s opened hsession hfh) hw).mono ?_)
    rintro _ w₁ ⟨⟨_, rfl⟩, hw₁⟩
    exact hw₁

theorem safe_putFusedFrom_states (rawPath : String) (n : ℕ)
    (hw : States env (fun _ => False) w) :
    Safe (E := effects) env.serve Eq (fun _ _ => True) (fun _ w' => States env (fun _ => False) w')
      (putFusedFrom s parent name rawPath data mode n).run w := by
  refine safe_putFusedFrom_of (States env fun _ => False) (fun _ => TryStates env) hw
    (fun w hw => ⟨trivial, hw⟩) (fun tempName w hw => safe_tryPutFused_states henv htrack hw)
    (fun tempName size opened w h => safe_closePublished_states henv hsession htrack h.2 h.1)
    (fun _ _ h => h) (fun _ _ h => h) fun tempName err w hw => ?_
  have hremove : env.Quiet (States env fun _ => False) s (.remove parent tempName) :=
    Tidy.quiet opensOnly_openStates henv rfl
  exact (keeps_call Tidy.stable hremove).safe_attempt (fun _ _ => trivial) hw

/-! ### Attempts -/

/-- What is owed when the file is open under a temporary name. -/
def OpenStates (env : Environment S) (tempName : String) (opened : OpenedFile) (w : World S) : Prop :=
  States env (· = opened.stateid) w ∧ opened.fh.bytes.length ≤ 128 ∧ ∃ st, env.tempName st tempName

theorem safe_publishTempFile_states (rawPath : String) (outcome : WriteOutcome)
    (hw : OpenStates env tempName opened w) :
    Safe (E := effects) env.serve Eq (fun _ _ => True) (fun _ w' => States env (fun _ => False) w')
      (publishTempFile s parent tempName name rawPath opened outcome mode).run w := by
  obtain ⟨hw, hfh, hname⟩ := hw
  refine safe_publishTempFile_of (fun _ => States env fun _ => False)
    (safe_closePublish_states henv (htrack.publish s opened tempName _ _ hsession hfh hname) hw)
    (fun _ h => h) fun err w hw => ?_
  have hremove : env.Quiet (States env fun _ => False) s (.remove parent tempName) :=
    Tidy.quiet opensOnly_openStates henv rfl
  exact (keeps_call Tidy.stable hremove).safe_attempt (fun _ _ => trivial) hw

theorem safe_abandon_states (err : Error) (hw : OpenStates env tempName opened w) :
    Safe (E := effects) env.serve Eq (fun _ _ => True) (fun _ w' => States env (fun _ => False) w')
      (abandon s parent tempName opened err).run w := by
  obtain ⟨hw, hfh, -⟩ := hw
  refine safe_abandon_of (States env fun _ => False)
    (safe_closeFile_states henv (htrack.room s opened hsession hfh) hw) fun w hw => ?_
  have hremove : env.Quiet (States env fun _ => False) s (.remove parent tempName) :=
    Tidy.quiet opensOnly_openStates henv rfl
  exact ((keeps_call Tidy.stable hremove).safe_attempt (fun _ _ => trivial) hw).mono
    fun r w' h => ⟨h.1, fun _ => h.2⟩

theorem ensures_putMulti_states (rawPath : String)
    (hw : States env (fun _ => False) w) :
    Ensures (E := effects) env.serve (fun _ => True) (putMulti s parent name rawPath data mode).run w
      fun _ w' => States env (fun _ => False) w' := by
  refine ensures_putMulti_of (TempOwes env openStates (Deferred env) s parent)
    (fun tempName opened _ => OpenStates env tempName opened) trivial
    (safe_openTempFileIn_owes opensOnly_openStates henv htrack.opens hw) (fun _ _ h => h) ?_
    (fun tempName opened outcome w hw =>
      safe_publishTempFile_states henv hsession htrack rawPath outcome hw)
    (fun tempName opened err w hw => safe_abandon_states henv hsession htrack err hw)
  rintro tempName opened w - ⟨howes, hfh, hname, -⟩
  have hopen : States env (· = opened.stateid) w :=
    Tidy.mono howes fun _ h => eq_stateid_of_openOwes h
  have hwrite : env.KeepsProg (States env (· = opened.stateid)) (writeBytes s opened data) :=
    keeps_writeBytes Tidy.stable (fun _ _ => Tidy.quiet opensOnly_openStates henv rfl)
      (fun _ _ => Tidy.quiet opensOnly_openStates henv rfl) data
  exact ((hwrite w hopen).weaken fun _ _ => trivial).mono fun r w' _ hw' => ⟨hw', hfh, hname⟩

theorem ensures_putOnce_states {path : NfsPath} (hpath : path.parentAndName = .ok (parent, name))
    (rawPath : String) (hw : States env (fun _ => False) w) :
    Ensures (E := effects) env.serve (fun _ => True) (putOnce s path rawPath data mode).run w
      fun _ w' => States env (fun _ => False) w' := by
  refine ensures_putOnce_of (fun _ w' => States env (fun _ => False) w') hpath trivial ?_
    (fun _ h => h) (fun _ _ h => h)
    fun w _ hw => ensures_putMulti_states henv hsession htrack rawPath hw
  refine safe_bindExcept (safe_lift (safe_fusedPutViable trivial fun viable => ?_))
  dsimp only
  split
  · exact safe_putFusedFrom_states henv hsession htrack rawPath _ hw
  · exact hw

end

/-! ### A server that does everything -/

/-- The result of an operation of a put that succeeds. -/
def plainResult : NfsOp → Option OpRes
  | .putFh _ => some .putFh
  | .lookup _ => some .lookup
  | .saveFh => some .saveFh
  | .restoreFh => some .restoreFh
  | .getFh => some (.getFh ⟨[2], by decide⟩)
  | .«open» .. => some (.«open» plainOpen)
  | .close _ stateid => some (.close stateid)
  | .write _ _ data => some (.write (.ofNat data.length) .fileSync (.replicate 8 0))
  | .commit .. => some (.commit (.replicate 8 0))
  | .link _ => some (.link ⟨true, 0, 1⟩)
  | .remove _ => some (.remove ⟨true, 0, 1⟩)
  | .verify _ => some .verify
  | .rename .. => some (.rename ⟨true, 0, 1⟩ ⟨true, 0, 1⟩)
  | .createDir .. => some (.create ⟨true, 0, 1⟩ ⟨[], WireBitmap.short_nil⟩)
  | _ => none

/-- A server on which every operation of a put succeeds. -/
def obligingServer : Environment Unit where
  Ctx := Unit
  start := ()
  exec op _ r _ := plainResult op = some r
  refuse op _ f := plainResult op = none ∧ f = ⟨op.opcode, .NOTSUPP⟩
  within _ _ := False
  between _ _ := False
  admits _ _ _ := True
  rejects ops := 2 ^ 31 ≤ ops.length
  faults _ := False
  latches := False
  tempName _ name := name = "t"
  session s := s = plainSession
  opcode {op x r y} h := by cases op <;> cases h <;> rfl
  answers {op x f} h := by
    obtain ⟨-, rfl⟩ := h
    exact ⟨(by decide : NfsStatus.NOTSUPP ≠ .OK), Or.inl rfl⟩

section

variable {ops : List NfsOp} {t : Replies} {x y : Unit × obligingServer.Ctx}

theorem plain_of_mem (h : obligingServer.Executes ops x t y) {r : OpRes} (hr : r ∈ t.results) :
    ∃ op ∈ ops, plainResult op = some r := by
  induction h with
  | done | refused => cases hr
  | @next op ops _ _ _ _ r' results failure hop _ _ ih =>
    rcases List.mem_cons.mp hr with rfl | hr
    · exact ⟨op, List.mem_cons_self, hop⟩
    · obtain ⟨op', hmem, hop'⟩ := ih hr
      exact ⟨op', List.mem_cons_of_mem _ hmem, hop'⟩

theorem failure_eq_none (h : obligingServer.Executes ops x t y)
    (hplain : ∀ op ∈ ops, (plainResult op).isSome = true) : t.failure = none := by
  induction h with
  | done => rfl
  | refused h =>
    have hsome := hplain _ List.mem_cons_self
    rw [h.1] at hsome
    cases hsome
  | next _ _ _ ih => exact ih fun op hop => hplain op (List.mem_cons_of_mem _ hop)

theorem exists_executes (ops : List NfsOp) :
    ∃ t, obligingServer.Executes ops ((), ()) t ((), ()) := by
  induction ops with
  | nil => exact ⟨_, .done⟩
  | cons op ops ih =>
    cases hop : plainResult op with
    | none => exact ⟨_, @Executes.refused Unit obligingServer op ops _ _ ⟨hop, rfl⟩⟩
    | some r =>
      obtain ⟨t, ht⟩ := ih
      exact ⟨_, @Executes.next Unit obligingServer op ops _ ((), ()) _ () r _ _ hop .refl ht⟩

theorem supported_of_plain {call : SessionCall} (h : obligingServer.Executes ops x t y)
    (hchecked : call.Checked t.results) : call.Supported t.results where
  «open» res hres := by
    obtain ⟨op, -, hop⟩ := plain_of_mem h hres
    cases op <;> cases hop
    exact ⟨trivial, rfl⟩
  handle fh hfh := by
    obtain ⟨op, -, hop⟩ := plain_of_mem h hfh
    cases op <;> cases hop
    decide
  attrs attrs request hattrs := by
    obtain ⟨op, -, hop⟩ := plain_of_mem h hattrs
    cases op <;> cases hop
  names verifier listed eof hlisted := by
    obtain ⟨op, -, hop⟩ := plain_of_mem h hlisted
    cases op <;> cases hop
  checked := hchecked

end

theorem obligingServer_responsive : obligingServer.Responsive := by
  refine responsive_of_executes (fun ops _ => ?_) (fun _ => ⟨"t", rfl⟩) ⟨plainSession, rfl⟩
  by_cases hlong : 2 ^ 31 ≤ ops.length
  · exact Or.inr hlong
  · obtain ⟨t, ht⟩ := exists_executes ops
    exact Or.inl ⟨t, (), (), ht, trivial, Nat.lt_of_le_of_lt ht.length_le (Nat.not_le.mp hlong)⟩

theorem eq_write_of_plain {op : NfsOp} {write : WriteData}
    (h : plainResult op = some (.write write.count write.committed write.verifier)) :
    ∃ stateid offset data, op = .write stateid offset data ∧
      write.count = .ofNat data.length ∧ write.committed = .fileSync := by
  cases op with
  | write stateid offset data =>
    simp only [plainResult, Option.some.injEq, OpRes.write.injEq] at h
    exact ⟨stateid, offset, data, rfl, h.1.symm, h.2.1.symm⟩
  | _ => cases h

theorem plain_path {root : FileHandle} {components : List String} {op : NfsOp}
    (h : op ∈ exportPathOps root components) : (plainResult op).isSome = true := by
  rcases List.mem_cons.mp h with rfl | h
  · rfl
  · obtain ⟨component, -, rfl⟩ := List.mem_map.mp h
    rfl

/-- A large request that fits, which closes and publishes. -/
def largeCall : SessionCall :=
  .closePublish ⟨⟨.replicate 128 0⟩, .anonymous, 0⟩ ["d"] "t" "f" 0 (some (.replicate 8 0)) false

theorem validate_largeCall : plainSession.validateCompoundRequest largeCall.tag
    (largeCall.ops plainSession) = .ok () := by
  decide +kernel

theorem opsLen_closePublish_le {opened : OpenedFile} (h : opened.fh.bytes.length ≤ 128) (size : ℕ)
    (verifier : Option Verifier) :
    opsLen ((SessionCall.closePublish opened ["d"] "t" "f" size verifier false).ops plainSession)
      ≤ opsLen (largeCall.ops plainSession) := by
  have hput := NfsSession.encodedLen_putFh_le h
  have hlarge : (NfsOp.putFh ⟨.replicate 128 0⟩).encodedLen = 136 := by decide +kernel
  have hverify : (NfsOp.verify size).encodedLen = (NfsOp.verify 0).encodedLen := rfl
  have hclose : (NfsOp.close opened.closeSeqid opened.stateid).encodedLen
      = (NfsOp.close 0 .anonymous).encodedLen := rfl
  have hcommit : (NfsOp.commit 0 (commitCount size)).encodedLen
      = (NfsOp.commit 0 (commitCount 0)).encodedLen := rfl
  cases verifier <;> simp only [largeCall, SessionCall.ops, opsLen_append, opsLen_cons, opsLen_nil,
    Option.isSome_none, Option.isSome_some, Bool.false_eq_true, if_true, if_false] <;> omega

theorem obligingServer_keepsTrack : obligingServer.KeepsTrack ["d"] "f" [1, 2] false where
  fused s owner tempName st t x hexec _ _ := by
    refine ⟨failure_eq_none hexec (by simp [SessionCall.ops, exportPathOps, plainResult]),
      supported_of_plain hexec ?_, ?_⟩
    · intro write hwrite hcommit
      obtain ⟨op, -, hop⟩ := plain_of_mem hexec hwrite
      obtain ⟨_, _, _, -, -, hstable⟩ := eq_write_of_plain hop
      rw [WriteData.requiresCommit, hstable] at hcommit
      cases hcommit
    · intro write hwrite
      obtain ⟨op, hmem, hop⟩ := plain_of_mem hexec hwrite
      obtain ⟨stateid, offset, data, rfl, hcount, -⟩ := eq_write_of_plain hop
      have hdata : data = [1, 2] := by
        simp [SessionCall.ops, exportPathOps] at hmem
        exact hmem.2.2
      rw [hcount, hdata]
      rfl
  opens s owner parent name st t x hexec _ _ := by
    refine ⟨failure_eq_none hexec fun op hop => ?_, supported_of_plain hexec trivial⟩
    rcases List.mem_append.mp hop with hop | hop
    · exact plain_path hop
    · simp only [List.mem_cons, List.not_mem_nil, or_false] at hop
      rcases hop with rfl | rfl <;> rfl
  room s opened hs hfh := by
    cases hs
    have hle := opsLen_closePublish_le hfh 0 none
    have htag : xdrStringLen "close" ≤ xdrStringLen largeCall.tag := by decide +kernel
    refine NfsSession.validateCompoundRequest_of_le validate_largeCall
      (by simp [largeCall, SessionCall.ops]) (Nat.add_le_add htag (Nat.le_trans ?_ hle))
    simp only [SessionCall.ops, opsLen_append, opsLen_cons, opsLen_nil]
    omega
  publish s opened tempName size verifier hs hfh hname := by
    cases hs
    obtain ⟨_, rfl⟩ := hname
    have hlength : ((SessionCall.closePublish opened ["d"] "t" "f" size verifier false).ops
        plainSession).length ≤ (largeCall.ops plainSession).length := by
      cases verifier <;> simp [largeCall, SessionCall.ops]
    refine ⟨?_, fun hlong => ?_, fun st t x hexec _ => ?_⟩
    · exact NfsSession.validateCompoundRequest_of_le validate_largeCall hlength
        (Nat.add_le_add_left (opsLen_closePublish_le hfh size verifier) _)
    · have hlarge : (largeCall.ops plainSession).length < 2 ^ 31 := by decide +kernel
      exact Nat.not_lt.mpr (Nat.le_trans hlong hlength) hlarge
    · have hnone := failure_eq_none hexec (by
        cases verifier <;> simp [SessionCall.ops, SessionCall.publishTail, exportPathOps, plainResult])
      rw [hexec.length_eq hnone, List.take_of_length_le (Nat.le_succ _)]
      cases verifier <;> simp [SessionCall.ops]

def Event.opensPlain : Event → Bool
  | .executed (.«open» ..) (.«open» res) => res.stateid == plainOpen.stateid
  | _ => false

def NfsOp.closesPlain : NfsOp → Bool
  | .close _ stateid => stateid == plainOpen.stateid
  | _ => false

def Event.closesPlain : Event → Bool
  | .executed op _ | .refused (op :: _) _ => op.closesPlain
  | .sent ops => ops.any NfsOp.closesPlain
  | .refused [] _ => false

end NfsCrust
