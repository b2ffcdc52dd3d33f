import NfsCrust.Lib.Must
import NfsCrust.Put.Once
import NfsCrust.Server.Events
import NfsCrust.Server.Script

/-!
# When the fused put falls back

A fused put that the server stops before the publish has done nothing that anyone can
see.  When the failure shows that the directory is missing, or that the server lacks part
of the shape, the put goes on with several compounds, and in the second case the session
does not try the shape again.

## Main definitions

* `Failure.FallsBack` — the failures after which the put goes on.
* `Environment.FusedStops` — a server that stops every fused put in this way.

## Main results

* `putOnceFused_falls_back` — the fused put returns nothing.
* `putOnceFused_delayed` — it does not, after a transient status.
-/

namespace NfsCrust

open Interaction Thread Environment Relation

variable {S : Type} {env : Environment S} {s : NfsSession} {call : SessionCall} {w w' : World S}

/-! ### Failures -/

/-- The server does not implement the operation. -/
def Failure.Unsupported (f : Failure) : Prop := f.status = .NOTSUPP ∨ f.status = .OP_ILLEGAL

/-- A missing directory, or an operation the server does not implement and still names in
its reply. -/
def Failure.FallsBack (f : Failure) : Prop :=
  f.status = .NOENT ∧ f.op = .lookup ∨ f.Unsupported ∧ f.op ≠ .illegal

namespace Failure.FallsBack

variable {f : Failure} (h : f.FallsBack)
include h

theorem status_ne_exist : f.status ≠ .EXIST := by
  rcases h with ⟨hstatus, -⟩ | ⟨hstatus | hstatus, -⟩ <;> rw [hstatus] <;> decide

theorem op_ne_illegal : f.op ≠ .illegal := by
  rcases h with ⟨-, hop⟩ | ⟨-, hop⟩
  · rw [hop]
    exact nofun
  · exact hop

theorem fusedError (hremove : f.op ≠ .remove) (mode : PutMode) (rawPath : String) :
    fusedError mode rawPath (.ofStatus f.status f.op) = .ok none := by
  have hclass : classifyPublishError mode (.ofStatus f.status f.op) = .noPublish := by
    rw [classifyPublishError_ofStatus]
    simp [hremove, h.status_ne_exist, h.op_ne_illegal]
  have hretry : (Error.ofStatus f.status f.op).isRetryable = false := by
    rcases h with ⟨hstatus, -⟩ | ⟨hstatus | hstatus, -⟩ <;> rw [hstatus] <;> rfl
  rw [NfsCrust.fusedError, hclass]
  dsimp only
  rw [hretry]
  rfl

theorem rejectsFusedShape :
    NfsSession.rejectsFusedShape (.ofStatus f.status f.op) = true ↔ f.Unsupported := by
  rcases h with ⟨hstatus, hop⟩ | ⟨hunsupported, -⟩
  · have hnot : ¬ f.Unsupported := by
      rw [Failure.Unsupported, hstatus]
      decide
    rw [hstatus, hop]
    exact iff_of_false (by decide) hnot
  · refine iff_of_true ?_ hunsupported
    rcases hunsupported with hstatus | hstatus <;> rw [hstatus] <;> rfl

end Failure.FallsBack

/-! ### What is recorded of a stop -/

/-- Whenever a compound was stopped before its publish because the server does not
implement it, the fused put of the session is latched off; and compounds that are still
under way publish nothing. -/
structure LatchesOff (s : NfsSession) (w : World S) : Prop where
  latched : ∀ rest f, .refused rest f ∈ w.events → rest.tail.any NfsOp.isPublish = true →
    f.Unsupported → s ∈ w.latched
  late : ∀ ops ∈ w.late, ops.countP NfsOp.isPublish = 0

theorem any_tail_drop_of_countP {ops : List NfsOp} (h : ops.countP NfsOp.isPublish = 0) (n : ℕ) :
    ((ops.drop n).tail.any NfsOp.isPublish) = false := by
  rw [List.any_eq_false]
  intro op hop
  exact List.countP_eq_zero.mp h op (List.mem_of_mem_drop (List.mem_of_mem_tail hop))

namespace LatchesOff

theorem driftStep (hw : LatchesOff s w) (h : env.DriftStep w w') : LatchesOff s w' := by
  cases h with
  | state => exact ⟨hw.latched, hw.late⟩
  | @late before after ops t st ctx hlate _ _ =>
    have hops := hw.late ops (by simp [hlate])
    refine ⟨fun rest f hmem hpublish => ?_, fun ops' hops' => hw.late ops' ?_⟩
    · rcases List.mem_append.mp hmem with hmem | hmem
      · exact hw.latched rest f hmem hpublish
      · obtain ⟨-, rfl⟩ := refused_mem_happened hmem
        rw [any_tail_drop_of_countP hops] at hpublish
        cases hpublish
    · rw [hlate]
      exact List.mem_append.mpr ((List.mem_append.mp hops').imp_right (List.mem_cons_of_mem _))

theorem stable : env.Stable (LatchesOff s) where
  drift w w' hw h := by
    induction h with
    | refl => exact hw
    | tail _ hstep ih => exact ih.driftStep hstep
  latched w s' hw := ⟨fun rest f hmem hpublish hf =>
    List.mem_cons_of_mem _ (hw.latched rest f hmem hpublish hf), hw.late⟩
  queue w q hw := ⟨hw.latched, hw.late⟩

/-- A delivered compound, given what its stop means for the latch. -/
theorem deliver {ops : List NfsOp} {t : Replies} {st : S} (hw : LatchesOff s w)
    (h : ∀ f, t.failure = some f → (ops.drop t.results.length).tail.any NfsOp.isPublish = true →
      f.Unsupported → s ∈ w.latched) : LatchesOff s (w.deliver ops t st) := by
  refine ⟨fun rest f hmem hpublish hf => ?_, hw.late⟩
  rcases List.mem_append.mp hmem with hmem | hmem
  · exact hw.latched rest f hmem hpublish hf
  · rcases List.mem_cons.mp hmem with hsent | hmem
    · cases hsent
    · obtain ⟨hfailure, rfl⟩ := refused_mem_happened hmem
      exact h f hfailure hpublish hf

/-- A call that publishes nothing. -/
theorem quiet {s' : NfsSession} (hcall : (call.ops s').countP NfsOp.isPublish = 0) :
    env.Quiet (LatchesOff s) s' call := by
  have hsent : ∀ w : World S, LatchesOff s w → LatchesOff s (w.send (call.ops s')) := by
    refine fun w hw => ⟨fun rest f hmem => hw.latched rest f ?_, hw.late⟩
    simpa [World.send] using hmem
  intro w out w' hw hserved
  cases hserved with
  | notSent => exact hw
  | rejected => exact hsent w hw
  | delivered =>
    refine hw.deliver fun f _ hpublish => ?_
    rw [any_tail_drop_of_countP hcall] at hpublish
    cases hpublish
  | lost =>
    refine ⟨(hsent w hw).latched, fun ops hops => ?_⟩
    rcases List.mem_append.mp hops with hops | hops
    · exact hw.late ops hops
    · rw [List.mem_singleton.mp hops]
      exact hcall

end LatchesOff

/-! ### Servers that stop the fused put -/

/-- A fused put stops because its temporary name is taken, or before its publish with a
failure that falls back. -/
def StopsEarly (ops : List NfsOp) (t : Replies) : Prop :=
  ∃ f, t.failure = some f ∧ (f.op = .«open» ∧ f.status = .EXIST ∨
    f.FallsBack ∧ (ops.drop (t.results.length + 1)).any NfsOp.isPublish = true)

/-- Every fused put of a body is answered, and stops early, after results the client
supports. -/
structure Environment.FusedStops (env : Environment S) (s : NfsSession) (parent : List String)
    (name : String) (data : Bytes) (createNew : Bool) : Prop where
  answered : ∀ owner tempName,
    ¬ env.faults ((SessionCall.putFused owner parent tempName name data createNew).ops s) ∧
    ¬ env.rejects ((SessionCall.putFused owner parent tempName name data createNew).ops s)
  stops : ∀ owner tempName st t x, env.Executes
      ((SessionCall.putFused owner parent tempName name data createNew).ops s) (st, env.start) t x →
    env.admits ((SessionCall.putFused owner parent tempName name data createNew).ops s) st t →
    (SessionCall.putFused owner parent tempName name data createNew).Supported t.results ∧
      StopsEarly ((SessionCall.putFused owner parent tempName name data createNew).ops s) t

/-- What a fused put makes of such a stop. -/
def Stopped (s : NfsSession) :
    Except CompoundDecodeError (OpenOutcome (StateId × FileHandle × WriteData)) → World S → Prop
  | .ok outcome, w => outcome = .exists ∧ LatchesOff s w
  | .error err, w => ∃ f : Failure, err.error = .ofStatus f.status f.op ∧ f.FallsBack ∧
      f.op ≠ .remove ∧ (f.Unsupported ∨ LatchesOff s w) ∧
      LatchesOff s { w with latched := s :: w.latched }

/-- Before the publish, nothing is removed. -/
theorem op_ne_remove_of_before_publish {owner : Bytes} {parent : List String}
    {tempName name : String} {data : Bytes} {createNew : Bool} {t : Replies} {x y : S × env.Ctx}
    {f : Failure} (hexec : env.Executes
      ((SessionCall.putFused owner parent tempName name data createNew).ops s) x t y)
    (hf : t.failure = some f) (hpublish : (((SessionCall.putFused owner parent tempName name data
      createNew).ops s).drop (t.results.length + 1)).any NfsOp.isPublish = true) :
    f.op ≠ .remove := by
  have hshape := publishShape_putFused name s owner parent tempName data createNew
  rcases hshape.executed (picks_isPublish name) hexec with ⟨hnone, -⟩ | ⟨f', hf', hcase⟩
  · rw [hf] at hnone
    cases hnone
  · rw [hf] at hf'
    cases hf'
    rcases hcase with ⟨-, hop⟩ | ⟨-, hone, -⟩
    · exact hop
    · -- the only publish has been executed
      have hcount := hshape.countP_eq_one (picks_isPublish name)
      rw [← List.take_append_drop t.results.length (SessionCall.ops s _), List.countP_append,
        hone] at hcount
      have hzero := any_tail_drop_of_countP (Nat.add_left_cancel hcount) 0
      rw [List.drop_zero, List.tail_drop, hpublish] at hzero
      cases hzero

section

variable {parent : List String} {name : String} {data : Bytes} {mode : PutMode}
  (hstops : env.FusedStops s parent name data mode.createNew)
include hstops

theorem stopped_of_served {owner : Bytes} {tempName : String}
    (hfits : ∀ err, s.validateCompoundRequest "put-fused"
      ((SessionCall.putFused owner parent tempName name data mode.createNew).ops s) ≠ .error err)
    (hw : LatchesOff s w) {out : Except CompoundDecodeError _}
    (hcall : CallServed env s (.putFused owner parent tempName name data mode.createNew) w out w') :
    Stopped s out w' := by
  obtain ⟨hfaults, hrejects⟩ := hstops.answered owner tempName
  cases hcall with
  | notSent h =>
    rcases h with h | ⟨err, h⟩
    · exact absurd h hfaults
    · exact absurd h (hfits err)
  | rejected h => exact absurd h hrejects
  | lost h => exact absurd h hfaults
  | @delivered t st ctx _ hexec hadmits _ hholds =>
    obtain ⟨hsupported, f, hf, hkind⟩ := hstops.stops owner tempName _ t _ hexec hadmits
    match out, hholds with
    | .ok outcome, ⟨_, hvalue⟩ =>
      rcases hvalue with ⟨hnone, -⟩ | ⟨f', hf', htyped⟩
      · rw [hf] at hnone
        cases hnone
      · rw [hf] at hf'
        cases hf'
        simp only [SessionCall.expectation, SessionCall.typed, caughtExist] at htyped
        split at htyped
        · next hexist =>
          cases htyped
          refine ⟨rfl, hw.deliver fun f' hf' _ hunsupported => ?_⟩
          rw [hf] at hf'
          cases hf'
          rw [Failure.Unsupported, hexist.2] at hunsupported
          exact absurd hunsupported (by decide)
        · cases htyped
    | .error err, .inr ⟨_, hunsupported⟩ => exact absurd hsupported hunsupported
    | .error err, .inl ⟨_, f', hf', htyped, herr⟩ =>
      rw [hf] at hf'
      cases hf'
      rcases hkind with hexist | ⟨hfalls, hpublish⟩
      · simp [SessionCall.expectation, SessionCall.typed, caughtExist, hexist] at htyped
      · refine ⟨f, by rw [herr]; rfl, hfalls, ?_, ?_, ?_⟩
        · exact op_ne_remove_of_before_publish hexec hf hpublish
        · by_cases hunsupported : f.Unsupported
          · exact Or.inl hunsupported
          · refine Or.inr (hw.deliver fun f' hf' _ h => ?_)
            rw [hf] at hf'
            cases hf'
            exact absurd h hunsupported
        · have hstable : env.Stable (LatchesOff s) := LatchesOff.stable
          exact (hstable.latched w s hw).deliver fun _ _ _ _ => List.mem_cons_self

theorem safe_putFused_stops {owner : Bytes} {tempName : String}
    (hvalid : s.validateCompoundRequest "put-fused"
      ((SessionCall.putFused owner parent tempName name data mode.createNew).ops s) = .ok ())
    (left : ℕ) (hw : LatchesOff s w) :
    Safe (E := effects) env.serve Eq (fun _ _ => True) (fun x w' => Stopped s x.1 w')
      (s.compoundDecodeDetailed (.putFused owner parent tempName name data mode.createNew) false
        left) w := by
  let post : Except CompoundDecodeError
      (SessionCall.putFused owner parent tempName name data mode.createNew).Result →
      World S → Prop := Stopped s
  refine Environment.safe_compoundDecodeDetailed post (LatchesOff s) hw ?_
    LatchesOff.stable.drift (fun _ _ => trivial) ?_
  · rintro w _ hw rfl
    exact hw
  · intro w w₁ out w' _ _ hw₁ hcall
    refine ⟨trivial, stopped_of_served hstops ?_ hw₁ hcall, nofun⟩
    intro err herr
    rw [hvalid] at herr
    cases herr

/-- A fused put that stops early: the shape is not viable, the temporary name is taken, or
the error is one that falls back, which is noted by then. -/
theorem safe_tryPutFused_stops (tempName : String) (hw : LatchesOff s w) :
    Safe (E := effects) env.serve Eq (fun _ _ => True)
      (fun r w' => LatchesOff s w' ∧ (r = .ok none ∨ r = .ok (some .exists) ∨
        ∃ f : Failure, r = .error (.ofStatus f.status f.op) ∧ f.FallsBack ∧ f.op ≠ .remove))
      (s.tryPutFused parent tempName name data mode.createNew).run w := by
  refine safe_tryPutFused_of (fun _ => Stopped s) trivial ⟨hw, Or.inl rfl⟩
    (fun owner hvalid => safe_putFused_stops hstops hvalid _ hw) ?_ ?_ ?_
  · rintro owner err w' - ⟨f, herr, hfalls, hremove, hlatches, hlatched⟩
    rw [herr]
    refine ⟨fun hrejects => ⟨hlatches.resolve_left fun hunsupported => ?_,
      Or.inr (Or.inr ⟨f, rfl, hfalls, hremove⟩)⟩, trivial, fun _ =>
        ⟨hlatched, Or.inr (Or.inr ⟨f, rfl, hfalls, hremove⟩)⟩⟩
    rw [hfalls.rejectsFusedShape.mpr hunsupported] at hrejects
    cases hrejects
  · exact fun owner w' h => ⟨h.2, Or.inr (Or.inl rfl)⟩
  · rintro owner stateid fh write w' - ⟨hexists, -⟩
    cases hexists

theorem safe_putFusedFrom_stops (rawPath : String) (n : ℕ) (hw : LatchesOff s w) :
    Safe (E := effects) env.serve Eq (fun _ _ => True) (fun r w' => r = .ok none ∧ LatchesOff s w')
      (putFusedFrom s parent name rawPath data mode n).run w := by
  refine safe_putFusedFrom_of (LatchesOff s) (fun _ r w' => LatchesOff s w' ∧ (r = .ok none ∨
      r = .ok (some .exists) ∨ ∃ f : Failure, r = .error (.ofStatus f.status f.op) ∧ f.FallsBack ∧
        f.op ≠ .remove)) hw (fun w hw => ⟨trivial, rfl, hw⟩)
    (fun tempName w hw => safe_tryPutFused_stops hstops tempName hw) ?_ (fun _ _ h => h.1)
    (fun _ _ h => ⟨rfl, h.1⟩) ?_
  · rintro tempName size opened w ⟨-, h | h | ⟨f, h, -⟩⟩ <;> cases h
  · rintro tempName err w ⟨hw, h | h | ⟨f, h, hfalls, hremove⟩⟩ <;> cases h
    have hquiet : env.Quiet (LatchesOff s) s (.remove parent tempName) :=
      LatchesOff.quiet ((picks_isPublish name).countP_ops rfl)
    refine ((keeps_call LatchesOff.stable hquiet).safe_attempt (fun _ _ => trivial) hw).mono ?_
    rintro r w' ⟨hr, hw'⟩
    exact ⟨hr, hfalls.fusedError hremove mode rawPath, hw'⟩

end

/-- The session reports from now on that a fused put is not viable. -/
def Environment.NotViable (env : Environment S) (s : NfsSession) (w : World S) : Prop :=
  ∀ w', env.Later w w' → ∀ n, Safe (E := effects) env.serve Eq (fun _ _ => True)
    (fun viable _ => viable = false) (s.fusedPutViable n) w'

theorem mem_latched_of_drift (h : env.Drifts w w') : w'.latched = w.latched := by
  induction h with
  | refl => rfl
  | tail _ hstep ih =>
    cases hstep with
    | state => exact ih
    | late => exact ih

/-- A latch is never taken back. -/
theorem mem_latched_of_serve {e : Effect} {r : e.Response} (h : env.serve e w r w')
    (hs : s ∈ w.latched) : s ∈ w'.latched := by
  cases e with
  | exchange s' tag ops =>
    obtain ⟨w₁, hdrift, hexchanged⟩ := h
    rw [← mem_latched_of_drift hdrift] at hs
    cases hexchanged <;> exact hs
  | fusedPutSupported s' =>
    obtain ⟨-, -, rfl⟩ := h
    exact hs
  | latchFusedPutOff s' =>
    cases h
    exact List.mem_cons_of_mem _ hs
  | deferClose s' opened =>
    cases r with
    | true => exact h.1 rfl ▸ hs
    | false => exact h.2 rfl ▸ hs
  | tempFileName | currentSession =>
    obtain ⟨-, rfl⟩ := h
    exact hs
  | _ =>
    cases h
    exact hs

theorem notViable_of_mem (hs : s ∈ w.latched) : env.NotViable s w := by
  intro w' hlater n
  have hs' : s ∈ w'.latched := by
    induction hlater with
    | refl => exact hs
    | tail _ hstep ih =>
      obtain ⟨e, r, hserve⟩ := hstep
      exact mem_latched_of_serve hserve ih
  cases hsize : NfsSession.fusedPutSizeViable n s.writeChunkSize with
  | true =>
    rw [NfsSession.fusedPutViable_eq hsize]
    refine safe_perform ?_
    rintro w₁ viable w₂ rfl ⟨hsupported, -⟩
    cases viable with
    | true => exact absurd hs' (hsupported rfl)
    | false => exact ⟨trivial, rfl⟩
  | false =>
    rw [NfsSession.fusedPutViable_of_large hsize]
    rfl

/-- A server that implements nothing. -/
def bareServer : Environment Unit where
  Ctx := Unit
  start := ()
  exec _ _ _ _ := False
  refuse op _ f := f = ⟨op.opcode, .NOTSUPP⟩
  within _ _ := False
  between _ _ := False
  admits _ _ _ := True
  rejects _ := False
  faults _ := False
  latches := False
  tempName _ _ := True
  session _ := True
  opcode h := h.elim
  answers {op x f} h := by
    cases h
    exact ⟨(by decide : NfsStatus.NOTSUPP ≠ .OK), Or.inl rfl⟩

theorem bareServer_responsive : bareServer.Responsive := by
  refine responsive_of_executes (fun ops st => ?_) (fun _ => ⟨"", trivial⟩) ⟨plainSession, trivial⟩
  cases ops with
  | nil => exact Or.inl ⟨_, (), (), .done, trivial, Nat.two_pow_pos 31⟩
  | cons op ops => exact Or.inl ⟨_, (), (), .refused rfl, trivial, Nat.two_pow_pos 31⟩

theorem bareServer_fusedStops (s : NfsSession) (parent : List String) (name : String) (data : Bytes)
    (createNew : Bool) : bareServer.FusedStops s parent name data createNew where
  answered _ _ := ⟨id, id⟩
  stops owner tempName st t x hexec _ := by
    have hops : ∃ rest, (SessionCall.putFused owner parent tempName name data createNew).ops s
        = .putFh s.exportRoot :: rest ∧ rest.any NfsOp.isPublish = true := by
      have hlink : NfsOp.isPublish (.link name) = true := rfl
      have hrename : NfsOp.isPublish (.rename tempName name) = true := rfl
      cases createNew <;> simp only [SessionCall.ops, exportPathOps, Bool.false_eq_true, if_true,
        if_false, List.append_assoc, List.cons_append, List.cons.injEq, true_and, exists_eq_left',
        List.any_append, List.any_cons, hlink, hrename, Bool.true_or, Bool.or_true]
    obtain ⟨rest, hops, hpublish⟩ := hops
    rw [hops] at hexec ⊢
    cases hexec with
    | refused h =>
      cases h
      have hchecked : FusedChecks [] := by simp [FusedChecks]
      exact ⟨⟨by simp, by simp, by simp, by simp, hchecked⟩, _, rfl,
        Or.inr ⟨Or.inr ⟨Or.inl rfl, by simp [NfsOp.opcode]⟩, hpublish⟩⟩
    | next h => exact h.elim

end NfsCrust
