import NfsCrust.Lib.Ledger
import NfsCrust.Lib.Must
import NfsCrust.Server.Events
import NfsCrust.Server.Keeps

/-!
# Deferred closes

A file that was published in one compound is closed later, by a worker that takes the
files off its queue in batches.  A batch whose compounds succeed has executed the `CLOSE`
of every file; after an error, the worker sends a `CLOSE` of its own for each file.

## Main definitions

* `openStates` — the ledger of open states.
* `ClosedSince` — a state was closed since a given world.

## Main results

* `must_runDeferredCloseWorker` — the worker closes every file it takes.
-/

namespace NfsCrust

open Interaction Thread Environment

/-- An open state is owed from the `OPEN` that returns it until its `CLOSE` reaches the
server, or is sent in a compound of its own. -/
def openStates : Ledger Event StateId where
  raises e stateid := ∃ seqid clientid owner name mode res,
    e = .executed (.«open» seqid clientid owner name mode) (.«open» res) ∧ res.stateid = stateid
  clears e stateid := (∃ seqid r, e = .executed (.close seqid stateid) r) ∨
    (∃ seqid rest f, e = .refused (.close seqid stateid :: rest) f) ∨
    ∃ s opened, opened.stateid = stateid ∧ e = .sent ((SessionCall.closeFile opened).ops s)

variable {S : Type} {env : Environment S} {s : NfsSession} {call : SessionCall}
  {w₀ w w' : World S} {stateid : StateId} {opened : OpenedFile}

/-! ### Events are only added -/

theorem Environment.Drifts.isPrefix (h : env.Drifts w w') : w.events <+: w'.events := by
  induction h with
  | refl => exact List.prefix_rfl
  | tail _ hstep ih =>
    cases hstep with
    | state => exact ih
    | late => exact ih.trans (List.prefix_append ..)

theorem Environment.CallServed.isPrefix {out : Except CompoundDecodeError call.Result}
    (h : CallServed env s call w out w') : w.events <+: w'.events := by
  cases h with
  | notSent => exact List.prefix_rfl
  | rejected | delivered | lost => exact List.prefix_append ..

/-- The state was closed since the world was `w₀`. -/
def ClosedSince (w₀ : World S) (stateid : StateId) (w : World S) : Prop :=
  ∃ es, w.events = w₀.events ++ es ∧ ∃ e ∈ es, openStates.clears e stateid

theorem ClosedSince.isPrefix (h : ClosedSince w₀ stateid w) : w₀.events <+: w.events := by
  obtain ⟨es, hes, -⟩ := h
  exact ⟨es, hes.symm⟩

theorem ClosedSince.later (h : ClosedSince w₀ stateid w) (hgrows : w.events <+: w'.events) :
    ClosedSince w₀ stateid w' := by
  obtain ⟨es, hes, e, he, hclears⟩ := h
  obtain ⟨fs, hfs⟩ := hgrows
  exact ⟨es ++ fs, by rw [← hfs, hes, List.append_assoc], e, List.mem_append_left _ he, hclears⟩

theorem closedSince_of_append {es : List Event} {e : Event} (hgrows : w₀.events <+: w.events)
    (hes : w'.events = w.events ++ es) (he : e ∈ es) (hclears : openStates.clears e stateid) :
    ClosedSince w₀ stateid w' := by
  obtain ⟨fs, hfs⟩ := hgrows
  exact ⟨fs ++ es, by rw [hes, ← hfs, List.append_assoc], e, List.mem_append_right _ he, hclears⟩

theorem stable_isPrefix (w₀ : World S) : env.Stable fun w => w₀.events <+: w.events where
  drift _ _ hw h := hw.trans h.isPrefix
  latched _ _ hw := hw
  queue _ _ hw := hw

theorem quiet_isPrefix (w₀ : World S) : env.Quiet (fun w => w₀.events <+: w.events) s call :=
  fun _ _ _ hw h => hw.trans h.isPrefix

theorem stable_closedSince (w₀ : World S) (stateid : StateId) :
    env.Stable (ClosedSince w₀ stateid) where
  drift _ _ hw h := hw.later h.isPrefix
  latched _ _ hw := hw
  queue _ _ hw := hw

theorem quiet_closedSince (w₀ : World S) (stateid : StateId) :
    env.Quiet (ClosedSince w₀ stateid) s call :=
  fun _ _ _ hw h => hw.later h.isPrefix

/-! ### What the worker keeps -/

section

variable {J : World S → Prop} (hJ : env.Stable J) (hcall : ∀ call, env.Quiet J s call)
include hJ hcall

theorem keeps_closeBatchFrom (maxFilesByOps turns : ℕ) (files : List OpenedFile) :
    env.Keeps J (s.closeBatchFrom maxFilesByOps turns files) := by
  induction turns generalizing files with
  | zero => exact keeps_pure _
  | succ turns ih =>
    cases files with
    | nil => exact keeps_pure _
    | cons => exact (keeps_call hJ (hcall _)).bind fun _ => ih _

theorem safe_closeEach_of_keeps (batch : List OpenedFile) (hw : J w) :
    Safe (E := effects) env.serve Eq (fun _ _ => True) (fun r w' => r = .ok () ∧ J w')
      (s.closeEach batch).run w := by
  induction batch generalizing w with
  | nil => exact ⟨rfl, hw⟩
  | cons opened batch ih =>
    refine safe_bindExcept (((keeps_closeFile hJ (hcall _)).safe_attempt (fun _ _ => trivial) hw).mono ?_)
    rintro _ w₁ ⟨⟨_, rfl⟩, hw₁⟩
    exact ih hw₁

theorem safe_closeDeferred_of_keeps (batch : List OpenedFile) (hw : J w) :
    Safe (E := effects) env.serve Eq (fun _ _ => True) (fun r w' => r = .ok () ∧ J w')
      (s.closeDeferred batch).run w := by
  have hbatch : env.Keeps J (s.closeBatch batch) := keeps_closeBatchFrom hJ hcall _ _ _
  refine safe_bindExcept ((hbatch.safe_attempt (fun _ _ => trivial) hw).mono ?_)
  rintro _ w₁ ⟨⟨r, rfl⟩, hw₁⟩
  cases r with
  | ok _ => exact ⟨rfl, hw₁⟩
  | error err => exact safe_closeEach_of_keeps hJ hcall batch hw₁

theorem safe_runDeferredCloseWorker_of_keeps (batches : List (List OpenedFile)) (hw : J w) :
    Safe (E := effects) env.serve Eq (fun _ _ => True) (fun r w' => r = .ok () ∧ J w')
      (s.runDeferredCloseWorker batches).run w := by
  induction batches generalizing w with
  | nil => exact ⟨rfl, hw⟩
  | cons batch batches ih =>
    refine safe_bindExcept ((safe_closeDeferred_of_keeps hJ hcall batch hw).mono ?_)
    rintro _ w₁ ⟨rfl, hw₁⟩
    exact ih hw₁

end

/-! ### What the worker closes -/

theorem NfsSession.closeBatchLen_pos (s : NfsSession) (files : List OpenedFile) (n : ℕ) :
    0 < s.closeBatchLen files n := by
  induction n with
  | zero => exact Nat.one_pos
  | succ n ih =>
    cases n with
    | zero => exact Nat.one_pos
    | succ n =>
      rw [closeBatchLen]
      split
      · exact Nat.succ_pos _
      · exact ih

theorem close_mem_closeBatch {files : List OpenedFile} (h : opened ∈ files) :
    .close opened.closeSeqid opened.stateid ∈ (SessionCall.closeBatch files).ops s :=
  List.mem_flatMap.mpr ⟨opened, h, by simp⟩

/-- A batch that succeeds has closed its files. -/
theorem safe_call_closeBatch {files : List OpenedFile} (hopened : opened ∈ files)
    (hw : w₀.events <+: w.events) :
    Safe (E := effects) env.serve Eq (fun _ _ => True)
      (fun r w' => w₀.events <+: w'.events ∧ (r = .ok () → ClosedSince w₀ opened.stateid w'))
      (s.call (.closeBatch files)).run w := by
  refine Environment.safe_call (fun w => w₀.events <+: w.events) hw ?_
    (fun _ _ hw h => hw.trans h.isPrefix) (fun _ _ => trivial) ?_
  · rintro w _ hw rfl
    exact hw
  · intro w w₁ out w' _ _ hw₁ hserved
    have hgrows := hw₁.trans hserved.isPrefix
    refine ⟨trivial, ⟨hgrows, fun hok => ?_⟩, fun _ _ _ => hgrows⟩
    cases hserved with
    | notSent | rejected | lost => cases hok
    | @delivered t st ctx out hexec _ _ hholds =>
      match out, hok, hholds with
      | .ok _, _, ⟨_, .inr ⟨f, _, htyped⟩⟩ => cases htyped
      | .ok _, _, ⟨_, .inl ⟨hnone, _⟩⟩ =>
        obtain ⟨r, hr⟩ := hexec.executed_mem hnone (close_mem_closeBatch hopened)
        exact closedSince_of_append hw₁ rfl (List.mem_cons_of_mem _ hr) (Or.inl ⟨_, r, rfl⟩)

theorem safe_closeBatchFrom {turns : ℕ} {files : List OpenedFile} (maxFilesByOps : ℕ)
    (hopened : opened ∈ files) (hturns : files.length ≤ turns) (hw : w₀.events <+: w.events) :
    Safe (E := effects) env.serve Eq (fun _ _ => True)
      (fun r w' => w₀.events <+: w'.events ∧ (r = .ok () → ClosedSince w₀ opened.stateid w'))
      (s.closeBatchFrom maxFilesByOps turns files).run w := by
  induction turns generalizing files w with
  | zero =>
    rw [List.length_eq_zero_iff.mp (Nat.le_zero.mp hturns)] at hopened
    cases hopened
  | succ turns ih =>
    cases files with
    | nil => cases hopened
    | cons file files =>
      rw [NfsSession.closeBatchFrom]
      have hpos := s.closeBatchLen_pos (file :: files) (min maxFilesByOps (file :: files).length)
      generalize s.closeBatchLen (file :: files) _ = len at hpos
      rw [← List.take_append_drop len (file :: files), List.mem_append] at hopened
      rcases hopened with hopened | hopened
      · -- closed by this compound, and kept by those that follow
        refine safe_bindExcept ((safe_call_closeBatch hopened hw).mono ?_)
        rintro r w₁ ⟨hgrows, hclosed⟩
        cases r with
        | error err => exact ⟨hgrows, nofun⟩
        | ok _ =>
          have hkeeps : env.Keeps (ClosedSince w₀ opened.stateid)
              (s.closeBatchFrom maxFilesByOps turns ((file :: files).drop len)) :=
            keeps_closeBatchFrom (stable_closedSince _ _) (fun _ => quiet_closedSince _ _) _ _ _
          exact (hkeeps.safe (fun _ _ => trivial) (hclosed rfl)).mono fun r w₂ hw₂ =>
            ⟨hw₂.isPrefix, fun _ => hw₂⟩
      · have hcall : env.Keeps (fun w => w₀.events <+: w.events)
            (s.call (.closeBatch ((file :: files).take len))) :=
          keeps_call (stable_isPrefix w₀) (quiet_isPrefix w₀)
        refine safe_bindExcept ((hcall.safe (fun _ _ => trivial) hw).mono fun r w₁ hw₁ => ?_)
        cases r with
        | error err => exact ⟨hw₁, nofun⟩
        | ok _ =>
          refine ih hopened ?_ hw₁
          rw [List.length_drop]
          omega

/-- The room for the `CLOSE` of a file. -/
def RoomToClose (s : NfsSession) (opened : OpenedFile) : Prop :=
  s.validateCompoundRequest "close" ((SessionCall.closeFile opened).ops s) = .ok ()

theorem clears_closeFile (s : NfsSession) (opened : OpenedFile) :
    openStates.clears (.sent ((SessionCall.closeFile opened).ops s)) opened.stateid :=
  Or.inr (Or.inr ⟨s, opened, rfl, rfl⟩)

section

variable (hfaults : ∀ ops, ¬ env.faults ops) (hroom : RoomToClose s opened)
include hfaults hroom

/-- A `CLOSE` in a compound of its own is sent when there is room for it. -/
theorem closedSince_of_served (hw : w₀.events <+: w.events)
    {out : Except CompoundDecodeError (SessionCall.closeFile opened).Result}
    (hserved : CallServed env s (.closeFile opened) w out w') :
    ClosedSince w₀ opened.stateid w' := by
  cases hserved with
  | notSent h =>
    rcases h with h | ⟨err, h⟩
    · exact absurd h (hfaults _)
    · rw [RoomToClose] at hroom
      rw [SessionCall.tag, hroom] at h
      cases h
  | lost h => exact absurd h (hfaults _)
  | rejected | delivered =>
    exact closedSince_of_append hw rfl List.mem_cons_self (clears_closeFile s opened)

theorem safe_closeFile_closes (hw : w₀.events <+: w.events) :
    Safe (E := effects) env.serve Eq (fun _ _ => True)
      (fun r w' => (∃ x, r = .ok x) ∧ ClosedSince w₀ opened.stateid w')
      (Thread.attempt (s.closeFile opened)).run w := by
  have hcall : Safe (E := effects) env.serve Eq (fun _ _ => True)
      (fun _ w' => ClosedSince w₀ opened.stateid w') (s.call (.closeFile opened)).run w := by
    refine Environment.safe_call (fun w => w₀.events <+: w.events) hw ?_
      (fun _ _ hw h => hw.trans h.isPrefix) (fun _ _ => trivial) ?_
    · rintro w _ hw rfl
      exact hw
    · intro w w₁ out w' _ _ hw₁ hserved
      have hclosed := closedSince_of_served hfaults hroom hw₁ hserved
      exact ⟨trivial, hclosed, fun _ _ _ => hclosed.isPrefix⟩
  refine safe_attempt (safe_bindExcept (hcall.mono fun r w₁ hw₁ => ?_))
  cases r with
  | ok _ => exact ⟨⟨_, rfl⟩, hw₁⟩
  | error err => exact ⟨⟨_, rfl⟩, hw₁⟩

theorem safe_closeEach {batch : List OpenedFile} (hopened : opened ∈ batch)
    (hw : w₀.events <+: w.events) :
    Safe (E := effects) env.serve Eq (fun _ _ => True)
      (fun r w' => r = .ok () ∧ ClosedSince w₀ opened.stateid w') (s.closeEach batch).run w := by
  induction batch generalizing w with
  | nil => cases hopened
  | cons file batch ih =>
    by_cases hfile : file = opened
    · subst hfile
      refine safe_bindExcept ((safe_closeFile_closes hfaults hroom hw).mono ?_)
      rintro _ w₁ ⟨⟨_, rfl⟩, hclosed⟩
      exact safe_closeEach_of_keeps (stable_closedSince _ _) (fun _ => quiet_closedSince _ _) batch
        hclosed
    · have hkeeps : env.Keeps (fun w => w₀.events <+: w.events) (s.closeFile file) :=
        keeps_closeFile (stable_isPrefix w₀) (quiet_isPrefix w₀)
      refine safe_bindExcept ((hkeeps.safe_attempt (fun _ _ => trivial) hw).mono ?_)
      rintro _ w₁ ⟨⟨_, rfl⟩, hw₁⟩
      refine ih ?_ hw₁
      exact (List.mem_cons.mp hopened).resolve_left fun h => hfile h.symm

theorem safe_closeDeferred {batch : List OpenedFile} (hopened : opened ∈ batch)
    (hw : w₀.events <+: w.events) :
    Safe (E := effects) env.serve Eq (fun _ _ => True)
      (fun r w' => r = .ok () ∧ ClosedSince w₀ opened.stateid w') (s.closeDeferred batch).run w := by
  have hbatch : Safe (E := effects) env.serve Eq (fun _ _ => True)
      (fun r w' => w₀.events <+: w'.events ∧ (r = .ok () → ClosedSince w₀ opened.stateid w'))
      (s.closeBatch batch).run w :=
    safe_closeBatchFrom _ hopened (Nat.le_refl _) hw
  refine safe_bindExcept (safe_attempt (hbatch.mono ?_))
  rintro r w₁ ⟨hgrows, hclosed⟩
  cases r with
  | ok _ => exact ⟨rfl, hclosed rfl⟩
  | error err => exact safe_closeEach hfaults hroom hopened hgrows

theorem safe_runDeferredCloseWorker {batches : List (List OpenedFile)}
    (hopened : opened ∈ batches.flatten) (hw : w₀.events <+: w.events) :
    Safe (E := effects) env.serve Eq (fun _ _ => True)
      (fun r w' => r = .ok () ∧ ClosedSince w₀ opened.stateid w')
      (s.runDeferredCloseWorker batches).run w := by
  induction batches generalizing w with
  | nil => cases hopened
  | cons batch batches ih =>
    rw [List.flatten_cons, List.mem_append] at hopened
    rcases hopened with hopened | hopened
    · refine safe_bindExcept ((safe_closeDeferred hfaults hroom hopened hw).mono ?_)
      rintro _ w₁ ⟨rfl, hw₁⟩
      exact safe_runDeferredCloseWorker_of_keeps (stable_closedSince _ _)
        (fun _ => quiet_closedSince _ _) batches hw₁
    · refine safe_bindExcept ((safe_closeDeferred_of_keeps (stable_isPrefix w₀)
        (fun _ => quiet_isPrefix w₀) batch hw).mono ?_)
      rintro _ w₁ ⟨rfl, hw₁⟩
      exact ih hopened hw₁

/-- **The worker closes what it takes.** -/
theorem must_runDeferredCloseWorker (hresponsive : env.Responsive) {batches : List (List OpenedFile)}
    (hopened : opened ∈ batches.flatten) (w : World S) :
    Must (E := effects) env.serve (fun r w' => r = .ok () ∧ ClosedSince w opened.stateid w')
      (liftM (s.runDeferredCloseWorker batches) : ClientM Unit).run w := by
  have hsafe : Safe (E := effects) env.serve Eq (fun _ _ => True)
      (fun r w' => r = .ok () ∧ ClosedSince w opened.stateid w')
      (s.runDeferredCloseWorker batches).run w :=
    safe_runDeferredCloseWorker hfaults hroom hopened List.prefix_rfl
  exact must_thread_of_safe hresponsive (hsafe.mono fun r w' h => .ret h)

end

end NfsCrust
