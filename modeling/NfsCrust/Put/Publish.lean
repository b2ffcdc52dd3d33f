import NfsCrust.Server.Counting

/-!
# What a publishing compound says

A put makes a file visible by one operation, `RENAME` of its temporary file or `LINK` of
the destination.  The compounds that publish have a common shape, `PublishShape`: the
publish is the last operation, or is followed only by the removal of the temporary name.
An NFS error therefore tells whether the publish was reached, and `classifyPublishError`
reads it right.

## Main definitions

* `NfsOp.isPublish`, `NfsOp.publishes` — the operations that publish.
* `Settled` — what is known of the publish after an error.

## Main results

* `settled_of_served` — the error of a publishing compound is classified right.
* `published_of_served` — a compound that succeeds has published.
-/

namespace NfsCrust

open Interaction Thread Environment

variable {S : Type} {env : Environment S}

/-! ### Publishing operations -/

/-- The operation makes a file visible under a name. -/
def NfsOp.isPublish : NfsOp → Bool
  | link _ | rename .. => true
  | _ => false

/-- The operation makes a file visible under this name. -/
def NfsOp.publishes (name : String) : NfsOp → Bool
  | link newName | rename _ newName => newName == name
  | _ => false

/-- `p` picks out publishing operations, among them all those to `name`. -/
structure Picks (name : String) (p : NfsOp → Bool) : Prop where
  publish : ∀ op, p op = true → op.isPublish = true
  link : p (.link name) = true
  rename : ∀ tempName, p (.rename tempName name) = true

theorem picks_isPublish (name : String) : Picks name NfsOp.isPublish :=
  ⟨fun _ => id, rfl, fun _ => rfl⟩

theorem picks_publishes (name : String) : Picks name (NfsOp.publishes name) where
  publish op h := by cases op <;> first | rfl | cases h
  link := beq_self_eq_true name
  rename _ := beq_self_eq_true name

variable {name : String} {p : NfsOp → Bool}

theorem Picks.countP_eq_zero (hp : Picks name p) {ops : List NfsOp}
    (h : ∀ op ∈ ops, op.isPublish = false) : ops.countP p = 0 := by
  refine List.countP_eq_zero.mpr fun op hop hpop => ?_
  have := h op hop
  rw [hp.publish op hpop] at this
  cases this

/-- The operations before a publish. -/
def NfsOp.isPrelude (op : NfsOp) : Bool := !op.isPublish && op.opcode != .remove

/-- The publish is the last operation, or is followed by the removal of the temporary
name. -/
inductive PublishShape (name : String) : Bool → List NfsOp → Prop
  | rename {before : List NfsOp} {tempName : String} (hbefore : ∀ op ∈ before, op.isPrelude) :
      PublishShape name false (before ++ [.rename tempName name])
  | link {before : List NfsOp} {tempName : String} (hbefore : ∀ op ∈ before, op.isPrelude) :
      PublishShape name true (before ++ [.link name, .remove tempName])

theorem isPrelude_exportPathOps (root : FileHandle) (components : List String) :
    ∀ op ∈ exportPathOps root components, op.isPrelude := by
  intro op hop
  rcases List.mem_cons.mp hop with rfl | hop
  · rfl
  · obtain ⟨component, -, rfl⟩ := List.mem_map.mp hop
    rfl

theorem publishShape_tail (s : NfsSession) {before : List NfsOp}
    (hbefore : ∀ op ∈ before, op.isPrelude) (parent : List String) (tempName : String)
    (createNew : Bool) : PublishShape name createNew
      (before ++ SessionCall.publishTail s parent tempName name createNew) := by
  have hpath := isPrelude_exportPathOps s.exportRoot parent
  cases createNew with
  | false =>
    have hall : ∀ op ∈ before ++ (exportPathOps s.exportRoot parent ++ [.saveFh]), op.isPrelude := by
      simp only [List.mem_append, List.mem_singleton]
      rintro op (hop | hop | rfl)
      · exact hbefore op hop
      · exact hpath op hop
      · rfl
    have hshape : PublishShape name false (_ ++ [.rename tempName name]) := .rename hall
    simpa [SessionCall.publishTail] using hshape
  | true =>
    have hall : ∀ op ∈ before ++ .saveFh :: exportPathOps s.exportRoot parent, op.isPrelude := by
      simp only [List.mem_append, List.mem_cons]
      rintro op (hop | rfl | hop)
      · exact hbefore op hop
      · rfl
      · exact hpath op hop
    have hshape : PublishShape name true (_ ++ [.link name, .remove tempName]) := .link hall
    simpa [SessionCall.publishTail] using hshape

theorem publishShape_closePublish (name : String) (s : NfsSession) (opened : OpenedFile)
    (parent : List String) (tempName : String) (size : ℕ) (verifier : Option Verifier) (createNew : Bool) :
    PublishShape name createNew
      ((SessionCall.closePublish opened parent tempName name size verifier createNew).ops s) := by
  have hbefore : ∀ op ∈ .putFh opened.fh
      :: (if verifier.isSome then [.commit 0 (commitCount size)] else [])
      ++ [.verify size, .close opened.closeSeqid opened.stateid], NfsOp.isPrelude op := by
    cases verifier <;> simp [NfsOp.isPrelude, NfsOp.isPublish, NfsOp.opcode]
  exact publishShape_tail s hbefore parent tempName createNew

theorem publishShape_publishAfterClose (name : String) (s : NfsSession) (fh : FileHandle)
    (parent : List String) (tempName : String) (createNew : Bool) :
    PublishShape name createNew
      ((SessionCall.publishAfterClose fh parent tempName name createNew).ops s) := by
  refine publishShape_tail s ?_ parent tempName createNew
  cases createNew <;> simp [NfsOp.isPrelude, NfsOp.isPublish, NfsOp.opcode]

theorem publishShape_putFused (name : String) (s : NfsSession) (owner : Bytes) (parent : List String)
    (tempName : String) (data : Bytes) (createNew : Bool) :
    PublishShape name createNew
      ((SessionCall.putFused owner parent tempName name data createNew).ops s) := by
  have hpath := isPrelude_exportPathOps s.exportRoot parent
  cases createNew with
  | false =>
    have hall : ∀ op ∈ exportPathOps s.exportRoot parent ++ [.saveFh, .«open» 0 s.clientid owner
        tempName s.config.fileMode, .getFh, .write .current 0 data,
        .commit 0 (commitCount data.length), .verify data.length, .restoreFh], op.isPrelude := by
      intro op hop
      rcases List.mem_append.mp hop with hop | hop
      · exact hpath op hop
      · simp only [List.mem_cons, List.not_mem_nil, or_false] at hop
        rcases hop with rfl | rfl | rfl | rfl | rfl | rfl | rfl <;> rfl
    have hshape : PublishShape name false (_ ++ [.rename tempName name]) := .rename hall
    simpa [SessionCall.ops] using hshape
  | true =>
    have hall : ∀ op ∈ exportPathOps s.exportRoot parent ++ [.«open» 0 s.clientid owner
        tempName s.config.fileMode, .getFh, .write .current 0 data,
        .commit 0 (commitCount data.length), .verify data.length, .saveFh]
        ++ exportPathOps s.exportRoot parent, op.isPrelude := by
      intro op hop
      rcases List.mem_append.mp hop with hop | hop
      · rcases List.mem_append.mp hop with hop | hop
        · exact hpath op hop
        · simp only [List.mem_cons, List.not_mem_nil, or_false] at hop
          rcases hop with rfl | rfl | rfl | rfl | rfl | rfl <;> rfl
      · exact hpath op hop
    have hshape : PublishShape name true (_ ++ [.link name, .remove tempName]) := .link hall
    simpa [SessionCall.ops] using hshape

theorem Picks.countP_prelude (hp : Picks name p) {ops : List NfsOp} (h : ∀ op ∈ ops, op.isPrelude) :
    ops.countP p = 0 := by
  refine hp.countP_eq_zero fun op hop => ?_
  have := h op hop
  simp only [NfsOp.isPrelude, Bool.and_eq_true, Bool.not_eq_true'] at this
  exact this.1

theorem NfsOp.opcode_ne_remove_of_isPrelude {op : NfsOp} (h : op.isPrelude) : op.opcode ≠ .remove := by
  simp only [isPrelude, Bool.and_eq_true, bne_iff_ne] at h
  exact h.2

/-- An operation of a compound stands before its tail or in it. -/
theorem stopped_before_or_in {before tail ran rest : List NfsOp} {op : NfsOp}
    (h : before ++ tail = ran ++ op :: rest) :
    (op ∈ before ∧ ∀ o ∈ ran, o ∈ before) ∨ ∃ more, ran = before ++ more ∧ tail = more ++ op :: rest := by
  rcases List.append_eq_append_iff.mp h with ⟨more, rfl, htail⟩ | ⟨left, rfl, htail⟩
  · exact Or.inr ⟨more, rfl, htail⟩
  · cases left with
    | nil => exact Or.inr ⟨[], (List.append_nil _).symm ▸ (List.append_nil _).symm, htail.symm⟩
    | cons o left =>
      cases htail
      exact Or.inl ⟨List.mem_append_right _ List.mem_cons_self,
        fun o ho => List.mem_append_left _ ho⟩

/-- Where a compound of this shape can stop: at or before the publish, or at the removal
that follows it. -/
theorem PublishShape.stopped {createNew : Bool} {ops ran rest : List NfsOp} {op : NfsOp}
    (h : PublishShape name createNew ops) (hp : Picks name p) (hops : ops = ran ++ op :: rest) :
    ran.countP p = 0 ∧ op.opcode ≠ .remove ∨
      createNew = true ∧ ran.countP p = 1 ∧ op.opcode = .remove := by
  have hprelude : ∀ before : List NfsOp, (∀ op ∈ before, op.isPrelude) →
      (op ∈ before ∧ ∀ o ∈ ran, o ∈ before) → ran.countP p = 0 ∧ op.opcode ≠ .remove := by
    rintro before hbefore ⟨hop, hran⟩
    exact ⟨hp.countP_prelude fun o ho => hbefore o (hran o ho),
      NfsOp.opcode_ne_remove_of_isPrelude (hbefore op hop)⟩
  cases h with
  | @rename before tempName hbefore =>
    rcases stopped_before_or_in hops with hin | ⟨more, rfl, htail⟩
    · exact Or.inl (hprelude before hbefore hin)
    · cases more with
      | nil =>
        cases htail
        rw [List.append_nil]
        exact Or.inl ⟨hp.countP_prelude hbefore, nofun⟩
      | cons o more => cases more <;> cases htail
  | @link before tempName hbefore =>
    rcases stopped_before_or_in hops with hin | ⟨more, rfl, htail⟩
    · exact Or.inl (hprelude before hbefore hin)
    · cases more with
      | nil =>
        cases htail
        rw [List.append_nil]
        exact Or.inl ⟨hp.countP_prelude hbefore, nofun⟩
      | cons o more =>
        cases more with
        | nil =>
          cases htail
          refine Or.inr ⟨rfl, ?_, rfl⟩
          rw [List.countP_append, hp.countP_prelude hbefore, List.countP_singleton, hp.link]
          rfl
        | cons o' more => cases more <;> cases htail

theorem PublishShape.countP_eq_one {createNew : Bool} {ops : List NfsOp}
    (h : PublishShape name createNew ops) (hp : Picks name p) : ops.countP p = 1 := by
  have hremove : ∀ tempName, p (.remove tempName) = false := by
    intro tempName
    rw [← Bool.not_eq_true]
    exact fun h => absurd (hp.publish _ h) nofun
  cases h with
  | rename hbefore => simp [hp.countP_prelude hbefore, hp.rename]
  | link hbefore => simp [hp.countP_prelude hbefore, hp.link, hremove]

/-! ### What an error says -/

theorem classifyPublishError_of_foreign (mode : PutMode) {err : Error} (h : err.isForeign = true) :
    classifyPublishError mode err = .outcomeUnknown := by
  cases err <;> first | rfl | cases h
  all_goals simp [classifyPublishError, Error.isNfsOperation, Error.isNfsError,
    errorProvesOperationNotRun, Error.isRequestNotSent, Error.nfsStatusCode]

theorem classifyPublishError_notSent (mode : PutMode) (source : Error) :
    classifyPublishError mode (.requestNotSent source) = .noPublish := by
  cases mode <;> rfl

theorem classifyPublishError_ofStatus (mode : PutMode) (status : NfsStatus) (op : OpCode) :
    classifyPublishError mode (.ofStatus status op)
      = if mode = .ifNotExists ∧ op = .remove then .published
        else if mode = .ifNotExists ∧ status = .EXIST ∧ op = .link then .alreadyExists
        else if op = .illegal then .outcomeUnknown
        else .noPublish := by
  have hproves : errorProvesOperationNotRun (.ofStatus status op) = !decide (op = .illegal) := by
    have hillegal : (Error.ofStatus status op).isNfsOperation .illegal = decide (op = .illegal) := by
      rw [Bool.eq_iff_iff, Error.isNfsOperation_ofStatus, decide_eq_true_iff]
    rw [errorProvesOperationNotRun, hillegal]
    rfl
  rw [classifyPublishError, hproves]
  simp only [Error.isNfsOperation_ofStatus, Error.isNfsError_ofStatus]
  split
  · rfl
  · split
    · rfl
    · by_cases hop : op = .illegal <;> simp [hop]

/-- No publish was or will be executed. -/
def Unpublished (p : NfsOp → Bool) (w : World S) : Prop := w.Bounds p 0 0

/-- A publish was executed, and no other will be. -/
def Published (p : NfsOp → Bool) (w : World S) : Prop := w.Bounds p 1 1

/-- The publishes that were executed at least, and those that will have been at most. -/
def PublishError.least : PublishError → ℕ
  | published => 1
  | alreadyExists | noPublish | outcomeUnknown => 0

def PublishError.most : PublishError → ℕ
  | published | outcomeUnknown => 1
  | alreadyExists | noPublish => 0

/-- What is known of the publish after an error. -/
def Settled (p : NfsOp → Bool) (mode : PutMode) (err : Error) (w : World S) : Prop :=
  w.Bounds p (classifyPublishError mode err).least (classifyPublishError mode err).most

theorem Unpublished.mayRun {w : World S} (hw : Unpublished p w) : w.mayRun p = 0 :=
  Nat.le_zero.mp hw.most

theorem unpublished_of_mayRun {w : World S} (hw : w.mayRun p = 0) : Unpublished p w :=
  ⟨Nat.zero_le _, Nat.le_of_eq hw⟩

theorem Settled.le {mode : PutMode} {err : Error} {w : World S} (h : Settled p mode err w) :
    w.mayRun p ≤ 1 :=
  Nat.le_trans h.most (by cases classifyPublishError mode err <;> decide)

theorem Settled.of_foreign {mode : PutMode} {err : Error} {w : World S} (herr : err.isForeign = true)
    (hle : w.mayRun p ≤ 1) : Settled p mode err w := by
  rw [Settled, classifyPublishError_of_foreign mode herr]
  exact ⟨Nat.zero_le _, hle⟩

theorem Settled.of_unpublished {mode : PutMode} {err : Error} {w : World S} (hw : Unpublished p w)
    (herr : classifyPublishError mode err ≠ .published) : Settled p mode err w := by
  refine ⟨?_, Nat.le_trans hw.most (Nat.zero_le _)⟩
  cases hclass : classifyPublishError mode err with
  | published => exact absurd hclass herr
  | _ => exact Nat.zero_le _

/-! ### One publishing compound -/

section

variable {s : NfsSession} {call : SessionCall} {w w' : World S} {mode : PutMode}
  {out : Except CompoundDecodeError call.Result}

/-- How far a publishing compound got. -/
theorem PublishShape.executed {createNew : Bool} {ops : List NfsOp} {t : Replies}
    {x y : S × env.Ctx} (h : PublishShape name createNew ops) (hp : Picks name p)
    (hexec : env.Executes ops x t y) :
    t.failure = none ∧ (ops.take t.results.length).countP p = 1 ∨ ∃ f, t.failure = some f ∧
      ((ops.take t.results.length).countP p = 0 ∧ f.op ≠ .remove ∨
        createNew = true ∧ (ops.take t.results.length).countP p = 1 ∧
          (f.op = .remove ∨ f.op = .illegal)) := by
  cases hf : t.failure with
  | none =>
    refine Or.inl ⟨rfl, ?_⟩
    rw [hexec.length_eq hf, List.take_length]
    exact h.countP_eq_one hp
  | some f =>
    obtain ⟨op, rest, hops, -, hanswers⟩ := hexec.stopped hf
    refine Or.inr ⟨f, rfl, (h.stopped hp hops).imp ?_ ?_⟩
    · rintro ⟨hzero, hop⟩
      refine ⟨hzero, ?_⟩
      rcases hanswers with hfop | ⟨hfop, -⟩
      · rwa [hfop]
      · rw [hfop]
        exact nofun
    · rintro ⟨hnew, hone, hop⟩
      exact ⟨hnew, hone, hanswers.imp (fun hfop => hfop.trans hop) And.left⟩

section

variable {t : Replies} {st : S} {ctx : env.Ctx}

theorem mayRun_deliver (hw : Unpublished p w)
    (hexec : env.Executes (call.ops s) (w.state, env.start) t (st, ctx)) :
    (w.deliver (call.ops s) t st).mayRun p = ((call.ops s).take t.results.length).countP p := by
  rw [w.mayRun_deliver p st hexec.length_le, hw.mayRun, Nat.zero_add]

theorem published_deliver (hw : Unpublished p w)
    (hexec : env.Executes (call.ops s) (w.state, env.start) t (st, ctx))
    (hone : ((call.ops s).take t.results.length).countP p = 1) :
    Published p (w.deliver (call.ops s) t st) := by
  refine ⟨?_, Nat.le_of_eq ((mayRun_deliver hw hexec).trans hone)⟩
  rw [w.ran_deliver p st hexec.length_le, hone]
  exact Nat.le_add_left ..

end

/-- **Errors are classified right.** -/
theorem settled_of_served (hshape : PublishShape name mode.createNew (call.ops s))
    (hp : Picks name p) (hw : Unpublished p w) (hcall : CallServed env s call w out w')
    {err : CompoundDecodeError} (hout : out = .error err) : Settled p mode err.error w' := by
  cases hcall with
  | @notSent source =>
    cases hout
    refine .of_unpublished hw ?_
    rw [CompoundDecodeError.error_ofError, classifyPublishError_notSent]
    exact nofun
  | @rejected err' _ _ herr =>
    cases hout
    have hnever : Unpublished p (w.send (call.ops s)) :=
      unpublished_of_mayRun ((w.mayRun_send p _).trans hw.mayRun)
    rcases herr with hforeign | ⟨status, -, rfl⟩
    · exact .of_foreign hforeign (Nat.le_trans hnever.most (Nat.zero_le 1))
    · refine .of_unpublished hnever ?_
      rw [CompoundDecodeError.error_ofError, classifyPublishError_ofStatus]
      simp
  | @lost err' _ _ herr =>
    cases hout
    refine .of_foreign herr ?_
    exact Nat.le_of_eq (by rw [World.mayRun_lose, hw.mayRun, hshape.countP_eq_one hp])
  | @delivered t st ctx _ hexec _ _ hholds =>
    subst hout
    have hmay := mayRun_deliver hw hexec
    rcases hholds with ⟨-, f, hf, -, rfl⟩ | ⟨⟨-, hforeign⟩, -⟩
    · have hclass := classifyPublishError_ofStatus mode f.status f.op
      change Settled p mode (.ofStatus f.status f.op) _
      rcases hshape.executed hp hexec with ⟨hnone, -⟩ | ⟨f', hf', hcase⟩
      · rw [hf] at hnone
        cases hnone
      · rw [hf] at hf'
        cases hf'
        rcases hcase with ⟨hzero, hop⟩ | ⟨hnew, hone, hop⟩
        · -- the publish was not reached, or was refused
          refine .of_unpublished (unpublished_of_mayRun (hmay.trans hzero)) ?_
          simp only [hop, and_false, if_false] at hclass
          rw [hclass]
          split_ifs <;> exact nofun
        · -- only the removal of the temporary name was refused
          have hmode : mode = .ifNotExists := by cases mode <;> first | rfl | cases hnew
          rcases hop with hop | hop
          · rw [if_pos ⟨hmode, hop⟩] at hclass
            rw [Settled, hclass]
            exact published_deliver hw hexec hone
          · have hunknown : classifyPublishError mode (.ofStatus f.status f.op) = .outcomeUnknown := by
              rw [hclass, hop]
              simp
            rw [Settled, hunknown]
            exact ⟨Nat.zero_le _, Nat.le_of_eq (hmay.trans hone)⟩
    · refine .of_foreign hforeign ?_
      rw [hmay, ← hshape.countP_eq_one hp]
      exact (List.take_sublist ..).countP_le

/-- The outcomes of a publishing compound are not failures of its removal. -/
def TypedEarly (call : SessionCall) : Prop :=
  ∀ op status v, call.typed op status = some v → op ≠ .remove ∧ op ≠ .illegal

/-- A publishing compound that succeeds has published, unless its result is an outcome
that stands for a failure. -/
theorem published_of_served (hshape : PublishShape name mode.createNew (call.ops s))
    (hp : Picks name p) (htyped : TypedEarly call) (hw : Unpublished p w)
    (hcall : CallServed env s call w out w') {v : call.Result} (hout : out = .ok v) :
    Published p w' ∧ (∃ os, call.value os = some v) ∨
      Unpublished p w' ∧ ∃ op status, call.typed op status = some v := by
  cases hcall with
  | notSent | rejected | lost => cases hout
  | @delivered t st ctx _ hexec _ _ hholds =>
    subst hout
    obtain ⟨-, ⟨hnone, hv⟩ | ⟨f, hf, hv⟩⟩ := hholds
    · rcases hshape.executed hp hexec with ⟨-, hone⟩ | ⟨f, hf, -⟩
      · exact Or.inl ⟨published_deliver hw hexec hone, _, hv⟩
      · rw [hnone] at hf
        cases hf
    · rcases hshape.executed hp hexec with ⟨hnone, -⟩ | ⟨f', hf', hcase⟩
      · rw [hf] at hnone
        cases hnone
      · rw [hf] at hf'
        cases hf'
        obtain ⟨hremove, hillegal⟩ := htyped _ _ _ hv
        rcases hcase with ⟨hzero, -⟩ | ⟨-, -, hop⟩
        · exact Or.inr ⟨unpublished_of_mayRun ((mayRun_deliver hw hexec).trans hzero), _, _, hv⟩
        · exact absurd hop (not_or.mpr ⟨hremove, hillegal⟩)

/-- After a transient status, the error tells which operations were executed. -/
theorem mayRun_of_transient (hw : Unpublished p w) (hcall : CallServed env s call w out w')
    {err : CompoundDecodeError} (hout : out = .error err) (htransient : err.transientStatus.isSome) :
    w'.mayRun p = ((call.ops s).take (err.replyIndex.getD 0 - 1)).countP p := by
  cases hcall with
  | notSent | rejected | lost =>
    cases hout
    cases htransient
  | @delivered t st ctx _ hexec _ _ hholds =>
    subst hout
    rcases hholds with ⟨-, f, -, -, rfl⟩ | ⟨⟨hstatus, -⟩, -⟩
    · rw [mayRun_deliver hw hexec]
      change _ = ((call.ops s).take (1 + t.results.length - 1)).countP p
      rw [Nat.add_sub_cancel_left]
    · rw [CompoundDecodeError.transientStatus, hstatus] at htransient
      cases htransient

end

end NfsCrust
