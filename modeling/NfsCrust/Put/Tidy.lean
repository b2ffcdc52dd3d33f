import NfsCrust.Lib.Ledger
import NfsCrust.Limits
import NfsCrust.Put.Once
import NfsCrust.Server.Events

/-!
# What a put owes

An `OPEN` that succeeds raises an obligation: the temporary file has to be removed or
published, and its open state has to be closed.  Both are ledgers over what happened at
the server, and most of a put neither raises nor clears anything.

Here the client stays connected: nothing it sends is lost, so that nothing is under way
when a compound is sent.

## Main definitions

* `Environment.Connected` — nothing is lost.
* `Tidy` — what is owed at most.

## Main results

* `Tidy.step` — what is owed after more events.
* `Tidy.quiet` — a call that opens nothing owes nothing new.
-/

namespace NfsCrust

open Interaction Thread Environment

variable {S K : Type} {env : Environment S} {s : NfsSession} {call : SessionCall} {w w' : World S}

/-- Nothing is lost, and nothing fails to be sent. -/
def Environment.Connected (env : Environment S) : Prop := ∀ ops, ¬ env.faults ops

/-- What is owed is held, or was handed to the worker that closes files. -/
structure Tidy (L : Ledger Event K) (defers : NfsSession × OpenedFile → K → Prop)
    (held : K → Prop) (w : World S) : Prop where
  late : w.late = []
  owed : ∀ k, L.Owed w.events k → held k ∨ ∃ x ∈ w.queue, defers x k

/-- Only an `OPEN` that succeeds raises anything. -/
def OpensOnly (L : Ledger Event K) : Prop :=
  ∀ e k, L.raises e k → ∃ op r, e = .executed op r ∧ op.opcode = .«open»

def SessionCall.mayOpen : SessionCall → Bool
  | openFile .. | putFused .. => true
  | _ => false

theorem SessionCall.opcode_of_not_mayOpen (h : call.mayOpen = false) :
    .«open» ∉ (call.ops s).map NfsOp.opcode := by
  cases call with
  | closeBatch opened =>
    rw [map_opcode_closeBatch]
    simp [closeBatchCodes]
  | closePublish _ _ _ _ _ verifier createNew =>
    cases verifier <;> cases createNew <;>
      simp [SessionCall.ops, SessionCall.publishTail, NfsOp.opcode]
  | publishAfterClose _ _ _ _ createNew =>
    cases createNew <;> simp [SessionCall.ops, SessionCall.publishTail, NfsOp.opcode]
  | openFile | putFused => cases h
  | _ => simp [SessionCall.ops, NfsOp.opcode, writeAndCommitOps, readdirOp]

namespace Tidy

variable {L : Ledger Event K} {defers : NfsSession × OpenedFile → K → Prop} {held held' : K → Prop}

/-- What is owed after more events. -/
theorem step {es : List Event} (hw : Tidy L defers held w) (hevents : w'.events = w.events ++ es)
    (hlate : w'.late = w.late) (hqueue : w'.queue = w.queue) (hnew : ∀ k, L.Owed es k → held' k)
    (hold : ∀ k, held k → (∀ e ∈ es, ¬ L.clears e k) → held' k) : Tidy L defers held' w' := by
  refine ⟨hlate.trans hw.late, fun k hk => ?_⟩
  rw [hevents] at hk
  rw [hqueue]
  rcases Ledger.owed_append hk with ⟨howed, hclears⟩ | howed
  · exact (hw.owed k howed).imp_left fun hheld => hold k hheld hclears
  · exact Or.inl (hnew k howed)

theorem mono (hw : Tidy L defers held w) (h : ∀ k, held k → held' k) : Tidy L defers held' w :=
  ⟨hw.late, fun k hk => (hw.owed k hk).imp_left (h k)⟩

theorem stable : env.Stable (Tidy L defers held) where
  drift w w' hw h := by
    rw [h.eq_state hw.late]
    exact ⟨hw.late, hw.owed⟩
  latched w s hw := ⟨hw.late, hw.owed⟩
  queue w x hw := ⟨hw.late, fun k hk => (hw.owed k hk).imp_right fun ⟨y, hy, h⟩ =>
    ⟨y, List.mem_append_left _ hy, h⟩⟩

theorem send (hL : OpensOnly L) (ops : List NfsOp) (hw : Tidy L defers held w)
    (hold : ∀ k, held k → ¬ L.clears (.sent ops) k → held' k) :
    Tidy L defers held' (w.send ops) := by
  refine hw.step rfl rfl rfl (fun k hk => ?_) fun k hk hclears =>
    hold k hk (hclears _ List.mem_cons_self)
  obtain ⟨e, he, hraises⟩ := hk.raised
  obtain ⟨op, r, rfl, -⟩ := hL e k hraises
  cases List.mem_singleton.mp he

/-- A delivered compound: what its operations owe, and what is cleared when it is sent. -/
theorem deliver {ops : List NfsOp} {t : Replies} {st : S} (hL : OpensOnly L)
    (hw : Tidy L defers held w)
    (hnew : ∀ k, L.Owed (happened ops t.results t.failure) k → held' k)
    (hold : ∀ k, held k → ¬ L.clears (.sent ops) k →
      (∀ e ∈ happened ops t.results t.failure, ¬ L.clears e k) → held' k) :
    Tidy L defers held' (w.deliver ops t st) := by
  refine hw.step rfl rfl rfl (fun k hk => ?_) fun k hk hclears => hold k hk
    (hclears _ List.mem_cons_self) fun e he => hclears e (List.mem_cons_of_mem _ he)
  have hk : L.Owed ([.sent ops] ++ happened ops t.results t.failure) k := hk
  rcases Ledger.owed_append hk with ⟨howed, -⟩ | howed
  · obtain ⟨e, he, hraises⟩ := howed.raised
    obtain ⟨op, r, rfl, -⟩ := hL e k hraises
    cases List.mem_singleton.mp he
  · exact hnew k howed

/-- What a compound without an `OPEN` owes. -/
theorem not_owed_happened (hL : OpensOnly L) {ops : List NfsOp} {results : List OpRes}
    {failure : Option Failure} {k : K} (hops : .«open» ∉ (ops.take results.length).map NfsOp.opcode) :
    ¬ L.Owed (happened ops results failure) k := by
  intro h
  obtain ⟨e, he, hraises⟩ := h.raised
  obtain ⟨op, r, rfl, hop⟩ := hL e k hraises
  exact hops (hop ▸ List.mem_map_of_mem (executed_mem_happened he).1)

/-- A call that opens nothing. -/
theorem quiet (hL : OpensOnly L) (henv : env.Connected) (hcall : call.mayOpen = false) :
    env.Quiet (Tidy L defers held) s call := by
  have hops := SessionCall.opcode_of_not_mayOpen (s := s) hcall
  intro w out w' hw hserved
  cases hserved with
  | notSent => exact hw
  | rejected => exact hw.send hL _ fun k hk _ => hk
  | lost h => exact absurd h (henv _)
  | delivered =>
    refine hw.deliver hL (fun k hk => absurd hk (not_owed_happened hL fun hmem => hops ?_))
      fun k hk _ _ => hk
    exact List.map_subset _ (List.take_subset _ _) hmem

/-- A call that fits is sent, which clears what is held. -/
theorem of_sent (hL : OpensOnly L) (henv : env.Connected) (hcall : call.mayOpen = false)
    (hvalid : s.validateCompoundRequest call.tag (call.ops s) = .ok ())
    (hclears : ∀ k, held k → L.clears (.sent (call.ops s)) k) (hw : Tidy L defers held w)
    {out : Except CompoundDecodeError call.Result} (hserved : CallServed env s call w out w') :
    Tidy L defers (fun _ => False) w' := by
  have hops := SessionCall.opcode_of_not_mayOpen (s := s) hcall
  cases hserved with
  | notSent h =>
    rcases h with h | ⟨err, h⟩
    · exact absurd h (henv _)
    · rw [hvalid] at h
      cases h
  | rejected => exact hw.send hL _ fun k hk h => h (hclears k hk)
  | lost h => exact absurd h (henv _)
  | delivered =>
    refine hw.deliver hL (fun k hk => ?_) fun k hk h _ => h (hclears k hk)
    refine not_owed_happened hL (fun hmem => hops ?_) hk
    exact List.map_subset _ (List.take_subset _ _) hmem

theorem safe_call_sent (hL : OpensOnly L) (henv : env.Connected) (hcall : call.mayOpen = false)
    (hvalid : s.validateCompoundRequest call.tag (call.ops s) = .ok ())
    (hclears : ∀ k, held k → L.clears (.sent (call.ops s)) k) (hw : Tidy L defers held w) :
    Safe (E := effects) env.serve Eq (fun _ _ => True) (fun _ w' => Tidy L defers (fun _ => False) w')
      (s.call call).run w := by
  refine Environment.safe_call (Tidy L defers held) hw ?_ stable.drift (fun _ _ => trivial) ?_
  · rintro w _ hw rfl
    exact hw
  · intro w w₁ out w' _ _ hw₁ hserved
    have hclean := hw₁.of_sent hL henv hcall hvalid hclears hserved
    exact ⟨trivial, hclean, fun _ _ _ => hclean.mono fun _ h => h.elim⟩

/-- What is owed after a compound that was executed in full and whose last operation clears
everything. -/
theorem of_last {before : List NfsOp} {last : NfsOp} {t : Replies} {st : S} (hL : OpensOnly L)
    (hlast : last.opcode ≠ .«open») (hnone : t.failure = none)
    (hlength : t.results.length = before.length + 1)
    (hclears : ∀ r k, held k → L.clears (.executed last r) k)
    (hnew : ∀ k, L.Owed (happened (before ++ [last]) t.results t.failure) k → held k)
    (hw : Tidy L defers held w) : Tidy L defers (fun _ => False) (w.deliver (before ++ [last]) t st) := by
  obtain ⟨r, hr⟩ := @happened_concat before t.results last hlength
  have hmem : .executed last r ∈ happened (before ++ [last]) t.results t.failure := by
    rw [hnone, hr]
    exact List.mem_append_right _ List.mem_cons_self
  refine hw.deliver hL (fun k hk => ?_) fun k hk _ h => h _ hmem (hclears r k hk)
  have hheld := hnew k hk
  rw [hnone, hr] at hk
  rcases Ledger.owed_append hk with ⟨-, h⟩ | h
  · exact h _ List.mem_cons_self (hclears r k hheld)
  · obtain ⟨e, he, hraises⟩ := h.raised
    obtain ⟨op, r', rfl, hop⟩ := hL e k hraises
    cases List.mem_singleton.mp he
    exact hlast hop

end Tidy

/-! ### Opening a file -/

theorem findSome?_stateid {results : List OpRes} {res : OpenRes}
    (hcount : (results.map OpRes.opcode).count .«open» ≤ 1) (hmem : .«open» res ∈ results) :
    results.findSome? OpRes.stateid? = some res.stateid := by
  induction results with
  | nil => cases hmem
  | cons r results ih =>
    rw [List.map_cons, List.count_cons] at hcount
    rcases List.mem_cons.mp hmem with rfl | hmem
    · rfl
    · have hin : 0 < (results.map OpRes.opcode).count .«open» :=
        List.count_pos_iff.mpr (List.mem_map_of_mem (f := OpRes.opcode) hmem)
      have hne : r.opcode ≠ .«open» := by
        intro heq
        rw [heq] at hcount
        simp only [beq_self_eq_true, if_true] at hcount
        omega
      have hnone : r.stateid? = none := by cases r <;> first | rfl | exact absurd rfl hne
      rw [List.findSome?_cons, hnone]
      exact ih (Nat.le_trans (Nat.le_add_right _ _) hcount) hmem

theorem open_mem_of_findSome? {results : List OpRes} {stateid : StateId}
    (h : results.findSome? OpRes.stateid? = some stateid) : ∃ res, .«open» res ∈ results := by
  obtain ⟨r, hr, hstateid⟩ := List.exists_of_findSome?_eq_some h
  cases r <;> first | exact ⟨_, hr⟩ | cases hstateid

theorem mem_of_findSome?_write {results : List OpRes} {write : WriteData}
    (h : results.findSome? OpRes.write? = some write) :
    .write write.count write.committed write.verifier ∈ results := by
  obtain ⟨r, hr, hwrite⟩ := List.exists_of_findSome?_eq_some h
  cases r with
  | write count committed verifier =>
    cases hwrite
    exact hr
  | _ => cases hwrite

/-- The handle the client reads off results it supports. -/
theorem SessionCall.Supported.handle_le {results : List OpRes} {fh : FileHandle}
    (h : call.Supported results) (hfh : results.findSome? OpRes.handle? = some fh) :
    fh.bytes.length ≤ 128 := by
  obtain ⟨r, hr, hhandle⟩ := List.exists_of_findSome?_eq_some hfh
  cases r with
  | getFh handle =>
    cases hhandle
    exact h.handle handle hr
  | _ => cases hhandle

/-- What a compound with one `OPEN` owes: its `OPEN` succeeded, and the state it returned
is the one the client reads off the results. -/
theorem opened_of_owed {L : Ledger Event K} (hL : OpensOnly L) {ops : List NfsOp} {t : Replies}
    {x y : S × env.Ctx} {k : K} (hexec : env.Executes ops x t y)
    (hcount : (ops.map NfsOp.opcode).count .«open» ≤ 1)
    (h : L.Owed (happened ops t.results t.failure) k) :
    ∃ op res, op ∈ ops ∧ op.opcode = .«open» ∧ .«open» res ∈ t.results ∧
      t.results.findSome? OpRes.stateid? = some res.stateid ∧
      L.raises (.executed op (.«open» res)) k := by
  obtain ⟨e, he, hraises⟩ := h.raised
  obtain ⟨op, r, rfl, hop⟩ := hL e k hraises
  obtain ⟨hmem, hr⟩ := executed_mem_happened he
  obtain ⟨res, rfl⟩ : ∃ res, r = .«open» res := by
    have := (hexec.opcode_eq he).trans hop
    cases r <;> first | exact ⟨_, rfl⟩ | cases this
  refine ⟨op, res, List.mem_of_mem_take hmem, hop, hr, findSome?_stateid ?_ hr, hraises⟩
  rw [hexec.map_opcode]
  exact Nat.le_trans (((List.take_sublist ..).map _).count_le _) hcount

/-- Whenever the `OPEN` of a compound that opens a file succeeds, the compound is executed in
full, with results that the client supports. -/
def Environment.OpensComplete (env : Environment S) : Prop :=
  ∀ s owner parent name st t x,
    env.Executes ((SessionCall.openFile owner parent name).ops s) (st, env.start) t x →
    env.admits ((SessionCall.openFile owner parent name).ops s) st t →
    (∃ res, .«open» res ∈ t.results) →
      t.failure = none ∧ (SessionCall.openFile owner parent name).Supported t.results

section

variable {L : Ledger Event K} {defers : NfsSession × OpenedFile → K → Prop}
  {parent : List String} {name : String}

/-- What a file that was opened under a name owes. -/
def OpenOwes (L : Ledger Event K) (name : String) (stateid : StateId) (k : K) : Prop :=
  ∃ seqid clientid owner mode res, res.stateid = stateid ∧
    L.raises (.executed (.«open» seqid clientid owner name mode) (.«open» res)) k

theorem opcode_ne_open_of_mem_path {root : FileHandle} {components : List String} {op : NfsOp}
    (h : op ∈ exportPathOps root components) : op.opcode ≠ .«open» := by
  rcases List.mem_cons.mp h with rfl | h
  · exact nofun
  · obtain ⟨component, -, rfl⟩ := List.mem_map.mp h
    exact nofun

theorem eq_open_of_mem_openFile {owner : Bytes} {op : NfsOp}
    (h : op ∈ (SessionCall.openFile owner parent name).ops s) (hop : op.opcode = .«open») :
    op = .«open» 0 s.clientid owner name s.config.fileMode := by
  rcases List.mem_append.mp h with h | h
  · exact absurd hop (opcode_ne_open_of_mem_path h)
  · simp only [List.mem_cons, List.not_mem_nil, or_false] at h
    rcases h with rfl | rfl
    · rfl
    · cases hop

/-- What is owed after a compound that opens a file. -/
def OpenFileOwes (L : Ledger Event K) (defers : NfsSession × OpenedFile → K → Prop)
    (s : NfsSession) (owner : Bytes) (parent : List String) (name : String) :
    Except CompoundDecodeError (OpenOutcome (StateId × FileHandle)) → World S → Prop
  | .ok (.opened (stateid, fh)), w => Tidy L defers (OpenOwes L name stateid) w ∧
      fh.bytes.length ≤ 128 ∧
      s.validateCompoundRequest "open" ((SessionCall.openFile owner parent name).ops s) = .ok ()
  | .ok .exists, w | .error _, w => Tidy L defers (fun _ => False) w

theorem openFileOwes_of_served (hL : OpensOnly L) (henv : env.Connected) (hopens : env.OpensComplete)
    {owner : Bytes} {out : Except CompoundDecodeError _} (hw : Tidy L defers (fun _ => False) w)
    (hcall : CallServed env s (.openFile owner parent name) w out w') :
    OpenFileOwes L defers s owner parent name out w' := by
  have hcount : (((SessionCall.openFile owner parent name).ops s).map NfsOp.opcode).count .«open»
      ≤ 1 := by
    simp [SessionCall.ops, NfsOp.opcode, List.count_replicate]
  cases hcall with
  | notSent => exact hw
  | rejected => exact hw.send hL _ fun _ h => h.elim
  | lost h => exact absurd h (henv _)
  | @delivered t st ctx _ hexec hadmits hvalid hholds =>
    by_cases hopen : ∃ res, .«open» res ∈ t.results
    · -- the compound was executed in full, and its results are understood
      obtain ⟨hnone, hsupported⟩ := hopens s owner parent name _ t _ hexec hadmits hopen
      cases out with
      | error err =>
        rcases hholds with ⟨-, f, hf, -⟩ | ⟨-, hunsupported⟩
        · rw [hnone] at hf
          cases hf
        · exact absurd hsupported hunsupported
      | ok v =>
        rcases hholds with ⟨-, ⟨-, hv⟩ | ⟨f, hf, -⟩⟩
        · obtain ⟨stateid, hstateid, hv⟩ := Option.bind_eq_some_iff.mp hv
          obtain ⟨fh, hfh, hv⟩ := Option.bind_eq_some_iff.mp hv
          cases hv
          refine ⟨hw.deliver hL (fun k hk => ?_) fun _ h => h.elim, hsupported.handle_le hfh, hvalid⟩
          obtain ⟨op, res, hop, hcode, -, hres, hraises⟩ := opened_of_owed hL hexec hcount hk
          rw [hstateid] at hres
          cases hres
          exact ⟨_, _, _, _, res, rfl, eq_open_of_mem_openFile hop hcode ▸ hraises⟩
        · rw [hnone] at hf
          cases hf
    · have hclean : Tidy L defers (fun _ => False)
          (w.deliver ((SessionCall.openFile owner parent name).ops s) t st) := by
        refine hw.deliver hL (fun k hk => ?_) fun _ h => h.elim
        obtain ⟨op, res, -, -, hres, -⟩ := opened_of_owed hL hexec hcount hk
        exact hopen ⟨res, hres⟩
      cases out with
      | error err => exact hclean
      | ok v =>
        cases v with
        | «exists» => exact hclean
        | opened file =>
          rcases hholds with ⟨-, ⟨-, hv⟩ | ⟨f, -, htyped⟩⟩
          · obtain ⟨stateid', hstateid, -⟩ := Option.bind_eq_some_iff.mp hv
            exact absurd (open_mem_of_findSome? hstateid) hopen
          · simp only [SessionCall.expectation, SessionCall.typed, caughtExist] at htyped
            split at htyped <;> cases htyped

/-- What is owed after a file was opened under a temporary name. -/
def TempOwes (env : Environment S) (L : Ledger Event K)
    (defers : NfsSession × OpenedFile → K → Prop) (s : NfsSession) (parent : List String) :
    Except Error (String × OpenedFile) → World S → Prop
  | .ok (tempName, opened), w => Tidy L defers (OpenOwes L tempName opened.stateid) w ∧
      opened.fh.bytes.length ≤ 128 ∧ (∃ st, env.tempName st tempName) ∧
      ∃ owner, s.validateCompoundRequest "open"
        ((SessionCall.openFile owner parent tempName).ops s) = .ok ()
  | .error _, w => Tidy L defers (fun _ => False) w

section

variable (hL : OpensOnly L) (henv : env.Connected) (hopens : env.OpensComplete)
include hL henv hopens

theorem safe_call_openFile (owner : Bytes) (hw : Tidy L defers (fun _ => False) w) :
    Safe (E := effects) env.serve Eq (fun _ _ => True)
      (fun r w' => OpenFileOwes L defers s owner parent name (r.mapError .ofError) w')
      (s.call (.openFile owner parent name)).run w := by
  refine Environment.safe_call (Tidy L defers fun _ => False) hw ?_ Tidy.stable.drift
    (fun _ _ => trivial) ?_
  · rintro w _ hw rfl
    exact hw
  · intro w w₁ out w' _ _ hw₁ hcall
    have howes := openFileOwes_of_served hL henv hopens hw₁ hcall
    cases out with
    | ok outcome => exact ⟨trivial, howes, nofun⟩
    | error err => exact ⟨trivial, howes, fun _ _ _ => howes⟩

theorem safe_openTempFileFrom_owes (n : ℕ) (hw : Tidy L defers (fun _ => False) w) :
    Safe (E := effects) env.serve Eq (fun _ _ => True) (TempOwes env L defers s parent)
      (openTempFileFrom s parent n).run w := by
  induction n generalizing w with
  | zero => exact hw
  | succ n ih =>
    refine safe_bindExcept (safe_lift (safe_perform ?_))
    rintro w₁ tempName w₂ rfl ⟨hname, rfl⟩
    refine ⟨trivial, safe_bindExcept (safe_bindExcept (safe_lift (safe_perform ?_)))⟩
    rintro w₁ owner w₂ rfl rfl
    refine ⟨trivial, safe_bindExcept ((safe_call_openFile hL henv hopens owner hw).mono ?_)⟩
    intro r w₁ hr
    match r, hr with
    | .error err, hr => exact hr
    | .ok .exists, hr => exact ih hr
    | .ok (.opened (stateid, fh)), ⟨hr, hfh, hvalid⟩ => exact ⟨hr, hfh, ⟨_, hname⟩, owner, hvalid⟩

theorem safe_openTempFileIn_owes (hw : Tidy L defers (fun _ => False) w) :
    Safe (E := effects) env.serve Eq (fun _ _ => True) (TempOwes env L defers s parent)
      (openTempFileIn s parent).run w := by
  have hopen : ∀ w : World S, Tidy L defers (fun _ => False) w → Safe (E := effects) env.serve Eq
      (fun _ _ => True) (TempOwes env L defers s parent) (openTempFile s parent).run w :=
    fun w hw => safe_openTempFileFrom_owes hL henv hopens _ hw
  have hdirs : env.QuietDirs (Tidy L defers fun _ => False) s :=
    ⟨fun _ _ => Tidy.quiet hL henv rfl, fun _ _ => Tidy.quiet hL henv rfl,
      fun _ _ => Tidy.quiet hL henv rfl, fun _ _ => Tidy.quiet hL henv rfl,
      fun _ _ => Tidy.quiet hL henv rfl⟩
  refine safe_bindExcept (safe_attempt ((hopen w hw).mono fun r w₁ hr => ?_))
  match r, hr with
  | .ok _, hr => exact hr
  | .error err, hr =>
    dsimp only
    split
    · refine safe_bindExcept (((keeps_createDirsBelow Tidy.stable hdirs parent [] none).safe
        (fun _ _ => trivial) hr).mono fun r w₂ hw₂ => ?_)
      cases r with
      | ok _ => exact hopen w₂ hw₂
      | error err => exact hw₂
    · exact hr

end

end

/-! ### The fused put -/

section

variable {owner : Bytes} {parent : List String} {tempName name : String} {data : Bytes}
  {createNew : Bool}

theorem eq_open_of_mem_putFused {op : NfsOp}
    (h : op ∈ (SessionCall.putFused owner parent tempName name data createNew).ops s)
    (hop : op.opcode = .«open») : op = .«open» 0 s.clientid owner tempName s.config.fileMode := by
  have hpath : op ∉ exportPathOps s.exportRoot parent := fun h => opcode_ne_open_of_mem_path h hop
  cases createNew <;> simp only [SessionCall.ops, List.mem_append, List.mem_cons, List.not_mem_nil,
    hpath, Bool.false_eq_true, if_true, if_false, false_or, or_false] at h
  · rcases h with (rfl | rfl | rfl | rfl | rfl | rfl) | rfl | rfl <;> first | rfl | cases hop
  · rcases h with (rfl | rfl | rfl | rfl | rfl) | rfl | rfl | rfl <;> first | rfl | cases hop

theorem count_open_putFused (s : NfsSession) (owner : Bytes) (parent : List String)
    (tempName name : String) (data : Bytes) (createNew : Bool) :
    (((SessionCall.putFused owner parent tempName name data createNew).ops s).map
      NfsOp.opcode).count .«open» ≤ 1 := by
  cases createNew <;> simp [SessionCall.ops, NfsOp.opcode, List.count_replicate]

/-- When the temporary name is taken, nothing was opened. -/
theorem not_opened_of_exists {t : Replies} {x y : S × env.Ctx} {f : Failure} {v : OpenOutcome _}
    {res : OpenRes} (hexec : env.Executes
      ((SessionCall.putFused owner parent tempName name data createNew).ops s) x t y)
    (hf : t.failure = some f) (htyped : (SessionCall.putFused owner parent tempName name data
      createNew).typed f.op f.status = some v) : .«open» res ∉ t.results := by
  intro hres
  have hop : f.op = .«open» := by
    simp only [SessionCall.typed, caughtExist] at htyped
    split at htyped
    · next h => exact h.1
    · cases htyped
  obtain ⟨op, rest, hops, -, hanswers⟩ := hexec.stopped hf
  have hcode : op.opcode = .«open» := by
    rcases hanswers with h | ⟨h, -⟩
    · exact h.symm.trans hop
    · rw [hop] at h
      cases h
  -- the compound has only one `OPEN`, and stopped at it
  have hcount := count_open_putFused s owner parent tempName name data createNew
  rw [hops, List.map_append, List.map_cons, hcode, List.count_append, List.count_cons_self] at hcount
  have hin : 0 < (t.results.map OpRes.opcode).count .«open» :=
    List.count_pos_iff.mpr (List.mem_map_of_mem (f := OpRes.opcode) hres)
  rw [hexec.map_opcode] at hin
  omega

end

end NfsCrust
