import NfsCrust.Server.Counting
import NfsCrust.Server.Names
import NfsCrust.Sweep.Program

/-!
# Deleting a path

A `delete` sends one compound, which looks up the parent of the path and removes the name.
The network may lose it, deliver it late or not send it at all, and the server may reject it;
the session sends it again after a transient status, and the client on a new session.

Meanwhile other clients create, remove and rename entries between any two operations of the
server.  The server keeps its past, so that what was the case at some moment of the call can
be stated at its end.

## Main definitions

* `Moments`, `Moments.Absent` — the server with its past; a path was absent.
* `nameServer` — the server among other clients.

## Main results

* `absent_of_noent` — a server that misses something on a path says the truth about it.
* `delete_removes_once` — every run of a `delete`.
-/

namespace NfsCrust

open Interaction Thread Environment Relation

variable {F : Type}

/-! ### The server -/

/-- The trees of the server, from now back to the start of the call. -/
structure Moments (F : Type) where
  tree : Files F
  past : List (Files F) := []

namespace Moments

/-- The path, or one of its parents, was absent at some moment. -/
def Absent (st : Moments F) (root : FileHandle) (path : List String) : Prop :=
  ∃ T ∈ st.tree :: st.past, T.resolve root path = none

/-- A further moment. -/
def Then (st st' : Moments F) : Prop := st'.past = st.tree :: st.past

end Moments

/-- A server whose refusals are truthful, among clients that let entries come and go, on a network
that may do anything with a compound. -/
def nameServer (init : F) (sessions : NfsSession → Prop) : Environment (Moments F) where
  Ctx := Cursor
  start := {}
  exec op x r y := NameStep init op (x.1.tree, x.2) r (y.1.tree, y.2) ∧ x.1.Then y.1
  refuse op x f := f.Answers op.opcode ∧ Truthful op (x.1.tree, x.2) f
  within st st' := st.tree.KeepsNonempty st'.tree ∧ st.Then st'
  between st st' := st.tree.KeepsNonempty st'.tree ∧ st.Then st'
  admits _ _ _ := True
  rejects _ := True
  faults _ := True
  latches := True
  tempName _ _ := True
  session := sessions
  opcode h := h.1.opcode
  answers h := h.1

theorem nameServer_nameStep {init : F} {sessions : NfsSession → Prop} {op : NfsOp}
    {x y : Moments F × (nameServer init sessions).Ctx} {r : OpRes}
    (h : (nameServer init sessions).exec op x r y) : ∃ x' y', NameStep init op x' r y' :=
  ⟨_, _, h.1⟩

variable {init : F} {sessions : NfsSession → Prop} {st st' : Moments F} {root d : FileHandle}
  {path before rest : List String} {name : String} {t : Replies}

theorem Moments.Absent.then (h : st.Absent root path) (hthen : st.Then st') :
    st'.Absent root path := by
  obtain ⟨T, hT, habsent⟩ := h
  refine ⟨T, ?_, habsent⟩
  rw [hthen]
  exact List.mem_cons_of_mem _ hT

/-! ### Following a path -/

/-- A compound on the path: the path was absent, or it still leads where the compound is. -/
def Tracks (root : FileHandle) (before rest : List String) (d : FileHandle) (st : Moments F) :
    Prop :=
  st.Absent root (before ++ rest) ∨ st.tree.resolve root before = some d

theorem Tracks.within (h : Tracks root before rest d st) (hrest : rest ≠ [])
    (hwithin : ReflTransGen (nameServer init sessions).within st st') :
    Tracks root before rest d st' := by
  induction hwithin with
  | refl => exact h
  | @tail st₁ st₂ _ hstep ih =>
    obtain ⟨hkeeps, hthen⟩ := hstep
    rcases ih with habsent | hbefore
    · exact .inl (habsent.then hthen)
    · by_cases hfull : st₁.tree.resolve root (before ++ rest) = none
      · exact .inl (Moments.Absent.then ⟨_, List.mem_cons_self, hfull⟩ hthen)
      · -- the path is there, so that it can only be interrupted
        rcases FileTree.KeepsNonempty.resolve hkeeps hbefore hrest hfull with hsame | hgone
        · exact .inr hsame
        · exact .inl ⟨_, List.mem_cons_self, hgone⟩

/-- The path ends where an entry is missing. -/
theorem Tracks.absent (h : Tracks root before (name :: rest) d st)
    (hmissing : st.tree.child d name = none) : st.Absent root (before ++ name :: rest) := by
  rcases h with habsent | hbefore
  · exact habsent
  · refine ⟨st.tree, List.mem_cons_self, ?_⟩
    rw [FileTree.resolve_append, hbefore, Option.bind_some, FileTree.resolve_cons, hmissing]
    rfl

/-- What the server misses on the way was absent. -/
theorem absent_of_noent_lookups {saved : Option FileHandle} {c : Cursor} {f : Failure}
    (h : (nameServer init sessions).Executes (path.map .lookup ++ [.remove name])
      (st, ⟨some d, saved⟩) t (st', c))
    (htracks : Tracks root before (path ++ [name]) d st) (hf : t.failure = some f)
    (hnoent : f.status = .NOENT) : st'.Absent root (before ++ (path ++ [name])) := by
  induction path generalizing st t before d with
  | nil =>
    cases h with
    | refused hrefuse =>
      cases hf
      obtain ⟨_, hcurrent, hmissing⟩ := hrefuse.2.noent hnoent
      cases hcurrent
      exact htracks.absent hmissing
    | next _ _ hmore =>
      cases hmore
      cases hf
  | cons component path ih =>
    rw [List.map_cons, List.cons_append] at h
    cases h with
    | refused hrefuse =>
      cases hf
      obtain ⟨_, hcurrent, hmissing⟩ := hrefuse.2.noent hnoent
      cases hcurrent
      exact htracks.absent hmissing
    | @next _ _ _ y _ st₂ _ _ _ hexec hwithin hmore =>
      obtain ⟨⟨tree, past⟩, c₁⟩ := y
      obtain ⟨hstep, hthen⟩ := hexec
      cases hstep with
      | @lookup _ _ _ _ e hcurrent hchild =>
        cases hcurrent
        have hsplit : before ++ (component :: path ++ [name])
            = before ++ [component] ++ (path ++ [name]) := by simp
        have hnext : Tracks root (before ++ [component]) (path ++ [name]) e ⟨st.tree, past⟩ := by
          rcases htracks with habsent | hbefore
          · rw [hsplit] at habsent
            exact .inl (habsent.then hthen)
          · refine .inr ?_
            rw [FileTree.resolve_concat hbefore]
            exact hchild
        rw [hsplit]
        exact ih hmore (hnext.within (by simp) hwithin) hf

/-- **A server that misses something on a path says the truth about it.** -/
theorem absent_of_noent {c : Cursor} {f : Failure} {parent : List String}
    (h : (nameServer init sessions).Executes (exportPathOps root parent ++ [.remove name])
      (st, {}) t (st', c)) (hf : t.failure = some f) (hnoent : f.status = .NOENT) :
    st'.Absent root (parent ++ [name]) := by
  rw [exportPathOps, List.cons_append] at h
  cases h with
  | refused hrefuse =>
    cases hf
    -- there is no export at all
    have hroot : st.tree.node root = none := hrefuse.2.noent hnoent
    refine ⟨st.tree, List.mem_cons_self, ?_⟩
    obtain ⟨first, rest, hpath⟩ : ∃ first rest, parent ++ [name] = first :: rest :=
      List.exists_cons_of_ne_nil (by simp)
    have hchild : st.tree.child root first = none := by simp [FileTree.child, hroot]
    rw [hpath, FileTree.resolve_cons, hchild]
    rfl
  | @next _ _ _ y _ st₂ _ _ _ hexec hwithin hmore =>
    obtain ⟨⟨tree, past⟩, c₁⟩ := y
    obtain ⟨hstep, hthen⟩ := hexec
    cases hstep with
    | putFh hnode =>
      have hstart : Tracks root [] (parent ++ [name]) root (⟨st.tree, past⟩ : Moments F) := .inr rfl
      exact absent_of_noent_lookups hmore (hstart.within (by simp) hwithin) hf hnoent

/-! ### The compound -/

def NfsOp.isRemove (op : NfsOp) : Bool := op.opcode == .remove

/-- The operation removes this name. -/
def NfsOp.removes (name : String) (op : NfsOp) : Bool := op == .remove name

/-- `p` picks out removals, among them those of `name`. -/
structure PicksRemove (name : String) (p : NfsOp → Bool) : Prop where
  remove : p (.remove name) = true
  only : ∀ op, p op = true → op.isRemove = true

theorem picksRemove_isRemove (name : String) : PicksRemove name NfsOp.isRemove := ⟨rfl, fun _ => id⟩

theorem picksRemove_removes (name : String) : PicksRemove name (NfsOp.removes name) where
  remove := beq_self_eq_true _
  only op h := by
    rw [eq_of_beq h]
    rfl

section

variable {p : NfsOp → Bool} (hp : PicksRemove name p) {s : NfsSession} {parent : List String}
  {w w' : World (Moments F)} {rawPath : String}
include hp

theorem PicksRemove.countP_exportPathOps (root : FileHandle) (components : List String) :
    (exportPathOps root components).countP p = 0 := by
  rw [List.countP_eq_zero]
  intro op hop hpop
  have hremove := hp.only op hpop
  rcases List.mem_cons.mp hop with rfl | hop
  · cases hremove
  · obtain ⟨component, -, rfl⟩ := List.mem_map.mp hop
    cases hremove

/-- The removal is the last operation: a compound that stops has removed nothing. -/
theorem PicksRemove.countP_take {S : Type} {env : Environment S} {x y : S × env.Ctx}
    {front ops : List NfsOp} (hfront : front.countP p = 0) (hops : ops = front ++ [.remove name])
    (hexec : env.Executes ops x t y) :
    (ops.take t.results.length).countP p = if t.failure = none then 1 else 0 := by
  cases hf : t.failure with
  | none =>
    rw [hexec.length_eq hf, List.take_length, hops, List.countP_append, hfront,
      List.countP_singleton, hp.remove]
    rfl
  | some f =>
    obtain ⟨op, rest, hsplit, -⟩ := hexec.stopped hf
    -- what was executed stands before the removal
    have hlength := congrArg List.length hsplit
    rw [List.length_append, List.length_take_of_le hexec.length_le, List.length_cons] at hlength
    have hbefore : t.results.length ≤ front.length := by
      rw [hops, List.length_append, List.length_singleton] at hlength
      omega
    rw [hops, List.take_append_of_le_length hbefore, if_neg nofun]
    exact Nat.le_zero.mp (hfront ▸ (List.take_sublist _ _).countP_le)

/-- What is known after a call that removes the name. -/
def Removal (p : NfsOp → Bool) (path : List String) (root : FileHandle) (w : World (Moments F)) :
    Except Error RemoveOutcome → Prop
  | .ok .removed => w.Bounds p 1 1
  | .ok .missing => w.Bounds p 0 0 ∧ w.state.Absent root path
  | .error err => w.Bounds p 0 (if errorProvesOperationNotRun err then 0 else 1)

omit hp in
theorem Removal.le {root : FileHandle} {r : Except Error RemoveOutcome}
    (h : Removal p path root w r) : w.mayRun p ≤ 1 := by
  match r, h with
  | .ok .removed, h => exact h.most
  | .ok .missing, h => exact Nat.le_trans h.1.most (Nat.zero_le 1)
  | .error err, h =>
    refine Nat.le_trans h.most ?_
    split
    · exact Nat.zero_le 1
    · exact Nat.le_refl 1

omit hp in
theorem errorProvesOperationNotRun_of_foreign {err : Error} (h : err.isForeign = true) :
    errorProvesOperationNotRun err = false := by
  cases err <;> first | rfl | cases h

/-- **One exchange.**  Its outcome says whether the removal was executed. -/
theorem removal_of_served {out : Except CompoundDecodeError (SessionCall.remove parent name).Result}
    (hw : w.Bounds p 0 0)
    (hserved : CallServed (nameServer init sessions) s (.remove parent name) w out w') :
    Removal p (parent ++ [name]) s.exportRoot w' (out.mapError CompoundDecodeError.error) ∧
      ∀ err, out = .error err → err.transientStatus.isSome → w'.Bounds p 0 0 := by
  cases hserved with
  | notSent =>
    refine ⟨?_, ?_⟩
    · exact ⟨Nat.zero_le _, hw.most⟩
    · rintro _ ⟨⟩
      exact nofun
  | rejected _ _ herr =>
    have hsent : (w.send ((SessionCall.remove parent name).ops s)).Bounds p 0 0 := by
      refine ⟨Nat.zero_le _, ?_⟩
      rw [World.mayRun_send]
      exact hw.most
    refine ⟨⟨Nat.zero_le _, Nat.le_trans hsent.most (Nat.zero_le _)⟩, fun _ _ _ => hsent⟩
  | @lost err _ _ herr =>
    have hone : ((SessionCall.remove parent name).ops s).countP p = 1 := by
      change (exportPathOps s.exportRoot parent ++ [NfsOp.remove name]).countP p = 1
      rw [List.countP_append, hp.countP_exportPathOps, List.countP_singleton, hp.remove]
      rfl
    refine ⟨⟨Nat.zero_le _, ?_⟩, ?_⟩
    · have hmost : (w.lose ((SessionCall.remove parent name).ops s)).mayRun p ≤ 1 := by
        rw [World.mayRun_lose, hone]
        exact Nat.succ_le_succ hw.most
      have hunknown : errorProvesOperationNotRun (CompoundDecodeError.ofError err).error = false :=
        errorProvesOperationNotRun_of_foreign herr
      rw [hunknown]
      exact hmost
    · rintro _ ⟨⟩
      exact nofun
  | @delivered t st ctx _ hexec _ _ hout =>
    have hops : (SessionCall.remove parent name).ops s
        = exportPathOps s.exportRoot parent ++ [.remove name] := rfl
    have hcount := hp.countP_take (hp.countP_exportPathOps s.exportRoot parent) hops hexec
    have hran := w.ran_deliver p st hexec.length_le
    have hmay := w.mayRun_deliver p st hexec.length_le
    rw [hcount] at hran hmay
    have hstopped : ∀ f, t.failure = some f →
        (w.deliver ((SessionCall.remove parent name).ops s) t st).Bounds p 0 0 := by
      intro f hf
      rw [hf, if_neg nofun] at hmay
      refine ⟨Nat.zero_le _, ?_⟩
      rw [hmay]
      exact hw.most
    cases out with
    | ok v =>
      refine ⟨?_, nofun⟩
      obtain ⟨-, ⟨hnone, hv⟩ | ⟨f, hf, hv⟩⟩ := hout
      · -- everything was executed
        cases hv
        rw [hnone, if_pos rfl] at hran hmay
        refine ⟨?_, ?_⟩
        · rw [hran]
          exact Nat.le_add_left 1 _
        · rw [hmay]
          exact Nat.succ_le_succ hw.most
      · have htyped : caughtNoent RemoveOutcome.missing f.op f.status = some v := hv
        rw [caughtNoent] at htyped
        split at htyped
        · next hcaught =>
          cases htyped
          exact ⟨hstopped f hf, absent_of_noent hexec hf hcaught.1⟩
        · cases htyped
    | error err =>
      obtain ⟨-, f, hf, -⟩ | ⟨-, hun⟩ := hout
      · refine ⟨⟨Nat.zero_le _, Nat.le_trans (hstopped f hf).most (Nat.zero_le _)⟩, ?_⟩
        exact fun _ _ _ => hstopped f hf
      · refine absurd (supported_of_nameSteps nameServer_nameStep hexec ?_ ?_) hun
        · simp [SessionCall.ops, NfsOp.opcode]
        · exact trivial

/-- What is known after a call, with the retries of its session. -/
theorem safe_removeCall (hw : w.Bounds p 0 0) :
    Safe (E := effects) (nameServer init sessions).serve Eq (fun _ w' => w'.mayRun p ≤ 1)
      (fun (r : Except Error (SessionCall.remove parent name).Result) w' =>
        Removal p (parent ++ [name]) s.exportRoot w' r)
      (s.call (.remove parent name)).run w := by
  refine Environment.safe_call (World.Bounds p 0 0) hw ?_ ?_ ?_ ?_
  · rintro w _ hw rfl
    exact hw
  · exact fun w w' hw hdrift => hw.drift hdrift
  · exact fun w hw => Nat.le_trans hw.most (Nat.zero_le 1)
  · intro w w₁ out w' _ _ hw₁ hserved
    obtain ⟨hremoval, hretry⟩ := removal_of_served hp hw₁ hserved
    refine ⟨?_, hremoval, ?_⟩
    · exact hremoval.le
    · intro err herr hstatus
      refine hretry err herr ?_
      unfold NfsSession.retryStatus? at hstatus
      split at hstatus
      · exact hstatus
      · cases hstatus

/-- What is known after an attempt. -/
def DeleteEnded (p : NfsOp → Bool) (sessions : NfsSession → Prop) (path : List String) :
    Except Error Unit → World (Moments F) → Prop
  | .ok (), w => w.Bounds p 1 1 ∨
      w.Bounds p 0 0 ∧ ∃ s, sessions s ∧ w.state.Absent s.exportRoot path
  | .error err, w => w.mayRun p ≤ 1 ∧ (err.isOutcomeUnknown = false → w.Bounds p 0 0)

theorem safe_deleteOnce {path : NfsPath} (hpath : path.parentAndName = .ok (parent, name))
    (hs : sessions s) (hw : w.Bounds p 0 0) :
    Safe (E := effects) (nameServer init sessions).serve Eq (fun _ w' => w'.mayRun p ≤ 1)
      (DeleteEnded p sessions (parent ++ [name])) (deleteOnce s path rawPath).run w := by
  unfold deleteOnce
  rw [hpath]
  refine safe_bindExcept (safe_except ?_)
  change Safe _ _ _ _ (ExceptT.run (Thread.attempt (s.call (.remove parent name)) >>= _)) w
  refine safe_bindExcept (safe_attempt ((safe_removeCall hp hw).mono ?_))
  intro r w' hremoval
  match r, hremoval with
  | .ok .removed, hbounds => exact .inl hbounds
  | .ok .missing, ⟨hbounds, habsent⟩ => exact .inr ⟨hbounds, s, hs, habsent⟩
  | .error err, hbounds =>
    refine safe_except ?_
    have hle := hremoval.le
    have hknown : w'.Bounds p 0 (if errorProvesOperationNotRun err then 0 else 1) := hbounds
    unfold deleteResult
    dsimp only
    split
    · next hproves =>
      rw [hproves] at hknown
      exact ⟨hle, fun _ => hknown⟩
    · exact ⟨hle, nofun⟩

/-- A delete, for any way to pick out removals. -/
theorem ensures_delete {path : NfsPath} (hfile : NfsPath.file rawPath = .ok path)
    (hpath : path.parentAndName = .ok (parent, name)) (hw : w.Bounds p 0 0) :
    Ensures (E := effects) (nameServer init sessions).serve (fun w => w.mayRun p ≤ 1)
      (delete rawPath).run w (DeleteEnded p sessions (parent ++ [name])) := by
  have himp : ∀ w : World (Moments F), w.Bounds p 0 0 → w.mayRun p ≤ 1 := fun w hw =>
    Nat.le_trans hw.most (Nat.zero_le 1)
  unfold delete
  rw [hfile]
  refine ensures_bindExcept (ensures_except (himp w hw) ?_)
  change Ensures _ _ (ExceptT.run (retryingSessionOperation _)) w _
  refine ensures_retryingSessionOperation (World.Bounds p 0 0) hw himp ?_ ?_
  · rintro w snapshot _ hw ⟨hs, rfl⟩
    have hle := himp _ hw
    refine ⟨hle, ensures_liftThreadExcept hle ((safe_deleteOnce hp hpath hs hw).mono ?_)⟩
    intro r w' hended _
    refine ⟨hended, ?_⟩
    -- an unknown outcome does not ask for another attempt
    rintro err rfl hrebuild
    refine hended.2 ?_
    cases err <;> first | rfl | cases hrebuild
  · rintro generation n cause w r _ hw rfl
    exact ⟨hw, fun err _ => ⟨himp _ hw, fun _ => hw⟩⟩

end

/-- **A delete removes at most once.**  Whatever the network does and other clients create, remove
and rename meanwhile, no world of the run has more than one removal executed or still possible.
When the delete returns, the name was removed, or the path was absent at some moment of the call;
when it fails with anything but an unknown outcome, nothing was removed and nothing will be. -/
theorem delete_removes_once (init : F) (sessions : NfsSession → Prop) (rawPath : String)
    (T : Files F) :
    Ensures (E := effects) (nameServer init sessions).serve (fun w => w.mayRun NfsOp.isRemove ≤ 1)
      (delete rawPath).run { state := ⟨T, []⟩ } fun
        | .ok (), w => ∃ path parent name, NfsPath.file rawPath = .ok path ∧
            path.parentAndName = .ok (parent, name) ∧ (w.ran (NfsOp.removes name) = 1 ∨
              ∃ s, sessions s ∧ w.state.Absent s.exportRoot (parent ++ [name]))
        | .error err, w => err.isOutcomeUnknown = true ∨ w.mayRun NfsOp.isRemove = 0 := by
  cases hfile : NfsPath.file rawPath with
  | error err =>
    -- nothing is sent for a path that is refused
    have hle : ({ state := ⟨T, []⟩ } : World (Moments F)).mayRun NfsOp.isRemove ≤ 1 := Nat.zero_le 1
    unfold delete
    refine ensures_bindExcept (ensures_except hle ?_)
    rw [hfile]
    exact .inr rfl
  | ok path =>
    obtain ⟨parent, name, hpath, -⟩ := NfsPath.parentAndName_file hfile
    have hdelete : ∀ p, PicksRemove name p → Ensures (E := effects)
        (nameServer init sessions).serve (fun w => w.mayRun p ≤ 1) (delete rawPath).run
        { state := ⟨T, []⟩ } (DeleteEnded p sessions (parent ++ [name])) :=
      fun p hp => ensures_delete hp hfile hpath ⟨Nat.zero_le _, Nat.le_refl 0⟩
    have hboth := (hdelete _ (picksRemove_isRemove name)).and (hdelete _ (picksRemove_removes name))
    refine (hboth.weaken fun w => And.left).mono ?_
    intro r w _ hr
    match r, hr with
    | .ok (), ⟨_, hname⟩ =>
      refine ⟨path, parent, name, rfl, hpath, ?_⟩
      rcases hname with hremoved | ⟨-, habsent⟩
      · exact .inl (Nat.le_antisymm (Nat.le_trans (w.ran_le_mayRun _) hremoved.most) hremoved.least)
      · exact .inr habsent
    | .error err, ⟨hany, _⟩ =>
      cases herr : err.isOutcomeUnknown with
      | true => exact .inl herr
      | false => exact .inr (Nat.le_zero.mp (hany.2 herr).most)

end NfsCrust
