import NfsCrust.Lib.Must
import NfsCrust.Server.Names
import NfsCrust.Server.Script

/-!
# Creating parent directories

`create_parent_dirs` creates the directories of a path, from the top.  As long as the
directories it meets exist already, it creates the next one by its path; once it has created
one, it goes on from the handle of that one.

Other clients create entries all the time, between any two operations of the server, but
remove and rename nothing.  What the client knows of a directory is therefore kept: a prefix
of the path that led to a handle leads to it from then on.

## Main definitions

* `Creation`, `DirState` — the server, with a record of what this client created.
* `dirServer` — the server among others that create.
* `ParentsCreated` — what has become of the path in the end.

## Main results

* `executes_path`, `executes_create` — what a compound does.
* `createParentDirs_exact` — every run.
-/

namespace NfsCrust

open Interaction Relation

variable {F : Type}

/-! ### The server -/

/-- A directory that this client created, and what there was when it did. -/
structure Creation (F : Type) where
  tree : Files F
  dir : FileHandle
  name : String

/-- The server, and what this client created on it. -/
structure DirState (F : Type) where
  tree : Files F
  made : List (Creation F) := []

/-- What an operation creates. -/
def DirState.creates (st : DirState F) : NfsOp → Cursor → List (Creation F)
  | .createDir name _, ⟨some d, _⟩ => [⟨st.tree, d, name⟩]
  | _, _ => []

/-- Others create entries. -/
def DirState.Grows (st st' : DirState F) : Prop :=
  st.tree.Extends st'.tree ∧ st'.made = st.made

/-- A server whose refusals are truthful, among clients that create entries between any two of its
operations. -/
def dirServer (init : F) : Environment (DirState F) where
  Ctx := Cursor
  start := {}
  exec op x r y := NameStep init op (x.1.tree, x.2) r (y.1.tree, y.2) ∧
    y.1.made = x.1.made ++ x.1.creates op x.2
  refuse op x f := f.Answers op.opcode ∧ Truthful op (x.1.tree, x.2) f
  within := DirState.Grows
  between := DirState.Grows
  admits _ _ _ := True
  rejects _ := False
  faults _ := False
  latches := False
  tempName _ _ := True
  session _ := True
  opcode h := h.1.opcode
  answers h := h.1

theorem dirServer_nameStep {init : F} {op : NfsOp} {x y : DirState F × (dirServer init).Ctx}
    {r : OpRes} (h : (dirServer init).exec op x r y) : ∃ x' y', NameStep init op x' r y' :=
  ⟨_, _, h.1⟩

theorem DirState.Grows.refl (st : DirState F) : st.Grows st := ⟨.refl _, rfl⟩

theorem DirState.Grows.trans {st st' st'' : DirState F} (h : st.Grows st') (h' : st'.Grows st'') :
    st.Grows st'' := ⟨h.1.trans h'.1, h'.2.trans h.2⟩

theorem DirState.Grows.of_within {st st' : DirState F} (h : ReflTransGen DirState.Grows st st') :
    st.Grows st' := by
  induction h with
  | refl => exact .refl _
  | tail _ hstep ih => exact ih.trans hstep

/-! ### Compounds -/

variable {init : F} {st st' : DirState F} {t : Replies}

/-- The server refused an operation on a path from `base`: it does not miss a component, and says
that something is not a directory only of an object on the path. -/
structure RefusedOn (base : FileHandle) (path : List String) (tree : Files F) (f : Failure) :
    Prop where
  status : f.status ≠ .OK
  noent : ¬ (f.status = .NOENT ∧ f.op = .lookup)
  notdir : f.status = .NOTDIR → ∃ before after h, path = before ++ after ∧
    tree.resolve base before = some h ∧ tree.IsFile h

theorem Failure.Answers.op_ne {op code : OpCode} {f : Failure} (h : f.Answers op) (hne : op ≠ code)
    (hillegal : code ≠ .illegal) : f.op ≠ code := by
  obtain ⟨-, hop | ⟨hop, -⟩⟩ := h
  · rw [hop]
    exact hne
  · rw [hop]
    exact hillegal.symm

theorem Failure.Answers.not_missing {op : OpCode} {f : Failure} (h : f.Answers op)
    (hne : op ≠ .lookup) : ¬ (f.status = .NOENT ∧ f.op = .lookup) :=
  fun hmissing => h.op_ne hne nofun hmissing.2

/-- The components of a path that can be followed are looked up, or an operation is refused. -/
theorem executes_lookups {path : List String} {rest : List NfsOp} {base d : FileHandle}
    {saved : Option FileHandle} {c : Cursor}
    (h : (dirServer init).Executes (path.map .lookup ++ rest) (st, ⟨some base, saved⟩) t (st', c))
    (hpath : st.tree.resolve base path = some d) :
    (∃ f, t.failure = some f ∧ f.op ≠ .create ∧ st.Grows st' ∧ RefusedOn base path st'.tree f ∧
      t.results = List.replicate t.results.length .lookup) ∨
    ∃ st₁ os, st.Grows st₁ ∧ t.results = List.replicate path.length .lookup ++ os ∧
      (dirServer init).Executes rest (st₁, ⟨some d, saved⟩) ⟨os, t.failure⟩ (st', c) := by
  induction path generalizing st t base with
  | nil =>
    cases hpath
    exact .inr ⟨st, t.results, .refl _, rfl, h⟩
  | cons name path ih =>
    rw [FileTree.resolve_cons] at hpath
    obtain ⟨e, hchild, hrest⟩ := Option.bind_eq_some_iff.mp hpath
    rw [List.map_cons, List.cons_append] at h
    cases h with
    | refused hrefuse =>
      obtain ⟨hanswers, htruthful⟩ := hrefuse
      refine .inl ⟨_, rfl, hanswers.op_ne nofun nofun, .refl _, ⟨hanswers.1, ?_, ?_⟩, rfl⟩
      · rintro ⟨hnoent, -⟩
        obtain ⟨d', hcurrent, habsent⟩ := htruthful.noent hnoent
        cases hcurrent
        cases hchild.symm.trans habsent
      · intro hnotdir
        obtain ⟨h, hcurrent, hfile⟩ := htruthful.notdir hnotdir
        cases hcurrent
        exact ⟨[], name :: path, base, rfl, rfl, hfile⟩
    | @next _ _ _ y _ st₂ r results failure hexec hwithin hmore =>
      obtain ⟨⟨tree, made⟩, c₁⟩ := y
      obtain ⟨hstep, hmade⟩ := hexec
      -- a lookup changes nothing but the current handle
      cases hstep with
      | lookup hcurrent hfound =>
        cases hcurrent
        cases hchild.symm.trans hfound
        have hgrown : DirState.Grows st st₂ := by
          obtain ⟨hext, hsame⟩ := DirState.Grows.of_within hwithin
          refine ⟨hext, hsame.trans (hmade.trans ?_)⟩
          exact List.append_nil _
        obtain ⟨f, hf, hop, hgrows, hrefused, hresults⟩ | ⟨st₃, os, hgrows, hresults, htail⟩ :=
          ih hmore (hgrown.1.resolve hrest)
        · refine .inl ⟨f, hf, hop, hgrown.trans hgrows, ⟨hrefused.status, hrefused.noent, ?_⟩, ?_⟩
          · intro hnotdir
            obtain ⟨before, after, h, hsplit, hbefore, hfile⟩ := hrefused.notdir hnotdir
            refine ⟨name :: before, after, h, by rw [hsplit]; rfl, ?_, hfile⟩
            rw [FileTree.resolve_cons, hgrows.1.child (hgrown.1.child hchild)]
            exact hbefore
          · rw [List.length_cons, List.replicate_succ]
            exact congrArg (OpRes.lookup :: ·) hresults
        · refine .inr ⟨st₃, os, hgrown.trans hgrows, ?_, htail⟩
          rw [List.length_cons, List.replicate_succ]
          exact congrArg (OpRes.lookup :: ·) hresults

/-- The path of a compound is followed, or an operation is refused. -/
theorem executes_path {path : List String} {rest : List NfsOp} {base d : FileHandle} {c : Cursor}
    (h : (dirServer init).Executes (exportPathOps base path ++ rest) (st, {}) t (st', c))
    (hpath : st.tree.resolve base path = some d) :
    (∃ f, t.failure = some f ∧ f.op ≠ .create ∧ st.Grows st' ∧ RefusedOn base path st'.tree f) ∨
    ∃ st₁ os, st.Grows st₁ ∧ t.results = .putFh :: (List.replicate path.length .lookup ++ os) ∧
      (dirServer init).Executes rest (st₁, ⟨some d, none⟩) ⟨os, t.failure⟩ (st', c) := by
  rw [exportPathOps, List.cons_append] at h
  cases h with
  | refused hrefuse =>
    obtain ⟨hanswers, htruthful⟩ := hrefuse
    refine .inl ⟨_, rfl, hanswers.op_ne (by simp [NfsOp.opcode]) (by simp), .refl _,
      ⟨hanswers.1, ?_, ?_⟩⟩
    · exact hanswers.not_missing (by simp [NfsOp.opcode])
    · intro hnotdir
      obtain ⟨h, ⟨⟩, -⟩ := htruthful.notdir hnotdir
  | @next _ _ _ y _ st₂ r results failure hexec hwithin hmore =>
    obtain ⟨⟨tree, made⟩, c₁⟩ := y
    obtain ⟨hstep, hmade⟩ := hexec
    cases hstep with
    | putFh hnode =>
      have hgrown : DirState.Grows st st₂ := by
        obtain ⟨hext, hsame⟩ := DirState.Grows.of_within hwithin
        refine ⟨hext, hsame.trans (hmade.trans ?_)⟩
        exact List.append_nil _
      obtain ⟨f, hf, hop, hgrows, hrefused, -⟩ | ⟨st₃, os, hgrows, hresults, htail⟩ :=
        executes_lookups hmore (hgrown.1.resolve hpath)
      · exact .inl ⟨f, hf, hop, hgrown.trans hgrows, hrefused⟩
      · exact .inr ⟨st₃, os, hgrown.trans hgrows, congrArg (OpRes.putFh :: ·) hresults, htail⟩

/-- A compound that creates a directory, and may ask for its handle. -/
structure Created (st st' : DirState F) (base d : FileHandle) (path : List String) (name : String)
    (asks : Bool) (t : Replies) : Prop where
  grown : st.tree.Extends st'.tree
  made : ∀ m ∈ st'.made, m ∈ st.made ∨ m.name = name ∧ m.dir = d ∧ st.tree.Extends m.tree
  done : t.failure = none → ∃ e, st'.tree.child d name = some e ∧
    (asks = true → t.results.findSome? OpRes.handle? = some e)
  exist : ∀ f, t.failure = some f → f.op = .create → f.status = .EXIST →
    ∃ e, st'.tree.child d name = some e
  refused : ∀ f, t.failure = some f → RefusedOn base path st'.tree f

/-- **A directory is created at the end of the path of a compound, and nowhere else.** -/
theorem executes_create {path : List String} {base d : FileHandle} {c : Cursor} {name : String}
    {mode : UInt32} {asks : Bool}
    (h : (dirServer init).Executes (exportPathOps base path ++
      .createDir name mode :: if asks then [.getFh] else []) (st, {}) t (st', c))
    (hpath : st.tree.resolve base path = some d) : Created st st' base d path name asks t := by
  obtain ⟨f, hf, hop, ⟨hgrown, hsame⟩, hrefused⟩ | ⟨st₁, os, ⟨hgrown, hsame⟩, hresults, htail⟩ :=
    executes_path h hpath
  · refine ⟨hgrown, ?_, ?_, ?_, ?_⟩
    · intro m hm
      rw [hsame] at hm
      exact .inl hm
    · rw [hf]
      exact nofun
    · intro f' hf' hcreate
      cases hf.symm.trans hf'
      exact absurd hcreate hop
    · intro f' hf'
      cases hf.symm.trans hf'
      exact hrefused
  · obtain ⟨results, failure⟩ := t
    cases htail with
    | refused hrefuse =>
      obtain ⟨hanswers, htruthful⟩ := hrefuse
      refine ⟨hgrown, ?_, nofun, ?_, ?_⟩
      · intro m hm
        rw [hsame] at hm
        exact .inl hm
      · rintro _ ⟨⟩ - hexist
        obtain ⟨d', e, hcurrent, hchild⟩ := htruthful.exist name mode rfl hexist
        cases hcurrent
        exact ⟨e, hchild⟩
      · rintro _ ⟨⟩
        refine ⟨hanswers.1, hanswers.not_missing nofun, ?_⟩
        intro hnotdir
        obtain ⟨_, hcurrent, hfile⟩ := htruthful.notdir hnotdir
        cases hcurrent
        exact ⟨path, [], d, (List.append_nil _).symm, hgrown.resolve hpath, hfile⟩
    | @next _ _ _ y _ st₂ r results' failure hexec hwithin hmore =>
      obtain ⟨⟨tree, made⟩, c₁⟩ := y
      obtain ⟨hstep, hmade⟩ := hexec
      cases hstep with
      | @createDir _ _ _ _ _ e _ _ hcurrent hdir hnew hfresh =>
        cases hcurrent
        obtain ⟨hext, hsame₂⟩ := DirState.Grows.of_within hwithin
        have hgrown₂ := (hgrown.trans (FileTree.extends_create hfresh hdir hnew)).trans hext
        have hchild := hext.child (FileTree.child_create_self hfresh hdir)
        have hnewDir : st₂.tree.IsDir e := hext.dir ⟨_, FileTree.node_create_self hfresh hdir⟩
        have hmade₂ : ∀ m ∈ st₂.made, m ∈ st.made ∨
            m.name = name ∧ m.dir = d ∧ st.tree.Extends m.tree := by
          intro m hm
          rw [hsame₂, hmade, hsame] at hm
          rcases List.mem_append.mp hm with hm | hm
          · exact .inl hm
          · cases List.mem_singleton.mp hm
            exact .inr ⟨rfl, rfl, hgrown⟩
        cases asks with
        | false =>
          cases hmore with
          | done => exact ⟨hgrown₂, hmade₂, fun _ => ⟨e, hchild, nofun⟩, nofun, nofun⟩
        | true =>
          cases hmore with
          | refused hrefuse =>
            obtain ⟨hanswers, htruthful⟩ := hrefuse
            refine ⟨hgrown₂, hmade₂, nofun, ?_, ?_⟩
            · rintro _ ⟨⟩ hcreate
              exact absurd hcreate (hanswers.op_ne nofun nofun)
            · rintro _ ⟨⟩
              refine ⟨hanswers.1, hanswers.not_missing nofun, ?_⟩
              -- what was created is a directory
              intro hnotdir
              obtain ⟨_, hcurrent, hfile⟩ := htruthful.notdir hnotdir
              cases hcurrent
              exact absurd hnewDir (FileTree.not_isDir_of_isFile hfile)
          | @next _ _ _ y _ st₃ _ _ _ hexec hwithin hmore =>
            obtain ⟨⟨tree, made⟩, c₂⟩ := y
            obtain ⟨hstep, hmade₃⟩ := hexec
            cases hstep with
            | getFh hcurrent hhandle _ =>
              cases hcurrent
              obtain ⟨hext₃, hsame₃⟩ := DirState.Grows.of_within hwithin
              cases hmore with
              | done =>
                refine ⟨hgrown₂.trans hext₃, ?_, fun _ => ⟨e, hext₃.child hchild, fun _ => ?_⟩,
                  nofun, nofun⟩
                · intro m hm
                  rw [hsame₃, hmade₃] at hm
                  exact hmade₂ m ((List.mem_append.mp hm).resolve_right nofun)
                · have hresults' : results = .putFh :: (List.replicate path.length .lookup ++
                      [.create _ _, .getFh _]) := hresults
                  rw [hresults', SessionCall.findSome?_path OpRes.handle? rfl rfl]
                  change some (FileHandle.mk _) = some e
                  rw [hhandle]

/-- The handle of an entry is looked up. -/
theorem executes_lookupChild {fh e : FileHandle} {name : String} {c : Cursor}
    (h : (dirServer init).Executes (exportPathOps fh [name] ++ [.getFh]) (st, {}) t (st', c))
    (hchild : st.tree.child fh name = some e) :
    st.Grows st' ∧ (t.failure = none → t.results.findSome? OpRes.handle? = some e) ∧
      ∀ f, t.failure = some f → RefusedOn fh [name] st'.tree f := by
  have hpath : st.tree.resolve fh [name] = some e := by simp [hchild]
  obtain ⟨f, hf, -, hgrows, hrefused⟩ | ⟨st₁, os, hgrows, hresults, htail⟩ := executes_path h hpath
  · refine ⟨hgrows, ?_, ?_⟩
    · rw [hf]
      exact nofun
    · intro f' hf'
      cases hf.symm.trans hf'
      exact hrefused
  · obtain ⟨results, failure⟩ := t
    cases htail with
    | refused hrefuse =>
      obtain ⟨hanswers, htruthful⟩ := hrefuse
      refine ⟨hgrows, nofun, ?_⟩
      rintro _ ⟨⟩
      refine ⟨hanswers.1, hanswers.not_missing nofun, ?_⟩
      intro hnotdir
      obtain ⟨_, hcurrent, hfile⟩ := htruthful.notdir hnotdir
      cases hcurrent
      exact ⟨[name], [], e, rfl, hgrows.1.resolve hpath, hfile⟩
    | @next _ _ _ y _ st₂ _ _ _ hexec hwithin hmore =>
      obtain ⟨⟨tree, made⟩, c₂⟩ := y
      obtain ⟨hstep, hmade⟩ := hexec
      cases hstep with
      | getFh hcurrent hhandle _ =>
        cases hcurrent
        obtain ⟨hext, hsame⟩ := DirState.Grows.of_within hwithin
        cases hmore with
        | done =>
          refine ⟨hgrows.trans ⟨hext, ?_⟩, fun _ => ?_, nofun⟩
          · rw [hsame, hmade]
            exact List.append_nil _
          · have hresults' : results = .putFh :: (List.replicate [name].length .lookup ++
                [.getFh _]) := hresults
            rw [hresults', SessionCall.findSome?_path OpRes.handle? rfl rfl]
            change some (FileHandle.mk _) = some e
            rw [hhandle]

/-! ### Calls -/

/-- The calls that create the directories of a path. -/
def SessionCall.CreatesParent (parent : List String) : SessionCall → Prop
  | createDir above name | createDirWithHandle above name => above ++ [name] <+: parent
  | createDirAtHandle _ name | createChildDirWithHandle _ name | lookupChildHandle _ name =>
      name ∈ parent
  | _ => False

section

variable {s : NfsSession} {parent : List String} {T : Files F} {w w' : World (DirState F)}

/-- Why the directories of a path could not be created: the server refused an operation, or the
path is too long for the requests that were negotiated. -/
def ParentsRefused (s : NfsSession) (parent : List String) (tree : Files F) (err : Error) : Prop :=
  (∃ f : Failure, err = .ofStatus f.status f.op ∧ RefusedOn s.exportRoot parent tree f) ∨
  err.isRequestNotSent = true ∧ ∃ call : SessionCall, call.CreatesParent parent ∧
    ∃ limit, s.validateCompoundRequest call.tag (call.ops s) = .error limit

/-- What holds all the time: the tree grew, and what this client created is on the path. -/
structure CreatesOnPath (s : NfsSession) (parent : List String) (T : Files F)
    (w : World (DirState F)) : Prop where
  grown : T.Extends w.state.tree
  made : ∀ m ∈ w.state.made, ∃ before after, parent = before ++ m.name :: after ∧
    m.tree.resolve s.exportRoot before = some m.dir
  late : w.late = []

theorem CreatesOnPath.drift (h : CreatesOnPath s parent T w) (hdrift : (dirServer init).Drifts w w') :
    CreatesOnPath s parent T w' ∧ w.state.tree.Extends w'.state.tree := by
  induction hdrift with
  | refl => exact ⟨h, .refl _⟩
  | tail _ hstep ih =>
    obtain ⟨hpath, hgrown⟩ := ih
    cases hstep with
    | state hbetween =>
      refine ⟨⟨hpath.grown.trans hbetween.1, ?_, hpath.late⟩, hgrown.trans hbetween.1⟩
      intro m hm
      rw [hbetween.2] at hm
      exact hpath.made m hm
    | late hlate =>
      rw [hpath.late] at hlate
      exact absurd hlate (by simp)

/-- A part of the path, seen from the top. -/
theorem RefusedOn.lift {root base : FileHandle} {before path : List String} {tree : Files F}
    {f : Failure} (h : RefusedOn base path tree f) (hbase : tree.resolve root before = some base)
    (after : List String) : RefusedOn root (before ++ path ++ after) tree f where
  status := h.status
  noent := h.noent
  notdir hnotdir := by
    obtain ⟨first, second, e, hsplit, hfirst, hfile⟩ := h.notdir hnotdir
    refine ⟨before ++ first, second ++ after, e, by rw [hsplit]; simp, ?_, hfile⟩
    rw [FileTree.resolve_append, hbase]
    exact hfirst

/-- The client knows where some parts of the path lead. -/
structure Knows (s : NfsSession) (parent : List String) (T : Files F)
    (known : List (List String × FileHandle)) (w : World (DirState F)) : Prop
    extends CreatesOnPath s parent T w where
  known : ∀ x ∈ known, w.state.tree.resolve s.exportRoot x.1 = some x.2

variable {known : List (List String × FileHandle)}

theorem Knows.drift (h : Knows s parent T known w) (hdrift : (dirServer init).Drifts w w') :
    Knows s parent T known w' := by
  obtain ⟨hpath, hgrown⟩ := h.toCreatesOnPath.drift hdrift
  exact ⟨hpath, fun x hx => hgrown.resolve (h.known x hx)⟩

/-- What comes of a call on the path: a value, or a refusal. -/
def CallDone {α : Type} (s : NfsSession) (parent : List String) (T : Files F)
    (known : List (List String × FileHandle)) (value : α → Files F → Prop) (r : Except Error α)
    (w : World (DirState F)) : Prop :=
  Knows s parent T known w ∧ (∀ v, r = .ok v → value v w.state.tree) ∧
    ∀ err, r = .error err → ParentsRefused s parent w.state.tree err

/-- **The rule for a call on the path**, from what its compound does when it is executed. -/
theorem safe_dirCall {call : SessionCall} {value : call.Result → Files F → Prop}
    (hcall : call.CreatesParent parent) (hopen : .«open» ∉ (call.ops s).map NfsOp.opcode)
    (hchecked : ∀ os, call.Checked os)
    (hexec : ∀ w t st c, Knows s parent T known w →
      (dirServer init).Executes (call.ops s) (w.state, {}) t (st, c) →
      w.state.tree.Extends st.tree ∧
      (∀ m ∈ st.made, m ∈ w.state.made ∨ ∃ before after, parent = before ++ m.name :: after ∧
        m.tree.resolve s.exportRoot before = some m.dir) ∧
      (∀ v, t.failure = none → call.value t.results = some v → value v st.tree) ∧
      (∀ v f, t.failure = some f → call.typed f.op f.status = some v → value v st.tree) ∧
      ∀ f, t.failure = some f → RefusedOn s.exportRoot parent st.tree f)
    (hw : Knows s parent T known w) :
    Thread.Safe (E := effects) (dirServer init).serve Eq (fun _ _ => True)
      (CallDone s parent T known value) (s.call call).run w := by
  refine Environment.safe_call (Knows s parent T known) hw ?_ ?_ (fun _ _ => trivial) ?_
  · rintro w _ hw rfl
    exact hw
  · exact fun w w' hw hdrift => hw.drift hdrift
  · intro w w₁ out w' _ _ hw₁ hserved
    refine ⟨trivial, ?_⟩
    cases hserved with
    | notSent h =>
      refine ⟨⟨hw₁, nofun, ?_⟩, fun _ _ _ => hw₁⟩
      rintro _ ⟨⟩
      exact .inr ⟨rfl, call, hcall, h.resolve_left id⟩
    | rejected h => exact h.elim
    | lost h => exact h.elim
    | @delivered t st c _ hexecutes _ _ hout =>
      obtain ⟨hgrown, hmade, hvalue, htyped, hrefused⟩ := hexec w₁ t st c hw₁ hexecutes
      have hknows : Knows s parent T known (w₁.deliver (call.ops s) t st) := by
        refine ⟨⟨hw₁.grown.trans hgrown, ?_, hw₁.late⟩, fun x hx => hgrown.resolve (hw₁.known x hx)⟩
        intro m hm
        exact (hmade m hm).elim (hw₁.made m) id
      refine ⟨⟨hknows, ?_, ?_⟩, fun _ _ _ => hknows⟩
      · intro v hv
        cases out with
        | error err => cases hv
        | ok _ =>
          cases hv
          obtain ⟨-, ⟨hnone, hv⟩ | ⟨f, hf, hv⟩⟩ := hout
          · exact hvalue _ hnone hv
          · exact htyped _ f hf hv
      · intro err herr
        cases out with
        | ok _ => cases herr
        | error err' =>
          cases herr
          obtain ⟨-, f, hf, -, rfl⟩ | ⟨-, hun⟩ := hout
          · exact .inl ⟨f, rfl, hrefused f hf⟩
          · exact absurd (supported_of_nameSteps dirServer_nameStep hexecutes hopen (hchecked _)) hun

variable {base d : FileHandle} {before path rest : List String} {name : String}

/-- A call that creates a directory on the path. -/
theorem safe_createCall (call : SessionCall) {mode : UInt32} {found : call.Result} (asks : Bool)
    (names : call.Result → FileHandle → Prop) (hparent : parent = before ++ path ++ name :: rest)
    (hops : call.ops s
      = exportPathOps base path ++ .createDir name mode :: if asks then [.getFh] else [])
    (hcall : call.CreatesParent parent) (hchecked : ∀ os, call.Checked os)
    (htyped : call.typed = caughtExist .create found) (hfound : ∀ e, names found e)
    (hvalue : ∀ os v e, call.value os = some v →
      (asks = true → os.findSome? OpRes.handle? = some e) → names v e)
    (hw : Knows s parent T [(before, base), (before ++ path, d)] w) :
    Thread.Safe (E := effects) (dirServer init).serve Eq (fun _ _ => True)
      (CallDone s parent T [(before, base), (before ++ path, d)] fun v tree => ∃ e,
        tree.resolve s.exportRoot (before ++ path ++ [name]) = some e ∧ names v e)
      (s.call call).run w := by
  refine safe_dirCall hcall ?_ hchecked ?_ hw
  · rw [hops]
    cases asks <;> simp [NfsOp.opcode]
  · intro w t st c hw hexec
    have hbefore := hw.known (before, base) (by simp)
    have habove := hw.known (before ++ path, d) (by simp)
    have hpath : w.state.tree.resolve base path = some d := by
      rw [FileTree.resolve_append, hbefore] at habove
      exact habove
    rw [hops] at hexec
    have hcreated := executes_create hexec hpath
    have hentry : ∀ {e}, st.tree.child d name = some e →
        st.tree.resolve s.exportRoot (before ++ path ++ [name]) = some e := by
      intro e he
      rw [FileTree.resolve_concat (hcreated.grown.resolve habove)]
      exact he
    refine ⟨hcreated.grown, ?_, ?_, ?_, ?_⟩
    · intro m hm
      refine (hcreated.made m hm).imp_right ?_
      rintro ⟨hname, hdir, hext⟩
      refine ⟨before ++ path, rest, by rw [hname]; exact hparent, ?_⟩
      rw [hdir]
      exact hext.resolve habove
    · intro v hnone hv
      obtain ⟨e, he, hhandle⟩ := hcreated.done hnone
      exact ⟨e, hentry he, hvalue _ v e hv hhandle⟩
    · intro v f hf hv
      rw [htyped, caughtExist] at hv
      split at hv
      · next hexist =>
        cases hv
        obtain ⟨e, he⟩ := hcreated.exist f hf hexist.1 hexist.2
        exact ⟨e, hentry he, hfound e⟩
      · cases hv
    · intro f hf
      rw [hparent]
      exact (hcreated.refused f hf).lift (hcreated.grown.resolve hbefore) _

/-- The call that looks up the handle of an entry of the path. -/
theorem safe_lookupChildHandle {e : FileHandle} (hparent : parent = before ++ name :: rest)
    (hw : Knows s parent T [(before, base), (before ++ [name], e)] w) :
    Thread.Safe (E := effects) (dirServer init).serve Eq (fun _ _ => True)
      (CallDone s parent T [(before, base), (before ++ [name], e)] fun fh _ => fh = e)
      (s.call (.lookupChildHandle base name)).run w := by
  have hcall : (SessionCall.lookupChildHandle base name).CreatesParent parent := by
    rw [hparent]
    exact List.mem_append_right _ List.mem_cons_self
  refine safe_dirCall hcall ?_ (fun _ => trivial) ?_ hw
  · simp [SessionCall.ops, NfsOp.opcode]
  · intro w t st c hw hexec
    have hbefore := hw.known (before, base) (by simp)
    have hchild := hw.known (before ++ [name], e) (by simp)
    rw [FileTree.resolve_concat hbefore] at hchild
    obtain ⟨⟨hgrown, hsame⟩, hhandle, hrefused⟩ := executes_lookupChild hexec hchild
    refine ⟨hgrown, ?_, ?_, by simp [SessionCall.typed], ?_⟩
    · intro m hm
      rw [hsame] at hm
      exact .inl hm
    · intro v hnone hv
      exact Option.some.inj (hv.symm.trans (hhandle hnone))
    · intro f hf
      have hlift := (hrefused f hf).lift (hgrown.resolve hbefore) rest
      rw [hparent]
      simpa using hlift

/-! ### The loop -/

/-- The whole path leads somewhere. -/
def ParentsDone (s : NfsSession) (parent : List String) (T : Files F) :
    Except Error Unit → World (DirState F) → Prop :=
  CallDone s parent T [] fun _ tree => ∃ e, tree.resolve s.exportRoot parent = some e

theorem CallDone.failed {α : Type} {value : α → Files F → Prop} {err : Error}
    (h : CallDone s parent T known value (.error err) w) :
    ParentsDone s parent T (.error err) w := by
  refine ⟨⟨h.1.toCreatesOnPath, nofun⟩, nofun, ?_⟩
  rintro _ ⟨⟩
  exact h.2.2 err rfl

/-- The last directory of the path. -/
theorem safe_lastDir (call : SessionCall) {mode : UInt32} {found : call.Result}
    (hparent : parent = before ++ path ++ [name])
    (hops : call.ops s = exportPathOps base path ++ [.createDir name mode])
    (hcall : call.CreatesParent parent) (hchecked : ∀ os, call.Checked os)
    (htyped : call.typed = caughtExist .create found)
    (hw : Knows s parent T [(before, base), (before ++ path, d)] w) :
    Thread.Safe (E := effects) (dirServer init).serve Eq (fun _ _ => True)
      (ParentsDone s parent T) (do let _ ← s.call call : SessionM Unit).run w := by
  refine Thread.safe_bindExcept ((safe_createCall call false (fun _ _ => True) hparent hops hcall
    hchecked htyped (fun _ => trivial) (fun _ _ _ _ _ => trivial) hw).mono ?_)
  intro r w' hdone
  cases r with
  | error err => exact hdone.failed
  | ok v =>
    obtain ⟨hknows, hvalue, -⟩ := hdone
    obtain ⟨e, he, -⟩ := hvalue v rfl
    refine ⟨⟨hknows.toCreatesOnPath, nofun⟩, fun _ _ => ⟨e, ?_⟩, nofun⟩
    rw [hparent]
    exact he

/-- A further directory of the path, with its handle when it is new. -/
def HandleOf (v : CreateDirHandleOutcome) (e : FileHandle) : Prop := v = .exists ∨ v = .created e

theorem handleOf_of_value {os : List OpRes} {v : CreateDirHandleOutcome} {e : FileHandle}
    (hvalue : (do return CreateDirHandleOutcome.created (← os.findSome? OpRes.handle?)) = some v)
    (hhandle : true = true → os.findSome? OpRes.handle? = some e) : HandleOf v e := by
  rw [hhandle rfl] at hvalue
  cases hvalue
  exact .inr rfl

/-- The handle of a directory below one that this client created. -/
theorem safe_ensureChildDirHandle {fh : FileHandle} (hparent : parent = before ++ name :: rest)
    (hw : Knows s parent T [(before, fh)] w) :
    Thread.Safe (E := effects) (dirServer init).serve Eq (fun _ _ => True)
      (CallDone s parent T [] fun e tree => tree.resolve s.exportRoot (before ++ [name]) = some e)
      (s.ensureChildDirHandle fh name).run w := by
  have hbefore := hw.known (before, fh) (by simp)
  have hcall : (SessionCall.createChildDirWithHandle fh name).CreatesParent parent := by
    rw [hparent]
    exact List.mem_append_right _ List.mem_cons_self
  have hknows : Knows s parent T [(before, fh), (before ++ [], fh)] w := by
    refine ⟨hw.toCreatesOnPath, ?_⟩
    intro x hx
    have hx' : x = (before, fh) := by simpa using hx
    exact hw.known x (by rw [hx']; simp)
  refine Thread.safe_bindExcept ((safe_createCall (.createChildDirWithHandle fh name) true HandleOf
    (by simpa using hparent) rfl hcall (fun _ => trivial) rfl (fun _ => .inl rfl)
    (fun os v e => handleOf_of_value) hknows).mono ?_)
  intro r w' hdone
  cases r with
  | error err =>
    refine ⟨⟨hdone.1.toCreatesOnPath, nofun⟩, nofun, ?_⟩
    rintro _ ⟨⟩
    exact hdone.2.2 err rfl
  | ok v =>
    obtain ⟨hknows', hvalue, -⟩ := hdone
    obtain ⟨e, he, rfl | rfl⟩ := hvalue v rfl
    · -- somebody else created it: it is looked up
      have hknows'' : Knows s parent T [(before, fh), (before ++ [name], e)] w' := by
        refine ⟨hknows'.toCreatesOnPath, ?_⟩
        intro x hx
        rcases List.mem_cons.mp hx with rfl | hx
        · exact hknows'.known (before, fh) (by simp)
        · cases List.mem_singleton.mp hx
          simpa using he
      refine (safe_lookupChildHandle hparent hknows'').mono ?_
      intro r w'' hdone
      obtain ⟨hknows₂, hvalue₂, hrefused₂⟩ := hdone
      refine ⟨⟨hknows₂.toCreatesOnPath, nofun⟩, ?_, hrefused₂⟩
      intro v hv
      rw [hvalue₂ v hv]
      exact hknows₂.known (before ++ [name], e) (by simp)
    · refine ⟨⟨hknows'.toCreatesOnPath, nofun⟩, ?_, nofun⟩
      rintro _ ⟨⟩
      simpa using he

/-- **The loop.**  The handle that is carried is that of the path so far. -/
theorem safe_createDirsBelow {names above : List String} {fh : Option FileHandle}
    (hparent : parent = above ++ names) (habove : Knows s parent T [(above, d)] w)
    (hfh : ∀ h, fh = some h → h = d) :
    Thread.Safe (E := effects) (dirServer init).serve Eq (fun _ _ => True)
      (ParentsDone s parent T) (s.createDirsBelow above fh names).run w := by
  induction names generalizing above fh d w with
  | nil =>
    rw [List.append_nil] at hparent
    have hd := habove.known (above, d) (by simp)
    have hdone : ParentsDone s parent T (.ok ()) w := by
      refine ⟨⟨habove.toCreatesOnPath, nofun⟩, fun _ _ => ⟨d, ?_⟩, nofun⟩
      rw [hparent]
      exact hd
    cases fh <;> exact hdone
  | cons name names ih =>
    -- the path from the top, and the directory itself
    have htop : Knows s parent T [([], s.exportRoot), ([] ++ above, d)] w := by
      refine ⟨habove.toCreatesOnPath, ?_⟩
      intro x hx
      rcases List.mem_cons.mp hx with rfl | hx
      · rfl
      · cases List.mem_singleton.mp hx
        exact habove.known (above, d) (by simp)
    have hhere : Knows s parent T [(above, d), (above ++ [], d)] w := by
      refine ⟨habove.toCreatesOnPath, ?_⟩
      intro x hx
      have hx' : x = (above, d) := by simpa using hx
      exact habove.known x (by rw [hx']; simp)
    have hpre : above ++ [name] <+: parent := ⟨names, by rw [hparent]; simp⟩
    have hmem : name ∈ parent := by
      rw [hparent]
      exact List.mem_append_right _ List.mem_cons_self
    cases names with
    | nil =>
      cases fh with
      | none =>
        exact safe_lastDir (.createDir above name) hparent rfl hpre (fun _ => trivial) rfl htop
      | some h =>
        cases hfh h rfl
        exact safe_lastDir (.createDirAtHandle d name) (by simpa using hparent) rfl hmem
          (fun _ => trivial) rfl hhere
    | cons next names =>
      have hrest : parent = above ++ [name] ++ next :: names := by simpa using hparent
      cases fh with
      | some h =>
        cases hfh h rfl
        refine Thread.safe_bindExcept ((safe_ensureChildDirHandle hparent habove).mono ?_)
        intro r w' hdone
        cases r with
        | error err => exact hdone.failed
        | ok child =>
          refine ih hrest ⟨hdone.1.toCreatesOnPath, ?_⟩ (fun h hh => (Option.some.inj hh).symm)
          intro x hx
          cases List.mem_singleton.mp hx
          exact hdone.2.1 child rfl
      | none =>
        refine Thread.safe_bindExcept ((safe_createCall (.createDirWithHandle above name) true
          HandleOf hparent rfl hpre (fun _ => trivial) rfl (fun _ => .inl rfl)
          (fun os v e => handleOf_of_value) htop).mono ?_)
        intro r w' hdone
        cases r with
        | error err => exact hdone.failed
        | ok v =>
          obtain ⟨hknows, hvalue, -⟩ := hdone
          obtain ⟨e, he, hv⟩ := hvalue v rfl
          have hnext : Knows s parent T [(above ++ [name], e)] w' := by
            refine ⟨hknows.toCreatesOnPath, ?_⟩
            intro x hx
            cases List.mem_singleton.mp hx
            exact he
          rcases hv with rfl | rfl
          · exact ih hrest hnext nofun
          · exact ih hrest hnext fun h hh => (Option.some.inj hh).symm

end

/-! ### The server answers -/

/-- The server can refuse any operation. -/
theorem dirServer_responsive (init : F) : (dirServer init).Responsive := by
  refine Environment.responsive_of_executes ?_ (fun _ => ⟨"", trivial⟩) ⟨plainSession, trivial⟩
  intro ops st
  refine .inl ?_
  cases ops with
  | nil => exact ⟨_, _, _, .done, trivial, by decide⟩
  | cons op ops =>
    refine ⟨⟨[], some ⟨op.opcode, .DELAY⟩⟩, st, {}, .refused ⟨⟨?_, .inl rfl⟩, ?_⟩, trivial,
      Nat.two_pow_pos 31⟩
    · show NfsStatus.DELAY ≠ .OK
      decide
    · exact truthful_delay op _ _

/-- What has become of the path. -/
structure ParentsCreated (s : NfsSession) (parent : List String) (T : Files F)
    (r : Except Error Unit) (w : World (DirState F)) : Prop where
  untouched : T.Extends w.state.tree
  created : ∀ m ∈ w.state.made, ∃ before after, parent = before ++ m.name :: after ∧
    m.tree.resolve s.exportRoot before = some m.dir
  ok : r = .ok () → ∀ before after, parent = before ++ after → before ≠ [] →
    ∃ h, w.state.tree.resolve s.exportRoot before = some h ∧ (w.state.tree.node h).isSome ∧
      (after ≠ [] → w.state.tree.IsDir h)
  error : ∀ err, r = .error err → ParentsRefused s parent w.state.tree err

end NfsCrust
