import Mathlib.Algebra.Order.Ring.Nat
import Mathlib.Data.Option.Basic
import Mathlib.Logic.Function.Basic
import Mathlib.Tactic.Common

/-!
# File trees

What the handles of a file server name: directories, with entries that are handles again,
and files.  Nothing is assumed about the shape of the graph of entries, except that an
entry names something.

A tree that grew has all that the earlier one had.  Paths that can be followed in a tree
can be followed in a tree that grew out of it, and lead to the same handles; that is all a
client can rely on while others create entries.

## Main definitions

* `FileTree`, `FileTree.child`, `FileTree.resolve` — a tree, an entry, the end of a path.
* `FileTree.create`, `FileTree.link`, `FileTree.unlink` — the changes to a tree.
* `FileTree.Extends` — a tree that grew.
* `FileTree.KeepsNonempty` — a step of a tree whose entries come and go.

## Main results

* `FileTree.resolve_append` — a path in two parts.
* `FileTree.Extends.resolve` — a path in a tree that grew.
* `FileTree.KeepsNonempty.resolve` — a path while entries come and go.
* `FileTree.extends_create` — creating an entry lets the tree grow.
-/

/-- What a handle names. -/
inductive FileTree.Node (H N F : Type)
  | dir (entries : N → Option H)
  | file (data : F)

/-- What the handles name.  Entries are not left dangling. -/
structure FileTree (H N F : Type) where
  node : H → Option (FileTree.Node H N F)
  closed : ∀ {d entries n h}, node d = some (.dir entries) → entries n = some h → (node h).isSome

namespace FileTree

variable {H N F : Type} {T T' T'' : FileTree H N F} {d h h' : H} {n n' : N}

/-! ### Paths -/

/-- The handle of an entry of a directory. -/
def child (T : FileTree H N F) (d : H) (n : N) : Option H :=
  match T.node d with
  | some (.dir entries) => entries n
  | _ => none

def IsDir (T : FileTree H N F) (d : H) : Prop := ∃ entries, T.node d = some (.dir entries)

def IsEmptyDir (T : FileTree H N F) (d : H) : Prop := T.node d = some (.dir fun _ => none)

def IsFile (T : FileTree H N F) (h : H) : Prop := ∃ data, T.node h = some (.file data)

/-- The handle at the end of a path. -/
def resolve (T : FileTree H N F) (h : H) (path : List N) : Option H := path.foldlM T.child h

@[simp] theorem resolve_nil (T : FileTree H N F) (h : H) : T.resolve h [] = some h := rfl

@[simp] theorem resolve_cons (T : FileTree H N F) (h : H) (n : N) (path : List N) :
    T.resolve h (n :: path) = (T.child h n).bind fun h' => T.resolve h' path := by
  simp [resolve]

/-- **A path in two parts.** -/
theorem resolve_append (T : FileTree H N F) (h : H) (path path' : List N) :
    T.resolve h (path ++ path') = (T.resolve h path).bind fun h' => T.resolve h' path' := by
  simp [resolve]

/-- The last step of a path. -/
theorem resolve_concat {path : List N} (hpath : T.resolve h path = some d) :
    T.resolve h (path ++ [n]) = T.child d n := by
  rw [resolve_append, hpath]
  simp

theorem child_eq_some : T.child d n = some h ↔
    ∃ entries, T.node d = some (.dir entries) ∧ entries n = some h := by
  unfold child
  split
  · next entries hnode => simp [hnode]
  · next hnot =>
    constructor
    · exact nofun
    · rintro ⟨entries, hnode, -⟩
      exact absurd hnode (hnot entries)

theorem isDir_of_child (hchild : T.child d n = some h) : T.IsDir d := by
  obtain ⟨entries, hnode, -⟩ := child_eq_some.mp hchild
  exact ⟨entries, hnode⟩

theorem isSome_of_child (hchild : T.child d n = some h) : (T.node h).isSome := by
  obtain ⟨entries, hnode, hentry⟩ := child_eq_some.mp hchild
  exact T.closed hnode hentry

theorem isSome_of_resolve {path : List N} (hpath : T.resolve h path = some h') (hne : path ≠ []) :
    (T.node h').isSome := by
  obtain ⟨front, n, rfl⟩ := (List.eq_nil_or_concat path).resolve_left hne
  rw [List.concat_eq_append, resolve_append] at hpath
  obtain ⟨d, -, hlast⟩ := Option.bind_eq_some_iff.mp hpath
  rw [resolve_cons] at hlast
  obtain ⟨e, hchild, hend⟩ := Option.bind_eq_some_iff.mp hlast
  cases hend
  exact isSome_of_child hchild

theorem not_isDir_of_isFile (hfile : T.IsFile h) : ¬ T.IsDir h := by
  rintro ⟨entries, hdir⟩
  obtain ⟨data, hdata⟩ := hfile
  cases hdir.symm.trans hdata

theorem ne_of_isDir (hfresh : T.node h = none) (hdir : T.IsDir d) : d ≠ h := by
  rintro rfl
  obtain ⟨entries, hentries⟩ := hdir
  cases hentries.symm.trans hfresh

/-- Every part of a path that can be followed leads somewhere, and to a directory unless it is the
whole path. -/
theorem exists_resolve_of_append {path path' : List N} (hpath : T.resolve h (path ++ path') = some h') :
    ∃ d, T.resolve h path = some d ∧ (path' ≠ [] → T.IsDir d) := by
  rw [resolve_append] at hpath
  obtain ⟨d, hd, hrest⟩ := Option.bind_eq_some_iff.mp hpath
  refine ⟨d, hd, ?_⟩
  intro hne
  cases path' with
  | nil => exact absurd rfl hne
  | cons n path' =>
    rw [resolve_cons] at hrest
    obtain ⟨c, hc, -⟩ := Option.bind_eq_some_iff.mp hrest
    exact isDir_of_child hc

/-! ### Growth -/

/-- The later tree has all that the earlier one has. -/
structure Extends (T T' : FileTree H N F) : Prop where
  child : ∀ {d n h}, T.child d n = some h → T'.child d n = some h
  dir : ∀ {d}, T.IsDir d → T'.IsDir d
  file : ∀ {h}, T.IsFile h → T'.IsFile h

namespace Extends

theorem refl (T : FileTree H N F) : Extends T T := ⟨id, id, id⟩

theorem trans (hfirst : Extends T T') (hsecond : Extends T' T'') : Extends T T'' where
  child hchild := hsecond.child (hfirst.child hchild)
  dir hdir := hsecond.dir (hfirst.dir hdir)
  file hfile := hsecond.file (hfirst.file hfile)

/-- **A path that can be followed leads to the same handle later.** -/
theorem resolve (hext : Extends T T') {path : List N} (hpath : T.resolve h path = some h') :
    T'.resolve h path = some h' := by
  induction path generalizing h with
  | nil => exact hpath
  | cons n path ih =>
    rw [resolve_cons] at hpath ⊢
    obtain ⟨c, hc, hrest⟩ := Option.bind_eq_some_iff.mp hpath
    rw [hext.child hc]
    exact ih hrest

end Extends

/-! ### Steps of others -/

/-- A step in which no entry of a directory that is not empty becomes an entry of something
else.  Entries may come and go. -/
def KeepsNonempty (T T' : FileTree H N F) : Prop :=
  ∀ {d n e m c}, T.child d n = some e → T.child e m = some c →
    T'.child d n = some e ∨ T'.child d n = none

/-- **Where a part of a path leads changes only when the path is interrupted.** -/
theorem KeepsNonempty.resolve (hstep : KeepsNonempty T T') {before rest : List N}
    (hbefore : T.resolve h before = some d) (hrest : rest ≠ [])
    (hfull : T.resolve h (before ++ rest) ≠ none) :
    T'.resolve h before = some d ∨ T'.resolve h (before ++ rest) = none := by
  induction before generalizing h with
  | nil => exact .inl hbefore
  | cons n before ih =>
    rw [List.cons_append, resolve_cons] at hfull ⊢
    rw [resolve_cons] at hbefore ⊢
    obtain ⟨e, hchild, hbefore⟩ := Option.bind_eq_some_iff.mp hbefore
    rw [hchild, Option.bind_some] at hfull
    -- the directory has the next entry of the path, and is not replaced
    obtain ⟨m, path, hpath⟩ : ∃ m path, before ++ rest = m :: path := by
      cases before with
      | nil => exact List.exists_cons_of_ne_nil hrest
      | cons m before => exact ⟨m, before ++ rest, rfl⟩
    obtain ⟨c, hc⟩ : ∃ c, T.child e m = some c := by
      rw [hpath, resolve_cons] at hfull
      cases hm : T.child e m with
      | none =>
        rw [hm] at hfull
        exact absurd rfl hfull
      | some c => exact ⟨c, rfl⟩
    rcases hstep hchild hc with hsame | hgone
    · rw [hsame]
      exact ih hbefore hfull
    · rw [hgone]
      exact .inr rfl

/-! ### Changes -/

variable [DecidableEq H] [DecidableEq N]

/-- Set an entry of a directory. -/
def setEntry (node : H → Option (Node H N F)) (d : H) (n : N) (entry : Option H) :
    H → Option (Node H N F) :=
  match node d with
  | some (.dir entries) => Function.update node d (some (.dir (Function.update entries n entry)))
  | _ => node

theorem setEntry_of_dir {node : H → Option (Node H N F)} {entries : N → Option H}
    (hdir : node d = some (.dir entries)) (entry : Option H) :
    setEntry node d n entry
      = Function.update node d (some (.dir (Function.update entries n entry))) := by
  unfold setEntry
  rw [hdir]

theorem setEntry_cases (node : H → Option (Node H N F)) (d : H) (n : N) (entry : Option H) :
    (∃ entries, node d = some (.dir entries) ∧ setEntry node d n entry
      = Function.update node d (some (.dir (Function.update entries n entry)))) ∨
    setEntry node d n entry = node := by
  cases hnode : node d with
  | none =>
    refine .inr ?_
    simp [setEntry, hnode]
  | some x =>
    cases x with
    | dir entries => exact .inl ⟨entries, rfl, setEntry_of_dir hnode entry⟩
    | file data =>
      refine .inr ?_
      simp [setEntry, hnode]

theorem isSome_setEntry (node : H → Option (Node H N F)) (d : H) (n : N) (entry : Option H) (h : H) :
    (setEntry node d n entry h).isSome = (node h).isSome := by
  obtain ⟨entries, hdir, heq⟩ | heq := setEntry_cases node d n entry
  · rw [heq]
    by_cases hd : h = d
    · subst hd
      simp [hdir]
    · simp [hd]
  · rw [heq]

/-- The entries of a directory, after one was set. -/
theorem of_setEntry {node : H → Option (Node H N F)} {entry : Option H} {entries : N → Option H}
    {e : H} (hnode : setEntry node d n entry h = some (.dir entries)) (hentry : entries n' = some e) :
    entry = some e ∨ ∃ before, node h = some (.dir before) ∧ before n' = some e := by
  obtain ⟨before, hdir, heq⟩ | heq := setEntry_cases node d n entry
  · rw [heq] at hnode
    by_cases hd : h = d
    · subst hd
      rw [Function.update_self] at hnode
      cases hnode
      by_cases hname : n' = n
      · subst hname
        rw [Function.update_self] at hentry
        exact .inl hentry
      · rw [Function.update_of_ne hname] at hentry
        exact .inr ⟨before, hdir, hentry⟩
    · rw [Function.update_of_ne hd] at hnode
      exact .inr ⟨entries, hnode, hentry⟩
  · rw [heq] at hnode
    exact .inr ⟨entries, hnode, hentry⟩

/-- A new object in a directory: an empty directory, or a file. -/
def create (T : FileTree H N F) (d : H) (n : N) (h : H) (leaf : Option F) : FileTree H N F where
  node := setEntry (Function.update T.node h (some (leaf.elim (.dir fun _ => none) .file))) d n (some h)
  closed := by
    intro d' entries n' e hnode hentry
    rw [isSome_setEntry]
    by_cases heq : e = h
    · rw [heq, Function.update_self]
      rfl
    · rw [Function.update_of_ne heq]
      obtain ⟨⟨⟩⟩ | ⟨before, hbefore, hold⟩ := of_setEntry hnode hentry
      · exact absurd rfl heq
      · by_cases hd : d' = h
        · rw [hd, Function.update_self] at hbefore
          cases leaf with
          | none =>
            cases hbefore
            cases hold
          | some data => cases hbefore
        · rw [Function.update_of_ne hd] at hbefore
          exact T.closed hbefore hold

/-- A further entry for an object. -/
def link (T : FileTree H N F) (d : H) (n : N) (h : H) (hnode : (T.node h).isSome) :
    FileTree H N F where
  node := setEntry T.node d n (some h)
  closed := by
    intro d' entries n' e hdir hentry
    rw [isSome_setEntry]
    obtain ⟨⟨⟩⟩ | ⟨before, hbefore, hold⟩ := of_setEntry hdir hentry
    · exact hnode
    · exact T.closed hbefore hold

/-- Remove an entry. -/
def unlink (T : FileTree H N F) (d : H) (n : N) : FileTree H N F where
  node := setEntry T.node d n none
  closed := by
    intro d' entries n' e hdir hentry
    rw [isSome_setEntry]
    obtain ⟨⟨⟩⟩ | ⟨before, hbefore, hold⟩ := of_setEntry hdir hentry
    exact T.closed hbefore hold

section

variable {leaf : Option F} (hfresh : T.node h = none)
include hfresh

theorem node_create_self (hdir : T.IsDir d) :
    (T.create d n h leaf).node h = some (leaf.elim (.dir fun _ => none) .file) := by
  obtain ⟨entries, hentries⟩ := hdir
  have hne : d ≠ h := ne_of_isDir hfresh ⟨entries, hentries⟩
  change setEntry _ d n (some h) h = _
  rw [setEntry_of_dir (by rw [Function.update_of_ne hne]; exact hentries),
    Function.update_of_ne hne.symm, Function.update_self]

theorem node_create_dir {entries : N → Option H} (hdir : T.node d = some (.dir entries)) :
    (T.create d n h leaf).node d = some (.dir (Function.update entries n (some h))) := by
  have hne : d ≠ h := ne_of_isDir hfresh ⟨entries, hdir⟩
  change setEntry _ d n (some h) d = _
  rw [setEntry_of_dir (by rw [Function.update_of_ne hne]; exact hdir), Function.update_self]

theorem node_create_of_ne (hdir : T.IsDir d) (hh : h' ≠ h) (hd : h' ≠ d) :
    (T.create d n h leaf).node h' = T.node h' := by
  obtain ⟨entries, hentries⟩ := hdir
  have hne : d ≠ h := ne_of_isDir hfresh ⟨entries, hentries⟩
  change setEntry _ d n (some h) h' = _
  rw [setEntry_of_dir (by rw [Function.update_of_ne hne]; exact hentries),
    Function.update_of_ne hd, Function.update_of_ne hh]

theorem child_create_self (hdir : T.IsDir d) : (T.create d n h leaf).child d n = some h := by
  obtain ⟨entries, hentries⟩ := hdir
  rw [child_eq_some]
  exact ⟨_, node_create_dir hfresh hentries, Function.update_self ..⟩

/-- **Creating an entry lets the tree grow.** -/
theorem extends_create (hdir : T.IsDir d) (hnew : T.child d n = none) :
    T.Extends (T.create d n h leaf) := by
  have hnode : ∀ {h'}, (T.node h').isSome → h' ≠ h := by
    rintro h' hsome rfl
    rw [hfresh] at hsome
    cases hsome
  constructor
  · intro d' n' e hchild
    obtain ⟨entries, hentries, hentry⟩ := child_eq_some.mp hchild
    rw [child_eq_some]
    by_cases hd : d' = d
    · subst hd
      refine ⟨_, node_create_dir hfresh hentries, ?_⟩
      -- the new entry is not an old one
      have hne : n' ≠ n := by
        rintro rfl
        cases hnew.symm.trans hchild
      rw [Function.update_of_ne hne]
      exact hentry
    · refine ⟨entries, ?_, hentry⟩
      rw [node_create_of_ne hfresh hdir (hnode (by rw [hentries]; rfl)) hd]
      exact hentries
  · rintro d' ⟨entries, hentries⟩
    by_cases hd : d' = d
    · subst hd
      exact ⟨_, node_create_dir hfresh hentries⟩
    · refine ⟨entries, ?_⟩
      rw [node_create_of_ne hfresh hdir (hnode (by rw [hentries]; rfl)) hd]
      exact hentries
  · rintro h' ⟨data, hdata⟩
    have hd : h' ≠ d := by
      rintro rfl
      exact not_isDir_of_isFile ⟨data, hdata⟩ hdir
    refine ⟨data, ?_⟩
    rw [node_create_of_ne hfresh hdir (hnode (by rw [hdata]; rfl)) hd]
    exact hdata

end

end FileTree
