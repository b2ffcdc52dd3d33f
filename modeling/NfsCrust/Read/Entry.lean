import NfsCrust.Safety.Compounds
import NfsCrust.Server.Paths

/-!
# What a path names

`entry_info` asks for the type and the size of what a path names, in one compound.  The size
is taken out of the answer with `expect`, which relies on the decoder to have refused answers
without one.

## Main definitions

* `entryInfoOnce`, `entryInfo` — the operation.
* `describingServer` — a server whose objects have attributes that change.

## Main results

* `decodeGetfhAttrsCompound_validated` — the decoder refuses answers without the attributes
  that were asked for.
* `entryInfo_described` — what is returned described the object at one moment.
-/

namespace NfsCrust

open Interaction Thread StateExcept

/-! ### The operation -/

inductive EntryKind
  | file
  | directory
  | other
  deriving DecidableEq, Repr

def EntryKind.fromFileType : Option FileType → EntryKind
  | some .regular => .file
  | some .directory => .directory
  | _ => .other

structure EntryInfo where
  kind : EntryKind
  size : UInt64
  deriving DecidableEq, Repr

def EntryInfo.isFile (info : EntryInfo) : Bool := info.kind == .file

def EntryInfo.isDir (info : EntryInfo) : Bool := info.kind == .directory

/-- `Option::expect`. -/
def expect {α : Type} (x : Option α) (message : String) : Except Error α :=
  match x with
  | some a => .ok a
  | none => .error (.panic message)

def entryInfoOnce (s : NfsSession) (components : List String) : ClientM EntryInfo := do
  let (_, attrs) ← s.call (.lookupFileHandleAttrs components .typeAndSize)
  let size ← expect attrs.size "TypeAndSize responses are validated before returning"
  return ⟨.fromFileType attrs.fileType, size⟩

def entryInfo (rawPath : String) : ClientM EntryInfo := do
  let path ← NfsPath.file rawPath
  retryingSessionOperation fun snapshot => entryInfoOnce snapshot.session path.components

/-! ### Validated answers -/

/-- **The decoder refuses answers without the attributes that were asked for,** whatever the
server sends. -/
theorem decodeGetfhAttrsCompound_validated {bytes : Bytes} {n : ℕ} {request : AttrRequest}
    {fh : FileHandle} {attrs : FileAttrs}
    (h : decodeGetfhAttrsCompound bytes n request = .ok (fh, attrs)) :
    validateFileAttrs request attrs "GETFH" = .ok () := by
  obtain ⟨r, r', hrun⟩ := exists_of_withReplies h
  obtain ⟨_, _, _, hrun⟩ := exists_of_run_bind hrun
  obtain ⟨_, _, _, hrun⟩ := exists_of_run_bind hrun
  obtain ⟨_, _, _, hrun⟩ := exists_of_run_bind hrun
  obtain ⟨_, _, _, hrun⟩ := exists_of_run_bind hrun
  obtain ⟨found, _, _, hrun⟩ := exists_of_run_bind hrun
  obtain ⟨_, _, _, hrun⟩ := exists_of_run_bind hrun
  obtain ⟨_, _, _, hrun⟩ := exists_of_run_bind hrun
  obtain ⟨_, _, hcheck, hrun⟩ := exists_of_run_bind hrun
  cases hrun
  cases hvalid : validateFileAttrs request (found.getD {}) "GETFH" with
  | ok _ => rfl
  | error err =>
    rw [hvalid] at hcheck
    cases hcheck

/-! ### One moment -/

variable {F : Type} {describe : Files F → FileHandle → UInt32 × UInt64} {exportRoot : FileHandle}
  {s : NfsSession} {components : List String} {m : Moments F}

/-- What a server answers whose objects have a type and a size at every moment.  It may leave
out an attribute. -/
def Described (describe : Files F → FileHandle → UInt32 × UInt64) (T : Files F) (fh : FileHandle) :
    NfsOp → OpRes → Prop
  | .getFh, .getFh handle => handle.bytes = fh.bytes
  | .getAttr _, .getAttr attrs => (∀ t, attrs.fileType = some t → t = (describe T fh).1) ∧
      ∀ size, attrs.size = some size → size = (describe T fh).2
  | _, _ => False

/-- A server of objects with attributes, on a network that may report any error. -/
def describingServer (describe : Files F → FileHandle → UInt32 × UInt64)
    (exportRoot : FileHandle) : PathServer F where
  answer := Described describe
  fails _ := True
  session s := s.exportRoot = exportRoot
  opcode {T fh op r} h := by
    cases op <;> cases r <;> first | rfl | cases h

/-- The object that the path named at some moment was of this kind, and had this size. -/
def EntryInfo.Describes (describe : Files F → FileHandle → UInt32 × UInt64) (exportRoot : FileHandle)
    (components : List String) (m : Moments F) (info : EntryInfo) : Prop :=
  ∃ T ∈ m.tree :: m.past, ∃ fh, T.resolve exportRoot components = some fh ∧
    info = ⟨.fromFileType (some (.fromRaw (describe T fh).1)), (describe T fh).2⟩

theorem Described.attrs {T : Files F} {fh : FileHandle} {n : ℕ} {results : List OpRes}
    {value : FileHandle × FileAttrs}
    (hresults : List.Forall₂ (Described describe T fh) [.getFh, .getAttr .typeAndSizeAttrs] results)
    (hvalue : (SessionCall.lookupFileHandleAttrs components .typeAndSize).value
      (.putFh :: (List.replicate n .lookup ++ results)) = some value) :
    (∀ t, value.2.fileType = some t → t = .fromRaw (describe T fh).1) ∧
      ∀ size, value.2.size = some size → size = (describe T fh).2 := by
  obtain ⟨o, os, ho, hos, rfl⟩ := List.forall₂_cons_left_iff.mp hresults
  obtain ⟨o', os', ho', hos', rfl⟩ := List.forall₂_cons_left_iff.mp hos
  cases hos'
  cases o with
  | getFh handle =>
    cases o' with
    | getAttr attrs =>
      simp only [SessionCall.value, SessionCall.findSome?_path OpRes.handle? rfl rfl,
        SessionCall.findSome?_path OpRes.attrs? rfl rfl] at hvalue
      cases hvalue
      refine ⟨?_, ho'.2⟩
      intro t ht
      change attrs.fileType.map FileType.fromRaw = some t at ht
      obtain ⟨raw, hraw, rfl⟩ := Option.map_eq_some_iff.mp ht
      rw [ho'.1 raw hraw]
    | _ => cases ho'
  | _ => cases ho

theorem ensures_entryInfoOnce :
    Ensures (E := effects) (describingServer describe exportRoot).serve (fun _ => True)
      (entryInfoOnce s components).run m fun r m' => ∀ info, r = .ok info →
        info.Describes describe s.exportRoot components m' := by
  have hops : (SessionCall.lookupFileHandleAttrs components .typeAndSize).ops s =
      exportPathOps s.exportRoot components ++ [.getFh, .getAttr .typeAndSizeAttrs] := rfl
  unfold entryInfoOnce
  apply ensures_bindExcept
  apply PathServer.ensures_call hops (by simp [NfsOp.onFile]) (fun _ _ => rfl)
  · intro err m' _ info h
    cases h
  · rintro ⟨fh', attrs⟩ m' fh os - hnamed hos ⟨response, hdecode⟩ hvalue
    obtain ⟨htype, hsize⟩ := Described.attrs hos hvalue
    -- both attributes are there
    have hvalid := decodeGetfhAttrsCompound_validated hdecode
    unfold validateFileAttrs at hvalid
    dsimp only at hvalid htype hsize ⊢
    split at hvalid
    · cases hvalid
    · next hsome =>
      simp only [Bool.or_eq_true, Option.isNone_iff_eq_none, not_or] at hsome
      obtain ⟨t, ht⟩ := Option.ne_none_iff_exists'.mp hsome.1
      obtain ⟨size, hs⟩ := Option.ne_none_iff_exists'.mp hsome.2
      apply ensures_bindExcept
      apply ensures_except trivial
      rw [hs]
      apply ensures_pure trivial
      rintro info ⟨⟩
      refine ⟨m'.tree, List.mem_cons_self, fh, hnamed, ?_⟩
      rw [ht, htype t ht, hsize size hs]

end NfsCrust
