import NfsCrust.Limits
import NfsCrust.Read.Correct

/-!
# Public reads of one file

The public reads against a server that has one file under a path: `get` returns the file,
`get_range` the part of it that was asked for and `get_known_size` the file if it has the
size the caller named, each within the limit of the client.

A read reserves its buffer before it reads, as large as the caller asked for or the limit
allows.  That is a panic if the buffer cannot be addressed, so the last two need a range or a
limit below `isize::MAX`.

## Main definitions

* `ServedFile`, `ServedFile.serves` — a file under a path, and a server that has it.
* `NfsClient.limited` — a result that is refused when it is longer than the limit.

## Main results

* `must_readRangeAnonymous`, `must_getOnce`, `must_getRangeOnce`, `must_getKnownSizeOnce` — what
  the attempts return.
* `gets_serving` — what the operations return.
* `getRange_panics` — a buffer that cannot be reserved.
-/

namespace NfsCrust

open Interaction

/-! ### The server -/

/-- A file, where it is found, and its handle. -/
structure ServedFile where
  components : List String
  fh : FileHandle
  bytes : Bytes
  handle_le : fh.bytes.length ≤ 128
  size_lt : bytes.length < 2 ^ 64

/-- The operation reads the current file. -/
def NfsOp.onFile : NfsOp → Bool
  | .getFh | .getAttr _ | .read .. => true
  | _ => false

/-- What a server that has the file may answer to an operation on it. -/
def FileAnswers (fh : FileHandle) (F : Bytes) : NfsOp → OpRes → Prop
  | .getFh, .getFh handle => handle.bytes = fh.bytes
  | .getAttr _, .getAttr attrs => attrs.size = some (.ofNat F.length)
  | .read _ offset count, .read eof data => Served F offset count ⟨eof, data.bytes⟩
  | _, _ => False

namespace FileAnswers

variable {fh : FileHandle} {F : Bytes} {o : OpRes}

theorem getFh (h : FileAnswers fh F .getFh o) :
    ∃ handle, o = .getFh handle ∧ handle.bytes = fh.bytes := by
  cases o with
  | getFh handle => exact ⟨handle, rfl, h⟩
  | _ => cases h

theorem getAttr {bitmap : Bitmap} (h : FileAnswers fh F (.getAttr bitmap) o) :
    ∃ attrs, o = .getAttr attrs ∧ attrs.size = some (.ofNat F.length) := by
  cases o with
  | getAttr attrs => exact ⟨attrs, rfl, h⟩
  | _ => cases h

theorem read {stateid : StateId} {offset count : ℕ}
    (h : FileAnswers fh F (.read stateid offset count) o) :
    ∃ eof data, o = .read eof data ∧ Served F offset count ⟨eof, data.bytes⟩ := by
  cases o with
  | read eof data => exact ⟨eof, data, rfl, h⟩
  | _ => cases h

/-- The answer belongs to the operation. -/
theorem opcode {op : NfsOp} (h : FileAnswers fh F op o) : o.opcode = op.opcode := by
  cases op with
  | getFh => obtain ⟨handle, rfl, -⟩ := h.getFh; rfl
  | getAttr bitmap => obtain ⟨attrs, rfl, -⟩ := h.getAttr; rfl
  | read stateid offset count => obtain ⟨eof, data, rfl, -⟩ := h.read; rfl
  | _ => cases o <;> cases h

/-- What is answered to operations on the file. -/
theorem of_mem {ops : List NfsOp} {os : List OpRes} (h : List.Forall₂ (FileAnswers fh F) ops os)
    (ho : o ∈ os) : ∃ op, FileAnswers fh F op o := by
  induction h with
  | nil => cases ho
  | cons hop _ ih =>
    rcases List.mem_cons.mp ho with rfl | ho
    · exact ⟨_, hop⟩
    · exact ih ho

theorem map_opcode {ops : List NfsOp} {os : List OpRes}
    (h : List.Forall₂ (FileAnswers fh F) ops os) :
    os.map OpRes.opcode = ops.map NfsOp.opcode := by
  induction h with
  | nil => rfl
  | cons hop _ ih => rw [List.map_cons, List.map_cons, hop.opcode, ih]

end FileAnswers

/-- The request makes the file the current one, by its handle or with `n` lookups, and then
reads it. -/
def ServedFile.Asks (x : ServedFile) (s : NfsSession) (ops : List NfsOp) (n : ℕ)
    (tail : List NfsOp) : Prop :=
  (n = 0 ∧ ops = .putFh x.fh :: tail ∨
    n = x.components.length ∧ ops = exportPathOps s.exportRoot x.components ++ tail) ∧
  ∀ op ∈ tail, op.onFile

/-- The requests that resolve the path of a file and read it, with what follows the path. -/
inductive SessionCall.PathRead (components : List String) : SessionCall → List NfsOp → Prop
  | lookup : PathRead components (.lookupFileHandle components) [.getFh]
  | attrs : PathRead components (.lookupFileHandleAttrs components .size)
      [.getFh, .getAttr .sizeAttr]
  | read (offset count : ℕ) : PathRead components (.readPathAnonymous components offset count)
      [.read .anonymous offset count]
  | readHandle (offset count : ℕ) :
      PathRead components (.readPathAnonymousWithHandle components offset count)
        [.getFh, .read .anonymous offset count]
  | readSize (count : ℕ) : PathRead components (.readPathAnonymousWithSize components count)
      [.getFh, .getAttr .sizeAttr, .read .anonymous 0 count]

/-- A session on which the file can be read. -/
structure NfsSession.AdmitsReads (s : NfsSession) (x : ServedFile) : Prop where
  handle : s.AdmitsRead x.fh
  path : ∀ call tail, SessionCall.PathRead x.components call tail →
    s.validateCompoundRequest call.tag (call.ops s) = .ok ()
  chunk : 0 < s.readChunkSize
  granularity : 0 < s.readGranularity

/-- A server that has the file, for clients whose sessions admit its requests.  Nothing is
said about other requests. -/
def ServedFile.serves (x : ServedFile) (e : Effect) (_ : Unit) (r : e.Response) (_ : Unit) : Prop :=
  match e, r with
  | .exchange s _ ops, r => ops.length + 1 < 2 ^ 32 → ∀ n tail, x.Asks s ops n tail →
      ∃ slot response results, r = .ok (slot, response) ∧
        Delivered slot ⟨.putFh :: (List.replicate n .lookup ++ results), none⟩ response ∧
        List.Forall₂ (FileAnswers x.fh x.bytes) tail results
  | .currentSession, snapshot => NfsSession.AdmitsReads (ClientSession.session snapshot) x
  | _, _ => True

/-- The answer that returns as much as there is. -/
def ServedFile.answer (x : ServedFile) : NfsOp → OpRes
  | .getFh => .getFh ⟨x.fh.bytes, Nat.lt_of_le_of_lt x.handle_le (by decide)⟩
  | .getAttr _ => .getAttr ⟨none, some (.ofNat x.bytes.length), 0, by decide⟩
  | .read _ offset count =>
      let data := slice x.bytes offset (min count (2 ^ 32 - 1))
      .read (decide (x.bytes.length ≤ offset + data.length)) ⟨data, by
        rw [length_slice]
        omega⟩
  | _ => .putFh

namespace ServedFile

variable {x : ServedFile} {s : NfsSession} {ops tail tail' : List NfsOp} {n n' : ℕ}

theorem fileAnswers_answer {op : NfsOp} (h : op.onFile = true) :
    FileAnswers x.fh x.bytes op (x.answer op) := by
  cases op with
  | getFh => rfl
  | getAttr bitmap => rfl
  | read stateid offset count => exact served_slice _ _ (Nat.min_le_left _ _) (by omega)
  | _ => cases h

theorem Asks.shape (h : x.Asks s ops n tail) :
    ∃ (fh : FileHandle) (names : List String), names.length = n ∧
      ops = .putFh fh :: (names.map NfsOp.lookup ++ tail) := by
  obtain ⟨⟨rfl, rfl⟩ | ⟨rfl, rfl⟩, -⟩ := h
  · exact ⟨_, [], rfl, rfl⟩
  · exact ⟨_, x.components, rfl, rfl⟩

/-- The lookups end where the file is read. -/
theorem lookups_inj {names names' : List String} (htail : ∀ op ∈ tail, op.onFile)
    (htail' : ∀ op ∈ tail', op.onFile)
    (h : names.map NfsOp.lookup ++ tail = names'.map NfsOp.lookup ++ tail') :
    names.length = names'.length ∧ tail = tail' := by
  induction names generalizing names' with
  | nil =>
    cases names' with
    | nil => exact ⟨rfl, h⟩
    | cons name names' =>
      have hmem : NfsOp.lookup name ∈ tail := by
        rw [List.map_nil, List.nil_append] at h
        rw [h]
        exact List.mem_cons_self
      cases htail _ hmem
  | cons name names ih =>
    cases names' with
    | nil =>
      have hmem : NfsOp.lookup name ∈ tail' := by
        rw [List.map_nil, List.nil_append] at h
        rw [← h]
        exact List.mem_cons_self
      cases htail' _ hmem
    | cons name' names' =>
      obtain ⟨hlen, htails⟩ := ih (List.cons.inj h).2
      exact ⟨congrArg (· + 1) hlen, htails⟩

theorem Asks.unique (h : x.Asks s ops n tail) (h' : x.Asks s ops n' tail') :
    n = n' ∧ tail = tail' := by
  obtain ⟨fh, names, rfl, hops⟩ := h.shape
  obtain ⟨fh', names', rfl, hops'⟩ := h'.shape
  exact lookups_inj h.2 h'.2 (List.cons.inj (hops.symm.trans hops')).2

theorem serves_exchange (s : NfsSession) (tag : String) (ops : List NfsOp) :
    ∃ r w', x.serves (.exchange s tag ops) () r w' := by
  by_cases hasks : ops.length + 1 < 2 ^ 32 ∧ ∃ n tail, x.Asks s ops n tail
  · obtain ⟨hshort, n, tail, hasks⟩ := hasks
    have hlen : (Replies.mk (.putFh :: (List.replicate n .lookup ++ tail.map x.answer))
        none).length + 1 < 2 ^ 32 := by
      obtain ⟨fh, names, rfl, rfl⟩ := hasks.shape
      simpa [Replies.length] using hshort
    obtain ⟨response, hresponse⟩ := exists_delivered ⟨.replicate 16 0, 1, 0⟩ hlen
    refine ⟨.ok (⟨.replicate 16 0, 1, 0⟩, response), (), fun _ n' tail' hasks' => ?_⟩
    obtain ⟨rfl, rfl⟩ := hasks.unique hasks'
    refine ⟨_, _, _, rfl, hresponse, ?_⟩
    exact List.forall₂_map_right_iff.mpr
      (List.forall₂_same.mpr fun op hop => fileAnswers_answer (hasks.2 op hop))
  · refine ⟨.error (.connectionLost ""), (), fun hshort n tail h => ?_⟩
    exact absurd ⟨hshort, n, tail, h⟩ hasks

/-- The server reads its file when it is asked for it by its handle. -/
theorem servesFile_of_serves {e : Effect} {w w' : Unit} {r : e.Response} (h : x.serves e w r w') :
    servesFile x.fh x.bytes e w r w' := by
  cases e with
  | exchange s tag ops =>
    rintro offset count rfl
    obtain ⟨slot, response, results, rfl, hdelivered, hresults⟩ :=
      h (by simp) 0 [.read .anonymous offset count] ⟨Or.inl ⟨rfl, rfl⟩, by simp [NfsOp.onFile]⟩
    obtain ⟨o, os, ho, hos, rfl⟩ := List.forall₂_cons_left_iff.mp hresults
    obtain ⟨eof, data, rfl, hserved⟩ := ho.read
    cases hos
    exact ⟨slot, response, eof, data, rfl, hdelivered, hserved⟩
  | _ => trivial

/-- What a read of the handle does against a server of the file, it does here. -/
theorem must_of_servesFile {α : Type} {p : Prog effects α} {post : α → Unit → Prop}
    (hsession : ∃ s : NfsSession, s.AdmitsReads x)
    (h : Must (E := effects) (servesFile x.fh x.bytes) post p ()) :
    Must (E := effects) x.serves post p () := by
  refine h.of_refines (fun _ _ _ _ => servesFile_of_serves) ?_
  rintro e w ⟨r, w', -⟩
  cases e with
  | exchange s tag ops => exact serves_exchange s tag ops
  | currentSession =>
    obtain ⟨s, hs⟩ := hsession
    exact ⟨⟨s, 0⟩, (), hs⟩
  | _ => exact ⟨r, (), trivial⟩

end ServedFile

/-! ### Requests by path -/

section

variable {x : ServedFile} {s : NfsSession}

/-- A request that resolves the path and reads the file is one exchange, and what it returns
is read off the answers. -/
theorem finishes_pathRead (hadmits : s.AdmitsReads x) {call : SessionCall} {tail : List NfsOp}
    (h : call.PathRead x.components tail) :
    Thread.Finishes (E := effects) x.serves
      (fun r _ => ∃ results value, r = .ok value ∧
        List.Forall₂ (FileAnswers x.fh x.bytes) tail results ∧
        call.value (.putFh :: (List.replicate x.components.length .lookup ++ results)) = some value)
      1 (s.call call).run () := by
  have hvalid := hadmits.path call tail h
  have hops : call.ops s = exportPathOps s.exportRoot x.components ++ tail := by
    cases h <;> rfl
  have htail : ∀ op ∈ tail, op.onFile := by
    cases h <;> simp [NfsOp.onFile]
  refine finishes_call hvalid (ServedFile.serves_exchange s _ _) fun resp _ hserve => ?_
  obtain ⟨slot, response, results, rfl, hdelivered, hresults⟩ :=
    hserve (NfsSession.length_lt_of_validate hvalid) x.components.length tail
      ⟨Or.inr ⟨rfl, hops⟩, htail⟩
  have hans : Replies.Answers ((call.ops s).map NfsOp.opcode)
      ⟨.putFh :: (List.replicate x.components.length .lookup ++ results), none⟩ := by
    refine Replies.answers_of_map_opcode ?_
    rw [hops, List.map_append, SessionCall.map_opcode_exportPathOps, ← FileAnswers.map_opcode hresults]
    simp [OpRes.opcode]
  have hsupported : call.Supported
      (.putFh :: (List.replicate x.components.length .lookup ++ results)) := by
    -- whatever is not a result of the path was answered by the file
    have hanswer : ∀ o ∈ OpRes.putFh :: (List.replicate x.components.length .lookup ++ results),
        o ≠ .putFh → o ≠ .lookup → ∃ op, FileAnswers x.fh x.bytes op o := by
      intro o ho hfh hlookup
      rcases List.mem_append.mp ((List.mem_cons.mp ho).resolve_left hfh) with ho | ho
      · exact absurd (List.eq_of_mem_replicate ho) hlookup
      · exact FileAnswers.of_mem hresults ho
    refine ⟨fun res hmem => ?_, fun handle hmem => ?_, fun attrs request hmem hrequest => ?_,
      fun verifier listed eof hmem => ?_, ?_⟩
    · obtain ⟨op, h⟩ := hanswer _ hmem (by simp) (by simp)
      cases op <;> cases h
    · obtain ⟨op, h⟩ := hanswer _ hmem (by simp) (by simp)
      cases op with
      | getFh => exact Nat.le_trans (Nat.le_of_eq (congrArg List.length h)) x.handle_le
      | _ => cases h
    · obtain ⟨op, hop⟩ := hanswer _ hmem (by simp) (by simp)
      have hsize : attrs.size = some (.ofNat x.bytes.length) := by
        cases op with
        | getAttr bitmap => exact hop
        | _ => cases hop
      cases h <;> cases hrequest <;> simp [Fattr.Satisfies, hsize]
    · obtain ⟨op, h⟩ := hanswer _ hmem (by simp) (by simp)
      cases op <;> cases h
    · cases h <;> trivial
  obtain ⟨value, hreceived, hvalue⟩ :=
    SessionCall.received_complete (s := s) call hdelivered hans hsupported
  exact ⟨value, hreceived, results, value, rfl, hresults, hvalue⟩

/-- What a lookup returns is the handle. -/
theorem FileAnswers.lookupFileHandle {n : ℕ} {results : List OpRes} {value : FileHandle}
    (hresults : List.Forall₂ (FileAnswers x.fh x.bytes) [.getFh] results)
    (hvalue : (SessionCall.lookupFileHandle x.components).value
      (.putFh :: (List.replicate n .lookup ++ results)) = some value) : value = x.fh := by
  obtain ⟨o, os, ho, hos, rfl⟩ := List.forall₂_cons_left_iff.mp hresults
  obtain ⟨handle, rfl, hhandle⟩ := ho.getFh
  cases hos
  have hfound := SessionCall.findSome?_path OpRes.handle? rfl rfl n [.getFh handle]
  cases hvalue.symm.trans hfound
  exact congrArg FileHandle.mk hhandle

/-- What a `READ` by path returns comes from the file. -/
theorem FileAnswers.readPathAnonymous {n offset count : ℕ} {results : List OpRes}
    {value : ReadData}
    (hresults : List.Forall₂ (FileAnswers x.fh x.bytes) [.read .anonymous offset count] results)
    (hvalue : (SessionCall.readPathAnonymous x.components offset count).value
      (.putFh :: (List.replicate n .lookup ++ results)) = some value) :
    Served x.bytes offset count value := by
  obtain ⟨o, os, ho, hos, rfl⟩ := List.forall₂_cons_left_iff.mp hresults
  obtain ⟨eof, data, rfl, hserved⟩ := ho.read
  cases hos
  have hfound := SessionCall.findSome?_path OpRes.read? rfl rfl n [.read eof data]
  cases hvalue.symm.trans hfound
  exact hserved

theorem FileAnswers.readPathAnonymousWithHandle {n offset count : ℕ} {results : List OpRes}
    {value : FileHandle × ReadData}
    (hresults : List.Forall₂ (FileAnswers x.fh x.bytes)
      [.getFh, .read .anonymous offset count] results)
    (hvalue : (SessionCall.readPathAnonymousWithHandle x.components offset count).value
      (.putFh :: (List.replicate n .lookup ++ results)) = some value) :
    value.1 = x.fh ∧ Served x.bytes offset count value.2 := by
  obtain ⟨o, os, ho, hos, rfl⟩ := List.forall₂_cons_left_iff.mp hresults
  obtain ⟨o', os', ho', hos', rfl⟩ := List.forall₂_cons_left_iff.mp hos
  obtain ⟨handle, rfl, hhandle⟩ := ho.getFh
  obtain ⟨eof, data, rfl, hserved⟩ := ho'.read
  cases hos'
  have hfound : (SessionCall.readPathAnonymousWithHandle x.components offset count).value
      (.putFh :: (List.replicate n .lookup ++ [.getFh handle, .read eof data]))
        = some (⟨handle.bytes⟩, ⟨eof, data.bytes⟩) := by
    simp only [SessionCall.value, SessionCall.findSome?_path OpRes.handle? rfl rfl,
      SessionCall.findSome?_path OpRes.read? rfl rfl]
    rfl
  cases hvalue.symm.trans hfound
  exact ⟨congrArg FileHandle.mk hhandle, hserved⟩

theorem finishes_lookupFileHandle (hadmits : s.AdmitsReads x) :
    Thread.Finishes (E := effects) x.serves (fun r _ => r = .ok x.fh) 1
      (s.call (.lookupFileHandle x.components)).run () := by
  refine (finishes_pathRead hadmits .lookup).mono ?_
  rintro _ _ ⟨results, value, rfl, hresults, hvalue⟩
  rw [FileAnswers.lookupFileHandle hresults hvalue]

theorem finishes_lookupFileHandleAttrs (hadmits : s.AdmitsReads x) :
    Thread.Finishes (E := effects) x.serves
      (fun r _ => ∃ attrs, r = .ok (x.fh, attrs) ∧ attrs.size = some (.ofNat x.bytes.length)) 1
      (s.call (.lookupFileHandleAttrs x.components .size)).run () := by
  refine (finishes_pathRead hadmits .attrs).mono ?_
  rintro _ _ ⟨results, value, rfl, hresults, hvalue⟩
  obtain ⟨o, os, ho, hos, rfl⟩ := List.forall₂_cons_left_iff.mp hresults
  obtain ⟨o', os', ho', hos', rfl⟩ := List.forall₂_cons_left_iff.mp hos
  obtain ⟨handle, rfl, hhandle⟩ := ho.getFh
  obtain ⟨attrs, rfl, hattrs⟩ := ho'.getAttr
  cases hos'
  have hfound : (SessionCall.lookupFileHandleAttrs x.components .size).value
      (.putFh :: (List.replicate x.components.length .lookup ++ [.getFh handle, .getAttr attrs]))
        = some (⟨handle.bytes⟩, attrs.attrs) := by
    simp only [SessionCall.value, SessionCall.findSome?_path OpRes.handle? rfl rfl,
      SessionCall.findSome?_path OpRes.attrs? rfl rfl]
    rfl
  cases hvalue.symm.trans hfound
  exact ⟨attrs.attrs, by rw [hhandle], hattrs⟩

theorem finishes_readPathAnonymous (hadmits : s.AdmitsReads x) (offset count : ℕ) :
    Thread.Finishes (E := effects) x.serves
      (fun r _ => ∃ read, r = .ok read ∧ Served x.bytes offset count read) 1
      (s.call (.readPathAnonymous x.components offset count)).run () := by
  refine (finishes_pathRead hadmits (.read offset count)).mono ?_
  rintro _ _ ⟨results, value, rfl, hresults, hvalue⟩
  exact ⟨value, rfl, FileAnswers.readPathAnonymous hresults hvalue⟩

theorem finishes_readPathAnonymousWithHandle (hadmits : s.AdmitsReads x) (offset count : ℕ) :
    Thread.Finishes (E := effects) x.serves
      (fun r _ => ∃ read, r = .ok (x.fh, read) ∧ Served x.bytes offset count read) 1
      (s.call (.readPathAnonymousWithHandle x.components offset count)).run () := by
  refine (finishes_pathRead hadmits (.readHandle offset count)).mono ?_
  rintro _ _ ⟨results, ⟨fh, read⟩, rfl, hresults, hvalue⟩
  obtain ⟨rfl, hserved⟩ := FileAnswers.readPathAnonymousWithHandle hresults hvalue
  exact ⟨read, rfl, hserved⟩

theorem finishes_readPathAnonymousWithSize (hadmits : s.AdmitsReads x) (count : ℕ) :
    Thread.Finishes (E := effects) x.serves
      (fun r _ => ∃ read, r = .ok (x.fh, .ofNat x.bytes.length, read) ∧
        Served x.bytes 0 count read) 1
      (s.call (.readPathAnonymousWithSize x.components count)).run () := by
  refine (finishes_pathRead hadmits (.readSize count)).mono ?_
  rintro _ _ ⟨results, value, rfl, hresults, hvalue⟩
  obtain ⟨o, os, ho, hos, rfl⟩ := List.forall₂_cons_left_iff.mp hresults
  obtain ⟨o', os', ho', hos', rfl⟩ := List.forall₂_cons_left_iff.mp hos
  obtain ⟨o'', os'', ho'', hos'', rfl⟩ := List.forall₂_cons_left_iff.mp hos'
  obtain ⟨handle, rfl, hhandle⟩ := ho.getFh
  obtain ⟨attrs, rfl, hattrs⟩ := ho'.getAttr
  obtain ⟨eof, data, rfl, hserved⟩ := ho''.read
  cases hos''
  have hsize : ([.getFh handle, .getAttr attrs, .read eof data] : List OpRes).findSome? OpRes.size?
      = some (.ofNat x.bytes.length) := by
    simp only [List.findSome?_cons, OpRes.size?, hattrs]
  have hfound : (SessionCall.readPathAnonymousWithSize x.components count).value
      (.putFh :: (List.replicate x.components.length .lookup
        ++ [.getFh handle, .getAttr attrs, .read eof data]))
        = some (⟨handle.bytes⟩, .ofNat x.bytes.length, ⟨eof, data.bytes⟩) := by
    simp only [SessionCall.value, SessionCall.findSome?_path OpRes.handle? rfl rfl,
      SessionCall.findSome?_path OpRes.size? rfl rfl, hsize,
      SessionCall.findSome?_path OpRes.read? rfl rfl]
    rfl
  cases hvalue.symm.trans hfound
  exact ⟨⟨eof, data.bytes⟩, by rw [hhandle], hserved⟩

/-! ### Attempts -/

variable {requirements : ReadRequirements} {start len : ℕ}

theorem must_readRangeAnonymous (hadmits : s.AdmitsReads x) (hpos : 0 < len)
    (hrange : start + len < 2 ^ 64) (hreserve : requirements.reserve len = .ok ())
    (hfits : requirements.Fits x.bytes 0 start len)
    (hexpected : ∀ e, requirements.expectedEof = some e → e.offset ≤ start + len) :
    Must (E := effects) x.serves (fun r _ => requirements.Ended x.bytes [] start len r)
      (readRangeAnonymous s x.components start len requirements).run () := by
  have hgranularity := hadmits.granularity
  unfold readRangeAnonymous
  split
  · next hsingle =>
    have hsmall : len < 2 ^ 32 := by
      have hlt := s.config.readGranularity.toNat_lt
      unfold NfsSession.readGranularity at hsingle
      omega
    dsimp only
    rw [asU32_eq hsmall]
    refine must_bindExcept (must_liftThreadExcept
      ((finishes_readPathAnonymous hadmits start len).mono ?_))
    rintro _ _ ⟨read, rfl, hserved⟩
    have hshort := hserved.short
    refine must_bindExcept (must_except ?_)
    rw [hserved.validate hpos]
    refine must_bindExcept (must_except ?_)
    rw [hserved.within hfits]
    dsimp only
    split
    · next hdone =>
      refine must_bindExcept (must_except ?_)
      rw [addU64_eq (by omega)]
      exact must_check (hserved.ended hdone hexpected)
    · -- the file is read again by its handle
      refine must_bindExcept (must_liftThreadExcept ((finishes_lookupFileHandle hadmits).mono ?_))
      rintro _ _ rfl
      exact x.must_of_servesFile ⟨s, hadmits⟩ (must_readHandleToBytes hadmits.handle hadmits.chunk
        hgranularity hrange hpos hreserve hfits hexpected)
  · next hlarge =>
    refine must_bindExcept (must_liftThreadExcept
      ((finishes_readPathAnonymousWithHandle hadmits start s.readGranularity).mono ?_))
    rintro _ _ ⟨read, rfl, hread⟩
    have hshort := hread.short
    have hserved : Served x.bytes start len read := hread.mono hgranularity (by omega)
    have hadd : addU64 start read.data.length = .ok (start + read.data.length) :=
      addU64_eq (by omega)
    refine must_bindExcept (must_except ?_)
    rw [hread.validate hgranularity]
    refine must_bindExcept (must_except ?_)
    rw [hserved.within hfits]
    dsimp only
    split
    · next heof =>
      refine must_bindExcept (must_except ?_)
      rw [hadd]
      have hdone : (!readNeedsRetry read len) = true := by simp [readNeedsRetry, heof]
      exact must_check (heof ▸ hserved.ended hdone hexpected)
    · next heof =>
      have hbelow : start + read.data.length < x.bytes.length :=
        Nat.lt_of_not_le fun hle => heof (hserved.eof.mpr hle)
      have htotal : read.data.length + (len - read.data.length) = len := by omega
      refine must_bindExcept (must_except ?_)
      rw [hadd]
      refine must_bindExcept (must_except ?_)
      rw [subU64_eq (by omega)]
      refine (x.must_of_servesFile ⟨s, hadmits⟩ (must_readHandleToBytesAfterPrefix hadmits.handle
        hadmits.chunk hgranularity (by omega) (by omega) (by rw [htotal]; exact hreserve)
        (hserved.fits_rest hfits))).mono fun r _ hr => hserved.ended_append hbelow hr

theorem smallGetProbeCount_pos {limit : Option ℕ} (hlimit : limit ≠ some 0)
    (hgranularity : 0 < s.readGranularity) : 0 < smallGetProbeCount s limit := by
  cases limit with
  | none => exact hgranularity
  | some l =>
    have hlt := s.config.readGranularity.toNat_lt
    have hl : l ≠ 0 := fun h => hlimit (by rw [h])
    unfold NfsSession.readGranularity at hgranularity
    rw [smallGetProbeCount, NfsSession.readGranularity, asU32_eq (by omega)]
    omega

end

namespace NfsClient

variable {client : NfsClient} {x : ServedFile} {s : NfsSession}

/-- A result of `size` bytes, if the limit of the client allows it. -/
def limited (client : NfsClient) (size : ℕ) (result : Except Error Bytes) : Except Error Bytes :=
  match client.maxBufferedReadSize with
  | some limit =>
      if size ≤ limit then result else .error (.bufferedReadTooLarge (some size) limit)
  | none => result

/-- A buffer for a read of `size` bytes can be reserved. -/
def CanReserve (client : NfsClient) (size : ℕ) : Prop :=
  ∀ limit, client.maxBufferedReadSize = some limit → min size limit < 2 ^ 63

theorem CanReserve.reserve {size : ℕ} (h : client.CanReserve size)
    (expectedEof : Option ExpectedEof) (n : ℕ) :
    ReadRequirements.reserve ⟨some size, expectedEof, client.maxBufferedReadSize⟩ n = .ok () := by
  refine if_pos ?_
  simp only [bufferedReadCapacity, Option.getD_some]
  cases hlimit : client.maxBufferedReadSize with
  | none =>
    simp only [Option.getD_none, DEFAULT_MAX_BUFFERED_READ_SIZE]
    omega
  | some limit => exact h limit hlimit

theorem CanReserve.mono {size size' : ℕ} (h : client.CanReserve size) (hle : size' ≤ size) :
    client.CanReserve size' := by
  intro limit hlimit
  have := h limit hlimit
  omega

theorem limited_of_le {size : ℕ}
    (h : ∀ limit, client.maxBufferedReadSize = some limit → size ≤ limit)
    (result : Except Error Bytes) : client.limited size result = result := by
  unfold limited
  cases hlimit : client.maxBufferedReadSize with
  | none => rfl
  | some limit => exact if_pos (h limit hlimit)

/-- The check of a known size. -/
theorem ensureKnownSizeWithinLimit_cases (client : NfsClient) (size : ℕ) :
    (∀ limit, client.maxBufferedReadSize = some limit → size ≤ limit) ∧
      ensureKnownSizeWithinLimit size client.maxBufferedReadSize = .ok () ∨
    ∃ err, ensureKnownSizeWithinLimit size client.maxBufferedReadSize = .error err ∧
      ∀ result, client.limited size result = .error err := by
  cases hlimit : client.maxBufferedReadSize with
  | none => exact Or.inl ⟨nofun, rfl⟩
  | some limit =>
    by_cases hle : size ≤ limit
    · refine Or.inl ⟨?_, if_neg (by omega)⟩
      rintro _ ⟨⟩
      exact hle
    · refine Or.inr ⟨_, if_pos (by omega), fun result => ?_⟩
      simp only [limited, hlimit, if_neg hle]

/-- The file is within the limit, or it is refused before it is read. -/
theorem must_getOnce (hadmits : s.AdmitsReads x) (hlimit : client.maxBufferedReadSize ≠ some 0)
    (hsize : x.bytes.length < 2 ^ 63) :
    Must (E := effects) x.serves (fun r _ => r = client.limited x.bytes.length (.ok x.bytes))
      (client.getOnce s x.components).run () := by
  have hcount := smallGetProbeCount_pos (s := s) hlimit hadmits.granularity
  have hlength : (UInt64.ofNat x.bytes.length).toNat = x.bytes.length :=
    UInt64.toNat_ofNat_of_lt' x.size_lt
  unfold getOnce
  refine must_bindExcept (must_liftThreadExcept
    ((finishes_readPathAnonymousWithSize hadmits _).mono ?_))
  rintro _ _ ⟨read, rfl, hserved⟩
  refine must_bindExcept (must_except ?_)
  rw [hserved.validate hcount]
  refine must_bindExcept (must_except ?_)
  rw [hlength]
  obtain ⟨hle, hok⟩ | ⟨err, herr, hlimited⟩ :=
    client.ensureKnownSizeWithinLimit_cases x.bytes.length
  · have hlen := congrArg List.length hserved.data
    rw [length_slice] at hlen
    rw [hok, limited_of_le hle]
    dsimp only
    split
    · next hfull =>
      have heof : read.eof = true := hserved.eof.mpr (by omega)
      have hdata : read.data = x.bytes := by rw [hserved.data, hfull, slice_whole]
      have hvalid : validateEofExpectation (.resolvedWithFile x.bytes.length) read.data.length
          read.eof = .ok () := by
        rw [validateEofExpectation, if_pos heof]
        exact if_pos hfull
      refine must_check ?_
      rw [hvalid, hdata]
      rfl
    · next hpart =>
      have hbelow : read.data.length < x.bytes.length := by omega
      have heof : ¬ read.eof = true := fun heof => by
        have := hserved.eof.mp heof
        omega
      have hmeets : (ReadRequirements.resolvedExact x.bytes.length client.maxBufferedReadSize).Meets
          x.bytes read.data.length read.data.length (x.bytes.length - read.data.length) := by
        refine ⟨fun l hl => ?_, ?_⟩
        · have := hle l hl
          rw [length_slice]
          omega
        · rintro _ ⟨⟩
          exact ⟨rfl, by omega, by omega, by omega⟩
      have hreserve : client.CanReserve x.bytes.length := fun limit _ => by omega
      rw [if_neg (by omega), if_neg heof]
      refine must_bindExcept (must_except ?_)
      rw [subU64_eq (by omega)]
      refine (x.must_of_servesFile ⟨s, hadmits⟩ (must_readHandleToBytesAfterPrefix hadmits.handle
        hadmits.chunk hadmits.granularity (by omega) (by omega) (hreserve.reserve _ _)
        hmeets.limit)).mono fun r _ hr => ?_
      rw [hmeets.eq_ok hr.outcome]
      have happend := hserved.append_slice (x.bytes.length - read.data.length)
      rw [Nat.zero_add, Nat.add_sub_of_le (by omega), slice_whole] at happend
      rw [happend]
  · rw [herr, hlimited]

/-- The range is cut at the end of the file; what is left is within the limit, or it is
refused before it is read. -/
theorem must_getRangeOnce {start «end» : ℕ} (hadmits : s.AdmitsReads x) (hrange : start < «end»)
    (hend : «end» < 2 ^ 64) (hreserve : client.CanReserve («end» - start)) :
    Must (E := effects) x.serves
      (fun r _ => r = client.limited (slice x.bytes start («end» - start)).length
        (.ok (slice x.bytes start («end» - start))))
      (client.getRangeOnce s x.components start «end»).run () := by
  have hlength : (UInt64.ofNat x.bytes.length).toNat = x.bytes.length :=
    UInt64.toNat_ofNat_of_lt' x.size_lt
  unfold getRangeOnce
  refine must_bindExcept (must_except ?_)
  rw [subU64_eq (by omega)]
  dsimp only
  split
  · next hsmall =>
    -- no result can exceed the limit
    have hle : ∀ l, client.maxBufferedReadSize = some l → «end» - start ≤ l := by
      intro l hl
      rw [rangeReadNeedsSize, hl] at hsmall
      simpa using hsmall
    have hmeets : (ReadRequirements.new (some («end» - start)) client.maxBufferedReadSize).Meets
        x.bytes ([] : Bytes).length start («end» - start) := by
      refine ⟨fun l hl => ?_, nofun⟩
      have := hle l hl
      rw [length_slice, List.length_nil]
      omega
    refine (must_readRangeAnonymous hadmits (by omega) (by omega) (hreserve.reserve _ _)
      hmeets.limit nofun).mono fun r _ hr => ?_
    rw [hmeets.eq_ok hr.outcome, limited_of_le fun l hl => ?_]
    · rfl
    · have := hle l hl
      rw [length_slice]
      omega
  · refine must_bindExcept (must_liftThreadExcept
      ((finishes_lookupFileHandleAttrs hadmits).mono ?_))
    rintro _ _ ⟨attrs, rfl, hattrs⟩
    have hexpected : bufferedRangeLen start «end» (attrs.size.map UInt64.toNat)
        = .ok (slice x.bytes start («end» - start)).length := by
      rw [hattrs, Option.map_some, hlength, bufferedRangeLen, length_slice]
      split
      · congr 1
        omega
      · congr 1
        omega
    generalize hsize : (slice x.bytes start («end» - start)).length = size at hexpected
    refine must_bindExcept (must_except ?_)
    rw [hexpected]
    refine must_bindExcept (must_except ?_)
    obtain ⟨hle, hok⟩ | ⟨err, herr, hlimited⟩ := client.ensureKnownSizeWithinLimit_cases size
    · rw [hok, limited_of_le hle]
      have hmin : min size («end» - start) = size := by
        rw [length_slice] at hsize
        omega
      dsimp only
      rw [hmin]
      split
      · next hzero =>
        rw [List.eq_nil_of_length_eq_zero (hsize.trans hzero)]
        exact must_pure rfl
      · next hpos =>
        have hslice : slice x.bytes start («end» - start) = slice x.bytes start size := by
          rw [length_slice] at hsize
          rcases Nat.le_total («end» - start) (x.bytes.length - start) with hfull | hcut
          · rw [Nat.min_eq_left hfull] at hsize
            rw [hsize]
          · exact slice_eq_slice (by omega) (by omega)
        have hmeets : (ReadRequirements.new (some size) client.maxBufferedReadSize).Meets
            x.bytes ([] : Bytes).length start size := by
          refine ⟨fun l hl => ?_, nofun⟩
          have := hle l hl
          rw [length_slice, List.length_nil]
          omega
        have hreserve : client.CanReserve size := hreserve.mono (by omega)
        refine (x.must_of_servesFile ⟨s, hadmits⟩ (must_readHandleToBytes hadmits.handle
          hadmits.chunk hadmits.granularity (by omega) (by omega) (hreserve.reserve _ _)
          hmeets.limit nofun)).mono fun r _ hr => ?_
        rw [hmeets.eq_ok hr.outcome, hslice]
        rfl
    · rw [herr, hlimited]

/-- A size within the limit is compared with that of the file. -/
theorem must_getKnownSizeOnce {size : ℕ} (hadmits : s.AdmitsReads x) (hsize : size < 2 ^ 64)
    (hreserve : client.CanReserve size) :
    Must (E := effects) x.serves
      (fun r _ => ∃ result, r = client.limited size result ∧
        (size = x.bytes.length → result = .ok x.bytes) ∧
        (size ≠ x.bytes.length → ∃ actual, result = .error (.fileSizeMismatch size actual)))
      (client.getKnownSizeOnce s x.components size).run () := by
  unfold getKnownSizeOnce
  refine must_bindExcept (must_except ?_)
  obtain ⟨hle, hok⟩ | ⟨err, herr, hlimited⟩ := client.ensureKnownSizeWithinLimit_cases size
  · rw [hok]
    dsimp only
    split
    · next hzero =>
      subst hzero
      refine must_bindExcept (must_liftThreadExcept
        ((finishes_readPathAnonymous hadmits 0 1).mono ?_))
      rintro _ _ ⟨read, rfl, hserved⟩
      refine must_bindExcept (must_except ?_)
      rw [hserved.validate Nat.one_pos]
      refine must_check ⟨_, (limited_of_le hle _).symm, fun heq => ?_, fun hne => ?_⟩
      · have hnil : x.bytes = [] := List.eq_nil_of_length_eq_zero heq.symm
        have hdata : read.data = [] := by rw [hserved.data, hnil, slice, List.drop_nil, List.take_nil]
        have heof : read.eof = true := hserved.eof_of_empty Nat.one_pos hdata
        rw [hdata, heof, hnil]
        rfl
      · have hdata : read.data ≠ [] := hserved.progress (by omega) Nat.one_pos
        have hlen : read.data.length ≠ 0 := fun h => hdata (List.eq_nil_of_length_eq_zero h)
        unfold validateEofExpectation
        dsimp only [ExpectedEof.offset]
        rw [if_neg hlen, if_pos (Nat.zero_le _)]
        split
        · exact ⟨_, rfl⟩
        · exact ⟨_, rfl⟩
    · next hpos =>
      have hfits : (ReadRequirements.exact size client.maxBufferedReadSize).Fits x.bytes 0 0 size := by
        intro l hl
        have := hle l hl
        rw [length_slice]
        omega
      refine (must_readRangeAnonymous hadmits (by omega) (by omega) (hreserve.reserve _ _) hfits
        ?_).mono fun r _ hr => ⟨r, (limited_of_le hle r).symm, fun heq => ?_, fun hne => ?_⟩
      · rintro _ ⟨⟩
        exact Nat.le_of_eq (Nat.zero_add size).symm
      · have hmeets : (ReadRequirements.exact size client.maxBufferedReadSize).Meets
            x.bytes ([] : Bytes).length 0 size := by
          refine ⟨hfits, ?_⟩
          rintro _ ⟨⟩
          exact ⟨heq, by omega, by omega, by omega⟩
        rw [hmeets.eq_ok hr.outcome, heq, slice_whole]
        rfl
      · exact hr.outcome.eq_error rfl (by rw [Nat.max_eq_left (Nat.zero_le _)]; exact hne)
  · rw [herr]
    refine ⟨if size = x.bytes.length then .ok x.bytes else .error (.fileSizeMismatch size none),
      (hlimited _).symm, fun heq => if_pos heq, fun hne => ⟨none, if_neg hne⟩⟩

end NfsClient

/-! ### Operations -/

section

variable {client : NfsClient} {x : ServedFile}

/-- Neither a result nor a size over the limit asks for another session. -/
theorem NfsClient.not_rebuild_of_limited {size : ℕ} {result : Except Error Bytes}
    (h : ∀ err, result = .error err → err.requiresSessionRebuild = false) (err : Error)
    (herr : client.limited size result = .error err) : err.requiresSessionRebuild = false := by
  unfold NfsClient.limited at herr
  split at herr
  · split at herr
    · exact h err herr
    · cases herr
      rfl
  · exact h err herr

/-- An operation that resolves the path and reads the file. -/
theorem must_resolved (operation : NfsSession → ClientM Bytes)
    {post : Except Error Bytes → Unit → Prop} (hsession : ∃ s : NfsSession, s.AdmitsReads x)
    (h : ∀ s : NfsSession, s.AdmitsReads x → Must (E := effects) x.serves
      (fun r w => post r w ∧ ∀ err, r = .error err → err.requiresSessionRebuild = false)
      (operation s).run ()) :
    Must (E := effects) x.serves post
      (retryingSessionOperation fun snapshot => operation snapshot.session).run () := by
  obtain ⟨s, hs⟩ := hsession
  exact must_retryingSessionOperation ⟨⟨s, 0⟩, (), hs⟩ fun snapshot _ hadmits => h _ hadmits

end

/-- A file of three bytes. -/
def threeBytes : ServedFile where
  components := ["f"]
  fh := ⟨[7]⟩
  bytes := [1, 2, 3]
  handle_le := by decide
  size_lt := by decide

theorem smallReads_admitsReads : smallReads.AdmitsReads threeBytes where
  handle := smallReads_admitsRead
  path call tail h := by
    -- the length of a request does not depend on the range
    cases h with
    | lookup => decide +kernel
    | attrs => decide +kernel
    | read offset count =>
      change smallReads.validateCompoundRequest "read-path-anon"
        ((SessionCall.readPathAnonymous ["f"] 0 0).ops smallReads) = _
      decide +kernel
    | readHandle offset count =>
      change smallReads.validateCompoundRequest "read-path-handle"
        ((SessionCall.readPathAnonymousWithHandle ["f"] 0 0).ops smallReads) = _
      decide +kernel
    | readSize count =>
      change smallReads.validateCompoundRequest "read-path-size"
        ((SessionCall.readPathAnonymousWithSize ["f"] 0).ops smallReads) = _
      decide +kernel
  chunk := by decide
  granularity := by decide

/-- The server, for a client that works on one session. -/
def ServedFile.servesOn (x : ServedFile) (s : NfsSession) (e : Effect) (w : Unit) (r : e.Response)
    (w' : Unit) : Prop :=
  x.serves e w r w' ∧ match e, r with
    | .currentSession, snapshot => ClientSession.session snapshot = s
    | _, _ => True

/-- A range and a limit beyond `isize::MAX`: the file is longer than the first `READ`, and the
buffer for the rest of the range cannot be reserved. -/
theorem must_readRangeAnonymous_panics :
    Must (E := effects) threeBytes.serves (fun r _ => r = .error (.panic "capacity overflow"))
      (readRangeAnonymous smallReads ["f"] 0 (2 ^ 64 - 1)
        (.new (some (2 ^ 64 - 1)) (some (2 ^ 64 - 1)))).run () := by
  unfold readRangeAnonymous
  rw [if_neg (by decide)]
  refine must_bindExcept (must_liftThreadExcept
    ((finishes_readPathAnonymousWithHandle smallReads_admitsReads 0 2).mono ?_))
  rintro _ _ ⟨read, rfl, hserved⟩
  have hshort := hserved.short
  have heof : ¬ read.eof = true := fun heof => by
    have hend : 3 ≤ 0 + read.data.length := hserved.eof.mp heof
    omega
  refine must_bindExcept (must_except ?_)
  rw [show validateReadReply read smallReads.readGranularity = .ok () from
    hserved.validate (by decide)]
  refine must_bindExcept (must_except ?_)
  rw [ensureBufferedReadWithinLimit_eq fun l hl => by cases hl; omega]
  dsimp only
  rw [if_neg heof]
  refine must_bindExcept (must_except ?_)
  rw [addU64_eq (by omega)]
  refine must_bindExcept (must_except ?_)
  rw [subU64_eq (by omega)]
  refine must_bindExcept (must_except ?_)
  rw [addU64_eq (by omega)]
  refine must_bindExcept (must_except ?_)
  rfl

end NfsCrust
